import EnvAudit.Declaration
import Mathlib.Data.List.DropRight
import Mathlib.Data.List.TakeWhile

/-!
# Reading to the end

Each part of an entry leaves less text behind than it began with, so a reader that may take as many entries as there
are characters reads every text to its end. What it does with a text then depends on the beginning of the text alone.
-/
namespace EnvAudit.Declaration

open EnvAudit.Text (isBlank)

/-! ## What is left behind a part -/

private theorem length_separator {text rest : List Char} (found : separator? text = some rest) :
    rest.length < text.length := by
  unfold separator? at found
  split at found
  · split at found
    · cases found
      simp only [List.length_cons]
      omega
    · cases found
  · split at found
    next equals =>
      cases found
      have shorter := List.length_dropWhile_le isBlank text
      rw [equals, List.length_cons] at shorter
      omega
    · cases found

private theorem length_key {text rest key : List Char} (found : key? text = some (key, rest)) :
    rest.length < text.length := by
  unfold key? at found
  split at found
  · cases found
  · simp only [Option.map_eq_some_iff, Prod.mk.injEq] at found
    obtain ⟨behind, separated, -, rfl⟩ := found
    have shorter := length_separator separated
    have most := List.length_dropWhile_le isKeyChar text
    omega

private theorem length_afterExport {text rest : List Char} (found : afterExport? text = some rest) :
    rest.length ≤ text.length := by
  unfold afterExport? at found
  split at found
  · split at found
    next c behind dropped =>
      split at found
      · cases found
        have blanks := List.length_dropWhile_le isBlank behind
        have most := congrArg List.length dropped
        simp only [List.length_drop, List.length_cons] at most
        omega
      · cases found
    · cases found
  · cases found

theorem length_opening {text rest key : List Char} (found : opening? text = some (key, rest)) :
    rest.length < text.length := by
  rcases Option.or_eq_some_iff.mp found with exported | ⟨-, plain⟩
  · obtain ⟨behind, word, opened⟩ := Option.bind_eq_some_iff.mp exported
    have most := length_afterExport word
    have shorter := length_key opened
    omega
  · exact length_key plain

private theorem length_ending {text behind : List Char} (found : ending? text = some behind) :
    behind.length ≤ text.length := by
  have most := List.length_dropWhile_le isBlank text
  unfold ending? at found
  split at found
  · cases found
    exact Nat.zero_le _
  next c rest dropped =>
    rw [dropped, List.length_cons] at most
    split at found
    · cases found
      have comment := List.length_dropWhile_le (fun c => decide (c ≠ '\n')) rest
      omega
    · split at found
      · cases found
        simpa using most
      · cases found

/-- What was found before the end of a value counts against the same bound as what is still to be read. -/
private theorem length_closing {quote : Char} {escaped : Bool} {start read text behind : List Char}
    {found : Option (List Char × List Char)} {bound : Nat}
    (known : ∀ read behind, found = some (read, behind) → behind.length ≤ bound) (within : text.length ≤ bound)
    (closed : closing? quote escaped start found text = some (read, behind)) : behind.length ≤ bound := by
  induction text generalizing escaped start found with
  | nil => exact known read behind closed
  | cons c rest ih =>
    have shorter : rest.length ≤ bound := by
      rw [List.length_cons] at within
      omega
    -- A quote counts as the end so far if the entry can end behind it.
    have here : ∀ read behind, ((ending? rest).map fun behind => (start, behind)).or found = some (read, behind) →
        behind.length ≤ bound := by
      intro read behind ended
      rcases Option.or_eq_some_iff.mp ended with new | ⟨-, old⟩
      · obtain ⟨left, ending, same⟩ := Option.map_eq_some_iff.mp new
        cases same
        have most := length_ending ending
        omega
      · exact known read behind old
    unfold closing? at closed
    split at closed
    · split at closed
      · exact ih here shorter closed
      · exact here read behind closed
    · exact ih known shorter closed

private theorem length_plainValue (text : List Char) : (plainValue text).2.length ≤ text.length := by
  have most := List.length_dropWhile_le (fun c => c ≠ '#' && c ≠ '\n') text
  simp only [plainValue]
  cases ended : ending? (text.dropWhile fun c => c ≠ '#' && c ≠ '\n') with
  | none => exact most
  | some behind => exact (length_ending ended).trans most

private theorem length_value (text : List Char) : (value text).2.length ≤ text.length := by
  have most := List.length_dropWhile_le isBlank text
  unfold value
  split
  next quote rest dropped =>
    rw [dropped, List.length_cons] at most
    split
    · split
      next read behind closed => exact length_closing (by simp) (by omega) closed
      · exact length_plainValue text
    · exact length_plainValue text
  · exact length_plainValue text

/-! ## Enough entries -/

theorem length_passed {text : List Char} (begun : text.dropWhile isBlank ≠ []) :
    ((text.dropWhile isBlank).dropWhile (· ≠ '\n')).length < (text.dropWhile isBlank).length := by
  cases dropped : text.dropWhile isBlank with
  | nil => exact absurd dropped begun
  | cons c rest =>
    have first := List.head?_dropWhile_not isBlank text
    have differ : c ≠ '\n' := by
      rintro rfl
      simp [dropped, isBlank] at first
    have most := List.length_dropWhile_le (fun c => decide (c ≠ '\n')) rest
    rw [List.dropWhile_cons_of_pos (by simpa using differ), List.length_cons]
    omega

/-- A reader that may take as many entries as there are characters takes all entries. -/
private theorem readOnto_enough {first second : Nat} {text : List Char} (entries : Entries)
    (some : text.length ≤ first) (enough : text.length ≤ second) :
    readOnto first entries text = readOnto second entries text := by
  -- Both readers take the same step, and it leaves less text than either has steps left.
  induction first generalizing second entries text with
  | zero =>
    obtain rfl := List.length_eq_zero_iff.mp (Nat.le_zero.mp some)
    cases second <;> simp [readOnto]
  | succ first ih =>
    cases second with
    | zero =>
      obtain rfl := List.length_eq_zero_iff.mp (Nat.le_zero.mp enough)
      simp [readOnto]
    | succ second =>
      have most := List.length_dropWhile_le isBlank text
      simp only [readOnto]
      split
      · rfl
      next line begun =>
        split
        next key rest opened =>
          have shorter := length_opening opened
          have behind := length_value rest
          exact ih _ (by omega) (by omega)
        · have passed := length_passed begun
          exact ih _ (by omega) (by omega)

/-- Reads all entries of a text. -/
def readAll (entries : Entries) (text : List Char) : Entries := readOnto text.length entries text

theorem readAll_eq_readOnto {fuel : Nat} {text : List Char} (entries : Entries) (enough : text.length ≤ fuel) :
    readAll entries text = readOnto fuel entries text :=
  readOnto_enough entries (Nat.le_refl _) enough

theorem entries_eq_readAll (text : String) : entries text = readAll [] (normalize text.toList) := rfl

/-! ## Steps -/

@[simp] theorem readAll_nil (entries : Entries) : readAll entries [] = entries := rfl

theorem readAll_dropWhile (entries : Entries) (text : List Char) :
    readAll entries (text.dropWhile isBlank) = readAll entries text := by
  have most := List.length_dropWhile_le isBlank text
  have enough : text.length ≤ text.length + 1 := Nat.le_succ _
  rw [readAll_eq_readOnto entries enough, readAll_eq_readOnto entries (most.trans enough)]
  simp only [readOnto, List.dropWhile_idempotent]

theorem readAll_blanks {blanks : List Char} (blank : ∀ c ∈ blanks, isBlank c = true) (entries : Entries)
    (text : List Char) : readAll entries (blanks ++ text) = readAll entries text := by
  rw [← readAll_dropWhile entries (blanks ++ text), List.dropWhile_append_of_pos blank, readAll_dropWhile]

theorem readAll_of_opening {text key rest : List Char} (entries : Entries)
    (opened : opening? (text.dropWhile isBlank) = some (key, rest)) :
    readAll entries text = readAll (entries.put (String.ofList key) (String.ofList (value rest).1)) (value rest).2 := by
  have shorter := length_opening opened
  have behind := length_value rest
  have most := List.length_dropWhile_le isBlank text
  have enough : (value rest).2.length ≤ text.length := by omega
  rw [readAll_eq_readOnto entries (Nat.le_succ text.length), readAll_eq_readOnto _ enough]
  simp only [readOnto]
  split
  next ended =>
    rw [ended] at opened
    cases opened
  · simp only [opened]

theorem readAll_of_not_opening {text : List Char} (entries : Entries)
    (unopened : opening? (text.dropWhile isBlank) = none) :
    readAll entries text = readAll entries ((text.dropWhile isBlank).dropWhile (· ≠ '\n')) := by
  have most := List.length_dropWhile_le isBlank text
  rw [readAll_eq_readOnto entries (Nat.le_succ text.length)]
  simp only [readOnto]
  split
  next ended => rw [ended, List.dropWhile_nil, readAll_nil]
  next begun =>
    have passed := length_passed begun
    have enough : ((text.dropWhile isBlank).dropWhile (· ≠ '\n')).length ≤ text.length := by omega
    rw [unopened, readAll_eq_readOnto entries enough]

theorem opening_comment (text : List Char) : opening? ('#' :: text) = none := by
  simp [opening?, afterExport?, exportWord, key?, isKeyChar]

/-- What ends an entry declares nothing itself. -/
theorem readAll_of_ending {text behind : List Char} (entries : Entries) (ended : ending? text = some behind) :
    readAll entries behind = readAll entries text := by
  unfold ending? at ended
  split at ended
  next dropped =>
    cases ended
    rw [← readAll_dropWhile entries text, dropped]
  next c rest dropped =>
    split at ended
    next mark =>
      cases ended
      subst mark
      have unopened : opening? (text.dropWhile isBlank) = none := by rw [dropped, opening_comment]
      -- From the mark of a comment on, the reader passes the rest of the line itself.
      rw [readAll_of_not_opening entries unopened, dropped, List.dropWhile_cons_of_pos (by decide)]
    · split at ended
      · cases ended
        rw [← dropped, readAll_dropWhile]
      · cases ended

end EnvAudit.Declaration
