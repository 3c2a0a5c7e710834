import EnvAudit.Proofs.Declaration.Document
import EnvAudit.Proofs.Declaration.Reading
import EnvAudit.Proofs.Text.Stretch
import Mathlib

/-!
# Openings

How an entry begins: a key with its separator. What a line opens with is opened in front of any text behind the line as
well; a line that opens nothing may come to open something only where its key lies open to that text.
-/
namespace EnvAudit.Declaration

open EnvAudit.Text (isBlank stop_of_dropWhile takeWhile_of_stop dropWhile_of_stop dropWhile_append_of_begun)

/-! ## Characters of keys -/

theorem not_isKeyChar_of_isBlank {c : Char} (blank : isBlank c = true) : isKeyChar c = false := by
  simp only [isBlank, isKeyChar, Char.isAlphanum, Char.isAlpha, Char.isUpper, Char.isLower, Char.isDigit,
    Bool.or_eq_true, Bool.and_eq_true, decide_eq_true_eq, Bool.or_eq_false_iff, Bool.and_eq_false_iff,
    decide_eq_false_iff_not, Char.le_def, UInt32.le_iff_toNat_le, Char.ext_iff, ← UInt32.toNat_inj, ge_iff_le] at *
  simp at *
  omega

theorem not_isBlank_of_isKeyChar {c : Char} (member : isKeyChar c = true) : isBlank c = false := by
  by_contra blank
  rw [Bool.not_eq_false] at blank
  rw [not_isKeyChar_of_isBlank blank] at member
  cases member

/-! ## Separators and keys -/

theorem separator_equals {text rest : List Char} (first : ∀ c ∈ text.head?, c ≠ ':')
    (begun : text.dropWhile isBlank = '=' :: rest) : separator? text = some rest := by
  unfold separator?
  split
  · exact absurd rfl (first ':' rfl)
  · rw [begun]
    rfl

theorem separator_none {text : List Char} (first : ∀ c ∈ text.head?, c ≠ ':')
    (begun : ∀ c ∈ (text.dropWhile isBlank).head?, c ≠ '=') : separator? text = none := by
  unfold separator?
  split
  · exact absurd rfl (first ':' rfl)
  · split
    next equals => exact absurd rfl (begun '=' (by rw [equals]; rfl))
    · rfl

/-- A separator is a colon in front of white space, or an equals sign behind white space. -/
theorem separator_eq_some {text rest : List Char} (found : separator? text = some rest) :
    (∃ c, text = ':' :: c :: rest ∧ isBlank c = true) ∨
      (∀ c ∈ text.head?, c ≠ ':') ∧ text.dropWhile isBlank = '=' :: rest := by
  unfold separator? at found
  split at found
  next c behind =>
    split at found
    next blank =>
      cases found
      exact .inl ⟨c, rfl, blank⟩
    · cases found
  next noColon =>
    split at found
    next behind begun =>
      cases found
      refine .inr ⟨?_, begun⟩
      rintro c first rfl
      -- A colon is no white space, so the equals sign would be the colon.
      obtain ⟨left, rfl⟩ := List.head?_eq_some_iff.mp first
      rw [List.dropWhile_cons_of_neg (by decide)] at begun
      cases begun
    · cases found

theorem separator_append {text rest : List Char} (found : separator? text = some rest) (behind : List Char) :
    separator? (text ++ behind) = some (rest ++ behind) := by
  rcases separator_eq_some found with ⟨c, rfl, blank⟩ | ⟨first, begun⟩
  · exact if_pos blank
  · refine separator_equals ?_ (dropWhile_append_of_begun begun)
    cases text with
    | nil => cases begun
    | cons c text => exact first

theorem separator_suffix {text rest : List Char} (found : separator? text = some rest) : rest <:+ text := by
  rcases separator_eq_some found with ⟨c, rfl, -⟩ | ⟨-, begun⟩
  · exact ⟨[':', c], rfl⟩
  · exact (List.suffix_cons '=' rest).trans (begun ▸ List.dropWhile_suffix isBlank)

theorem key_none {text : List Char} (first : ∀ c ∈ text.head?, isKeyChar c = false) : key? text = none := by
  unfold key?
  cases text with
  | nil => rfl
  | cons c text => rw [List.takeWhile_cons_of_neg (by simp [first c rfl])]

theorem key_eq_some {text key rest : List Char} (found : key? text = some (key, rest)) :
    ∃ behind, text = key ++ behind ∧ key ≠ [] ∧ (∀ c ∈ key, isKeyChar c = true) ∧
      (∀ c ∈ behind.head?, isKeyChar c = false) ∧ separator? behind = some rest := by
  unfold key? at found
  split at found
  · cases found
  next some_ =>
    simp only [Option.map_eq_some_iff, Prod.mk.injEq] at found
    obtain ⟨behind, separated, rfl, rfl⟩ := found
    refine ⟨text.dropWhile isKeyChar, List.takeWhile_append_dropWhile.symm, some_,
      fun c => List.mem_takeWhile_imp, stop_of_dropWhile isKeyChar text, separated⟩

theorem key_of_separator {key behind rest : List Char} (some_ : key ≠ []) (chars : ∀ c ∈ key, isKeyChar c = true)
    (stop : ∀ c ∈ behind.head?, isKeyChar c = false) (separated : separator? behind = some rest) :
    key? (key ++ behind) = some (key, rest) := by
  unfold key?
  rw [takeWhile_of_stop chars stop, dropWhile_of_stop chars stop, separated]
  cases key with
  | nil => exact absurd rfl some_
  | cons c key => rfl

theorem key_append {text key rest : List Char} (found : key? text = some (key, rest)) (behind : List Char) :
    key? (text ++ behind) = some (key, rest ++ behind) := by
  obtain ⟨left, rfl, some_, chars, stop, separated⟩ := key_eq_some found
  rw [List.append_assoc]
  refine key_of_separator some_ chars ?_ (separator_append separated behind)
  cases left with
  | nil => cases separated
  | cons c left => exact stop

theorem key_suffix {text key rest : List Char} (found : key? text = some (key, rest)) : rest <:+ text := by
  obtain ⟨left, rfl, -, -, -, separated⟩ := key_eq_some found
  exact (separator_suffix separated).trans (List.suffix_append _ _)

/-! ## The word `export` -/

theorem afterExport_word {c : Char} (blank : isBlank c = true) (rest : List Char) :
    afterExport? (exportWord ++ c :: rest) = some (rest.dropWhile isBlank) := by
  unfold afterExport?
  rw [if_pos (List.isPrefixOf_iff_prefix.mpr (List.prefix_append _ _)), List.drop_left]
  exact if_pos blank

theorem afterExport_eq_some {text rest : List Char} (found : afterExport? text = some rest) :
    ∃ c behind, text = exportWord ++ c :: behind ∧ isBlank c = true ∧ rest = behind.dropWhile isBlank := by
  unfold afterExport? at found
  split at found
  next word =>
    obtain ⟨behind, rfl⟩ := List.isPrefixOf_iff_prefix.mp word
    rw [List.drop_left] at found
    split at found
    next c behind =>
      split at found
      next blank =>
        cases found
        exact ⟨c, behind, rfl, blank, rfl⟩
      · cases found
    · cases found
  · cases found

/-- Where the word `export` is a key itself, no key follows it. -/
private theorem key_behind_export {c : Char} {behind : List Char} (blank : isBlank c = true)
    (found : key? (exportWord ++ c :: behind) ≠ none) : key? (behind.dropWhile isBlank) = none := by
  apply key_none
  intro begin first
  by_contra member
  rw [Bool.not_eq_false] at member
  apply found
  have stop : ∀ d ∈ (c :: behind).head?, isKeyChar d = false := by
    simpa using not_isKeyChar_of_isBlank blank
  have colon : ∀ d ∈ (c :: behind).head?, d ≠ ':' := by
    rintro d same rfl
    cases same
    cases blank
  have equals : ∀ d ∈ ((c :: behind).dropWhile isBlank).head?, d ≠ '=' := by
    rintro d same rfl
    rw [List.dropWhile_cons_of_pos blank] at same
    cases same.symm.trans first
    cases member
  have word : ∀ d ∈ exportWord, isKeyChar d = true := by simp [exportWord, isKeyChar]
  unfold key?
  rw [takeWhile_of_stop word stop, dropWhile_of_stop word stop, separator_none colon equals]
  rfl

/-! ## Openings -/

theorem opening_of_key {text : List Char} {opened : List Char × List Char} (found : key? text = some opened) :
    opening? text = some opened := by
  unfold opening?
  cases exported : afterExport? text with
  | none => exact found
  | some rest =>
    obtain ⟨c, behind, rfl, blank, rfl⟩ := afterExport_eq_some exported
    rw [Option.bind_some, key_behind_export blank (by simp [found])]
    exact found

theorem opening_export {c : Char} (blank : isBlank c = true) {behind : List Char} {opened : List Char × List Char}
    (found : key? (behind.dropWhile isBlank) = some opened) : opening? (exportWord ++ c :: behind) = some opened := by
  rw [opening?, afterExport_word blank, Option.bind_some, found]
  rfl

/-- An entry opens with a key, or with the word `export`, white space and a key. -/
theorem opening_eq_some {text : List Char} {opened : List Char × List Char} (found : opening? text = some opened) :
    key? text = some opened ∨ ∃ c behind, text = exportWord ++ c :: behind ∧ isBlank c = true ∧
      key? (behind.dropWhile isBlank) = some opened := by
  rcases Option.or_eq_some_iff.mp found with exported | ⟨-, plain⟩
  · obtain ⟨rest, word, read⟩ := Option.bind_eq_some_iff.mp exported
    obtain ⟨c, behind, rfl, blank, rfl⟩ := afterExport_eq_some word
    exact .inr ⟨c, behind, rfl, blank, read⟩
  · exact .inl plain

/-- What opens an entry opens it whatever stands behind. -/
theorem opening_append {text key rest : List Char} (found : opening? text = some (key, rest)) (behind : List Char) :
    opening? (text ++ behind) = some (key, rest ++ behind) := by
  rcases opening_eq_some found with plain | ⟨c, left, rfl, blank, read⟩
  · exact opening_of_key (key_append plain behind)
  · rw [List.append_assoc, List.cons_append]
    refine opening_export blank ?_
    cases begun : left.dropWhile isBlank with
    | nil =>
      rw [begun] at read
      cases read
    | cons d inner =>
      rw [dropWhile_append_of_begun begun, ← List.cons_append, ← begun]
      exact key_append read behind

theorem opening_suffix {text key rest : List Char} (found : opening? text = some (key, rest)) : rest <:+ text := by
  rcases opening_eq_some found with plain | ⟨c, left, rfl, blank, read⟩
  · exact key_suffix plain
  · have within : left.dropWhile isBlank <:+ c :: left :=
      (List.dropWhile_suffix isBlank).trans (List.suffix_cons c left)
    exact (key_suffix read).trans (within.trans (List.suffix_append _ _))

/-! ## Lines that open nothing -/

/-- A line begins with a key; white space and the word `export` may stand before it. -/
inductive Begins : (line behind : List Char) → Prop
  | key {blanks behind : List Char} (key : KeyText) (blank : ∀ c ∈ blanks, isBlank c = true) :
      Begins (blanks ++ (key.val ++ behind)) behind
  | exported {blanks gap behind : List Char} (key : KeyText) (blank : ∀ c ∈ blanks, isBlank c = true)
      (some : gap ≠ []) (gapBlank : ∀ c ∈ gap, isBlank c = true) :
      Begins (blanks ++ (exportWord ++ (gap ++ (key.val ++ behind)))) behind

theorem Begins.suffix {line behind : List Char} (begins : Begins line behind) : behind <:+ line := by
  cases begins with
  | @key blanks _ key => exact ⟨blanks ++ key.val, by simp⟩
  | @exported blanks gap _ key => exact ⟨blanks ++ exportWord ++ gap ++ key.val, by simp⟩

/-- A key behind the word `export` and white space. -/
private theorem begins_export {c : Char} {left behind : List Char} (blank : isBlank c = true) (key : KeyText)
    (begun : left.dropWhile isBlank = key.val ++ behind) : Begins (exportWord ++ c :: left) behind := by
  have cut : exportWord ++ c :: left = [] ++ (exportWord ++ (c :: left.takeWhile isBlank ++ (key.val ++ behind))) := by
    rw [← begun, List.cons_append, List.takeWhile_append_dropWhile, List.nil_append]
  rw [cut]
  refine .exported key (by simp) (by simp) ?_
  exact List.forall_mem_cons.mpr ⟨blank, fun d => List.mem_takeWhile_imp⟩

theorem begins_of_opening {text key rest : List Char} (found : opening? text = some (key, rest)) :
    ∃ behind, Begins text behind ∧ separator? behind = some rest := by
  rcases opening_eq_some found with plain | ⟨c, left, rfl, blank, read⟩
  · obtain ⟨behind, rfl, some_, chars, -, separated⟩ := key_eq_some plain
    exact ⟨behind, @Begins.key [] behind ⟨key, some_, chars⟩ (by simp), separated⟩
  · obtain ⟨behind, begun, some_, chars, -, separated⟩ := key_eq_some read
    exact ⟨behind, begins_export blank ⟨key, some_, chars⟩ begun, separated⟩

section Unopened

variable {line rest : List Char}

theorem dropWhile_line {p : Char → Bool} (stop : p '\n' = false) (starts : ∀ c ∈ rest.head?, c = '\n') :
    (line ++ rest).dropWhile p = line.dropWhile p ++ rest := by
  cases begun : line.dropWhile p with
  | nil =>
    have behind : ∀ c ∈ rest.head?, p c = false := fun c first => by rw [starts c first, stop]
    rw [dropWhile_of_stop (List.dropWhile_eq_nil_iff.mp begun) behind, List.nil_append]
  | cons c left => exact dropWhile_append_of_begun begun

/-- A line without a key and a separator has none in front of a rest either, unless its key lies open to it. -/
private theorem key_behind (starts : ∀ c ∈ rest.head?, c = '\n') (unread : key? line = none)
    (closed : ∀ (key : KeyText) (behind : List Char), line = key.val ++ behind → separator? behind = none →
      separator? (behind ++ rest) = none) : key? (line ++ rest) = none := by
  have split : line.takeWhile isKeyChar ++ line.dropWhile isKeyChar = line := List.takeWhile_append_dropWhile
  by_cases keyless : line.takeWhile isKeyChar = []
  · apply key_none
    intro c first
    rw [keyless, List.nil_append] at split
    rw [← split, ← dropWhile_line (by decide) starts] at first
    exact stop_of_dropWhile isKeyChar (line ++ rest) c first
  · let key : KeyText := ⟨line.takeWhile isKeyChar, keyless, fun c => List.mem_takeWhile_imp⟩
    have separated : separator? (line.dropWhile isKeyChar) = none := by
      unfold key? at unread
      split at unread
      next empty => exact absurd empty keyless
      next => simpa using unread
    have still := closed key (line.dropWhile isKeyChar) split.symm separated
    unfold key?
    rw [dropWhile_line (by decide) starts, still]
    split <;> rfl

/-- A word at the beginning of a line and white space behind it: the word is on the line. -/
private theorem export_within {c : Char} {behind : List Char} (starts : ∀ c ∈ rest.head?, c = '\n')
    (same : line ++ rest = exportWord ++ c :: behind) : ∃ left, line = exportWord ++ left := by
  rcases List.append_eq_append_iff.mp same with ⟨word, cut, begun⟩ | ⟨left, cut, -⟩
  · cases word with
    | nil => exact ⟨[], by simpa using cut.symm⟩
    | cons d word =>
      -- A line feed would be part of the word.
      have first : d = '\n' := starts d (by simp [begun])
      have member : d ∈ exportWord := by simp [cut]
      rw [first] at member
      exact absurd member (by decide)
  · exact ⟨left, cut⟩

/-- A line that opens nothing opens nothing in front of a rest, unless its key lies open to the rest. Only the word
`export` at its end is read on, and what stands behind it is then read as it is read without that word. -/
theorem opening_behind (starts : ∀ c ∈ rest.head?, c = '\n') (unopened : opening? line = none)
    (closed : ∀ behind, Begins line behind → separator? behind = none → separator? (behind ++ rest) = none) :
    opening? (line ++ rest) = none ∨ opening? (line ++ rest) = opening? (rest.dropWhile isBlank) := by
  have unexported := (Option.or_eq_none_iff.mp unopened).1
  have plain : key? (line ++ rest) = none := by
    refine key_behind starts (Option.or_eq_none_iff.mp unopened).2 ?_
    rintro key behind rfl
    exact closed behind (@Begins.key [] behind key (by simp))
  cases exported : afterExport? (line ++ rest) with
  | none =>
    left
    rw [opening?, exported, plain]
    rfl
  | some behind =>
    obtain ⟨c, left, same, blank, rfl⟩ := afterExport_eq_some exported
    have opened : opening? (line ++ rest) = key? (left.dropWhile isBlank) := by
      rw [opening?, exported, plain, Option.or_none, Option.bind_some]
    obtain ⟨last, rfl⟩ := export_within starts same
    rw [List.append_assoc, List.append_cancel_left_eq] at same
    have trimmed : left.dropWhile isBlank = (last ++ rest).dropWhile isBlank := by
      rw [same, List.dropWhile_cons_of_pos blank]
    rw [opened, trimmed]
    cases begun : last.dropWhile isBlank with
    | nil =>
      rw [List.dropWhile_append_of_pos (List.dropWhile_eq_nil_iff.mp begun)]
      cases read : key? (rest.dropWhile isBlank) with
      | none => exact .inl rfl
      | some found => exact .inr (opening_of_key read).symm
    | cons d inner =>
      left
      -- The white space behind the word is on the line, so the line has the key that follows it.
      obtain ⟨e, gap, rfl⟩ : ∃ e gap, last = e :: gap := by
        cases last with
        | nil => cases begun
        | cons e gap => exact ⟨e, gap, rfl⟩
      obtain ⟨rfl, -⟩ := List.cons.inj same
      rw [List.dropWhile_cons_of_pos blank] at begun
      have unread : key? (gap.dropWhile isBlank) = none := by
        rw [afterExport_word blank, Option.bind_some] at unexported
        exact unexported
      rw [dropWhile_append_of_begun (List.dropWhile_cons_of_pos blank ▸ begun), ← List.cons_append, ← begun]
      refine key_behind starts unread ?_
      exact fun key behind inside => closed behind (begins_export blank key inside)

end Unopened

end EnvAudit.Declaration
