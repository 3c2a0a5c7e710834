import EnvAudit.Proofs.Declaration.Exact
import EnvAudit.Proofs.Declaration.Matches
import EnvAudit.Proofs.KeyList

/-!
# Entries where they stand

The entries that the reader finds in a text, one behind the other, each with the lines that it takes. Whatever the text,
each of them is a stretch from the beginning of a line to the end of one, spelled as entries are, and what a file declares
is what these stretches say: a key stands where it is found first, with the value that is found for it last.
-/
namespace EnvAudit.Declaration

open EnvAudit.Text (isBlank stop_of_dropWhile takeWhile_of_stop)

/-! ## Whole lines -/

/-- The text from the first line on that begins in it. A line may have begun in front of it. -/
def fromLine (lineBegun : Bool) (text : List Char) : List Char :=
  if lineBegun then text else (text.dropWhile (· ≠ '\n')).tail

/-- The front of a text that has `behind` at its end. -/
def upTo (text behind : List Char) : List Char := text.take (text.length - behind.length)

theorem upTo_append (front behind : List Char) : upTo (front ++ behind) behind = front := by
  simp [upTo]

theorem upTo_append_self {text behind : List Char} (suffix : behind <:+ text) : upTo text behind ++ behind = text := by
  obtain ⟨front, rfl⟩ := suffix
  rw [upTo_append]

/-- The text from the end of the line on in which an entry ends. The reader leaves `behind` of the text, and may have
passed that end already. -/
def lineEnd (text behind : List Char) : List Char :=
  if behind.head?.all (· = '\n') then behind
  else '\n' :: ((upTo text behind).rtakeWhile (· ≠ '\n') ++ behind)

private theorem rtakeWhile_break (front : List Char) {line : List Char} (noBreak : '\n' ∉ line) :
    (front ++ '\n' :: line).rtakeWhile (· ≠ '\n') = line := by
  have turned : (front ++ '\n' :: line).reverse = line.reverse ++ '\n' :: front.reverse := by simp
  rw [List.rtakeWhile, turned, takeWhile_of_stop ?_ (by simp), List.reverse_reverse]
  intro c member
  simpa using fun same : c = '\n' => noBreak (same ▸ List.mem_reverse.mp member)

/-- The last break of a text and the line behind it. -/
private theorem exists_last_break {text : List Char} (broken : '\n' ∈ text) :
    ∃ front line, text = front ++ '\n' :: line ∧ '\n' ∉ line := by
  obtain ⟨line, front, turned, noBreak⟩ := List.eq_append_cons_of_mem (List.mem_reverse.mpr broken)
  refine ⟨front.reverse, line.reverse, ?_, fun member => noBreak (List.mem_reverse.mp member)⟩
  rw [← text.reverse_reverse, turned]
  simp

/-- A line begins at the beginning of a text or behind a break. -/
def LineStart (before : List Char) : Prop := before = [] ∨ before.getLast? = some '\n'

/-- Where a search for entries goes on: at the beginning of a line, or in front of a break or of nothing. -/
def Resumes (lineBegun : Bool) (before text : List Char) : Prop :=
  if lineBegun then LineStart before else ∀ c ∈ text.head?, c = '\n'

theorem fromLine_spelled {lineBegun : Bool} {before text : List Char} (resumes : Resumes lineBegun before text)
    (some : text.dropWhile isBlank ≠ []) : ∃ lead, before ++ text = lead ++ fromLine lineBegun text ∧ LineStart lead ∧
      ∃ margin : Blanks, fromLine lineBegun text = margin.val ++ text.dropWhile isBlank := by
  cases lineBegun with
  -- The entry takes all white space in front of it, from where the search goes on.
  | true => exact ⟨before, rfl, resumes, blanksOf text, (blanksOf_append text).symm⟩
  | false =>
    cases text with
    | nil => exact absurd rfl some
    | cons c rest =>
      -- The break at hand ends the line before, and the white space behind it is the entry's.
      obtain rfl := resumes c rfl
      refine ⟨before ++ ['\n'], by simp [fromLine], .inr (by simp), blanksOf rest, ?_⟩
      rw [List.dropWhile_cons_of_pos (by decide), blanksOf_append]
      simp [fromLine]

theorem lineEnd_spelled {front behind : List Char} {tail : Tail} (ends : tail.Ends behind) :
    ∃ closed : Tail, tail.text ++ behind = closed.text ++ lineEnd (front ++ (tail.text ++ behind)) behind ∧
      (∀ c ∈ (lineEnd (front ++ (tail.text ++ behind)) behind).head?, c = '\n') ∧
      ∃ blanks : Blanks, lineEnd (front ++ (tail.text ++ behind)) behind = blanks.val ++ behind := by
  have all_iff : behind.head?.all (· = '\n') = true ↔ ∀ c ∈ behind.head?, c = '\n' := by cases behind <;> simp
  by_cases ended : behind.head?.all (· = '\n') = true
  · -- The reader stopped where a line ends.
    have same : lineEnd (front ++ (tail.text ++ behind)) behind = behind := if_pos ended
    rw [same]
    exact ⟨tail, rfl, all_iff.mp ended, ⟨[], by simp⟩, rfl⟩
  · -- The reader passed the white space behind the entry as well, whose last break is the end of the entry.
    obtain ⟨plain, feed⟩ := ends.resolve_left (mt all_iff.mpr ended)
    obtain ⟨lead, line, blanks, noBreak⟩ := exists_last_break feed
    have text : tail.text = lead ++ '\n' :: line := by simp [Tail.text, plain, commentText, blanks]
    have within : ∀ c ∈ lead ++ '\n' :: line, isBlank c = true := blanks ▸ tail.blanks.property
    have stop : lineEnd (front ++ (tail.text ++ behind)) behind = '\n' :: (line ++ behind) := by
      have taken : upTo (front ++ (tail.text ++ behind)) behind = front ++ lead ++ '\n' :: line := by
        rw [← List.append_assoc, upTo_append, text, List.append_assoc]
      rw [lineEnd, if_neg ended, taken, rtakeWhile_break _ noBreak]
    rw [stop]
    refine ⟨⟨⟨lead, fun c member => within c (List.mem_append_left _ member)⟩, none⟩, ?_, by simp,
      ⟨'\n' :: line, fun c member => within c (List.mem_append_right _ member)⟩, rfl⟩
    rw [text]
    simp [Tail.text, commentText]

/-- The text from the end of the line on in which an entry ends, behind its separator. -/
def entryEnd (rest : List Char) : List Char := lineEnd rest (value rest).2

/-- The value behind a separator, up to the end of a line. -/
theorem entryEnd_spelled (rest : List Char) : ∃ (gap : Blanks) (raw : Raw) (tail : Tail),
    rest = gap.val ++ (raw.text ++ (tail.text ++ entryEnd rest)) ∧ (value rest).1 = raw.meaning ∧
      (∀ c ∈ (entryEnd rest).head?, c = '\n') ∧
      ∃ blanks : Blanks, entryEnd rest = blanks.val ++ (value rest).2 := by
  obtain ⟨gap, raw, tail, spelled, meaning, ends⟩ := value_spelled rest
  obtain ⟨closed, same, stop, left⟩ := @lineEnd_spelled (gap.val ++ raw.text) _ tail ends
  rw [List.append_assoc, ← spelled] at same stop left
  refine ⟨gap, raw, closed, ?_, meaning, stop, left⟩
  rw [entryEnd, ← same]
  exact spelled

theorem entryEnd_suffix (rest : List Char) : entryEnd rest <:+ rest := by
  obtain ⟨gap, raw, tail, spelled, -⟩ := entryEnd_spelled rest
  exact ⟨gap.val ++ (raw.text ++ tail.text), by simpa using spelled.symm⟩

section Left

variable {text left key rest : List Char} {c : Char}

private theorem entryEnd_left (begun : text.dropWhile isBlank = c :: left)
    (opened : opening? (c :: left) = some (key, rest)) : entryEnd rest <:+ text := by
  obtain ⟨exported, name, mark, opening, -⟩ := opening_spelled opened
  have behind : rest <:+ c :: left :=
    ⟨Match.exportText exported ++ (name.val ++ mark.text), by rw [opening]; simp⟩
  exact ((entryEnd_suffix rest).trans behind).trans (begun ▸ List.dropWhile_suffix isBlank)

private theorem length_entryEnd (begun : text.dropWhile isBlank = c :: left)
    (opened : opening? (c :: left) = some (key, rest)) : (entryEnd rest).length < text.length := by
  have most := List.length_dropWhile_le isBlank text
  have shorter := length_opening opened
  have within := (entryEnd_suffix rest).length_le
  rw [begun] at most
  omega

private theorem length_unopened (begun : text.dropWhile isBlank = c :: left) :
    ((c :: left).dropWhile (· ≠ '\n')).length < text.length := by
  have most := List.length_dropWhile_le isBlank text
  have passed := length_passed (show text.dropWhile isBlank ≠ [] by simp [begun])
  rw [begun] at most passed
  omega

end Left

/-! ## Entries one after another -/

/-- An entry where it is found in a text. -/
structure Found where
  /-- The text from the beginning of its first line on. -/
  here : List Char
  /-- The text from the end of its last line on. -/
  behind : List Char
  key : List Char
  value : List Char

def Found.entry (found : Found) : String × String := (String.ofList found.key, String.ofList found.value)

/-- The entries that are found in a text, from the front. Blank lines in front of an entry are taken along with it. -/
def findings (lineBegun : Bool) (text : List Char) : List Found :=
  match _ : text.dropWhile isBlank with
  | [] => []
  | c :: left =>
    match _ : opening? (c :: left) with
    | some (key, rest) =>
      { here := fromLine lineBegun text, behind := entryEnd rest, key, value := (value rest).1 } ::
        findings ((upTo text (entryEnd rest)).getLast? = some '\n') (entryEnd rest)
    | none => findings false ((c :: left).dropWhile (· ≠ '\n'))
termination_by text.length
decreasing_by
  · exact length_entryEnd ‹_› ‹_›
  · exact length_unopened ‹_›

/-- An entry stands in a text as a stretch of whole lines: it begins where a line does and ends where one does. -/
def Found.StandsIn (text : List Char) (found : Found) : Prop :=
  ∃ (before : List Char) (stretch : Match), text = before ++ found.here ∧ LineStart before ∧
    found.here = stretch.text ++ found.behind ∧ (∀ c ∈ found.behind.head?, c = '\n') ∧
    found.key = stretch.key.val ∧ found.value = stretch.raw.meaning

theorem Match.text_ne_nil (stretch : Match) : stretch.text ≠ [] := by
  simp [Match.text, stretch.key.property.1]

/-- What the reader declares is what is found, one entry after the other. -/
theorem readAll_findings (known : Entries) (lineBegun : Bool) (text : List Char) :
    readAll known text = known.putAll ((findings lineBegun text).map Found.entry) := by
  fun_induction findings lineBegun text generalizing known with
  | case1 lineBegun text blank =>
    rw [← readAll_dropWhile, blank]
    rfl
  | case2 lineBegun text c left begun key rest opened ih =>
    -- The reader may be ahead of the end of the entry, but by white space alone, and that declares nothing.
    obtain ⟨-, -, -, -, -, -, blanks, passed⟩ := entryEnd_spelled rest
    rw [readAll_of_opening known (begun.symm ▸ opened), ← readAll_blanks blanks.property, ← passed, ih, List.map_cons,
      putAll_cons, Found.entry]
  | case3 lineBegun text c left begun unopened ih =>
    rw [readAll_of_not_opening known (begun.symm ▸ unopened), begun, ih]

/-- The entry that is found next is a stretch of whole lines. -/
private theorem standsIn_opened {lineBegun : Bool} {before text left key rest : List Char} {c : Char}
    (resumes : Resumes lineBegun before text) (begun : text.dropWhile isBlank = c :: left)
    (opened : opening? (c :: left) = some (key, rest)) :
    Found.StandsIn (before ++ text)
      { here := fromLine lineBegun text, behind := entryEnd rest, key, value := (value rest).1 } := by
  obtain ⟨lead, whole, start, margin, line⟩ := fromLine_spelled resumes (by simp [begun])
  obtain ⟨exported, name, mark, opening, same⟩ := opening_spelled opened
  obtain ⟨gap, raw, tail, spelled, meaning, stop, -⟩ := entryEnd_spelled rest
  refine ⟨lead, ⟨margin, exported, name, mark, gap, raw, tail⟩, whole, start, ?_, stop, same.symm, meaning⟩
  simp only [Match.text, List.append_assoc]
  rw [← spelled, ← opening, ← begun, line]

/-- Behind an entry the search goes on. -/
private theorem resumes_stop {before text stop : List Char}
    (start : (upTo text stop).getLast? = some '\n' → LineStart before) (broken : ∀ c ∈ stop.head?, c = '\n') :
    Resumes ((upTo text stop).getLast? = some '\n') before stop := by
  unfold Resumes
  split
  next ended => exact start (of_decide_eq_true ended)
  next => exact broken

/-- Wherever the search for entries goes on, what it finds are stretches of whole lines. -/
theorem standsIn_of_found {lineBegun : Bool} {before text : List Char} (resumes : Resumes lineBegun before text) :
    ∀ found ∈ findings lineBegun text, found.StandsIn (before ++ text) := by
  fun_induction findings lineBegun text generalizing before with
  | case1 lineBegun text blank => exact List.forall_mem_nil _
  | case2 lineBegun text c left begun key rest opened ih =>
    refine List.forall_mem_cons.mpr ⟨standsIn_opened resumes begun opened, ?_⟩
    -- The search goes on with what this entry leaves, and what it takes stands in front of that.
    obtain ⟨-, -, -, -, -, broken, -⟩ := entryEnd_spelled rest
    have whole : before ++ text = before ++ upTo text (entryEnd rest) ++ entryEnd rest := by
      rw [List.append_assoc, upTo_append_self (entryEnd_left begun opened)]
    rw [whole]
    exact ih (resumes_stop (fun ended => .inr (by simp [List.getLast?_append, ended])) broken)
  | case3 lineBegun text c left begun unopened ih =>
    -- The line that begins no entry is passed over, up to its break.
    have split := blanksOf_append text
    have passed := List.takeWhile_append_dropWhile (p := (· ≠ '\n')) (l := c :: left)
    rw [begun, ← passed] at split
    rw [← split, ← List.append_assoc, ← List.append_assoc]
    exact ih fun d first => by simpa using stop_of_dropWhile (· ≠ '\n') (c :: left) d first

/-- Of the entries that are found, each later one stands behind all of an earlier one. -/
theorem findings_ordered (lineBegun : Bool) (text : List Char) :
    (findings lineBegun text).Pairwise fun found later => later.here <:+ found.behind := by
  fun_induction findings lineBegun text with
  | case1 lineBegun text blank => exact .nil
  | case2 lineBegun text c left begun key rest opened ih =>
    refine List.pairwise_cons.mpr ⟨fun later member => ?_, ih⟩
    -- What is left is searched as a text of its own, so that a later entry stands in it as in any text.
    obtain ⟨-, -, -, -, -, broken, -⟩ := entryEnd_spelled rest
    obtain ⟨before, -, split, -⟩ := standsIn_of_found (resumes_stop (fun _ => .inl rfl) broken) later member
    exact ⟨before, split.symm⟩
  | case3 lineBegun text c left begun unopened ih => exact ih

/-- Every text is read to its end, whatever stands in it. The entries that are found are stretches of whole lines, none of
them empty and each behind the ones before it, and are spelled as entries are: a key behind the beginning of a line, white
space and possibly the word `export`, then a mark, and a value in one line or between two quotes. The file declares what
they say: every key once, at the place of the first entry with it and with the value of the last. -/
theorem entries_found (text : String) :
    let normal := normalize text.toList
    let found := findings true normal
    (∀ most, normal.length ≤ most → readOnto most [] normal = entries text) ∧
    (∀ entry ∈ found, entry.StandsIn normal ∧ entry.behind.length < entry.here.length) ∧
    found.Pairwise (fun entry later => later.here <:+ entry.behind) ∧
    entries text = settled (found.map Found.entry) ∧ ((entries text).map Prod.fst).Nodup ∧
    ∀ declared ∈ entries text, ∃ entry ∈ found, entry.entry = declared := by
  intro normal found
  have all : entries text = settled (found.map Found.entry) := by
    rw [entries_eq_readAll, readAll_findings [] true, putAll_nil]
  refine ⟨fun most enough => ?_, fun entry member => ?_, findings_ordered true normal, all, ?_, fun declared member => ?_⟩
  · rw [entries_eq_readAll, readAll_eq_readOnto [] enough]
  · have stands := @standsIn_of_found true [] normal (.inl rfl) entry member
    refine ⟨stands, ?_⟩
    obtain ⟨-, stretch, -, -, here, -⟩ := stands
    have some := List.length_pos_iff.mpr stretch.text_ne_nil
    rw [here, List.length_append]
    omega
  · rw [all, keys_settled]
    exact KeyList.nodup_eraseDups _
  · rw [all] at member
    exact List.mem_map.mp (mem_of_mem_settled member)

end EnvAudit.Declaration
