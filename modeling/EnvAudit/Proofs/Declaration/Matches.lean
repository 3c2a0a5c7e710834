import EnvAudit.Proofs.Declaration.Parts

/-!
# Stretches of entries

What the reader takes for an entry in any text, well-formed or not: white space and possibly the word `export`, a key,
its mark, a value with or without quotes, and at the end white space and possibly a comment.
-/
namespace EnvAudit.Declaration

open EnvAudit.Text (isBlank stop_of_dropWhile trim trimStart trimEnd)

/-! ## Parts of a stretch -/

/-- A run of white space of any kind, line feeds among it. -/
abbrev Blanks := { chars : List Char // ∀ c ∈ chars, isBlank c = true }

/-- White space that is there. -/
abbrev Space := { blanks : Blanks // blanks.val ≠ [] }

/-- What tells a key from its value: an equals sign behind white space, or a colon and white space behind it. -/
inductive Mark where
  | equals (before : Blanks)
  | colon (space : Space)

def Mark.text : Mark → List Char
  | equals before => before.val ++ ['=']
  | colon space => ':' :: space.val.val

/-- What a value is read from: characters of one line without white space at their ends, or any between two quotes. -/
inductive Raw where
  | plain (chars : List Char) (within : ∀ c ∈ chars, c ≠ '#' ∧ c ≠ '\n')
      (first : ∀ c ∈ chars.head?, isBlank c = false) (last : ∀ c ∈ chars.getLast?, isBlank c = false)
  | quoted (quote : Quote) (inner : List Char)

namespace Raw

def text : Raw → List Char
  | plain chars _ _ _ => chars
  | quoted quote inner => quote.char :: (inner ++ [quote.char])

def meaning : Raw → List Char
  | plain chars _ _ _ => chars
  | quoted .double inner => expandBreaks inner
  | quoted _ inner => inner

end Raw

/-- What stands behind a value up to the end of an entry. -/
structure Tail where
  blanks : Blanks
  comment : Option Line

namespace Tail

def text (tail : Tail) : List Char := tail.blanks.val ++ commentText tail.comment

/-- How an entry ends in front of what is left: at the end of a line, or with a line feed in the white space there. -/
def Ends (tail : Tail) (behind : List Char) : Prop :=
  (∀ c ∈ behind.head?, c = '\n') ∨ tail.comment = none ∧ '\n' ∈ tail.blanks.val

end Tail

/-- The stretch of an entry. -/
structure Match where
  margin : Blanks
  /-- The white space behind the word `export`, where that word stands. -/
  exported : Option Space
  key : KeyText
  mark : Mark
  gap : Blanks
  raw : Raw
  tail : Tail

namespace Match

def exportText : Option Space → List Char
  | none => []
  | some space => exportWord ++ space.val.val

def text (stretch : Match) : List Char :=
  stretch.margin.val ++ (exportText stretch.exported ++ (stretch.key.val ++ (stretch.mark.text ++
    (stretch.gap.val ++ (stretch.raw.text ++ stretch.tail.text)))))

end Match

/-- The white space at the beginning of a text. -/
def blanksOf (text : List Char) : Blanks := ⟨text.takeWhile isBlank, fun _ => List.mem_takeWhile_imp⟩

theorem blanksOf_append (text : List Char) : (blanksOf text).val ++ text.dropWhile isBlank = text :=
  List.takeWhile_append_dropWhile

/-! ## Openings -/

theorem separator_spelled {text rest : List Char} (found : separator? text = some rest) :
    ∃ mark : Mark, text = mark.text ++ rest := by
  rcases separator_eq_some found with ⟨c, rfl, blank⟩ | ⟨-, begun⟩
  · exact ⟨.colon ⟨⟨[c], by simpa using blank⟩, by simp⟩, rfl⟩
  · refine ⟨.equals (blanksOf text), ?_⟩
    have split := blanksOf_append text
    rw [begun] at split
    simpa [Mark.text] using split.symm

theorem key_spelled {text name rest : List Char} (found : key? text = some (name, rest)) :
    ∃ (key : KeyText) (mark : Mark), text = key.val ++ (mark.text ++ rest) ∧ key.val = name := by
  obtain ⟨behind, rfl, some_, chars, -, separated⟩ := key_eq_some found
  obtain ⟨mark, rfl⟩ := separator_spelled separated
  exact ⟨⟨name, some_, chars⟩, mark, rfl, rfl⟩

theorem opening_spelled {text name rest : List Char} (found : opening? text = some (name, rest)) :
    ∃ (exported : Option Space) (key : KeyText) (mark : Mark),
      text = Match.exportText exported ++ (key.val ++ (mark.text ++ rest)) ∧ key.val = name := by
  rcases opening_eq_some found with plain | ⟨c, behind, rfl, blank, read⟩
  · obtain ⟨key, mark, rfl, rfl⟩ := key_spelled plain
    exact ⟨none, key, mark, rfl, rfl⟩
  · obtain ⟨key, mark, begun, rfl⟩ := key_spelled read
    have all : ∀ d ∈ c :: (blanksOf behind).val, isBlank d = true :=
      List.forall_mem_cons.mpr ⟨blank, (blanksOf behind).property⟩
    refine ⟨some ⟨⟨_, all⟩, by simp⟩, key, mark, ?_, rfl⟩
    have split := blanksOf_append behind
    rw [begun] at split
    simp [Match.exportText, split]

/-! ## Ends of entries -/

/-- An entry ends at the end of a line, or in front of white space with a line feed in it. -/
theorem ending_spelled {text behind : List Char} (ended : ending? text = some behind) :
    ∃ tail : Tail, text = tail.text ++ behind ∧ tail.Ends behind := by
  have split := blanksOf_append text
  unfold ending? at ended
  split at ended
  next all =>
    cases ended
    rw [all] at split
    exact ⟨⟨blanksOf text, none⟩, by simpa [Tail.text, commentText] using split.symm, .inl (by simp)⟩
  next c rest begun =>
    rw [begun] at split
    split at ended
    next mark =>
      -- A comment takes the rest of its line.
      cases ended
      subst mark
      have inLine : '\n' ∉ rest.takeWhile (· ≠ '\n') := fun member => by
        simpa using List.mem_takeWhile_imp member
      refine ⟨⟨blanksOf text, some ⟨_, inLine⟩⟩, ?_, .inl ?_⟩
      · simp only [Tail.text, commentText, List.append_assoc, List.cons_append, List.takeWhile_append_dropWhile]
        exact split.symm
      · intro c first
        simpa using stop_of_dropWhile (· ≠ '\n') rest c first
    · split at ended
      next feed =>
        cases ended
        refine ⟨⟨blanksOf text, none⟩, by simpa [Tail.text, commentText] using split.symm, .inr ⟨rfl, ?_⟩⟩
        simpa [blanksOf] using feed
      · cases ended

/-- Where a value without quotes stops, the entry ends. -/
theorem ending_of_stop {rest : List Char} (stop : ∀ c ∈ rest.head?, c = '#' ∨ c = '\n') :
    ∃ behind, ending? rest = some behind := by
  cases rest with
  | nil => exact ⟨[], rfl⟩
  | cons c left =>
    unfold ending?
    rcases stop c rfl with rfl | rfl
    · rw [List.dropWhile_cons_of_neg (by decide)]
      exact ⟨_, rfl⟩
    · split
      · exact ⟨_, rfl⟩
      · split
        · exact ⟨_, rfl⟩
        · rw [List.takeWhile_cons_of_pos (by decide)]
          exact ⟨_, if_pos (by simp)⟩

/-! ## Values -/

/-- A value is closed by the quote that it is sought for, with an end of the entry behind it. -/
theorem closing_spelled {quote : Char} {escaped : Bool} {start read text behind : List Char}
    {found : Option (List Char × List Char)} (closed : closing? quote escaped start found text = some (read, behind)) :
    found = some (read, behind) ∨
      ∃ inner rest, text = inner ++ quote :: rest ∧ read = inner.reverse ++ start ∧ ending? rest = some behind := by
  induction text generalizing escaped start found with
  | nil => exact .inl closed
  | cons c rest ih =>
    -- What is found later holds one more character, and what is found here is the quote at hand or was found before.
    have later {escaped : Bool} {found : Option (List Char × List Char)}
        (closed : closing? quote escaped (c :: start) found rest = some (read, behind)) :
        found = some (read, behind) ∨ ∃ inner behindQuote, c :: rest = inner ++ quote :: behindQuote ∧
          read = inner.reverse ++ start ∧ ending? behindQuote = some behind := by
      refine (ih closed).imp_right ?_
      rintro ⟨inner, behindQuote, rfl, rfl, ended⟩
      exact ⟨c :: inner, behindQuote, by simp, by simp, ended⟩
    unfold closing? at closed
    split at closed
    next same =>
      have here (ended : ((ending? rest).map fun behind => (start, behind)).or found = some (read, behind)) :
          found = some (read, behind) ∨ ∃ inner behindQuote, c :: rest = inner ++ quote :: behindQuote ∧
            read = inner.reverse ++ start ∧ ending? behindQuote = some behind := by
        rcases Option.or_eq_some_iff.mp ended with new | ⟨-, old⟩
        · obtain ⟨left, ending, read⟩ := Option.map_eq_some_iff.mp new
          cases read
          exact .inr ⟨[], rest, by simp [same], rfl, ending⟩
        · exact .inl old
      split at closed
      · exact (later closed).elim here .inr
      · exact here closed
    · exact later closed

private theorem trimEnd_spelled (text : List Char) : ∃ after : Blanks, text = trimEnd text ++ after.val ∧
    ∀ c ∈ (trimEnd text).getLast?, isBlank c = false := by
  have split := List.takeWhile_append_dropWhile (p := isBlank) (l := text.reverse)
  refine ⟨⟨(text.reverse.takeWhile isBlank).reverse, ?_⟩, ?_, ?_⟩
  · exact fun c member => List.mem_takeWhile_imp (List.mem_reverse.mp member)
  · rw [trimEnd, ← List.reverse_append, split, List.reverse_reverse]
  · intro c last
    rw [trimEnd, List.getLast?_reverse] at last
    exact stop_of_dropWhile isBlank text.reverse c last

/-- Text without white space at its ends stands between white space. -/
theorem trim_spelled (text : List Char) : ∃ before after : Blanks, text = before.val ++ (trim text ++ after.val) ∧
    (∀ c ∈ (trim text).head?, isBlank c = false) ∧ ∀ c ∈ (trim text).getLast?, isBlank c = false := by
  obtain ⟨after, split, last⟩ := trimEnd_spelled (trimStart text)
  refine ⟨blanksOf text, after, ?_, fun c first => ?_, last⟩
  · rw [trim, ← split]
    exact (blanksOf_append text).symm
  · have begun : (trimStart text).head? = some c := by
      rw [split, List.head?_append, show (trimEnd (trimStart text)).head? = some c from first]
      rfl
    exact stop_of_dropWhile isBlank text c begun

theorem exists_quote {c : Char} (quote : isQuote c = true) : ∃ mark : Quote, mark.char = c := by
  simp only [isQuote, Bool.or_eq_true, decide_eq_true_eq] at quote
  rcases quote with (rfl | rfl) | rfl
  · exact ⟨.single, rfl⟩
  · exact ⟨.double, rfl⟩
  · exact ⟨.backtick, rfl⟩

theorem unquoted_meaning (quote : Quote) (inner : List Char) : unquoted quote.char inner = (Raw.quoted quote inner).meaning := by
  cases quote with
  | double => exact expand_expand inner
  | single => rfl
  | backtick => rfl

theorem unquote_spelled {chars : List Char} (within : ∀ c ∈ chars, c ≠ '#' ∧ c ≠ '\n')
    (first : ∀ c ∈ chars.head?, isBlank c = false) (last : ∀ c ∈ chars.getLast?, isBlank c = false) :
    ∃ raw : Raw, raw.text = chars ∧ unquote chars = raw.meaning := by
  unfold unquote
  split
  next c rest =>
    split
    next outer =>
      obtain ⟨opens, closes⟩ := Bool.and_eq_true_iff.mp outer
      obtain ⟨quote, rfl⟩ := exists_quote opens
      have inner := List.dropLast_append_getLast? _ (of_decide_eq_true closes)
      exact ⟨.quoted quote rest.dropLast, congrArg _ inner, unquoted_meaning quote rest.dropLast⟩
    · exact ⟨.plain _ within first last, rfl, rfl⟩
  · exact ⟨.plain [] (by simp) (by simp) (by simp), rfl, rfl⟩

/-- A value that is read from a text, and what is left behind the entry. -/
def Spells (text value behind : List Char) : Prop :=
  ∃ (gap : Blanks) (raw : Raw) (tail : Tail), text = gap.val ++ (raw.text ++ (tail.text ++ behind)) ∧
    value = raw.meaning ∧ tail.Ends behind

/-- A line up to a comment or a break is a value, with white space around it or quotes. -/
theorem spells_plain {front rest : List Char} (within : ∀ c ∈ front, c ≠ '#' ∧ c ≠ '\n')
    (stop : ∀ c ∈ rest.head?, c = '#' ∨ c = '\n') :
    Spells (front ++ rest) (unquote (trim front)) ((ending? rest).getD rest) := by
  obtain ⟨behind, ended⟩ := ending_of_stop stop
  obtain ⟨tail, rfl, ends⟩ := ending_spelled ended
  obtain ⟨gap, after, split, first, last⟩ := trim_spelled front
  have inFront : ∀ c ∈ trim front, c ∈ front := by
    intro c member
    rw [split]
    exact List.mem_append_right _ (List.mem_append_left _ member)
  obtain ⟨raw, spelled, meaning⟩ := unquote_spelled (fun c member => within c (inFront c member)) first last
  have blank : ∀ c ∈ after.val ++ tail.blanks.val, isBlank c = true := by
    intro c member
    exact (List.mem_append.mp member).elim (after.property c) (tail.blanks.property c)
  rw [ended, Option.getD_some]
  -- White space that is cut off the value belongs to what stands behind it.
  refine ⟨gap, raw, ⟨⟨_, blank⟩, tail.comment⟩, ?_, meaning, ?_⟩
  · calc front ++ (tail.text ++ behind) = gap.val ++ (trim front ++ after.val) ++ (tail.text ++ behind) := by rw [← split]
      _ = gap.val ++ (raw.text ++ (after.val ++ tail.blanks.val ++ commentText tail.comment ++ behind)) := by
        simp [spelled, Tail.text]
  · exact ends.imp_right fun ended => ⟨ended.1, List.mem_append_right _ ended.2⟩

theorem plainValue_spelled (text : List Char) : Spells text (plainValue text).1 (plainValue text).2 := by
  have cut := List.takeWhile_append_dropWhile (p := fun c => c ≠ '#' && c ≠ '\n') (l := text)
  have spells := @spells_plain (text.takeWhile fun c => c ≠ '#' && c ≠ '\n')
    (text.dropWhile fun c => c ≠ '#' && c ≠ '\n') ?_ ?_
  · rwa [cut] at spells
  · intro c member
    simpa using List.mem_takeWhile_imp member
  · intro c first
    simpa [Decidable.or_iff_not_imp_left] using stop_of_dropWhile (fun c => c ≠ '#' && c ≠ '\n') text c first

theorem value_spelled (text : List Char) : Spells text (value text).1 (value text).2 := by
  have split := blanksOf_append text
  unfold value
  split
  next c rest begun =>
    split
    next opens =>
      split
      next read behind closed =>
        obtain ⟨quote, rfl⟩ := exists_quote opens
        rcases closing_spelled closed with old | ⟨inner, left, rfl, rfl, ended⟩
        · cases old
        · obtain ⟨tail, rfl, ends⟩ := ending_spelled ended
          refine ⟨blanksOf text, .quoted quote inner, tail, ?_, ?_, ends⟩
          · rw [begun] at split
            simpa [Raw.text] using split.symm
          · simpa using unquoted_meaning quote inner
      -- A quote that is not closed is a character of the line like any other.
      next => exact plainValue_spelled text
    · exact plainValue_spelled text
  · exact plainValue_spelled text

end EnvAudit.Declaration
