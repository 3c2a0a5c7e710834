import EnvAudit.Proofs.Script.PropertyName
import EnvAudit.Script.Direct.Token

/-!
# Words and comments of plain texts

A word is read up to the first character that no name holds, and a comment up to its end.
-/
namespace EnvAudit.Script.Direct

open StringLiteral (nameEscape identifier_shape)
open EnvAudit.Script.Program (Identifier LineText BlockText isName isNameStart isLineBreak isBlockText)

/-! ## Words -/

def isWordChar (c : Char) : Bool := c.isAlphanum || c = '_'

/-- Whether a text is a word without special characters. -/
def isWord : List Char → Bool
  | [] => false
  | c :: rest => !c.isDigit && isWordChar c && rest.all isWordChar

/-- Whether a word ends before a text. -/
def Parted (rest : List Char) : Prop := ∀ c ∈ rest.head?, c ∈ " .?[](),;".toList

theorem isUpper_iff (c : Char) : c.isUpper = true ↔ 'A'.val ≤ c.val ∧ c.val ≤ 'Z'.val := decide_eq_true_iff

theorem isLower_iff (c : Char) : c.isLower = true ↔ 'a'.val ≤ c.val ∧ c.val ≤ 'z'.val := by
  have shape : c.isLower = (decide ('a'.val ≤ c.val) && decide (c.val ≤ 'z'.val)) := rfl
  rw [shape, Bool.and_eq_true, decide_eq_true_eq, decide_eq_true_eq]

theorem isDigit_iff (c : Char) : c.isDigit = true ↔ '0'.val ≤ c.val ∧ c.val ≤ '9'.val := by
  have shape : c.isDigit = (decide ('0'.val ≤ c.val) && decide (c.val ≤ '9'.val)) := rfl
  rw [shape, Bool.and_eq_true, decide_eq_true_eq, decide_eq_true_eq]

theorem isWordChar_iff (c : Char) :
    isWordChar c = true ↔ c.isUpper = true ∨ c.isLower = true ∨ c.isDigit = true ∨ c = '_' := by
  have shape : isWordChar c = (((c.isUpper || c.isLower) || c.isDigit) || decide (c = '_')) := rfl
  simp only [shape, Bool.or_eq_true, decide_eq_true_eq, or_assoc]

/-- What holds of every character of ASCII holds of those in words. -/
private theorem of_isWordChar (holds : Char → Bool) {c : Char} (word : isWordChar c = true)
    (every : ∀ n < 128, isWordChar (Char.ofNat n) = true → holds (Char.ofNat n) = true) : holds c = true := by
  have small : c.toNat < 128 := by
    rw [isWordChar_iff, isUpper_iff, isLower_iff, isDigit_iff] at word
    rcases word with ⟨-, most⟩ | ⟨-, most⟩ | ⟨-, most⟩ | rfl
    · exact Nat.lt_of_le_of_lt (UInt32.le_iff_toNat_le.mp most) (by decide)
    · exact Nat.lt_of_le_of_lt (UInt32.le_iff_toNat_le.mp most) (by decide)
    · exact Nat.lt_of_le_of_lt (UInt32.le_iff_toNat_le.mp most) (by decide)
    · decide
  have own := every c.toNat small
  rw [Char.ofNat_toNat] at own
  exact own word

theorem inside_of_isWordChar {c : Char} (word : isWordChar c = true) : Grammar.outsideName.except.has c = true :=
  of_isWordChar Grammar.outsideName.except.has word (by decide)

/-- What identifiers go on with. -/
private abbrev namePart : Pattern := .alt (.one Grammar.outsideName.except) nameEscape

private theorem advance_nameEscape {c : Char} (plain : c ≠ '\\') : nameEscape.advance c = [] := by
  simp [nameEscape, Pattern.advance, Pattern.isNullable, plain]

private theorem advance_namePart {c : Char} (word : isWordChar c = true) : namePart.advance c = [.empty] := by
  have plain : c ≠ '\\' := by
    rintro rfl
    exact absurd word (by decide)
  rw [Pattern.advance, Pattern.advance, if_pos (inside_of_isWordChar word), advance_nameEscape plain]
  rfl

/-- The characters of a word are read one by one, whatever is behind them. -/
private theorem matches_nameParts {chars : List Char} (word : chars.all isWordChar = true) (rest : List Char) :
    (Pattern.many namePart).Matches (chars ++ rest) ↔ (Pattern.many namePart).Matches rest := by
  induction chars with
  | nil => exact Iff.rfl
  | cons c chars ih =>
    rw [List.all_cons, Bool.and_eq_true] at word
    rw [List.cons_append, Pattern.matches_many_cons (advance_namePart word.1), ih word.2]

private theorem matches_identifier {name : List Char} (word : isWord name = true) (rest : List Char) :
    Grammar.identifier.pattern.Matches (name ++ rest) ↔ (Pattern.many namePart).Matches rest := by
  cases name with
  | nil => cases word
  | cons c chars =>
    rw [isWord, Bool.and_eq_true, Bool.and_eq_true] at word
    obtain ⟨⟨letter, first⟩, others⟩ := word
    have plain : c ≠ '\\' := by
      rintro rfl
      exact absurd first (by decide)
    have start : (Grammar.outsideName ++ CharClass.digit).except.has c = true := by
      have direct : (Grammar.outsideName ++ CharClass.digit).complement = false := rfl
      have inside := (CharClass.has_except rfl c).mp (inside_of_isWordChar first)
      rw [CharClass.has_except direct, CharClass.has_append rfl rfl, Bool.or_eq_true, not_or]
      refine ⟨inside.1, inside.2, ?_⟩
      have digit : CharClass.digit.has c = c.isDigit := CharClass.has_range ..
      rw [digit]
      simpa using letter
    -- One character of the first part is read, and the rest is left to the repetition.
    have starts : (Pattern.alt (.one (Grammar.outsideName ++ .digit).except) nameEscape).advance c = [.empty] := by
      rw [Pattern.advance, Pattern.advance, if_pos start, advance_nameEscape plain]
      rfl
    have remains : Grammar.identifier.pattern.advance c = [.many namePart] := by
      have filled : (Pattern.alt (.one (Grammar.outsideName ++ .digit).except) nameEscape).isNullable = false := rfl
      rw [identifier_shape, Pattern.advance, starts, filled]
      rfl
    rw [List.cons_append, Pattern.matches_cons_iff, remains, ← matches_nameParts others]
    simp

private theorem accepts_word {name : List Char} (word : isWord name = true) :
    Grammar.identifier.pattern.Matches name := by
  -- Nothing is left behind the word, and the repetition may have no rounds.
  rw [← List.append_nil name, matches_identifier word]
  exact ⟨[], rfl, by simp⟩

theorem take_identifier {name rest : List Char} (word : isWord name = true) (parted : Parted rest) :
    Grammar.identifier.pattern.take? (name ++ rest) = some (name, rest) := by
  have filled : name ≠ [] := by
    rintro rfl
    cases word
  apply Pattern.take_of_match filled (accepts_word word)
  -- The character behind the word belongs to no name, so no identifier goes on with it.
  rintro (_ | ⟨c, more⟩) filled ⟨behind, rfl⟩
  · exact absurd rfl filled
  · have stops : c ∈ " .?[](),;".toList := parted c rfl
    have stuck : namePart.advance c = [] := by
      have every : (" .?[](),;".toList.all fun mark => (namePart.advance mark).isEmpty) = true := by decide +kernel
      exact List.isEmpty_iff.mp (List.all_eq_true.mp every c stops)
    rw [matches_identifier word]
    exact Pattern.not_matches_many_cons stuck more

theorem isWord_of_isName {name : List Char} (capital : isName name = true) : isWord name = true := by
  have char {c : Char} (own : (isNameStart c || c.isDigit) = true) : isWordChar c = true := by
    simp only [isNameStart, Bool.or_eq_true, decide_eq_true_eq] at own
    rw [isWordChar_iff]
    tauto
  cases name with
  | nil => cases capital
  | cons c rest =>
    rw [isName, Bool.and_eq_true] at capital
    have letter : c.isDigit = false := by
      have first := capital.1
      rw [isNameStart, Bool.or_eq_true, isUpper_iff, decide_eq_true_eq] at first
      rw [← Bool.not_eq_true, isDigit_iff]
      rcases first with ⟨least, -⟩ | rfl
      · exact fun digit => absurd (UInt32.le_trans least digit.2) (by decide)
      · decide
    have others : rest.all isWordChar = true :=
      List.all_eq_true.mpr fun d member => char (List.all_eq_true.mp capital.2 d member)
    simp [isWord, letter, char (Bool.or_eq_true_iff.mpr (.inl capital.1)), others]

/-- Whether a character begins a token that is no word. -/
private def isTokenMark (c : Char) : Bool :=
  c = '"' || c = '\'' || c = '\x60' || c = '/' || c = '?' || (Mark.ofChar? c).isSome

private theorem stuck_of_isTokenMark {c : Char} (mark : isTokenMark c = true) :
    Grammar.identifier.pattern.advance c = [] := by
  simp only [isTokenMark, Bool.or_eq_true, decide_eq_true_eq] at mark
  rcases mark with ((((rfl | rfl) | rfl) | rfl) | rfl) | known
  · rfl
  · rfl
  · rfl
  · rfl
  · rfl
  · unfold Mark.ofChar? at known
    split at known <;> first | rfl | cases known

/-- An identifier that is taken as a whole is a word. -/
private theorem token_of_taken {name rest : List Char} (accepted : Grammar.identifier.pattern.Matches name)
    (taken : Grammar.identifier.pattern.take? (name ++ rest) = some (name, rest)) :
    token? (name ++ rest) = some (.word name, rest) := by
  obtain ⟨filled, -⟩ := StringLiteral.exists_nameParts accepted
  obtain ⟨c, chars, rfl⟩ := List.exists_cons_of_ne_nil filled
  have unmarked : isTokenMark c = false := by
    by_contra mark
    rw [Bool.not_eq_false] at mark
    rw [Pattern.matches_cons_iff, stuck_of_isTokenMark mark] at accepted
    simp at accepted
  simp only [isTokenMark, Bool.or_eq_false_iff, decide_eq_false_iff_not, Option.isSome_eq_false_iff,
    Option.isNone_iff_eq_none] at unmarked
  obtain ⟨⟨⟨⟨⟨double, single⟩, template⟩, slash⟩, chain⟩, mark⟩ := unmarked
  rw [List.cons_append] at taken ⊢
  simp [token?, double, single, template, slash, chain, mark, taken]

theorem token_word {name rest : List Char} (word : isWord name = true) (parted : Parted rest) :
    token? (name ++ rest) = some (.word name, rest) :=
  token_of_taken (accepts_word word) (take_identifier word parted)

/-- Whatever the grammar takes for an identifier is a word at the end of a text. -/
theorem token_identifier {name : List Char} (accepted : Grammar.identifier.pattern.Matches name) :
    token? name = some (.word name, []) := by
  obtain ⟨filled, -⟩ := StringLiteral.exists_nameParts accepted
  have taken : Grammar.identifier.pattern.take? (name ++ []) = some (name, []) := by
    apply Pattern.take_of_match filled accepted
    intro more longer begins
    exact absurd (List.prefix_nil.mp begins) longer
  have whole := token_of_taken accepted taken
  rwa [List.append_nil] at whole

/-! ## Marks -/

theorem token_mark {c : Char} {mark : Mark} (known : Mark.ofChar? c = some mark) (rest : List Char) :
    token? (c :: rest) = some (.mark mark, rest) := by
  unfold Mark.ofChar? at known
  split at known <;> cases known <;> rfl

theorem token_chain (rest : List Char) : token? ('?' :: '.' :: rest) = some (.mark .chain, rest) := rfl

/-! ## Comments -/

section

private abbrev notStars : Pattern := .many (.one (CharClass.ofString "*").except)

private abbrev stars : Pattern := .many (.text ['*'])

/-- Stretches that end in stars and begin with another character than the mark that ends a comment. -/
private abbrev stretches : Pattern :=
  .many (.seq (.one (CharClass.ofString "/*").except) (.seq notStars (.seq (.text ['*']) stars)))

/-- What is left of a comment elsewhere in it. -/
private abbrev inside : Pattern := .seq notStars (.seq (.seq (.text ['*']) stars) (.seq stretches (.text ['/'])))

end

end EnvAudit.Script.Direct
