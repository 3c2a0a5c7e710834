import EnvAudit.Proofs.Script.StringParts
import EnvAudit.Proofs.Text.Utf16
import Mathlib.Data.List.Chain
import Mathlib.Tactic.IntervalCases

/-!
# Spellings of string literals

The ways to write a text between two quotes: each of its characters as itself or by an escape, and continuations on
another line anywhere. What is read back is the text, except that an escaped question mark and a continuation by a
carriage return take a separator of lines or paragraphs behind them with them.
-/
namespace EnvAudit.Script.StringLiteral

open Program (Quote isHexDigit isOctalDigit)
open EnvAudit.Script.Tree (word branch)
open EnvAudit.Text

/-! ## Numbers -/

/-- The digits write a number in hexadecimal, with letters of either case and any number of zeros in front. -/
def WritesHex (digits : List Char) (code : Nat) : Prop :=
  ∃ zeros, digits.map Char.toLower = List.replicate zeros '0' ++ Nat.toDigits 16 code

private theorem hexValue_toLower (c : Char) : hexValue? c.toLower = hexValue? c := by
  by_cases upper : 'A' ≤ c ∧ c ≤ 'Z'
  · obtain ⟨code, low, high, rfl⟩ : ∃ code, 65 ≤ code ∧ code ≤ 90 ∧ Char.ofNat code = c :=
      ⟨c.toNat, upper.1, upper.2, Char.ofNat_toNat c⟩
    interval_cases code <;> decide
  · have same : c.toLower = c := dif_neg upper
    rw [same]

private theorem readHex_toLower (value : Nat) (digits : List Char) :
    readHex value (digits.map Char.toLower) = readHex value digits := by
  induction digits generalizing value with
  | nil => rfl
  | cons c digits ih => simp only [List.map_cons, readHex, hexValue_toLower, ih]

private theorem readHex_append (value : Nat) (front behind : List Char) :
    readHex value (front ++ behind) = (readHex value front).bind (readHex · behind) := by
  induction front generalizing value with
  | nil => rfl
  | cons c front ih =>
    simp only [List.cons_append, readHex, ih]
    cases hexValue? c <;> rfl

private theorem readHex_zeros (count : Nat) : readHex 0 (List.replicate count '0') = some 0 := by
  induction count with
  | zero => rfl
  | succ count ih => exact ih

private theorem hexValue_digitChar : ∀ digit < 16, hexValue? (Nat.digitChar digit) = some digit := by decide

theorem readHex_toDigits (code : Nat) : readHex 0 (Nat.toDigits 16 code) = some code := by
  -- The last digit is the remainder, and the digits before it write the quotient.
  induction code using Nat.strongRecOn with
  | ind code ih =>
    rcases Nat.lt_or_ge code 16 with small | large
    · rw [Nat.toDigits_of_lt_base small]
      simp [readHex, hexValue_digitChar code small]
    · rw [Nat.toDigits_of_base_le (by decide) large, readHex_append, ih (code / 16) (by omega)]
      simp [readHex, hexValue_digitChar (code % 16) (by omega)]
      omega

private theorem readHex_of_writes {digits : List Char} {code : Nat} (writes : WritesHex digits code) :
    readHex 0 digits = some code := by
  obtain ⟨zeros, spelled⟩ := writes
  rw [← readHex_toLower, spelled, readHex_append, readHex_zeros, Option.bind_some, readHex_toDigits]

private theorem isHexDigit_of_value {c : Char} {digit : Nat} (value : hexValue? c = some digit) :
    isHexDigit c = true := by
  have digits : c.isDigit = ('0' ≤ c && c ≤ '9') := rfl
  rw [isHexDigit, digits]
  unfold hexValue? at value
  split at value
  next decimal => simp [decimal]
  next =>
    split at value
    next lower => simp [lower]
    next =>
      split at value
      next upper => simp [upper]
      next => cases value

theorem all_isHexDigit_of_readHex {value code : Nat} {digits : List Char}
    (read : readHex value digits = some code) : digits.all isHexDigit = true := by
  induction digits generalizing value with
  | nil => rfl
  | cons c digits ih =>
    obtain ⟨digit, one, rest⟩ := Option.bind_eq_some_iff.mp read
    rw [List.all_cons, isHexDigit_of_value one, ih rest]
    rfl

theorem all_of_writesHex {digits : List Char} {code : Nat} (writes : WritesHex digits code) :
    digits.all isHexDigit = true := all_isHexDigit_of_readHex (readHex_of_writes writes)

theorem filled_of_writesHex {digits : List Char} {code : Nat} (writes : WritesHex digits code) : digits ≠ [] := by
  rintro rfl
  obtain ⟨zeros, spelled⟩ := writes
  exact absurd (List.append_eq_nil_iff.mp spelled.symm).2 Nat.toDigits_ne_nil

theorem lt_of_writesHex {digits : List Char} {code : Nat} (writes : WritesHex digits code) :
    code < 16 ^ digits.length := by
  obtain ⟨zeros, spelled⟩ := id writes
  have size := congrArg List.length spelled
  rw [List.length_map, List.length_append] at size
  rw [← Nat.length_toDigits_le_iff (by decide) (List.length_pos_iff.mpr (filled_of_writesHex writes))]
  omega

private theorem hexValue_lt {c : Char} (hex : isHexDigit c = true) : ∃ digit < 16, hexValue? c = some digit := by
  have digits : c.isDigit = ('0' ≤ c && c ≤ '9') := rfl
  rw [isHexDigit, digits] at hex
  unfold hexValue?
  split
  next decimal =>
    have most : c.toNat ≤ 57 := (Bool.and_eq_true_iff.mp decimal |>.imp of_decide_eq_true of_decide_eq_true).2
    exact ⟨_, by omega, rfl⟩
  next other =>
    split
    next lower =>
      have most : c.toNat ≤ 102 := (Bool.and_eq_true_iff.mp lower |>.imp of_decide_eq_true of_decide_eq_true).2
      exact ⟨_, by omega, rfl⟩
    next also =>
      split
      next upper =>
        have most : c.toNat ≤ 70 := (Bool.and_eq_true_iff.mp upper |>.imp of_decide_eq_true of_decide_eq_true).2
        exact ⟨_, by omega, rfl⟩
      next none => simp [other, also, none] at hex

/-- All digits are read, and give a number of as many digits. -/
theorem readHex_of_all {digits : List Char} (hex : digits.all isHexDigit = true) (value : Nat) :
    ∃ code < (value + 1) * 16 ^ digits.length, readHex value digits = some code := by
  induction digits generalizing value with
  | nil => exact ⟨value, by simp, rfl⟩
  | cons c digits ih =>
    rw [List.all_cons, Bool.and_eq_true] at hex
    obtain ⟨digit, small, one⟩ := hexValue_lt hex.1
    obtain ⟨code, less, rest⟩ := ih hex.2 (value * 16 + digit)
    refine ⟨code, Nat.lt_of_lt_of_le less ?_, by rw [readHex, one, Option.bind_some, rest]⟩
    have wider : (value * 16 + digit + 1) * 16 ^ digits.length ≤ ((value + 1) * 16) * 16 ^ digits.length :=
      Nat.mul_le_mul_right _ (by omega)
    rwa [Nat.mul_assoc, ← Nat.pow_succ'] at wider

/-- There is no sign before the digits. -/
theorem hex_of_all {digits : List Char} (filled : digits ≠ []) (hex : digits.all isHexDigit = true) :
    hex? digits = readHex 0 digits := by
  unfold hex?
  split
  · exact absurd rfl filled
  · exact absurd hex (by decide)
  · simp [show isHexDigit '+' = false by decide] at hex
  · rfl

theorem braced_of_all {digits : List Char} (hex : digits.all isHexDigit = true) : braced? digits = none := by
  unfold braced?
  split
  next rest => simp [show isHexDigit '\x7b' = false by decide] at hex
  next => rfl

/-- What is written in hexadecimal is read back. -/
theorem hex_of_writes {digits : List Char} {code : Nat} (writes : WritesHex digits code) :
    hex? digits = some code := by
  rw [hex_of_all (filled_of_writesHex writes) (all_of_writesHex writes), readHex_of_writes writes]

/-- Letters of either case with zeros in front. -/
example : WritesHex "00dE".toList 0xde ∧ hex? "00dE".toList = some 0xde := ⟨⟨2, by decide⟩, by decide⟩

/-! ## Spellings of a character -/

/-- The letters that write a control character behind the mark of an escape. -/
def controls : List (Char × Char) :=
  [('n', '\n'), ('t', '\t'), ('r', '\r'), ('b', '\x08'), ('f', '\x0c'), ('v', '\x0b'), ('0', '\x00')]

/-- The ends of a line that may stand behind the mark of an escape. -/
def lineEnds : List (List Char) := [['\n'], ['\r'], ['\r', '\n'], ['\u2028'], ['\u2029']]

/-- Whether a character has no meaning of its own behind the mark of an escape. -/
def isOrdinary (c : Char) : Bool :=
  c ∉ ['\x00', 'x', 'u', 'n', 't', 'r', 'b', 'f', 'v', '\n', '\r', '\u2028', '\u2029'] && !isOctalDigit c

/-- The texts that stand for a character in a literal, and those that continue it on another line. -/
inductive Spells (quote : Quote) : Option Char → List Char → Prop
  | itself {c : Char} (plain : isPlain quote c = true) : Spells quote (some c) [c]
  | control {letter c : Char} (listed : (letter, c) ∈ controls) : Spells quote (some c) ['\\', letter]
  | ordinary {c : Char} (ordinary : isOrdinary c = true) : Spells quote (some c) ['\\', c]
  | byte {c : Char} {digits : List Char} (two : digits.length = 2) (writes : WritesHex digits c.toNat) :
    Spells quote (some c) ('\\' :: 'x' :: digits)
  | unit {c : Char} {digits : List Char} (four : digits.length = 4) (writes : WritesHex digits c.toNat) :
    Spells quote (some c) ('\\' :: 'u' :: digits)
  | pair {c : Char} {high low : Nat} {front behind : List Char} {lines : List (List Char)}
    (units : Utf16.unitsOf c = [high, low]) (first : front.length = 4) (writesHigh : WritesHex front high)
    (between : ∀ line ∈ lines, line ∈ lineEnds) (second : behind.length = 4) (writesLow : WritesHex behind low) :
    Spells quote (some c)
      ('\\' :: ('u' :: front ++ (lines.flatMap ('\\' :: ·) ++ '\\' :: 'u' :: behind)))
  | braced {c : Char} {digits : List Char} (writes : WritesHex digits c.toNat) :
    Spells quote (some c) ('\\' :: 'u' :: '\x7b' :: (digits ++ ['\x7d']))
  | continuation {line : List Char} (ends : line ∈ lineEnds) : Spells quote none ('\\' :: line)

/-! ## What escapes stand for -/

theorem char_toNat (c : Char) : char? c.toNat = some c := by
  have valid : c.toNat.isValidChar := c.valid
  rw [char?, if_pos valid, Char.ofNat_toNat]

/-- An escape of the grammar, and the units that it stands for. -/
structure StandsFor (body : List Char) (units : List Nat) : Prop where
  escape : EscapeBody body
  decoded : escapeUnits ('\\' :: body) = units

private theorem standsFor_control {letter c : Char} (listed : (letter, c) ∈ controls) :
    StandsFor [letter] (Utf16.unitsOf c) := by
  have lettered : ∀ entry ∈ controls, entry.1 ≠ '\x00' ∧ entry.1 ≠ 'x' ∧ entry.1 ≠ 'u' := by decide
  have decoded : ∀ entry ∈ controls, escapeUnits ['\\', entry.1] = Utf16.unitsOf entry.2 := by decide
  obtain ⟨nul, byte, unit⟩ := lettered _ listed
  exact ⟨.one nul byte unit, decoded _ listed⟩

private theorem standsFor_line {line : List Char} (ends : line ∈ lineEnds) : StandsFor line [] := by
  simp only [lineEnds, List.mem_cons, List.not_mem_nil, or_false] at ends
  rcases ends with rfl | rfl | rfl | rfl | rfl
  case inr.inr.inl => exact ⟨.line (by decide) (by decide), by decide⟩
  all_goals exact ⟨.single (by decide) (by decide) (by decide) (by decide), by decide⟩

private theorem standsFor_ordinary {c : Char} (ordinary : isOrdinary c = true) : StandsFor [c] (Utf16.unitsOf c) := by
  simp only [isOrdinary, Bool.and_eq_true, decide_eq_true_eq, List.mem_cons, List.not_mem_nil, or_false, not_or,
    Bool.not_eq_true'] at ordinary
  obtain ⟨⟨nul, x, u, n, t, r, b, f, v, lf, cr, ls, ps⟩, octal⟩ := ordinary
  have zero : c ≠ '0' := by
    rintro rfl
    exact absurd octal (by decide)
  refine ⟨.one nul x u, ?_⟩
  -- None of the letters that have a meaning is left, so the character stands for itself.
  simp only [escapeUnits, unitsAfter]

private theorem standsFor_byte {c : Char} {digits : List Char} (two : digits.length = 2)
    (writes : WritesHex digits c.toNat) : StandsFor ('x' :: digits) (Utf16.unitsOf c) := by
  refine ⟨.byte two (all_of_writesHex writes), ?_⟩
  simp [escapeUnits, unitsAfter, hex_of_writes writes, char_toNat, two]

private theorem standsFor_unit {unit : Nat} {digits : List Char} (four : digits.length = 4)
    (writes : WritesHex digits unit) : StandsFor ('u' :: digits) [unit] := by
  refine ⟨.unit four (all_of_writesHex writes), ?_⟩
  have bare := braced_of_all (all_of_writesHex writes)
  simp [escapeUnits, unitsAfter, bare, hex_of_writes writes, four]

private theorem standsFor_braced {c : Char} {digits : List Char} (writes : WritesHex digits c.toNat) :
    StandsFor ('u' :: '\x7b' :: (digits ++ ['\x7d'])) (Utf16.unitsOf c) := by
  refine ⟨.braced (filled_of_writesHex writes) (all_of_writesHex writes), ?_⟩
  simp [escapeUnits, unitsAfter, braced?, hex_of_writes writes, char_toNat]

private theorem unitsOf_small {c : Char} (small : c.toNat < 0x10000) : Utf16.unitsOf c = [c.toNat] := by
  rw [Utf16.unitsOf, if_pos small]

/-! ## Literals -/

/-- A text that stands for a character, or for nothing. -/
structure Item (quote : Quote) where
  char? : Option Char
  text : List Char
  spells : Spells quote char? text

/-- A separator of lines or paragraphs that stands for itself is read as part of the escape before it. -/
def Item.takes {quote : Quote} (item next : Item quote) : Bool :=
  (item.text = ['\\', '?'] || item.text = ['\\', '\r']) && (next.text = ['\u2028'] || next.text = ['\u2029'])

/-- A zero behind the mark of an escape has no octal digit behind it. -/
def Item.Apart {quote : Quote} (item next : Item quote) : Prop :=
  item.text = ['\\', '0'] → ∀ c ∈ next.text.head?, isOctalDigit c = false

instance {quote : Quote} (item next : Item quote) : Decidable (item.Apart next) :=
  inferInstanceAs (Decidable (_ → _))

/-- A literal without its quotes. -/
structure Spelling (quote : Quote) where
  items : List (Item quote)
  apart : items.IsChain Item.Apart

namespace Spelling

variable {quote : Quote}

def text (spelling : Spelling quote) : List Char := spelling.items.flatMap Item.text

/-- The characters that are spelled. -/
def chars (spelling : Spelling quote) : List Char := spelling.items.filterMap Item.char?

/-- The characters of some items without the separators that the escapes before them take. -/
def keptOf : List (Item quote) → List Char
  | [] => []
  | [item] => item.char?.toList
  | item :: next :: rest =>
    if item.takes next then item.char?.toList ++ keptOf rest else item.char?.toList ++ keptOf (next :: rest)

def kept (spelling : Spelling quote) : List Char := keptOf spelling.items

/-- No escape takes a separator. -/
def Intact (spelling : Spelling quote) : Prop := spelling.items.IsChain fun item next => item.takes next = false

end Spelling

section

variable {quote : Quote}

private theorem units_standsFor {body rest : List Char} {decoded : List Nat} (stands : StandsFor body decoded)
    (apart : ∀ next ∈ rest.head?, ¬ Takes body next) :
    units quote ('\\' :: (body ++ rest)) = (units quote rest).map (decoded ++ ·) := by
  rw [units_escape stands.escape apart, stands.decoded]

/-- Only an escape of octal digits, a carriage return or a question mark goes on with another character. -/
theorem not_takes {first next : Char} (inner : List Char) (octal : isOctalDigit first = false)
    (unlike : first ≠ '\r' ∧ first ≠ '?') : ¬ Takes (first :: inner) next := by
  rintro (⟨digits, -⟩ | ⟨same | same, -⟩)
  · simp [octal] at digits
  · exact unlike.1 (List.cons.inj same).1
  · exact unlike.2 (List.cons.inj same).1

theorem not_takes_mark (body : List Char) : ¬ Takes body '\\' := by
  rintro (⟨-, octal⟩ | ⟨-, separator⟩)
  · exact absurd octal (by decide)
  · exact absurd separator (by decide)

/-- Continuations before an escape stand for nothing. -/
private theorem units_lines {lines : List (List Char)} (between : ∀ line ∈ lines, line ∈ lineEnds) (rest : List Char) :
    units quote (lines.flatMap ('\\' :: ·) ++ '\\' :: rest) = units quote ('\\' :: rest) := by
  induction lines with
  | nil => rfl
  | cons line lines ih =>
    have stands := standsFor_line (between line List.mem_cons_self)
    have apart : ∀ next ∈ (lines.flatMap ('\\' :: ·) ++ '\\' :: rest).head?, ¬ Takes line next := by
      cases lines <;> simpa using not_takes_mark line
    rw [List.flatMap_cons, List.cons_append, List.cons_append, List.append_assoc, units_standsFor stands apart,
      ih fun other member => between other (List.mem_cons_of_mem _ member)]
    simp

/-- The units of an item are those of its character, unless its escape goes on with what is behind it. -/
theorem units_item (item : Item quote) (rest : List Char)
    (apart : ∀ body, item.text = '\\' :: body → ∀ next ∈ rest.head?, ¬ Takes body next) :
    units quote (item.text ++ rest) = (units quote rest).map (Utf16.encode item.char?.toList ++ ·) := by
  obtain ⟨char?, text, spells⟩ := item
  dsimp only at apart ⊢
  have encode_one (c : Char) : Utf16.encode (some c).toList = Utf16.unitsOf c := by simp [Utf16.encode]
  -- A spelling is a character or one escape, but for a pair, which is two with continuations between them.
  cases spells with
  | itself plain =>
    rw [encode_one]
    exact units_plain plain rest
  | control listed =>
    rw [encode_one]
    exact units_standsFor (standsFor_control listed) (apart _ rfl)
  | ordinary ordinary =>
    rw [encode_one]
    exact units_standsFor (standsFor_ordinary ordinary) (apart _ rfl)
  | byte two writes =>
    rw [encode_one]
    exact units_standsFor (standsFor_byte two writes) (apart _ rfl)
  | @unit c digits four writes =>
    have small := lt_of_writesHex writes
    rw [four] at small
    rw [encode_one, unitsOf_small small]
    exact units_standsFor (standsFor_unit four writes) (apart _ rfl)
  | @pair c high low front behind lines both first writesHigh between second writesLow =>
    have last : units quote ('\\' :: ('u' :: behind ++ rest)) = (units quote rest).map ([low] ++ ·) :=
      units_standsFor (standsFor_unit second writesLow) fun next _ => not_takes behind (by decide) (by decide)
    -- Behind the first half stand the continuations and the second half, which add the low unit.
    obtain ⟨later, same⟩ : ∃ later, later = lines.flatMap ('\\' :: ·) ++ '\\' :: ('u' :: behind ++ rest) := ⟨_, rfl⟩
    have whole : units quote ('\\' :: ('u' :: front ++ later)) = (units quote later).map ([high] ++ ·) :=
      units_standsFor (standsFor_unit first writesHigh) fun next _ => not_takes front (by decide) (by decide)
    have text : '\\' :: ('u' :: front ++ (lines.flatMap ('\\' :: ·) ++ '\\' :: 'u' :: behind)) ++ rest =
        '\\' :: ('u' :: front ++ later) := by simp [same]
    rw [encode_one, both, text, whole, same, units_lines between, last, Option.map_map]
    rfl
  | braced writes =>
    rw [encode_one]
    exact units_standsFor (standsFor_braced writes) (apart _ rfl)
  | continuation ends => exact units_standsFor (standsFor_line ends) (apart _ rfl)

theorem text_cases (item : Item quote) :
    (∃ c, item.text = [c] ∧ isPlain quote c = true) ∨ ∃ body, item.text = '\\' :: body := by
  obtain ⟨char?, text, spells⟩ := item
  cases spells with
  | @itself c plain => exact .inl ⟨c, rfl, plain⟩
  | _ => exact .inr ⟨_, rfl⟩

/-- An escape keeps what it stands for when a separator is read as part of it. -/
private theorem standsFor_taken {item next : Item quote} (takes : item.takes next = true) :
    ∃ first last, item.text = ['\\', first] ∧ next.text = [last] ∧ (first = '?' ∨ first = '\r') ∧
      StandsFor [first, last] (Utf16.encode item.char?.toList) := by
  obtain ⟨char?, text, spells⟩ := item
  simp only [Item.takes, Bool.and_eq_true, Bool.or_eq_true, decide_eq_true_eq] at takes
  obtain ⟨rfl | rfl, separator⟩ := takes
  all_goals dsimp only
  · have self : char? = some '?' := by
      cases spells with
      | control listed => simp [controls] at listed
      | ordinary => rfl
      | continuation ends => exact absurd ends (by decide)
    rw [self]
    rcases separator with same | same
    all_goals exact ⟨_, _, rfl, same, .inl rfl, .line (by decide) (by decide), by decide⟩
  · have nothing : char? = none := by
      cases spells with
      | control listed => simp [controls] at listed
      | ordinary ordinary => exact absurd ordinary (by decide)
      | continuation => rfl
    rw [nothing]
    rcases separator with same | same
    all_goals exact ⟨_, _, rfl, same, .inr rfl, .line (by decide) (by decide), by decide⟩

/-- Of an escape and a separator that it takes the escape alone is read. -/
private theorem units_takes {item next : Item quote} (takes : item.takes next = true) (rest : List Char) :
    units quote (item.text ++ (next.text ++ rest)) =
      (units quote rest).map (Utf16.encode item.char?.toList ++ ·) := by
  obtain ⟨first, last, escape, separator, either, stands⟩ := standsFor_taken takes
  have apart : ∀ c ∈ rest.head?, ¬ Takes [first, last] c := by
    rintro c - (⟨octal, -⟩ | ⟨same | same, -⟩)
    · rcases either with rfl | rfl <;> exact absurd (Bool.and_eq_true_iff.mp octal).1 (by decide)
    · cases same
    · cases same
  rw [escape, separator]
  exact units_standsFor stands apart

/-- Zero is the only octal digit that is spelled by an escape of its own. -/
private theorem zero_of_octal {item : Item quote} {body : List Char} (spelled : item.text = '\\' :: body)
    (octal : body.all isOctalDigit = true) : body = ['0'] := by
  obtain ⟨char?, text, spells⟩ := item
  dsimp only at spelled
  cases spells with
  | itself plain =>
    obtain ⟨rfl, -⟩ := List.cons.inj spelled
    simp [isPlain] at plain
  | control listed =>
    obtain ⟨-, rfl⟩ := List.cons.inj spelled
    have only : ∀ entry ∈ controls, [entry.1].all isOctalDigit = true → [entry.1] = ['0'] := by decide
    exact only _ listed octal
  | ordinary ordinary =>
    obtain ⟨-, rfl⟩ := List.cons.inj spelled
    simp only [isOrdinary, Bool.and_eq_true, Bool.not_eq_true'] at ordinary
    simp [ordinary.2] at octal
  | continuation ends =>
    obtain ⟨-, rfl⟩ := List.cons.inj spelled
    have none : ∀ line ∈ lineEnds, ¬ line.all isOctalDigit = true := by decide
    exact absurd octal (none _ ends)
  | _ =>
    obtain ⟨-, rfl⟩ := List.cons.inj spelled
    exact absurd (Bool.and_eq_true_iff.mp octal).1 (by decide)

/-- An escape goes on with what is behind it in no other way than by taking a separator. -/
private theorem apart_of_not_takes {item next : Item quote} (keeps : item.takes next = false)
    (digits : item.Apart next) (rest : List Char) :
    ∀ body, item.text = '\\' :: body → ∀ c ∈ (next.text ++ rest).head?, ¬ Takes body c := by
  rintro body spelled c first (⟨octal, digit⟩ | ⟨line, separator⟩)
  · obtain rfl := zero_of_octal spelled octal
    have own : c ∈ next.text.head? := by
      rcases text_cases next with ⟨d, same, -⟩ | ⟨inner, same⟩ <;> simpa [same] using first
    rw [digits spelled c own] at digit
    cases digit
  · rcases text_cases next with ⟨d, same, plain⟩ | ⟨inner, same⟩
    · obtain rfl : d = c := by simpa [same] using first
      have unbroken : d ≠ '\n' := by
        rintro rfl
        simp [isPlain] at plain
      have taken : item.takes next = true := by
        simp only [List.mem_cons, List.not_mem_nil, or_false, unbroken, false_or] at separator
        rcases line with rfl | rfl <;> rcases separator with rfl | rfl <;> simp [Item.takes, spelled, same]
      rw [taken] at keeps
      cases keeps
    · obtain rfl : '\\' = c := by simpa [same] using first
      exact absurd separator (by decide)

/-- The units of all items are those of what is kept of them. -/
theorem units_items (items : List (Item quote)) (apart : items.IsChain Item.Apart) :
    units quote (items.flatMap Item.text ++ [quote.char]) = some (Utf16.encode (Spelling.keptOf items)) := by
  -- Each step reads one item, or two where the first one takes the second.
  fun_induction Spelling.keptOf items with
  | case1 => exact units_closing quote
  | case2 item =>
    have ends : ∀ body, ¬ Takes body quote.char := by
      rintro body (⟨-, octal⟩ | ⟨-, separator⟩)
      · cases quote <;> exact absurd octal (by decide)
      · cases quote <;> exact absurd separator (by decide)
    have last := units_item item [quote.char] fun body _ c first => by
      obtain rfl : quote.char = c := by simpa using first
      exact ends body
    simpa [units_closing] using last
  | case3 item next rest takes ih =>
    rw [Utf16.encode_append, List.flatMap_cons, List.flatMap_cons, List.append_assoc, List.append_assoc, units_takes takes,
      ih apart.tail.tail]
    rfl
  | case4 item next rest keeps ih =>
    obtain ⟨digits, later⟩ := List.isChain_cons_cons.mp apart
    have alone := units_item item ((next :: rest).flatMap Item.text ++ [quote.char]) (by
      rw [List.flatMap_cons, List.append_assoc]
      exact apart_of_not_takes (by simpa using keeps) digits _)
    rw [List.flatMap_cons, List.append_assoc, alone, ih later, Utf16.encode_append]
    rfl

private theorem filterMap_cons (item : Item quote) (items : List (Item quote)) :
    (item :: items).filterMap Item.char? = item.char?.toList ++ items.filterMap Item.char? := by
  cases spelled : item.char? <;> simp [spelled]

theorem sublist_keptOf (items : List (Item quote)) :
    (Spelling.keptOf items).Sublist (items.filterMap Item.char?) := by
  fun_induction Spelling.keptOf items with
  | case1 => exact List.Sublist.refl _
  | case2 item =>
    rw [filterMap_cons]
    exact List.sublist_append_left ..
  | case3 item next rest _ ih =>
    rw [filterMap_cons, filterMap_cons]
    exact (ih.trans (List.sublist_append_right ..)).append_left _
  | case4 item next rest _ ih =>
    rw [filterMap_cons]
    exact ih.append_left _

private theorem char_of_takes {item next : Item quote} (takes : item.takes next = true) :
    ∃ c, next.char? = some c := by
  obtain ⟨char?, text, spells⟩ := next
  simp only [Item.takes, Bool.and_eq_true, Bool.or_eq_true, decide_eq_true_eq] at takes
  rcases takes.2 with rfl | rfl <;> cases spells <;> exact ⟨_, rfl⟩

/-- All characters are kept exactly when no escape takes a separator. -/
theorem keptOf_eq_iff (items : List (Item quote)) :
    Spelling.keptOf items = items.filterMap Item.char? ↔ items.IsChain fun item next => item.takes next = false := by
  fun_induction Spelling.keptOf items with
  | case1 => simp
  | case2 item => simp [filterMap_cons]
  | case3 item next rest takes ih =>
    obtain ⟨c, lost⟩ := char_of_takes takes
    have shorter := (sublist_keptOf rest).length_le
    rw [filterMap_cons, filterMap_cons, List.append_cancel_left_eq, lost, List.isChain_cons_cons, takes]
    constructor
    · -- What is kept behind the pair is too short to make up for the separator.
      intro same
      have sizes := congrArg List.length same
      simp only [Option.toList_some, List.length_append, List.length_cons, List.length_nil] at sizes
      omega
    · rintro ⟨none, -⟩
      cases none
  | case4 item next rest keeps ih =>
    rw [filterMap_cons, List.append_cancel_left_eq, List.isChain_cons_cons, ih]
    simp [keeps]

theorem Spelling.kept_eq_iff (spelling : Spelling quote) : spelling.kept = spelling.chars ↔ spelling.Intact :=
  keptOf_eq_iff spelling.items

/-- The node of a literal with some parts. -/
def stringTree (quote : Quote) (cut : List Tree) : Tree :=
  branch "string" (word (String.singleton quote.char) :: (cut ++ [word (String.singleton quote.char)]))

/-- A literal whose text has some units is divided into parts, and stands for the text of the units. -/
theorem value_of_units {text : List Char} {decoded : List Nat} (read : units quote text = some decoded) :
    ∃ cut, parts quote text = some cut ∧
      value? (stringTree quote cut) = some (String.ofList (Utf16.lossy decoded)) := by
  obtain ⟨cut, divided, rfl⟩ := Option.map_eq_some_iff.mp read
  refine ⟨cut, divided, ?_⟩
  have mark : partUnits (word (String.singleton quote.char)) = [] := rfl
  have whole : (stringTree quote cut).children.flatMap partUnits = cut.flatMap partUnits := by
    rw [stringTree, branch, Tree.children, List.flatMap_cons, mark, List.flatMap_append, List.flatMap_singleton, mark,
      List.append_nil, List.nil_append]
  have literal : (stringTree quote cut).kind = "string" := rfl
  rw [value?, if_pos literal, whole]

/-- A spelling is divided into parts, and what they stand for is what is kept of it. -/
theorem value_spelling (spelling : Spelling quote) :
    ∃ cut, parts quote (spelling.text ++ [quote.char]) = some cut ∧
      value? (stringTree quote cut) = some (String.ofList spelling.kept) := by
  obtain ⟨cut, divided, decoded⟩ := value_of_units (units_items spelling.items spelling.apart)
  rw [Utf16.lossy_encode] at decoded
  exact ⟨cut, divided, decoded⟩

end

end EnvAudit.Script.StringLiteral
