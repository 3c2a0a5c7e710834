import EnvAudit.Proofs.Script.Pattern
import EnvAudit.Proofs.Script.Program
import EnvAudit.Script.Grammar.Tokens
import EnvAudit.Script.StringLiteral

/-!
# Parts of string literals

How the tokens of the grammar divide the text between two quotes: characters that stand for themselves up to the next
one that does not, and escapes as long as they can be read. What a literal stands for is given part by part.
-/
namespace EnvAudit.Script

namespace StringLiteral

open Program (Quote isHexDigit isOctalDigit)
open EnvAudit.Script.Tree (leaf)

/-! ## Tokens -/

def fragmentPattern (quote : Quote) : Pattern := (Grammar.stringText (String.singleton quote.char)).pattern

def escapePattern : Pattern := Grammar.escapeSequence.pattern

/-- Whether a character stands for itself in a literal. -/
def isPlain (quote : Quote) (c : Char) : Bool :=
  c ≠ quote.char && c ≠ '\\' && c ≠ '\r' && c ≠ '\n' && c ≠ '\x00'

theorem matches_fragment (quote : Quote) (text : List Char) :
    (fragmentPattern quote).Matches text ↔ text ≠ [] ∧ text.all (isPlain quote) = true := by
  have same : (CharClass.ofString (String.singleton quote.char ++ "\\\r\n")).except.has = isPlain quote := by
    funext c
    rw [Bool.eq_iff_iff, CharClass.has_except rfl, CharClass.has_ofString]
    simp [isPlain]
    tauto
  have shape : fragmentPattern quote =
    .many1 (.one (CharClass.ofString (String.singleton quote.char ++ "\\\r\n")).except) := rfl
  rw [shape, Pattern.matches_many1, same]

theorem has_hexDigit : CharClass.hexDigit.has = isHexDigit := by
  funext c
  rw [CharClass.hexDigit, CharClass.has_append rfl rfl, CharClass.has_append rfl rfl]
  simp only [CharClass.digit, CharClass.has_range]
  rfl

private theorem has_octal : (CharClass.range '0' '7').has = isOctalDigit := by
  funext c
  exact CharClass.has_range ..

private theorem has_single (c : Char) :
    (CharClass.ofString "xu" ++ .range '0' '7').except.has c = true ↔
      c ≠ '\x00' ∧ c ≠ 'x' ∧ c ≠ 'u' ∧ ¬ isOctalDigit c = true := by
  rw [CharClass.has_except rfl, CharClass.has_append rfl rfl, Bool.or_eq_true, CharClass.has_ofString, has_octal]
  simp [not_or, and_assoc]

/-- What stands behind the mark of an escape, one case for each alternative of the grammar. -/
inductive EscapeBody : List Char → Prop
  | single {c : Char} (filled : c ≠ '\x00') (byte : c ≠ 'x') (unit : c ≠ 'u') (octal : isOctalDigit c = false) :
    EscapeBody [c]
  | octal {digits : List Char} (filled : digits ≠ []) (most : digits.length ≤ 3)
    (octal : digits.all isOctalDigit = true) : EscapeBody digits
  | byte {digits : List Char} (two : digits.length = 2) (hex : digits.all isHexDigit = true) :
    EscapeBody ('x' :: digits)
  | unit {digits : List Char} (four : digits.length = 4) (hex : digits.all isHexDigit = true) :
    EscapeBody ('u' :: digits)
  | braced {digits : List Char} (filled : digits ≠ []) (hex : digits.all isHexDigit = true) :
    EscapeBody ('u' :: '\x7b' :: (digits ++ ['\x7d']))
  | line {first last : Char} (opens : first ∈ ['\r', '?']) (closes : last ∈ ['\n', '\u2028', '\u2029']) :
    EscapeBody [first, last]

theorem matches_escape (text : List Char) :
    escapePattern.Matches text ↔ ∃ body, text = '\\' :: body ∧ EscapeBody body := by
  have shape : escapePattern = .seq (.text ['\\']) (.alt
    (.one (CharClass.ofString "xu" ++ .range '0' '7').except)
    (.alt (.upTo (.one (.range '0' '7')) 3)
      (.alt (.seq (.text ['x']) (.times (.one .hexDigit) 2))
        (.alt (.seq (.text ['u']) (.times (.one .hexDigit) 4))
          (.alt (.seq (.text ['u', '\x7b']) (.seq (.many1 (.one .hexDigit)) (.text ['\x7d'])))
            (.seq (.chars "\r?") (.chars "\n\u2028\u2029"))))))) := rfl
  rw [shape, Pattern.matches_text_seq]
  -- The alternatives behind the mark stand in the order of the cases of `EscapeBody`.
  refine exists_congr fun body => and_congr_right fun _ => ?_
  simp only [Pattern.matches_alt, Pattern.matches_one, Pattern.matches_text_seq, Pattern.matches_upTo,
    Pattern.matches_times, Pattern.chars, Pattern.matches_one_seq, CharClass.has_ofString, has_single, has_octal,
    has_hexDigit]
  constructor
  · rintro (⟨c, rfl, filled, byte, unit, octal⟩ | ⟨most, filled, octal⟩ | ⟨digits, rfl, two, hex⟩ |
      ⟨digits, rfl, four, hex⟩ | ⟨_, rfl, digits, _, rfl, braced, rfl⟩ |
      ⟨first, _, rfl, opens, last, rfl, closes⟩)
    · exact .single filled byte unit (by simpa using octal)
    · exact .octal (filled (by decide)) most octal
    · exact .byte two hex
    · exact .unit four hex
    · obtain ⟨filled, hex⟩ := (Pattern.matches_many1 digits).mp braced
      exact .braced filled (has_hexDigit ▸ hex)
    · exact .line opens closes
  · intro escape
    cases escape with
    | @single c filled byte unit octal => exact .inl ⟨c, rfl, filled, byte, unit, by simpa using octal⟩
    | octal filled most octal => exact .inr (.inl ⟨most, fun _ => filled, octal⟩)
    | @byte digits two hex => exact .inr (.inr (.inl ⟨digits, rfl, two, hex⟩))
    | @unit digits four hex => exact .inr (.inr (.inr (.inl ⟨digits, rfl, four, hex⟩)))
    | @braced digits filled hex =>
      have digits_ := (Pattern.matches_many1 digits).mpr ⟨filled, has_hexDigit ▸ hex⟩
      exact .inr (.inr (.inr (.inr (.inl ⟨_, rfl, digits, _, rfl, digits_, rfl⟩))))
    | @line first last opens closes =>
      exact .inr (.inr (.inr (.inr (.inr ⟨first, _, rfl, opens, last, rfl, closes⟩))))

/-- Every character but the letters of longer escapes is an escape behind the mark. -/
theorem EscapeBody.one {c : Char} (filled : c ≠ '\x00') (byte : c ≠ 'x') (unit : c ≠ 'u') : EscapeBody [c] := by
  cases octal : isOctalDigit c with
  | false => exact .single filled byte unit octal
  | true => exact .octal (by simp) (by simp) (by simpa using octal)

theorem EscapeBody.filled {body : List Char} (escape : EscapeBody body) : body ≠ [] := by
  cases escape with
  | octal filled => exact filled
  | _ => simp

theorem EscapeBody.of_x {digits : List Char} (escape : EscapeBody ('x' :: digits)) : digits.length = 2 := by
  cases escape with
  | single _ byte => exact absurd rfl byte
  | octal _ _ octal => simp [show isOctalDigit 'x' = false by decide] at octal
  | byte two => exact two
  | line opens => exact absurd opens (by decide)

theorem EscapeBody.of_u {rest : List Char} (escape : EscapeBody ('u' :: rest)) :
    (rest.length = 4 ∧ rest.all isHexDigit = true) ∨
      ∃ digits, rest = '\x7b' :: (digits ++ ['\x7d']) ∧ digits.all isHexDigit = true := by
  cases escape with
  | single _ _ unit => exact absurd rfl unit
  | octal _ _ octal => simp [show isOctalDigit 'u' = false by decide] at octal
  | unit four hex => exact .inl ⟨four, hex⟩
  | @braced digits _ hex => exact .inr ⟨digits, rfl, hex⟩
  | line opens => exact absurd opens (by decide)

/-- Whether an escape could go on with the character behind it. -/
def Takes (body : List Char) (next : Char) : Prop :=
  (body.all isOctalDigit = true ∧ isOctalDigit next = true) ∨
    (body = ['\r'] ∨ body = ['?']) ∧ next ∈ ['\n', '\u2028', '\u2029']

/-- A longer escape goes on with a character that the escape could take. -/
theorem takes_of_longer {body rest : List Char} {next : Char} (escape : EscapeBody body)
    (longer : EscapeBody (body ++ next :: rest)) : Takes body next := by
  obtain ⟨first, inner, rfl⟩ := List.exists_cons_of_ne_nil escape.filled
  have opening : isHexDigit '\x7b' = false := by decide
  have closing : isHexDigit '\x7d' = false := by decide
  rw [List.cons_append] at longer
  generalize whole : inner ++ next :: rest = tail at longer
  have size := congrArg List.length whole
  rw [List.length_append, List.length_cons] at size
  -- Both escapes have the same first character, so most of their kinds cannot differ.
  cases longer with
  | single => simp at whole
  | octal _ _ octal =>
    rw [← whole] at octal
    simp only [List.all_cons, List.all_append, Bool.and_eq_true] at octal
    refine .inl ⟨?_, octal.2.2.1⟩
    simp only [List.all_cons, octal.1, octal.2.1, Bool.and_self]
  | byte two =>
    have := escape.of_x
    omega
  | unit four hex =>
    rcases escape.of_u with ⟨also, _⟩ | ⟨digits, rfl, _⟩
    · omega
    · simp [← whole, opening] at hex
  | @braced digits _ hex =>
    rcases escape.of_u with ⟨four, hexes⟩ | ⟨others, rfl, _⟩
    · cases inner with
      | nil => cases four
      | cons c inner =>
        obtain ⟨rfl, _⟩ := List.cons.inj whole
        simp [opening] at hexes
    · -- The brace that closes the escape would be one of the digits.
      have ends := congrArg List.dropLast (List.cons.inj whole).2
      rw [List.dropLast_concat] at ends
      simp [← ends, closing] at hex
  | @line first last opens closes =>
    obtain ⟨rfl, rfl, -⟩ : inner = [] ∧ next = last ∧ rest = [] := by
      simpa [List.append_eq_singleton_iff] using whole
    exact .inr ⟨by simpa using opens, closes⟩

/-! ## Parts -/

/-- The part at the beginning of a text, and the text behind it. -/
def firstPart (quote : Quote) (text : List Char) : Option (Tree × List Char) :=
  match Pattern.longest [fragmentPattern quote] text with
  | some (front, behind) => some (leaf "string_fragment" front, behind)
  | none => (Pattern.longest [escapePattern] text).map fun (front, behind) => (leaf "escape_sequence" front, behind)

private theorem shorter_of_longest {pattern : Pattern} {text front behind : List Char}
    (found : Pattern.longest [pattern] text = some (front, behind)) (filled : ¬ pattern.Matches []) :
    behind.length < text.length := by
  obtain ⟨rfl, matched, -⟩ := Pattern.longest_eq_some found
  rw [Pattern.someMatches_singleton] at matched
  cases front with
  | nil => exact absurd matched filled
  | cons c front =>
    rw [List.length_append, List.length_cons]
    omega

/-- No characters that stand for themselves begin with the mark of an escape. -/
private theorem longest_fragment_mark (quote : Quote) (rest : List Char) :
    Pattern.longest [fragmentPattern quote] ('\\' :: rest) = none := by
  cases fragment : Pattern.longest [fragmentPattern quote] ('\\' :: rest) with
  | none => rfl
  | some found =>
    obtain ⟨spelled, matched, -⟩ := Pattern.longest_eq_some fragment
    rw [Pattern.someMatches_singleton, matches_fragment] at matched
    obtain ⟨c, front, first⟩ := List.exists_cons_of_ne_nil matched.1
    rw [first] at spelled matched
    obtain ⟨rfl, -⟩ := List.cons.inj spelled
    simp [isPlain] at matched

theorem length_firstPart {quote : Quote} {text behind : List Char} {part : Tree}
    (found : firstPart quote text = some (part, behind)) : behind.length < text.length := by
  unfold firstPart at found
  split at found
  next fragment =>
    cases found
    exact shorter_of_longest fragment (by simp [matches_fragment])
  next =>
    obtain ⟨⟨front, behind⟩, escape, same⟩ := Option.map_eq_some_iff.mp found
    cases same
    exact shorter_of_longest escape (by simp [matches_escape])

/-- The parts of a text behind a mark, up to the mark that closes it. -/
def parts (quote : Quote) (text : List Char) : Option (List Tree) :=
  if text = [quote.char] then some []
  else
    match _found : firstPart quote text with
    | none => none
    | some (part, behind) => (parts quote behind).map (part :: ·)
termination_by text.length
decreasing_by exact length_firstPart _found

/-- The units that the parts of a text stand for. -/
def units (quote : Quote) (text : List Char) : Option (List Nat) := (parts quote text).map (·.flatMap partUnits)

theorem partUnits_fragment (text : List Char) : partUnits (leaf "string_fragment" text) = Text.Utf16.encode text := by
  simp [partUnits, leaf, Tree.head, Tree.kind, Tree.text]

theorem partUnits_escape (text : List Char) : partUnits (leaf "escape_sequence" text) = escapeUnits text := by
  simp [partUnits, leaf, Tree.head, Tree.kind, Tree.text]

theorem units_closing (quote : Quote) : units quote [quote.char] = some [] := by
  rw [units, parts, if_pos rfl]
  rfl

private theorem units_firstPart {quote : Quote} {text behind : List Char} {part : Tree} (inside : text ≠ [quote.char])
    (found : firstPart quote text = some (part, behind)) :
    units quote text = (units quote behind).map (partUnits part ++ ·) := by
  have cut : parts quote text = (parts quote behind).map (part :: ·) := by
    rw [parts, if_neg inside]
    split
    next none => simp [found] at none
    next other =>
      rw [found] at other
      cases other
      rfl
  rw [units, cut, units, Option.map_map, Option.map_map]
  rfl

private theorem units_run {quote : Quote} {run behind : List Char} (filled : run ≠ [])
    (plain : run.all (isPlain quote) = true) (ends : ∀ c ∈ behind.head?, isPlain quote c = false) :
    units quote (run ++ behind) = (units quote behind).map (Text.Utf16.encode run ++ ·) := by
  have most : ∀ more, more ≠ [] → more <+: behind → ¬ Pattern.SomeMatches [fragmentPattern quote] (run ++ more) := by
    rintro (_ | ⟨c, more⟩) filled ⟨rest, rfl⟩
    · exact absurd rfl filled
    · have stops := ends c rfl
      simp [matches_fragment, stops]
  have fragment := Pattern.longest_of_match
    ((Pattern.someMatches_singleton _ _).mpr ((matches_fragment quote run).mpr ⟨filled, plain⟩)) most
  have found : firstPart quote (run ++ behind) = some (leaf "string_fragment" run, behind) := by
    rw [firstPart, fragment]
  have inside : run ++ behind ≠ [quote.char] := by
    rintro same
    obtain ⟨c, rest, rfl⟩ := List.exists_cons_of_ne_nil filled
    obtain ⟨rfl, -⟩ := List.cons.inj same
    simp [isPlain] at plain
  rw [units_firstPart inside found, partUnits_fragment]

/-- A character that stands for itself adds its own units, whether or not it begins a longer part. -/
theorem units_plain {quote : Quote} {c : Char} (plain : isPlain quote c = true) (rest : List Char) :
    units quote (c :: rest) = (units quote rest).map (Text.Utf16.unitsOf c ++ ·) := by
  have split : rest = rest.takeWhile (isPlain quote) ++ rest.dropWhile (isPlain quote) := by simp
  have every : (rest.takeWhile (isPlain quote)).all (isPlain quote) = true := by simp
  have ends : ∀ d ∈ (rest.dropWhile (isPlain quote)).head?, isPlain quote d = false := by
    intro d first
    simpa [Option.mem_def.mp first] using List.head?_dropWhile_not (isPlain quote) rest
  -- The part that begins with the character goes on over the whole run behind it.
  generalize rest.takeWhile (isPlain quote) = run at split every
  generalize rest.dropWhile (isPlain quote) = behind at split ends
  subst split
  have whole : units quote (c :: (run ++ behind)) = (units quote behind).map (Text.Utf16.encode (c :: run) ++ ·) :=
    units_run (List.cons_ne_nil c run) (by simpa [plain] using every) ends
  rw [whole]
  cases run with
  | nil => simp [Text.Utf16.encode]
  | cons d run =>
    rw [units_run (List.cons_ne_nil d run) every ends, Option.map_map]
    simp [Function.comp_def, Text.Utf16.encode]

/-- An escape that does not go on with the character behind it adds its units. -/
theorem units_escape {quote : Quote} {body rest : List Char} (escape : EscapeBody body)
    (apart : ∀ next ∈ rest.head?, ¬ Takes body next) :
    units quote ('\\' :: (body ++ rest)) = (units quote rest).map (escapeUnits ('\\' :: body) ++ ·) := by
  have most : ∀ more, more ≠ [] → more <+: rest → ¬ Pattern.SomeMatches [escapePattern] ('\\' :: body ++ more) := by
    rintro (_ | ⟨next, more⟩) filled ⟨behind, rfl⟩
    · exact absurd rfl filled
    · rw [Pattern.someMatches_singleton, matches_escape]
      rintro ⟨longer, same, also⟩
      obtain rfl : body ++ next :: more = longer := (List.cons.inj same).2
      exact apart next rfl (takes_of_longer escape also)
  have longest := Pattern.longest_of_match
    ((Pattern.someMatches_singleton _ _).mpr ((matches_escape _).mpr ⟨body, rfl, escape⟩)) most
  have found : firstPart quote ('\\' :: (body ++ rest)) = some (leaf "escape_sequence" ('\\' :: body), rest) := by
    rw [← List.cons_append, firstPart, longest, List.cons_append, longest_fragment_mark]
    rfl
  have inside : '\\' :: (body ++ rest) ≠ [quote.char] := by
    intro same
    exact absurd (List.append_eq_nil_iff.mp (List.cons.inj same).2).1 escape.filled
  rw [units_firstPart inside found, partUnits_escape]

/-- A separator behind an escaped question mark is a part of the escape. -/
example : (parts .double "a\\?\u2028\"".toList).map (·.map Tree.text) = some ["a", "\\?\u2028"] := by
  decide +kernel

/-- The parts are runs of characters and escapes, each of them a node without children. -/
theorem leaf_of_mem_parts {quote : Quote} {text : List Char} {cut : List Tree} (divided : parts quote text = some cut) :
    ∀ part ∈ cut, ∃ kind chars, part = leaf kind chars ∧ (kind = "string_fragment" ∨ kind = "escape_sequence") := by
  fun_induction parts quote text generalizing cut with
  | case1 =>
    cases divided
    simp
  | case2 => cases divided
  | case3 text inside part behind found ih =>
    obtain ⟨rest, later, rfl⟩ := Option.map_eq_some_iff.mp divided
    have first : ∃ kind chars, part = leaf kind chars ∧ (kind = "string_fragment" ∨ kind = "escape_sequence") := by
      unfold firstPart at found
      split at found
      next =>
        cases found
        exact ⟨_, _, rfl, .inl rfl⟩
      next =>
        obtain ⟨_, _, same⟩ := Option.map_eq_some_iff.mp found
        cases same
        exact ⟨_, _, rfl, .inr rfl⟩
    intro other member
    rcases List.mem_cons.mp member with rfl | listed
    · exact first
    · exact ih later other listed

end StringLiteral

end EnvAudit.Script
