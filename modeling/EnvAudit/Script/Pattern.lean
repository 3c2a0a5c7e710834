/-!
# Character classes and token patterns

The shapes of tokens as regular patterns, read one character at a time: `Pattern.advance` gives what may
remain of a pattern after a character.
-/
namespace EnvAudit.Script

/-- A class of characters: some ranges, or everything outside them. -/
structure CharClass where
  ranges : List (Char × Char)
  complement : Bool := false
  deriving BEq, Repr, Inhabited

namespace CharClass

/-- The end of the text reads as the null character, so no class holds it. -/
def has (cls : CharClass) (c : Char) : Bool :=
  let inside := cls.ranges.any fun (low, high) => low ≤ c && c ≤ high
  if cls.complement then c != '\x00' && !inside else inside

def ofString (text : String) : CharClass := ⟨text.toList.map fun c => (c, c), false⟩

def range (low high : Char) : CharClass := ⟨[(low, high)], false⟩

def except (cls : CharClass) : CharClass := ⟨cls.ranges, !cls.complement⟩

/-- The union of two classes that are given by their ranges. -/
def union (left right : CharClass) : CharClass := ⟨left.ranges ++ right.ranges, left.complement⟩

instance : Append CharClass := ⟨union⟩

/-- White space inside a pattern. -/
def blank : CharClass := ⟨[('\x09', '\x0d'), (' ', ' ')], false⟩

/-- The Unicode category of space separators. -/
def spaceSeparator : CharClass :=
  ⟨[(' ', ' '), ('\u00a0', '\u00a0'), ('\u1680', '\u1680'), ('\u2000', '\u200a'), ('\u202f', '\u202f'),
    ('\u205f', '\u205f'), ('\u3000', '\u3000')], false⟩

/-- What may stand between two tokens. -/
def separator : CharClass := blank ++ spaceSeparator ++ ofString "\ufeff\u2028\u2029\u2060\u200b"

def digit : CharClass := range '0' '9'

def hexDigit : CharClass := digit ++ range 'a' 'f' ++ range 'A' 'F'

end CharClass

/-- A regular pattern. -/
inductive Pattern where
  /-- The empty text. -/
  | empty
  /-- One character of a class. -/
  | one (cls : CharClass)
  /-- Exactly these characters. -/
  | text (chars : List Char)
  | seq (first second : Pattern)
  | alt (first second : Pattern)
  /-- Any number of repetitions. -/
  | many (body : Pattern)
  deriving BEq, Repr, Inhabited

namespace Pattern

def word (text : String) : Pattern := .text text.toList

def chars (text : String) : Pattern := .one (.ofString text)

def allOf : List Pattern → Pattern
  | [] => .empty
  | [only] => only
  | first :: rest => .seq first (allOf rest)

def anyOf : List Pattern → Pattern
  | [] => .empty
  | [only] => only
  | first :: rest => .alt first (anyOf rest)

def many1 (body : Pattern) : Pattern := .seq body (.many body)

def opt (body : Pattern) : Pattern := .alt body .empty

def times (body : Pattern) : Nat → Pattern
  | 0 => .empty
  | count + 1 => .seq body (times body count)

/-- At least one and at most `most` repetitions. -/
def upTo (body : Pattern) (most : Nat) : Pattern :=
  match most with
  | 0 => .empty
  | rest + 1 => .seq body (tail rest)
where
  tail : Nat → Pattern
    | 0 => .empty
    | count + 1 => .alt (.seq body (tail count)) .empty

/-- Whether the empty text matches. -/
def isNullable : Pattern → Bool
  | .empty => true
  | .one _ => false
  | .text chars => chars.isEmpty
  | .seq first second => first.isNullable && second.isNullable
  | .alt first second => first.isNullable || second.isNullable
  | .many _ => true

def followedBy (second : Pattern) (first : Pattern) : Pattern :=
  match first with
  | .empty => second
  | first => .seq first second

/-- The patterns of which one matches the rest of a text exactly when the pattern matches the text that
starts with `c`. -/
def advance (c : Char) : Pattern → List Pattern
  | .empty => []
  | .one cls => if cls.has c then [.empty] else []
  | .text [] => []
  | .text (expected :: rest) =>
    if c = expected then [if rest.isEmpty then .empty else .text rest] else []
  | .seq first second =>
    let inFirst := (first.advance c).map (followedBy second)
    if first.isNullable then inFirst ++ second.advance c else inFirst
  | .alt first second => first.advance c ++ second.advance c
  | .many body => (body.advance c).map (followedBy (.many body))

/-! ## The longest match -/

/-- Follows some patterns behind what was read, the last character first; `best` is the longest match so far, with the
text behind it. -/
def longestOnto (read : List Char) (best : Option (List Char × List Char)) (patterns : List Pattern) :
    List Char → Option (List Char × List Char)
  | [] => if patterns.any isNullable then some (read, []) else best
  | c :: rest =>
    let best := if patterns.any isNullable then some (read, c :: rest) else best
    match patterns.flatMap (advance c) with
    | [] => best
    | next => longestOnto (c :: read) best next rest

/-- The longest beginning of a text that a pattern matches, which is not empty, and the text behind it. -/
def take? (pattern : Pattern) : List Char → Option (List Char × List Char)
  | [] => none
  | c :: rest => (longestOnto [c] none (pattern.advance c) rest).map fun (read, behind) => (read.reverse, behind)

theorem length_longestOnto {read front behind : List Char} {best : Option (List Char × List Char)}
    {patterns : List Pattern} {text : List Char} (found : longestOnto read best patterns text = some (front, behind)) :
    best = some (front, behind) ∨ behind.length ≤ text.length := by
  induction text generalizing read best patterns with
  | nil =>
    rw [longestOnto] at found
    split at found
    · cases found
      exact .inr (Nat.le_refl _)
    · exact .inl found
  | cons c rest ih =>
    rw [longestOnto] at found
    by_cases nullable : patterns.any isNullable = true
    · simp only [nullable, if_true] at found
      split at found
      · cases found
        exact .inr (Nat.le_refl _)
      · rcases ih found with same | shorter
        · cases same
          exact .inr (Nat.le_refl _)
        · exact .inr (Nat.le_succ_of_le shorter)
    · simp only [nullable] at found
      split at found
      · exact .inl found
      · exact (ih found).imp id Nat.le_succ_of_le

theorem length_take {pattern : Pattern} {text front behind : List Char}
    (found : pattern.take? text = some (front, behind)) : behind.length < text.length := by
  cases text with
  | nil => cases found
  | cons c rest =>
    obtain ⟨⟨read, left⟩, longest, same⟩ := Option.map_eq_some_iff.mp found
    cases same
    rcases length_longestOnto longest with none | shorter
    · cases none
    · exact Nat.lt_succ_of_le shorter

end Pattern

end EnvAudit.Script
