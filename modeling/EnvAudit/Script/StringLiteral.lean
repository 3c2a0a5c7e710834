import EnvAudit.Script.Tree
import EnvAudit.Text.Utf16

/-!
# String literals

The text that a string literal stands for. It is put together from units of 16 bits, since one escape may write
half of a pair.
-/
namespace EnvAudit.Script.StringLiteral

open EnvAudit.Text

def hexValue? (c : Char) : Option Nat :=
  if '0' ≤ c && c ≤ '9' then some (c.toNat - 48)
  else if 'a' ≤ c && c ≤ 'f' then some (c.toNat - 87)
  else if 'A' ≤ c && c ≤ 'F' then some (c.toNat - 55)
  else none

def readHex (value : Nat) : List Char → Option Nat
  | [] => some value
  | c :: rest => (hexValue? c).bind fun digit => readHex (value * 16 + digit) rest

/-- A number in hexadecimal digits, a plus sign before them allowed. -/
def hex? : List Char → Option Nat
  | [] => none
  | ['+'] => none
  | '+' :: digits => readHex 0 digits
  | digits => readHex 0 digits

/-- The character with a code, if there is one. -/
def char? (code : Nat) : Option Char :=
  if code.isValidChar then some (Char.ofNat code) else none

/-- What stands between braces. -/
def braced? : List Char → Option (List Char)
  | '\x7b' :: rest => if rest.getLast? = some '\x7d' then some rest.dropLast else none
  | _ => none

/-- The units of an escape from its letter on; `whole` is the escape as it stands. -/
def unitsAfter (whole : List Char) (first : Char) (rest : List Char) : List Nat :=
  let asIs := Utf16.encode whole
  match first with
  | 'n' => [10]
  | 't' => [9]
  | 'r' => [13]
  | 'b' => [8]
  | 'f' => [12]
  | 'v' => [11]
  | '\n' => []
  | '\r' => []
  | '\u2028' => []
  | '\u2029' => []
  | 'x' =>
    match (hex? rest).bind char? with
    | some c => if rest.length = 2 then Utf16.unitsOf c else asIs
    | none => asIs
  | 'u' =>
    match braced? rest with
    | some digits =>
      match (hex? digits).bind char? with
      | some c => Utf16.unitsOf c
      | none => asIs
    | none =>
      match hex? rest with
      | some unit => if rest.length = 4 then [unit] else asIs
      | none => asIs
  | '0' => if rest = [] then [0] else Utf16.unitsOf '0'
  | other => Utf16.unitsOf other

/-- The units of an escape; one that is not understood stands for itself, and one of a line break for nothing. -/
def escapeUnits : List Char → List Nat
  | '\\' :: first :: rest => unitsAfter ('\\' :: first :: rest) first rest
  | ['\\'] => []
  | text => Utf16.encode text

/-- The units of a part of a literal. -/
def partUnits (part : Tree) : List Nat :=
  if !part.head.named then []
  else if part.kind = "string_fragment" then Utf16.encode part.text.toList
  else if part.kind = "escape_sequence" then escapeUnits part.text.toList
  else []

/-- The text of a string literal; nothing for any other node. -/
def value? (tree : Tree) : Option String :=
  if tree.kind = "string" then some (String.ofList (Utf16.lossy (tree.children.flatMap partUnits))) else none

end EnvAudit.Script.StringLiteral
