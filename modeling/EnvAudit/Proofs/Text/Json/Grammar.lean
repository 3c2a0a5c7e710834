import EnvAudit.Text.Json
import EnvAudit.Text.Utf16
import Mathlib

/-!
# The grammar of JSON

Which texts are JSON documents, and what each of them means.
-/
namespace EnvAudit.Text.Json

/-- What a document means. A text is its units of UTF-16, since an escape may stand for half of a pair. -/
inductive Value where
  | null
  | boolean (value : Bool)
  | number (value : ℚ)
  | text (units : List Nat)
  | list (values : List Value)
  | object (members : List (List Nat × Value))

/-! ## Blanks -/

def isSpace (c : Char) : Bool := c = ' ' || c = '\t' || c = '\n' || c = '\r'

/-- What may stand around a value and around the signs between values. -/
def Blank (text : List Char) : Prop := ∀ c ∈ text, isSpace c = true

/-! ## Texts -/

/-- The character that one behind a backslash stands for. -/
def meant? : Char → Option Char
  | '"' => some '"'
  | '\\' => some '\\'
  | '/' => some '/'
  | 'b' => some '\x08'
  | 'f' => some '\x0c'
  | 'n' => some '\n'
  | 'r' => some '\r'
  | 't' => some '\t'
  | _ => none

/-- The value of a digit to the base sixteen, in either case. -/
def hexValue? (c : Char) : Option Nat :=
  if c.isDigit then some (c.toNat - 48)
  else if 'a' ≤ c ∧ c ≤ 'f' then some (c.toNat - 87)
  else if 'A' ≤ c ∧ c ≤ 'F' then some (c.toNat - 55)
  else none

/-- The unit that four digits to the base sixteen stand for. -/
def unit? (first second third fourth : Char) : Option Nat := do
  return (((← hexValue? first) * 16 + (← hexValue? second)) * 16 + (← hexValue? third)) * 16 + (← hexValue? fourth)

/-- One character of a text as it is written, and its units. -/
inductive Letter : List Char → List Nat → Prop where
  | plain {c : Char} (control : 0x20 ≤ c.toNat) (quote : c ≠ '"') (backslash : c ≠ '\\') : Letter [c] (Utf16.unitsOf c)
  | escaped {c meant : Char} (known : meant? c = some meant) : Letter ['\\', c] (Utf16.unitsOf meant)
  | unit {first second third fourth : Char} {unit : Nat} (known : unit? first second third fourth = some unit) :
      Letter ['\\', 'u', first, second, third, fourth] [unit]

/-- What stands between the quotes of a text. -/
inductive Letters : List Char → List Nat → Prop where
  | nil : Letters [] []
  | cons {written rest : List Char} {units more : List Nat} (letter : Letter written units)
      (letters : Letters rest more) : Letters (written ++ rest) (units ++ more)

/-! ## Numbers -/

/-- One digit or more. -/
abbrev Digits := { digits : List Char // digits ≠ [] ∧ ∀ c ∈ digits, c.isDigit = true }

/-- Whether no zero leads some digits, unless it is the only one. -/
def isTrimmed (digits : List Char) : Bool := digits = ['0'] || digits.head? ≠ some '0'

/-- The power of ten that may follow a number. -/
structure Exponent where
  mark : { c : Char // c = 'e' ∨ c = 'E' }
  sign : { text : List Char // text ∈ [[], ['+'], ['-']] }
  digits : Digits

namespace Exponent

def text (exponent : Exponent) : List Char := exponent.mark.val :: exponent.sign.val ++ exponent.digits.val

def value (exponent : Exponent) : ℤ :=
  let value := Nat.ofDigitChars 10 exponent.digits.val 0
  if exponent.sign.val = ['-'] then -value else value

end Exponent

/-- A number as it is written. -/
structure Numeral where
  negative : Bool
  whole : { digits : Digits // isTrimmed digits = true }
  fraction : Option Digits
  exponent : Option Exponent

/-- Some digits with a power of ten. -/
def decimal (negative : Bool) (digits : List Char) (power : ℤ) : ℚ :=
  (if negative then -1 else 1) * (Nat.ofDigitChars 10 digits 0 : ℚ) * (10 : ℚ) ^ power

namespace Numeral

/-- The digits behind the point. -/
def decimals (numeral : Numeral) : List Char := (numeral.fraction.map Subtype.val).getD []

def fractionText (numeral : Numeral) : List Char := if numeral.fraction.isSome then '.' :: numeral.decimals else []

def exponentText (numeral : Numeral) : List Char := (numeral.exponent.map Exponent.text).getD []

def text (numeral : Numeral) : List Char :=
  (if numeral.negative then ['-'] else []) ++ numeral.whole.val ++ numeral.fractionText ++ numeral.exponentText

def value (numeral : Numeral) : ℚ :=
  decimal numeral.negative (numeral.whole.val ++ numeral.decimals)
    ((numeral.exponent.map Exponent.value).getD 0 - numeral.decimals.length)

end Numeral

/-! ## Values -/

section Parts

variable {α : Type} (Part : List Char → α → Prop)

/-- A part with blanks around it. -/
inductive Padded : List Char → α → Prop where
  | mk {before written after : List Char} {value : α} (left : Blank before) (inside : Part written value)
      (right : Blank after) : Padded (before ++ written ++ after) value

/-- Parts with commas between them. -/
inductive Separated : List Char → List α → Prop where
  | last {written : List Char} {value : α} (part : Part written value) : Separated written [value]
  | more {written rest : List Char} {value : α} {values : List α} (part : Part written value)
      (parts : Separated rest values) : Separated (written ++ ',' :: rest) (value :: values)

/-- A name and a part with a colon between them. -/
inductive Named : List Char → List Nat × α → Prop where
  | mk {before name after written : List Char} {units : List Nat} {value : α} (left : Blank before)
      (letters : Letters name units) (right : Blank after) (part : Part written value) :
      Named (before ++ '"' :: name ++ '"' :: after ++ ':' :: written) (units, value)

end Parts

/-- A value as it is written, without blanks around it. -/
inductive Written : List Char → Value → Prop where
  | null : Written ['n', 'u', 'l', 'l'] .null
  | yes : Written ['t', 'r', 'u', 'e'] (.boolean true)
  | no : Written ['f', 'a', 'l', 's', 'e'] (.boolean false)
  | number (numeral : Numeral) : Written numeral.text (.number numeral.value)
  | text {inside : List Char} {units : List Nat} (letters : Letters inside units) :
      Written ('"' :: inside ++ ['"']) (.text units)
  | emptyList {blank : List Char} (blanks : Blank blank) : Written ('[' :: blank ++ [']']) (.list [])
  | list {inside : List Char} {values : List Value} (items : Separated (Padded Written) inside values) :
      Written ('[' :: inside ++ [']']) (.list values)
  | emptyObject {blank : List Char} (blanks : Blank blank) : Written ('\x7b' :: blank ++ ['\x7d']) (.object [])
  | object {inside : List Char} {members : List (List Nat × Value)}
      (items : Separated (Named (Padded Written)) inside members) :
      Written ('\x7b' :: inside ++ ['\x7d']) (.object members)

/-- A text is a document with a meaning. -/
def Means (text : String) (value : Value) : Prop := Padded Written text.toList value

end EnvAudit.Text.Json
