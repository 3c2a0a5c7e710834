import EnvAudit.Text.Unprintable
import EnvAudit.Text.GraphemeExtend

/-!
# Quoted text

A text between quotes in which every character can be seen: quotes, backslashes and characters without a glyph of
their own are written as escapes.
-/
namespace EnvAudit.Text

def hexDigits (value : Nat) : List Char := Nat.toDigits 16 value

/-- How a character is written between quotes. -/
def quotedChar (c : Char) : List Char :=
  match c with
  | '\x00' => ['\\', '0']
  | '\t' => ['\\', 't']
  | '\r' => ['\\', 'r']
  | '\n' => ['\\', 'n']
  | '"' => ['\\', '"']
  | '\\' => ['\\', '\\']
  | c =>
    if ' ' ≤ c && c ≤ '~' then [c]
    else if isGraphemeExtend c || isUnprintable c then
      ['\\', 'u', '\x7b'] ++ hexDigits c.toNat ++ ['\x7d']
    else [c]

/-- A text between quotes. -/
def quoted (text : String) : List Char := '"' :: text.toList.flatMap quotedChar ++ ['"']

/-- Quoted texts in brackets, with commas between them. -/
def quotedList (texts : List String) : String :=
  String.ofList ('[' :: (List.intercalate [',', ' '] (texts.map quoted)) ++ [']'])

end EnvAudit.Text
