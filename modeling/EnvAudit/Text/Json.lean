/-!
# JSON documents

Values of JSON and how they are written over several lines, two blanks for each level.
-/
namespace EnvAudit.Text

inductive Json where
  | number (value : Nat)
  | text (value : String)
  | list (values : List Json)
  | object (members : List (String × Json))
  deriving Repr, Inhabited

namespace Json

def hexDigit (value : Nat) : Char := if value < 10 then Char.ofNat (48 + value) else Char.ofNat (87 + value)

/-- How a character is written inside a text. -/
def escaped (c : Char) : List Char :=
  match c with
  | '"' => ['\\', '"']
  | '\\' => ['\\', '\\']
  | '\x08' => ['\\', 'b']
  | '\x0c' => ['\\', 'f']
  | '\n' => ['\\', 'n']
  | '\r' => ['\\', 'r']
  | '\t' => ['\\', 't']
  | c =>
    if c.toNat < 0x20 then ['\\', 'u', '0', '0', hexDigit (c.toNat / 16), hexDigit (c.toNat % 16)] else [c]

def renderText (text : String) : List Char := '"' :: text.toList.flatMap escaped ++ ['"']

def newLine (depth : Nat) : List Char := '\n' :: List.replicate (2 * depth) ' '

mutual

/-- A value at some depth. -/
def render (depth : Nat) : Json → List Char
  | number value => (toString value).toList
  | text value => renderText value
  | list [] => ['[', ']']
  | list (first :: rest) =>
    '[' :: newLine (depth + 1) ++ render (depth + 1) first ++ renderValues depth rest ++ newLine depth ++ [']']
  | object [] => ['\x7b', '\x7d']
  | object ((name, first) :: rest) =>
    '\x7b' :: newLine (depth + 1) ++ renderText name ++ [':', ' '] ++ render (depth + 1) first ++
      renderMembers depth rest ++ newLine depth ++ ['\x7d']

def renderValues (depth : Nat) : List Json → List Char
  | [] => []
  | value :: rest => ',' :: newLine (depth + 1) ++ render (depth + 1) value ++ renderValues depth rest

def renderMembers (depth : Nat) : List (String × Json) → List Char
  | [] => []
  | (name, value) :: rest =>
    ',' :: newLine (depth + 1) ++ renderText name ++ [':', ' '] ++ render (depth + 1) value ++
      renderMembers depth rest

end

/-- The text of a document. -/
def document (value : Json) : String := String.ofList (value.render 0)

end Json

end EnvAudit.Text
