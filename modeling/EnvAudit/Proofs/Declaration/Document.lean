import EnvAudit.Declaration

/-!
# Documents

Declaration files as they are written: lines that are blank, comments, noise or assignments, each with its spelling,
and the entries that the assignments of a document declare.
-/
namespace EnvAudit.Declaration

/-! ## Parts of a line -/

/-- A run of spaces and tabs. -/
abbrev Margin := { chars : List Char // ∀ c ∈ chars, c = ' ' ∨ c = '\t' }

/-- A run of spaces and tabs that is not empty. -/
abbrev Gap := { margin : Margin // margin.val ≠ [] }

/-- A text within one line. -/
abbrev Line := { chars : List Char // '\n' ∉ chars }

/-- A key as it is written. -/
abbrev KeyText := { chars : List Char // chars ≠ [] ∧ ∀ c ∈ chars, isKeyChar c = true }

inductive Quote where
  | single
  | double
  | backtick
  deriving DecidableEq, Repr

def Quote.char : Quote → Char
  | single => '\''
  | double => '"'
  | backtick => '\x60'

/-- What stands between a key and its value. -/
inductive Separator where
  | equals (before after : Margin)
  | colon (gap : Gap)

def Separator.text : Separator → List Char
  | equals before after => before.val ++ '=' :: after.val
  | colon gap => ':' :: gap.val.val

/-- A value without quotes: it ends before a comment, and has no white space or quote where it begins and no white
space where it ends. -/
structure PlainText where
  chars : List Char
  within : ∀ c ∈ chars, c ≠ '#' ∧ c ≠ '\n'
  first : ∃ c, chars.head? = some c ∧ Text.isBlank c = false ∧ isQuote c = false
  last : ∃ c, chars.getLast? = some c ∧ Text.isBlank c = false

/-- A value as it is written. A value between quotes may run over several lines. -/
inductive Value where
  | empty
  | plain (text : PlainText)
  | quoted (quote : Quote) (chars : List Char) (unclosed : quote.char ∉ chars)
      (unescaped : chars.getLast? ≠ some '\\')

def Value.text : Value → List Char
  | empty => []
  | plain text => text.chars
  | quoted quote chars _ _ => quote.char :: (chars ++ [quote.char])

/-- A text with the escapes of line breaks as the characters that they mean. -/
def expandBreaks : List Char → List Char
  | '\\' :: 'n' :: rest => '\n' :: expandBreaks rest
  | '\\' :: 'r' :: rest => '\r' :: expandBreaks rest
  | c :: rest => c :: expandBreaks rest
  | [] => []

/-- What a value means. -/
def Value.meaning : Value → List Char
  | empty => []
  | plain text => text.chars
  | quoted .double chars _ _ => expandBreaks chars
  | quoted _ chars _ _ => chars

/-- A comment with its mark, if there is one. -/
def commentText : Option Line → List Char
  | none => []
  | some comment => '#' :: comment.val

/-! ## Lines -/

/-- A line that assigns a value to a key. -/
structure Assignment where
  margin : Margin
  /-- The white space behind the word `export`, where that word stands. -/
  exported : Option Gap
  key : KeyText
  separator : Separator
  value : Value
  after : Margin
  comment : Option Line

namespace Assignment

def exportText : Option Gap → List Char
  | none => []
  | some gap => exportWord ++ gap.val.val

def text (assignment : Assignment) : List Char :=
  assignment.margin.val ++ exportText assignment.exported ++ assignment.key.val ++ assignment.separator.text ++
    assignment.value.text ++ assignment.after.val ++ commentText assignment.comment

/-- The key with its value. -/
def entry (assignment : Assignment) : String × String :=
  (String.ofList assignment.key.val, String.ofList assignment.value.meaning)

end Assignment

/-- A line that neither separator stands in and that no quote begins. -/
structure Noise where
  line : Line
  separated : ∀ c ∈ line.val, c ≠ '=' ∧ c ≠ ':'
  unquoted : ∀ c, (line.val.dropWhile Text.isBlank).head? = some c → isQuote c = false

/-- A part of a document, on a line of its own or, between quotes, on several. -/
inductive Item where
  | blank (margin : Margin)
  | comment (margin : Margin) (text : Line)
  | noise (noise : Noise)
  | assignment (assignment : Assignment)

namespace Item

def text : Item → List Char
  | blank margin => margin.val
  | comment margin text => margin.val ++ commentText (some text)
  | noise unread => unread.line.val
  | assignment assigned => assigned.text

def entry? : Item → Option (String × String)
  | assignment assigned => some assigned.entry
  | _ => none

end Item

/-- Items one after another, with a line feed between each two. -/
def documentText (items : List Item) : List Char := List.intercalate ['\n'] (items.map Item.text)

/-- The keys of some assignments at their first positions, each with the value that it is assigned last. -/
def settled (assigned : List (String × String)) : Entries :=
  (assigned.map Prod.fst).eraseDups.map fun key => (key, (assigned.reverse.lookup key).getD "")

/-- What a document declares. -/
def declared (items : List Item) : Entries := settled (items.filterMap Item.entry?)

end EnvAudit.Declaration
