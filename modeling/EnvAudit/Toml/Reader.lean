import EnvAudit.Toml.Item

/-!
# Reading TOML

Readers take characters off the front of a text. A failure tells what was expected where; a final one leaves no
other reading of the text.
-/
namespace EnvAudit.Toml

/-- What is left of a text, and the bytes before it. -/
structure Cursor where
  offset : Nat
  rest : List Char

structure Failure where
  offset : Nat
  isFinal : Bool := false
  /-- What was being read, the innermost of several. -/
  label : Option String := none
  expected : List String := []
  cause : Option String := none
  deriving DecidableEq, Repr

/-- The reason for a failure in one to three lines. -/
def Failure.reason (failure : Failure) : String :=
  "\n".intercalate
    ((failure.label.map ("invalid " ++ ·)).toList ++
      (if failure.expected.isEmpty then [] else ["expected " ++ ", ".intercalate failure.expected]) ++
      failure.cause.toList)

abbrev Reader := StateT Cursor (Except Failure)

namespace Reader

variable {α : Type}

def offset : Reader Nat := return (← get).offset

def failAt (offset : Nat) : Reader α := throw { offset }

/-- Fails for a cause of its own. -/
def refuse (offset : Nat) (cause : String) : Reader α := throw { offset, cause := some cause }

def fail : Reader α := do failAt (← offset)

private def amend (change : Failure → Failure) (reader : Reader α) : Reader α := fun cursor =>
  match reader cursor with
  | .error failure => .error (change failure)
  | done => done

/-- Says what is being read. -/
def labelled (label : String) : Reader α → Reader α :=
  amend fun failure => { failure with label := failure.label.or (some label) }

/-- Says what would be right. -/
def expecting (expected : List String) : Reader α → Reader α :=
  amend fun failure => { failure with expected := failure.expected ++ expected }

/-- Leaves no other reading. -/
def firmly : Reader α → Reader α := amend fun failure => { failure with isFinal := true }

/-- Reads nothing where the reader fails, unless that is final. -/
def optional (reader : Reader α) : Reader (Option α) := fun cursor =>
  match reader cursor with
  | .ok (value, behind) => .ok (some value, behind)
  | .error failure => if failure.isFinal then .error failure else .ok (none, cursor)

/-- Takes the second reader where the first one fails, unless that is final. -/
def orElse (first second : Reader α) : Reader α := do
  match ← optional first with
  | some value => return value
  | none => second

/-- Fails at the beginning of what was read, where the value is refused. -/
def checked {β : Type} (check : α → Except String β) (reader : Reader α) : Reader β := do
  let start ← offset
  let value ← reader
  match check value with
  | .ok result => return result
  | .error cause => refuse start cause

/-- Reads as often as possible, at most as often as there are characters. -/
def many (reader : Reader α) : Reader (List α) := do
  let rec loop : Nat → Reader (List α)
    | 0 => return []
    | fuel + 1 => do
      match ← optional reader with
      | some value => return value :: (← loop fuel)
      | none => return []
  loop (← get).rest.length

def peek? : Reader (Option Char) := return (← get).rest.head?

def next : Reader Char := do
  let cursor ← get
  match cursor.rest with
  | c :: rest =>
    set { cursor with offset := cursor.offset + c.utf8Size, rest }
    return c
  | [] => fail

/-- The longest stretch of at most `most` characters of a class. -/
def takeAtMost (most : Nat) (isMember : Char → Bool) : Reader (List Char) := do
  let cursor ← get
  let taken := (cursor.rest.take most).takeWhile isMember
  set { offset := taken.foldl (· + ·.utf8Size) cursor.offset, rest := cursor.rest.drop taken.length : Cursor }
  return taken

/-- The longest stretch of characters of a class. -/
def takeAll (isMember : Char → Bool) : Reader (List Char) := do takeAtMost (← get).rest.length isMember

/-- The longest stretch of characters of a class, which is not empty. -/
def takeSome (isMember : Char → Bool) : Reader (List Char) := do
  let taken ← takeAll isMember
  if taken.isEmpty then fail else return taken

/-- Exactly so many characters of a class. -/
def takeExactly (count : Nat) (isMember : Char → Bool) : Reader (List Char) := do
  let start ← offset
  let taken ← takeAtMost count isMember
  if taken.length = count then return taken else failAt start

def one (isMember : Char → Bool) : Reader Char := do
  match (← get).rest with
  | c :: _ => if isMember c then next else fail
  | [] => fail

def char (expected : Char) : Reader Unit := discard (one (· = expected))

def startsWith (text : String) : Reader Bool := return text.toList.isPrefixOf (← get).rest

def literal (text : String) : Reader Unit := do
  if ← startsWith text then discard (takeAtMost text.toList.length fun _ => true) else fail

def ended : Reader Unit := do
  if (← get).rest.isEmpty then return () else fail

/-- What was read, with its place. -/
def spanned (reader : Reader α) : Reader (α × Span) := do
  let start ← offset
  let value ← reader
  return (value, ⟨start, ← offset⟩)

/-- Values with separators between them; a separator without a value behind it is left. -/
def separated (separator : Reader Unit) (reader : Reader α) : Reader (List α) := do
  let first ← reader
  return first :: (← many (separator *> reader))

/-! ## Blanks, comments and the ends of lines -/

def isBlank (c : Char) : Bool := c = ' ' || c = '\t'

def blanks : Reader Unit := discard (takeAll isBlank)

/-- Neither a line break nor a control character. -/
def isShown (c : Char) : Bool := c = '\t' || (' ' ≤ c && c ≠ '\x7f')

def comment : Reader Unit := do
  char '#'
  discard (takeAll isShown)

def newLine : Reader Unit := do
  match ← next with
  | '\n' => return ()
  | '\r' => char '\n'
  | c => do failAt ((← offset) - c.utf8Size)

def lineEnd : Reader Unit := orElse newLine ended

/-- What may stand behind an entry or a header. -/
def lineRest : Reader Unit :=
  expecting ["newline", "\x60#\x60"] do
    blanks
    discard (optional comment)
    lineEnd

/-- Blanks, comments and line breaks between the values of an array. -/
def betweenValues : Reader Unit := do
  let rec loop : Nat → Reader Unit
    | 0 => blanks
    | fuel + 1 => do
      blanks
      match ← peek? with
      | some '#' => do
        comment
        newLine
        loop fuel
      | some '\n' => do
        newLine
        loop fuel
      | some '\r' => do
        newLine
        loop fuel
      | _ => return ()
  loop (← get).rest.length

end Reader

end EnvAudit.Toml
