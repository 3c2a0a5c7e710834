/-!
# Source text

The text of a program by character, with the byte offset and the line of every character.
-/
namespace EnvAudit.Script

structure Source where
  chars : Array Char
  /-- The bytes before each character, and before the end. -/
  offsets : Array Nat
  /-- The line breaks before each character, and before the end. -/
  lines : Array Nat
  deriving Inhabited

namespace Source

def ofString (text : String) : Source := Id.run do
  let mut chars : Array Char := #[]
  let mut offsets : Array Nat := #[]
  let mut lines : Array Nat := #[]
  let mut offset := 0
  let mut line := 0
  for c in text.toList do
    chars := chars.push c
    offsets := offsets.push offset
    lines := lines.push line
    offset := offset + c.utf8Size
    if c = '\n' then line := line + 1
  return { chars, offsets := offsets.push offset, lines := lines.push line }

def size (source : Source) : Nat := source.chars.size

/-- The character at a place; behind the end there is the null character. -/
def get (source : Source) (place : Nat) : Char := source.chars[place]?.getD '\x00'

def offset (source : Source) (place : Nat) : Nat := source.offsets[place]?.getD 0

def line (source : Source) (place : Nat) : Nat := source.lines[place]?.getD 0

def slice (source : Source) (start stop : Nat) : String := String.ofList (source.chars.extract start stop).toList

/-- The first place, from `start` on, whose character fails the test; the end of the text fails it. -/
def skipWhile (source : Source) (test : Char → Bool) (start : Nat) : Nat :=
  if h : start < source.chars.size then
    if test source.chars[start] then source.skipWhile test (start + 1) else start
  else start
termination_by source.chars.size - start

/-- Whether the characters from `start` on begin with `word`. -/
def startsWith (source : Source) (word : List Char) (start : Nat) : Bool :=
  match word with
  | [] => true
  | c :: rest => source.chars[start]? == some c && source.startsWith rest (start + 1)

/-- The place behind a byte order mark at the beginning of the text. -/
def skipMark (source : Source) (place : Nat) : Nat :=
  if place = 0 && source.get 0 = '\ufeff' then 1 else place

end Source

end EnvAudit.Script
