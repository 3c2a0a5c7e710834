import EnvAudit.Text.Utf8

/-!
# Paths

Paths as bytes with slashes between their parts. Empty parts and single dots name nothing; the name of a path is
its last part that names something.
-/
namespace EnvAudit

structure Path where
  bytes : Bytes
  deriving DecidableEq, Repr, Inhabited

/-- The name of an entry of a directory. -/
abbrev Name := Bytes

namespace Path

def slash : UInt8 := 47

def dot : UInt8 := 46

def ofString (text : String) : Path := ⟨Text.Utf8.encode text⟩

/-- The path as text; bytes that are no UTF-8 are replaced. -/
def display (path : Path) : String := Text.Utf8.lossy path.bytes

/-- The bytes between the slashes. -/
def split : Bytes → List Bytes
  | [] => [[]]
  | byte :: rest =>
    if byte = slash then [] :: split rest
    else
      match split rest with
      | part :: parts => (byte :: part) :: parts
      | [] => [[byte]]

/-- A part of a path. -/
inductive Part where
  /-- Nothing, in front of a slash or behind one. -/
  | nothing
  /-- The same directory. -/
  | here
  /-- The directory above. -/
  | up
  | name (name : Name)
  deriving DecidableEq, Repr

def Part.ofBytes (bytes : Bytes) : Part :=
  if bytes = [] then .nothing
  else if bytes = [dot] then .here
  else if bytes = [dot, dot] then .up
  else .name bytes

/-- Whether a part leads on to no other place. -/
def Part.stays : Part → Bool
  | nothing | here => true
  | _ => false

/-- The parts of a path, one for each stretch between slashes. -/
def parts (path : Path) : List Part := (split path.bytes).map Part.ofBytes

def isAbsolute (path : Path) : Bool := path.bytes.head? = some slash

/-- The last name of a path, if its last part that leads on is a name. -/
def fileName? (path : Path) : Option Name :=
  match (path.parts.filter fun part => !part.stays).getLast? with
  | some (.name name) => some name
  | _ => none

/-- What follows the last dot of a name, unless the name only begins with that dot. -/
def extensionOf (name : Name) : Option Bytes :=
  let reversed := name.reverse
  let after := reversed.takeWhile (· ≠ dot)
  match reversed.dropWhile (· ≠ dot) with
  | [] => none
  | [_] => none
  | _ :: _ :: _ => some after.reverse

def extension? (path : Path) : Option Bytes := path.fileName?.bind extensionOf

def hasExtension (path : Path) (extensions : List String) : Bool :=
  match path.extension? with
  | some extension => extensions.any fun known => Text.Utf8.encode known = extension
  | none => false

/-- An entry of the directory that a path leads to. -/
def child (path : Path) (name : Name) : Path :=
  if path.bytes = [] || path.bytes.getLast? = some slash then ⟨path.bytes ++ name⟩
  else ⟨path.bytes ++ slash :: name⟩

end Path

end EnvAudit
