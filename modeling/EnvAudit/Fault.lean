import EnvAudit.Path

/-!
# Faults

What can go wrong, with the file that it concerns and how it is told.
-/
namespace EnvAudit

/-- A place in a text: line and column, both counted from one, the column in bytes. -/
structure Position where
  line : Nat
  column : Nat
  deriving DecidableEq, Repr

namespace Position

/-- The byte of a line break. -/
def lineBreak : UInt8 := 0x0a

/-- The place behind a byte. -/
def past (place : Position) (byte : UInt8) : Position :=
  if byte = lineBreak then { line := place.line + 1, column := 1 } else { place with column := place.column + 1 }

end Position

inductive Fault where
  /-- A source file cannot be read. -/
  | io (path : Path) (message : String)
  /-- A source file is no program. -/
  | parse (path : Path) (message : String) (position : Option Position)
  /-- A declaration file cannot be read. -/
  | declaration (path : Path) (message : String)
  /-- The root cannot be walked. -/
  | traversal (path : Path) (message : String)
  /-- The settings cannot be read. -/
  | config (path : Path) (message : String)
  | internal (message : String)
  deriving DecidableEq, Repr

namespace Fault

def path? : Fault → Option Path
  | io path _ => some path
  | parse path _ _ => some path
  | declaration path _ => some path
  | traversal path _ => some path
  | config path _ => some path
  | internal _ => none

/-- Whether a scan goes on without the file. -/
def isRecoverable : Fault → Bool
  | io .. => true
  | parse .. => true
  | declaration .. => true
  | traversal .. => false
  | config .. => true
  | internal _ => false

def message : Fault → String
  | io path message => s!"I/O error at {path.display}: {message}"
  | parse path message _ => s!"Parse error in {path.display}: {message}"
  | declaration path message => s!"Declaration file error at {path.display}: {message}"
  | traversal path message => s!"Traversal error at {path.display}: {message}"
  | config path message => s!"Config error at {path.display}: {message}"
  | internal message => s!"Internal error: {message}"

end Fault

/-- Why a file contributed nothing. -/
inductive SkipKind where
  | parse
  | declaration
  | traversal
  deriving DecidableEq, Repr

def SkipKind.name : SkipKind → String
  | parse => "parse"
  | declaration => "declaration"
  | traversal => "traversal"

/-- A file or directory that was skipped. -/
structure Skip where
  path : Path
  kind : SkipKind
  message : String
  deriving DecidableEq, Repr

/-- A record of a fault, under its own path if it has one. -/
def Skip.ofFault (fallback : Path) (kind : SkipKind) (fault : Fault) : Skip where
  path := fault.path?.getD fallback
  kind := kind
  message := fault.message

end EnvAudit
