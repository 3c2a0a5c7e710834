import EnvAudit.Fault
import EnvAudit.Script.Cursor
import EnvAudit.Script.Direct
import EnvAudit.Script.Grammar.Languages
import EnvAudit.Script.Parse

/-!
# Dialects

The languages that a source file may be written in, and the tree of the first one that it fits.
-/
namespace EnvAudit.Script

namespace Language

/-- The typed language with markup. -/
def tsx : Language := ofGrammar (Grammar.typed true)

/-- The typed language without markup. -/
def typeScript : Language := ofGrammar (Grammar.typed false)

/-- The untyped language with markup. -/
def javaScript : Language := ofGrammar Grammar.untyped

end Language

inductive Dialect where
  /-- Types and markup; every file is read in it first. -/
  | tsx
  /-- Types without markup. -/
  | typeScript
  /-- Markup without types. -/
  | javaScript
  deriving DecidableEq, Repr

namespace Dialect

def name : Dialect → String
  | tsx => "Tsx"
  | typeScript => "TypeScript"
  | javaScript => "JavaScript"

def language : Dialect → Language
  | tsx => .tsx
  | typeScript => .typeScript
  | javaScript => .javaScript

/-- The dialects that are tried for a file behind the first one. -/
def others (path : Path) : List Dialect :=
  if path.hasExtension ["tsx"] then []
  else if path.hasExtension ["ts", "mts", "cts"] then [typeScript]
  else [javaScript]

/-- The dialects that are tried for a file, in their order. -/
def candidates (path : Path) : List Dialect := tsx :: others path

/-- The tree of a text. In the dialect that comes first, a plain text is read straight into it; any other text is read
on all branches that its language leaves. -/
def parse (dialect : Dialect) (source : String) : Tree :=
  match dialect with
  | tsx => (Direct.read? source).getD (dialect.language.parse source)
  | typeScript | javaScript => dialect.language.parse source

end Dialect

/-- The place of a byte in a text. -/
def positionOf (source : String) (offset : Nat) : Position :=
  ((Text.Utf8.encode source).take offset).foldl Position.past { line := 1, column := 1 }

/-- The most bytes of a source file. -/
def mostBytes : Nat := 10000000

/-- The fault of a tree that does not fit, at its first flaw. -/
def flawFault (path : Path) (source : String) (tree : Tree) : Fault :=
  match tree.firstFlaw with
  | some flaw =>
    .parse path ("syntax error near \x60" ++ flaw.kind ++ "\x60") (some (positionOf source flaw.head.start))
  | none => .parse path "syntax error" none

/-- What reads a text in a dialect into a tree. -/
abbrev TreeReader := Dialect → String → Tree

/-- The tree of a source file in the first dialect that it fits, as `read` reads it. -/
def parseBy (read : TreeReader) (path : Path) (source : String) : Except Fault Tree :=
  if source.utf8ByteSize > mostBytes then .error (.parse path s!"file exceeds {mostBytes} bytes" none)
  else
    let first := read .tsx source
    if first.head.flawed then
      match ((Dialect.others path).map fun dialect => read dialect source).find? fun tree => !tree.head.flawed with
      | some tree => .ok tree
      | none => .error (flawFault path source first)
    else .ok first

/-- The tree of a source file in the first dialect that it fits. -/
def parse (path : Path) (source : String) : Except Fault Tree := parseBy Dialect.parse path source

end EnvAudit.Script
