/-!
# Syntax trees

A tree of nodes with kinds, fields and positions. Main definitions: the parts of a node by field, and the nodes in
textual order.
-/
namespace EnvAudit.Script

/-- What a node is, apart from its children. -/
structure Tree.Head where
  kind : String
  /-- A node of the grammar, not only a word or a mark. -/
  named : Bool := true
  /-- A token that was put in because nothing else could follow. -/
  missing : Bool := false
  /-- The node or a node below it is a flaw. -/
  flawed : Bool := false
  /-- The bytes before the node and up to its end. -/
  start : Nat := 0
  stop : Nat := 0
  /-- The text of a node without children. -/
  text : String := ""
  /-- The fields that the node is in its parent. -/
  fields : List String := []
  /-- The fields of its parent that are to be looked for among its children. -/
  lends : List String := []
  deriving DecidableEq, Repr, Inhabited

inductive Tree where
  | node (head : Tree.Head) (children : List Tree)
  deriving Repr, Inhabited

namespace Tree

def head : Tree → Head
  | node head _ => head

def children : Tree → List Tree
  | node _ children => children

def kind (tree : Tree) : String := tree.head.kind

def text (tree : Tree) : String := tree.head.text

/-- The kind of a part of the text that fits nowhere. -/
def flawKind : String := "ERROR"

/-- A part that fits nowhere, or a token that is missing. -/
def isFlaw (tree : Tree) : Bool := tree.kind == flawKind || tree.head.missing

/-- A node whose flaws are those of its children and its own. -/
def ofParts (head : Head) (children : List Tree) : Tree :=
  let own := head.kind == flawKind || head.missing
  node { head with flawed := own || children.any fun child => child.head.flawed } children

mutual

/-- The child that is a field, in the order of the children; one that lends the field is searched itself. -/
def field? (name : String) : Tree → Option Tree
  | node _ children => fieldAmong name children

def fieldAmong (name : String) : List Tree → Option Tree
  | [] => none
  | child :: rest =>
    if child.head.fields.contains name then some child
    else if child.head.lends.contains name then
      match field? name child with
      | some found => some found
      | none => fieldAmong name rest
    else fieldAmong name rest

end

mutual

/-- All nodes in textual order, a node before its children. -/
def nodes : Tree → List Tree
  | node head children => node head children :: nodesOf children

def nodesOf : List Tree → List Tree
  | [] => []
  | child :: rest => nodes child ++ nodesOf rest

end

end Tree

end EnvAudit.Script
