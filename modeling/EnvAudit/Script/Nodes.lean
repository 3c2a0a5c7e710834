import EnvAudit.Script.Tree

/-!
# Nodes by their parts

Nodes of the grammar that are put together from words, marks and other nodes, without their places in the text.
-/
namespace EnvAudit.Script

namespace Tree

/-- A word or a mark. -/
def word (text : String) (fields : List String := []) : Tree := .node { kind := text, named := false, text, fields } []

/-- A node of the grammar without children. -/
def leaf (kind : String) (text : List Char) (fields : List String := []) : Tree :=
  .node { kind, text := String.ofList text, fields } []

def branch (kind : String) (children : List Tree) (fields : List String := []) : Tree := .node { kind, fields } children

/-- A tree as a field of the node that it is put in. -/
def asField (field : String) : Tree → Tree
  | .node head children => .node { head with fields := [field], lends := [] } children

end Tree

namespace Program

open EnvAudit.Script.Tree (word leaf branch)

/-- An access to a name, behind a mark. -/
def memberTree (object mark : Tree) (name : List Char) : Tree :=
  branch "member_expression" [object.asField "object", mark, leaf "property_identifier" name ["property"]]

/-- An access to what an index names. -/
def subscriptTree (object index : Tree) : Tree :=
  branch "subscript_expression" [object.asField "object", word "[", index.asField "index", word "]"]

/-- Trees with commas between them. -/
def commaTrees (trees : List Tree) : List Tree := List.intersperse (word ",") trees

/-- An operand behind the operands of a sum before it; sums lean to the left. -/
def sumOnto : Option Tree → Tree → Tree
  | none, operand => operand
  | some front, operand =>
    branch "binary_expression" [front.asField "left", word "+" ["operator"], operand.asField "right"]

/-- The mark of an access that may find nothing. -/
def optionalMark : Tree := branch "optional_chain" [word "?."] ["optional_chain"]

def importMetaTree : Tree := branch "meta_property" [word "import", word ".", word "meta"]

def groupTree (inner : Tree) : Tree := branch "parenthesized_expression" [word "(", inner, word ")"]

def arrayTree (items : List Tree) : Tree := branch "array" (word "[" :: (commaTrees items ++ [word "]"]))

def callTree (function : Tree) (arguments : List Tree) : Tree :=
  branch "call_expression"
    [function.asField "function",
      branch "arguments" (word "(" :: (commaTrees arguments ++ [word ")"])) ["arguments"]]

/-- A name that is imported, under another one if there is one. -/
def specifierTree (name : List Char) (renamed : Option (List Char)) : Tree :=
  branch "import_specifier" <| leaf "identifier" name ["name"] ::
    match renamed with
    | none => []
    | some renamed => [word "as", leaf "identifier" renamed ["alias"]]

def importTree (specifiers : List Tree) (source : Tree) : Tree :=
  branch "import_statement" [
    word "import",
    branch "import_clause" [branch "named_imports" (word "\x7b" :: (commaTrees specifiers ++ [word "\x7d"]))],
    word "from", source.asField "source", word ";"]

def statementTree (expression : Tree) : Tree := branch "expression_statement" [expression, word ";"]

/-- A statement that the end of the text ends. -/
def lastStatementTree (expression : Tree) : Tree := branch "expression_statement" [expression]

end Program

end EnvAudit.Script
