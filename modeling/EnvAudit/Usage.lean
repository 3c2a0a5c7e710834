import EnvAudit.KeyList
import EnvAudit.Script.Cursor
import EnvAudit.Script.StringLiteral

/-!
# Usage

The environment keys that a program uses: those it reads from `process.env` and `import.meta.env`, by name or by a
literal, and those it imports from a module of the environment.
-/
namespace EnvAudit.Usage

open EnvAudit.Script

/-- The modules whose exports are environment keys begin like this. -/
def moduleStarts : List String := ["$env/", "astro:env/"]

/-- A property that is written as a name. -/
def isNamed (name : String) (tree : Tree) : Bool := tree.kind = "property_identifier" && tree.text = name

/-- The expression `import.meta`, as its own kind of node or as an access. -/
def isImportMeta (tree : Tree) : Bool :=
  if tree.kind = "meta_property" then
    match tree.children with
    | first :: rest => first.kind = "import" && (rest.getLast?.map Tree.kind) = some "meta"
    | [] => false
  else if tree.kind = "member_expression" then
    ((tree.field? "object").map Tree.kind) = some "import" &&
      ((tree.field? "property").map Tree.text) = some "meta"
  else false

/-- The environment itself: the property `env` of `process` or of `import.meta`. -/
def isEnvironment (tree : Tree) : Bool :=
  tree.kind = "member_expression" &&
    match tree.field? "property", tree.field? "object" with
    | some property, some object =>
      isNamed "env" property && ((object.kind = "identifier" && object.text = "process") || isImportMeta object)
    | _, _ => false

/-- The key that an access by name uses. -/
def memberKey (tree : Tree) : List String :=
  match tree.field? "object", tree.field? "property" with
  | some object, some property =>
    if isEnvironment object && property.kind = "property_identifier" then [property.text] else []
  | _, _ => []

/-- The key that an access by a literal uses. -/
def subscriptKey (tree : Tree) : List String :=
  match tree.field? "object", tree.field? "index" with
  | some object, some index => if isEnvironment object then (StringLiteral.value? index).toList else []
  | _, _ => []

/-- The named children of a kind. -/
def parts (kind : String) (tree : Tree) : List Tree :=
  tree.children.filter fun child => child.head.named && child.kind = kind

/-- The name of an import in the module that it comes from. -/
def importedName (specifier : Tree) : List String :=
  match specifier.field? "name" with
  | some name => if name.kind = "string" then (StringLiteral.value? name).toList else [name.text]
  | none => []

/-- The names that an import takes from a module of the environment. -/
def importedKeys (tree : Tree) : List String :=
  match (tree.field? "source").bind StringLiteral.value? with
  | some module_ =>
    if moduleStarts.any fun start => start.toList.isPrefixOf module_.toList then
      (((parts "import_clause" tree).flatMap (parts "named_imports")).flatMap (parts "import_specifier")).flatMap
        importedName
    else []
  | none => []

/-- The keys that one node uses, apart from the nodes below it. -/
def keysAt (tree : Tree) : List String :=
  let found :=
    if tree.kind = "member_expression" then memberKey tree
    else if tree.kind = "subscript_expression" then subscriptKey tree
    else if tree.kind = "import_statement" then importedKeys tree
    else []
  found.filter (· ≠ "")

/-- Adds the keys of all nodes from a cursor on. -/
def addKeys (keys : KeyList) (cursor : Cursor) : KeyList :=
  let keys := keys.extend (keysAt cursor.node)
  match _ : cursor.next? true with
  | some next => addKeys keys next
  | none => keys
termination_by cursor.ahead.length
decreasing_by exact Cursor.length_ahead_lt ‹_›

/-- The keys that a program uses, in the order of their first use. -/
def keys (tree : Tree) : KeyList := addKeys .empty { node := tree }

end EnvAudit.Usage
