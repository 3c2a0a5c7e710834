import EnvAudit.Toml.Double

/-!
# TOML items

What a document holds: values, tables and arrays of tables, each with its place in the text.
-/
namespace EnvAudit.Toml

/-- A stretch of the bytes of a text. -/
structure Span where
  start : Nat
  stop : Nat
  deriving DecidableEq, Repr

structure Key where
  name : String
  span : Span
  deriving DecidableEq, Repr

/-- How a table came to be. -/
inductive TableForm where
  /-- Written in braces, or under a header of its own, or the document itself. -/
  | explicit
  /-- Named on the way in a header. -/
  | implicit
  /-- Named on the way in a dotted key. -/
  | dotted
  deriving DecidableEq, Repr

structure Table (α : Type) where
  form : TableForm
  /-- In the order of the document. -/
  entries : List (Key × α) := []
  span : Option Span := none

inductive Item where
  | text (value : String) (span : Span)
  | integer (value : Int) (span : Span)
  | float (value : Double) (span : Span)
  | boolean (value : Bool) (span : Span)
  | dateTime (span : Span)
  | array (items : List Item) (span : Span)
  /-- A table in braces. -/
  | inlineTable (table : Table Item)
  | table (table : Table Item)
  /-- An array of tables, each under a header of its own. -/
  | tables (tables : List (Table Item)) (span : Option Span)
  deriving Inhabited

namespace Item

def span? : Item → Option Span
  | text _ span => some span
  | integer _ span => some span
  | float _ span => some span
  | boolean _ span => some span
  | dateTime span => some span
  | array _ span => some span
  | inlineTable inner => inner.span
  | table inner => inner.span
  | tables _ span => span

/-- The name of the kind of an item. -/
def kindName : Item → String
  | text .. => "string"
  | integer .. => "integer"
  | float .. => "float"
  | boolean .. => "boolean"
  | dateTime _ => "datetime"
  | array .. => "array"
  | inlineTable _ => "inline table"
  | table _ => "table"
  | tables .. => "array of tables"

end Item

namespace Table

variable {α : Type}

def find? (table : Table α) (name : String) : Option α :=
  (table.entries.find? fun entry => entry.1.name = name).map Prod.snd

/-- Puts an item under a key: in the place of the one that is there, or behind all others. -/
def put (table : Table α) (key : Key) (item : α) : Table α :=
  if (table.find? key.name).isSome then
    { table with entries := table.entries.map fun entry => if entry.1.name = key.name then (entry.1, item) else entry }
  else { table with entries := table.entries ++ [(key, item)] }

def remove (table : Table α) (name : String) : Table α :=
  { table with entries := table.entries.filter fun entry => entry.1.name ≠ name }

end Table

end EnvAudit.Toml
