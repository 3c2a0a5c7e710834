import EnvAudit.Toml.Entry
import EnvAudit.Toml.Scalar

/-!
# TOML documents

Values, the lines of a document, and the table that they make.
-/
namespace EnvAudit.Toml

namespace Reader

/-! ## Values -/

private def noValue {α : Type} (reader : Reader α) : Reader α :=
  labelled "string" (expecting ["\x60\"\x60", "\x60'\x60"] reader)

private def withoutLeadingDigit {α : Type} (reader : Reader α) : Reader α := expecting ["leading digit"] reader

private def number : Reader (Span → Item) :=
  orElse (do dateTime; return .dateTime) <| orElse (do return .float (← float)) (do return .integer (← integer))

/-- A value that holds no other ones. -/
def scalar : Reader Item := do
  let (make, span) ← spanned do
    match ← peek? with
    | none => fail
    | some c =>
      if c = '"' || c = '\'' then return .text (← string)
      else if c = '+' || c = '-' || c.isDigit then number
      else if c = '_' then withoutLeadingDigit (do return .integer (← integer))
      else if c = '.' then withoutLeadingDigit (do return .float (← float))
      else if c = 't' then noValue (firmly do literal "true"; return .boolean true)
      else if c = 'f' then noValue (firmly do literal "false"; return .boolean false)
      else if c = 'i' then noValue (do return .float (← infinity))
      else if c = 'n' then noValue (do return .float (← notANumber))
      else noValue fail
  return make span

/-- The path and the last part of a key. -/
def splitKey : Reader (List Key × Key) := do
  let parts ← key
  match parts.getLast? with
  | some last => return (parts.dropLast, last)
  | none => fail

/-- A key and its value, with something behind it. -/
def entry (value : Reader Item) (behind : Reader Unit) : Reader (List Key × Key × Item) := do
  let (path, key) ← splitKey
  firmly do
    expecting ["\x60.\x60", "\x60=\x60"] (char '=')
    blanks
    let item ← value
    behind
    return (path, key, item)

private def someOrNone {α : Type} (reader : Reader (List α)) : Reader (List α) := do
  return (← optional reader).getD []

/-- Values in brackets. A comma may stand behind the last one, but not where there is none. -/
def array (value : Reader Item) : Reader (List Item) := do
  char '['
  let items ← firmly do
    if ← startsWith "]" then return []
    else
      let items ← someOrNone <| separated (char ',') do
        betweenValues
        let item ← value
        betweenValues
        return item
      unless items.isEmpty do discard (optional (char ','))
      betweenValues
      return items
  labelled "array" (expecting ["\x60]\x60"] (firmly (char ']')))
  return items

/-- Entries in braces. -/
def inlineTable (value : Reader Item) : Reader (Table Item) := do
  char '\x7b'
  let table ← firmly <| checked Table.ofEntries do
    let entries ← someOrNone (separated (char ',') (entry value blanks))
    blanks
    return entries
  labelled "inline table" (expecting ["\x60\x7d\x60"] (firmly (char '\x7d')))
  return table

private def opensOthers (c : Char) : Bool := c = '[' || c = '\x7b'

/-- A value with others inside of it, at most so many inside of each other. -/
def value : Nat → Reader Item
  | 0 => do
    if (← peek?).any opensOthers then firmly (refuse (← offset) tooDeep) else scalar
  | levels + 1 => do
    match ← peek? with
    | some '[' =>
      let (items, span) ← spanned (array (value levels))
      return .array items span
    | some '\x7b' =>
      let (table, span) ← spanned (inlineTable (value levels))
      return .inlineTable { table with span := some span }
    | _ => scalar

end Reader

/-! ## Lines -/

/-- A document that is being read: the tables that are complete, and the one that is being filled. -/
structure Draft where
  root : Table Item := { form := .explicit }
  path : List Key := []
  table : Table Item := { form := .explicit, span := some ⟨0, 0⟩ }
  /-- Whether the table belongs into an array of tables. -/
  inArray : Bool := false

namespace Draft

private def spanOf (tables : List (Table Item)) : Option Span :=
  match tables.head?.bind Table.span, tables.getLast?.bind Table.span with
  | some first, some last => some ⟨first.start, last.stop⟩
  | _, _ => none

/-- Changes the table that a header puts its own into. -/
private def editAbove {α : Type} (path : List Key) (edit : Table.Edit α) : Table.Edit α :=
  Table.editAt .implicit Table.noTable edit [] path.dropLast

/-- The root with the table that was being filled in its place. -/
def complete (draft : Draft) : Except String (Table Item) :=
  match draft.path.getLast? with
  | none => .ok draft.table
  | some key => do
    let place : Table.Edit Unit := modify fun table =>
      if draft.inArray then
        let known := match table.find? key.name with
          | some (.tables known _) => known
          | _ => []
        table.put key (.tables (known ++ [draft.table]) (spanOf (known ++ [draft.table])))
      else table.put key (.table draft.table)
    return (← (editAbove draft.path place).run draft.root).2

/-- Begins a table under a header. One that was only named on the way in other headers is taken up. -/
def openTable (draft : Draft) (path : List Key) (span : Span) : Except String Draft := do
  let take : Table.Edit (Table Item) := do
    match path.getLast? with
    | none => get
    | some key =>
      let above ← get
      set (above.remove key.name)
      match above.find? key.name with
      | none => return { form := .explicit }
      | some (.table known) =>
        if known.form = .implicit then return known
        else throw (Table.duplicateIn key.written path.dropLast)
      | some _ => throw (Table.duplicateIn key.written path.dropLast)
  let (table, root) ← (editAbove path take).run (← draft.complete)
  return { root, path, table := { table with form := .explicit, span := some span }, inArray := false }

/-- Begins a table at the end of an array of tables. -/
def openInArray (draft : Draft) (path : List Key) (span : Span) : Except String Draft := do
  let make : Table.Edit Unit := do
    match path.getLast? with
    | none => return ()
    | some key =>
      let above ← get
      match above.find? key.name with
      | none => set (above.put key (.tables [] none))
      | some (.tables ..) => return ()
      | some _ => throw (Table.duplicateIn key.written path.dropLast)
  let ((), root) ← (editAbove path make).run (← draft.complete)
  return { root, path, table := { form := .explicit, span := some span }, inArray := true }

/-- Puts an entry into the table that is being filled. -/
def insert (draft : Draft) (path : List Key) (key : Key) (item : Item) : Except String Draft := do
  let span := match draft.table.span, item.span? with
    | some span, some ending => some ⟨span.start, ending.stop⟩
    | span, _ => span
  let put := Table.insert Table.noTable path key item (Table.duplicateIn key.name draft.path)
  let ((), table) ← put.run { draft.table with span }
  return { draft with table }

end Draft

namespace Reader

/-- Changes the draft by what a reader gives; where that is refused, the reader failed at its beginning. -/
private def change {α : Type} (draft : Draft) (apply : Draft → α → Except String Draft) (reader : Reader α) :
    Reader Draft :=
  checked (apply draft) reader

private def header (draft : Draft) : Reader Draft :=
  labelled "table header" do
    if (← get).rest.length < 2 then fail
    if ← startsWith "[[" then
      change draft (fun draft (path, span) => draft.openInArray path span) do
        let named ← spanned do
          literal "[["
          let path ← firmly key
          expecting ["\x60.\x60", "\x60]]\x60"] (firmly (literal "]]"))
          return path
        firmly lineRest
        return named
    else
      change draft (fun draft (path, span) => draft.openTable path span) do
        let named ← spanned do
          char '['
          let path ← firmly key
          expecting ["\x60.\x60", "\x60]\x60"] (firmly (char ']'))
          return path
        firmly lineRest
        return named

/-- A comment, a header, the end of a line or an entry. -/
private def line (draft : Draft) : Reader Draft := do
  match ← peek? with
  | none => fail
  | some c =>
    if c = '#' then firmly do comment; lineEnd; return draft
    else if c = '[' then firmly (header draft)
    else if c = '\n' || c = '\r' then do newLine; return draft
    else
      firmly <| change draft (fun draft (path, key, item) => draft.insert path key item)
        (entry (value (mostLevels - 1)) lineRest)

private def lines : Nat → Draft → Reader Draft
  | 0, draft => return draft
  | fuel + 1, draft => do
    match ← optional (line draft) with
    | none => return draft
    | some draft => do
      blanks
      lines fuel draft

/-- A document up to the end of the text; a byte order mark may stand before it. -/
def document : Reader (Table Item) := do
  discard (optional (char '\ufeff'))
  blanks
  let draft ← lines (← get).rest.length {}
  ended
  match draft.complete with
  | .ok table => return table
  | .error cause => refuse (← offset) cause

end Reader

/-- What reads a text into the table of a document, or tells where and why it is none. -/
abbrev DocumentReader := String → Except Failure (Table Item)

/-- The table of a document, or where and why it is none. -/
def parse : DocumentReader := fun text =>
  match Reader.document.run ⟨0, text.toList⟩ with
  | .ok (table, _) => .ok table
  | .error failure => .error failure

end EnvAudit.Toml
