import EnvAudit.Toml.Literal

/-!
# TOML entries

Keys of several parts put items into tables inside of a table. A table is filled in one place only: one that was
written out is closed to dotted keys.
-/
namespace EnvAudit.Toml.Table

/-- A key that is there already. -/
def duplicate (name : String) : String := s!"duplicate key \x60{name}\x60"

/-- A key that is there already, in the table at a path. -/
def duplicateIn (name : String) (path : List Key) : String :=
  match path with
  | [] => duplicate name ++ " in document root"
  | path => duplicate name ++ s!" in table \x60{Key.writtenPath path}\x60"

/-- An item at a path that ought to be a table. -/
def noTable (path : List Key) (item : Item) : String :=
  s!"dotted key \x60{Key.writtenPath path}\x60 attempted to extend non-table type ({item.kindName})"

/-- A change of a table that gives a result, or is refused. -/
abbrev Edit := StateT (Table Item) (Except String)

variable {α : Type}

/-- Changes the table at a path, which was come to by `passed`. Tables that are not there are made in some form;
those written out are closed to dotted keys. -/
def editAt (form : TableForm) (refused : List Key → Item → String) (edit : Edit α) (passed : List Key) :
    List Key → Edit α
  | [] => edit
  | key :: rest => do
    let inner := editAt form refused edit (passed ++ [key]) rest
    let table ← get
    match table.find? key.name with
    | none =>
      let (result, made) ← inner.run { form }
      set (table.put key (.table made))
      return result
    | some (.table known) =>
      if form = .dotted && known.form = .explicit then throw (duplicate key.name)
      let (result, changed) ← inner.run known
      set (table.put key (.table changed))
      return result
    | some (.tables known span) =>
      match known.getLast? with
      | some last =>
        let (result, changed) ← inner.run last
        set (table.put key (.tables (known.dropLast ++ [changed]) span))
        return result
      | none => throw (refused (passed ++ [key]) (.tables known span))
    | some item => throw (refused (passed ++ [key]) item)

/-- Puts an item under the key behind a path. A path leads to a table of dotted keys, and no path to another one. -/
def insert (refused : List Key → Item → String) (path : List Key) (key : Key) (item : Item) (taken : String) :
    Edit Unit :=
  let put : Edit Unit := do
    let table ← get
    if (table.form = .dotted) = path.isEmpty then throw (duplicate key.name)
    if (table.find? key.name).isSome then throw taken
    set (table.put key item)
  editAt .dotted refused put [] path

/-- Inside of braces, other braces are closed as any table that is written out. -/
private def refusedInBraces (path : List Key) (item : Item) : String :=
  match item, path.getLast? with
  | .inlineTable _, some key => duplicate key.name
  | item, _ => noTable path item

/-- The table of the entries in braces. -/
def ofEntries (entries : List (List Key × Key × Item)) : Except String (Table Item) := do
  let fill : Edit Unit := entries.forM fun (path, key, item) =>
    insert refusedInBraces path key item (duplicate key.name)
  return (← fill.run { form := .explicit }).2

end EnvAudit.Toml.Table
