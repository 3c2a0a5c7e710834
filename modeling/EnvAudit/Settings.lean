import EnvAudit.FileTree
import EnvAudit.Fault
import EnvAudit.Text.Quoted
import EnvAudit.Toml.Document
import EnvAudit.Toml.Excerpt

/-!
# Settings

What a project sets for its audits, in a file at its root: patterns of keys to ignore, names to exclude, and the
format of the output. A file with anything else in it is refused as a whole.
-/
namespace EnvAudit

inductive Format where
  | plain
  | json
  deriving DecidableEq, Repr

structure OutputSettings where
  format : Option Format := none
  deriving DecidableEq, Repr

structure Settings where
  ignore : Option (List String) := none
  exclude : Option (List String) := none
  output : Option OutputSettings := none
  deriving DecidableEq, Repr

namespace Settings

def ignorePatterns (settings : Settings) : List String := settings.ignore.getD []

def excludedNames (settings : Settings) : List String := settings.exclude.getD []

def format? (settings : Settings) : Option Format := settings.output.bind OutputSettings.format

/-! ## From a document -/

open EnvAudit.Toml (Item Key Table Flaw)

abbrev Read (α : Type) := Except Flaw α

def flawed {α : Type} (item : Item) (reason : String) : Read α := throw ⟨item.span?, reason⟩

/-- Puts a flaw without a place at that of the key. -/
def underKey {α : Type} (key : Key) : Read α → Read α
  | .error flaw => .error { flaw with span := flaw.span.or (some key.span) }
  | done => done

/-- An item as it is told where something else is wanted. -/
def describe : Item → String
  | .text value _ => "string " ++ String.ofList (Text.quoted value)
  | .integer value _ => s!"integer \x60{value}\x60"
  | .float value _ => s!"floating point \x60{value.text}\x60"
  | .boolean value _ => s!"boolean \x60{value}\x60"
  | .dateTime _ => "map"
  | .array .. => "sequence"
  | .inlineTable _ => "map"
  | .table _ => "map"
  | .tables .. => "sequence"

def wanted {α : Type} (item : Item) (expected : String) : Read α :=
  flawed item s!"invalid type: {describe item}, expected {expected}"

def unknownField {α : Type} (key : Key) (known : List String) : Read α :=
  let quoted := known.map fun name => s!"\x60{name}\x60"
  let expected := match quoted with
    | [only] => only
    | several => "one of " ++ ", ".intercalate several
  throw ⟨some key.span, s!"unknown field \x60{key.name}\x60, expected {expected}"⟩

/-- The items of an array of either form. -/
def items? : Item → Option (List Item)
  | .array items _ => some items
  | .tables tables _ => some (tables.map .table)
  | _ => none

def table? : Item → Option (Table Item)
  | .inlineTable table => some table
  | .table table => some table
  | _ => none

def textOf : Item → Read String
  | .text value _ => return value
  | item => wanted item "a string"

def textsOf (item : Item) : Read (List String) :=
  match items? item with
  | some items => items.mapM textOf
  | none => wanted item "a sequence"

def formatNamed (name : String) (span : Option Toml.Span) : Read Format :=
  if name = "plain" then return .plain
  else if name = "json" then return .json
  else throw ⟨span, s!"unknown variant \x60{name}\x60, expected \x60plain\x60 or \x60json\x60"⟩

/-- What stands under the name of a format holds nothing. -/
def checkEmpty (item : Item) : Read Unit :=
  match item with
  | .array items _ => if items.isEmpty then return () else flawed item "expected empty table"
  | .tables tables _ => if tables.isEmpty then return () else flawed item "expected empty array"
  | .inlineTable table => if table.entries.isEmpty then return () else flawed item "expected empty table"
  | .table table => if table.entries.isEmpty then return () else flawed item "expected empty table"
  | item => flawed item s!"expected table, found {item.kindName}"

/-- A format by its name, as a text or as the one key of a table. -/
def formatOf (item : Item) : Read Format :=
  match item with
  | .text name span => formatNamed name (some span)
  | item =>
    match table? item with
    | some table =>
      match table.entries with
      | [] => flawed item "wanted exactly 1 element, found 0 elements"
      | [(key, inner)] => do
        let format ← formatNamed key.name (some key.span)
        checkEmpty inner
        return format
      | _ => flawed item "wanted exactly 1 element, more than 1 element"
    | none => flawed item "wanted string or table"

def outputEntry (output : OutputSettings) (entry : Key × Item) : Read OutputSettings :=
  let (key, item) := entry
  if key.name = "format" then return { output with format := some (← underKey key (formatOf item)) }
  else unknownField key ["format"]

/-- The settings of the output, as a table or as an array that begins with the format. -/
def outputOf (item : Item) : Read OutputSettings :=
  match item with
  | .dateTime span => throw ⟨some span, "unknown field \x60$__toml_private_datetime\x60, expected \x60format\x60"⟩
  | item =>
    match table? item, items? item with
    | some table, _ => table.entries.foldlM outputEntry {}
    | none, some (first :: _) => return { format := some (← formatOf first) }
    | none, some [] => flawed item "invalid length 0, expected struct OutputConfig with 1 element"
    | none, none => wanted item "struct OutputConfig"

def entry (settings : Settings) (entry : Key × Item) : Read Settings :=
  let (key, item) := entry
  if key.name = "ignore" then return { settings with ignore := some (← underKey key (textsOf item)) }
  else if key.name = "exclude" then return { settings with exclude := some (← underKey key (textsOf item)) }
  else if key.name = "output" then return { settings with output := some (← underKey key (outputOf item)) }
  else unknownField key ["ignore", "exclude", "output"]

/-- The settings in a document. -/
def ofTable (table : Table Item) : Read Settings := table.entries.foldlM entry {}

/-- The character that a failure is at, or the end of the text. -/
private def spanAt (text : String) (offset : Nat) : Toml.Span :=
  let rec find (start : Nat) : List Char → Toml.Span
    | [] => ⟨offset, offset⟩
    | c :: rest => if start = offset then ⟨start, start + c.utf8Size⟩ else find (start + c.utf8Size) rest
  find 0 text.toList

/-- The settings in a text, its table read by `read`. -/
def parseBy (read : Toml.DocumentReader) (text : String) : Except Flaw Settings :=
  match read text with
  | .ok table => ofTable table
  | .error failure => .error ⟨some (spanAt text failure.offset), failure.reason⟩

/-! ## From a project -/

def fileName : String := "envdoctor.toml"

/-- The settings of the project below a root, a document read by `read`; none where there is no file of them. -/
def loadBy (read : Toml.DocumentReader) (tree : FileTree) (root : Path) : Except Fault (Option Settings) :=
  let path := root.child (Text.Utf8.encode fileName)
  match tree.resolve path with
  | .error _ => .ok none
  | .ok _ =>
    match tree.readFile path with
    | .error error => .error (.config path error.message)
    | .ok content =>
      match Text.Utf8.decode? content with
      | none => .error (.config path "stream did not contain valid UTF-8")
      | some text =>
        match parseBy read text with
        | .ok settings => .ok (some settings)
        | .error flaw => .error (.config path (s!"invalid {fileName}: " ++ flaw.render text))

/-- The settings of the project below a root; none where there is no file of them. -/
def load (tree : FileTree) (root : Path) : Except Fault (Option Settings) := loadBy Toml.parse tree root

end Settings

end EnvAudit
