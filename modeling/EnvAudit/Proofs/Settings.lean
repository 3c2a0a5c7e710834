import EnvAudit.Proofs.FileTree.Links
import EnvAudit.Proofs.Text.Utf8
import EnvAudit.Settings
import Mathlib.Tactic.MkIffOfInductiveProp

/-!
# Settings that are refused

A file of settings is taken as a whole or not at all. It is refused if it cannot be read, is no text or no document, or has
an entry that does not fit, whatever the others are.
-/
namespace EnvAudit.Settings

open EnvAudit.Toml (Item Key Table)

/-! ## Entries that fit -/

def IsFormatName (name : String) : Prop := name = "plain" ∨ name = "json"

/-- An array or a table without anything in it. -/
def HoldsNothing (item : Item) : Prop := items? item = some [] ∨ ∃ table, table? item = some table ∧ table.entries = []

/-- A text that names a format, or a table with the name of one as its only key and nothing under it. -/
@[mk_iff] inductive NamesFormat : Item → Prop
  | text {name : String} (span : Toml.Span) (known : IsFormatName name) : NamesFormat (.text name span)
  | table {item inner : Item} {table : Table Item} {key : Key} (isTable : table? item = some table)
      (only : table.entries = [(key, inner)]) (known : IsFormatName key.name) (nothing : HoldsNothing inner) :
      NamesFormat item

/-- A table with a format at most, or an array that begins with one. -/
@[mk_iff] inductive DescribesOutput : Item → Prop
  | table {item : Item} {table : Table Item} (isTable : table? item = some table)
      (formats : ∀ entry ∈ table.entries, entry.1.name = "format" ∧ NamesFormat entry.2) : DescribesOutput item
  | array {item first : Item} {rest : List Item} (isArray : items? item = some (first :: rest))
      (format : NamesFormat first) : DescribesOutput item

/-- An array of texts. -/
def ListsTexts (item : Item) : Prop :=
  ∃ items, items? item = some items ∧ ∀ each ∈ items, ∃ value span, each = .text value span

/-- A known key with an item of its kind. -/
@[mk_iff] inductive Fits : Key × Item → Prop
  | texts {key : Key} {item : Item} (known : key.name = "ignore" ∨ key.name = "exclude") (texts : ListsTexts item) :
      Fits (key, item)
  | output {key : Key} {item : Item} (known : key.name = "output") (output : DescribesOutput item) : Fits (key, item)

/-- A file is refused as settings, by its content and by whether it can be read; what a document is, `read` says. -/
@[mk_iff] inductive Refused (read : Toml.DocumentReader) (content : Bytes) (readable : Bool) : Prop
  | unreadable (closed : readable = false) : Refused read content readable
  | noText (foreign : ∀ text, Text.Utf8.encode text ≠ content) : Refused read content readable
  | noDocument {text : String} {failure : Toml.Failure} (spelled : Text.Utf8.encode text = content)
      (misread : read text = .error failure) : Refused read content readable
  | misfit {text : String} {table : Table Item} {entry : Key × Item} (spelled : Text.Utf8.encode text = content)
      (parsed : read text = .ok table) (member : entry ∈ table.entries) (misfit : ¬ Fits entry) :
      Refused read content readable

/-! ## Reading succeeds exactly on what fits -/

def Succeeds {α : Type} (read : Read α) : Prop := ∃ value, read = .ok value

section Steps

variable {α β : Type}

@[simp] theorem succeeds_pure (value : α) : Succeeds (pure value : Read α) := ⟨value, rfl⟩

@[simp] theorem not_succeeds_throw (flaw : Toml.Flaw) : ¬ Succeeds (throw flaw : Read α) := by
  rintro ⟨value, ⟨⟩⟩

@[simp] theorem not_succeeds_flawed (item : Item) (reason : String) : ¬ Succeeds (flawed item reason : Read α) :=
  not_succeeds_throw _

@[simp] theorem not_succeeds_wanted (item : Item) (expected : String) : ¬ Succeeds (wanted item expected : Read α) :=
  not_succeeds_throw _

@[simp] theorem not_succeeds_unknownField (key : Key) (known : List String) :
    ¬ Succeeds (unknownField key known : Read α) :=
  not_succeeds_throw _

@[simp] theorem succeeds_underKey (key : Key) (read : Read α) : Succeeds (underKey key read) ↔ Succeeds read := by
  cases read <;> simp [Succeeds, underKey]

/-- A reading that goes on succeeds if both parts do; what comes behind is the same whatever was read. -/
theorem succeeds_bind {read : Read α} {next : α → Read β} {property : Prop}
    (each : ∀ value, Succeeds (next value) ↔ property) : Succeeds (read >>= next) ↔ Succeeds read ∧ property := by
  cases read with
  | error flaw => simp [Succeeds, bind, Except.bind]
  | ok value =>
    have first : Succeeds (Except.ok value : Read α) := ⟨value, rfl⟩
    simp only [first, true_and]
    exact each value

@[simp] theorem succeeds_map (change : α → β) (read : Read α) : Succeeds (change <$> read) ↔ Succeeds read := by
  rw [← bind_pure_comp, succeeds_bind fun value => iff_true_intro (succeeds_pure (change value)), and_true]

theorem succeeds_mapM {step : α → Read β} {fits : α → Prop} (each : ∀ item, Succeeds (step item) ↔ fits item)
    (items : List α) : Succeeds (items.mapM step) ↔ ∀ item ∈ items, fits item := by
  induction items with
  | nil => simp
  | cons item items ih =>
    have rest (value : β) : Succeeds (do return value :: (← items.mapM step)) ↔ ∀ item ∈ items, fits item := by
      rw [bind_pure_comp, succeeds_map, ih]
    rw [List.mapM_cons, succeeds_bind rest, each, List.forall_mem_cons]

/-- Steps that succeed on the same items whatever came before succeed on all of them or fail. -/
theorem succeeds_foldlM {step : β → α → Read β} {fits : α → Prop}
    (each : ∀ state item, Succeeds (step state item) ↔ fits item) (items : List α) (state : β) :
    Succeeds (items.foldlM step state) ↔ ∀ item ∈ items, fits item := by
  induction items generalizing state with
  | nil => simp
  | cons item items ih => rw [List.foldlM_cons, succeeds_bind ih, each, List.forall_mem_cons]

end Steps

private theorem succeeds_textOf (item : Item) : Succeeds (textOf item) ↔ ∃ value span, item = .text value span := by
  cases item <;> simp [textOf]

theorem succeeds_textsOf (item : Item) : Succeeds (textsOf item) ↔ ListsTexts item := by
  rw [textsOf, ListsTexts]
  cases items? item with
  | none => simp
  | some items => simp [succeeds_mapM succeeds_textOf]

private theorem succeeds_formatNamed (name : String) (span : Option Toml.Span) :
    Succeeds (formatNamed name span) ↔ IsFormatName name := by
  unfold formatNamed IsFormatName
  split
  next plain => simp [plain]
  next noPlain =>
    split
    next json => simp [json]
    next noJson => simp [noPlain, noJson]

private theorem succeeds_if (empty : Prop) [Decidable empty] (item : Item) (reason : String) :
    Succeeds (if empty then pure () else flawed item reason) ↔ empty := by
  split
  next holds => simp [holds]
  next fails => simp [fails]

private theorem succeeds_checkEmpty (item : Item) : Succeeds (checkEmpty item) ↔ HoldsNothing item := by
  cases item <;> simp [checkEmpty, succeeds_if, HoldsNothing, items?, table?]

theorem succeeds_formatOf (item : Item) : Succeeds (formatOf item) ↔ NamesFormat item := by
  rw [namesFormat_iff]
  unfold formatOf
  split
  next name span => simp [succeeds_formatNamed, table?]
  next noText =>
    have noName : ¬ ∃ name span, IsFormatName name ∧ item = .text name span := by
      rintro ⟨name, span, -, text⟩
      exact noText name span text
    rw [or_iff_right noName]
    cases isTable : table? item with
    | none => simp
    | some table =>
      simp only [Option.some.injEq]
      split
      next none => simp [none]
      next key inner only =>
        have behind (format : Format) : Succeeds (do checkEmpty inner; return format) ↔ HoldsNothing inner := by
          rw [succeeds_bind fun _ => iff_true_intro (succeeds_pure format), succeeds_checkEmpty, and_true]
        rw [succeeds_bind behind, succeeds_formatNamed]
        simp [only]
      next many noOne =>
        simp only [not_succeeds_flawed, false_iff]
        rintro ⟨inner, _, key, rfl, only, -⟩
        exact noOne key inner only

private theorem succeeds_outputEntry (output : OutputSettings) (entry : Key × Item) :
    Succeeds (outputEntry output entry) ↔ entry.1.name = "format" ∧ NamesFormat entry.2 := by
  obtain ⟨key, item⟩ := entry
  unfold outputEntry
  by_cases known : key.name = "format"
  · simp [known, succeeds_formatOf]
  · simp [known]

theorem succeeds_outputOf (item : Item) : Succeeds (outputOf item) ↔ DescribesOutput item := by
  rw [describesOutput_iff]
  unfold outputOf
  split
  next span => simp [table?, items?]
  next =>
    cases isTable : table? item with
    | some table =>
      -- No item is both a table and an array.
      have noArray : items? item = none := by cases item <;> first | rfl | cases isTable
      simp [succeeds_foldlM succeeds_outputEntry, noArray]
    | none =>
      cases isArray : items? item with
      | none => simp
      | some items => cases items <;> simp [succeeds_formatOf]

theorem succeeds_entry (settings : Settings) (item : Key × Item) : Succeeds (entry settings item) ↔ Fits item := by
  obtain ⟨key, item⟩ := item
  rw [fits_iff]
  unfold entry
  by_cases ignore : key.name = "ignore"
  · simp [ignore, succeeds_textsOf]
  by_cases exclude : key.name = "exclude"
  · simp [exclude, succeeds_textsOf]
  by_cases output : key.name = "output"
  · simp [output, succeeds_outputOf]
  · simp [ignore, exclude, output]

theorem succeeds_ofTable (table : Table Item) : Succeeds (ofTable table) ↔ ∀ entry ∈ table.entries, Fits entry :=
  succeeds_foldlM succeeds_entry table.entries {}

/-! ## Files that are refused -/

variable (read : Toml.DocumentReader)

theorem not_succeeds_parseBy (text : String) : ¬ Succeeds (parseBy read text) ↔
    (∃ failure, read text = .error failure) ∨
      ∃ table, read text = .ok table ∧ ∃ entry ∈ table.entries, ¬ Fits entry := by
  unfold parseBy
  cases read text with
  | error failure => simp [Succeeds]
  | ok table => simp [succeeds_ofTable]

/-- A file that can be read is refused unless it is a text of settings. -/
theorem refused_readable_iff (content : Bytes) :
    Refused read content true ↔ ∀ text, Text.Utf8.encode text = content → ¬ Succeeds (parseBy read text) := by
  simp only [refused_iff, not_succeeds_parseBy, Bool.true_eq_false, false_or]
  constructor
  · rintro (foreign | ⟨text, failure, spelled, misread⟩ | ⟨text, table, entry, spelled, parsed, member, misfit⟩) other same
    · exact absurd same (foreign other)
    · cases Text.Utf8.encode_injective (same.trans spelled.symm)
      exact .inl ⟨failure, misread⟩
    · cases Text.Utf8.encode_injective (same.trans spelled.symm)
      exact .inr ⟨table, parsed, entry, member, misfit⟩
  · intro refused
    by_cases foreign : ∀ text, Text.Utf8.encode text ≠ content
    · exact .inl foreign
    · obtain ⟨text, spelled⟩ := not_forall_not.mp foreign
      rcases refused text spelled with ⟨failure, misread⟩ | ⟨table, parsed, entry, member, misfit⟩
      · exact .inr (.inl ⟨text, failure, spelled, misread⟩)
      · exact .inr (.inr ⟨text, table, entry, spelled, parsed, member, misfit⟩)

/-- A comma may stand behind the last value of a list, but not where there is none. -/
example : Succeeds (parseBy Toml.parse "ignore = [\"A\",]") ∧ ¬ Succeeds (parseBy Toml.parse "ignore = [,]") := by
  have refused : (parseBy Toml.parse "ignore = [,]").toBool = false := by decide +kernel
  refine ⟨⟨{ ignore := some ["A"] }, by decide +kernel⟩, ?_⟩
  rintro ⟨settings, parsed⟩
  rw [parsed] at refused
  cases refused

/-- The settings of a project are a regular file at a place. -/
structure FileAt (tree : FileTree) (root : Path) (place : Place) : Prop where
  entered : tree.resolveEntry (root.child (Text.Utf8.encode fileName)) = .ok place
  regular : ∃ content readable, tree.root.at? place = some (.file content readable)

theorem isEntry_fileName : Name.isEntry (Text.Utf8.encode fileName) = true := by decide +kernel

/-- Settings are not loaded exactly if their file is refused. -/
theorem loadBy_error_iff {tree : FileTree} {root : Path} {place : Place} {content : ByteArray} {readable : Bool}
    (entered : tree.resolveEntry (root.child (Text.Utf8.encode fileName)) = .ok place)
    (there : tree.root.at? place = some (.file content readable)) :
    (∃ fault, loadBy read tree root = .error fault) ↔ Refused read content.data.toList readable := by
  have resolved := FileTree.resolve_of_entry entered (by simp [there])
  have opened := FileTree.readFile_of_node ((FileTree.node_eq_ok tree _ _).mpr ⟨place, resolved, there⟩)
  unfold loadBy
  dsimp only
  rw [resolved, opened]
  cases readable with
  | false =>
    have refused : Refused read content.data.toList false := .unreadable rfl
    simp [refused]
  | true =>
    rw [refused_readable_iff]
    simp only [← Text.Utf8.decode?_eq_some_iff, if_true]
    cases Text.Utf8.decode? content.data.toList with
    | none => simp
    | some text => cases parsed : parseBy read text <;> simp [parsed, Succeeds]

end EnvAudit.Settings
