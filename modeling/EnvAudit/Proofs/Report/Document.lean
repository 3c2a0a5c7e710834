import EnvAudit.Proofs.Text.Json.Document
import EnvAudit.Proofs.Text.Json.Reader
import EnvAudit.Proofs.Text.Utf16
import EnvAudit.Proofs.Text.Utf8
import EnvAudit.Report

/-! A report has a document if all of its paths are texts, and the document loses nothing of the report. -/
namespace EnvAudit

open EnvAudit.Text (Json)
open EnvAudit.Text.Json (Value Means meaning meanings_eq_map memberMeanings units units_injective)

/-- A path whose bytes are those of a text. -/
def Path.IsText (path : Path) : Prop := ∃ text, Path.ofString text = path

namespace Report

/-! ## The values of a document -/

/-- Mapping over a list gives a result if every element gives one. -/
private theorem mapM_eq_some_iff {α β : Type} {f : α → Option β} {p : α → Prop} {g : α → β}
    (gives : ∀ a b, f a = some b ↔ p a ∧ b = g a) (list : List α) (results : List β) :
    list.mapM f = some results ↔ (∀ a ∈ list, p a) ∧ results = list.map g := by
  induction list generalizing results with
  | nil => simp [eq_comm]
  | cons a list ih =>
    simp only [List.mapM_cons, Option.bind_eq_bind, Option.bind_eq_some_iff, gives, ih, Option.pure_def,
      Option.some.injEq, List.forall_mem_cons, List.map_cons]
    constructor
    · rintro ⟨_, ⟨first, rfl⟩, _, ⟨others, rfl⟩, rfl⟩
      exact ⟨⟨first, others⟩, rfl⟩
    · rintro ⟨⟨first, others⟩, rfl⟩
      exact ⟨_, ⟨first, rfl⟩, _, ⟨others, rfl⟩, rfl⟩

/-- The path of a text is read as the text, and no other path as one. -/
theorem decode?_bytes_iff {path : Path} {text : String} :
    Text.Utf8.decode? path.bytes = some text ↔ path.IsText ∧ text = path.display := by
  constructor
  · intro read
    refine ⟨⟨text, congrArg Path.mk (Text.Utf8.decode?_eq_some_iff.mp read)⟩, ?_⟩
    rw [Path.display, ← Text.Utf8.decode?_eq_some_iff.mp read, Text.Utf8.lossy_encode]
  · rintro ⟨⟨text, rfl⟩, rfl⟩
    rw [Path.display, Path.ofString, Text.Utf8.lossy_encode, Text.Utf8.decode?_eq_some_iff]

theorem ofString_display {path : Path} (isText : path.IsText) : Path.ofString path.display = path := by
  obtain ⟨text, rfl⟩ := isText
  exact congrArg Path.ofString (Text.Utf8.lossy_encode text)

theorem pathJson?_eq_some_iff (path : Path) (json : Json) :
    pathJson? path = some json ↔ path.IsText ∧ json = .text path.display := by
  simp only [pathJson?, Option.map_eq_some_iff, decode?_bytes_iff]
  constructor
  · rintro ⟨_, ⟨isText, rfl⟩, rfl⟩
    exact ⟨isText, rfl⟩
  · rintro ⟨isText, rfl⟩
    exact ⟨_, ⟨isText, rfl⟩, rfl⟩

private theorem skipJson?_eq_some_iff (skip : Skip) (json : Json) :
    skipJson? skip = some json ↔ skip.path.IsText ∧ json = .object
      [("path", .text skip.path.display), ("kind", .text skip.kind.name), ("message", .text skip.message)] := by
  simp only [skipJson?, Option.bind_eq_bind, Option.bind_eq_some_iff, pathJson?_eq_some_iff, Option.pure_def,
    Option.some.injEq]
  constructor
  · rintro ⟨_, ⟨isText, rfl⟩, rfl⟩
    exact ⟨isText, rfl⟩
  · rintro ⟨isText, rfl⟩
    exact ⟨_, ⟨isText, rfl⟩, rfl⟩

/-- All paths that a report names. -/
def paths (report : Report) : List Path :=
  report.root :: report.declarationFiles ++ report.skipped.map Skip.path

private theorem isText_iff (report : Report) : (∀ path ∈ report.paths, path.IsText) ↔ report.root.IsText ∧
    (∀ path ∈ report.declarationFiles, path.IsText) ∧ ∀ skip ∈ report.skipped, skip.path.IsText := by
  simp only [paths, List.cons_append, List.forall_mem_cons, List.forall_mem_append, List.forall_mem_map]

private theorem isText_of_json? {report : Report} {json : Json} (made : report.json? = some json) :
    ∀ path ∈ report.paths, path.IsText := by
  simp only [json?, Option.bind_eq_bind, Option.bind_eq_some_iff, pathJson?_eq_some_iff,
    mapM_eq_some_iff pathJson?_eq_some_iff, mapM_eq_some_iff skipJson?_eq_some_iff] at made
  obtain ⟨_, ⟨root, -⟩, _, ⟨declarations, -⟩, _, ⟨skipped, -⟩, -⟩ := made
  exact (isText_iff report).mpr ⟨root, declarations, skipped⟩

/-! ## What a document means -/

/-- What the document of a report tells of a record. -/
def toldSkip (skip : Skip) : Value :=
  let kind := match skip.kind with
    | .parse => "parse"
    | .declaration => "declaration"
    | .traversal => "traversal"
  .object [
    (units "path", .text (units skip.path.display)),
    (units "kind", .text (units kind)),
    (units "message", .text (units skip.message))]

def toldTexts (texts : List String) : Value := .list (texts.map fun text => .text (units text))

/-- What the document of a report tells, field by field. -/
def told (report : Report) : Value := .object [
  (units "root", .text (units report.root.display)),
  (units "declaration_files", toldTexts (report.declarationFiles.map Path.display)),
  (units "source_files", .number report.sourceFiles),
  (units "used_keys", toldTexts report.usedKeys),
  (units "declared_keys", toldTexts report.declaredKeys),
  (units "missing", toldTexts report.missing),
  (units "unused", toldTexts report.unused),
  (units "skipped", .list (report.skipped.map toldSkip))]

private theorem json?_of_isText {report : Report} (isText : ∀ path ∈ report.paths, path.IsText) :
    ∃ json, report.json? = some json ∧ json.meaning = report.told := by
  obtain ⟨root, declarations, skipped⟩ := (isText_iff report).mp isText
  have root := (pathJson?_eq_some_iff _ _).mpr ⟨root, rfl⟩
  have declarations := (mapM_eq_some_iff pathJson?_eq_some_iff _ _).mpr ⟨declarations, rfl⟩
  have skipped := (mapM_eq_some_iff skipJson?_eq_some_iff _ _).mpr ⟨skipped, rfl⟩
  have skip (skip : Skip) : meaning (.object [("path", .text skip.path.display), ("kind", .text skip.kind.name),
      ("message", .text skip.message)]) = toldSkip skip := by
    obtain ⟨path, kind, message⟩ := skip
    cases kind <;> rfl
  refine ⟨_, by rw [json?, root, declarations, skipped]; rfl, ?_⟩
  simp [told, toldTexts, meaning, memberMeanings, meanings_eq_map, textsJson, Function.comp_def, ← skip]

/-- The document of a report means what the report tells. -/
theorem means_told {report : Report} {text : String} (written : report.document? = some text) :
    (∀ path ∈ report.paths, path.IsText) ∧ Means text report.told := by
  obtain ⟨json, made, rfl⟩ := Option.map_eq_some_iff.mp written
  have isText := isText_of_json? made
  obtain ⟨same, remade, told⟩ := json?_of_isText isText
  cases made.symm.trans remade
  exact ⟨isText, told ▸ Json.document_means json⟩

/-- A report has a document if all of its paths are texts. -/
theorem isSome_document?_iff (report : Report) :
    report.document?.isSome ↔ ∀ path ∈ report.paths, path.IsText := by
  constructor
  · intro written
    obtain ⟨text, written⟩ := Option.isSome_iff_exists.mp written
    exact (means_told written).1
  · intro isText
    obtain ⟨json, made, -⟩ := json?_of_isText isText
    rw [document?, made]
    rfl

/-! ## Reports with one document -/

private theorem toldTexts_injective : Function.Injective toldTexts := by
  intro first second same
  refine List.map_injective_iff.mpr (fun text other equal => ?_) (Value.list.inj same)
  exact units_injective (Value.text.inj equal)

/-- A function that tells the elements of two lists apart tells the lists apart. -/
private theorem eq_of_map_eq {α β : Type} {f : α → β} {first second : List α}
    (injective : ∀ a ∈ first, ∀ b ∈ second, f a = f b → a = b) (same : first.map f = second.map f) :
    first = second := by
  induction first generalizing second with
  | nil => exact (List.map_eq_nil_iff.mp same.symm).symm
  | cons a first ih =>
    cases second with
    | nil => cases same
    | cons b second =>
      obtain ⟨head, tail⟩ := List.cons.inj same
      rw [injective a List.mem_cons_self b List.mem_cons_self head, ih (fun a inFirst b inSecond =>
        injective a (List.mem_cons_of_mem _ inFirst) b (List.mem_cons_of_mem _ inSecond)) tail]

private theorem eq_of_display_eq {path other : Path} (isText : path.IsText) (otherText : other.IsText)
    (same : path.display = other.display) : path = other := by
  rw [← ofString_display isText, ← ofString_display otherText, same]

private theorem eq_of_toldSkip_eq {skip other : Skip} (isText : skip.path.IsText) (otherText : other.path.IsText)
    (same : toldSkip skip = toldSkip other) : skip = other := by
  obtain ⟨path, kind, message⟩ := skip
  obtain ⟨otherPath, otherKind, otherMessage⟩ := other
  simp only [toldSkip, Value.object.injEq, List.cons.injEq, Prod.mk.injEq, Value.text.injEq, true_and, and_true,
    units_injective.eq_iff] at same
  obtain ⟨paths, kinds, messages⟩ := same
  have kind : kind = otherKind := by
    cases kind <;> cases otherKind <;> simp at kinds ⊢
  obtain rfl : path = otherPath := eq_of_display_eq isText otherText paths
  rw [kind, messages]

/-- Reports whose paths are texts are told apart. -/
private theorem eq_of_told_eq {report other : Report} (isText : ∀ path ∈ report.paths, path.IsText)
    (otherText : ∀ path ∈ other.paths, path.IsText) (same : report.told = other.told) : report = other := by
  obtain ⟨root, declarations, skips⟩ := (isText_iff report).mp isText
  obtain ⟨otherRoot, otherDeclarations, otherSkips⟩ := (isText_iff other).mp otherText
  simp only [told, Value.object.injEq, List.cons.injEq, Prod.mk.injEq, Value.text.injEq, Value.list.injEq,
    Value.number.injEq, true_and, and_true, Nat.cast_inj, units_injective.eq_iff, toldTexts_injective.eq_iff] at same
  obtain ⟨roots, files, sources, used, declared, missing, unused, skipped⟩ := same
  have root := eq_of_display_eq root otherRoot roots
  have files := eq_of_map_eq (fun path member other otherMember =>
    eq_of_display_eq (declarations path member) (otherDeclarations other otherMember)) files
  have skipped := eq_of_map_eq (fun skip member other otherMember =>
    eq_of_toldSkip_eq (skips skip member) (otherSkips other otherMember)) skipped
  cases report
  cases other
  simp only [mk.injEq]
  exact ⟨root, files, sources, used, declared, missing, unused, skipped⟩

/-- A report has a document if all of its paths are texts. The document then is one of JSON, it means what the report
says in each field and nothing else, and no other report has it. -/
theorem document_lossless (report : Report) :
    (report.document?.isSome ↔ ∀ path ∈ report.paths, path.IsText) ∧
      ∀ text, report.document? = some text →
        (∀ path ∈ report.paths, Path.ofString path.display = path) ∧
        (∀ value, Means text value ↔ value = report.told) ∧
        ∀ other : Report, other.document? = some text → other = report := by
  refine ⟨isSome_document?_iff report, ?_⟩
  intro text written
  obtain ⟨isText, means⟩ := means_told written
  refine ⟨fun path member => ofString_display (isText path member), ?_, ?_⟩
  · exact fun value => ⟨fun other => other.unique means, fun same => same ▸ means⟩
  · intro other otherWritten
    obtain ⟨otherText, otherMeans⟩ := means_told otherWritten
    exact eq_of_told_eq otherText isText (otherMeans.unique means)

/-- A report on a key with a quote, a control character and a character above U+FFFF, and on a skipped file. -/
def quotedReport : Report where
  root := Path.ofString "."
  declarationFiles := []
  sourceFiles := 10
  usedKeys := ["\"\x07😀"]
  declaredKeys := []
  missing := ["\"\x07😀"]
  unused := []
  skipped := [⟨Path.ofString "./ü.js", .parse, "a\\b"⟩]

def quotedDocument : String :=
  "\x7b\n  \"root\": \".\",\n  \"declaration_files\": [],\n  \"source_files\": 10,\n" ++
  "  \"used_keys\": [\n    \"\\\"\\u0007😀\"\n  ],\n  \"declared_keys\": [],\n" ++
  "  \"missing\": [\n    \"\\\"\\u0007😀\"\n  ],\n  \"unused\": [],\n" ++
  "  \"skipped\": [\n    \x7b\n      \"path\": \"./ü.js\",\n      \"kind\": \"parse\",\n" ++
  "      \"message\": \"a\\\\b\"\n    \x7d\n  ]\n\x7d"

/-- Only the quote, the control character and the backslash are escaped in its document. -/
theorem document_lossless_quoted : quotedReport.document? = some quotedDocument ∧
    (∀ value, Means quotedDocument value ↔ value = quotedReport.told) ∧
    ∀ other : Report, other.document? = some quotedDocument → other = quotedReport := by
  have root : pathJson? quotedReport.root = some (.text ".") :=
    congrArg (Option.map Json.text) (Text.Utf8.decode?_eq_some_iff.mpr rfl)
  have skipped : pathJson? (Path.ofString "./ü.js") = some (.text "./ü.js") :=
    congrArg (Option.map Json.text) (Text.Utf8.decode?_eq_some_iff.mpr rfl)
  have written : quotedReport.document? = some quotedDocument := by
    simp only [document?, json?, root]
    simp only [quotedReport, List.mapM_cons, List.mapM_nil, skipJson?, skipped]
    decide +kernel
  exact ⟨written, ((document_lossless quotedReport).2 quotedDocument written).2⟩

end Report
end EnvAudit
