import EnvAudit.Proofs.Audit.Harvest
import EnvAudit.Proofs.Findings
import EnvAudit.Proofs.Script.Dialect
import EnvAudit.Proofs.Text.Utf8
import EnvAudit.Proofs.Usage.Extraction
import EnvAudit.Proofs.Walk.Trails
import Mathlib

/-! What a report says, file by file: each gathered file contributes its keys or leaves one record. -/
namespace EnvAudit.Audit

/-! ## What one file contributes -/

/-- The keys of a declaration file that can be read. -/
def declaredIn (tree : FileTree) (path : Path) : List String :=
  match tree.readFile path with
  | .ok content => (Declaration.keys (Text.Utf8.lossy content)).keys
  | .error _ => []

/-- The keys of a source file that can be read and is a program, as `read` reads programs. -/
def usedIn (read : Script.TreeReader) (tree : FileTree) (path : Path) : List String :=
  match tree.readFile path with
  | .ok content =>
    match Script.parseBy read path (Text.Utf8.lossy content) with
    | .ok program => (Usage.keys program).keys
    | .error _ => []
  | .error _ => []

/-- The record of a declaration file that cannot be read. -/
def declarationRecords (tree : FileTree) (path : Path) : List Skip :=
  match tree.readFile path with
  | .ok _ => []
  | .error error =>
    [{ path, kind := .declaration, message := (Fault.declaration path s!"cannot read file: {error.message}").message }]

/-- The record of a source file that cannot be read or is no program. -/
def sourceRecords (read : Script.TreeReader) (tree : FileTree) (path : Path) : List Skip :=
  match tree.readFile path with
  | .ok content =>
    match Script.parseBy read path (Text.Utf8.lossy content) with
    | .ok _ => []
    | .error fault => [{ path, kind := .parse, message := fault.message }]
  | .error error => [{ path, kind := .parse, message := (Fault.io path error.message).message }]

/-- The records of one kind on one path. -/
def recordsOf (kind : SkipKind) (path : Path) (skipped : List Skip) : List Skip :=
  skipped.filter fun skip => skip.kind = kind ∧ skip.path = path

/-- A report says of the files gathered in a tree what they contribute, and nothing else. -/
structure Exact (read : Script.TreeReader) (tree : FileTree) (ignore : List String) (files : ProjectFiles)
    (report : Report) : Prop where
  declarationFiles : report.declarationFiles = files.declarations
  sourceFiles : report.sourceFiles = files.sources.length
  declaredKeys : report.declaredKeys = (files.declarations.flatMap (declaredIn tree)).eraseDups
  usedKeys : report.usedKeys = (files.sources.flatMap (usedIn read tree)).eraseDups
  missing : report.missing = report.usedKeys.filter fun key =>
    key ∉ report.declaredKeys ∧ ¬ IgnorePattern.Ignored ignore key
  unused : report.unused = report.declaredKeys.filter fun key =>
    key ∉ report.usedKeys ∧ ¬ IgnorePattern.Ignored ignore key
  distinct : report.declaredKeys.Nodup ∧ report.usedKeys.Nodup ∧ report.missing.Nodup ∧ report.unused.Nodup
  skipped : report.skipped = files.skipped ++ files.declarations.flatMap (declarationRecords tree) ++
    files.sources.flatMap (sourceRecords read tree)
  gathered : files.declarations.Nodup ∧ files.sources.Nodup ∧ ∀ skip ∈ files.skipped, skip.kind = .traversal
  declarationOnce : ∀ path ∈ files.declarations,
    recordsOf .declaration path report.skipped = declarationRecords tree path
  sourceOnce : ∀ path ∈ files.sources, recordsOf .parse path report.skipped = sourceRecords read tree path

/-! ## Records -/

private theorem recordsOf_append (kind : SkipKind) (path : Path) (first second : List Skip) :
    recordsOf kind path (first ++ second) = recordsOf kind path first ++ recordsOf kind path second :=
  List.filter_append _ _

private theorem recordsOf_other {kind other : SkipKind} (differ : other ≠ kind) (path : Path) {skipped : List Skip}
    (others : ∀ skip ∈ skipped, skip.kind = other) : recordsOf kind path skipped = [] := by
  rw [recordsOf, List.filter_eq_nil_iff]
  intro skip member
  simp [others skip member, differ]

section Own

variable {kind : SkipKind} {records : Path → List Skip}

private theorem recordsOf_elsewhere (own : ∀ path, ∀ skip ∈ records path, skip.kind = kind ∧ skip.path = path)
    {paths : List Path} {path : Path} (absent : path ∉ paths) : recordsOf kind path (paths.flatMap records) = [] := by
  rw [recordsOf, List.filter_eq_nil_iff]
  intro skip member
  obtain ⟨other, listed, within⟩ := List.mem_flatMap.mp member
  have differ : other ≠ path := fun same => absent (same ▸ listed)
  simp [own other skip within, differ]

/-- Of files that each leave records under their own paths, one file leaves its own records only. -/
private theorem recordsOf_flatMap (own : ∀ path, ∀ skip ∈ records path, skip.kind = kind ∧ skip.path = path)
    {paths : List Path} (distinct : paths.Nodup) {path : Path} (member : path ∈ paths) :
    recordsOf kind path (paths.flatMap records) = records path := by
  have here : recordsOf kind path (records path) = records path :=
    List.filter_eq_self.mpr fun skip within => by simp [own path skip within]
  induction paths with
  | nil => simp at member
  | cons first rest ih =>
    obtain ⟨absent, distinct⟩ := List.nodup_cons.mp distinct
    rw [List.flatMap_cons, recordsOf_append]
    rcases List.mem_cons.mp member with rfl | later
    · -- The path is listed once, so no later file leaves a record under it.
      rw [here, recordsOf_elsewhere own absent, List.append_nil]
    · have differ : path ∉ [first] := fun same => absent (List.mem_singleton.mp same ▸ later)
      have none := recordsOf_elsewhere own differ
      rw [List.flatMap_singleton] at none
      rw [none, List.nil_append, ih distinct later]

end Own

private theorem own_declarationRecords (tree : FileTree) (path : Path) :
    ∀ skip ∈ declarationRecords tree path, skip.kind = .declaration ∧ skip.path = path := by
  unfold declarationRecords
  split <;> simp

private theorem own_sourceRecords (read : Script.TreeReader) (tree : FileTree) (path : Path) :
    ∀ skip ∈ sourceRecords read tree path, skip.kind = .parse ∧ skip.path = path := by
  unfold sourceRecords
  split
  · split <;> simp
  · simp

private theorem kind_of_flatMap {kind : SkipKind} {records : Path → List Skip}
    (own : ∀ path, ∀ skip ∈ records path, skip.kind = kind ∧ skip.path = path) (paths : List Path) :
    ∀ skip ∈ paths.flatMap records, skip.kind = kind := by
  intro skip member
  obtain ⟨path, -, within⟩ := List.mem_flatMap.mp member
  exact (own path skip within).1

/-! ## The report -/

theorem declared_harvest (tree : FileTree) (paths : List Path) :
    harvest .declaration (fun path => (Declaration.read tree path).map Declaration.keys) paths =
      ⟨KeyList.ofList (paths.flatMap (declaredIn tree)), paths.flatMap (declarationRecords tree)⟩ := by
  refine harvest_eq ?_ ?_ paths
  · intro path found read
    unfold Declaration.read at read
    cases content : tree.readFile path with
    | error error => simp [content, Except.map] at read
    | ok bytes =>
      simp only [content, Except.map, Except.ok.injEq] at read
      simp [declaredIn, declarationRecords, content, ← read]
  · intro path fault unread
    unfold Declaration.read at unread
    cases content : tree.readFile path with
    | ok bytes => simp [content, Except.map] at unread
    | error error =>
      simp only [content, Except.map, Except.error.injEq] at unread
      simp [declaredIn, declarationRecords, content, ← unread, Skip.ofFault, Fault.path?]

private theorem used_harvest (read : Script.TreeReader) (tree : FileTree) (paths : List Path) :
    harvest .parse (Usage.ofFileBy read tree) paths =
      ⟨KeyList.ofList (paths.flatMap (usedIn read tree)), paths.flatMap (sourceRecords read tree)⟩ := by
  refine harvest_eq ?_ ?_ paths
  · intro path found used
    unfold Usage.ofFileBy Usage.ofSourceBy at used
    cases content : tree.readFile path with
    | error error => simp [content] at used
    | ok bytes =>
      cases parsed : Script.parseBy read path (Text.Utf8.lossy bytes) with
      | error fault => simp [content, parsed, Except.map] at used
      | ok program =>
        simp only [content, parsed, Except.map, Except.ok.injEq] at used
        simp [usedIn, sourceRecords, content, parsed, ← used]
  · intro path fault unused
    unfold Usage.ofFileBy Usage.ofSourceBy at unused
    cases content : tree.readFile path with
    | error error =>
      simp only [content, Except.error.injEq] at unused
      simp [usedIn, sourceRecords, content, ← unused, Skip.ofFault, Fault.path?]
    | ok bytes =>
      cases parsed : Script.parseBy read path (Text.Utf8.lossy bytes) with
      | ok program => simp [content, parsed, Except.map] at unused
      | error other =>
        simp only [content, parsed, Except.map, Except.error.injEq] at unused
        subst unused
        simp [usedIn, sourceRecords, content, parsed, Skip.ofFault, Script.path_of_parseBy_error parsed]

/-- No gathered file is listed twice, and gathering leaves records of the walk only. -/
theorem gather_distinct {tree : FileTree} {root : Path} {exclude : List String} {files : ProjectFiles}
    (gathered : ProjectFiles.gather tree root exclude = .ok files) :
    files.declarations.Nodup ∧ files.sources.Nodup ∧ ∀ skip ∈ files.skipped, skip.kind = .traversal := by
  unfold ProjectFiles.gather at gathered
  split at gathered
  · cases gathered
  next visits walked =>
    cases gathered
    have distinct := Walk.files_nodup walked
    refine ⟨distinct.filter _, distinct.filter _, ?_⟩
    intro skip member
    obtain ⟨visit, -, failed⟩ := List.mem_filterMap.mp member
    cases visit with
    | file path => simp [Visit.skip?] at failed
    | failed path message =>
      simp only [Visit.skip?, Option.some.injEq] at failed
      rw [← failed]

/-- A report that an audit makes is exact: it lists the keys of the readable files, the findings between them, and
one record for each file that contributes none, each in the order of the walk. -/
theorem exact_of_run (read : Script.TreeReader) {tree : FileTree} {root : Path} {exclude ignore : List String}
    {report : Report} (ran : runBy read tree root exclude ignore = .ok report) :
    report.root = root ∧
      ∃ files, ProjectFiles.gather tree root exclude = .ok files ∧ Exact read tree ignore files report := by
  unfold runBy at ran
  cases gathered : ProjectFiles.gather tree root exclude with
  | error fault => simp [gathered, Except.map] at ran
  | ok files =>
    simp only [gathered, Except.map, Except.ok.injEq] at ran
    subst ran
    refine ⟨rfl, files, rfl, ?_⟩
    obtain ⟨declarations, sources, walk⟩ := gather_distinct gathered
    have declared := own_declarationRecords tree
    have used := own_sourceRecords read tree
    simp only [ofFilesBy, declared_harvest, used_harvest]
    constructor
    case declarationFiles => rfl
    case sourceFiles => rfl
    case declaredKeys => exact KeyList.keys_ofList _
    case usedKeys => exact KeyList.keys_ofList _
    case missing => exact Findings.missing_without _ _ _
    case unused => exact Findings.unused_without _ _ _
    case distinct =>
      refine ⟨KeyList.nodup _, KeyList.nodup _, ?_, ?_⟩
      · rw [Findings.missing_without]
        exact (KeyList.nodup _).filter _
      · rw [Findings.unused_without]
        exact (KeyList.nodup _).filter _
    case skipped => rfl
    case gathered => exact ⟨declarations, sources, walk⟩
    case declarationOnce =>
      intro path member
      -- Records of the walk and of source files are of other kinds.
      rw [recordsOf_append, recordsOf_append, recordsOf_other (by decide) path walk,
        recordsOf_flatMap declared declarations member, recordsOf_other (by decide) path (kind_of_flatMap used _)]
      simp
    case sourceOnce =>
      intro path member
      rw [recordsOf_append, recordsOf_append, recordsOf_other (by decide) path walk,
        recordsOf_other (by decide) path (kind_of_flatMap declared _), recordsOf_flatMap used sources member]
      simp

/-- The tree of an access in every dialect. -/
def accessTree : Script.Tree :=
  .node { kind := "program", stop := 13 } [
    .node { kind := "expression_statement", stop := 13 } [
      .node { kind := "member_expression", stop := 13 } [
        .node { kind := "member_expression", stop := 11, fields := ["object"] } [
          .node { kind := "identifier", stop := 7, text := "process", fields := ["object"] } [],
          .node { kind := ".", named := false, start := 7, stop := 8, text := "." } [],
          .node { kind := "property_identifier", start := 8, stop := 11, text := "env", fields := ["property"] } []],
        .node { kind := ".", named := false, start := 11, stop := 12, text := "." } [],
        .node { kind := "property_identifier", start := 12, stop := 13, text := "B", fields := ["property"] } []]]]

/-- Reads an access and the empty text as programs, and nothing else. -/
def accessReader : Script.TreeReader := fun _ source =>
  if source = "process.env.B" then accessTree
  else if source = "" then .node { kind := "program" } []
  else .node { kind := "program", stop := source.utf8ByteSize, flawed := true }
    [.node { kind := "ERROR", stop := source.utf8ByteSize, flawed := true } []]

/-- The key of the access, in every file. -/
theorem used_access (path : Path) :
    Usage.ofSourceBy accessReader path (Text.Utf8.lossy (Text.Utf8.encode "process.env.B")) = .ok ⟨["B"], by decide⟩ := by
  have keys : Usage.keys accessTree = ⟨["B"], by decide⟩ := by
    rw [Usage.keys_eq_ofList]
    decide +kernel
  rw [Usage.ofSourceBy, Text.Utf8.lossy_encode, Script.parseBy_of_fits _ _ _ (by decide +kernel) rfl]
  exact congrArg Except.ok keys

/-- A project of a declaration file that declares a key twice, and of three source files, the first of which cannot be read
and the last of which is no program, beside a directory that cannot be listed. -/
def troubled : FileTree where
  root := .directory
    [(Text.Utf8.encode "c.js", .file ⟨(Text.Utf8.encode ")").toArray⟩ true),
      (Text.Utf8.encode "b.js", .file ⟨(Text.Utf8.encode "process.env.B").toArray⟩ true),
      (Text.Utf8.encode "a.js", .file ⟨#[]⟩ false),
      (Text.Utf8.encode "locked", .directory [] false),
      (Text.Utf8.encode ".env", .file ⟨(Text.Utf8.encode "# B=\nA='1'\nC=\nA=2\n").toArray⟩ true)] true
  wellNamed := by cbv

/-- What is gathered there. -/
def troubledFiles : ProjectFiles where
  sources := [Path.ofString "./a.js", Path.ofString "./b.js", Path.ofString "./c.js"]
  declarations := [Path.ofString "./.env"]
  skipped := [⟨Path.ofString "./locked", .traversal, Walk.failureMessage (Path.ofString "./locked") .denied⟩]

theorem gather_troubled : ProjectFiles.gather troubled (Path.ofString ".") [] = .ok troubledFiles := by
  have resolved : troubled.resolve (Path.ofString ".") = .ok [] := by cbv
  have listed : troubled.list (Path.ofString ".") = .ok
      [(Text.Utf8.encode ".env", .file ⟨(Text.Utf8.encode "# B=\nA='1'\nC=\nA=2\n").toArray⟩ true),
        (Text.Utf8.encode "a.js", .file ⟨#[]⟩ false),
        (Text.Utf8.encode "b.js", .file ⟨(Text.Utf8.encode "process.env.B").toArray⟩ true),
        (Text.Utf8.encode "c.js", .file ⟨(Text.Utf8.encode ")").toArray⟩ true),
        (Text.Utf8.encode "locked", .directory [] false)] := by cbv
  have locked : troubled.list ((Path.ofString ".").child (Text.Utf8.encode "locked")) = .error .denied := by cbv
  have steps : Walk.mostBranch troubled = 10 := by decide +kernel
  have walked : Walk.visits troubled (ProjectFiles.isExcluded []) (Path.ofString ".") =
      .ok [.file (Path.ofString "./.env"), .file (Path.ofString "./a.js"), .file (Path.ofString "./b.js"),
        .file (Path.ofString "./c.js"),
        .failed (Path.ofString "./locked") (Walk.failureMessage (Path.ofString "./locked") .denied)] := by
    have top : troubled.root.at? [] = some troubled.root := rfl
    rw [Walk.visits, resolved]
    dsimp only
    rw [top, steps, Walk.visitBelow, listed]
    simp only [List.flatMap_cons, Walk.target, Walk.visitBelow, locked]
    decide +kernel
  have sorted : ProjectFiles.ofVisits [.file (Path.ofString "./.env"), .file (Path.ofString "./a.js"),
      .file (Path.ofString "./b.js"), .file (Path.ofString "./c.js"),
      .failed (Path.ofString "./locked") (Walk.failureMessage (Path.ofString "./locked") .denied)] = troubledFiles := by
    decide +kernel
  simp only [ProjectFiles.gather, walked, sorted]

/-- The report on that project with `C` ignored: `B` is not declared, `A` is not used, and three files are skipped. -/
def troubledReport : Report where
  root := Path.ofString "."
  declarationFiles := [Path.ofString "./.env"]
  sourceFiles := 3
  usedKeys := ["B"]
  declaredKeys := ["A", "C"]
  missing := ["B"]
  unused := ["A"]
  skipped := [
    ⟨Path.ofString "./locked", .traversal, Walk.failureMessage (Path.ofString "./locked") .denied⟩,
    ⟨Path.ofString "./a.js", .parse, "I/O error at ./a.js: Permission denied (os error 13)"⟩,
    ⟨Path.ofString "./c.js", .parse, "Parse error in ./c.js: syntax error near \x60ERROR\x60"⟩]

theorem runBy_troubled : runBy accessReader troubled (Path.ofString ".") [] ["C"] = .ok troubledReport := by
  have declared : (Declaration.read troubled (Path.ofString "./.env")).map Declaration.keys =
      .ok ⟨["A", "C"], by decide⟩ := by
    have opened : troubled.readFile (Path.ofString "./.env") = .ok (Text.Utf8.encode "# B=\nA='1'\nC=\nA=2\n") := by cbv
    rw [Declaration.read, opened]
    simp only [Except.map, Text.Utf8.lossy_encode]
    decide +kernel
  have closed : Usage.ofFileBy accessReader troubled (Path.ofString "./a.js") =
      .error (.io (Path.ofString "./a.js") SystemError.denied.message) := by
    have denied : troubled.readFile (Path.ofString "./a.js") = .error .denied := by cbv
    rw [Usage.ofFileBy, denied]
  have used : Usage.ofFileBy accessReader troubled (Path.ofString "./b.js") = .ok ⟨["B"], by decide⟩ := by
    have opened : troubled.readFile (Path.ofString "./b.js") = .ok (Text.Utf8.encode "process.env.B") := by cbv
    rw [Usage.ofFileBy, opened]
    exact used_access _
  have flawed : Usage.ofFileBy accessReader troubled (Path.ofString "./c.js") =
      .error (.parse (Path.ofString "./c.js") "syntax error near \x60ERROR\x60" (some ⟨1, 1⟩)) := by
    have opened : troubled.readFile (Path.ofString "./c.js") = .ok (Text.Utf8.encode ")") := by cbv
    rw [Usage.ofFileBy, opened]
    dsimp only
    rw [Usage.ofSourceBy, Text.Utf8.lossy_encode]
    decide +kernel
  simp only [runBy, gather_troubled, Except.map]
  rw [ofFilesBy]
  simp only [harvest, troubledFiles, List.map_cons, List.map_nil, declared, closed, used, flawed]
  refine congrArg Except.ok ?_
  decide +kernel

/-- The report on that project is exact. -/
theorem exact_of_run_troubled :
    runBy accessReader troubled (Path.ofString ".") [] ["C"] = .ok troubledReport ∧
      troubledReport.root = Path.ofString "." ∧
      ∃ files, ProjectFiles.gather troubled (Path.ofString ".") [] = .ok files ∧
        Exact accessReader troubled ["C"] files troubledReport :=
  ⟨runBy_troubled, exact_of_run accessReader runBy_troubled⟩

end EnvAudit.Audit
