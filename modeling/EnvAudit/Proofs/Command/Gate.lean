import EnvAudit.Command
import EnvAudit.Proofs.Audit.Contributed
import EnvAudit.Proofs.Audit.Exact
import EnvAudit.Proofs.Findings
import EnvAudit.Proofs.Text.Utf8

/-!
# The gate

The status of the program, said of the file system: which settings are in force, which keys they leave as findings, and
when these are a failure.
-/
namespace EnvAudit

/-! ## Settings -/

namespace Settings

/-- The file of settings in the root of a project can be read and holds them, in a document that `read` reads. -/
def Held (read : Toml.DocumentReader) (tree : FileTree) (root : Path) (settings : Settings) : Prop :=
  ∃ text, tree.readFile (root.child (Text.Utf8.encode fileName)) = .ok (Text.Utf8.encode text) ∧
    parseBy read text = .ok settings

/-- The settings in force: those of the file if it holds any, and none otherwise. -/
def InForce (read : Toml.DocumentReader) (tree : FileTree) (root : Path) (settings : Settings) : Prop :=
  Held read tree root settings ∨ (∀ other, ¬ Held read tree root other) ∧ settings = {}

variable {read : Toml.DocumentReader} {tree : FileTree} {root : Path} {settings : Settings}

theorem loadBy_eq_some_iff : loadBy read tree root = .ok (some settings) ↔ Held read tree root settings := by
  have held_iff : Held read tree root settings ↔ ∃ content text,
      tree.readFile (root.child (Text.Utf8.encode fileName)) = .ok content ∧
        Text.Utf8.decode? content = some text ∧ parseBy read text = .ok settings := by
    simp only [Text.Utf8.decode?_eq_some_iff]
    constructor
    · rintro ⟨text, opened, parsed⟩
      exact ⟨_, text, opened, rfl, parsed⟩
    · rintro ⟨_, text, opened, rfl, parsed⟩
      exact ⟨text, opened, parsed⟩
  rw [held_iff]
  unfold loadBy
  dsimp only
  cases resolved : tree.resolve (root.child (Text.Utf8.encode fileName)) with
  | error error =>
    -- Nothing is read through a path that leads nowhere.
    have unread : tree.readFile (root.child (Text.Utf8.encode fileName)) = .error error := by
      rw [FileTree.readFile, FileTree.node?, resolved]
      rfl
    simp [unread]
  | ok place =>
  cases tree.readFile (root.child (Text.Utf8.encode fileName)) with
  | error error => simp
  | ok content =>
    cases decoded : Text.Utf8.decode? content with
    | none => simp [decoded]
    | some text => cases parsed : parseBy read text <;> simp [decoded, parsed]

theorem inForce_iff : InForce read tree root settings ↔ settings = (Command.settingsBy read tree root).1 := by
  simp only [InForce, ← loadBy_eq_some_iff, Command.settingsBy]
  cases loadBy read tree root with
  | error fault => simp
  | ok found => cases found <;> simp [eq_comm]

end Settings

/-! ## Findings -/

namespace Report

theorem isClean_eq_true_iff (report : Report) : report.isClean = true ↔ report.missing = [] ∧ report.unused = [] := by
  rw [isClean, Bool.and_eq_true, List.isEmpty_iff, List.isEmpty_iff]

end Report

namespace Audit

open IgnorePattern (Ignored)

/-- A key on one side alone: it is used and not declared, or declared and not used. -/
def OneSided (read : Script.TreeReader) (tree : FileTree) (root : Path) (exclude : List String) (key : String) : Prop :=
  (Uses read tree root exclude key ∧ ¬ Declares tree root exclude key) ∨
    (Declares tree root exclude key ∧ ¬ Uses read tree root exclude key)

variable {read : Script.TreeReader} {tree : FileTree} {root : Path} {exclude ignore : List String} {report : Report}

/-- There is a report exactly on a root that can be audited. -/
theorem usable_iff_runBy : Usable tree root ↔ ∃ report, runBy read tree root exclude ignore = .ok report := by
  constructor
  · intro usable
    obtain ⟨files, gathered⟩ := usable_iff.mp usable
    exact ⟨_, runBy_eq_ok.mpr ⟨files, gathered, rfl⟩⟩
  · rintro ⟨report, ran⟩
    obtain ⟨files, gathered, -⟩ := runBy_eq_ok.mp ran
    exact usable_iff.mpr ⟨files, gathered⟩

/-- A report is clean if every key on one side alone is ignored. -/
theorem isClean_iff (ran : runBy read tree root exclude ignore = .ok report) :
    report.isClean = true ↔ ∀ key, OneSided read tree root exclude key → Ignored ignore key := by
  obtain ⟨files, gathered, rfl⟩ := runBy_eq_ok.mp ran
  rw [Report.isClean_eq_true_iff, ofFilesBy]
  simp only [Findings.missing_without, Findings.unused_without, List.filter_eq_nil_iff, decide_eq_true_iff,
    mem_used_iff read gathered, mem_declared_iff gathered, OneSided]
  constructor
  · rintro ⟨missing, unused⟩ key (⟨uses, undeclared⟩ | ⟨declares, unuses⟩)
    · exact not_not.mp fun open_ => missing key uses ⟨undeclared, open_⟩
    · exact not_not.mp fun open_ => unused key declares ⟨unuses, open_⟩
  · intro ignored
    constructor
    · rintro key uses ⟨undeclared, open_⟩
      exact open_ (ignored key (.inl ⟨uses, undeclared⟩))
    · rintro key declares ⟨unuses, open_⟩
      exact open_ (ignored key (.inr ⟨declares, unuses⟩))

end Audit

/-! ## The status -/

namespace Command

open IgnorePattern (Ignored)

/-- The root can be audited, and where findings are a failure, every key on one side alone is ignored. The names to exclude
are those that the settings list, if they list any, and behind them those of the arguments; so are the patterns. -/
def Passes (read : Script.TreeReader) (tree : FileTree) (request : Request) (settings : Settings) : Prop :=
  Audit.Usable tree request.path ∧
    (request.strict = true →
      ∀ key, Audit.OneSided read tree request.path (settings.exclude.getD [] ++ request.exclude) key →
        Ignored (settings.ignore.getD [] ++ request.ignore) key)

/-- A report is told in the format that the settings and the arguments give. -/
theorem output_of_runBy {readers : Readers} {tree : FileTree} {request : Request} {settings : Settings}
    {report : Report} (found : (settingsBy readers.document tree request.path).1 = settings)
    (ran : Audit.runBy readers.source tree request.path (settings.excludedNames ++ request.exclude)
      (settings.ignorePatterns ++ request.ignore) = .ok report) :
    (runBy readers tree (.diagnose request)).output = render (formatOf request settings) report := by
  subst found
  simp only [runBy, diagnose, ran]

/-- A report is never told in nothing, since each way of telling it ends in a line feed. -/
theorem render_ne_empty (format : Format) (report : Report) : render format report ≠ "" := by
  intro empty
  cases format with
  | plain =>
    rw [render, Report.plain, Report.lines] at empty
    simp [String.join_cons] at empty
  | json =>
    rw [render, Report.machineReadable] at empty
    simp at empty

/-- The gate is exact: there is one choice of settings in force, and under it the program passes with status 0, fails with
status 1 otherwise, and writes nothing exactly if the root cannot be audited. -/
theorem run_diagnose_gate (readers : Readers) (tree : FileTree) (request : Request) :
    ∃ settings, (∀ other, Settings.InForce readers.document tree request.path other ↔ other = settings) ∧
      ((runBy readers tree (.diagnose request)).status = 0 ↔ Passes readers.source tree request settings) ∧
      ((runBy readers tree (.diagnose request)).status = 1 ↔ ¬ Passes readers.source tree request settings) ∧
      ((runBy readers tree (.diagnose request)).output = "" ↔ ¬ Audit.Usable tree request.path) := by
  refine ⟨(settingsBy readers.document tree request.path).1, fun other => Settings.inForce_iff, ?_⟩
  -- The rest holds under any settings, so how they were found is forgotten.
  rw [runBy, diagnose, Passes]
  generalize settingsBy readers.document tree request.path = found
  obtain ⟨settings, warning⟩ := found
  dsimp only
  rw [← Settings.excludedNames, ← Settings.ignorePatterns]
  cases ran : Audit.runBy readers.source tree request.path (settings.excludedNames ++ request.exclude)
    (settings.ignorePatterns ++ request.ignore) with
  | error fault =>
    have unusable : ¬ Audit.Usable tree request.path := by
      rw [Audit.usable_iff_runBy, ran]
      simp
    simp [unusable]
  | ok report =>
    have usable : Audit.Usable tree request.path := Audit.usable_iff_runBy.mpr ⟨report, ran⟩
    simp only [← Audit.isClean_iff ran, usable, render_ne_empty]
    cases request.strict <;> cases report.isClean <;> simp

/-- A project with a key that is used and not declared, and below another directory with a key that is declared and not used;
its file of settings holds the given bytes. -/
def gated (settings : Bytes) : FileTree where
  root := .directory
    [(Text.Utf8.encode "a.js", .file ⟨(Text.Utf8.encode "process.env.B").toArray⟩ true),
      (Text.Utf8.encode "envdoctor.toml", .file ⟨settings.toArray⟩ true),
      (Text.Utf8.encode "lib",
        .directory [(Text.Utf8.encode ".env", .file ⟨(Text.Utf8.encode "D=").toArray⟩ true)] true)] true
  wellNamed := by cbv

private theorem gather_gated (settings : Bytes) :
    ProjectFiles.gather (gated settings) (Path.ofString ".") [] =
        .ok ⟨[Path.ofString "./a.js"], [Path.ofString "./lib/.env"], []⟩ ∧
      ProjectFiles.gather (gated settings) (Path.ofString ".") ["lib"] = .ok ⟨[Path.ofString "./a.js"], [], []⟩ := by
  have resolved : (gated settings).resolve (Path.ofString ".") = .ok [] := by cbv
  have listed : (gated settings).list (Path.ofString ".") = .ok
      [(Text.Utf8.encode "a.js", .file ⟨(Text.Utf8.encode "process.env.B").toArray⟩ true),
        (Text.Utf8.encode "envdoctor.toml", .file ⟨settings.toArray⟩ true),
        (Text.Utf8.encode "lib",
          .directory [(Text.Utf8.encode ".env", .file ⟨(Text.Utf8.encode "D=").toArray⟩ true)] true)] := by cbv
  have inner : (gated settings).list ((Path.ofString ".").child (Text.Utf8.encode "lib")) =
      .ok [(Text.Utf8.encode ".env", .file ⟨(Text.Utf8.encode "D=").toArray⟩ true)] := by cbv
  have steps : Walk.mostBranch (gated settings) = 10 := by cbv
  have top : (gated settings).root.at? [] = some (gated settings).root := rfl
  have walked : Walk.visits (gated settings) (ProjectFiles.isExcluded []) (Path.ofString ".") =
      .ok [.file (Path.ofString "./a.js"), .file (Path.ofString "./envdoctor.toml"),
        .file (Path.ofString "./lib/.env")] := by
    rw [Walk.visits, resolved]
    dsimp only
    rw [top, steps, Walk.visitBelow, listed]
    simp only [List.flatMap_cons, List.flatMap_nil, Walk.target, Walk.visitBelow, inner]
    refine congrArg Except.ok ?_
    decide +kernel
  have pruned : Walk.visits (gated settings) (ProjectFiles.isExcluded ["lib"]) (Path.ofString ".") =
      .ok [.file (Path.ofString "./a.js"), .file (Path.ofString "./envdoctor.toml")] := by
    rw [Walk.visits, resolved]
    dsimp only
    rw [top, steps, Walk.visitBelow, listed]
    simp only [List.flatMap_cons, List.flatMap_nil, Walk.target, Walk.visitBelow, inner]
    refine congrArg Except.ok ?_
    decide +kernel
  rw [ProjectFiles.gather, ProjectFiles.gather, walked, pruned]
  constructor
  · decide +kernel
  · decide +kernel

/-- There both lists are needed: without the names to exclude `D` is a finding, and without the patterns to ignore `B` is. -/
private theorem isClean_gated (settings : Bytes) :
    (Audit.runBy Audit.accessReader (gated settings) (Path.ofString ".") ["lib"] ["B"]).map Report.isClean = .ok true ∧
      (Audit.runBy Audit.accessReader (gated settings) (Path.ofString ".") ["lib"] []).map Report.isClean = .ok false ∧
      (Audit.runBy Audit.accessReader (gated settings) (Path.ofString ".") [] ["B"]).map Report.isClean = .ok false := by
  have used : Usage.ofFileBy Audit.accessReader (gated settings) (Path.ofString "./a.js") = .ok ⟨["B"], by decide⟩ := by
    have opened : (gated settings).readFile (Path.ofString "./a.js") = .ok (Text.Utf8.encode "process.env.B") := by cbv
    rw [Usage.ofFileBy, opened]
    exact Audit.used_access _
  have declared : (Declaration.read (gated settings) (Path.ofString "./lib/.env")).map Declaration.keys =
      .ok ⟨["D"], by decide⟩ := by
    have opened : (gated settings).readFile (Path.ofString "./lib/.env") = .ok (Text.Utf8.encode "D=") := by cbv
    rw [Declaration.read, opened]
    simp only [Except.map, Text.Utf8.lossy_encode]
    decide +kernel
  obtain ⟨whole, pruned⟩ := gather_gated settings
  refine ⟨?_, ?_, ?_⟩
  · rw [Audit.runBy, pruned, Except.map, Except.map, Audit.ofFilesBy]
    simp only [Audit.harvest, List.map_cons, List.map_nil, used]
    decide +kernel
  · rw [Audit.runBy, pruned, Except.map, Except.map, Audit.ofFilesBy]
    simp only [Audit.harvest, List.map_cons, List.map_nil, used]
    decide +kernel
  · rw [Audit.runBy, whole, Except.map, Except.map, Audit.ofFilesBy]
    simp only [Audit.harvest, List.map_cons, List.map_nil, used, declared]
    decide +kernel

/-- A run on that project in which findings are a failure, the settings being a text. -/
def gatedRun (text : String) : Outcome :=
  runBy ⟨Audit.accessReader, Toml.parse⟩ (gated (Text.Utf8.encode text)) (.diagnose { strict := true })

private theorem status_gatedRun {text : String} {settings : Settings} {clean : Bool}
    (held : Settings.Held Toml.parse (gated (Text.Utf8.encode text)) (Path.ofString ".") settings)
    (ran : (Audit.runBy Audit.accessReader (gated (Text.Utf8.encode text)) (Path.ofString ".")
      (settings.excludedNames ++ []) (settings.ignorePatterns ++ [])).map Report.isClean = .ok clean) :
    (gatedRun text).status = if clean then 0 else 1 := by
  have found : settingsBy Toml.parse (gated (Text.Utf8.encode text)) (Path.ofString ".") = (settings, "") := by
    rw [settingsBy, Settings.loadBy_eq_some_iff.mpr held]
  rw [gatedRun, runBy, diagnose]
  simp only [found]
  cases reported : Audit.runBy Audit.accessReader (gated (Text.Utf8.encode text)) (Path.ofString ".")
      (settings.excludedNames ++ []) (settings.ignorePatterns ++ []) with
  | error fault =>
    rw [reported] at ran
    cases ran
  | ok report =>
    rw [reported] at ran
    cases ran
    dsimp only
    cases report.isClean <;> rfl

private theorem held_gated {text : String} {settings : Settings}
    (parsed : Settings.parseBy Toml.parse text = .ok settings) :
    Settings.Held Toml.parse (gated (Text.Utf8.encode text)) (Path.ofString ".") settings := by
  have opened (content : Bytes) :
      (gated content).readFile ((Path.ofString ".").child (Text.Utf8.encode Settings.fileName)) = .ok content := by cbv
  exact ⟨text, opened _, parsed⟩

/-- The project passes under settings that ignore the one finding and exclude the other, and fails without either list. -/
theorem run_diagnose_gate_gated :
    (Settings.InForce Toml.parse (gated (Text.Utf8.encode "ignore = [\"B\"]\nexclude = [\"lib\"]")) (Path.ofString ".")
        { ignore := some ["B"], exclude := some ["lib"] } ∧
      (gatedRun "ignore = [\"B\"]\nexclude = [\"lib\"]").status = 0 ∧
      Passes Audit.accessReader (gated (Text.Utf8.encode "ignore = [\"B\"]\nexclude = [\"lib\"]")) { strict := true }
        { ignore := some ["B"], exclude := some ["lib"] }) ∧
      (gatedRun "ignore = [\"B\"]").status = 1 ∧ (gatedRun "exclude = [\"lib\"]").status = 1 := by
  have both : Settings.Held Toml.parse (gated (Text.Utf8.encode "ignore = [\"B\"]\nexclude = [\"lib\"]"))
      (Path.ofString ".") { ignore := some ["B"], exclude := some ["lib"] } := held_gated (by decide +kernel)
  have ignoring : Settings.Held Toml.parse (gated (Text.Utf8.encode "ignore = [\"B\"]")) (Path.ofString ".")
      { ignore := some ["B"] } := held_gated (by decide +kernel)
  have excluding : Settings.Held Toml.parse (gated (Text.Utf8.encode "exclude = [\"lib\"]")) (Path.ofString ".")
      { exclude := some ["lib"] } := held_gated (by decide +kernel)
  have passed : (gatedRun "ignore = [\"B\"]\nexclude = [\"lib\"]").status = 0 :=
    status_gatedRun both (isClean_gated _).1
  obtain ⟨settings, only, passes, -, -⟩ := run_diagnose_gate ⟨Audit.accessReader, Toml.parse⟩
    (gated (Text.Utf8.encode "ignore = [\"B\"]\nexclude = [\"lib\"]")) { strict := true }
  cases (only _).mp (.inl both)
  exact ⟨⟨.inl both, passed, passes.mp passed⟩, status_gatedRun ignoring (isClean_gated _).2.2,
    status_gatedRun excluding (isClean_gated _).2.1⟩

end Command

end EnvAudit
