import EnvAudit.Proofs.Audit.Settings
import EnvAudit.Proofs.Command.Gate

/-! Names to exclude and patterns to ignore act as sets, wherever they come from: the file of settings or the arguments. -/
namespace EnvAudit.Command

/-- Two runs tell the same if their settings and arguments exclude the same names, ignore the same patterns and ask for one
format, in whatever order and however often, and whether the settings or the arguments say so. -/
theorem run_diagnose_of_same_sets (readers : Readers) {tree : FileTree} {place : Place} {request other : Request}
    {settings others : Settings} (content : ByteArray) (file : Settings.FileAt tree request.path place)
    (unlinked : ¬ FileTree.LinkedTo tree place)
    (loaded : Settings.loadBy readers.document tree request.path = .ok (some settings))
    (reloaded : Settings.loadBy readers.document (tree.refilled place content) other.path = .ok (some others))
    (path : other.path = request.path) (strict : other.strict = request.strict)
    (format : formatOf other others = formatOf request settings)
    (excluded : ∀ name,
      name ∈ others.exclude.getD [] ++ other.exclude ↔ name ∈ settings.exclude.getD [] ++ request.exclude)
    (ignored : ∀ pattern,
      pattern ∈ others.ignore.getD [] ++ other.ignore ↔ pattern ∈ settings.ignore.getD [] ++ request.ignore) :
    runBy readers (tree.refilled place content) (.diagnose other) = runBy readers tree (.diagnose request) := by
  -- The audit does not look into the settings, and what they say reaches it as two sets.
  have audited : Audit.runBy readers.source (tree.refilled place content) other.path
      (others.excludedNames ++ other.exclude) (others.ignorePatterns ++ other.ignore) =
        Audit.runBy readers.source tree request.path (settings.excludedNames ++ request.exclude)
          (settings.ignorePatterns ++ request.ignore) := by
    rw [path, Settings.excludedNames, Settings.ignorePatterns, Audit.runBy_congr _ excluded ignored]
    exact Audit.runBy_of_settings _ _ _ file unlinked fun _ _ apart => if_neg apart
  have first : settingsBy readers.document tree request.path = (settings, "") := by rw [settingsBy, loaded]
  have second : settingsBy readers.document (tree.refilled place content) other.path = (others, "") := by
    rw [settingsBy, reloaded]
  rw [runBy, runBy, diagnose, diagnose, first, second]
  dsimp only
  rw [audited, path, strict, format]

/-- A source, and settings that ignore one of the two keys in it. -/
def configured : FileTree where
  root := .directory
    [(Text.Utf8.encode "a.js", .file ⟨(Text.Utf8.encode "process.env.A + process.env.B").toArray⟩ true),
      (Text.Utf8.encode "envdoctor.toml",
        .file ⟨(Text.Utf8.encode "ignore = [\"A\"]\nexclude = [\"lib\"]").toArray⟩ true)] true
  wellNamed := by cbv

/-- Other settings for the same source. -/
def reconfigured : ByteArray :=
  ⟨(Text.Utf8.encode "ignore = [\"C\", \"A\", \"C\"]\n[output]\nformat = \"json\"").toArray⟩

/-- The arguments beside the first settings, and those beside the second. -/
def requested (moved : Bool) : Request :=
  if moved then { exclude := ["vendor", "lib"] } else { json := true, ignore := ["C"], exclude := ["vendor"] }

/-- Settings and arguments change places there, and the format comes from the settings instead of a flag. -/
theorem run_diagnose_of_same_sets_configured :
    Settings.load configured (Path.ofString ".") = .ok (some { ignore := some ["A"], exclude := some ["lib"] }) ∧
      Settings.load (configured.refilled [Text.Utf8.encode "envdoctor.toml"] reconfigured) (Path.ofString ".") =
        .ok (some { ignore := some ["C", "A", "C"], output := some { format := some .json } }) ∧
      run (configured.refilled [Text.Utf8.encode "envdoctor.toml"] reconfigured) (.diagnose (requested true)) =
        run configured (.diagnose (requested false)) := by
  have file : Settings.FileAt configured (Path.ofString ".") [Text.Utf8.encode "envdoctor.toml"] :=
    ⟨by cbv, _, _, rfl⟩
  have unlinked : ¬ FileTree.LinkedTo configured [Text.Utf8.encode "envdoctor.toml"] := fun linked =>
    FileTree.not_linkedThrough_of_free (by decide +kernel) linked.through
  have loaded : Settings.load configured (Path.ofString ".") =
      .ok (some { ignore := some ["A"], exclude := some ["lib"] }) :=
    Settings.loadBy_eq_some_iff.mpr ⟨"ignore = [\"A\"]\nexclude = [\"lib\"]", by cbv, by decide +kernel⟩
  have reloaded : Settings.load (configured.refilled [Text.Utf8.encode "envdoctor.toml"] reconfigured)
      (Path.ofString ".") = .ok (some { ignore := some ["C", "A", "C"], output := some { format := some .json } }) :=
    Settings.loadBy_eq_some_iff.mpr
      ⟨"ignore = [\"C\", \"A\", \"C\"]\n[output]\nformat = \"json\"", by cbv, by decide +kernel⟩
  refine ⟨loaded, reloaded, run_diagnose_of_same_sets ⟨Script.Dialect.parse, Toml.parse⟩ _ file unlinked loaded reloaded
    rfl rfl rfl ?_ ?_⟩
  · intro name
    simp [requested, or_comm]
  · intro pattern
    have same : pattern = "C" ∨ pattern = "A" ∨ pattern = "C" ↔ pattern = "A" ∨ pattern = "C" := by tauto
    simpa [requested] using same

end EnvAudit.Command
