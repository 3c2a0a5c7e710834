import EnvAudit.Proofs.Audit.Contributed
import EnvAudit.Proofs.Audit.Isolation

/-!
# Roots that stop an audit

Only the root can stop an audit. Whatever fails below it is recorded, and the audit goes on.
-/
namespace EnvAudit

namespace Walk

/-- Why a root cannot be walked: its path leads nowhere, or to something other than a directory, or to a directory that
cannot be listed. Links are followed. -/
inductive Stopped (tree : FileTree) (root : Path) : String → Prop
  | lost {error : SystemError} (lost : tree.resolve root = .error error) :
    Stopped tree root s!"cannot access root: {error.message}"
  | noDirectory {node : Node} (found : tree.node? root = .ok node) (other : node.isDirectory = false) :
    Stopped tree root "root is not a directory"
  | unlistable {entries : List (Name × Node)} (found : tree.node? root = .ok (.directory entries false)) :
    Stopped tree root
      (if tree.isLink root then SystemError.denied.message else failureMessage root .denied)

/-- A walk fails exactly when its root stops it. -/
theorem visits_eq_error_iff {tree : FileTree} {excluded : Name → Bool} {root : Path} {message : String} :
    visits tree excluded root = .error message ↔ Stopped tree root message := by
  constructor
  · intro failed
    unfold visits at failed
    split at failed
    next error lost =>
      cases failed
      exact .lost lost
    next place resolved =>
      obtain ⟨node, there, noLink⟩ := FileTree.holds_of_resolve resolved
      have found : tree.node? root = .ok node := (FileTree.node_eq_ok tree root node).mpr ⟨place, resolved, there⟩
      rw [there] at failed
      cases node with
      | link target => exact absurd rfl (noLink target)
      | file content readable =>
        cases failed
        exact .noDirectory found rfl
      | directory entries readable =>
        cases readable with
        | true => cases failed
        | false =>
          -- A link to the directory fails in another step than the directory itself, and with another message.
          have told := Stopped.unlistable found
          cases link : tree.isLink root with
          | true =>
            simp only [link] at failed told
            cases failed
            exact told
          | false =>
            simp only [link] at failed told
            cases failed
            exact told
  · intro stopped
    unfold visits
    cases stopped with
    | lost lost => rw [lost]
    | @noDirectory node found other =>
      obtain ⟨place, resolved, there⟩ := (FileTree.node_eq_ok tree root node).mp found
      rw [resolved]
      dsimp only
      rw [there]
      cases node with
      | directory entries readable => cases other
      | file content readable => rfl
      | link target => rfl
    | unlistable found =>
      obtain ⟨place, resolved, there⟩ := (FileTree.node_eq_ok tree root _).mp found
      rw [resolved]
      dsimp only
      rw [there]
      cases tree.isLink root <;> rfl

end Walk

/-- A fault of a walk names its root, and the scan does not go on. -/
def StoppedBy (tree : FileTree) (root : Path) (fault : Fault) : Prop :=
  ∃ message, Walk.Stopped tree root message ∧ fault = .traversal root message

theorem ProjectFiles.gather_eq_error_iff {tree : FileTree} {root : Path} {exclude : List String} {fault : Fault} :
    gather tree root exclude = .error fault ↔ StoppedBy tree root fault := by
  unfold gather StoppedBy
  simp only [← @Walk.visits_eq_error_iff tree (isExcluded exclude)]
  cases Walk.visits tree (isExcluded exclude) root with
  | error message => simp [eq_comm]
  | ok visits => simp

namespace Audit

variable {read : Script.TreeReader} {tree : FileTree} {root : Path} {exclude ignore : List String} {files : ProjectFiles}
  {report : Report} {fault : Fault}

theorem runBy_eq_error_iff : runBy read tree root exclude ignore = .error fault ↔ StoppedBy tree root fault := by
  rw [← @ProjectFiles.gather_eq_error_iff tree root exclude, runBy]
  cases ProjectFiles.gather tree root exclude <;> simp [Except.map]

/-! ## Files that fail -/

/-- A declaration file fails with a fault that lets the scan go on. -/
theorem recoverable_of_declaration {path : Path} (failed : Declaration.read tree path = .error fault) :
    fault.isRecoverable = true := by
  unfold Declaration.read at failed
  split at failed
  · cases failed
  · cases failed
    rfl

/-- A source file fails with a fault that lets the scan go on. -/
theorem recoverable_of_source {path : Path} (failed : Usage.ofFileBy read tree path = .error fault) :
    fault.isRecoverable = true := by
  unfold Usage.ofFileBy Usage.ofSourceBy at failed
  split at failed
  next content _ =>
    cases parsed : Script.parseBy read path (Text.Utf8.lossy content) with
    | ok program => simp [parsed, Except.map] at failed
    | error other =>
      simp only [parsed, Except.map, Except.error.injEq] at failed
      obtain ⟨message, position, rfl⟩ := Script.parse_of_parseBy_error parsed
      rw [← failed]
      rfl
  next =>
    cases failed
    rfl

/-- Every file that fails has left its record, and so has every entry that could not be visited. -/
structure Recovered (read : Script.TreeReader) (tree : FileTree) (files : ProjectFiles) (report : Report) : Prop where
  walk : ∀ skip ∈ files.skipped, skip ∈ report.skipped
  declarations : ∀ path ∈ files.declarations, ∀ fault, Declaration.read tree path = .error fault →
    fault.isRecoverable = true ∧ .ofFault path .declaration fault ∈ report.skipped
  sources : ∀ path ∈ files.sources, ∀ fault, Usage.ofFileBy read tree path = .error fault →
    fault.isRecoverable = true ∧ .ofFault path .parse fault ∈ report.skipped

theorem recovered_ofFilesBy (read : Script.TreeReader) (tree : FileTree) (root : Path) (files : ProjectFiles)
    (ignore : List String) : Recovered read tree files (ofFilesBy read tree root files ignore) where
  walk skip member := List.mem_append_left _ (List.mem_append_left _ member)
  declarations path member fault failed := by
    refine ⟨recoverable_of_declaration failed, List.mem_append_left _ (List.mem_append_right _ ?_)⟩
    exact recorded_of_failed member (by rw [failed]; rfl)
  sources path member fault failed := by
    refine ⟨recoverable_of_source failed, List.mem_append_right _ ?_⟩
    exact recorded_of_failed member failed

/-- Only the root stops an audit: gathering and auditing fail exactly when the root does, with a fault of the traversal
that names it, and otherwise both succeed, whatever fails below the root being recorded. -/
theorem run_stopped_iff (read : Script.TreeReader) (tree : FileTree) (root : Path) (exclude ignore : List String) :
    (∀ fault, ProjectFiles.gather tree root exclude = .error fault ↔ StoppedBy tree root fault) ∧
      (∀ fault, runBy read tree root exclude ignore = .error fault ↔ StoppedBy tree root fault) ∧
      (∀ fault, StoppedBy tree root fault → fault.path? = some root ∧ fault.isRecoverable = false) ∧
      ((¬ ∃ fault, StoppedBy tree root fault) → ∃ files report, ProjectFiles.gather tree root exclude = .ok files ∧
        runBy read tree root exclude ignore = .ok report ∧ Recovered read tree files report) := by
  refine ⟨fun fault => ProjectFiles.gather_eq_error_iff, fun fault => runBy_eq_error_iff, ?_, ?_⟩
  · rintro fault ⟨message, -, rfl⟩
    exact ⟨rfl, rfl⟩
  · intro free
    cases gathered : ProjectFiles.gather tree root exclude with
    | error fault => exact absurd ⟨fault, ProjectFiles.gather_eq_error_iff.mp gathered⟩ free
    | ok files =>
      refine ⟨files, ofFilesBy read tree root files ignore, rfl, ?_, recovered_ofFilesBy read tree root files ignore⟩
      exact runBy_eq_ok.mpr ⟨files, gathered, rfl⟩

/-- A path that leads nowhere stops the audit of that project. At its root the audit goes on, though a directory cannot be
listed, a source file cannot be read and another one is no program. -/
theorem run_stopped_iff_troubled :
    (troubled.resolve (.ofString "nowhere") = .error .notFound ∧
      runBy accessReader troubled (.ofString "nowhere") [] ["C"] =
        .error (.traversal (.ofString "nowhere") "cannot access root: No such file or directory (os error 2)")) ∧
      (¬ ∃ fault, StoppedBy troubled (.ofString ".") fault) ∧
      ProjectFiles.gather troubled (.ofString ".") [] = .ok troubledFiles ∧
      runBy accessReader troubled (.ofString ".") [] ["C"] = .ok troubledReport ∧
      Recovered accessReader troubled troubledFiles troubledReport := by
  have lost : troubled.resolve (.ofString "nowhere") = .error .notFound := by cbv
  obtain ⟨-, stopped, -, -⟩ := run_stopped_iff accessReader troubled (.ofString "nowhere") [] ["C"]
  obtain ⟨fails, -, -, goesOn⟩ := run_stopped_iff accessReader troubled (.ofString ".") [] ["C"]
  have free : ¬ ∃ fault, StoppedBy troubled (.ofString ".") fault := by
    rintro ⟨fault, stops⟩
    cases gather_troubled.symm.trans ((fails fault).mpr stops)
  obtain ⟨files, report, gathered, ran, recovered⟩ := goesOn free
  cases gather_troubled.symm.trans gathered
  cases runBy_troubled.symm.trans ran
  exact ⟨⟨lost, (stopped _).mpr ⟨_, .lost lost, rfl⟩⟩, free, gathered, ran, recovered⟩

end Audit

end EnvAudit
