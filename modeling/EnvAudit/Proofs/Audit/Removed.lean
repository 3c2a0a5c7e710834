import EnvAudit.Proofs.Audit.Settings
import EnvAudit.Proofs.Walk.Removed

/-! An audit finds the same when the file of settings is removed, unless a link comes by it. -/
namespace EnvAudit

/-- Whether a visit shows in what is gathered. -/
def Visit.isGathered : Visit → Bool
  | file path => path.isDeclaration || path.isSource
  | failed .. => true

namespace ProjectFiles

open FileTree (Lacks)
open Settings (FileAt)

variable {left right : FileTree} {root path : Path} {place : Place} {exclude : List String} {files : ProjectFiles}

theorem ofVisits_filter (found : List Visit) : ofVisits (found.filter Visit.isGathered) = ofVisits found := by
  induction found with
  | nil => rfl
  | cons visit rest ih =>
    rw [List.filter_cons]
    simp only [ofVisits, mk.injEq] at ih ⊢
    obtain ⟨sources, declarations, skipped⟩ := ih
    cases visit with
    | failed path message =>
      simp [Visit.isGathered, List.filterMap_cons, Visit.file?, Visit.skip?, sources, declarations, skipped]
    | file path =>
      cases source : path.isSource <;> cases declaration : path.isDeclaration <;>
        simp [Visit.isGathered, List.filterMap_cons, Visit.file?, Visit.skip?, sources, declarations, skipped, source,
          declaration]

/-- A visit to the file of settings does not show. -/
theorem hides_settings (above : Place) :
    Walk.Hides Visit.isGathered (above ++ [Text.Utf8.encode Settings.fileName]) := by
  intro path name directory present same
  cases (List.append_inj' same rfl).2
  have named := Path.fileName_child present Settings.isEntry_fileName
  rw [← Bool.not_eq_true]
  intro gathered
  exact not_settings_of_named (Bool.or_eq_true_iff.mp gathered) named

theorem gather_lacks (lacks : Lacks place left right) (settings : FileAt left root place) :
    gather right root exclude = gather left root exclude := by
  by_cases present : root.bytes = []
  · simp only [gather, Walk.visits, FileTree.resolve_eq, present, if_true]
  · obtain ⟨directory, entries, resolved, there, rfl⟩ :=
      FileTree.directory_of_entry present Settings.isEntry_fileName settings.entered
    obtain ⟨found, others, walked, also, same⟩ :=
      Walk.visits_lacks lacks (hides_settings directory) ⟨resolved, there⟩
    rw [gather, gather, walked, also]
    dsimp only
    rw [← ofVisits_filter found, ← ofVisits_filter others, same]

end ProjectFiles

theorem Settings.loadBy_lacks (read : Toml.DocumentReader) {left right : FileTree} {root : Path} {place : Place}
    (lacks : FileTree.Lacks place left right) (settings : Settings.FileAt left root place) :
    Settings.loadBy read right root = .ok none := by
  rw [Settings.loadBy, lacks.resolve_removed Settings.isEntry_fileName settings.entered]

namespace Audit

open FileTree (Lacks)
open Settings (FileAt)

/-- A report is the same with the file of settings and without it. -/
theorem runBy_lacks (read : Script.TreeReader) {left right : FileTree} {root : Path} {place : Place}
    (lacks : Lacks place left right) (settings : FileAt left root place) (exclude ignore : List String) :
    runBy read right root exclude ignore = runBy read left root exclude ignore := by
  rw [runBy, runBy, ProjectFiles.gather_lacks lacks settings]
  cases gathered : ProjectFiles.gather left root exclude with
  | error fault => rfl
  | ok files =>
    refine congrArg Except.ok (ofFilesBy_congr _ root ignore fun path listed => ?_)
    obtain ⟨content, readable, found⟩ := ProjectFiles.node_of_gathered gathered listed
    obtain ⟨other, resolved, there⟩ := (FileTree.node_eq_ok left path _).mp found
    have apart : other ≠ place := by
      rintro rfl
      exact ProjectFiles.resolve_ne_settings gathered listed settings (fun linked => lacks.unlinked linked.through) resolved
    -- The path leads to the same file, for it leads to another one than is removed.
    have also : right.node? path = .ok (.file content readable) :=
      (FileTree.node_eq_ok right path _).mpr ⟨other, lacks.resolve resolved apart, lacks.without.plain there apart rfl⟩
    rw [FileTree.readFile_of_node found, FileTree.readFile_of_node also]

end Audit

end EnvAudit
