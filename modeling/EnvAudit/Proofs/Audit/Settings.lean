import EnvAudit.Proofs.Audit.Edited
import EnvAudit.Proofs.Settings

/-! The file of settings is no file of the project: an audit does not look into it. Names to exclude and patterns to ignore
act as sets. -/
namespace EnvAudit

namespace Path

theorem fileName_child {path : Path} (present : path.bytes ≠ []) {name : Name} (entry : Name.isEntry name = true) :
    (path.child name).fileName? = some name := by
  obtain ⟨front, -, parted⟩ := parts_child path present entry
  rw [fileName?, parted, List.filter_append]
  simp [Part.stays]

end Path

namespace Walk

/-- The last step of a way is one from a directory that it comes through to an entry. -/
theorem Way.last {tree : FileTree} {excluded : Name → Bool} {seen : List Place} {path : Path} {names : List Name}
    (way : Walk.Way tree excluded seen path names) :
    ∃ parent place entries name node, path.below names = parent.child name ∧ Stands tree parent place entries true ∧
      (name, node) ∈ Node.listing entries := by
  induction way with
  | @file seen path listed name node content readable opened member kept found =>
    obtain ⟨place, entries, stands, rfl⟩ := stands_of_list opened
    exact ⟨path, place, entries, name, node, rfl, stands, member⟩
  | directory opened member kept resolved apart rest ih => exact ih

end Walk

namespace ProjectFiles

open Settings (FileAt)

variable {tree : FileTree} {root path : Path} {exclude : List String} {files : ProjectFiles} {place : Place}

/-- What is gathered has the name of a source file or of a declaration file. -/
theorem named_of_gathered (gathered : gather tree root exclude = .ok files)
    (listed : path ∈ files.declarations ∨ path ∈ files.sources) : path.isDeclaration = true ∨ path.isSource = true := by
  obtain ⟨found, -, rfl⟩ := exists_of_gather gathered
  exact listed.imp List.of_mem_filter List.of_mem_filter

theorem not_settings_of_named (named : path.isDeclaration = true ∨ path.isSource = true) :
    path.fileName? ≠ some (Text.Utf8.encode Settings.fileName) := by
  intro same
  rw [Path.isDeclaration, Path.isSource, Path.hasExtension, Path.extension?, same] at named
  revert named
  decide +kernel

/-- No path of a gathered file leads to the file of settings, unless over a link to it. -/
theorem resolve_ne_settings (gathered : gather tree root exclude = .ok files)
    (listed : path ∈ files.declarations ∨ path ∈ files.sources) (settings : FileAt tree root place)
    (unlinked : ¬ FileTree.LinkedTo tree place) : tree.resolve path ≠ .ok place := by
  intro resolved
  obtain ⟨_, _, inside, ways⟩ := way_of_gathered gathered
  obtain ⟨names, rfl, way⟩ := ways path listed
  obtain ⟨parent, directory, entries, name, node, spelled, stands, member⟩ := way.last
  rw [spelled] at listed resolved
  have found := (Node.mem_listing_iff entries name node).mp member
  by_cases link : ∃ target, node = .link target
  · obtain ⟨target, rfl⟩ := link
    exact unlinked (FileTree.linkedTo_of_entry stands.resolved stands.there (stands.isEntry member) found resolved)
  · -- An entry that is no link lies where it is listed, so it has the name of the settings.
    obtain ⟨above, _, -, -, rfl⟩ := FileTree.directory_of_entry (FileTree.present_of_resolve inside.resolved)
      Settings.isEntry_fileName settings.entered
    have led := (stands.resolve_entry member fun target same => link ⟨target, same⟩).1
    have places : directory ++ [name] = above ++ [Text.Utf8.encode Settings.fileName] :=
      Except.ok.inj (led.symm.trans resolved)
    cases (List.append_inj' places rfl).2
    exact not_settings_of_named (named_of_gathered gathered listed)
      (Path.fileName_child (FileTree.present_of_resolve stands.resolved) Settings.isEntry_fileName)

theorem gather_congr {others : List String} (same : ∀ name, name ∈ others ↔ name ∈ exclude) :
    gather tree root others = gather tree root exclude := by
  have excluded : isExcluded others = isExcluded exclude := by
    funext name
    rw [Bool.eq_iff_iff, isExcluded, isExcluded, List.any_eq_true, List.any_eq_true]
    simp only [List.mem_append, same]
  rw [gather, gather, excluded]

end ProjectFiles

theorem IgnorePattern.anyCovers_congr {patterns others : List String}
    (same : ∀ pattern, pattern ∈ others ↔ pattern ∈ patterns) : anyCovers others = anyCovers patterns := by
  funext key
  rw [Bool.eq_iff_iff, anyCovers, anyCovers, List.any_eq_true, List.any_eq_true]
  simp only [same]

namespace Audit

open Node (FileData)
open Settings (FileAt)

variable (read : Script.TreeReader) {tree : FileTree} {root : Path} {place : Place} (exclude ignore : List String)

/-- A report is the same whatever is in the file of settings. -/
theorem runBy_of_settings (settings : FileAt tree root place) (unlinked : ¬ FileTree.LinkedTo tree place)
    {edit : Place → FileData → FileData} (elsewhere : ∀ other file, other ≠ place → edit other file = file) :
    runBy read (tree.mapFiles edit) root exclude ignore = runBy read tree root exclude ignore := by
  rw [runBy, runBy, ProjectFiles.gather_mapFiles]
  cases gathered : ProjectFiles.gather tree root exclude with
  | error fault => rfl
  | ok files =>
    -- The same files are gathered, and none of them is the file of settings.
    refine congrArg Except.ok (ofFilesBy_congr _ root ignore fun path listed => ?_)
    obtain ⟨other, file, resolved, opened, edited⟩ := ProjectFiles.readFile_of_gathered gathered listed
    have apart : other ≠ place := by
      rintro rfl
      exact ProjectFiles.resolve_ne_settings gathered listed settings unlinked resolved
    rw [edited, opened, elsewhere other file apart]

/-- A report depends on the set of names to exclude and on the set of patterns to ignore. -/
theorem runBy_congr {exclude ignore names patterns : List String} (sameNames : ∀ name, name ∈ names ↔ name ∈ exclude)
    (samePatterns : ∀ pattern, pattern ∈ patterns ↔ pattern ∈ ignore) :
    runBy read tree root names patterns = runBy read tree root exclude ignore := by
  have covered := IgnorePattern.anyCovers_congr samePatterns
  rw [runBy, runBy, ProjectFiles.gather_congr sameNames]
  cases ProjectFiles.gather tree root exclude with
  | error fault => rfl
  | ok files => simp only [Except.map, ofFilesBy, Findings.without, covered]

end Audit

end EnvAudit
