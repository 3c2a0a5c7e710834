import EnvAudit.Proofs.Audit.Excluded
import EnvAudit.Proofs.Walk.Edited

/-! The files of a project are gathered whatever is in them, and an edit shows in the files that it is made in only. -/
namespace EnvAudit

namespace Node.FileData

/-- What is read in a file. -/
def read (file : FileData) : Except SystemError Bytes := if file.2 then .ok file.1.data.toList else .error .denied

end Node.FileData

theorem FileTree.isLinkFree_node {tree : FileTree} (free : tree.root.isLinkFree = true) {path : Path} {node : Node}
    (found : tree.node? path = .ok node) : node.isLinkFree = true := by
  obtain ⟨place, -, there⟩ := (node_eq_ok tree path node).mp found
  exact Node.isLinkFree_at free there

namespace ProjectFiles

open Node (FileData)

variable {tree : FileTree} {root path : Path} {exclude : List String} {files : ProjectFiles}

theorem gather_mapFiles (edit : Place → FileData → FileData) :
    gather (tree.mapFiles edit) root exclude = gather tree root exclude := by
  rw [gather, gather, Walk.visits_mapFiles]

/-- A gathered file lies at the end of a way from the root. -/
theorem way_of_gathered (gathered : gather tree root exclude = .ok files) :
    ∃ place entries, Walk.Stands tree root place entries true ∧
      ∀ path, path ∈ files.declarations ∨ path ∈ files.sources →
        ∃ names, path = root.below names ∧ Walk.Way tree (isExcluded exclude) [place] root names := by
  obtain ⟨found, walked, rfl⟩ := exists_of_gather gathered
  obtain ⟨place, entries, stands, rfl⟩ := Walk.stands_of_visits walked
  exact ⟨place, entries, stands, fun path member => Walk.way_of_visited stands (visited_of_mem member)⟩

theorem node_of_gathered (gathered : gather tree root exclude = .ok files)
    (listed : path ∈ files.declarations ∨ path ∈ files.sources) :
    ∃ content readable, tree.node? path = .ok (.file content readable) := by
  obtain ⟨_, _, _, ways⟩ := way_of_gathered gathered
  obtain ⟨names, rfl, way⟩ := ways path listed
  exact way.found

/-- What is read under a gathered path, before an edit and after it. -/
theorem readFile_of_gathered (gathered : gather tree root exclude = .ok files)
    (listed : path ∈ files.declarations ∨ path ∈ files.sources) :
    ∃ place file, tree.resolve path = .ok place ∧ tree.readFile path = FileData.read file ∧
      ∀ edit, (tree.mapFiles edit).readFile path = FileData.read (edit place file) := by
  obtain ⟨content, readable, found⟩ := node_of_gathered gathered listed
  obtain ⟨place, resolved, there⟩ := (FileTree.node_eq_ok tree _ _).mp found
  refine ⟨place, (content, readable), resolved, FileTree.readFile_of_node found, fun edit => ?_⟩
  refine FileTree.readFile_of_node ((FileTree.node_eq_ok _ _ _).mpr ⟨place, ?_, ?_⟩)
  · rw [FileTree.resolve_mapFiles, resolved]
  · rw [FileTree.there_mapFiles, there, Option.map_some, Node.mapFiles, List.append_nil]

/-- Without links below the root, files that are gathered under two paths are two files. -/
theorem eq_of_resolve_eq (gathered : gather tree root exclude = .ok files)
    (free : ∀ node, tree.node? root = .ok node → node.isLinkFree = true) {other : Path}
    (listed : path ∈ files.declarations ∨ path ∈ files.sources)
    (alsoListed : other ∈ files.declarations ∨ other ∈ files.sources) (same : tree.resolve path = tree.resolve other) :
    path = other := by
  obtain ⟨place, entries, stands, ways⟩ := way_of_gathered gathered
  have plain := free _ ((FileTree.node_eq_ok tree root _).mpr ⟨place, stands.resolved, stands.there⟩)
  obtain ⟨names, rfl, way⟩ := ways path listed
  obtain ⟨others, rfl, otherWay⟩ := ways other alsoListed
  rw [way.resolved stands plain, otherWay.resolved stands plain, Except.ok.injEq] at same
  rw [List.append_cancel_left same]

/-- Without links, bytes that a gathered file goes on with are read under its path only. -/
theorem readFile_appended (gathered : gather tree root exclude = .ok files)
    (free : ∀ node, tree.node? root = .ok node → node.isLinkFree = true)
    (listed : path ∈ files.declarations ∨ path ∈ files.sources) {content : Bytes}
    (readable : tree.readFile path = .ok content) (bytes : Bytes) {other : Path}
    (alsoListed : other ∈ files.declarations ∨ other ∈ files.sources) :
    (tree.appended path bytes).readFile other =
      if other = path then .ok (content ++ bytes) else tree.readFile other := by
  obtain ⟨place, file, resolved, read, edited⟩ := readFile_of_gathered gathered alsoListed
  refine (edited _).trans ?_
  by_cases same : other = path
  · subst same
    rw [if_pos resolved, if_pos rfl]
    rw [read, FileData.read] at readable
    split at readable
    next open_ =>
      cases readable
      rw [FileData.read, if_pos open_, Array.toList_appendList]
    next => cases readable
  · -- The edit is made at a place, and no other gathered path leads there.
    have apart : tree.resolve path ≠ .ok place := fun there =>
      same (eq_of_resolve_eq gathered free alsoListed listed (resolved.trans there.symm))
    rw [if_neg apart, if_neg same, read]

end ProjectFiles

end EnvAudit
