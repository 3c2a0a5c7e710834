import EnvAudit.Proofs.FileTree.Edited
import EnvAudit.Proofs.Walk.Reach

/-! A walk does not look into files: it visits the same paths whatever is in them. Without links below its root, no two
of the files that it visits are one. -/
namespace EnvAudit

namespace Walk

open Node (FileData)

variable {tree : FileTree} {root : Path} (edit inner : Place → FileData → FileData) {excluded : Name → Bool}

private theorem linkTarget_mapFiles (ancestors : List Ancestor) (path : Path) :
    linkTarget (tree.mapFiles edit) root ancestors path = linkTarget tree root ancestors path := by
  unfold linkTarget
  rw [FileTree.resolve_mapFiles]
  cases tree.resolve path with
  | error error => rfl
  | ok place =>
    simp only [FileTree.there_mapFiles]
    rcases tree.root.at? place with _ | ⟨content, readable⟩ | ⟨entries, _ | _⟩ | target <;> rfl

/-- An entry leads to the same when files are changed, whatever is changed in the entry itself. -/
private theorem target_mapFiles (ancestors : List Ancestor) (path : Path) (name : Name) (node : Node) :
    target (tree.mapFiles edit) root ancestors path name (node.mapFiles inner) =
      target tree root ancestors path name node := by
  cases node with
  | file content readable => rfl
  | directory entries readable => rfl
  | link goal => exact linkTarget_mapFiles edit ancestors path

theorem visitBelow_mapFiles (fuel : Nat) (ancestors : List Ancestor) (path : Path) :
    visitBelow (tree.mapFiles edit) excluded root fuel ancestors path =
      visitBelow tree excluded root fuel ancestors path := by
  induction fuel generalizing ancestors path with
  | zero => rfl
  | succ fuel ih =>
    -- The entries are those from before with edits inside them, which no step looks at.
    obtain ⟨inner, listed⟩ := FileTree.list_mapFiles tree edit path
    rw [visitBelow, visitBelow, listed]
    cases tree.list path with
    | error error => rfl
    | ok entries =>
      simp only [Except.map, Node.mapFilesOf_eq_map, List.flatMap_map, target_mapFiles, ih]

/-- Trees that differ in their files only are walked alike. -/
theorem visits_mapFiles : visits (tree.mapFiles edit) excluded root = visits tree excluded root := by
  have steps : mostBranch (tree.mapFiles edit) = mostBranch tree := by
    simp only [mostBranch, FileTree.mapFiles, Node.directoryCount_mapFiles, Node.depth_mapFiles]
  unfold visits
  rw [FileTree.resolve_mapFiles, FileTree.isLink_mapFiles, steps]
  cases tree.resolve root with
  | error error => rfl
  | ok place =>
    simp only [visitBelow_mapFiles, FileTree.there_mapFiles]
    rcases tree.root.at? place with _ | ⟨content, readable⟩ | ⟨entries, _ | _⟩ | target <;> rfl

/-! ## Places -/

theorem Way.found {seen : List Place} {path : Path} {names : List Name} (way : Way tree excluded seen path names) :
    ∃ content readable, tree.node? (path.below names) = .ok (.file content readable) := by
  induction way with
  | file opened member kept found => exact ⟨_, _, found⟩
  | directory opened member kept resolved apart rest ih => exact ih

/-- Without links below a directory, the names on a way below it lead to the place under these names. -/
theorem Way.resolved {seen : List Place} {path : Path} {names : List Name} (way : Way tree excluded seen path names)
    {place : Place} {entries : List (Name × Node)} {readable : Bool} (stands : Stands tree path place entries readable)
    (free : (Node.directory entries readable).isLinkFree = true) :
    tree.resolve (path.below names) = .ok (place ++ names) := by
  have entry {name : Name} {node : Node} {listed : List (Name × Node)} {path : Path} {place : Place}
      {entries : List (Name × Node)} {readable : Bool} (stands : Stands tree path place entries readable)
      (free : (Node.directory entries readable).isLinkFree = true) (opened : tree.list path = .ok listed)
      (member : (name, node) ∈ listed) :
      tree.resolve (path.child name) = .ok (place ++ [name]) ∧ tree.root.at? (place ++ [name]) = some node ∧
        node.isLinkFree = true := by
    obtain ⟨rfl, rfl⟩ := stands.listed opened
    have within : (Node.directory entries true).at? [name] = some node := by
      simp [Node.at?, Node.inner?, (Node.mem_listing_iff entries name node).mp member]
    have inner := Node.isLinkFree_at free within
    obtain ⟨resolved, there⟩ := stands.resolve_entry member fun target same => by
      subst same
      cases inner
    exact ⟨resolved, there, inner⟩
  induction way generalizing place entries readable with
  | file opened member => exact (entry stands free opened member).1
  | @directory seen path listed name node next names opened member kept resolved apart rest ih =>
    obtain ⟨found, there, inner⟩ := entry stands free opened member
    cases resolved.symm.trans found
    -- The rest of the way begins in a directory that can be listed, and it is this entry.
    obtain ⟨_, below⟩ := rest.opened
    obtain ⟨other, below, inside, -⟩ := stands_of_list below
    cases resolved.symm.trans inside.resolved
    cases there.symm.trans inside.there
    rw [Path.below_cons, ih inside inner, List.append_assoc, List.singleton_append]

end Walk

end EnvAudit
