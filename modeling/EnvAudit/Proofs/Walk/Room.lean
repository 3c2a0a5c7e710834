import EnvAudit.Proofs.FileTree.Resolve
import EnvAudit.Walk
import Mathlib.Data.List.Basic

/-! Why a walk ends: each step down a branch leaves less room, so a walk with room enough does not depend on its
bound. -/
namespace EnvAudit

namespace Node

/-! ## Directories of a tree -/

mutual

/-- The places of all directories of a tree. -/
def directories : Node → List Place
  | directory entries _ => [] :: directoriesOf entries
  | _ => []

def directoriesOf : List (Name × Node) → List Place
  | [] => []
  | (name, node) :: rest => (directories node).map (name :: ·) ++ directoriesOf rest

end

mutual

theorem length_directories (node : Node) : node.directories.length = node.directoryCount := by
  cases node with
  | directory entries readable =>
    rw [directories, directoryCount, List.length_cons, length_directoriesOf, Nat.add_comm]
  | file content readable => rfl
  | link target => rfl

theorem length_directoriesOf (entries : List (Name × Node)) :
    (directoriesOf entries).length = directoryCountOf entries := by
  cases entries with
  | nil => rfl
  | cons entry rest =>
    rw [directoriesOf, directoryCountOf, List.length_append, List.length_map, length_directories,
      length_directoriesOf]

end

private theorem mem_directoriesOf {entries : List (Name × Node)} {name : Name} {node : Node} {place : Place}
    (found : entries.lookup name = some node) (member : place ∈ node.directories) :
    name :: place ∈ directoriesOf entries := by
  obtain ⟨before, behind, rfl, -⟩ := List.lookup_eq_some_iff.mp found
  clear found
  induction before with
  | nil => exact List.mem_append_left _ (List.mem_map_of_mem member)
  | cons entry before ih => exact List.mem_append_right _ ih

theorem mem_directories {node : Node} {place : Place} {entries : List (Name × Node)} {readable : Bool}
    (there : node.at? place = some (.directory entries readable)) : place ∈ node.directories := by
  induction place generalizing node with
  | nil =>
    cases Option.some.inj there
    exact List.mem_cons_self
  | cons name rest ih =>
    obtain ⟨next, entered, deeper⟩ := Option.bind_eq_some_iff.mp there
    cases node with
    | directory inner open_ => exact List.mem_cons_of_mem _ (mem_directoriesOf entered (ih deeper))
    | file content readable => simp [inner?] at entered
    | link target => simp [inner?] at entered

private theorem depth_le_depthOf {entries : List (Name × Node)} {name : Name} {node : Node}
    (found : entries.lookup name = some node) : node.depth ≤ depthOf entries := by
  obtain ⟨before, behind, rfl, -⟩ := List.lookup_eq_some_iff.mp found
  clear found
  induction before with
  | nil => exact Nat.le_max_left _ _
  | cons entry before ih => exact Nat.le_trans ih (Nat.le_max_right _ _)

theorem depth_entry {entries : List (Name × Node)} {readable : Bool} {name : Name} {node : Node}
    (found : entries.lookup name = some node) : node.depth < (directory entries readable).depth := by
  have inner := depth_le_depthOf found
  rw [depth]
  omega

theorem depth_at {node inner : Node} {place : Place} (there : node.at? place = some inner) :
    inner.depth ≤ node.depth := by
  induction place generalizing node with
  | nil =>
    cases Option.some.inj there
    exact Nat.le_refl _
  | cons name rest ih =>
    obtain ⟨next, entered, deeper⟩ := Option.bind_eq_some_iff.mp there
    cases node with
    | directory entries readable => exact Nat.le_trans (ih deeper) (Nat.le_of_lt (depth_entry entered))
    | file content readable => simp [inner?] at entered
    | link target => simp [inner?] at entered

end Node

namespace Walk

/-! ## Steps of a walk -/

/-- A path leads to a directory at a place. -/
structure Stands (tree : FileTree) (path : Path) (place : Place) (entries : List (Name × Node)) (readable : Bool) :
    Prop where
  resolved : tree.resolve path = .ok place
  there : tree.root.at? place = some (.directory entries readable)

variable {tree : FileTree} {root path : Path} {place next : Place} {entries : List (Name × Node)} {readable : Bool}
  {others : List Ancestor} {name : Name} {node : Node}

theorem Stands.list_readable (stands : Stands tree path place entries true) :
    tree.list path = .ok (Node.listing entries) :=
  (FileTree.list_eq_ok tree path _).mpr
    ⟨entries, (FileTree.node_eq_ok tree path _).mpr ⟨place, stands.resolved, stands.there⟩, rfl⟩

theorem Stands.list_unreadable (stands : Stands tree path place entries false) : tree.list path = .error .denied := by
  have found := (FileTree.node_eq_ok tree path _).mpr ⟨place, stands.resolved, stands.there⟩
  rw [FileTree.list, found]
  rfl

/-- A directory that can be listed is one that the path leads to. -/
theorem stands_of_list {listed : List (Name × Node)} (opened : tree.list path = .ok listed) :
    ∃ place entries, Stands tree path place entries true ∧ Node.listing entries = listed := by
  obtain ⟨entries, found, same⟩ := (FileTree.list_eq_ok tree path listed).mp opened
  obtain ⟨place, resolved, there⟩ := (FileTree.node_eq_ok tree path _).mp found
  exact ⟨place, entries, ⟨resolved, there⟩, same⟩

/-- What is listed under a path is the listing of the directory that it leads to. -/
theorem Stands.listed {listed : List (Name × Node)} (stands : Stands tree path place entries readable)
    (opened : tree.list path = .ok listed) : readable = true ∧ listed = Node.listing entries := by
  cases readable with
  | true => exact ⟨rfl, Except.ok.inj (opened.symm.trans stands.list_readable)⟩
  | false => cases opened.symm.trans stands.list_unreadable

theorem Stands.isEntry (stands : Stands tree path place entries true) (member : (name, node) ∈ Node.listing entries) :
    Name.isEntry name = true :=
  FileTree.isEntry_of_list stands.list_readable _ member

/-- An entry that is no link lies at its name in the directory. -/
theorem Stands.resolve_entry (stands : Stands tree path place entries true)
    (member : (name, node) ∈ Node.listing entries) (plain : ∀ target, node ≠ .link target) :
    tree.resolve (path.child name) = .ok (place ++ [name]) ∧ tree.root.at? (place ++ [name]) = some node := by
  have found := (Node.mem_listing_iff entries name node).mp member
  exact ⟨FileTree.resolve_child stands.resolved stands.there (stands.isEntry member) found plain,
    (Node.at?_entry stands.there name).trans found⟩

theorem Stands.isLink_entry (stands : Stands tree path place entries true)
    (member : (name, node) ∈ Node.listing entries) :
    tree.isLink (path.child name) = true ↔ ∃ target, node = .link target :=
  FileTree.isLink_child stands.resolved stands.there (stands.isEntry member)
    ((Node.mem_listing_iff entries name node).mp member)

/-- What a link leads to, when it can be visited. -/
private theorem linkTarget_file {ancestors : List Ancestor} :
    linkTarget tree root ancestors path = .file ↔
      ∃ content readable, tree.node? path = .ok (.file content readable) := by
  unfold linkTarget
  cases resolved : tree.resolve path with
  | error error => simp [FileTree.node_eq_ok, resolved]
  | ok place =>
    obtain ⟨node, there, noLink⟩ := FileTree.holds_of_resolve resolved
    simp only [FileTree.node_eq_ok, resolved, Except.ok.injEq, exists_eq_left', there, Option.some.injEq]
    cases node with
    | link target => exact absurd rfl (noLink target)
    | file content readable => simp
    | directory entries readable =>
      cases readable with
      | false => simp
      | true =>
        dsimp only
        split <;> simp

/-- No directory that the walk is in lies at a place. -/
private theorem find?_ancestor_eq_none (ancestors : List Ancestor) (place : Place) :
    (ancestors.find? fun ancestor => ancestor.place = place) = none ↔ place ∉ ancestors.map Ancestor.place := by
  simp only [List.find?_eq_none, decide_eq_true_eq, List.mem_map, not_exists, not_and]

private theorem linkTarget_directory {ancestors : List Ancestor} :
    linkTarget tree root ancestors path = .directory next ↔
      (∃ entries, Stands tree path next entries true) ∧ next ∉ ancestors.map Ancestor.place := by
  rw [← find?_ancestor_eq_none]
  unfold linkTarget
  cases resolved : tree.resolve path with
  | error error =>
    simp only [reduceCtorEq, false_iff, not_and]
    rintro ⟨entries, stands⟩
    cases resolved.symm.trans stands.resolved
  | ok place =>
    have stands_iff (entries : List (Name × Node)) :
        Stands tree path next entries true ↔ place = next ∧ tree.root.at? next = some (.directory entries true) := by
      constructor
      · intro stands
        exact ⟨Except.ok.inj (resolved.symm.trans stands.resolved), stands.there⟩
      · rintro ⟨rfl, there⟩
        exact ⟨resolved, there⟩
    simp only [stands_iff]
    obtain ⟨node, there, noLink⟩ := FileTree.holds_of_resolve resolved
    rw [there]
    cases node with
    | link target => exact absurd rfl (noLink target)
    | file content readable =>
      simp only [reduceCtorEq, false_iff]
      rintro ⟨⟨entries, rfl, other⟩, -⟩
      cases there.symm.trans other
    | directory entries readable =>
      cases readable with
      | false =>
        simp only [reduceCtorEq, false_iff]
        rintro ⟨⟨inner, rfl, other⟩, -⟩
        cases there.symm.trans other
      | true =>
        dsimp only
        split
        next ancestor loop =>
          -- The walk is in this directory already.
          simp only [reduceCtorEq, false_iff]
          rintro ⟨⟨inner, rfl, -⟩, apart⟩
          cases loop.symm.trans apart
        next apart =>
          constructor
          · rintro ⟨⟩
            exact ⟨⟨entries, rfl, there⟩, apart⟩
          · rintro ⟨⟨inner, rfl, -⟩, -⟩
            rfl

/-- An entry is visited as a file when its path leads to one. -/
theorem target_file (stands : Stands tree path place entries true) (member : (name, node) ∈ Node.listing entries)
    (ancestors : List Ancestor) :
    target tree root ancestors (path.child name) name node = .file ↔
      ∃ content readable, tree.node? (path.child name) = .ok (.file content readable) := by
  cases node with
  | link target => exact linkTarget_file
  | file content readable =>
    obtain ⟨resolved, there⟩ := stands.resolve_entry member (by simp)
    simp [target, FileTree.node_eq_ok, resolved, there]
  | directory inner readable =>
    obtain ⟨resolved, there⟩ := stands.resolve_entry member (by simp)
    simp [target, FileTree.node_eq_ok, resolved, there]

/-- An entry is visited as a directory when it is one, or a link to one that the walk is not in. -/
theorem target_directory :
    target tree root (⟨path, place⟩ :: others) (path.child name) name node = .directory next ↔
      (∃ inner open_, node = .directory inner open_ ∧ next = place ++ [name]) ∨
        (∃ target, node = .link target) ∧ (∃ inner, Stands tree (path.child name) next inner true) ∧
          next ∉ (⟨path, place⟩ :: others).map Ancestor.place := by
  cases node with
  | link goal =>
    rw [target, linkTarget_directory]
    simp
  | file content readable => simp [target]
  | directory inner readable => simp [target, eq_comm]

/-- Behind a step over a directory the walk stands in it. -/
theorem Stands.step (stands : Stands tree path place entries true) (member : (name, node) ∈ Node.listing entries)
    (led : target tree root (⟨path, place⟩ :: others) (path.child name) name node = .directory next) :
    ∃ inner open_, Stands tree (path.child name) next inner open_ := by
  rcases target_directory.mp led with ⟨inner, open_, rfl, rfl⟩ | ⟨-, ⟨inner, inside⟩, -⟩
  · obtain ⟨resolved, there⟩ := stands.resolve_entry member (by simp)
    exact ⟨inner, open_, resolved, there⟩
  · exact ⟨inner, true, inside⟩

/-- A walk begins in the directory that its root leads to. -/
theorem Stands.visits {excluded : Name → Bool} (stands : Stands tree root place entries true) :
    visits tree excluded root = .ok (visitBelow tree excluded root (mostBranch tree) [⟨root, place⟩] root) := by
  simp only [Walk.visits, stands.resolved, stands.there, if_true]

/-- What a walk visits of one entry. -/
def visitEntry (tree : FileTree) (excluded : Name → Bool) (root : Path) (fuel : Nat) (ancestors : List Ancestor)
    (path : Path) (entry : Name × Node) : List Visit :=
  match target tree root ancestors (path.child entry.1) entry.1 entry.2 with
  | .failed failing message => [.failed failing message]
  | .file => if excluded entry.1 then [] else [.file (path.child entry.1)]
  | .directory place =>
    if excluded entry.1 then []
    else visitBelow tree excluded root fuel (⟨path.child entry.1, place⟩ :: ancestors) (path.child entry.1)

theorem visitBelow_listed {excluded : Name → Bool} {listed : List (Name × Node)} (opened : tree.list path = .ok listed)
    (fuel : Nat) (ancestors : List Ancestor) :
    visitBelow tree excluded root (fuel + 1) ancestors path =
      listed.flatMap (visitEntry tree excluded root fuel ancestors path) := by
  rw [visitBelow, opened]
  rfl

theorem visitBelow_readable {excluded : Name → Bool} (stands : Stands tree path place entries true) (fuel : Nat)
    (ancestors : List Ancestor) :
    visitBelow tree excluded root (fuel + 1) ancestors path =
      (Node.listing entries).flatMap (visitEntry tree excluded root fuel ancestors path) :=
  visitBelow_listed stands.list_readable fuel ancestors

/-! ## Room -/

/-- A bound on the rest of a branch: every directory that a link can still lead to allows for a way down, and so
does the directory itself. -/
def room (tree : FileTree) (ancestors : List Ancestor) (node : Node) : Nat :=
  (tree.root.directories.filter fun place => place ∉ ancestors.map Ancestor.place).length * tree.root.depth + node.depth

theorem room_start (tree : FileTree) (ancestors : List Ancestor) {node : Node} {place : Place}
    (there : tree.root.at? place = some node) : room tree ancestors node ≤ mostBranch tree := by
  have fewer : (tree.root.directories.filter fun place => place ∉ ancestors.map Ancestor.place).length ≤
      tree.root.directoryCount := by
    rw [← Node.length_directories]
    exact List.length_filter_le _ _
  have product := Nat.mul_le_mul_right tree.root.depth fewer
  have deep := Node.depth_at there
  rw [room, mostBranch, Nat.succ_mul, Nat.mul_succ]
  omega

/-- At the root of a walk, one directory is on the branch already. -/
theorem room_root (stands : Stands tree path place entries readable) :
    room tree [⟨path, place⟩] (.directory entries readable) ≤ tree.root.directoryCount * tree.root.depth := by
  let free := tree.root.directories.filter fun other => other ∉ [Ancestor.mk path place].map Ancestor.place
  have taken : place ∈ tree.root.directories := Node.mem_directories stands.there
  have fewer : free.length + 1 ≤ tree.root.directoryCount := by
    rw [← Node.length_directories]
    exact List.length_filter_lt_length_iff_exists.mpr ⟨place, taken, by simp⟩
  have product := Nat.mul_le_mul_right tree.root.depth fewer
  have deep := Node.depth_at stands.there
  rw [Nat.succ_mul] at product
  change free.length * _ + _ ≤ _
  omega

theorem room_pos (tree : FileTree) (ancestors : List Ancestor) (entries : List (Name × Node)) (readable : Bool) :
    0 < room tree ancestors (.directory entries readable) := by
  rw [room, Node.depth]
  omega

/-- A step takes room: a step down leaves a lower directory, and a step over a link one place less to come to. -/
theorem room_step (root : Path) {inner : List (Name × Node)} {open_ : Bool}
    (stands : Stands tree path place entries true) (member : (name, node) ∈ Node.listing entries)
    (led : target tree root (⟨path, place⟩ :: others) (path.child name) name node = .directory next)
    (inside : Stands tree (path.child name) next inner open_) :
    room tree (⟨path.child name, next⟩ :: ⟨path, place⟩ :: others) (.directory inner open_) <
      room tree (⟨path, place⟩ :: others) (.directory entries true) := by
  let free (ancestors : List Ancestor) : List Place :=
    tree.root.directories.filter fun place => place ∉ ancestors.map Ancestor.place
  have split : free (⟨path.child name, next⟩ :: ⟨path, place⟩ :: others) =
      (free (⟨path, place⟩ :: others)).filter fun place => place ≠ next := by
    simp only [free, List.filter_filter]
    apply List.filter_congr
    intro other _
    simp
  change (free _).length * _ + _ < (free _).length * _ + _
  rw [split]
  rcases target_directory.mp led with ⟨below, closed, rfl, rfl⟩ | ⟨-, -, apart⟩
  · obtain ⟨-, there⟩ := stands.resolve_entry member (by simp)
    cases there.symm.trans inside.there
    have fewer := Nat.mul_le_mul_right tree.root.depth
      (List.length_filter_le (· ≠ place ++ [name]) (free (⟨path, place⟩ :: others)))
    have lower : (Node.directory inner open_).depth < (Node.directory entries true).depth :=
      Node.depth_entry ((Node.mem_listing_iff entries name _).mp member)
    omega
  · have possible : next ∈ free (⟨path, place⟩ :: others) :=
      List.mem_filter.mpr ⟨Node.mem_directories inside.there, decide_eq_true apart⟩
    have fewer : ((free (⟨path, place⟩ :: others)).filter fun place => place ≠ next).length + 1 ≤
        (free (⟨path, place⟩ :: others)).length := by
      exact List.length_filter_lt_length_iff_exists.mpr ⟨next, possible, by simp⟩
    have product := Nat.mul_le_mul_right tree.root.depth fewer
    rw [Nat.succ_mul] at product
    have deep := Node.depth_at inside.there
    have positive : 0 < (Node.directory entries true).depth := by
      rw [Node.depth]
      omega
    omega

end Walk

end EnvAudit
