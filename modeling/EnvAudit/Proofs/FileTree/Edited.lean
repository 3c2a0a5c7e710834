import EnvAudit.Proofs.Walk.Agree

/-! Trees in which some files are edited. Nothing else changes: paths lead to the same places, and directories list the
same names. -/
namespace EnvAudit

namespace Node

mutual

/-- Changes the files of a tree, each by its place. -/
def mapFiles (edit : Place → FileData → FileData) : Node → Node
  | file content readable => file (edit [] (content, readable)).1 (edit [] (content, readable)).2
  | directory entries readable => directory (mapFilesOf edit entries) readable
  | link target => link target

def mapFilesOf (edit : Place → FileData → FileData) : List (Name × Node) → List (Name × Node)
  | [] => []
  | (name, node) :: rest => (name, mapFiles (fun place => edit (name :: place)) node) :: mapFilesOf edit rest

end

mutual

theorem isWellNamed_mapFiles (edit : Place → FileData → FileData) (node : Node) :
    (node.mapFiles edit).isWellNamed = node.isWellNamed := by
  cases node with
  | directory entries readable => exact areWellNamed_mapFilesOf edit entries
  | file content readable => rfl
  | link target => rfl

theorem areWellNamed_mapFilesOf (edit : Place → FileData → FileData) (entries : List (Name × Node)) :
    areWellNamed (mapFilesOf edit entries) = areWellNamed entries := by
  cases entries with
  | nil => rfl
  | cons entry rest =>
    rw [mapFilesOf, areWellNamed, areWellNamed, isWellNamed_mapFiles, areWellNamed_mapFilesOf]

end

mutual

theorem directoryCount_mapFiles (edit : Place → FileData → FileData) (node : Node) :
    (node.mapFiles edit).directoryCount = node.directoryCount := by
  cases node with
  | directory entries readable => exact congrArg (1 + ·) (directoryCountOf_mapFilesOf edit entries)
  | file content readable => rfl
  | link target => rfl

theorem directoryCountOf_mapFilesOf (edit : Place → FileData → FileData) (entries : List (Name × Node)) :
    directoryCountOf (mapFilesOf edit entries) = directoryCountOf entries := by
  cases entries with
  | nil => rfl
  | cons entry rest =>
    rw [mapFilesOf, directoryCountOf, directoryCountOf, directoryCount_mapFiles, directoryCountOf_mapFilesOf]

end

mutual

theorem depth_mapFiles (edit : Place → FileData → FileData) (node : Node) :
    (node.mapFiles edit).depth = node.depth := by
  cases node with
  | directory entries readable => exact congrArg (1 + ·) (depthOf_mapFilesOf edit entries)
  | file content readable => rfl
  | link target => rfl

theorem depthOf_mapFilesOf (edit : Place → FileData → FileData) (entries : List (Name × Node)) :
    depthOf (mapFilesOf edit entries) = depthOf entries := by
  cases entries with
  | nil => rfl
  | cons entry rest => rw [mapFilesOf, depthOf, depthOf, depth_mapFiles, depthOf_mapFilesOf]

end

theorem mapFilesOf_eq_map (edit : Place → FileData → FileData) (entries : List (Name × Node)) :
    mapFilesOf edit entries =
      entries.map fun entry => (entry.1, entry.2.mapFiles fun place => edit (entry.1 :: place)) := by
  induction entries with
  | nil => rfl
  | cons entry rest ih => rw [mapFilesOf, ih, List.map_cons]

private theorem firstOfEach_map (change : Name → Node → Node) (entries : List (Name × Node)) :
    firstOfEach (entries.map fun entry => (entry.1, change entry.1 entry.2)) =
      (firstOfEach entries).map fun entry => (entry.1, change entry.1 entry.2) := by
  induction entries using firstOfEach.induct with
  | case1 first second rest same ih =>
    rw [firstOfEach, if_pos same, ← ih, List.map_cons, List.map_cons, firstOfEach, if_pos same, List.map_cons]
  | case2 first second rest differ ih =>
    rw [List.map_cons] at ih
    rw [List.map_cons, List.map_cons, firstOfEach, if_neg differ, ih, firstOfEach, if_neg differ, List.map_cons]
  | case3 short isShort =>
    rcases short with _ | ⟨only, _ | ⟨second, rest⟩⟩
    · simp [firstOfEach]
    · simp [firstOfEach]
    · exact absurd rfl (isShort only second rest)

/-- The names of a directory stand in their order whatever is in its files. -/
theorem listing_mapFilesOf (edit : Place → FileData → FileData) (entries : List (Name × Node)) :
    listing (mapFilesOf edit entries) = mapFilesOf edit (listing entries) := by
  rw [mapFilesOf_eq_map, mapFilesOf_eq_map, listing, listing,
    ← List.map_mergeSort (r := fun left right => decide (left.1 ≤ right.1)) fun _ _ _ _ => rfl]
  exact firstOfEach_map (fun name node => node.mapFiles fun place => edit (name :: place)) _

theorem lookup_mapFilesOf (edit : Place → FileData → FileData) (entries : List (Name × Node)) (name : Name) :
    (mapFilesOf edit entries).lookup name =
      (entries.lookup name).map (mapFiles fun place => edit (name :: place)) := by
  induction entries with
  | nil => rfl
  | cons entry rest ih =>
    rw [mapFilesOf, List.lookup_cons, List.lookup_cons]
    cases same : name == entry.1 with
    | true =>
      rw [eq_of_beq same]
      rfl
    | false => exact ih

theorem at?_mapFiles (edit : Place → FileData → FileData) (node : Node) (place : Place) :
    (node.mapFiles edit).at? place = (node.at? place).map (mapFiles fun names => edit (place ++ names)) := by
  induction place generalizing edit node with
  | nil => rfl
  | cons name rest ih =>
    cases node with
    | file content readable => rfl
    | link target => rfl
    | directory entries readable =>
      rw [mapFiles, at?, at?, inner?, inner?, lookup_mapFilesOf]
      cases entries.lookup name with
      | none => rfl
      | some next => exact ih (fun place => edit (name :: place)) next

end Node

namespace FileTree

open Node (FileData)

/-- Paths lead to the same places when files are changed. -/
theorem follow_mapFiles (edit : Place → FileData → FileData) (root : Node) (links : Nat) (place : Place)
    (parts : List Path.Part) (last : Bool) :
    follow (root.mapFiles edit) links place parts last = follow root links place parts last := by
  have there_ {place : Place} {node : Node} (there : root.at? place = some node) :
      (root.mapFiles edit).at? place = some (node.mapFiles fun names => edit (place ++ names)) := by
    rw [Node.at?_mapFiles, there]
    rfl
  -- Along the walk itself: each step turns on the kind of a node and on names, and an edit keeps both.
  induction links, place, parts using follow.induct root last with
  | case1 links place => simp only [follow]
  | case2 links place rest entries readable there ih =>
    simpa only [follow, there, there_ there, Node.mapFiles] using ih
  | case3 links place part rest entries some_ there =>
    rw [follow_denied there some_, follow_denied (there_ there) some_]
  | case4 links place rest entries there ih =>
    simpa only [follow, there, there_ there, Node.mapFiles] using ih
  | case5 links place rest entries there ih =>
    simpa only [follow, there, there_ there, Node.mapFiles] using ih
  | case6 links place rest entries name absent there =>
    simp only [follow, there, there_ there, Node.mapFiles, Node.lookup_mapFilesOf, absent, Option.map_none]
  | case7 links place rest entries name target found ends there =>
    simp only [follow, there, there_ there, Node.mapFiles, Node.lookup_mapFilesOf, found, Option.map_some, if_pos ends]
  | case8 place rest entries name target found goesOn there =>
    simp only [follow, there, there_ there, Node.mapFiles, Node.lookup_mapFilesOf, found, Option.map_some,
      if_neg goesOn]
  | case9 place rest entries name target found goesOn links there ih =>
    simpa only [follow, there, there_ there, Node.mapFiles, Node.lookup_mapFilesOf, found, Option.map_some,
      if_neg goesOn] using ih
  | case10 links place rest entries name node plain found there ih =>
    cases node with
    | link target => exact absurd rfl (plain target)
    | file content readable =>
      simpa only [follow, there, there_ there, Node.mapFiles, Node.lookup_mapFilesOf, found, Option.map_some] using ih
    | directory inner readable =>
      simpa only [follow, there, there_ there, Node.mapFiles, Node.lookup_mapFilesOf, found, Option.map_some] using ih
  | case11 links place part rest content readable there =>
    simp only [follow, there, there_ there, Node.mapFiles]
  | case12 links place part rest noDirectory noFile =>
    cases there : root.at? place with
    | none =>
      have missing : (root.mapFiles edit).at? place = none := by rw [Node.at?_mapFiles, there]; rfl
      simp only [follow, there, missing]
    | some node =>
      cases node with
      | directory entries readable => exact absurd there (noDirectory entries readable)
      | file content readable => exact absurd there (noFile content readable)
      | link target => simp only [follow, there, there_ there, Node.mapFiles]

/-- The tree in which files are changed, each by its place. -/
def mapFiles (tree : FileTree) (edit : Place → FileData → FileData) : FileTree where
  root := tree.root.mapFiles edit
  here := tree.here
  wellNamed := by rw [Node.isWellNamed_mapFiles, tree.wellNamed]

/-- The tree in which the files that some paths lead to are empty and can be read. -/
def emptied (tree : FileTree) (paths : List Path) : FileTree where
  root := tree.root.mapFiles fun place file =>
    if ∃ path ∈ paths, tree.resolve path = .ok place then (⟨#[]⟩, true) else file
  here := tree.here
  wellNamed := by rw [Node.isWellNamed_mapFiles, tree.wellNamed]

/-- The tree in which the file that a path leads to goes on with some bytes. -/
def appended (tree : FileTree) (path : Path) (bytes : Bytes) : FileTree :=
  tree.mapFiles fun place file => if tree.resolve path = .ok place then (⟨file.1.data ++ bytes⟩, file.2) else file

/-- The tree in which the file at a place can be read and has another content. -/
def refilled (tree : FileTree) (place : Place) (content : ByteArray) : FileTree :=
  tree.mapFiles fun other file => if other = place then (content, true) else file

variable (tree : FileTree) (edit : Place → FileData → FileData) (path : Path)

theorem there_mapFiles (place : Place) : (tree.mapFiles edit).root.at? place =
    (tree.root.at? place).map (Node.mapFiles fun names => edit (place ++ names)) :=
  Node.at?_mapFiles edit tree.root place

theorem resolve_mapFiles : (tree.mapFiles edit).resolve path = tree.resolve path := by
  rw [resolve_eq, resolve_eq]
  simp only [mapFiles, follow_mapFiles]

theorem isLink_mapFiles : (tree.mapFiles edit).isLink path = tree.isLink path := by
  have entry : (tree.mapFiles edit).resolveEntry path = tree.resolveEntry path := by
    rw [resolveEntry_eq, resolveEntry_eq]
    simp only [mapFiles, follow_mapFiles]
  unfold isLink
  rw [entry]
  cases tree.resolveEntry path with
  | error error => rfl
  | ok place =>
    simp only [there_mapFiles]
    cases tree.root.at? place with
    | none => rfl
    | some node => cases node <;> rfl

/-- A path leads to what it led to before, with its files changed. -/
theorem node_mapFiles : ∃ inner, (tree.mapFiles edit).node? path = (tree.node? path).map (Node.mapFiles inner) := by
  unfold node?
  rw [resolve_mapFiles]
  cases tree.resolve path with
  | error error => exact ⟨edit, rfl⟩
  | ok place =>
    refine ⟨fun names => edit (place ++ names), ?_⟩
    simp only [bind, Except.bind, there_mapFiles]
    cases tree.root.at? place <;> rfl

theorem list_mapFiles : ∃ inner, (tree.mapFiles edit).list path = (tree.list path).map (Node.mapFilesOf inner) := by
  obtain ⟨inner, changed⟩ := node_mapFiles tree edit path
  refine ⟨inner, ?_⟩
  unfold list
  rw [changed]
  cases tree.node? path with
  | error error => rfl
  | ok node =>
    cases node with
    | file content readable => rfl
    | link target => rfl
    | directory entries readable =>
      cases readable with
      | false => rfl
      | true => exact congrArg Except.ok (Node.listing_mapFilesOf inner entries)

end FileTree

end EnvAudit
