import EnvAudit.ProjectFiles
import EnvAudit.Proofs.Walk.Reach
import Mathlib

/-!
# Branches

How many directories a walk can be in at once. No link is followed to a directory of the branch, so the links of a branch
lead to different directories; between two links it only goes down. A directory that is an entry itself is not tested,
and may be on the branch already.
-/
namespace EnvAudit

namespace Walk

/-- A branch that a walk can follow from its root: the directories that it is in, the innermost first. -/
inductive Branch (tree : FileTree) (root : Path) : List Ancestor → Prop
  | start {place : Place} {entries : List (Name × Node)} {readable : Bool}
      (stands : Stands tree root place entries readable) : Branch tree root [⟨root, place⟩]
  | enter {path : Path} {place next : Place} {others : List Ancestor} {listed : List (Name × Node)} {name : Name}
      {node : Node} (branch : Branch tree root (⟨path, place⟩ :: others)) (opened : tree.list path = .ok listed)
      (member : (name, node) ∈ listed)
      (led : target tree root (⟨path, place⟩ :: others) (path.child name) name node = .directory next) :
      Branch tree root (⟨path.child name, next⟩ :: ⟨path, place⟩ :: others)

variable {tree : FileTree} {root path : Path} {place : Place} {entries : List (Name × Node)} {readable : Bool}
  {others : List Ancestor}

/-- A step down a branch enters a directory and takes room. -/
private theorem step_room {name : Name} {node : Node} {next : Place} (stands : Stands tree path place entries true)
    (member : (name, node) ∈ Node.listing entries)
    (led : target tree root (⟨path, place⟩ :: others) (path.child name) name node = .directory next) :
    ∃ inner open_, Stands tree (path.child name) next inner open_ ∧
      room tree (⟨path.child name, next⟩ :: ⟨path, place⟩ :: others) (.directory inner open_) <
        room tree (⟨path, place⟩ :: others) (.directory entries true) := by
  obtain ⟨inner, open_, inside⟩ := stands.step member led
  exact ⟨inner, open_, inside, room_step root stands member led inside⟩

/-- The length of a branch and the room that it leaves do not exceed the room at the root. -/
private theorem length_add_room {ancestors : List Ancestor} (branch : Branch tree root ancestors) :
    ∃ path place others entries readable, ancestors = ⟨path, place⟩ :: others ∧
      Stands tree path place entries readable ∧
      ancestors.length + room tree ancestors (.directory entries readable) ≤
        tree.root.directoryCount * tree.root.depth + 1 := by
  -- By induction from the root down: what a directory adds to the length, it takes from the room.
  induction branch with
  | @start place entries readable stands =>
    refine ⟨root, place, [], entries, readable, rfl, stands, ?_⟩
    have start := room_root stands
    simp only [List.length_singleton]
    omega
  | @enter path place next others listed name node branch opened member led ih =>
    obtain ⟨_, _, _, entries, _, ⟨⟩, stands, bound⟩ := ih
    obtain ⟨rfl, rfl⟩ := stands.listed opened
    obtain ⟨inner, open_, inside, less⟩ := step_room stands member led
    refine ⟨_, _, _, inner, open_, rfl, inside, ?_⟩
    rw [List.length_cons]
    omega

theorem length_le_of_branch {ancestors : List Ancestor} (branch : Branch tree root ancestors) :
    ancestors.length ≤ tree.root.directoryCount * tree.root.depth := by
  obtain ⟨path, place, others, entries, readable, -, -, bound⟩ := length_add_room branch
  have left := room_pos tree ancestors entries readable
  omega

/-- With room enough a walk does not depend on the bound of its branches. -/
theorem visitBelow_of_room (excluded : Name → Bool) (stands : Stands tree path place entries readable)
    {bound other : Nat} (enough : room tree (⟨path, place⟩ :: others) (.directory entries readable) ≤ bound)
    (alsoEnough : room tree (⟨path, place⟩ :: others) (.directory entries readable) ≤ other) :
    visitBelow tree excluded root bound (⟨path, place⟩ :: others) path =
      visitBelow tree excluded root other (⟨path, place⟩ :: others) path := by
  -- Both bounds stay above the room, which shrinks with every directory that is entered; so neither runs out.
  induction bound generalizing other path place entries readable others with
  | zero => exact absurd enough (Nat.not_le_of_lt (room_pos ..))
  | succ bound ih =>
    obtain ⟨other, rfl⟩ := Nat.exists_eq_add_one.mpr (Nat.lt_of_lt_of_le (room_pos ..) alsoEnough)
    cases readable with
    | false => simp only [visitBelow, stands.list_unreadable]
    | true =>
      simp only [visitBelow, stands.list_readable]
      refine List.flatMap_congr fun entry member => ?_
      obtain ⟨name, node⟩ := entry
      dsimp only
      split
      next => rfl
      next => rfl
      next next led =>
        obtain ⟨inner, open_, inside, less⟩ := step_room stands member led
        let branch : List Ancestor := ⟨path.child name, next⟩ :: ⟨path, place⟩ :: others
        have same : visitBelow tree excluded root bound branch (path.child name) =
            visitBelow tree excluded root other branch (path.child name) := ih inside (by omega) (by omega)
        rw [same]

end Walk

namespace ProjectFiles

open Walk

/-- A walk ends whatever links there are. A branch that it can follow has at most `D * H` directories, where the tree has
`D` of them and `H` lie inside each other at most; and the walk that gathers files may be given any bound from there on,
so the one that it is given does not cut it off. -/
theorem gather_ends (tree : FileTree) (root : Path) (exclude : List String) :
    (∀ branch, Branch tree root branch → branch.length ≤ tree.root.directoryCount * tree.root.depth) ∧
      ((∃ message, gather tree root exclude = .error (.traversal root message)) ∨
        ∃ place, tree.resolve root = .ok place ∧
          ∀ bound, tree.root.directoryCount * tree.root.depth ≤ bound →
            gather tree root exclude =
              .ok (ofVisits (visitBelow tree (isExcluded exclude) root bound [⟨root, place⟩] root))) := by
  refine ⟨fun branch => length_le_of_branch, ?_⟩
  unfold gather
  cases walked : visits tree (isExcluded exclude) root with
  | error message => exact .inl ⟨message, rfl⟩
  | ok found =>
    obtain ⟨place, entries, stands, rfl⟩ := stands_of_visits walked
    refine .inr ⟨place, stands.resolved, fun bound enough => ?_⟩
    have room := room_root stands
    exact congrArg (fun found => Except.ok (ofVisits found))
      (visitBelow_of_room _ stands (room_start tree _ stands.there) (Nat.le_trans room enough))

/-- A link in the root to a directory above it. -/
def climbing : FileTree where
  root := .directory
    [(Text.Utf8.encode "a", .directory
      [(Text.Utf8.encode "b", .directory [(Text.Utf8.encode "up", .link (Path.ofString "../.."))] true)] true)] true
  here := [Text.Utf8.encode "a", Text.Utf8.encode "b"]
  wellNamed := by cbv

/-- The branch over the link and down to the root again, the innermost directory first. -/
def climb : List Ancestor :=
  let up := (Path.ofString ".").child (Text.Utf8.encode "up")
  let down := up.child (Text.Utf8.encode "a")
  [⟨down.child (Text.Utf8.encode "b"), [Text.Utf8.encode "a", Text.Utf8.encode "b"]⟩, ⟨down, [Text.Utf8.encode "a"]⟩,
    ⟨up, []⟩, ⟨Path.ofString ".", [Text.Utf8.encode "a", Text.Utf8.encode "b"]⟩]

private theorem stands_climbing : Stands climbing (Path.ofString ".") [Text.Utf8.encode "a", Text.Utf8.encode "b"]
    [(Text.Utf8.encode "up", .link (Path.ofString "../.."))] true where
  resolved := by cbv
  there := by cbv

private theorem branch_climb : Branch climbing (Path.ofString ".") climb := by
  have resolved : climbing.resolve ((Path.ofString ".").child (Text.Utf8.encode "up")) = .ok [] := by cbv
  obtain ⟨entries, top⟩ : ∃ entries, climbing.root.at? [] = some (.directory entries true) := ⟨_, rfl⟩
  have above : Stands climbing ((Path.ofString ".").child (Text.Utf8.encode "up")) [] entries true := ⟨resolved, top⟩
  cases top
  have linked := Branch.enter (.start stands_climbing) stands_climbing.list_readable
    ((Node.mem_listing_iff _ _ _).mpr rfl)
    (target_directory.mpr (.inr ⟨⟨_, rfl⟩, ⟨_, above⟩, by decide⟩))
  -- Behind the link nothing is tested: the walk goes down from above its root, and comes to the root.
  let inner : List (Name × Node) :=
    [(Text.Utf8.encode "b", .directory [(Text.Utf8.encode "up", .link (Path.ofString "../.."))] true)]
  have member : (Text.Utf8.encode "a", .directory inner true) ∈
      Node.listing [(Text.Utf8.encode "a", .directory inner true)] := (Node.mem_listing_iff _ _ _).mpr rfl
  have down := Branch.enter linked above.list_readable member rfl
  obtain ⟨inside, there⟩ := above.resolve_entry member (by simp)
  exact .enter down (Stands.list_readable ⟨inside, there⟩) ((Node.mem_listing_iff _ _ _).mpr rfl) rfl

/-- The root is twice on a branch below it, for the walk comes to it again as an entry; the walk ends nevertheless. -/
theorem gather_ends_climbing :
    Branch climbing (Path.ofString ".") climb ∧
      climb.map Ancestor.place =
        [[Text.Utf8.encode "a", Text.Utf8.encode "b"], [Text.Utf8.encode "a"], [],
          [Text.Utf8.encode "a", Text.Utf8.encode "b"]] ∧
      climb.length ≤ 3 * 3 ∧
      gather climbing (Path.ofString ".") [] = .ok (ofVisits
        (visitBelow climbing (isExcluded []) (Path.ofString ".") (3 * 3)
          [⟨Path.ofString ".", [Text.Utf8.encode "a", Text.Utf8.encode "b"]⟩] (Path.ofString "."))) := by
  obtain ⟨short, ended⟩ := gather_ends climbing (Path.ofString ".") []
  refine ⟨branch_climb, rfl, short climb branch_climb, ?_⟩
  rcases ended with ⟨message, failed⟩ | ⟨place, resolved, ended⟩
  · rw [gather, stands_climbing.visits] at failed
    cases failed
  · cases stands_climbing.resolved.symm.trans resolved
    exact ended (3 * 3) (by decide)

end ProjectFiles

end EnvAudit
