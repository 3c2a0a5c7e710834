import EnvAudit.Proofs.Walk.Room
import EnvAudit.Proofs.FileTree
import Mathlib.Data.List.Forall2

/-! Walks of two trees that agree but for what is excluded visit the same paths. -/
namespace EnvAudit

namespace Node

mutual

/-- Whether there are no links in a tree. -/
def isLinkFree : Node → Bool
  | file .. => true
  | directory entries _ => areLinkFree entries
  | link _ => false

def areLinkFree : List (Name × Node) → Bool
  | [] => true
  | (_, node) :: rest => isLinkFree node && areLinkFree rest

end

private theorem isLinkFree_entry {entries : List (Name × Node)} {name : Name} {node : Node}
    (free : areLinkFree entries = true) (found : entries.lookup name = some node) : node.isLinkFree = true := by
  obtain ⟨before, behind, rfl, -⟩ := List.lookup_eq_some_iff.mp found
  clear found
  induction before with
  | nil => exact (Bool.and_eq_true_iff.mp free).1
  | cons entry before ih => exact ih (Bool.and_eq_true_iff.mp free).2

theorem isLinkFree_at {node inner : Node} {place : Place} (free : node.isLinkFree = true)
    (there : node.at? place = some inner) : inner.isLinkFree = true := by
  induction place generalizing node with
  | nil =>
    cases Option.some.inj there
    exact free
  | cons name rest ih =>
    obtain ⟨next, entered, deeper⟩ := Option.bind_eq_some_iff.mp there
    cases node with
    | directory entries readable => exact ih (isLinkFree_entry free entered) deeper
    | file content readable => simp [inner?] at entered
    | link target => simp [inner?] at entered

/-- The content of a file, and whether it can be read. -/
abbrev FileData := ByteArray × Bool

/-- What two trees have at one place is alike: nothing, files as told by `same`, or directories of the same names
that both can be listed or both cannot. -/
inductive Alike (same : FileData → FileData → Prop) : Option Node → Option Node → Prop
  | nothing : Alike same none none
  | file {left right : FileData} (agree : same left right) :
      Alike same (some (.file left.1 left.2)) (some (.file right.1 right.2))
  | directory {left right : List (Name × Node)} (readable : Bool)
      (names : ∀ name, (left.lookup name).isSome = (right.lookup name).isSome) :
      Alike same (some (.directory left readable)) (some (.directory right readable))

/-- Two trees are alike at every place that no excluded name leads to; of files `same` tells that, by the names. -/
def AgreeBelow (excluded : Name → Bool) (same : List Name → FileData → FileData → Prop) (left right : Node) : Prop :=
  ∀ names : List Name, (∀ name ∈ names, excluded name = false) → Alike (same names) (left.at? names) (right.at? names)

/-- What a path leads to agrees in two trees: the same error, or trees that agree. -/
inductive AgreeFrom (excluded : Name → Bool) (same : List Name → FileData → FileData → Prop) :
    Except SystemError Node → Except SystemError Node → Prop
  | failed (error : SystemError) : AgreeFrom excluded same (.error error) (.error error)
  | found {left right : Node} (agree : AgreeBelow excluded same left right) :
      AgreeFrom excluded same (.ok left) (.ok right)

theorem AgreeBelow.entry {excluded : Name → Bool} {same : List Name → FileData → FileData → Prop}
    {leftEntries rightEntries : List (Name × Node)} {leftReadable rightReadable : Bool} {name : Name}
    {left right : Node}
    (agree : AgreeBelow excluded same (.directory leftEntries leftReadable) (.directory rightEntries rightReadable))
    (kept : excluded name = false) (leftFound : leftEntries.lookup name = some left)
    (rightFound : rightEntries.lookup name = some right) :
    AgreeBelow excluded (fun names => same (name :: names)) left right := by
  intro names keptAll
  have inner := agree (name :: names) (List.forall_mem_cons.mpr ⟨kept, keptAll⟩)
  simpa [at?, inner?, leftFound, rightFound] using inner

private theorem forall₂_within {α β : Type} {relation : α → β → Prop} {left : List α} {right : List β}
    (related : List.Forall₂ relation left right) :
    List.Forall₂ (fun first second => relation first second ∧ first ∈ left ∧ second ∈ right) left right := by
  induction related with
  | nil => exact .nil
  | cons head _ ih =>
    refine .cons ⟨head, by simp, by simp⟩ (ih.imp ?_)
    exact fun _ _ inner => ⟨inner.1, List.mem_cons_of_mem _ inner.2.1, List.mem_cons_of_mem _ inner.2.2⟩

/-- Directories that have the same names of some kind list these alike. -/
theorem forall₂_listing_filter (keep : Name → Bool) {left right : List (Name × Node)}
    (names : ∀ name, keep name = true → (left.lookup name).isSome = (right.lookup name).isSome) :
    let kept (entries : List (Name × Node)) := (listing entries).filter fun entry => keep entry.1
    List.Forall₂ (fun first second => first.1 = second.1 ∧ first ∈ kept left ∧ second ∈ kept right)
      (kept left) (kept right) := by
  intro kept
  have sorted (entries : List (Name × Node)) : ((kept entries).map Prod.fst).Pairwise (· < ·) :=
    List.pairwise_map.mpr ((listing_sorted entries).sublist List.filter_sublist)
  have nodup (entries : List (Name × Node)) : ((kept entries).map Prod.fst).Nodup := by
    refine (sorted entries).imp ?_
    rintro name _ less rfl
    exact List.lt_irrefl _ less
  have listed (entries : List (Name × Node)) (name : Name) :
      name ∈ (kept entries).map Prod.fst ↔ (entries.lookup name).isSome = true ∧ keep name = true := by
    rw [Option.isSome_iff_exists]
    simp only [kept, List.mem_map, List.mem_filter, Prod.exists, exists_and_right, exists_eq_right, mem_listing_iff]
  -- Two lists in strict order that have the same members are one list.
  have permuted : ((kept left).map Prod.fst).Perm ((kept right).map Prod.fst) := by
    refine (List.perm_ext_iff_of_nodup (nodup left) (nodup right)).mpr fun name => ?_
    rw [listed, listed]
    exact and_congr_left fun holds => by rw [names name holds]
  have same : (kept left).map Prod.fst = (kept right).map Prod.fst :=
    permuted.eq_of_pairwise (fun _ _ _ _ less more => absurd (List.lt_trans less more) (List.lt_irrefl _))
      (sorted left) (sorted right)
  refine forall₂_within (List.forall₂_map_right_iff.mp (List.forall₂_map_left_iff.mp ?_))
  rw [same]
  exact List.forall₂_refl _

/-- Directories that have the same names list them alike. -/
theorem forall₂_listing {left right : List (Name × Node)}
    (names : ∀ name, (left.lookup name).isSome = (right.lookup name).isSome) :
    List.Forall₂ (fun first second => first.1 = second.1 ∧ first ∈ listing left ∧ second ∈ listing right)
      (listing left) (listing right) := by
  simpa only [List.filter_true] using forall₂_listing_filter (fun _ => true) fun name _ => names name

end Node

namespace Walk

open Node (FileData AgreeBelow AgreeFrom Alike)

/-- Visits of one path in two trees, under the same names below two places; of files `same` holds. -/
inductive Matched (left right : FileTree) (path : Path) (leftPlace rightPlace : Place)
    (same : List Name → FileData → FileData → Prop) : Visit → Visit → Prop
  | file (names : List Name) {leftFile rightFile : FileData}
      (leftResolved : left.resolve (path.below names) = .ok (leftPlace ++ names))
      (rightResolved : right.resolve (path.below names) = .ok (rightPlace ++ names))
      (leftThere : left.root.at? (leftPlace ++ names) = some (.file leftFile.1 leftFile.2))
      (rightThere : right.root.at? (rightPlace ++ names) = some (.file rightFile.1 rightFile.2))
      (agree : same names leftFile rightFile) :
      Matched left right path leftPlace rightPlace same (.file (path.below names)) (.file (path.below names))
  | failed (failing : Path) (message : String) :
      Matched left right path leftPlace rightPlace same (.failed failing message) (.failed failing message)

variable {left right : FileTree} {excluded : Name → Bool} {root path : Path} {leftPlace rightPlace : Place}
  {same : List Name → FileData → FileData → Prop}

theorem Matched.eq {first second : Visit} (matched : Matched left right path leftPlace rightPlace same first second) :
    first = second := by
  cases matched <;> rfl

/-- What matches below an entry matches below its directory. -/
theorem Matched.outer {name : Name} {first second : Visit}
    (matched : Matched left right (path.child name) (leftPlace ++ [name]) (rightPlace ++ [name])
      (fun names => same (name :: names)) first second) :
    Matched left right path leftPlace rightPlace same first second := by
  cases matched with
  | failed failing message => exact .failed failing message
  | file names leftResolved rightResolved leftThere rightThere agree =>
    simp only [List.append_assoc, List.singleton_append] at leftResolved rightResolved leftThere rightThere
    exact .file (name :: names) leftResolved rightResolved leftThere rightThere agree

/-- An excluded entry that is no link is passed over, whatever it is. -/
private theorem visitEntry_excluded {tree : FileTree} {name : Name} {node : Node} (free : node.isLinkFree = true)
    (out : excluded name = true) (fuel : Nat) (ancestors : List Ancestor) :
    visitEntry tree excluded root fuel ancestors path (name, node) = [] := by
  cases node with
  | link goal => cases free
  | file content readable => simp [visitEntry, target, out]
  | directory entries readable => simp [visitEntry, target, out]

private theorem visitEntry_directory {tree : FileTree} {name : Name} {entries : List (Name × Node)} {readable : Bool}
    (kept : excluded name = false) (fuel : Nat) (place : Place) (others : List Ancestor) :
    visitEntry tree excluded root fuel (⟨path, place⟩ :: others) path (name, .directory entries readable) =
      visitBelow tree excluded root fuel (⟨path.child name, place ++ [name]⟩ :: ⟨path, place⟩ :: others)
        (path.child name) := by
  simp [visitEntry, target, kept]

private theorem isLinkFree_listed {tree : FileTree} (free : tree.root.isLinkFree = true) {place : Place}
    {entries : List (Name × Node)} (stands : Stands tree path place entries true) {name : Name} {node : Node}
    (member : (name, node) ∈ Node.listing entries) : node.isLinkFree = true :=
  Node.isLinkFree_at free
    ((Node.at?_entry stands.there name).trans ((Node.mem_listing_iff entries name node).mp member))

/-- A directory in a directory is entered at its name, and takes room. -/
private theorem enter {tree : FileTree} {place : Place} {entries inner : List (Name × Node)} {readable : Bool}
    {name : Name} (stands : Stands tree path place entries true)
    (member : (name, .directory inner readable) ∈ Node.listing entries) (others : List Ancestor) :
    Stands tree (path.child name) (place ++ [name]) inner readable ∧
      room tree (⟨path.child name, place ++ [name]⟩ :: ⟨path, place⟩ :: others) (.directory inner readable) <
        room tree (⟨path, place⟩ :: others) (.directory entries true) := by
  obtain ⟨resolved, there⟩ := stands.resolve_entry member (by simp)
  exact ⟨⟨resolved, there⟩, room_step path stands member rfl ⟨resolved, there⟩⟩

private theorem visitEntry_file {leftEntries rightEntries : List (Name × Node)}
    {leftAncestors rightAncestors : List Ancestor} {leftFuel rightFuel : Nat} {name : Name}
    {leftFile rightFile : FileData} (leftStands : Stands left path leftPlace leftEntries true)
    (rightStands : Stands right path rightPlace rightEntries true) (kept : excluded name = false)
    (leftMember : (name, .file leftFile.1 leftFile.2) ∈ Node.listing leftEntries)
    (rightMember : (name, .file rightFile.1 rightFile.2) ∈ Node.listing rightEntries)
    (agree : same [name] leftFile rightFile) :
    List.Forall₂ (Matched left right path leftPlace rightPlace same)
      (visitEntry left excluded root leftFuel leftAncestors path (name, .file leftFile.1 leftFile.2))
      (visitEntry right excluded root rightFuel rightAncestors path (name, .file rightFile.1 rightFile.2)) := by
  obtain ⟨leftResolved, leftThere⟩ := leftStands.resolve_entry leftMember (by simp)
  obtain ⟨rightResolved, rightThere⟩ := rightStands.resolve_entry rightMember (by simp)
  simp only [visitEntry, target, kept]
  exact .cons (.file [name] leftResolved rightResolved leftThere rightThere agree) .nil

/-- Two trees without links that agree below two places are visited alike there, each with room enough. -/
theorem visitBelow_agree (leftFree : left.root.isLinkFree = true) (rightFree : right.root.isLinkFree = true)
    {leftFuel rightFuel : Nat} {leftEntries rightEntries : List (Name × Node)} {readable : Bool}
    {leftOthers rightOthers : List Ancestor} (leftStands : Stands left path leftPlace leftEntries readable)
    (rightStands : Stands right path rightPlace rightEntries readable)
    (agree : AgreeBelow excluded same (.directory leftEntries readable) (.directory rightEntries readable))
    (leftEnough : room left (⟨path, leftPlace⟩ :: leftOthers) (.directory leftEntries readable) ≤ leftFuel)
    (rightEnough : room right (⟨path, rightPlace⟩ :: rightOthers) (.directory rightEntries readable) ≤ rightFuel) :
    List.Forall₂ (Matched left right path leftPlace rightPlace same)
      (visitBelow left excluded root leftFuel (⟨path, leftPlace⟩ :: leftOthers) path)
      (visitBelow right excluded root rightFuel (⟨path, rightPlace⟩ :: rightOthers) path) := by
  induction leftFuel generalizing rightFuel path leftPlace rightPlace same leftEntries rightEntries readable leftOthers
    rightOthers with
  | zero => exact absurd leftEnough (Nat.not_le_of_lt (room_pos ..))
  | succ leftFuel ih =>
    obtain ⟨rightFuel, rfl⟩ := Nat.exists_eq_add_one.mpr (Nat.lt_of_lt_of_le (room_pos ..) rightEnough)
    cases readable with
    | false =>
      simp only [visitBelow, leftStands.list_unreadable, rightStands.list_unreadable]
      exact .cons (.failed _ _) .nil
    | true =>
      have names : ∀ name, (leftEntries.lookup name).isSome = (rightEntries.lookup name).isSome := by
        cases agree [] (by simp) with
        | directory _ names => exact names
      rw [visitBelow_readable leftStands, visitBelow_readable rightStands]
      refine List.rel_flatMap (Node.forall₂_listing names) ?_
      rintro ⟨name, first⟩ ⟨_, second⟩ ⟨rfl, leftMember, rightMember⟩
      cases kept : excluded name with
      | true =>
        rw [visitEntry_excluded (isLinkFree_listed leftFree leftStands leftMember) kept,
          visitEntry_excluded (isLinkFree_listed rightFree rightStands rightMember) kept]
        exact .nil
      | false =>
        have inner := agree.entry kept ((Node.mem_listing_iff leftEntries name first).mp leftMember)
          ((Node.mem_listing_iff rightEntries name second).mp rightMember)
        have here : Alike (same [name]) (some first) (some second) := inner [] (by simp)
        cases here with
        | file agreeFile => exact visitEntry_file leftStands rightStands kept leftMember rightMember agreeFile
        | @directory leftInner rightInner readable _ =>
          -- Each walk has room for the step by itself: the trees need not be of one size.
          obtain ⟨leftInside, leftLess⟩ := enter leftStands leftMember leftOthers
          obtain ⟨rightInside, rightLess⟩ := enter rightStands rightMember rightOthers
          rw [visitEntry_directory kept, visitEntry_directory kept]
          have below := ih leftInside rightInside inner (Nat.le_of_lt_succ (Nat.lt_of_lt_of_le leftLess leftEnough))
            (Nat.le_of_lt_succ (Nat.lt_of_lt_of_le rightLess rightEnough))
          exact below.imp fun _ _ matched => matched.outer

theorem resolve_of_node_error {tree : FileTree} {error : SystemError} (missing : tree.node? path = .error error) :
    tree.resolve path = .error error := by
  cases resolved : tree.resolve path with
  | error other =>
    simp only [FileTree.node?, resolved, bind, Except.bind, Except.error.injEq] at missing
    rw [missing]
  | ok place =>
    obtain ⟨node, there, -⟩ := FileTree.holds_of_resolve resolved
    have found := (FileTree.node_eq_ok tree path node).mpr ⟨place, resolved, there⟩
    cases missing.symm.trans found

private theorem isLink_of_free {tree : FileTree} (free : tree.root.isLinkFree = true) (path : Path) :
    tree.isLink path = false := by
  unfold FileTree.isLink
  split
  · rfl
  · split
    next goal there => cases Node.isLinkFree_at free there
    next => rfl

/-- A file that is visited in one of two walks that match lies in both trees, under the same names. -/
theorem matched_of_visited {leftFound rightFound : List Visit}
    (matched : List.Forall₂ (Matched left right path leftPlace rightPlace same) leftFound rightFound) {file : Path}
    (visited : .file file ∈ leftFound) :
    Matched left right path leftPlace rightPlace same (.file file) (.file file) := by
  induction matched with
  | nil => cases visited
  | cons head _ ih =>
    rcases List.mem_cons.mp visited with rfl | later
    · cases head.eq
      exact head
    · exact ih later

theorem eq_of_matched {leftFound rightFound : List Visit}
    (matched : List.Forall₂ (Matched left right path leftPlace rightPlace same) leftFound rightFound) :
    leftFound = rightFound := by
  rw [← List.forall₂_eq_eq_eq]
  exact matched.imp fun _ _ => Matched.eq

/-- Two trees without links that agree below a root are walked alike, or cannot be walked for the same reason. -/
theorem visits_agree (leftFree : left.root.isLinkFree = true) (rightFree : right.root.isLinkFree = true)
    (agree : AgreeFrom excluded same (left.node? root) (right.node? root)) :
    (∃ message, visits left excluded root = .error message ∧ visits right excluded root = .error message) ∨
      ∃ leftPlace rightPlace leftFound rightFound, left.resolve root = .ok leftPlace ∧
        visits left excluded root = .ok leftFound ∧ visits right excluded root = .ok rightFound ∧
        List.Forall₂ (Matched left right root leftPlace rightPlace same) leftFound rightFound := by
  generalize leftRoot : left.node? root = leftOutcome at agree
  generalize rightRoot : right.node? root = rightOutcome at agree
  cases agree with
  | failed error =>
    left
    simp [visits, resolve_of_node_error leftRoot, resolve_of_node_error rightRoot]
  | @found leftNode rightNode agree =>
    obtain ⟨leftPlace, leftResolved, leftThere⟩ := (FileTree.node_eq_ok left root leftNode).mp leftRoot
    obtain ⟨rightPlace, rightResolved, rightThere⟩ := (FileTree.node_eq_ok right root rightNode).mp rightRoot
    have here : Alike (same []) (some leftNode) (some rightNode) := agree [] (by simp)
    cases here with
    | file _ =>
      left
      simp [visits, leftResolved, rightResolved, leftThere, rightThere]
    | directory readable names =>
      cases readable with
      | false =>
        left
        simp [visits, leftResolved, rightResolved, leftThere, rightThere, isLink_of_free leftFree,
          isLink_of_free rightFree]
      | true =>
        right
        have leftStands : Stands left root leftPlace _ true := ⟨leftResolved, leftThere⟩
        have rightStands : Stands right root rightPlace _ true := ⟨rightResolved, rightThere⟩
        exact ⟨leftPlace, rightPlace, _, _, leftResolved, leftStands.visits, rightStands.visits,
          visitBelow_agree leftFree rightFree leftStands rightStands agree (room_start left _ leftThere)
            (room_start right _ rightThere)⟩

end Walk
end EnvAudit
