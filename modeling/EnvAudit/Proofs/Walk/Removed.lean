import EnvAudit.Proofs.FileTree.Removed
import EnvAudit.Proofs.Walk.Branch

/-! Walks of a tree that lacks a file visit the same, but for the file itself. -/
namespace EnvAudit

/-- Elements that nothing is taken from may be left out. -/
private theorem flatMap_kept {α β : Type} (keep : α → Bool) (taken : α → List β) (list : List α)
    (nothing : ∀ element ∈ list, keep element = false → taken element = []) :
    (list.filter keep).flatMap taken = list.flatMap taken := by
  induction list with
  | nil => rfl
  | cons element rest ih =>
    have later := ih fun other member => nothing other (List.mem_cons_of_mem _ member)
    rw [List.filter_cons, List.flatMap_cons, ← later]
    split
    next => rw [List.flatMap_cons]
    next out => rw [nothing element List.mem_cons_self (Bool.eq_false_iff.mpr out), List.nil_append]

namespace Walk

open FileTree (Lacks)
open Node (SameKind)

variable {left right : FileTree} {place directory : Place} {root path : Path} {entries others : List (Name × Node)}
  {name : Name}

private theorem linkTarget_lacks (lacks : Lacks place left right) (stands : Stands left path directory entries true)
    {goal : Path} (member : (name, .link goal) ∈ Node.listing entries) (ancestors : List Ancestor) :
    linkTarget right root ancestors (path.child name) = linkTarget left root ancestors (path.child name) := by
  obtain ⟨elsewhere, same⟩ := lacks.resolve_link stands.resolved stands.there (stands.isEntry member)
    ((Node.mem_listing_iff entries name _).mp member)
  unfold linkTarget
  rw [same]
  cases resolved : left.resolve (path.child name) with
  | error error => rfl
  | ok other =>
    have apart : other ≠ place := by
      rintro rfl
      exact elsewhere resolved
    have kept := lacks.without.kept other apart
    dsimp only
    generalize left.root.at? other = first at kept
    generalize right.root.at? other = second at kept
    cases kept with
    | nothing => rfl
    | file content readable => rfl
    | link target => rfl
    | directory inner outer readable => cases readable <;> rfl

/-- An entry that is not the file leads to the same. -/
private theorem target_lacks (lacks : Lacks place left right) (stands : Stands left path directory entries true)
    {first second : Node} (member : (name, first) ∈ Node.listing entries) (kind : SameKind (some first) (some second))
    (ancestors : List Ancestor) :
    target right root ancestors (path.child name) name second =
      target left root ancestors (path.child name) name first := by
  cases kind with
  | file content readable => rfl
  | link goal => exact linkTarget_lacks lacks stands member ancestors
  | directory inner outer readable => rfl

/-- A directory of the tree stands under the same path in the tree that lacks a file. -/
private theorem stands_lacks (lacks : Lacks place left right) {readable : Bool}
    (stands : Stands left path directory entries readable) :
    directory ≠ place ∧ ∃ others, Stands right path directory others readable := by
  obtain ⟨content, open_, file⟩ := lacks.file
  have apart : directory ≠ place := by
    rintro rfl
    cases file.symm.trans stands.there
  obtain ⟨others, there⟩ := lacks.without.directory stands.there apart
  exact ⟨apart, others, lacks.resolve stands.resolved apart, there⟩

/-- What is shown of the visits leaves out a visit to the entry at a place, whatever its path begins with. -/
def Hides (shown : Visit → Bool) (place : Place) : Prop :=
  ∀ (path : Path) (name : Name) (directory : Place), path.bytes ≠ [] → place = directory ++ [name] →
    shown (.file (path.child name)) = false

section Visits

variable {excluded : Name → Bool} {shown : Visit → Bool}

private theorem visitEntry_hidden (lacks : Lacks place left right) (hidden : Hides shown place)
    (stands : Stands left path directory entries true) {node : Node} (member : (name, node) ∈ Node.listing entries)
    (same : directory ++ [name] = place) (fuel : Nat) (ancestors : List Ancestor) :
    (visitEntry left excluded root fuel ancestors path (name, node)).filter shown = [] := by
  obtain ⟨content, open_, file⟩ := lacks.file
  rw [← same, Node.at?_entry stands.there, (Node.mem_listing_iff entries name node).mp member] at file
  cases file
  have unseen := hidden path name directory (FileTree.present_of_resolve stands.resolved) same.symm
  simp only [visitEntry, target]
  split <;> simp [unseen]

private theorem ne_of_listed (lacks : Lacks place left right) (also : Stands right path directory others true)
    {node : Node} (member : (name, node) ∈ Node.listing others) : directory ++ [name] ≠ place := by
  intro same
  have removed := lacks.without.removed
  rw [← same, Node.at?_entry also.there, (Node.mem_listing_iff others name node).mp member] at removed
  cases removed

/-- Below a directory the same is visited with the file and without it, but for visits to the file. -/
theorem visitBelow_lacks (lacks : Lacks place left right) (hidden : Hides shown place) {readable : Bool}
    {ancestors : List Ancestor} (stands : Stands left path directory entries readable) (fuel : Nat) :
    (visitBelow right excluded root fuel (⟨path, directory⟩ :: ancestors) path).filter shown =
      (visitBelow left excluded root fuel (⟨path, directory⟩ :: ancestors) path).filter shown := by
  induction fuel generalizing path directory entries readable ancestors with
  | zero => rfl
  | succ fuel ih =>
    obtain ⟨-, others, also⟩ := stands_lacks lacks stands
    cases readable with
    | false => simp only [visitBelow, stands.list_unreadable, also.list_unreadable]
    | true =>
      -- The file is listed on the left only and does not show there; all other entries are listed on both sides.
      let keep (name : Name) : Bool := directory ++ [name] ≠ place
      have kinds (name : Name) (kept : keep name = true) : SameKind (entries.lookup name) (others.lookup name) := by
        rw [← Node.at?_entry stands.there, ← Node.at?_entry also.there]
        exact lacks.without.kept _ (of_decide_eq_true kept)
      have leftOut : ∀ entry ∈ Node.listing entries, keep entry.1 = false →
          (visitEntry left excluded root fuel (⟨path, directory⟩ :: ancestors) path entry).filter shown = [] :=
        fun entry member here =>
          visitEntry_hidden lacks hidden stands member (by simpa [keep] using here) fuel _
      have rightOut : ∀ entry ∈ Node.listing others, keep entry.1 = false →
          (visitEntry right excluded root fuel (⟨path, directory⟩ :: ancestors) path entry).filter shown = [] :=
        fun entry member here => absurd (by simpa [keep] using here) (ne_of_listed lacks also member)
      rw [visitBelow_readable stands, visitBelow_readable also, List.filter_flatMap, List.filter_flatMap,
        ← flatMap_kept _ _ _ leftOut, ← flatMap_kept _ _ _ rightOut, ← List.forall₂_eq_eq_eq]
      refine List.rel_flatMap (Node.forall₂_listing_filter keep fun name kept => (kinds name kept).isSome) ?_
      rintro ⟨name, second⟩ ⟨_, first⟩ ⟨rfl, rightMember, leftMember⟩
      obtain ⟨rightMember, -⟩ := List.mem_filter.mp rightMember
      obtain ⟨leftMember, kept⟩ := List.mem_filter.mp leftMember
      have kind := kinds name kept
      rw [(Node.mem_listing_iff ..).mp leftMember, (Node.mem_listing_iff ..).mp rightMember] at kind
      rw [List.forall₂_eq_eq_eq]
      simp only [visitEntry, target_lacks lacks stands leftMember kind]
      cases led : target left root (⟨path, directory⟩ :: ancestors) (path.child name) name first with
      | failed failing message => rfl
      | file => rfl
      | directory next =>
        obtain ⟨inner, open_, inside⟩ := stands.step leftMember led
        cases excluded name with
        | true => rfl
        | false => exact ih inside

/-- From a root in the tree the same is visited, however many steps each walk allows for. -/
theorem visits_lacks (lacks : Lacks place left right) (hidden : Hides shown place)
    (stands : Stands left root directory entries true) :
    ∃ found others, visits left excluded root = .ok found ∧ visits right excluded root = .ok others ∧
      others.filter shown = found.filter shown := by
  obtain ⟨-, outer, also⟩ := stands_lacks lacks stands
  refine ⟨_, _, stands.visits, also.visits, ?_⟩
  have leftRoom := room_start left [⟨root, directory⟩] stands.there
  have rightRoom := room_start right [⟨root, directory⟩] also.there
  let bound := max (mostBranch left) (mostBranch right)
  have leftBound : mostBranch left ≤ bound := Nat.le_max_left _ _
  have rightBound : mostBranch right ≤ bound := Nat.le_max_right _ _
  rw [visitBelow_of_room excluded stands leftRoom (Nat.le_trans leftRoom leftBound),
    visitBelow_of_room excluded also rightRoom (Nat.le_trans rightRoom rightBound)]
  exact visitBelow_lacks lacks hidden stands bound

end Visits

end Walk

end EnvAudit
