import EnvAudit.FileTree
import Mathlib.Data.List.Basic

/-! What a program sees of a file tree: directories list each of their names once and in order, and all names are
names that directories can hold. -/
namespace EnvAudit

namespace Node

/-! ## Listings -/

private theorem firstOfEach_subset (entries : List (Name × Node)) : firstOfEach entries ⊆ entries := by
  induction entries using firstOfEach.induct with
  | case1 first second rest same ih =>
    rw [firstOfEach, if_pos same]
    intro entry member
    rcases List.mem_cons.mp (ih member) with rfl | later
    · simp
    · simp [later]
  | case2 first second rest differ ih =>
    rw [firstOfEach, if_neg differ]
    intro entry member
    rcases List.mem_cons.mp member with rfl | later
    · simp
    · exact List.mem_cons_of_mem _ (ih later)
  | case3 short isShort =>
    rw [firstOfEach]
    · exact List.Subset.refl _
    · exact isShort

private theorem firstOfEach_sorted (entries : List (Name × Node))
    (sorted : entries.Pairwise fun left right => left.1 ≤ right.1) :
    (firstOfEach entries).Pairwise fun left right => left.1 < right.1 := by
  induction entries using firstOfEach.induct with
  | case1 first second rest same ih =>
    rw [firstOfEach, if_pos same]
    exact ih (sorted.sublist (by simp))
  | case2 first second rest differ ih =>
    rw [firstOfEach, if_neg differ]
    obtain ⟨bound, sorted⟩ := List.pairwise_cons.mp sorted
    refine List.pairwise_cons.mpr ⟨?_, ih sorted⟩
    intro entry member
    -- What is kept behind `second` comes from behind it, where nothing is less.
    have above : second.1 ≤ entry.1 := by
      rcases List.mem_cons.mp (firstOfEach_subset _ member) with rfl | later
      · exact List.le_refl _
      · exact (List.pairwise_cons.mp sorted).1 entry later
    have least : first.1 < second.1 := Std.lt_of_le_of_ne (bound second (by simp)) differ
    exact Std.lt_of_lt_of_le least above
  | case3 short isShort =>
    rw [firstOfEach]
    · match short, isShort with
      | [], _ => exact List.Pairwise.nil
      | [only], _ => exact List.pairwise_singleton _ _
      | first :: second :: rest, isShort => exact absurd rfl (isShort first second rest)
    · exact isShort

theorem listing_subset (entries : List (Name × Node)) : listing entries ⊆ entries := by
  intro entry member
  exact List.mem_mergeSort.mp (firstOfEach_subset _ member)

theorem listing_sorted (entries : List (Name × Node)) :
    (listing entries).Pairwise fun left right => left.1 < right.1 := by
  apply firstOfEach_sorted
  have sorted : (entries.mergeSort fun left right => decide (left.1 ≤ right.1)).Pairwise
      fun left right => decide (left.1 ≤ right.1) = true :=
    List.pairwise_mergeSort (fun _ _ _ => by simpa using Std.le_trans) (fun _ _ => by simpa using Std.le_total) entries
  simpa using sorted

private theorem lookup_firstOfEach (name : Name) (entries : List (Name × Node)) :
    (firstOfEach entries).lookup name = entries.lookup name := by
  induction entries using firstOfEach.induct with
  | case1 first second rest same ih =>
    rw [firstOfEach, if_pos same, ih]
    -- What is left out has the name of what stands before it.
    obtain ⟨firstName, _⟩ := first
    obtain ⟨secondName, _⟩ := second
    simp only [List.lookup_cons, show secondName = firstName from same.symm]
    cases name == firstName <;> rfl
  | case2 first second rest differ ih =>
    rw [firstOfEach, if_neg differ, List.lookup_cons, List.lookup_cons, ih]
  | case3 short isShort =>
    rw [firstOfEach]
    exact isShort

/-- Entries of one name keep their order when all entries are sorted by their names. -/
private theorem filter_mergeSort (name : Name) (entries : List (Name × Node)) :
    (entries.mergeSort fun left right => decide (left.1 ≤ right.1)).filter (fun entry => name == entry.1) =
      entries.filter fun entry => name == entry.1 := by
  have level : (entries.filter fun entry => name == entry.1).Pairwise
      fun left right => decide (left.1 ≤ right.1) = true := by
    rw [List.pairwise_filter]
    refine List.pairwise_of_forall ?_
    intro left right leftNamed rightNamed
    rw [← eq_of_beq leftNamed, ← eq_of_beq rightNamed]
    exact decide_eq_true (List.le_refl _)
  have within := (List.sublist_mergeSort (fun _ _ _ => by simpa using Std.le_trans)
    (fun _ _ => by simpa using Std.le_total) level List.filter_sublist).filter fun entry => name == entry.1
  rw [List.filter_filter] at within
  simp only [Bool.and_self] at within
  exact (within.eq_of_length ((List.mergeSort_perm entries _).filter _).length_eq.symm).symm

private theorem lookup_eq_head (name : Name) (entries : List (Name × Node)) :
    entries.lookup name = (entries.filter fun entry => name == entry.1).head?.map Prod.snd := by
  induction entries with
  | nil => rfl
  | cons entry rest ih =>
    rw [List.lookup_cons, List.filter_cons]
    cases name == entry.1 with
    | true => rfl
    | false => exact ih

theorem lookup_listing (name : Name) (entries : List (Name × Node)) :
    (listing entries).lookup name = entries.lookup name := by
  rw [listing, lookup_firstOfEach, lookup_eq_head, filter_mergeSort, ← lookup_eq_head]

/-- A directory lists under a name what the name leads to in it. -/
theorem mem_listing_iff (entries : List (Name × Node)) (name : Name) (node : Node) :
    (name, node) ∈ listing entries ↔ entries.lookup name = some node := by
  rw [← lookup_listing, List.lookup_eq_some_iff]
  constructor
  · intro member
    obtain ⟨before, behind, split⟩ := List.append_of_mem member
    refine ⟨before, behind, split, ?_⟩
    intro earlier within
    have sorted := listing_sorted entries
    rw [split, List.pairwise_append] at sorted
    have less := sorted.2.2 earlier within (name, node) (by simp)
    simp only [bne_iff_ne, ne_eq]
    rintro rfl
    exact List.lt_irrefl _ less
  · rintro ⟨before, behind, split, -⟩
    rw [split]
    simp

/-! ## Names -/

theorem areWellNamed_iff (entries : List (Name × Node)) :
    areWellNamed entries = true ↔
      ∀ entry ∈ entries, Name.isEntry entry.1 = true ∧ entry.2.isWellNamed = true := by
  induction entries with
  | nil => simp [areWellNamed]
  | cons entry rest ih => simp [areWellNamed, ih, and_assoc]

private theorem isWellNamed_entry {node next : Node} {name : Name} (wellNamed : node.isWellNamed = true)
    (found : node.inner? name = some next) : next.isWellNamed = true := by
  cases node with
  | directory entries readable =>
    simp only [inner?, List.lookup_eq_some_iff] at found
    -- The name may stand in the directory several times; all its entries are well named.
    obtain ⟨before, behind, rfl, -⟩ := found
    exact ((areWellNamed_iff _).mp (by simpa [isWellNamed] using wellNamed) (name, next) (by simp)).2
  | file content readable => simp [inner?] at found
  | link target => simp [inner?] at found

theorem isWellNamed_at {node found : Node} {place : Place} (wellNamed : node.isWellNamed = true)
    (there : node.at? place = some found) : found.isWellNamed = true := by
  induction place generalizing node with
  | nil =>
    simp only [at?, Option.some.injEq] at there
    exact there ▸ wellNamed
  | cons name rest ih =>
    obtain ⟨next, entered, there⟩ := Option.bind_eq_some_iff.mp there
    exact ih (isWellNamed_entry wellNamed entered) there

end Node

namespace FileTree

/-! ## Paths -/

theorem node_eq_ok (tree : FileTree) (path : Path) (node : Node) :
    tree.node? path = .ok node ↔ ∃ place, tree.resolve path = .ok place ∧ tree.root.at? place = some node := by
  unfold node?
  cases tree.resolve path with
  | error error => simp [bind, Except.bind]
  | ok place =>
    cases there : tree.root.at? place <;>
      simp [bind, Except.bind, there, pure, Except.pure, throw, throwThe, MonadExceptOf.throw]

theorem list_eq_ok (tree : FileTree) (path : Path) (listed : List (Name × Node)) :
    tree.list path = .ok listed ↔
      ∃ entries, tree.node? path = .ok (.directory entries true) ∧ Node.listing entries = listed := by
  unfold list
  cases tree.node? path with
  | error error => simp [bind, Except.bind]
  | ok node =>
    cases node with
    | directory entries readable =>
      cases readable <;> simp [bind, Except.bind, pure, Except.pure, throw, throwThe, MonadExceptOf.throw]
    | file content readable => simp [bind, Except.bind, throw, throwThe, MonadExceptOf.throw]
    | link target => simp [bind, Except.bind, throw, throwThe, MonadExceptOf.throw]

theorem readFile_of_node {tree : FileTree} {path : Path} {content : ByteArray} {readable : Bool}
    (found : tree.node? path = .ok (.file content readable)) :
    tree.readFile path = if readable then .ok content.data.toList else .error .denied := by
  rw [readFile, found]
  cases readable <;> rfl

/-- A directory lists names that it can hold. -/
theorem isEntry_of_list {tree : FileTree} {path : Path} {listed : List (Name × Node)}
    (opened : tree.list path = .ok listed) : ∀ entry ∈ listed, Name.isEntry entry.1 = true := by
  obtain ⟨entries, found, rfl⟩ := (list_eq_ok tree path listed).mp opened
  obtain ⟨place, -, there⟩ := (node_eq_ok tree path _).mp found
  have wellNamed := Node.isWellNamed_at tree.wellNamed there
  intro entry member
  exact ((Node.areWellNamed_iff entries).mp wellNamed entry (Node.listing_subset entries member)).1

theorem sorted_of_list {tree : FileTree} {path : Path} {listed : List (Name × Node)}
    (opened : tree.list path = .ok listed) : listed.Pairwise fun left right => left.1 < right.1 := by
  obtain ⟨entries, -, rfl⟩ := (list_eq_ok tree path listed).mp opened
  exact Node.listing_sorted entries

end FileTree

end EnvAudit
