import EnvAudit.ProjectFiles
import EnvAudit.Proofs.FileTree
import EnvAudit.Proofs.Walk.Below
import EnvAudit.Proofs.Walk.Room

/-! What a walk meets stands in the order of the names that lead to it. -/
namespace EnvAudit.Walk

/-- What is picked of some visits is told by trails, lists of names below a path, and stands in their order. -/
def Trails {α : Type} (pick : Visit → Option α) (told : List Name → α) (visits : List Visit)
    (trails : List (List Name)) : Prop :=
  visits.filterMap pick = trails.map told ∧ trails.Pairwise (· < ·) ∧
    ∀ trail ∈ trails, ∀ name ∈ trail, Name.isEntry name = true

section

variable {α : Type} {pick : Visit → Option α} {told : List Name → α}

theorem trails_none {visits : List Visit} (nothing : visits.filterMap pick = []) : Trails pick told visits [] :=
  ⟨nothing, List.Pairwise.nil, by simp⟩

theorem trails_here {visit : Visit} (picked : pick visit = some (told [])) : Trails pick told [visit] [[]] :=
  ⟨by simp [picked], List.pairwise_singleton _ _, by simp⟩

/-- What lies below an entry lies below its directory. -/
private theorem trails_entry {name : Name} {visits : List Visit} {trails : List (List Name)}
    (entry : Name.isEntry name = true) (inner : Trails pick (fun trail => told (name :: trail)) visits trails) :
    Trails pick told visits (trails.map (name :: ·)) := by
  obtain ⟨picked, sorted, entries⟩ := inner
  refine ⟨?_, ?_, ?_⟩
  · rw [picked, List.map_map]
    rfl
  · rw [List.pairwise_map]
    exact sorted.imp fun less => List.cons_lt_cons_iff.mpr (Or.inr ⟨rfl, less⟩)
  · simp only [List.mem_map]
    rintro _ ⟨trail, member, rfl⟩ each within
    rcases List.mem_cons.mp within with rfl | later
    · exact entry
    · exact entries trail member each later

/-- Visits of the entries of a directory stand in their order. -/
theorem trails_entries (visit : Name × Node → List Visit) (trails : Name × Node → List (List Name))
    (listed : List (Name × Node)) (sorted : listed.Pairwise fun left right => left.1 < right.1)
    (valid : ∀ entry ∈ listed, Name.isEntry entry.1 = true)
    (each : ∀ entry ∈ listed, Trails pick (fun trail => told (entry.1 :: trail)) (visit entry) (trails entry)) :
    Trails pick told (listed.flatMap visit) (listed.flatMap fun entry => (trails entry).map (entry.1 :: ·)) := by
  induction listed with
  | nil => exact trails_none rfl
  | cons entry rest ih =>
    obtain ⟨least, sorted⟩ := List.pairwise_cons.mp sorted
    obtain ⟨picked, ordered, entries⟩ := trails_entry (valid entry (by simp)) (each entry (by simp))
    obtain ⟨morePicked, moreOrdered, moreEntries⟩ := ih sorted
      (fun other member => valid other (List.mem_cons_of_mem _ member))
      (fun other member => each other (List.mem_cons_of_mem _ member))
    refine ⟨?_, ?_, ?_⟩
    · rw [List.flatMap_cons, List.filterMap_append, picked, morePicked, List.flatMap_cons, List.map_append]
    · rw [List.flatMap_cons, List.pairwise_append]
      refine ⟨ordered, moreOrdered, ?_⟩
      intro first firstMember second secondMember
      -- The two begin with names of different entries, and those stand in order.
      obtain ⟨tail, -, rfl⟩ := List.mem_map.mp firstMember
      obtain ⟨other, member, within⟩ := List.mem_flatMap.mp secondMember
      obtain ⟨rest', -, rfl⟩ := List.mem_map.mp within
      exact List.cons_lt_cons_iff.mpr (Or.inl (least other member))
    · intro trail member
      rw [List.flatMap_cons] at member
      rcases List.mem_append.mp member with here | there
      · exact entries trail here
      · exact moreEntries trail there

end

/-- Each step of a walk meets the files of a directory in order, by induction on the bound of the branch. -/
theorem visitBelow_trails (tree : FileTree) (excluded : Name → Bool) (root : Path) (fuel : Nat)
    (ancestors : List Ancestor) (path : Path) :
    ∃ trails, Trails Visit.file? path.below (visitBelow tree excluded root fuel ancestors path) trails := by
  induction fuel generalizing ancestors path with
  | zero => exact ⟨[], trails_none rfl⟩
  | succ fuel ih =>
    cases opened : tree.list path with
    | error error =>
      rw [visitBelow, opened]
      exact ⟨[], trails_none rfl⟩
    | ok listed =>
      have each (entry : Name × Node) : ∃ trails, Trails Visit.file? (path.child entry.1).below
          (visitEntry tree excluded root fuel ancestors path entry) trails := by
        unfold visitEntry
        split
        · exact ⟨[], trails_none rfl⟩
        · split
          · exact ⟨[], trails_none rfl⟩
          · exact ⟨[[]], trails_here rfl⟩
        · split
          · exact ⟨[], trails_none rfl⟩
          · exact ih _ _
      choose trails each using each
      rw [visitBelow_listed opened]
      exact ⟨_, trails_entries _ trails listed (FileTree.sorted_of_list opened) (FileTree.isEntry_of_list opened)
        fun entry _ => each entry⟩

/-- Trails that stand in order lead to different paths. -/
theorem nodup_below {root : Path} {trails : List (List Name)} (sorted : trails.Pairwise (· < ·))
    (entries : ∀ trail ∈ trails, ∀ name ∈ trail, Name.isEntry name = true) : (trails.map root.below).Nodup := by
  rw [List.nodup_iff_pairwise_ne, List.pairwise_map]
  -- Equal paths have equal trails, but each trail is less than those behind it.
  refine sorted.imp_of_mem ?_
  intro left right leftMember rightMember less same
  rw [Path.below_injective root (entries left leftMember) (entries right rightMember) same] at less
  exact List.lt_irrefl _ less

/-- A walk meets every file once. -/
theorem files_nodup {tree : FileTree} {excluded : Name → Bool} {root : Path} {found : List Visit}
    (walked : visits tree excluded root = .ok found) : (found.filterMap Visit.file?).Nodup := by
  have below : ∃ fuel ancestors, visitBelow tree excluded root fuel ancestors root = found := by
    unfold visits at walked
    split at walked
    · cases walked
    · split at walked
      · split at walked
        · exact ⟨_, _, Except.ok.inj walked⟩
        · split at walked <;> cases walked
      · cases walked
  obtain ⟨fuel, ancestors, rfl⟩ := below
  obtain ⟨trails, files, sorted, entries⟩ := visitBelow_trails tree excluded root fuel ancestors root
  rw [files]
  exact nodup_below sorted entries

end EnvAudit.Walk
