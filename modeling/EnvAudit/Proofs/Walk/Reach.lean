import EnvAudit.Proofs.Walk.Room
import EnvAudit.Proofs.Walk.Trails

/-! Which files a walk visits: those at the end of a way, a branch that passes over nothing and enters no directory
twice over a link. -/
namespace EnvAudit.Walk

/-- The names on a way below a path to a file, `seen` being the places of the directories on the branch so far. -/
inductive Way (tree : FileTree) (excluded : Name → Bool) : List Place → Path → List Name → Prop
  | file {seen : List Place} {path : Path} {listed : List (Name × Node)} {name : Name} {node : Node}
      {content : ByteArray} {readable : Bool} (opened : tree.list path = .ok listed) (member : (name, node) ∈ listed)
      (kept : excluded name = false) (found : tree.node? (path.child name) = .ok (.file content readable)) :
      Way tree excluded seen path [name]
  | directory {seen : List Place} {path : Path} {listed : List (Name × Node)} {name : Name} {node : Node}
      {next : Place} {names : List Name} (opened : tree.list path = .ok listed) (member : (name, node) ∈ listed)
      (kept : excluded name = false) (resolved : tree.resolve (path.child name) = .ok next)
      (apart : tree.isLink (path.child name) = true → next ∉ seen)
      (rest : Way tree excluded (next :: seen) (path.child name) names) : Way tree excluded seen path (name :: names)

theorem Way.opened {tree : FileTree} {excluded : Name → Bool} {seen : List Place} {path : Path} {names : List Name}
    (way : Way tree excluded seen path names) : ∃ listed, tree.list path = .ok listed := by
  cases way with
  | file opened => exact ⟨_, opened⟩
  | directory opened => exact ⟨_, opened⟩

variable {tree : FileTree} {excluded : Name → Bool} {root path : Path} {place : Place}
  {entries : List (Name × Node)} {readable : Bool} {others : List Ancestor}

private theorem not_file_mem_unreadable (stands : Stands tree path place entries false) (fuel : Nat)
    (ancestors : List Ancestor) (file : Path) :
    .file file ∉ visitBelow tree excluded root fuel ancestors path := by
  cases fuel with
  | zero => simp [visitBelow]
  | succ fuel => simp [visitBelow, stands.list_unreadable]

/-- A file is visited at an entry, or below one. -/
private theorem file_mem_visitBelow (stands : Stands tree path place entries true) (fuel : Nat)
    (ancestors : List Ancestor) (file : Path) :
    .file file ∈ visitBelow tree excluded root (fuel + 1) ancestors path ↔
      ∃ name node, (name, node) ∈ Node.listing entries ∧ excluded name = false ∧
        ((target tree root ancestors (path.child name) name node = .file ∧ file = path.child name) ∨
          ∃ next, target tree root ancestors (path.child name) name node = .directory next ∧
            .file file ∈
              visitBelow tree excluded root fuel (⟨path.child name, next⟩ :: ancestors) (path.child name)) := by
  simp only [visitBelow, stands.list_readable, List.mem_flatMap, Prod.exists]
  refine exists_congr fun name => exists_congr fun node => and_congr_right fun _ => ?_
  cases target tree root ancestors (path.child name) name node with
  | failed failing message => simp
  | file => cases excluded name <;> simp
  | directory next => cases excluded name <;> simp

/-- A file that is visited lies at the end of a way. -/
theorem way_of_visited (stands : Stands tree path place entries readable) {fuel : Nat} {file : Path}
    (visited : .file file ∈ visitBelow tree excluded root fuel (⟨path, place⟩ :: others) path) :
    ∃ names, file = path.below names ∧
      Way tree excluded ((⟨path, place⟩ :: others).map Ancestor.place) path names := by
  induction fuel generalizing path place entries readable others with
  | zero => simp [visitBelow] at visited
  | succ fuel ih =>
    cases readable with
    | false => exact absurd visited (not_file_mem_unreadable stands _ _ _)
    | true =>
      obtain ⟨name, node, member, kept, ⟨led, rfl⟩ | ⟨next, led, visited⟩⟩ :=
        (file_mem_visitBelow stands fuel _ file).mp visited
      · obtain ⟨content, open_, found⟩ := (target_file stands member _).mp led
        exact ⟨[name], rfl, .file stands.list_readable member kept found⟩
      · obtain ⟨inner, open_, inside⟩ := stands.step member led
        obtain ⟨names, rfl, way⟩ := ih inside visited
        refine ⟨name :: names, rfl, .directory stands.list_readable member kept inside.resolved ?_ way⟩
        intro linked
        obtain ⟨goal, rfl⟩ := (stands.isLink_entry member).mp linked
        rcases target_directory.mp led with ⟨_, _, differ, -⟩ | ⟨-, -, apart⟩
        · cases differ
        · exact apart

/-- The walk enters a directory that it can list, over a link only if it is not in it. -/
theorem target_of_stands {name : Name} {node : Node} {next : Place} {inner : List (Name × Node)}
    (stands : Stands tree path place entries true) (member : (name, node) ∈ Node.listing entries)
    (inside : Stands tree (path.child name) next inner true)
    (apart : tree.isLink (path.child name) = true → next ∉ (⟨path, place⟩ :: others).map Ancestor.place) :
    target tree root (⟨path, place⟩ :: others) (path.child name) name node = .directory next := by
  apply target_directory.mpr
  cases node with
  | link goal => exact Or.inr ⟨⟨goal, rfl⟩, ⟨inner, inside⟩, apart ((stands.isLink_entry member).mpr ⟨goal, rfl⟩)⟩
  | directory below open_ =>
    obtain ⟨resolved, -⟩ := stands.resolve_entry member (by simp)
    exact Or.inl ⟨below, open_, rfl, Except.ok.inj (inside.resolved.symm.trans resolved)⟩
  | file content open_ =>
    -- The path would lead to a file and to a directory.
    obtain ⟨resolved, there⟩ := stands.resolve_entry member (by simp)
    rw [← Except.ok.inj (inside.resolved.symm.trans resolved), inside.there] at there
    cases there

/-- A walk with room enough visits the file at the end of every way. -/
theorem visited_of_way {seen : List Place} {names : List Name} (way : Way tree excluded seen path names)
    (stands : Stands tree path place entries readable) (same : seen = (⟨path, place⟩ :: others).map Ancestor.place)
    {fuel : Nat} (enough : room tree (⟨path, place⟩ :: others) (.directory entries readable) ≤ fuel) :
    .file (path.below names) ∈ visitBelow tree excluded root fuel (⟨path, place⟩ :: others) path := by
  induction way generalizing place entries readable others fuel with
  | @file seen path listed name node content open_ opened member kept found =>
    obtain ⟨rfl, rfl⟩ := stands.listed opened
    obtain ⟨fuel, rfl⟩ := Nat.exists_eq_add_one.mpr (Nat.lt_of_lt_of_le (room_pos ..) enough)
    exact (file_mem_visitBelow stands fuel _ _).mpr
      ⟨name, node, member, kept, Or.inl ⟨(target_file stands member _).mpr ⟨content, open_, found⟩, rfl⟩⟩
  | @directory seen path listed name node next names opened member kept resolved apart rest ih =>
    obtain ⟨rfl, rfl⟩ := stands.listed opened
    obtain ⟨fuel, rfl⟩ := Nat.exists_eq_add_one.mpr (Nat.lt_of_lt_of_le (room_pos ..) enough)
    obtain ⟨_, below⟩ := rest.opened
    obtain ⟨other, inner, inside, -⟩ := stands_of_list below
    cases Except.ok.inj (resolved.symm.trans inside.resolved)
    have led : target tree root (⟨path, place⟩ :: others) (path.child name) name node = .directory next :=
      target_of_stands stands member inside (same ▸ apart)
    have less := room_step _ stands member led inside
    refine (file_mem_visitBelow stands fuel _ _).mpr ⟨name, node, member, kept, Or.inr ⟨next, led, ?_⟩⟩
    exact ih inside (by rw [same]; rfl) (by omega)

/-- A root that can be walked leads to a directory that can be listed, where the walk begins. -/
theorem stands_of_visits {found : List Visit} (walked : visits tree excluded root = .ok found) :
    ∃ place entries, Stands tree root place entries true ∧
      found = visitBelow tree excluded root (mostBranch tree) [⟨root, place⟩] root := by
  unfold visits at walked
  split at walked
  · cases walked
  next place resolved =>
  split at walked
  next entries readable there =>
    split at walked
    next isReadable =>
      subst isReadable
      exact ⟨place, entries, ⟨resolved, there⟩, (Except.ok.inj walked).symm⟩
    next =>
      split at walked <;> cases walked
  next => cases walked

/-- A walk visits the files at the end of a way from the root, and no others. -/
theorem file_mem_visits {found : List Visit} (walked : visits tree excluded root = .ok found) :
    ∃ place, tree.resolve root = .ok place ∧
      ∀ file, .file file ∈ found ↔ ∃ names, file = root.below names ∧ Way tree excluded [place] root names := by
  obtain ⟨place, entries, stands, rfl⟩ := stands_of_visits walked
  refine ⟨place, stands.resolved, fun file => ⟨way_of_visited stands, ?_⟩⟩
  rintro ⟨names, rfl, way⟩
  exact visited_of_way way stands rfl (room_start tree _ stands.there)

end EnvAudit.Walk
