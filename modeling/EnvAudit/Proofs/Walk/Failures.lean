import EnvAudit.Proofs.Walk.Reach

/-! Which entries a walk cannot visit: those that bar a way, each of them met once. -/
namespace EnvAudit

/-- Whether a path names a link to a directory that cannot be listed. -/
def FileTree.isLockedLink (tree : FileTree) (path : Path) : Bool :=
  tree.isLink path &&
    match tree.node? path with
    | .ok (.directory _ readable) => !readable
    | _ => false

namespace Walk

/-- The path under which a walk that cannot visit an entry records it. -/
def recordedAs (tree : FileTree) (root path : Path) : Path := if tree.isLockedLink path then root else path

/-- The path of a failure. -/
def failing? : Visit → Option Path
  | .file _ => none
  | .failed path _ => some path

/-! ## Entries that cannot be visited -/

/-- Why an entry that a walk comes to cannot be visited, `entered` being the places of the directories that the walk is
in. A link is followed whatever its name is, but an excluded directory is never listed. -/
inductive Bars (tree : FileTree) (excluded : Name → Bool) (entered : Place → Prop) (path : Path) (name : Name) : Prop
  | unresolved {error : SystemError} (linked : tree.isLink path = true) (fails : tree.resolve path = .error error)
  | loop {place : Place} {entries : List (Name × Node)} (linked : tree.isLink path = true)
      (stands : Stands tree path place entries true) (within : entered place)
  | locked {place : Place} {entries : List (Name × Node)} (stands : Stands tree path place entries false)
      (kept : tree.isLink path = false → excluded name = false)

/-- The names on a way below a path to an entry that cannot be visited. -/
inductive Barred (tree : FileTree) (excluded : Name → Bool) : List Place → Path → List Name → Prop
  | here {seen : List Place} {path : Path} {listed : List (Name × Node)} {name : Name} {node : Node}
      (opened : tree.list path = .ok listed) (member : (name, node) ∈ listed)
      (bars : Bars tree excluded (· ∈ seen) (path.child name) name) : Barred tree excluded seen path [name]
  | inside {seen : List Place} {path : Path} {listed : List (Name × Node)} {name : Name} {node : Node} {next : Place}
      {names : List Name} (opened : tree.list path = .ok listed) (member : (name, node) ∈ listed)
      (kept : excluded name = false) (resolved : tree.resolve (path.child name) = .ok next)
      (apart : tree.isLink (path.child name) = true → next ∉ seen)
      (rest : Barred tree excluded (next :: seen) (path.child name) names) :
      Barred tree excluded seen path (name :: names)

theorem Bars.imp {tree : FileTree} {excluded : Name → Bool} {entered others : Place → Prop} {path : Path} {name : Name}
    (weaker : ∀ place, entered place → others place) (bars : Bars tree excluded entered path name) :
    Bars tree excluded others path name := by
  cases bars with
  | unresolved linked fails => exact .unresolved linked fails
  | loop linked stands within => exact .loop linked stands (weaker _ within)
  | locked stands kept => exact .locked stands kept

theorem Barred.opened {tree : FileTree} {excluded : Name → Bool} {seen : List Place} {path : Path} {names : List Name}
    (barred : Barred tree excluded seen path names) : ∃ listed, tree.list path = .ok listed := by
  cases barred with
  | here opened => exact ⟨_, opened⟩
  | inside opened => exact ⟨_, opened⟩

variable {tree : FileTree} {excluded : Name → Bool} {root path : Path} {place next : Place} {name : Name}
  {node : Node} {entries inner : List (Name × Node)} {readable : Bool} {others : List Ancestor}

theorem Stands.isLockedLink (stands : Stands tree path place entries readable) :
    tree.isLockedLink path = (tree.isLink path && !readable) := by
  have found := (FileTree.node_eq_ok tree path _).mpr ⟨place, stands.resolved, stands.there⟩
  rw [FileTree.isLockedLink, found]

/-! ## One entry -/

private theorem isLockedLink_of_error {error : SystemError} (fails : tree.resolve path = .error error) :
    tree.isLockedLink path = false := by
  cases found : tree.node? path with
  | error other => simp [FileTree.isLockedLink, found]
  | ok node =>
    obtain ⟨place, resolved, -⟩ := (FileTree.node_eq_ok tree path node).mp found
    cases fails.symm.trans resolved

private theorem linkTarget_failed (linked : tree.isLink path = true) {ancestors : List Ancestor} {failing : Path}
    {message : String} (led : linkTarget tree root ancestors path = .failed failing message) :
    failing = recordedAs tree root path ∧
      ∀ excluded name, Bars tree excluded (· ∈ ancestors.map Ancestor.place) path name := by
  unfold linkTarget at led
  split at led
  next error fails =>
    cases led
    exact ⟨by simp [recordedAs, isLockedLink_of_error fails], fun _ _ => .unresolved linked fails⟩
  next place resolved =>
    split at led
    next entries there =>
      have stands : Stands tree path place entries false := ⟨resolved, there⟩
      cases led
      refine ⟨by simp [recordedAs, stands.isLockedLink, linked], fun _ _ => .locked stands fun plain => ?_⟩
      cases linked.symm.trans plain
    next entries there =>
      have stands : Stands tree path place entries true := ⟨resolved, there⟩
      split at led
      next ancestor found =>
        cases led
        have same : ancestor.place = place := by simpa using List.find?_some found
        have within : place ∈ ancestors.map Ancestor.place :=
          same ▸ List.mem_map_of_mem (List.mem_of_find?_eq_some found)
        exact ⟨by simp [recordedAs, stands.isLockedLink], fun _ _ => .loop linked stands within⟩
      next => cases led
    next => cases led

private theorem linkTarget_of_bars {ancestors : List Ancestor}
    (bars : Bars tree excluded (· ∈ ancestors.map Ancestor.place) path name) :
    ∃ failing message, linkTarget tree root ancestors path = .failed failing message := by
  cases bars with
  | unresolved _ fails => exact ⟨_, _, by rw [linkTarget, fails]⟩
  | locked stands => exact ⟨root, SystemError.denied.message, by simp only [linkTarget, stands.resolved, stands.there]⟩
  | @loop place entries _ stands within =>
    obtain ⟨ancestor, member, same⟩ := List.mem_map.mp within
    cases found : ancestors.find? fun ancestor => ancestor.place = place with
    | none => exact absurd same (by simpa using List.find?_eq_none.mp found ancestor member)
    | some other => exact ⟨_, _, by simp only [linkTarget, stands.resolved, stands.there, found]; rfl⟩

/-- An entry fails at once, or when it is a directory that cannot be listed and is not excluded. -/
private theorem bars_iff (root : Path) (stands : Stands tree path place entries true)
    (member : (name, node) ∈ Node.listing entries) :
    Bars tree excluded (· ∈ (⟨path, place⟩ :: others).map Ancestor.place) (path.child name) name ↔
      (∃ failing message,
        target tree root (⟨path, place⟩ :: others) (path.child name) name node = .failed failing message) ∨
      excluded name = false ∧ ∃ next inner,
        target tree root (⟨path, place⟩ :: others) (path.child name) name node = .directory next ∧
          Stands tree (path.child name) next inner false := by
  have linked := stands.isLink_entry member
  constructor
  · intro bars
    cases plain : tree.isLink (path.child name) with
    | true =>
      obtain ⟨goal, rfl⟩ := linked.mp plain
      exact Or.inl (linkTarget_of_bars bars)
    | false =>
      -- What is no link fails only as a directory that cannot be listed.
      have noLink : ∀ goal, node ≠ .link goal := fun goal same => by simp [linked.mpr ⟨goal, same⟩] at plain
      obtain ⟨resolved, there⟩ := stands.resolve_entry member noLink
      cases bars with
      | unresolved other | loop other => cases plain.symm.trans other
      | locked inside kept =>
        cases Except.ok.inj (resolved.symm.trans inside.resolved)
        cases there.symm.trans inside.there
        exact Or.inr ⟨kept plain, _, _, rfl, inside⟩
  · rintro (⟨failing, message, led⟩ | ⟨kept, next, inner, led, inside⟩)
    · cases node with
      | link goal => exact (linkTarget_failed (linked.mpr ⟨goal, rfl⟩) led).2 excluded name
      | file content open_ => cases led
      | directory below open_ => cases led
    · exact .locked inside fun _ => kept

private theorem recordedAs_of_failed (stands : Stands tree path place entries true)
    (member : (name, node) ∈ Node.listing entries) {ancestors : List Ancestor} {failing : Path} {message : String}
    (led : target tree root ancestors (path.child name) name node = .failed failing message) :
    failing = recordedAs tree root (path.child name) := by
  cases node with
  | link goal =>
    have linked := (stands.isLink_entry member).mpr ⟨goal, rfl⟩
    exact (linkTarget_failed linked led).1
  | file content open_ => cases led
  | directory below open_ => cases led

/-! ## A walk -/

/-- The first name on a way that is barred is that of an entry that fails, or of a directory that the walk enters. -/
private theorem barred_cons (root : Path) {names : List Name} (stands : Stands tree path place entries true)
    (member : (name, node) ∈ Node.listing entries) :
    Barred tree excluded ((⟨path, place⟩ :: others).map Ancestor.place) path (name :: names) ↔
      (names = [] ∧ Bars tree excluded (· ∈ (⟨path, place⟩ :: others).map Ancestor.place) (path.child name) name) ∨
      excluded name = false ∧ ∃ next inner,
        target tree root (⟨path, place⟩ :: others) (path.child name) name node = .directory next ∧
          Stands tree (path.child name) next inner true ∧
          Barred tree excluded ((⟨path.child name, next⟩ :: ⟨path, place⟩ :: others).map Ancestor.place)
            (path.child name) names := by
  constructor
  · intro barred
    cases barred with
    | here _ _ bars => exact Or.inl ⟨rfl, bars⟩
    | inside _ _ kept resolved apart rest =>
      obtain ⟨_, below⟩ := rest.opened
      obtain ⟨other, inner, inside, -⟩ := stands_of_list below
      cases Except.ok.inj (resolved.symm.trans inside.resolved)
      exact Or.inr ⟨kept, _, inner, target_of_stands stands member inside apart, inside, rest⟩
  · rintro (⟨rfl, bars⟩ | ⟨kept, next, inner, led, inside, rest⟩)
    · exact .here stands.list_readable member bars
    · refine .inside stands.list_readable member kept inside.resolved (fun linked => ?_) rest
      obtain ⟨goal, rfl⟩ := (stands.isLink_entry member).mp linked
      rcases target_directory.mp led with ⟨_, _, differ, -⟩ | ⟨-, -, apart⟩
      · cases differ
      · exact apart

/-- The failures among some visits are met at the ends of ways below a path, each of them once, and recorded in the
order of the names on the ways. -/
private def Failures (tree : FileTree) (root path : Path) (visits : List Visit) (met : List Name → Prop) : Prop :=
  ∃ trails, Trails failing? (fun trail => recordedAs tree root (path.below trail)) visits trails ∧
    ∀ trail, trail ∈ trails ↔ met trail

/-- What fails at an entry and below it, if it is known what fails below a directory that is entered. -/
private theorem failures_entry {fuel : Nat} (stands : Stands tree path place entries true)
    (member : (name, node) ∈ Node.listing entries)
    (filled : ∀ next, target tree root (⟨path, place⟩ :: others) (path.child name) name node = .directory next →
      0 < fuel)
    (entered : ∀ next inner, target tree root (⟨path, place⟩ :: others) (path.child name) name node = .directory next →
      Stands tree (path.child name) next inner true →
      Failures tree root (path.child name)
        (visitBelow tree excluded root fuel (⟨path.child name, next⟩ :: ⟨path, place⟩ :: others) (path.child name))
        (Barred tree excluded ((⟨path.child name, next⟩ :: ⟨path, place⟩ :: others).map Ancestor.place)
          (path.child name))) :
    Failures tree root (path.child name)
      (visitEntry tree excluded root fuel (⟨path, place⟩ :: others) path (name, node))
      fun trail => Barred tree excluded ((⟨path, place⟩ :: others).map Ancestor.place) path (name :: trail) := by
  simp only [Failures, barred_cons root stands member, bars_iff root stands member, visitEntry]
  cases led : target tree root (⟨path, place⟩ :: others) (path.child name) name node with
  | failed failing message =>
    have recorded := recordedAs_of_failed stands member led
    exact ⟨[[]], trails_here (by simp [failing?, recorded]), by simp⟩
  | file => exact ⟨[], trails_none (by cases excluded name <;> rfl), by simp⟩
  | directory next =>
    obtain ⟨inner, readable, inside⟩ := stands.step member led
    -- The path stands for this directory only.
    have only {other : List (Name × Node)} {open_ : Bool} :
        Stands tree (path.child name) next other open_ ↔ other = inner ∧ open_ = readable := by
      constructor
      · intro also
        cases inside.there.symm.trans also.there
        exact ⟨rfl, rfl⟩
      · rintro ⟨rfl, rfl⟩
        exact inside
    cases excluded name with
    | true => exact ⟨[], trails_none rfl, by simp⟩
    | false =>
      cases readable with
      | true =>
        obtain ⟨trails, recorded, exactly⟩ := entered next inner led inside
        exact ⟨trails, recorded, by simpa [only] using exactly⟩
      | false =>
        -- A link to such a directory fails before it is entered.
        have plain : tree.isLink (path.child name) = false := by
          rcases target_directory.mp led with ⟨_, _, rfl, -⟩ | ⟨-, ⟨other, open_⟩, -⟩
          · simpa using stands.isLink_entry member
          · cases (only.mp open_).2
        obtain ⟨fuel, rfl⟩ := Nat.exists_eq_add_one.mpr (filled next led)
        simp only [visitBelow, inside.list_unreadable]
        exact ⟨[[]], trails_here (by simp [failing?, recordedAs, inside.isLockedLink, plain]), by simp [only]⟩

/-- What fails below a directory that can be listed, by induction on the bound of the branch: all entries are met, and
what fails below one is told by its name first. -/
private theorem failures_below {fuel : Nat} (stands : Stands tree path place entries true)
    (enough : room tree (⟨path, place⟩ :: others) (.directory entries true) ≤ fuel) :
    Failures tree root path (visitBelow tree excluded root fuel (⟨path, place⟩ :: others) path)
      (Barred tree excluded ((⟨path, place⟩ :: others).map Ancestor.place) path) := by
  induction fuel generalizing path place entries others with
  | zero =>
    have some_ := room_pos tree (⟨path, place⟩ :: others) entries true
    omega
  | succ fuel ih =>
    have each (entry : Name × Node) (member : entry ∈ Node.listing entries) :
        Failures tree root (path.child entry.1)
          (visitEntry tree excluded root fuel (⟨path, place⟩ :: others) path entry)
          fun trail => Barred tree excluded ((⟨path, place⟩ :: others).map Ancestor.place) path (entry.1 :: trail) := by
      obtain ⟨name, node⟩ := entry
      refine failures_entry stands member (fun next led => ?_) fun next inner led inside => ih inside ?_
      · obtain ⟨inner, open_, inside⟩ := stands.step member led
        have less := room_step root stands member led inside
        have some_ := room_pos tree (⟨path.child name, next⟩ :: ⟨path, place⟩ :: others) inner open_
        omega
      · exact Nat.le_of_lt_succ (Nat.lt_of_lt_of_le (room_step root stands member led inside) enough)
    choose! trails recorded exactly using each
    rw [visitBelow_readable stands]
    refine ⟨_, trails_entries _ trails _ (FileTree.sorted_of_list stands.list_readable)
      (FileTree.isEntry_of_list stands.list_readable) recorded, fun trail => ?_⟩
    simp only [List.mem_flatMap, List.mem_map]
    constructor
    · rintro ⟨entry, member, tail, within, rfl⟩
      exact (exactly entry member tail).mp within
    · intro barred
      -- A way that is barred begins with a name that is listed.
      have listed : ∃ name node tail, trail = name :: tail ∧ (name, node) ∈ Node.listing entries := by
        cases barred with
        | here opened member | inside opened member =>
          obtain ⟨-, rfl⟩ := stands.listed opened
          exact ⟨_, _, _, rfl, member⟩
      obtain ⟨name, node, tail, rfl, member⟩ := listed
      exact ⟨(name, node), member, tail, (exactly (name, node) member tail).mpr barred, rfl⟩

/-- What a walk cannot visit bars ways from its root. It is met once, in the order of the names on the ways. -/
theorem failures_of_visits {found : List Visit} (walked : visits tree excluded root = .ok found) :
    ∃ place trails, tree.resolve root = .ok place ∧
      Trails failing? (fun trail => recordedAs tree root (root.below trail)) found trails ∧
      ∀ trail, trail ∈ trails ↔ Barred tree excluded [place] root trail := by
  obtain ⟨place, entries, stands, rfl⟩ := stands_of_visits walked
  obtain ⟨trails, recorded, exactly⟩ := failures_below stands (room_start tree _ stands.there)
  exact ⟨place, trails, stands.resolved, recorded, exactly⟩

end Walk

end EnvAudit
