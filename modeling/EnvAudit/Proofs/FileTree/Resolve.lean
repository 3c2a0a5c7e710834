import EnvAudit.Proofs.FileTree
import EnvAudit.Proofs.Path
import EnvAudit.Proofs.Walk.Below
import Mathlib.Data.List.Induction

/-! Where paths lead. A name behind a path leads to the entry of the directory that the path leads to, and no path
leads to a link. -/
namespace EnvAudit

namespace Path

/-- The path of an entry has the parts of its directory and the name, but for an empty part at the end. -/
theorem parts_child (path : Path) {name : Name} (present : path.bytes ≠ []) (entry : Name.isEntry name = true) :
    ∃ front, (path.parts = front ∨ path.parts = front ++ [.nothing]) ∧
      (path.child name).parts = front ++ [.name name] := by
  have noSlash := ((Name.isEntry_iff name).mp entry).2.2.2
  have named : Part.ofBytes name = .name name := by
    simp only [Name.isEntry, Bool.and_eq_true] at entry
    simpa using entry.1
  by_cases ended : path.bytes.getLast? = some slash
  · obtain ⟨front, spelled⟩ := List.getLast?_eq_some_iff.mp ended
    refine ⟨(split front).map Part.ofBytes, Or.inr ?_, ?_⟩
    · rw [parts, spelled, split_append]
      simp [split, Part.ofBytes]
    · simp [parts, child, spelled, split_append, split_entry noSlash, named]
  · refine ⟨path.parts, Or.inl rfl, ?_⟩
    simp [parts, child, present, ended, split_append, split_entry noSlash, named]

/-- The name of an entry by itself is a path from where paths begin. -/
theorem parts_child_empty {path : Path} (empty : path.bytes = []) {name : Name} (entry : Name.isEntry name = true) :
    (path.child name).parts = [.name name] ∧ (path.child name).isAbsolute = false := by
  have noSlash := ((Name.isEntry_iff name).mp entry).2.2.2
  have alone : path.child name = ⟨name⟩ := by simp [child, empty]
  rw [alone]
  constructor
  · simp only [Name.isEntry, Bool.and_eq_true, decide_eq_true_eq] at entry
    rw [parts, split_entry noSlash, List.map_singleton, entry.1]
  · rw [isAbsolute, decide_eq_false_iff_not]
    exact fun begins => noSlash (List.mem_of_head? begins)

theorem bytes_child_ne_nil {path : Path} (present : path.bytes ≠ []) (name : Name) : (path.child name).bytes ≠ [] := by
  unfold child
  split <;> simp [present]

theorem isAbsolute_child {path : Path} (present : path.bytes ≠ []) (name : Name) :
    (path.child name).isAbsolute = path.isAbsolute := by
  obtain ⟨byte, rest, spelled⟩ := List.exists_cons_of_ne_nil present
  unfold child isAbsolute
  split <;> simp [spelled]

end Path

namespace Node

theorem at?_append (node : Node) (place behind : Place) :
    node.at? (place ++ behind) = (node.at? place).bind fun inner => inner.at? behind := by
  induction place generalizing node with
  | nil => simp [at?]
  | cons name rest ih =>
    simp only [List.cons_append, at?]
    cases node.inner? name with
    | none => rfl
    | some next => exact ih next

theorem at?_entry {node : Node} {place : Place} {entries : List (Name × Node)} {readable : Bool}
    (found : node.at? place = some (.directory entries readable)) (name : Name) :
    node.at? (place ++ [name]) = entries.lookup name := by
  rw [at?_append, found]
  simp only [Option.bind_some, at?, inner?]
  cases entries.lookup name <;> rfl

/-- What lies above something is a directory. -/
theorem directory_of_at? {node inner : Node} {place : Place} {name : Name}
    (found : node.at? (place ++ [name]) = some inner) :
    ∃ entries readable, node.at? place = some (.directory entries readable) := by
  rw [at?_append] at found
  obtain ⟨above, there, found⟩ := Option.bind_eq_some_iff.mp found
  cases above with
  | directory entries readable => exact ⟨entries, readable, there⟩
  | file content readable => simp [at?, inner?] at found
  | link target => simp [at?, inner?] at found

end Node

namespace FileTree

theorem resolve_eq (tree : FileTree) (path : Path) :
    tree.resolve path =
      if path.bytes = [] then .error .notFound
      else follow tree.root mostLinks (if path.isAbsolute then [] else tree.here) path.parts true := rfl

theorem resolveEntry_eq (tree : FileTree) (path : Path) :
    tree.resolveEntry path =
      if path.bytes = [] then .error .notFound
      else follow tree.root mostLinks (if path.isAbsolute then [] else tree.here) path.parts false := rfl

/-- An empty path leads nowhere. -/
theorem present_of_resolve {tree : FileTree} {path : Path} {place : Place} (resolved : tree.resolve path = .ok place) :
    path.bytes ≠ [] := by
  intro empty
  rw [resolve_eq, if_pos empty] at resolved
  cases resolved

/-! ## Parts behind a part -/

/-- A directory that cannot be read is not searched. -/
theorem follow_denied {root : Node} {place : Place} {entries : List (Name × Node)}
    (there : root.at? place = some (.directory entries false)) {part : Path.Part} (some_ : part ≠ .nothing)
    (links : Nat) (rest : List Path.Part) (last : Bool) :
    follow root links place (part :: rest) last = .error .denied := by
  cases part with
  | nothing => exact absurd rfl some_
  | here => simp only [follow, there]
  | up => simp only [follow, there]
  | name name => simp only [follow, there]

/-- A link is not the last part of a path that goes on. -/
private theorem goes_on {rest more : List Path.Part} {last : Bool} (ends : more = [] → last = true) :
    ¬ (decide (rest ++ more = []) && !last) = true := by
  simp only [List.append_eq_nil_iff, Bool.and_eq_true, decide_eq_true_eq, Bool.not_eq_true']
  rintro ⟨⟨-, none⟩, open_⟩
  simp [ends none] at open_

/-- The first parts of a path lead to a place with some links left, or nowhere, whatever parts come behind. -/
theorem follow_append (root : Node) (links : Nat) (place : Place) (parts : List Path.Part) :
    (∃ error, ∀ more last, (more = [] → last = true) → follow root links place (parts ++ more) last = .error error) ∨
      ∃ left middle, left ≤ links ∧ ∀ more last, (more = [] → last = true) →
        follow root links place (parts ++ more) last = follow root left middle more last := by
  induction links, place, parts using follow.induct root true with
  | case1 links place => exact Or.inr ⟨links, place, Nat.le_refl _, fun _ _ _ => rfl⟩
  | case2 links place rest entries readable there ih => simpa only [List.cons_append, follow, there] using ih
  | case3 links place part rest entries some_ there =>
    exact Or.inl ⟨.denied, fun more last _ => follow_denied there some_ links (rest ++ more) last⟩
  | case4 links place rest entries there ih => simpa only [List.cons_append, follow, there] using ih
  | case5 links place rest entries there ih => simpa only [List.cons_append, follow, there] using ih
  | case6 links place rest entries name absent there =>
    exact Or.inl ⟨.notFound, fun _ _ _ => by simp only [List.cons_append, follow, there, absent]⟩
  | case7 links place rest entries name target found ends there => simp at ends
  | case8 place rest entries name target found _ there =>
    refine Or.inl ⟨.tooManyLinks, fun more last ends => ?_⟩
    simp only [List.cons_append, follow, there, found, if_neg (goes_on ends)]
  | case9 place rest entries name target found _ links there ih =>
    -- The parts of the link come before those that are left, so what comes behind stays behind.
    have step {more : List Path.Part} {last : Bool} (ends : more = [] → last = true) :
        follow root (links + 1) place (.name name :: rest ++ more) last =
          follow root links (if target.isAbsolute then [] else place) (target.parts ++ rest ++ more) last := by
      simp only [List.cons_append, follow, there, found, if_neg (goes_on ends), List.append_assoc]
      rfl
    rcases ih with ⟨error, fails⟩ | ⟨left, middle, fewer, leads⟩
    · exact Or.inl ⟨error, fun more last ends => (step ends).trans (fails more last ends)⟩
    · exact Or.inr ⟨left, middle, Nat.le_succ_of_le fewer,
        fun more last ends => (step ends).trans (leads more last ends)⟩
  | case10 links place rest entries name node plain found there ih =>
    cases node with
    | link target => exact absurd rfl (plain target)
    | file content readable => simpa only [List.cons_append, follow, there, found] using ih
    | directory inner readable => simpa only [List.cons_append, follow, there, found] using ih
  | case11 links place part rest content readable there =>
    exact Or.inl ⟨.notDirectory, fun _ _ _ => by simp only [List.cons_append, follow, there]⟩
  | case12 links place part rest noDirectory noFile =>
    refine Or.inl ⟨.notFound, fun _ _ _ => ?_⟩
    rw [List.cons_append, follow]
    split
    next entries readable there => exact absurd there (noDirectory entries readable)
    next content readable there => exact absurd there (noFile content readable)
    next => rfl

/-- A path that leads to a directory with an entry leads to the entry when its name is put behind. -/
theorem follow_child {tree : FileTree} {path : Path} {place : Place} (resolved : tree.resolve path = .ok place)
    {name : Name} (entry : Name.isEntry name = true) :
    ∃ left ≤ mostLinks, tree.resolve (path.child name) = follow tree.root left place [.name name] true ∧
      tree.resolveEntry (path.child name) = follow tree.root left place [.name name] false := by
  rw [resolve_eq] at resolved
  split at resolved
  · cases resolved
  next present =>
  obtain ⟨front, parted, childParts⟩ := Path.parts_child path present entry
  have childPresent := Path.bytes_child_ne_nil present name
  rw [resolve_eq, resolveEntry_eq, if_neg childPresent, if_neg childPresent, Path.isAbsolute_child present, childParts]
  rcases follow_append tree.root mostLinks (if path.isAbsolute then [] else tree.here) front with
    ⟨error, fails⟩ | ⟨left, middle, fewer, leads⟩
  · rcases parted with whole | dotted
    · have failed := fails [] true fun _ => rfl
      rw [List.append_nil, ← whole, resolved] at failed
      cases failed
    · have failed := fails [.nothing] true fun _ => rfl
      rw [← dotted, resolved] at failed
      cases failed
  · have arrived : middle = place := by
      rcases parted with whole | dotted
      · have led := leads [] true fun _ => rfl
        rw [List.append_nil, ← whole, resolved, follow] at led
        exact (Except.ok.inj led).symm
      · have led := leads [.nothing] true fun _ => rfl
        rw [← dotted, resolved, follow] at led
        -- An empty part at the end stays where it is.
        split at led
        · rw [follow] at led
          exact (Except.ok.inj led).symm
        · cases led
        · cases led
    subst arrived
    exact ⟨left, fewer, leads _ true (by simp), leads _ false (by simp)⟩

section Entries

variable {tree : FileTree} {path : Path} {place : Place} {entries : List (Name × Node)} {name : Name} {node : Node}

theorem resolve_child (resolved : tree.resolve path = .ok place)
    (there : tree.root.at? place = some (.directory entries true)) (entry : Name.isEntry name = true)
    (found : entries.lookup name = some node) (plain : ∀ target, node ≠ .link target) :
    tree.resolve (path.child name) = .ok (place ++ [name]) := by
  obtain ⟨left, -, leads, -⟩ := follow_child resolved entry
  rw [leads]
  cases node with
  | link target => exact absurd rfl (plain target)
  | file content readable => simp only [follow, there, found]
  | directory inner readable => simp only [follow, there, found]

theorem isLink_child (resolved : tree.resolve path = .ok place)
    (there : tree.root.at? place = some (.directory entries true)) (entry : Name.isEntry name = true)
    (found : entries.lookup name = some node) :
    tree.isLink (path.child name) = true ↔ ∃ target, node = .link target := by
  obtain ⟨left, -, -, leads⟩ := follow_child resolved entry
  have entered : tree.resolveEntry (path.child name) = .ok (place ++ [name]) := by
    rw [leads]
    cases node <;> simp [follow, there, found]
  rw [isLink, entered]
  simp only [Node.at?_entry there, found]
  cases node <;> simp

end Entries

/-! ## Ends of paths -/

/-- A place that has something other than a link. -/
def Holds (root : Node) (place : Place) : Prop := ∃ node, root.at? place = some node ∧ ∀ target, node ≠ .link target

private theorem holds_directory {root : Node} {place : Place} {entries : List (Name × Node)} {readable : Bool}
    (there : root.at? place = some (.directory entries readable)) : Holds root place :=
  ⟨_, there, by simp⟩

private theorem holds_dropLast {root : Node} {place : Place} {entries : List (Name × Node)} {readable : Bool}
    (there : root.at? place = some (.directory entries readable)) : Holds root place.dropLast := by
  cases place using List.reverseRecOn with
  | nil => exact holds_directory there
  | append_singleton front name =>
    obtain ⟨above, open_, found⟩ := Node.directory_of_at? there
    rw [List.dropLast_concat]
    exact holds_directory found

private theorem holds_follow {root : Node} {links : Nat} {place final : Place} {parts : List Path.Part}
    (followed : follow root links place parts true = .ok final) (start : parts = [] → Holds root place) :
    Holds root final := by
  induction links, place, parts using follow.induct root true with
  | case1 links place =>
    rw [follow] at followed
    exact Except.ok.inj followed ▸ start rfl
  | case2 links place rest entries readable there ih =>
    simp only [follow, there] at followed
    exact ih followed fun _ => holds_directory there
  | case3 links place part rest entries some_ there =>
    rw [follow_denied there some_] at followed
    cases followed
  | case4 links place rest entries there ih =>
    simp only [follow, there] at followed
    exact ih followed fun _ => holds_directory there
  | case5 links place rest entries there ih =>
    simp only [follow, there] at followed
    exact ih followed fun _ => holds_dropLast there
  | case6 links place rest entries name absent there => simp [follow, there, absent] at followed
  | case7 links place rest entries name target found ends there => simp at ends
  | case8 place rest entries name target found goesOn there => simp [follow, there, found] at followed
  | case9 place rest entries name target found goesOn links there ih =>
    simp only [follow, there, found, if_neg goesOn] at followed
    -- A link has parts itself, so the path goes on.
    exact ih followed fun none => absurd (List.append_eq_nil_iff.mp none).1 (Path.parts_ne_nil target)
  | case10 links place rest entries name node plain found there ih =>
    have held : Holds root (place ++ [name]) := ⟨node, by rw [Node.at?_entry there, found], plain⟩
    cases node with
    | link target => exact absurd rfl (plain target)
    | file content readable =>
      simp only [follow, there, found] at followed
      exact ih followed fun _ => held
    | directory inner readable =>
      simp only [follow, there, found] at followed
      exact ih followed fun _ => held
  | case11 links place part rest content readable there => simp [follow, there] at followed
  | case12 links place part rest noDirectory noFile =>
    rw [follow] at followed
    split at followed
    next entries readable there => exact absurd there (noDirectory entries readable)
    next content readable there => exact absurd there (noFile content readable)
    next => cases followed

/-- A path leads to a file or a directory, never to a link. -/
theorem holds_of_resolve {tree : FileTree} {path : Path} {place : Place} (resolved : tree.resolve path = .ok place) :
    Holds tree.root place := by
  rw [resolve_eq] at resolved
  split at resolved
  · cases resolved
  · exact holds_follow resolved fun none => absurd none (Path.parts_ne_nil path)

end FileTree
end EnvAudit
