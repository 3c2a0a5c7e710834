import EnvAudit.FileTree.Edit
import EnvAudit.Proofs.FileTree.Links

/-! Trees from which a file is removed. A path leads to the same place as before, or fails as before, unless it or a link
on the way comes by the file. -/
namespace EnvAudit

namespace Node

/-- Two trees have the same at one place: nothing, a file, a link, or directories that both can be listed or both
cannot. -/
inductive SameKind : Option Node → Option Node → Prop
  | nothing : SameKind none none
  | file (content : ByteArray) (readable : Bool) :
      SameKind (some (.file content readable)) (some (.file content readable))
  | link (target : Path) : SameKind (some (.link target)) (some (.link target))
  | directory (left right : List (Name × Node)) (readable : Bool) :
      SameKind (some (.directory left readable)) (some (.directory right readable))

theorem SameKind.refl (node : Option Node) : SameKind node node := by
  cases node with
  | none => exact .nothing
  | some node =>
    cases node with
    | file content readable => exact .file content readable
    | link target => exact .link target
    | directory entries readable => exact .directory entries entries readable

namespace SameKind

variable {left right : Option Node} {node : Node} {entries : List (Name × Node)} {readable : Bool}

theorem isSome (kind : SameKind left right) : right.isSome = left.isSome := by
  cases kind <;> rfl

theorem of_none (kind : SameKind none right) : right = none := by
  cases kind
  rfl

theorem of_directory (kind : SameKind (some (.directory entries readable)) right) :
    ∃ others, right = some (.directory others readable) := by
  cases kind with
  | directory entries others readable => exact ⟨others, rfl⟩

theorem of_plain (kind : SameKind (some node) right) (plain : node.isDirectory = false) : right = some node := by
  cases kind with
  | file content readable => rfl
  | link target => rfl
  | directory entries others readable => cases plain

end SameKind

/-- A tree without what another one has at a place. -/
structure Without (place : Place) (left right : Node) : Prop where
  removed : right.at? place = none
  kept : ∀ other, other ≠ place → SameKind (left.at? other) (right.at? other)

namespace Without

variable {place other : Place} {left right node : Node} {entries : List (Name × Node)} {readable : Bool}

theorem directory (without : Without place left right) (there : left.at? other = some (.directory entries readable))
    (apart : other ≠ place) : ∃ others, right.at? other = some (.directory others readable) :=
  (there ▸ without.kept other apart).of_directory

theorem plain (without : Without place left right) (there : left.at? other = some node) (apart : other ≠ place)
    (plain : node.isDirectory = false) : right.at? other = some node :=
  (there ▸ without.kept other apart).of_plain plain

theorem absent (without : Without place left right) (there : left.at? other = none) : right.at? other = none := by
  by_cases here : other = place
  · rw [here, without.removed]
  · exact (there ▸ without.kept other here).of_none

end Without

/-! ## Entries -/

private theorem lookup_cons (name : Name) (entry : Name × Node) (rest : List (Name × Node)) :
    (entry :: rest).lookup name = if name = entry.1 then some entry.2 else rest.lookup name := by
  rw [List.lookup_cons]
  by_cases same : name = entry.1
  · rw [if_pos same, same, beq_self_eq_true]
  · rw [if_neg same, beq_eq_false_iff_ne.mpr same]

theorem lookup_putEntry (name other : Name) (node : Node) (entries : List (Name × Node)) :
    (putEntry name node entries).lookup other = if other = name then some node else entries.lookup other := by
  induction entries with
  | nil => rw [putEntry, lookup_cons]
  | cons entry rest ih =>
    rw [putEntry]
    by_cases here : entry.1 = name
    · rw [if_pos here, lookup_cons, lookup_cons, here]
      by_cases same : other = name <;> simp [same]
    · rw [if_neg here, lookup_cons, lookup_cons, ih]
      by_cases same : other = entry.1
      · simp [same, here]
      · simp [same]

theorem lookup_without (name other : Name) (entries : List (Name × Node)) :
    (entries.filter fun entry => entry.1 ≠ name).lookup other = if other = name then none else entries.lookup other := by
  induction entries with
  | nil => simp
  | cons entry rest ih =>
    rw [List.filter_cons]
    by_cases here : entry.1 = name
    · rw [if_neg (by simp [here]), ih, lookup_cons, here]
      by_cases same : other = name <;> simp [same]
    · rw [if_pos (by simp [here]), lookup_cons, lookup_cons, ih]
      by_cases same : other = entry.1
      · simp [same, here]
      · simp [same]

theorem areWellNamed_putEntry {name : Name} {node : Node} {entries : List (Name × Node)}
    (named : Name.isEntry name = true) (wellNamed : node.isWellNamed = true) (others : areWellNamed entries = true) :
    areWellNamed (putEntry name node entries) = true := by
  induction entries with
  | nil => simp [putEntry, areWellNamed, named, wellNamed]
  | cons entry rest ih =>
    simp only [areWellNamed, Bool.and_eq_true] at others
    rw [putEntry]
    split
    · simp [areWellNamed, named, wellNamed, others]
    · simp [areWellNamed, others, ih others.2]

theorem areWellNamed_without (name : Name) {entries : List (Name × Node)} (wellNamed : areWellNamed entries = true) :
    areWellNamed (entries.filter fun entry => entry.1 ≠ name) = true := by
  rw [areWellNamed_iff] at wellNamed ⊢
  intro entry member
  exact wellNamed entry (List.mem_of_mem_filter member)

/-! ## The tree without a file -/

/-- Taking a file away leaves a tree without it, of names as before. -/
theorem change_none {node : Node} {place : Place} {content : ByteArray} {readable : Bool} (inside : place ≠ [])
    (there : node.at? place = some (.file content readable)) :
    ∃ other, change (fun _ => none) (some node) place = some other ∧ Without place node other ∧
      (node.isWellNamed = true → other.isWellNamed = true) := by
  induction place generalizing node with
  | nil => exact absurd rfl inside
  | cons name rest ih =>
    obtain ⟨next, entered, deeper⟩ := Option.bind_eq_some_iff.mp there
    cases node with
    | file content readable => simp [inner?] at entered
    | link target => simp [inner?] at entered
    | directory entries listed =>
      rw [inner?] at entered
      cases rest with
      | nil =>
        cases Option.some.inj deeper
        refine ⟨.directory (entries.filter fun entry => entry.1 ≠ name) listed, ?_, ⟨?_, ?_⟩, ?_⟩
        · simp only [change]
        · rw [at?, inner?, lookup_without, if_pos rfl]
          rfl
        · intro other differ
          cases other with
          | nil => exact .directory _ _ _
          | cons first tail =>
            rw [at?, at?, inner?, inner?, lookup_without]
            by_cases same : first = name
            · subst same
              rw [if_pos rfl, entered]
              cases tail with
              | nil => exact absurd rfl differ
              | cons second tail => exact .nothing
            · rw [if_neg same]
              exact .refl _
        · exact areWellNamed_without name
      | cons second tail =>
        obtain ⟨other, changed, without, wellNamed⟩ := ih (by simp) deeper
        refine ⟨.directory (putEntry name other entries) listed, ?_, ⟨?_, ?_⟩, ?_⟩
        · simp only [change, entered, changed]
        · simpa [at?, inner?, lookup_putEntry] using without.removed
        · intro place differ
          cases place with
          | nil => exact .directory _ _ _
          | cons first rest =>
            rw [at?, at?, inner?, inner?, lookup_putEntry]
            by_cases same : first = name
            · subst same
              rw [if_pos rfl, entered]
              exact without.kept rest fun equal => differ (congrArg (first :: ·) equal)
            · rw [if_neg same]
              exact .refl _
        · intro named
          have member := listing_subset entries ((mem_listing_iff entries name next).mpr entered)
          obtain ⟨entry, inner⟩ := (areWellNamed_iff entries).mp named _ member
          exact areWellNamed_putEntry entry (wellNamed inner) named

end Node

namespace FileTree

open Node (SameKind Without)

/-! ## Ways that do not come by a place -/

/-- No front part of a way leads to a place. -/
def Avoids (root : Node) (links : Nat) (start : Place) (parts : List Path.Part) (place : Place) : Prop :=
  ∀ front, front <+: parts → follow root links start front true ≠ .ok place

/-- Behind a file a way does not go on. -/
private theorem avoids_of_follow {root : Node} {links : Nat} {start final place : Place} {parts : List Path.Part}
    (led : follow root links start parts true = .ok final) (apart : final ≠ place) {content : ByteArray}
    {readable : Bool} (file : root.at? place = some (.file content readable)) :
    Avoids root links start parts place := by
  rintro front ⟨behind, rfl⟩ there
  rcases follow_append root links start front with ⟨error, fails⟩ | ⟨left, middle, -, leads⟩
  · cases led.symm.trans (fails behind true fun _ => rfl)
  · have arrived := leads [] true fun _ => rfl
    rw [List.append_nil, there, follow] at arrived
    cases arrived
    rw [leads behind true fun _ => rfl] at led
    cases behind with
    | nil =>
      rw [follow] at led
      exact apart (Except.ok.inj led).symm
    | cons part rest => simp [follow, file] at led

private theorem Avoids.start_ne {root : Node} {links : Nat} {start place : Place} {parts : List Path.Part}
    (avoids : Avoids root links start parts place) : start ≠ place := by
  intro same
  apply avoids [] List.nil_prefix
  rw [follow, same]

/-- A step of a way is one of each front part of the way. -/
private theorem Avoids.step {root : Node} {links less : Nat} {start next place : Place} {part : Path.Part}
    {rest : List Path.Part} (avoids : Avoids root links start (part :: rest) place)
    (steps : ∀ front, follow root links start (part :: front) true = follow root less next front true) :
    Avoids root less next rest place := by
  intro front within there
  exact avoids (part :: front) (List.cons_prefix_cons.mpr ⟨rfl, within⟩) ((steps front).trans there)

/-- Parts that are followed in the place of a link avoid what the link does not come by. -/
private theorem Avoids.link {tree : FileTree} {links : Nat} {start place : Place} {name : Name} {target : Path}
    {rest : List Path.Part} {entries : List (Name × Node)}
    (avoids : Avoids tree.root (links + 1) start (.name name :: rest) place) (unlinked : ¬ LinkedThrough tree place)
    (fewer : links + 1 ≤ mostLinks) (there : tree.root.at? start = some (.directory entries true))
    (found : entries.lookup name = some (.link target)) :
    Avoids tree.root links (if target.isAbsolute then [] else start) (target.parts ++ rest) place := by
  intro front within led
  -- A front part ends inside the target of the link, or behind it where the way itself goes on.
  rcases List.prefix_or_prefix_of_prefix within (List.prefix_append target.parts rest) with inside | ⟨behind, rfl⟩
  · exact unlinked ⟨start, name, target, front, (Node.at?_entry there name).trans found, inside,
      follow_of_le led (Nat.le_sub_one_of_lt fewer)⟩
  · refine avoids (.name name :: behind)
      (List.cons_prefix_cons.mpr ⟨rfl, (List.prefix_append_right_inj _).mp within⟩) ?_
    simp only [follow, there, found, Bool.not_true, Bool.and_false, Bool.false_eq_true, if_false]
    exact led

private theorem lookup_link {left right : FileTree} {place start : Place} (without : Without place left.root right.root)
    {content : ByteArray} {readable : Bool} (file : left.root.at? place = some (.file content readable))
    {entries others : List (Name × Node)} {listed : Bool} {name : Name} {target : Path}
    (there : left.root.at? start = some (.directory entries listed))
    (same : right.root.at? start = some (.directory others listed))
    (found : entries.lookup name = some (.link target)) : others.lookup name = some (.link target) := by
  have link := (Node.at?_entry there name).trans found
  have apart : start ++ [name] ≠ place := by
    rintro rfl
    cases file.symm.trans link
  rw [← Node.at?_entry same name, without.plain link apart rfl]

/-- A way and the links on it that do not come by a file lead on when the file is not there. -/
theorem follow_without {left right : FileTree} {place start : Place} (without : Without place left.root right.root)
    {content : ByteArray} {readable : Bool} (file : left.root.at? place = some (.file content readable))
    (unlinked : ¬ LinkedThrough left place) {links : Nat} (fewer : links ≤ mostLinks) {parts : List Path.Part}
    (avoids : Avoids left.root links start parts place) (last : Bool) :
    follow right.root links start parts last = follow left.root links start parts last := by
  -- The way is gone in the tree with the file; each step leaves a way that avoids the file, and begins elsewhere.
  induction links, start, parts using follow.induct left.root last with
  | case1 links start => rw [follow, follow]
  | case2 links start rest entries listed there ih =>
    obtain ⟨others, same⟩ := without.directory there avoids.start_ne
    simp only [follow, there, same]
    exact ih fewer (avoids.step fun front => by simp only [follow, there])
  | case3 links start part rest entries some_ there =>
    obtain ⟨others, same⟩ := without.directory there avoids.start_ne
    rw [follow_denied there some_, follow_denied same some_]
  | case4 links start rest entries there ih =>
    obtain ⟨others, same⟩ := without.directory there avoids.start_ne
    simp only [follow, there, same]
    exact ih fewer (avoids.step fun front => by simp only [follow, there])
  | case5 links start rest entries there ih =>
    obtain ⟨others, same⟩ := without.directory there avoids.start_ne
    simp only [follow, there, same]
    exact ih fewer (avoids.step fun front => by simp only [follow, there])
  | case6 links start rest entries name absent there =>
    obtain ⟨others, same⟩ := without.directory there avoids.start_ne
    have gone : others.lookup name = none := by
      rw [← Node.at?_entry same name, without.absent ((Node.at?_entry there name).trans absent)]
    simp only [follow, there, same, absent, gone]
  | case7 links start rest entries name target found ends there =>
    obtain ⟨others, same⟩ := without.directory there avoids.start_ne
    have kept := lookup_link without file there same found
    simp only [follow, there, same, found, kept, if_pos ends]
  | case8 start rest entries name target found goesOn there =>
    obtain ⟨others, same⟩ := without.directory there avoids.start_ne
    have kept := lookup_link without file there same found
    simp only [follow, there, same, found, kept, if_neg goesOn]
  | case9 start rest entries name target found goesOn links there ih =>
    obtain ⟨others, same⟩ := without.directory there avoids.start_ne
    have kept := lookup_link without file there same found
    simp only [follow, there, same, found, kept, if_neg goesOn]
    exact ih (Nat.le_of_succ_le fewer) (avoids.link unlinked fewer there found)
  | case10 links start rest entries name node plain found there ih =>
    obtain ⟨others, same⟩ := without.directory there avoids.start_ne
    have inner := (Node.at?_entry there name).trans found
    cases node with
    | link target => exact absurd rfl (plain target)
    | file content readable =>
      have below : Avoids left.root links (start ++ [name]) rest place :=
        avoids.step fun front => by simp only [follow, there, found]
      have kept := without.plain inner below.start_ne rfl
      rw [Node.at?_entry same] at kept
      simp only [follow, there, same, found, kept]
      exact ih fewer below
    | directory inside readable =>
      have below : Avoids left.root links (start ++ [name]) rest place :=
        avoids.step fun front => by simp only [follow, there, found]
      obtain ⟨kept, still⟩ := without.directory inner below.start_ne
      rw [Node.at?_entry same] at still
      simp only [follow, there, same, found, still]
      exact ih fewer below
  | case11 links start part rest content readable there =>
    simp only [follow, there, without.plain there avoids.start_ne rfl]
  | case12 links start part rest noDirectory noFile =>
    cases there : left.root.at? start with
    | none => simp only [follow, there, without.absent there]
    | some node =>
      cases node with
      | directory entries readable => exact absurd there (noDirectory entries readable)
      | file content readable => exact absurd there (noFile content readable)
      | link target => simp only [follow, there, without.plain there avoids.start_ne rfl]

/-! ## Paths -/

/-- A tree without the file at a place, in which no link of the other tree comes by the place. -/
structure Lacks (place : Place) (left right : FileTree) : Prop where
  without : Without place left.root right.root
  here : right.here = left.here
  file : ∃ content readable, left.root.at? place = some (.file content readable)
  unlinked : ¬ LinkedThrough left place

variable {left right : FileTree} {place : Place} {path : Path}

/-- A path that does not come by the file leads to the same place, or fails in the same way. -/
theorem Lacks.resolve_of_avoids (lacks : Lacks place left right)
    (avoids : Avoids left.root mostLinks (if path.isAbsolute then [] else left.here) path.parts place) :
    right.resolve path = left.resolve path := by
  obtain ⟨content, readable, file⟩ := lacks.file
  rw [resolve_eq, resolve_eq, lacks.here, follow_without lacks.without file lacks.unlinked (Nat.le_refl _) avoids]

private theorem Lacks.avoids (lacks : Lacks place left right) {other : Place} (resolved : left.resolve path = .ok other)
    (apart : other ≠ place) :
    Avoids left.root mostLinks (if path.isAbsolute then [] else left.here) path.parts place := by
  obtain ⟨content, readable, file⟩ := lacks.file
  rw [resolve_eq] at resolved
  split at resolved
  · cases resolved
  · exact avoids_of_follow resolved apart file

theorem Lacks.resolve (lacks : Lacks place left right) {other : Place} (resolved : left.resolve path = .ok other)
    (apart : other ≠ place) : right.resolve path = .ok other := by
  rw [lacks.resolve_of_avoids (lacks.avoids resolved apart), resolved]

/-- A link in a directory leads to the same place, or fails in the same way. -/
theorem Lacks.resolve_link (lacks : Lacks place left right) {directory : Place} {entries : List (Name × Node)}
    {name : Name} {target : Path} (resolved : left.resolve path = .ok directory)
    (there : left.root.at? directory = some (.directory entries true)) (entry : Name.isEntry name = true)
    (found : entries.lookup name = some (.link target)) :
    left.resolve (path.child name) ≠ .ok place ∧ right.resolve (path.child name) = left.resolve (path.child name) := by
  have elsewhere : left.resolve (path.child name) ≠ .ok place := fun led =>
    lacks.unlinked (linkedTo_of_entry resolved there entry found led).through
  refine ⟨elsewhere, ?_⟩
  by_cases present : path.bytes = []
  · rw [resolve_eq, if_pos present] at resolved
    cases resolved
  obtain ⟨content, readable, file⟩ := lacks.file
  have apart : directory ≠ place := by
    rintro rfl
    cases file.symm.trans there
  have avoids := lacks.avoids resolved apart
  obtain ⟨front, parted, childParts⟩ := Path.parts_child path present entry
  refine lacks.resolve_of_avoids fun begun within led => ?_
  rw [Path.isAbsolute_child present] at led
  rw [childParts, List.prefix_concat_iff] at within
  rcases within with rfl | within
  · apply elsewhere
    rw [resolve_eq, if_neg (Path.bytes_child_ne_nil present name), Path.isAbsolute_child present, childParts, led]
  · have shorter : begun <+: path.parts := by
      rcases parted with whole | dotted
      · rwa [whole]
      · rw [dotted]
        exact List.prefix_append_of_prefix within
    exact avoids begun shorter led

/-- The directory of the file stays, without the name of the file. -/
private theorem Lacks.lookup_removed (lacks : Lacks place left right) {directory : Place} {entries : List (Name × Node)}
    {name : Name} (same : place = directory ++ [name]) (there : left.root.at? directory = some (.directory entries true)) :
    ∃ others, right.root.at? directory = some (.directory others true) ∧ others.lookup name = none := by
  obtain ⟨others, also⟩ := lacks.without.directory there (by simp [same])
  refine ⟨others, also, ?_⟩
  rw [← Node.at?_entry also, ← same]
  exact lacks.without.removed

/-- The path of the file leads nowhere. -/
theorem Lacks.resolve_removed (lacks : Lacks place left right) {name : Name} (entry : Name.isEntry name = true)
    (entered : left.resolveEntry (path.child name) = .ok place) :
    right.resolve (path.child name) = .error .notFound := by
  by_cases present : path.bytes = []
  · obtain ⟨parted, relative⟩ := Path.parts_child_empty present entry
    rw [resolveEntry_eq, parted, relative] at entered
    split at entered
    · cases entered
    next childPresent =>
    rw [if_neg Bool.false_ne_true] at entered
    obtain ⟨same, entries, there⟩ := directory_of_follow entered
    obtain ⟨others, also, gone⟩ := lacks.lookup_removed same there
    rw [resolve_eq, if_neg childPresent, parted, relative, lacks.here]
    simp only [Bool.false_eq_true, if_false, follow, also, gone]
  · obtain ⟨directory, entries, resolved, there, same⟩ := directory_of_entry present entry entered
    obtain ⟨others, also, gone⟩ := lacks.lookup_removed same there
    obtain ⟨left, -, leads, -⟩ := follow_child (lacks.resolve resolved (by simp [same])) entry
    rw [leads]
    simp only [follow, also, gone]

/-- Removing a file that no link comes by leaves a tree that lacks it. -/
theorem lacks_remove {tree : FileTree} {content : ByteArray} {readable : Bool} (inside : place ≠ [])
    (entered : tree.resolveEntry path = .ok place) (file : tree.root.at? place = some (.file content readable))
    (unlinked : ¬ LinkedThrough tree place) : Lacks place tree (tree.remove path) := by
  obtain ⟨root, changed, without, wellNamed⟩ := Node.change_none inside file
  have removed : tree.remove path = { tree with root, wellNamed := wellNamed tree.wellNamed } := by
    simp only [remove, entered, edit, changed, wellNamed tree.wellNamed, dite_true]
  rw [removed]
  exact ⟨without, rfl, ⟨content, readable, file⟩, unlinked⟩

end FileTree

end EnvAudit
