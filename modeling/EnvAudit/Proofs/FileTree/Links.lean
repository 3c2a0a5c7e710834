import EnvAudit.Proofs.Walk.Agree

/-! What symbolic links lead to, and what they come by on the way there. -/
namespace EnvAudit.FileTree

/-- A link resolves to a place. -/
def LinkedTo (tree : FileTree) (place : Place) : Prop :=
  ∃ directory name target, tree.root.at? (directory ++ [name]) = some (.link target) ∧
    follow tree.root mostLinks directory [.name name] true = .ok place

/-- A link comes by a place: its target leads there, or begins with parts that do. -/
def LinkedThrough (tree : FileTree) (place : Place) : Prop :=
  ∃ directory name target front, tree.root.at? (directory ++ [name]) = some (.link target) ∧ front <+: target.parts ∧
    follow tree.root (mostLinks - 1) (if target.isAbsolute then [] else directory) front true = .ok place

/-- A way leads to the same place when more links may be followed. -/
theorem follow_of_le {root : Node} {links more : Nat} {place final : Place} {parts : List Path.Part} {last : Bool}
    (led : follow root links place parts last = .ok final) (fewer : links ≤ more) :
    follow root more place parts last = .ok final := by
  induction links, place, parts using follow.induct root last generalizing more with
  | case1 links place => simpa only [follow] using led
  | case2 links place rest entries readable there ih =>
    simp only [follow, there] at led ⊢
    exact ih led fewer
  | case3 links place part rest entries some_ there =>
    rw [follow_denied there some_] at led
    cases led
  | case4 links place rest entries there ih =>
    simp only [follow, there] at led ⊢
    exact ih led fewer
  | case5 links place rest entries there ih =>
    simp only [follow, there] at led ⊢
    exact ih led fewer
  | case6 links place rest entries name absent there => simp [follow, there, absent] at led
  | case7 links place rest entries name target found ends there =>
    simpa only [follow, there, found, if_pos ends] using led
  | case8 place rest entries name target found goesOn there => simp [follow, there, found, goesOn] at led
  | case9 place rest entries name target found goesOn links there ih =>
    obtain ⟨more, rfl⟩ := Nat.exists_eq_add_one.mpr (Nat.lt_of_lt_of_le (Nat.succ_pos links) fewer)
    simp only [follow, there, found, if_neg goesOn] at led ⊢
    exact ih led (Nat.le_of_succ_le_succ fewer)
  | case10 links place rest entries name node plain found there ih =>
    cases node with
    | link target => exact absurd rfl (plain target)
    | file content readable =>
      simp only [follow, there, found] at led ⊢
      exact ih led fewer
    | directory inner readable =>
      simp only [follow, there, found] at led ⊢
      exact ih led fewer
  | case11 links place part rest content readable there => simp [follow, there] at led
  | case12 links place part rest noDirectory noFile =>
    rw [follow] at led
    split at led
    next entries readable there => exact absurd there (noDirectory entries readable)
    next content readable there => exact absurd there (noFile content readable)
    next => cases led

variable {tree : FileTree} {path target : Path} {directory place : Place} {entries : List (Name × Node)} {name : Name}

/-- Following a link takes one of the links that may be followed. -/
theorem follow_link {root : Node} (there : root.at? directory = some (.directory entries true))
    (found : entries.lookup name = some (.link target)) (links : Nat) :
    follow root (links + 1) directory [.name name] true =
      follow root links (if target.isAbsolute then [] else directory) target.parts true := by
  simp only [follow, there, found, Bool.not_true, Bool.and_false, Bool.false_eq_true, if_false, List.append_nil]
  rfl

theorem LinkedTo.through (linked : LinkedTo tree place) : LinkedThrough tree place := by
  obtain ⟨directory, name, target, link, led⟩ := linked
  obtain ⟨entries, readable, there⟩ := Node.directory_of_at? link
  cases readable with
  | false =>
    rw [follow_denied there (by simp)] at led
    cases led
  | true =>
    rw [Node.at?_entry there] at link
    exact ⟨directory, name, target, target.parts, (Node.at?_entry there name).trans link, List.prefix_rfl,
      (follow_link there link (mostLinks - 1)).symm.trans led⟩

theorem not_linkedThrough_of_free (free : tree.root.isLinkFree = true) : ¬ LinkedThrough tree place := by
  rintro ⟨directory, name, target, front, link, -⟩
  cases Node.isLinkFree_at free link

/-- What the path of an entry leads to is linked to if the entry is a link. -/
theorem linkedTo_of_entry (resolved : tree.resolve path = .ok directory)
    (there : tree.root.at? directory = some (.directory entries true)) (entry : Name.isEntry name = true)
    (found : entries.lookup name = some (.link target)) (led : tree.resolve (path.child name) = .ok place) :
    LinkedTo tree place := by
  obtain ⟨left, fewer, leads, -⟩ := follow_child resolved entry
  exact ⟨directory, name, target, (Node.at?_entry there name).trans found,
    follow_of_le (leads.symm.trans led) fewer⟩

/-! ## Entries by their paths -/

/-- A name at the end of a way is looked up in a directory that can be read. -/
theorem directory_of_follow {root : Node} {links : Nat}
    (entered : follow root links directory [.name name] false = .ok place) :
    place = directory ++ [name] ∧ ∃ entries, root.at? directory = some (.directory entries true) := by
  rw [follow] at entered
  split at entered
  next entries readable there =>
    cases readable with
    | false => cases entered
    | true =>
      refine ⟨?_, entries, there⟩
      dsimp only at entered
      split at entered
      · cases entered
      · exact (Except.ok.inj entered).symm
      · rw [follow] at entered
        exact (Except.ok.inj entered).symm
  next => cases entered
  next => cases entered

/-- Only a name can be that of a link. -/
private theorem follow_unnamed {root : Node} {part : Path.Part} (unnamed : ∀ name, part ≠ .name name) (links : Nat)
    (place : Place) (last : Bool) : follow root links place [part] last = follow root links place [part] true := by
  cases part with
  | name name => exact absurd rfl (unnamed name)
  | nothing => simp only [follow]
  | here | up =>
    rcases there : root.at? place with _ | ⟨content, readable⟩ | ⟨entries, _ | _⟩ | target
    all_goals simp only [follow, there]

/-- A path names the entry that it leads to, unless that is a link. -/
theorem resolve_of_entry (entered : tree.resolveEntry path = .ok place)
    (plain : ∀ target, tree.root.at? place ≠ some (.link target)) : tree.resolve path = .ok place := by
  rw [resolveEntry_eq] at entered
  rw [resolve_eq]
  split at entered
  · cases entered
  next present =>
  rw [if_neg present]
  obtain ⟨front, part, parted⟩ := (List.eq_nil_or_concat' path.parts).resolve_left (Path.parts_ne_nil path)
  rw [parted] at entered ⊢
  -- Only the last part tells an entry from what it leads to.
  rcases follow_append tree.root mostLinks (if path.isAbsolute then [] else tree.here) front with
    ⟨error, fails⟩ | ⟨left, directory, -, leads⟩
  · cases entered.symm.trans (fails _ false (by simp))
  · rw [leads _ false (by simp)] at entered
    rw [leads _ true (by simp)]
    by_cases named : ∃ name, part = .name name
    · obtain ⟨name, rfl⟩ := named
      obtain ⟨rfl, entries, there⟩ := directory_of_follow entered
      have inner := Node.at?_entry there name
      simp only [follow, there] at entered ⊢
      cases found : entries.lookup name with
      | none => simp [found] at entered
      | some node =>
        cases node with
        | link target => exact absurd (inner.trans found) (plain target)
        | file content readable => simp only
        | directory inside readable => simp only
    · rw [← entered]
      exact (follow_unnamed (fun name same => named ⟨name, same⟩) left directory false).symm

/-- The path of an entry leads through the directory that it is in. -/
theorem directory_of_entry (present : path.bytes ≠ []) (entry : Name.isEntry name = true)
    (entered : tree.resolveEntry (path.child name) = .ok place) :
    ∃ directory entries, tree.resolve path = .ok directory ∧
      tree.root.at? directory = some (.directory entries true) ∧ place = directory ++ [name] := by
  obtain ⟨front, parted, childParts⟩ := Path.parts_child path present entry
  rw [resolveEntry_eq, if_neg (Path.bytes_child_ne_nil present name), Path.isAbsolute_child present, childParts] at entered
  rcases follow_append tree.root mostLinks (if path.isAbsolute then [] else tree.here) front with
    ⟨error, fails⟩ | ⟨left, directory, -, leads⟩
  · cases entered.symm.trans (fails _ false (by simp))
  · rw [leads _ false (by simp)] at entered
    obtain ⟨rfl, entries, there⟩ := directory_of_follow entered
    refine ⟨directory, entries, ?_, there, rfl⟩
    rw [resolve_eq, if_neg present]
    rcases parted with whole | dotted
    · have led := leads [] true fun _ => rfl
      rwa [List.append_nil, ← whole, follow] at led
    · rw [dotted, leads [.nothing] true (by simp)]
      simp only [follow, there]

/-- An entry that a path leads to is in a directory, also where the path begins with its name. -/
theorem inside_of_entry (entry : Name.isEntry name = true) (entered : tree.resolveEntry (path.child name) = .ok place) :
    ∃ directory entries, place = directory ++ [name] ∧ tree.root.at? directory = some (.directory entries true) := by
  by_cases present : path.bytes = []
  · obtain ⟨parted, relative⟩ := Path.parts_child_empty present entry
    rw [resolveEntry_eq, parted, relative] at entered
    split at entered
    · cases entered
    · obtain ⟨same, entries, there⟩ := directory_of_follow entered
      exact ⟨_, entries, same, there⟩
  · obtain ⟨directory, entries, -, there, same⟩ := directory_of_entry present entry entered
    exact ⟨directory, entries, same, there⟩

end EnvAudit.FileTree
