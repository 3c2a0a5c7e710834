import EnvAudit.Proofs.ProjectFiles
import EnvAudit.Proofs.Walk.Failures

/-! What of a project is recorded as skipped, said of the file system and of the names on the paths alone. -/
namespace EnvAudit.ProjectFiles

open Walk (Bars Barred recordedAs)

/-- The places that the ways behind some names have come through: those at hand, and those that names below a path lead
to. -/
def Entered (tree : FileTree) (seen : List Place) (path : Path) (names : List Name) (place : Place) : Prop :=
  place ∈ seen ∨ ∃ front behind, names = front ++ behind ∧ tree.resolve (path.below front) = .ok place

/-- The names below a path lead to an entry that a walk comes to and cannot visit, `seen` being the places of the
directories on the way to the path. -/
structure Unvisitable (tree : FileTree) (exclude : List String) (seen : List Place) (path : Path) (before : List Name)
    (name : Name) : Prop where
  /-- What comes before a name leads to a directory that can be listed, and lists the name. -/
  listed : ∀ outer each after, before ++ [name] = outer ++ each :: after →
    ∃ entries, tree.list (path.below outer) = .ok entries ∧ each ∈ entries.map Prod.fst
  kept : ∀ each ∈ before, ∀ excluded ∈ Path.excludedNames ++ exclude, Text.Utf8.encode excluded ≠ each
  /-- A link on the way leads to no directory that the way has come through. -/
  apart : ∀ outer each after, before = outer ++ each :: after →
    tree.isLink ((path.below outer).child each) = true →
    ∀ place, tree.resolve ((path.below outer).child each) = .ok place → ¬ Entered tree seen path outer place
  bars : Bars tree (isExcluded exclude) (Entered tree seen path before) ((path.below before).child name) name

variable {tree : FileTree} {exclude : List String} {root path : Path} {seen : List Place} {here : Place} {name : Name}

private theorem entered_nil (resolved : tree.resolve path = .ok here) (place : Place) :
    Entered tree seen path [] place ↔ place ∈ here :: seen := by
  simp only [Entered, List.mem_cons, or_comm (a := place = here)]
  refine or_congr_right ⟨?_, ?_⟩
  · rintro ⟨front, behind, split, leads⟩
    obtain ⟨rfl, rfl⟩ := List.append_eq_nil_iff.mp split.symm
    exact Except.ok.inj (leads.symm.trans resolved)
  · rintro rfl
    exact ⟨[], [], rfl, resolved⟩

private theorem entered_cons (resolved : tree.resolve path = .ok here) (name : Name) (names : List Name)
    (place : Place) :
    Entered tree seen path (name :: names) place ↔ Entered tree (here :: seen) (path.child name) names place := by
  constructor
  · rintro (member | ⟨front, behind, split, leads⟩)
    · exact Or.inl (List.mem_cons_of_mem _ member)
    · rcases List.cons_eq_append_iff.mp split with ⟨rfl, -⟩ | ⟨front, rfl, parted⟩
      · exact Or.inl (List.mem_cons.mpr (Or.inl (Except.ok.inj (leads.symm.trans resolved))))
      · exact Or.inr ⟨front, behind, parted, leads⟩
  · rintro (member | ⟨front, behind, rfl, leads⟩)
    · rcases List.mem_cons.mp member with rfl | member
      · exact Or.inr ⟨[], name :: names, rfl, resolved⟩
      · exact Or.inl member
    · exact Or.inr ⟨name :: front, behind, rfl, leads⟩

/-- Ways that are barred are those to entries that cannot be visited, by induction on the names before the last one. -/
private theorem barred_iff (resolved : tree.resolve path = .ok here) (before : List Name) :
    Barred tree (isExcluded exclude) (here :: seen) path (before ++ [name]) ↔
      Unvisitable tree exclude seen path before name := by
  induction before generalizing path seen here with
  | nil =>
    constructor
    · intro barred
      cases barred with
      | here opened member bars =>
        exact
          { listed := listed_cons opened member fun before other after split => by simp at split
            kept := by simp
            apart := by simp
            bars := bars.imp fun place => (entered_nil resolved place).mpr }
      | inside opened member kept resolved apart rest => cases rest
    · intro unvisitable
      obtain ⟨listed, opened, named⟩ := unvisitable.listed [] name [] rfl
      obtain ⟨⟨name, node⟩, member, rfl⟩ := List.mem_map.mp named
      exact .here opened member (unvisitable.bars.imp fun place => (entered_nil resolved place).mp)
  | cons first before ih =>
    constructor
    · intro barred
      rw [List.cons_append] at barred
      generalize split : before ++ [name] = names at barred
      cases barred with
      | here => simp at split
      | @inside _ _ listed _ node next _ opened member kept inside apart rest =>
        subst split
        have later := (ih inside).mp rest
        refine
          { listed := listed_cons opened member later.listed
            kept := List.forall_mem_cons.mpr ⟨(isExcluded_eq_false exclude first).mp kept, later.kept⟩
            apart := ?_
            bars := later.bars.imp fun place => (entered_cons resolved first before place).mpr }
        -- Only the first name is followed with nothing but the places at hand.
        intro outer each after split linked place leads
        rcases List.cons_eq_append_iff.mp split with ⟨rfl, same⟩ | ⟨outer, rfl, parted⟩
        · cases same
          rw [entered_nil resolved, ← Except.ok.inj (inside.symm.trans leads)]
          exact apart linked
        · rw [entered_cons resolved]
          exact later.apart outer each after parted linked place leads
    · intro unvisitable
      obtain ⟨listed, opened, named⟩ := unvisitable.listed [] first (before ++ [name]) rfl
      obtain ⟨⟨first, node⟩, member, rfl⟩ := List.mem_map.mp named
      obtain ⟨keptFirst, kept⟩ := List.forall_mem_cons.mp unvisitable.kept
      -- The name behind the first one is listed in the directory that the first one leads to.
      obtain ⟨next, inside⟩ : ∃ next, tree.resolve (path.child first) = .ok next := by
        obtain ⟨second, after, split⟩ := List.exists_cons_of_ne_nil (List.append_ne_nil_of_right_ne_nil before
          (List.cons_ne_nil name []))
        obtain ⟨_, below, -⟩ := unvisitable.listed [first] second after (congrArg (first :: ·) split)
        obtain ⟨next, _, stands, -⟩ := Walk.stands_of_list below
        exact ⟨next, stands.resolved⟩
      have later : Unvisitable tree exclude (here :: seen) (path.child first) before name :=
        { listed := fun outer each after split =>
            unvisitable.listed (first :: outer) each after (congrArg (first :: ·) split)
          kept
          apart := fun outer each after split linked place leads => by
            rw [← entered_cons resolved]
            exact unvisitable.apart (first :: outer) each after (congrArg (first :: ·) split) linked place leads
          bars := unvisitable.bars.imp fun place => (entered_cons resolved first before place).mp }
      refine .inside opened member ((isExcluded_eq_false exclude first).mpr keptFirst) inside ?_ ((ih inside).mpr later)
      intro linked
      rw [← entered_nil resolved]
      exact unvisitable.apart [] first before rfl linked next inside

private theorem paths_skipped (visits : List Visit) :
    (ofVisits visits).skipped.map Skip.path = visits.filterMap Walk.failing? := by
  rw [ofVisits, List.map_filterMap]
  refine congrArg (visits.filterMap ·) (funext fun visit => ?_)
  cases visit <;> rfl

private theorem kind_of_skipped {visits : List Visit} {skip : Skip} (member : skip ∈ (ofVisits visits).skipped) :
    skip.kind = .traversal := by
  obtain ⟨visit, -, skipped⟩ := List.mem_filterMap.mp member
  cases visit with
  | file path => cases skipped
  | failed path message =>
    cases skipped
    rfl

/-- An entry is recorded under its own path, unless it is a link to a directory that cannot be listed. -/
private theorem recordedAs_eq_iff {names : List Name} (filled : names ≠ [])
    (entries : ∀ name ∈ names, Name.isEntry name = true) :
    recordedAs tree root (root.below names) = root.below names ↔ tree.isLockedLink (root.below names) = false := by
  have apart : root ≠ root.below names := fun same =>
    filled (Path.below_injective root (List.forall_mem_nil _) entries same).symm
  rw [recordedAs]
  split
  next locked => simp [locked, apart]
  next open_ => simpa using open_

/-- What a project skips are the entries that cannot be visited, each of them once and in the order of the names on
their paths. A record has the path of its entry, but those of links to directories that cannot be listed have the path
of the root. -/
theorem skipped_eq_unvisitable {files : ProjectFiles} (gathered : gather tree root exclude = .ok files) :
    ∃ trails : List (List Name), trails.Pairwise (· < ·) ∧ (trails.map root.below).Nodup ∧
      (∀ names, names ∈ trails ↔
        ∃ before name, names = before ++ [name] ∧ Unvisitable tree exclude [] root before name) ∧
      (∀ skip ∈ files.skipped, skip.kind = .traversal) ∧
      files.skipped.map Skip.path = trails.map (fun names => recordedAs tree root (root.below names)) ∧
      (files.skipped.map Skip.path = trails.map root.below ↔
        ∀ names ∈ trails, tree.isLockedLink (root.below names) = false) := by
  unfold gather at gathered
  split at gathered
  · cases gathered
  next found walked =>
  cases gathered
  obtain ⟨place, trails, resolved, ⟨recorded, sorted, entries⟩, exactly⟩ := Walk.failures_of_visits walked
  have filled (names : List Name) (member : names ∈ trails) : names ≠ [] := by
    rintro rfl
    cases (exactly []).mp member
  have paths := (paths_skipped found).trans recorded
  refine ⟨trails, sorted, Walk.nodup_below sorted entries, fun names => ?_, fun skip => kind_of_skipped, paths, ?_⟩
  · constructor
    · intro member
      obtain rfl | ⟨before, name, rfl⟩ := List.eq_nil_or_concat' names
      · exact absurd rfl (filled [] member)
      · exact ⟨before, name, rfl, (barred_iff resolved before).mp ((exactly _).mp member)⟩
    · rintro ⟨before, name, rfl, unvisitable⟩
      exact (exactly _).mpr ((barred_iff resolved before).mpr unvisitable)
  · rw [paths, List.map_inj_left]
    exact forall₂_congr fun names member => recordedAs_eq_iff (filled names member) (entries names member)

/-- A directory that cannot be listed, and a project with two links to it and one that leads nowhere. -/
def lockedTree : FileTree where
  root := .directory
    [(Text.Utf8.encode "locked", .directory [(Text.Utf8.encode "a.js", .file ⟨#[]⟩ true)] false),
      (Text.Utf8.encode "p", .directory
        [(Text.Utf8.encode "gone", .link (Path.ofString "nowhere")),
          (Text.Utf8.encode "l", .link (Path.ofString "../locked")),
          (Text.Utf8.encode "m", .link (Path.ofString "../locked"))] true)] true
  wellNamed := by cbv

def lockedFiles : ProjectFiles where
  sources := []
  declarations := []
  skipped := [
    { path := Path.ofString "p/gone", kind := .traversal
      message := Walk.failureMessage (Path.ofString "p/gone") .notFound },
    { path := Path.ofString "p", kind := .traversal, message := SystemError.denied.message },
    { path := Path.ofString "p", kind := .traversal, message := SystemError.denied.message }]

private theorem gather_locked : gather lockedTree (Path.ofString "p") [] = .ok lockedFiles := by
  have resolved : lockedTree.resolve (Path.ofString "p") = .ok [Text.Utf8.encode "p"] := by cbv
  have listed : lockedTree.list (Path.ofString "p") = .ok
      [(Text.Utf8.encode "gone", .link (Path.ofString "nowhere")),
        (Text.Utf8.encode "l", .link (Path.ofString "../locked")),
        (Text.Utf8.encode "m", .link (Path.ofString "../locked"))] := by cbv
  have gone : lockedTree.resolve (Path.ofString "p/gone") = .error .notFound := by cbv
  have first : lockedTree.resolve ((Path.ofString "p").child (Text.Utf8.encode "l")) =
      .ok [Text.Utf8.encode "locked"] := by cbv
  have second : lockedTree.resolve ((Path.ofString "p").child (Text.Utf8.encode "m")) =
      .ok [Text.Utf8.encode "locked"] := by cbv
  have locked : lockedTree.root.at? [Text.Utf8.encode "locked"] =
      some (.directory [(Text.Utf8.encode "a.js", .file ⟨#[]⟩ true)] false) := by cbv
  obtain ⟨entries, top⟩ : ∃ entries, lockedTree.root.at? [Text.Utf8.encode "p"] = some (.directory entries true) :=
    ⟨_, by cbv⟩
  have steps : Walk.mostBranch lockedTree = 13 := by decide +kernel
  have path : (Path.ofString "p").child (Text.Utf8.encode "gone") = Path.ofString "p/gone" := by decide +kernel
  -- The walk runs on the values above; as a whole it does not compute.
  have walked : Walk.visits lockedTree (isExcluded []) (Path.ofString "p") =
      .ok [.failed (Path.ofString "p/gone") (Walk.failureMessage (Path.ofString "p/gone") .notFound),
        .failed (Path.ofString "p") SystemError.denied.message,
        .failed (Path.ofString "p") SystemError.denied.message] := by
    rw [Walk.visits, resolved]
    simp only [top, steps, if_true]
    rw [Walk.visitBelow, listed]
    simp only [List.flatMap_cons, List.flatMap_nil, Walk.target, Walk.linkTarget, gone, first, second, locked, path]
    rfl
  rw [gather, walked]
  rfl

/-- Three entries cannot be visited, but not all of the records have their paths. -/
theorem skipped_eq_unvisitable_locked :
    gather lockedTree (Path.ofString "p") [] = .ok lockedFiles ∧
      ∃ trails : List (List Name), trails.length = 3 ∧
        (∀ names, names ∈ trails ↔
          ∃ before name, names = before ++ [name] ∧ Unvisitable lockedTree [] [] (Path.ofString "p") before name) ∧
        ∃ names ∈ trails, lockedTree.isLockedLink ((Path.ofString "p").below names) = true := by
  obtain ⟨trails, -, distinct, exactly, -, paths, named⟩ := skipped_eq_unvisitable gather_locked
  refine ⟨gather_locked, trails, by simpa [lockedFiles] using (congrArg List.length paths).symm, exactly, ?_⟩
  by_contra none
  have open_ : ∀ names ∈ trails, lockedTree.isLockedLink ((Path.ofString "p").below names) = false :=
    fun names member => Bool.eq_false_iff.mpr fun locked => none ⟨names, member, locked⟩
  rw [← named.mpr open_] at distinct
  revert distinct
  decide +kernel

/-- Two links to a directory that cannot be listed have records with the same path, which is that of no entry. -/
theorem exists_skipped_as_root : ∃ (tree : FileTree) (root : Path) (files : ProjectFiles),
    gather tree root [] = .ok files ∧ ¬ (files.skipped.map Skip.path).Nodup ∧
      ∃ skip ∈ files.skipped, ∀ before name, (∀ each ∈ before ++ [name], Name.isEntry each = true) →
        skip.path ≠ root.below (before ++ [name]) := by
  refine ⟨lockedTree, Path.ofString "p", lockedFiles, gather_locked, by decide +kernel, ?_⟩
  refine ⟨{ path := Path.ofString "p", kind := .traversal, message := SystemError.denied.message },
    by simp [lockedFiles], fun before name entries same => ?_⟩
  have none := Path.below_injective (Path.ofString "p") (List.forall_mem_nil _) entries same
  simp at none

end EnvAudit.ProjectFiles
