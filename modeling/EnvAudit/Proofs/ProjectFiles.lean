import EnvAudit.ProjectFiles
import EnvAudit.Proofs.Walk.Reach
import Mathlib

/-! Which files of a project are gathered, said of the file system and of the names on their paths alone. -/
namespace EnvAudit.ProjectFiles

/-- The names below a root lead to a file that a project has. -/
structure Reached (tree : FileTree) (exclude : List String) (root : Path) (names : List Name) : Prop where
  /-- What comes before a name leads to a directory that can be listed, and lists the name. -/
  listed : ∀ before name after, names = before ++ name :: after →
    ∃ entries, tree.list (root.below before) = .ok entries ∧ name ∈ entries.map Prod.fst
  kept : ∀ name ∈ names, ∀ excluded ∈ Path.excludedNames ++ exclude, Text.Utf8.encode excluded ≠ name
  /-- A link on the way leads to no directory that the way has come through. -/
  apart : ∀ before within after, names = before ++ within ++ after → within ≠ [] → after ≠ [] →
    tree.isLink (root.below (before ++ within)) = true →
    tree.resolve (root.below before) ≠ tree.resolve (root.below (before ++ within))
  file : ∃ content readable, tree.node? (root.below names) = .ok (.file content readable)

/-- Paths below a root in the order of the names that lead to them. -/
def Ascending (root : Path) (paths : List Path) : Prop :=
  ∃ trails : List (List Name), paths = trails.map root.below ∧ trails.Pairwise (· < ·) ∧
    ∀ trail ∈ trails, ∀ name ∈ trail, Name.isEntry name = true

theorem isExcluded_eq_false (exclude : List String) (name : Name) :
    isExcluded exclude name = false ↔
      ∀ excluded ∈ Path.excludedNames ++ exclude, Text.Utf8.encode excluded ≠ name := by
  rw [isExcluded, List.any_eq_false]
  exact forall₂_congr fun _ _ => by simp

open Walk (Way)

variable {tree : FileTree} {exclude : List String} {root path : Path}

/-- No link on a way leads to one of some places. -/
private def Avoids (tree : FileTree) (places : List Place) (path : Path) (names : List Name) : Prop :=
  ∀ within after, names = within ++ after → within ≠ [] → after ≠ [] → tree.isLink (path.below within) = true →
    ∀ place ∈ places, tree.resolve (path.below within) ≠ .ok place

/-! ## One name more -/

/-- One name has no part that comes behind another one and before a third. -/
private theorem nil_or_nil {name : Name} {within after : List Name} (split : [name] = within ++ after) :
    within = [] ∨ after = [] := by
  rcases List.singleton_eq_append_iff.mp split with ⟨none, -⟩ | ⟨-, none⟩
  · exact Or.inl none
  · exact Or.inr none

private theorem avoids_single (places : List Place) (path : Path) (name : Name) : Avoids tree places path [name] := by
  intro within after split someWithin someAfter
  exact ((nil_or_nil split).elim someWithin someAfter).elim

private theorem avoids_cons {places : List Place} {name : Name} {names : List Name} {next : Place}
    (resolved : tree.resolve (path.child name) = .ok next)
    (apart : tree.isLink (path.child name) = true → next ∉ places)
    (later : Avoids tree places (path.child name) names) : Avoids tree places path (name :: names) := by
  intro within after split someWithin someAfter linked place member
  obtain ⟨tail, rfl, parted⟩ := (List.cons_eq_append_iff.mp split).resolve_left fun none => someWithin none.1
  rw [Path.below_cons] at linked ⊢
  cases tail with
  | nil =>
    rw [Path.below_nil] at linked ⊢
    rw [resolved]
    rintro ⟨⟩
    exact apart linked member
  | cons inner tail => exact later (inner :: tail) after parted (by simp) someAfter linked place member

/-- What comes before each name lists it, if the first name is listed and so are those behind it. -/
theorem listed_cons {listed : List (Name × Node)} {name : Name} {names : List Name} {node : Node}
    (opened : tree.list path = .ok listed) (member : (name, node) ∈ listed)
    (later : ∀ before other after, names = before ++ other :: after →
      ∃ entries, tree.list ((path.child name).below before) = .ok entries ∧ other ∈ entries.map Prod.fst) :
    ∀ before other after, name :: names = before ++ other :: after →
      ∃ entries, tree.list (path.below before) = .ok entries ∧ other ∈ entries.map Prod.fst := by
  intro before other after split
  rcases List.cons_eq_append_iff.mp split with ⟨rfl, same⟩ | ⟨tail, rfl, parted⟩
  · cases same
    exact ⟨listed, opened, List.mem_map_of_mem member⟩
  · exact later tail other after parted

private theorem reached_single {listed : List (Name × Node)} {name : Name} {node : Node} {content : ByteArray}
    {readable : Bool} (opened : tree.list path = .ok listed) (member : (name, node) ∈ listed)
    (kept : isExcluded exclude name = false)
    (found : tree.node? (path.child name) = .ok (.file content readable)) : Reached tree exclude path [name] where
  listed := listed_cons opened member fun before other after split => by simp at split
  kept := by simpa using (isExcluded_eq_false exclude name).mp kept
  apart before within after split someWithin someAfter := by
    rw [List.append_assoc] at split
    rcases nil_or_nil split with rfl | none
    · rw [List.nil_append] at split
      exact ((nil_or_nil split).elim someWithin someAfter).elim
    · exact absurd (List.append_eq_nil_iff.mp none).1 someWithin
  file := ⟨content, readable, found⟩

private theorem reached_cons {listed : List (Name × Node)} {name : Name} {names : List Name} {node : Node}
    {here : Place} (opened : tree.list path = .ok listed) (member : (name, node) ∈ listed)
    (kept : isExcluded exclude name = false) (resolved : tree.resolve path = .ok here)
    (avoids : Avoids tree [here] path (name :: names)) (later : Reached tree exclude (path.child name) names) :
    Reached tree exclude path (name :: names) where
  listed := listed_cons opened member later.listed
  kept each within := by
    rcases List.mem_cons.mp within with rfl | behind
    · exact (isExcluded_eq_false exclude each).mp kept
    · exact later.kept each behind
  apart before within after split someWithin someAfter linked := by
    cases before with
    | nil =>
      rw [Path.below_nil, resolved]
      exact fun same => avoids within after split someWithin someAfter linked here (by simp) same.symm
    | cons first before =>
      cases (List.cons.inj split).1
      exact later.apart before within after (List.cons.inj split).2 someWithin someAfter linked
  file := later.file

private theorem reached_tail {name : Name} {names : List Name} (reached : Reached tree exclude path (name :: names)) :
    Reached tree exclude (path.child name) names where
  listed before other after split := reached.listed (name :: before) other after (congrArg (name :: ·) split)
  kept each within := reached.kept each (List.mem_cons_of_mem _ within)
  apart before within after split := reached.apart (name :: before) within after (congrArg (name :: ·) split)
  file := reached.file

/-! ## Ways and what is reached -/

private theorem reached_of_way {seen : List Place} {names : List Name}
    (way : Way tree (isExcluded exclude) seen path names) (current : ∃ place ∈ seen, tree.resolve path = .ok place) :
    Reached tree exclude path names ∧ Avoids tree seen path names := by
  induction way with
  | @file seen path listed name node content readable opened member kept found =>
    exact ⟨reached_single opened member kept found, avoids_single seen path name⟩
  | @directory seen path listed name node next names opened member kept resolved apart rest ih =>
    obtain ⟨here, hereSeen, hereResolved⟩ := current
    obtain ⟨reached, avoids⟩ := ih ⟨next, List.mem_cons_self, resolved⟩
    have avoidsSeen : Avoids tree seen path (name :: names) := by
      refine avoids_cons resolved apart fun within after split someWithin someAfter linked place member => ?_
      exact avoids within after split someWithin someAfter linked place (List.mem_cons_of_mem _ member)
    refine ⟨reached_cons opened member kept hereResolved ?_ reached, avoidsSeen⟩
    intro within after split someWithin someAfter linked place only
    exact avoidsSeen within after split someWithin someAfter linked place (List.mem_singleton.mp only ▸ hereSeen)

private theorem way_of_reached {seen : List Place} {names : List Name} (reached : Reached tree exclude path names)
    (some_ : names ≠ []) (avoids : Avoids tree seen path names)
    (current : ∃ place ∈ seen, tree.resolve path = .ok place) :
    Way tree (isExcluded exclude) seen path names := by
  induction names generalizing seen path with
  | nil => exact absurd rfl some_
  | cons name names ih =>
    obtain ⟨listed, opened, named⟩ := reached.listed [] name names rfl
    obtain ⟨⟨name, node⟩, member, rfl⟩ := List.mem_map.mp named
    have kept := (isExcluded_eq_false exclude name).mpr (reached.kept name (by simp))
    cases names with
    | nil =>
      obtain ⟨content, readable, found⟩ := reached.file
      exact .file opened member kept found
    | cons second names =>
      obtain ⟨_, below, -⟩ := reached.listed [name] second names rfl
      obtain ⟨next, _, inside, -⟩ := Walk.stands_of_list below
      have apart : tree.isLink (path.child name) = true → next ∉ seen := fun linked member =>
        avoids [name] (second :: names) rfl (by simp) (by simp) linked next member inside.resolved
      refine .directory opened member kept inside.resolved apart (ih (reached_tail reached) (by simp) ?_ ?_)
      · intro within after split someWithin someAfter linked place placeSeen
        rcases List.mem_cons.mp placeSeen with rfl | earlier
        · -- The directory was entered last, so `apart` of the way itself tells it from what the link leads to.
          have differ := reached.apart [name] within after (congrArg (name :: ·) split) someWithin someAfter linked
          exact fun same => differ (inside.resolved.trans same.symm)
        · exact avoids (name :: within) after (congrArg (name :: ·) split) (by simp) someAfter linked place earlier
      · exact ⟨next, List.mem_cons_self, inside.resolved⟩

/-- The files at the end of a way are those that are reached. -/
theorem way_iff_reached {place : Place} (resolved : tree.resolve root = .ok place) {names : List Name}
    (some_ : names ≠ []) : Way tree (isExcluded exclude) [place] root names ↔ Reached tree exclude root names := by
  have current : ∃ each ∈ [place], tree.resolve root = .ok each := ⟨place, by simp, resolved⟩
  constructor
  · exact fun way => (reached_of_way way current).1
  · intro reached
    refine way_of_reached reached some_ ?_ current
    intro within after split someWithin someAfter linked each member
    rw [List.mem_singleton.mp member, ← resolved]
    exact (reached.apart [] within after split someWithin someAfter linked).symm

private theorem entries_of_way {seen : List Place} {names : List Name}
    (way : Way tree (isExcluded exclude) seen path names) : ∀ name ∈ names, Name.isEntry name = true := by
  induction way with
  | file opened member kept found =>
    simpa using FileTree.isEntry_of_list opened _ member
  | directory opened member kept resolved apart rest ih =>
    exact List.forall_mem_cons.mpr ⟨FileTree.isEntry_of_list opened _ member, ih⟩

/-- Below a root the files that are visited are those that are reached. -/
theorem file_mem_gathered {found : List Visit} (walked : Walk.visits tree (isExcluded exclude) root = .ok found)
    {names : List Name} (entries : ∀ name ∈ names, Name.isEntry name = true) :
    root.below names ∈ found.filterMap Visit.file? ↔ Reached tree exclude root names := by
  have visited : root.below names ∈ found.filterMap Visit.file? ↔ .file (root.below names) ∈ found := by
    rw [List.mem_filterMap]
    constructor
    · rintro ⟨visit, member, file⟩
      cases visit with
      | file path => exact Option.some.inj file ▸ member
      | failed path message => cases file
    · exact fun member => ⟨_, member, rfl⟩
  obtain ⟨place, resolved, files⟩ := Walk.file_mem_visits walked
  rw [visited, files]
  constructor
  · rintro ⟨others, same, way⟩
    have some_ : others ≠ [] := by cases way <;> simp
    rw [Path.below_injective root entries (entries_of_way way) same]
    exact (way_iff_reached resolved some_).mp way
  · intro reached
    have some_ : names ≠ [] := by
      -- The root itself is a directory.
      rintro rfl
      obtain ⟨content, readable, file⟩ := reached.file
      obtain ⟨_, _, stands, -⟩ := Walk.stands_of_visits walked
      have directory := (FileTree.node_eq_ok tree root _).mpr ⟨_, stands.resolved, stands.there⟩
      cases file.symm.trans directory
    exact ⟨names, rfl, (way_iff_reached resolved some_).mpr reached⟩

theorem Reached.entries {names : List Name} (reached : Reached tree exclude root names) :
    ∀ name ∈ names, Name.isEntry name = true := by
  intro name member
  obtain ⟨before, after, rfl⟩ := List.append_of_mem member
  obtain ⟨listed, opened, named⟩ := reached.listed before name after rfl
  obtain ⟨entry, within, rfl⟩ := List.mem_map.mp named
  exact FileTree.isEntry_of_list opened entry within

private theorem ascending_filter {paths : List Path} (ascending : Ascending root paths) (kind : Path → Bool) :
    Ascending root (paths.filter kind) := by
  obtain ⟨trails, rfl, sorted, entries⟩ := ascending
  refine ⟨trails.filter (kind ∘ root.below), List.filter_map, sorted.filter _, ?_⟩
  exact fun trail member => entries trail (List.mem_of_mem_filter member)

/-- The files that are gathered are those that are reached, in the order of the names on their paths. -/
theorem gathered_iff_reached {files : ProjectFiles} (gathered : gather tree root exclude = .ok files) :
    (∀ names : List Name, (∀ name ∈ names, Name.isEntry name = true) →
      (root.below names ∈ files.sources ↔
        Reached tree exclude root names ∧ (root.below names).isSource = true) ∧
      (root.below names ∈ files.declarations ↔
        Reached tree exclude root names ∧ (root.below names).isDeclaration = true)) ∧
    (Ascending root files.sources ∧ files.sources.Nodup) ∧
    Ascending root files.declarations ∧ files.declarations.Nodup := by
  unfold gather at gathered
  split at gathered
  · cases gathered
  next found walked =>
  cases gathered
  have ascending : Ascending root (found.filterMap Visit.file?) := by
    obtain ⟨place, entries, stands, rfl⟩ := Walk.stands_of_visits walked
    obtain ⟨trails, files, sorted, named⟩ := Walk.visitBelow_trails tree (isExcluded exclude) root
      (Walk.mostBranch tree) [⟨root, place⟩] root
    exact ⟨trails, files, sorted, named⟩
  have distinct := Walk.files_nodup walked
  refine ⟨?_, ⟨ascending_filter ascending _, distinct.filter _⟩, ascending_filter ascending _, distinct.filter _⟩
  intro names entries
  simp only [ofVisits, List.mem_filter, file_mem_gathered walked entries, and_self]

/-- A directory, a link to it, and an excluded directory. -/
def linkedTree : FileTree where
  root := .directory
    [(Text.Utf8.encode "b", .directory [(Text.Utf8.encode "x.js", .file ⟨#[]⟩ true)] true),
      (Text.Utf8.encode "a", .link (Path.ofString "b")),
      (Text.Utf8.encode "dist", .directory [(Text.Utf8.encode "y.js", .file ⟨#[]⟩ true)] true)] true
  wellNamed := by cbv

def linkedFiles : ProjectFiles where
  sources := [Path.ofString "./a/x.js", Path.ofString "./b/x.js"]
  declarations := []
  skipped := []

private theorem visitBelow_linked (fuel : Nat) (ancestors : List Walk.Ancestor) (path : Path)
    (opened : linkedTree.list path = .ok [(Text.Utf8.encode "x.js", .file ⟨#[]⟩ true)]) :
    Walk.visitBelow linkedTree (isExcluded []) (Path.ofString ".") (fuel + 1) ancestors path =
      [.file (path.child (Text.Utf8.encode "x.js"))] := by
  have kept : isExcluded [] (Text.Utf8.encode "x.js") = false := by decide +kernel
  rw [Walk.visitBelow, opened]
  simp [Walk.target, kept]

private theorem gather_linked : gather linkedTree (Path.ofString ".") [] = .ok linkedFiles := by
  have resolved : linkedTree.resolve (Path.ofString ".") = .ok [] := by cbv
  have listed : linkedTree.list (Path.ofString ".") = .ok
      [(Text.Utf8.encode "a", .link (Path.ofString "b")),
        (Text.Utf8.encode "b", .directory [(Text.Utf8.encode "x.js", .file ⟨#[]⟩ true)] true),
        (Text.Utf8.encode "dist", .directory [(Text.Utf8.encode "y.js", .file ⟨#[]⟩ true)] true)] := by cbv
  have linked : linkedTree.resolve ((Path.ofString ".").child (Text.Utf8.encode "a")) =
      .ok [Text.Utf8.encode "b"] := by cbv
  have there : linkedTree.root.at? [Text.Utf8.encode "b"] =
      some (.directory [(Text.Utf8.encode "x.js", .file ⟨#[]⟩ true)] true) := by cbv
  have behind : linkedTree.list ((Path.ofString ".").child (Text.Utf8.encode "a")) =
      .ok [(Text.Utf8.encode "x.js", .file ⟨#[]⟩ true)] := by cbv
  have inside : linkedTree.list ((Path.ofString ".").child (Text.Utf8.encode "b")) =
      .ok [(Text.Utf8.encode "x.js", .file ⟨#[]⟩ true)] := by cbv
  have steps : Walk.mostBranch linkedTree = 13 := by decide +kernel
  have kept : isExcluded [] (Text.Utf8.encode "a") = false ∧ isExcluded [] (Text.Utf8.encode "b") = false ∧
      isExcluded [] (Text.Utf8.encode "dist") = true := by decide +kernel
  obtain ⟨entries, top⟩ : ∃ entries, linkedTree.root.at? [] = some (.directory entries true) := ⟨_, rfl⟩
  have walked : Walk.visits linkedTree (isExcluded []) (Path.ofString ".") =
      .ok [.file (((Path.ofString ".").child (Text.Utf8.encode "a")).child (Text.Utf8.encode "x.js")),
        .file (((Path.ofString ".").child (Text.Utf8.encode "b")).child (Text.Utf8.encode "x.js"))] := by
    rw [Walk.visits, resolved]
    simp only [top, steps, if_true]
    rw [Walk.visitBelow, listed]
    simp [Walk.target, Walk.linkTarget, linked, there, kept, visitBelow_linked, behind, inside]
  rw [gather, walked]
  refine congrArg Except.ok ?_
  decide +kernel

/-- The file is gathered once under each of its two paths; the excluded directory has none. -/
theorem gathered_iff_reached_linked :
    gather linkedTree (Path.ofString ".") [] = .ok linkedFiles ∧
      Reached linkedTree [] (Path.ofString ".") [Text.Utf8.encode "a", Text.Utf8.encode "x.js"] ∧
      ¬ Reached linkedTree [] (Path.ofString ".") [Text.Utf8.encode "dist", Text.Utf8.encode "y.js"] := by
  have exactly := (gathered_iff_reached gather_linked).1
  have linked := (exactly [Text.Utf8.encode "a", Text.Utf8.encode "x.js"] (by decide +kernel)).1
  have excluded := (exactly [Text.Utf8.encode "dist", Text.Utf8.encode "y.js"] (by decide +kernel)).1
  refine ⟨gather_linked, (linked.mp (by decide +kernel)).1, fun reached => ?_⟩
  have gathered := excluded.mpr ⟨reached, by decide +kernel⟩
  revert gathered
  decide +kernel

end EnvAudit.ProjectFiles
