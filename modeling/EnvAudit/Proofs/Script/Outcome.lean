import EnvAudit.Proofs.Position
import EnvAudit.Proofs.Script.Dialect
import EnvAudit.Proofs.Script.Flaws
import EnvAudit.Proofs.Text.Utf8

/-!
# Outcomes

What comes of a source file, for every reader of its dialects: the tree of the first dialect that it fits, or a fault
that names the first flaw of the first dialect by its kind, line and column.
-/
namespace EnvAudit.Script

open EnvAudit.Text.Utf8 (encode length_encode)

/-- A tree as the reader of a text gives it: its marks tell where flaws are, and every node lies in the text with its
children in it. -/
structure Tree.Sound (tree : Tree) (source : String) : Prop where
  marked : ∀ node, tree.Within node → node.Marked
  laid : ∀ node, tree.Within node → node.Laid
  inText : tree.head.stop ≤ source.utf8ByteSize

/-- What a fault tells of a flawed tree: the first flaw in textual order, and where it starts. -/
structure Located (source : String) (tree flaw : Tree) (place : Position) : Prop where
  first : tree.FirstFlaw flaw
  placed : place.Behind ((encode source).take flaw.head.start)
  /-- No other flaw starts before it. -/
  earliest : ∀ node, tree.Within node → node.isFlaw = true → flaw.head.start ≤ node.head.start
  /-- Line and column are those of no other byte of the text. -/
  determined : ∀ offset ≤ source.utf8ByteSize,
    place.Behind ((encode source).take offset) → offset = flaw.head.start

/-- A dialect is the first one among those of a file, in their order, that its text fits. -/
def FirstFit (read : TreeReader) (path : Path) (source : String) (dialect : Dialect) : Prop :=
  (read dialect source).Flawless ∧ ∃ before after, Dialect.candidates path = before ++ dialect :: after ∧
    ∀ other ∈ before, ¬ (read other source).Flawless

/-- What comes of a source file. -/
inductive Parsed (read : TreeReader) (path : Path) (source : String) : Except Fault Tree → Prop where
  | large (large : mostBytes < source.utf8ByteSize) :
    Parsed read path source (.error (.parse path "file exceeds 10000000 bytes" none))
  | fits {dialect : Dialect} (small : source.utf8ByteSize ≤ mostBytes) (first : FirstFit read path source dialect) :
    Parsed read path source (.ok (read dialect source))
  | broken {flaw : Tree} {place : Position} (small : source.utf8ByteSize ≤ mostBytes)
    (flawed : ∀ dialect ∈ Dialect.candidates path, ¬ (read dialect source).Flawless)
    (located : Located source (read .tsx source) flaw place) :
    Parsed read path source
      (.error (.parse path ("syntax error near \x60" ++ flaw.kind ++ "\x60") (some place)))

/-! ## The fault of a flawed tree -/

section

variable {source : String} {tree : Tree}

theorem Tree.Sound.fits_iff (sound : tree.Sound source) : tree.head.flawed = false ↔ tree.Flawless :=
  (sound.marked tree (.self tree)).flawless_iff

/-- A flawed tree is faulted for its first flaw, at its place. -/
theorem flawFault_located (sound : tree.Sound source) (flawed : ¬ tree.Flawless) (path : Path) :
    ∃ flaw place, Located source tree flaw place ∧
      flawFault path source tree = .parse path ("syntax error near \x60" ++ flaw.kind ++ "\x60") (some place) := by
  obtain ⟨flaw, found⟩ := Tree.exists_firstFlaw sound.marked flawed
  have first := (Tree.firstFlaw_eq_some_iff sound.marked).mp found
  have inText : flaw.head.start ≤ source.utf8ByteSize := by
    obtain ⟨-, forward, upto⟩ := Tree.within_stretch sound.laid first.within
    have ends := sound.inText
    omega
  refine ⟨flaw, positionOf source flaw.head.start, ?_, by simp only [flawFault, found]⟩
  have placed := Position.behind_foldl ((encode source).take flaw.head.start)
  constructor
  case first => exact first
  case placed => exact placed
  case earliest => exact fun node within isFlaw => first.earliest sound.laid within isFlaw
  case determined =>
    intro offset upto same
    rw [← length_encode] at upto inText
    exact same.offset_eq upto inText placed

theorem Located.unique {flaw other : Tree} {place otherPlace : Position} (sound : tree.Sound source)
    (located : Located source tree flaw place) (also : Located source tree other otherPlace) :
    flaw = other ∧ place = otherPlace := by
  have found := (Tree.firstFlaw_eq_some_iff sound.marked).mpr located.first
  rw [(Tree.firstFlaw_eq_some_iff sound.marked).mpr also.first, Option.some.injEq] at found
  subst found
  exact ⟨rfl, located.placed.eq also.placed⟩

end

/-! ## The dialects in their order -/

section

variable {read : TreeReader} {path : Path} {source : String}

/-- A file that is not too large is read in its dialects until one fits. -/
theorem parseBy_small (small : source.utf8ByteSize ≤ mostBytes) :
    parseBy read path source =
      match (Dialect.candidates path).find? fun dialect => !(read dialect source).head.flawed with
      | some dialect => .ok (read dialect source)
      | none => .error (flawFault path source (read .tsx source)) := by
  rw [parseBy, if_neg (by omega), Dialect.candidates, List.find?_cons]
  dsimp only
  cases (read .tsx source).head.flawed with
  | true =>
    simp only [if_true, List.find?_map, Bool.not_true, Function.comp_def]
    cases (Dialect.others path).find? fun dialect => !(read dialect source).head.flawed <;> rfl
  | false => rfl

variable (sound : ∀ dialect ∈ Dialect.candidates path, (read dialect source).Sound source)
include sound

private theorem fits_iff {dialect : Dialect} (member : dialect ∈ Dialect.candidates path) :
    (!(read dialect source).head.flawed) = true ↔ (read dialect source).Flawless := by
  rw [Bool.not_eq_true', (sound dialect member).fits_iff]

private theorem find_eq_some_iff {dialect : Dialect} :
    (Dialect.candidates path).find? (fun dialect => !(read dialect source).head.flawed) = some dialect ↔
      FirstFit read path source dialect := by
  rw [List.find?_eq_some_iff_append, FirstFit]
  simp only [← exists_and_left]
  refine exists₂_congr fun before after => ?_
  rw [and_left_comm, and_left_comm (a := Tree.Flawless _)]
  refine and_congr_right fun order => ?_
  have member : ∀ other ∈ before ++ dialect :: after, other ∈ Dialect.candidates path := by simp [order]
  refine and_congr (fits_iff sound (member dialect (by simp))) (forall₂_congr fun other early => ?_)
  rw [← fits_iff sound (member other (List.mem_append_left _ early)), Bool.not_eq_true', Bool.not_eq_true]

private theorem find_eq_none_iff :
    (Dialect.candidates path).find? (fun dialect => !(read dialect source).head.flawed) = none ↔
      ∀ dialect ∈ Dialect.candidates path, ¬ (read dialect source).Flawless := by
  rw [List.find?_eq_none]
  exact forall₂_congr fun dialect member => not_congr (fits_iff sound member)

/-- A source file comes to its outcome and to no other. -/
theorem parseBy_eq_iff {result : Except Fault Tree} :
    parseBy read path source = result ↔ Parsed read path source result := by
  have primary := sound .tsx List.mem_cons_self
  constructor
  · rintro rfl
    by_cases large : mostBytes < source.utf8ByteSize
    · rw [parseBy, if_pos large]
      exact .large large
    · have small := Nat.le_of_not_lt large
      rw [parseBy_small small]
      cases found : (Dialect.candidates path).find? fun dialect => !(read dialect source).head.flawed with
      | some dialect => exact .fits small ((find_eq_some_iff sound).mp found)
      | none =>
        have flawed := (find_eq_none_iff sound).mp found
        obtain ⟨flaw, place, located, fault⟩ := flawFault_located primary (flawed .tsx List.mem_cons_self) path
        rw [fault]
        exact .broken small flawed located
  · intro outcome
    -- Each outcome tells its own branch of the reader, and the flaw of a fault is determined by its tree.
    cases outcome with
    | large large =>
      rw [parseBy, if_pos large]
      rfl
    | fits small first => rw [parseBy_small small, (find_eq_some_iff sound).mpr first]
    | broken small flawed located =>
      obtain ⟨flaw, place, also, fault⟩ := flawFault_located primary (flawed .tsx List.mem_cons_self) path
      obtain ⟨rfl, rfl⟩ := also.unique primary located
      rw [parseBy_small small, (find_eq_none_iff sound).mpr flawed, fault]

end

/-- The tree of an empty statement and a stray parenthesis in the next line, in every dialect. -/
def strayTree : Tree :=
  .node { kind := "program", flawed := true, stop := 4 } [
    .node { kind := "empty_statement", stop := 1 } [
      .node { kind := ";", named := false, stop := 1, text := ";" } []],
    .node { kind := "ERROR", flawed := true, start := 3, stop := 4 } [
      .node { kind := ")", named := false, start := 3, stop := 4, text := ")" } []]]

private theorem strayTree_sound : strayTree.Sound ";\n )" := by
  constructor
  case marked =>
    simp only [← Tree.mem_nodes_iff]
    decide +kernel
  case laid =>
    simp only [← Tree.mem_nodes_iff]
    decide +kernel
  case inText => decide +kernel

theorem parseBy_eq_iff_stray : (∀ dialect ∈ Dialect.candidates (.ofString "a.ts"), strayTree.Sound ";\n )") ∧
    parseBy (fun _ _ => strayTree) (.ofString "a.ts") ";\n )" =
      .error (.parse (.ofString "a.ts") "syntax error near \x60ERROR\x60" (some { line := 2, column := 2 })) ∧
    Parsed (fun _ _ => strayTree) (.ofString "a.ts") ";\n )"
      (.error (.parse (.ofString "a.ts") "syntax error near \x60ERROR\x60" (some { line := 2, column := 2 }))) := by
  have comes : parseBy (fun _ _ => strayTree) (.ofString "a.ts") ";\n )" =
      .error (.parse (.ofString "a.ts") "syntax error near \x60ERROR\x60" (some { line := 2, column := 2 })) := by
    have place : positionOf ";\n )" 3 = { line := 2, column := 2 } := by decide +kernel
    have misfit : (Dialect.candidates (.ofString "a.ts")).find? (fun _ => !strayTree.head.flawed) = none := by
      simp [strayTree, Tree.head]
    rw [parseBy_small (by decide +kernel), misfit, ← place, flawFault,
      Tree.firstFlaw_eq_find strayTree_sound.marked]
    rfl
  exact ⟨fun _ _ => strayTree_sound, comes, (parseBy_eq_iff fun _ _ => strayTree_sound).mp comes⟩

end EnvAudit.Script
