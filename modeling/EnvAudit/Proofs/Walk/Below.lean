import EnvAudit.FileTree
import Mathlib.Data.List.Basic

/-! Paths below a path: names that directories can hold tell them apart. -/
namespace EnvAudit

theorem Name.isEntry_iff (name : Name) :
    Name.isEntry name = true ↔
      name ≠ [] ∧ name ≠ [Path.dot] ∧ name ≠ [Path.dot, Path.dot] ∧ Path.slash ∉ name := by
  simp only [Name.isEntry, Path.Part.ofBytes, Bool.and_eq_true, Bool.not_eq_true',
    List.contains_eq_mem, decide_eq_false_iff_not]
  grind

namespace Path

/-- The path of an entry below a path, under the names on the way to it. -/
def below (path : Path) (names : List Name) : Path := names.foldl child path

@[simp] theorem below_nil (path : Path) : path.below [] = path := rfl

@[simp] theorem below_cons (path : Path) (name : Name) (names : List Name) :
    path.below (name :: names) = (path.child name).below names := rfl

/-- What stands before the name of an entry. -/
private def stem (path : Path) : Bytes :=
  if path.bytes = [] || path.bytes.getLast? = some slash then path.bytes else path.bytes ++ [slash]

private def spell (names : List Name) : Bytes := names.flatMap fun name => slash :: name

private theorem bytes_child (path : Path) (name : Name) : (path.child name).bytes = path.stem ++ name := by
  unfold child stem
  split <;> simp

private theorem stem_child (path : Path) {name : Name} (entry : Name.isEntry name = true) :
    (path.child name).stem = path.stem ++ name ++ [slash] := by
  obtain ⟨nonempty, -, -, noSlash⟩ := (Name.isEntry_iff name).mp entry
  have last : name.getLast? ≠ some slash := fun isSlash => noSlash (List.mem_of_getLast? isSlash)
  rw [stem, bytes_child, if_neg (by simp [nonempty, last])]

private theorem bytes_below (path : Path) (name : Name) (names : List Name)
    (entries : ∀ each ∈ name :: names, Name.isEntry each = true) :
    (path.below (name :: names)).bytes = path.stem ++ name ++ spell names := by
  induction names generalizing path name with
  | nil => simp [bytes_child, spell]
  | cons next names ih =>
    have rest : ∀ each ∈ next :: names, Name.isEntry each = true := fun each member =>
      entries each (List.mem_cons_of_mem _ member)
    rw [below_cons, ih _ _ rest, stem_child path (entries name (by simp))]
    simp [spell]

private theorem takeWhile_spell (name : Name) (names : List Name) (noSlash : slash ∉ name) :
    (name ++ spell names).takeWhile (· ≠ slash) = name := by
  have within : ∀ byte ∈ name, decide (byte ≠ slash) = true := by
    intro byte member
    simp only [decide_eq_true_eq]
    rintro rfl
    exact noSlash member
  rw [List.takeWhile_append_of_pos within]
  cases names <;> simp [spell]

private theorem spell_injective (left right : List Name) (lefts : ∀ name ∈ left, slash ∉ name)
    (rights : ∀ name ∈ right, slash ∉ name) (same : spell left = spell right) : left = right := by
  induction left generalizing right with
  | nil => cases right <;> simp_all [spell]
  | cons name left ih =>
    cases right with
    | nil => simp [spell] at same
    | cons other right =>
      have tails : name ++ spell left = other ++ spell right := by simpa [spell] using same
      -- The first name ends where the first slash stands.
      have heads : name = other := by
        rw [← takeWhile_spell name left (lefts name (by simp)), tails,
          takeWhile_spell other right (rights other (by simp))]
      subst heads
      rw [ih right (fun each member => lefts each (List.mem_cons_of_mem _ member))
        (fun each member => rights each (List.mem_cons_of_mem _ member)) (List.append_cancel_left tails)]

/-- Different names lead to different paths. -/
theorem below_injective (path : Path) {left right : List Name} (lefts : ∀ name ∈ left, Name.isEntry name = true)
    (rights : ∀ name ∈ right, Name.isEntry name = true) (same : path.below left = path.below right) :
    left = right := by
  -- Every name makes the path longer, so a path is not below itself.
  have apart (name : Name) (names : List Name) (entries : ∀ each ∈ name :: names, Name.isEntry each = true) :
      path.below (name :: names) ≠ path := by
    intro same
    have bytes := bytes_below path name names entries
    rw [same] at bytes
    have stemmed : path.bytes.length ≤ path.stem.length := by
      unfold stem
      split <;> simp
    have nonempty := ((Name.isEntry_iff name).mp (entries name (by simp))).1
    have positive := List.length_pos_iff.mpr nonempty
    have lengths := congrArg List.length bytes
    simp only [List.length_append] at lengths
    omega
  match left, right with
  | [], [] => rfl
  | name :: left, [] => exact absurd same (apart name left lefts)
  | [], name :: right => exact absurd same.symm (apart name right rights)
  | name :: left, other :: right =>
    have noSlash {names : List Name} (entries : ∀ each ∈ names, Name.isEntry each = true) :
        ∀ each ∈ names, slash ∉ each := fun each member =>
      ((Name.isEntry_iff each).mp (entries each member)).2.2.2
    apply spell_injective _ _ (noSlash lefts) (noSlash rights)
    have bytes := congrArg Path.bytes same
    rw [bytes_below path name left lefts, bytes_below path other right rights] at bytes
    simpa [spell] using bytes

end Path

end EnvAudit
