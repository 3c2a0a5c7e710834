import EnvAudit.Fault
import Mathlib

/-!
# Positions

The line and the column behind some bytes, and that in one text they tell how many bytes these are.
-/
namespace EnvAudit

namespace Position

/-- A place is behind some bytes: its line is the number of breaks in them, its column the number of bytes behind the
last one, both counted from one. -/
structure Behind (place : Position) (lead : Bytes) : Prop where
  line : place.line = 1 + lead.count lineBreak
  column : place.column = 1 + (lead.reverse.takeWhile (· ≠ lineBreak)).length

theorem behind_foldl (lead : Bytes) : (lead.foldl past { line := 1, column := 1 }).Behind lead := by
  -- By the last byte, which moves the place on by a line or by a column.
  induction lead using List.reverseRecOn with
  | nil => constructor <;> rfl
  | append_singleton lead byte ih =>
    rw [List.foldl_append, List.foldl_cons, List.foldl_nil, past]
    split
    next breaks => constructor <;> simp [breaks, ih.line, Nat.add_assoc]
    next inLine => constructor <;> simp [inLine, ih.line, ih.column, Nat.add_assoc]

theorem Behind.eq {place other : Position} {lead : Bytes} (first : place.Behind lead) (second : other.Behind lead) :
    place = other := by
  obtain ⟨line, column⟩ := place
  obtain ⟨otherLine, otherColumn⟩ := other
  rw [mk.injEq]
  exact ⟨first.line.trans second.line.symm, first.column.trans second.column.symm⟩

/-- No place is behind some bytes and behind more of them. -/
theorem Behind.nil_of_append {place : Position} {lead more : Bytes} (first : place.Behind lead)
    (second : place.Behind (lead ++ more)) : more = [] := by
  -- The line does not change, so no break is among the bytes between, and then the column counts them all.
  have line := first.line.symm.trans second.line
  rw [List.count_append] at line
  have none : lineBreak ∉ more := List.count_eq_zero.mp (by omega)
  have unbroken : ∀ byte ∈ more.reverse, decide (byte ≠ lineBreak) = true := by
    intro byte member
    rw [decide_eq_true_iff]
    rintro rfl
    exact none (List.mem_reverse.mp member)
  have column := first.column.symm.trans second.column
  rw [List.reverse_append, List.takeWhile_append_of_pos unbroken, List.length_append, List.length_reverse] at column
  exact List.eq_nil_of_length_eq_zero (by omega)

/-- In one text, a place tells how many bytes are before it. -/
theorem Behind.offset_eq {place : Position} {bytes : Bytes} {offset other : Nat} (inText : offset ≤ bytes.length)
    (alsoInText : other ≤ bytes.length) (first : place.Behind (bytes.take offset))
    (second : place.Behind (bytes.take other)) : offset = other := by
  wlog upto : offset ≤ other generalizing offset other
  · exact (this alsoInText inText second first (by omega)).symm
  · have parts := List.take_append_drop offset (bytes.take other)
    rw [List.take_take, min_eq_left upto] at parts
    rw [← parts] at second
    have none := congrArg List.length (first.nil_of_append second)
    rw [List.length_drop, List.length_take, min_eq_left alsoInText, List.length_nil] at none
    omega

end Position

end EnvAudit
