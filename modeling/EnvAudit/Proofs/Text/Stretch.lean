import Mathlib.Data.List.TakeWhile

/-! Where a stretch of characters of one sort ends in a text. -/
namespace EnvAudit.Text

variable {p : Char → Bool} {front rest : List Char}

theorem takeWhile_of_stop (all : ∀ c ∈ front, p c = true) (stop : ∀ c ∈ rest.head?, p c = false) :
    (front ++ rest).takeWhile p = front := by
  rw [List.takeWhile_append_of_pos all]
  cases rest <;> simp_all

theorem dropWhile_of_stop (all : ∀ c ∈ front, p c = true) (stop : ∀ c ∈ rest.head?, p c = false) :
    (front ++ rest).dropWhile p = rest := by
  rw [List.dropWhile_append_of_pos all]
  cases rest <;> simp_all

theorem stop_of_dropWhile (p : Char → Bool) (text : List Char) : ∀ c ∈ (text.dropWhile p).head?, p c = false := by
  intro c first
  have stop := List.head?_dropWhile_not p text
  rwa [first] at stop

/-- A stretch that ends within the first of two texts ends before the second. -/
theorem dropWhile_append_of_begun {c : Char} {left : List Char} (begun : front.dropWhile p = c :: left) :
    (front ++ rest).dropWhile p = c :: (left ++ rest) := by
  rw [List.dropWhile_append, begun]
  rfl

end EnvAudit.Text
