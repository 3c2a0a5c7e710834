import EnvAudit.IgnorePattern
import Mathlib.Data.List.Basic

/-! What a pattern says of a key, without reading it into its three kinds. -/
namespace EnvAudit.IgnorePattern

/-- A pattern matches a key: by its start if it ends in an asterisk, else by its end if it begins with one, else
as a whole. -/
inductive Matches : List Char → List Char → Prop
  | startsWith (start rest : List Char) : Matches (start ++ ['*']) (start ++ rest)
  | endsWith (front stop : List Char) (open_ : ('*' :: stop).getLast? ≠ some '*') :
      Matches ('*' :: stop) (front ++ stop)
  | exactly (key : List Char) (open_ : key.getLast? ≠ some '*') (closed : key.head? ≠ some '*') : Matches key key

/-- Some pattern matches a key. -/
def Ignored (patterns : List String) (key : String) : Prop :=
  ∃ pattern ∈ patterns, Matches pattern.toList key.toList

theorem matches_startsWith (start key : List Char) : Matches (start ++ ['*']) key ↔ start <+: key := by
  constructor
  · intro matched
    -- No other kind of pattern may end in an asterisk.
    generalize spelled : start ++ ['*'] = pattern at matched
    cases matched with
    | startsWith begun rest =>
      rw [List.append_left_injective _ spelled]
      exact List.prefix_append _ _
    | endsWith front stop open_ => simp [← spelled] at open_
    | exactly key open_ closed => simp [← spelled] at open_
  · rintro ⟨rest, rfl⟩
    exact .startsWith start rest

theorem matches_endsWith (stop key : List Char) (open_ : ('*' :: stop).getLast? ≠ some '*') :
    Matches ('*' :: stop) key ↔ stop <:+ key := by
  constructor
  · intro matched
    generalize spelled : '*' :: stop = pattern at matched
    cases matched with
    | startsWith begun rest => simp [spelled] at open_
    | endsWith front other _ =>
      rw [(List.cons.inj spelled).2]
      exact List.suffix_append _ _
    | exactly key _ closed => simp [← spelled] at closed
  · rintro ⟨front, rfl⟩
    exact .endsWith front stop open_

theorem matches_exactly (pattern key : List Char) (open_ : pattern.getLast? ≠ some '*')
    (closed : ∀ stop, pattern ≠ '*' :: stop) : Matches pattern key ↔ pattern = key := by
  constructor
  · intro matched
    cases matched with
    | startsWith begun rest => simp at open_
    | endsWith front stop _ => exact absurd rfl (closed stop)
    | exactly key _ _ => rfl
  · rintro rfl
    refine .exactly pattern open_ fun begins => ?_
    obtain ⟨stop, spelled⟩ := List.head?_eq_some_iff.mp begins
    exact closed stop spelled

theorem covers_iff (pattern key : String) :
    (ofText pattern).covers key = true ↔ Matches pattern.toList key.toList := by
  unfold ofText
  generalize pattern.toList = text
  -- The asterisk at the end is looked for first, so a pattern of one asterisk matches by an empty start.
  by_cases last : text.getLast? = some '*'
  · obtain ⟨start, rfl⟩ := List.getLast?_eq_some_iff.mp last
    simp [covers, matches_startsWith]
  · simp only [if_neg last]
    split
    next stop => simp [covers, matches_endsWith stop _ last]
    next differ => simp [covers, matches_exactly text _ last differ]

theorem anyCovers_iff (patterns : List String) (key : String) :
    anyCovers patterns key = true ↔ Ignored patterns key := by
  simp only [anyCovers, List.any_eq_true, covers_iff, Ignored]

instance (patterns : List String) (key : String) : Decidable (Ignored patterns key) :=
  decidable_of_iff _ (anyCovers_iff patterns key)

end EnvAudit.IgnorePattern
