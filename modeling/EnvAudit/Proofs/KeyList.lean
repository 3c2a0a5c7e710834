import EnvAudit.KeyList
import Mathlib.Data.List.Induction

/-! Key lists keep the first occurrence of every key, in order. -/
namespace EnvAudit.KeyList

theorem contains_iff (list : KeyList) (key : String) : list.contains key = true ↔ key ∈ list.keys := by
  simp [contains]

theorem extend_append (list : KeyList) (first second : List String) :
    (list.extend first).extend second = list.extend (first ++ second) := by
  simp [extend]

@[simp] theorem extend_ofList (first second : List String) :
    (ofList first).extend second = ofList (first ++ second) :=
  extend_append empty first second

/-- A list of keys is what is left of some keys when each of them is kept at its first occurrence only. -/
theorem keys_ofList (keys : List String) : (ofList keys).keys = keys.eraseDups := by
  -- From the back, as each key is put in behind those that are known.
  induction keys using List.reverseRecOn with
  | nil => rfl
  | append_singleton front key ih =>
    have last : ofList (front ++ [key]) = (ofList front).insert key := by simp [ofList, extend]
    rw [last, keys_insert, ih, List.eraseDups_append]
    by_cases known : key ∈ front <;> simp [known, List.removeAll, List.eraseDups_cons]

theorem mem_ofList (keys : List String) (key : String) : key ∈ (ofList keys).keys ↔ key ∈ keys := by
  rw [keys_ofList, List.mem_eraseDups]

theorem nodup_eraseDups (keys : List String) : keys.eraseDups.Nodup := keys_ofList keys ▸ (ofList keys).nodup

/-- Repeated keys may be left out before other keys are, or after. -/
theorem filter_eraseDups (keys : List String) (kept : String → Bool) :
    keys.eraseDups.filter kept = (keys.filter kept).eraseDups := by
  induction keys using List.reverseRecOn with
  | nil => rfl
  | append_singleton front key ih =>
    rw [List.eraseDups_append, List.filter_append, ih, List.filter_append, List.eraseDups_append]
    congr 1
    by_cases known : key ∈ front <;> cases keeps : kept key <;>
      simp [List.removeAll, List.eraseDups_cons, known, keeps]

theorem eraseDups_of_nodup {keys : List String} (distinct : keys.Nodup) : keys.eraseDups = keys := by
  induction keys with
  | nil => rfl
  | cons key rest ih =>
    obtain ⟨absent, distinct⟩ := List.nodup_cons.mp distinct
    have others : rest.filter (fun other => !other == key) = rest := by
      rw [List.filter_eq_self]
      intro other member
      have differ : other ≠ key := by
        rintro rfl
        exact absent member
      simp [differ]
    rw [List.eraseDups_cons, others, ih distinct]

end EnvAudit.KeyList
