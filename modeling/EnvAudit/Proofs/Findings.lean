import EnvAudit.Findings
import EnvAudit.Proofs.IgnorePattern
import EnvAudit.Proofs.KeyList
import Mathlib.Tactic.Tauto

/-! Findings keep the order of the keys they are found among. -/
namespace EnvAudit.Findings

open IgnorePattern (Ignored)

private theorem filter_absent (list other : KeyList) (ignore : List String) :
    (list.keys.filter fun key => !other.contains key).filter (fun key => !IgnorePattern.anyCovers ignore key) =
      list.keys.filter fun key => key ∉ other.keys ∧ ¬ Ignored ignore key := by
  rw [List.filter_filter]
  apply List.filter_congr
  intro key _
  rw [Bool.eq_iff_iff]
  simp [← Bool.not_eq_true, KeyList.contains_iff, IgnorePattern.anyCovers_iff, and_comm]

theorem missing_without (used declared : KeyList) (ignore : List String) :
    ((between used declared).without ignore).missing =
      used.keys.filter fun key => key ∉ declared.keys ∧ ¬ Ignored ignore key :=
  filter_absent used declared ignore

theorem unused_without (used declared : KeyList) (ignore : List String) :
    ((between used declared).without ignore).unused =
      declared.keys.filter fun key => key ∉ used.keys ∧ ¬ Ignored ignore key :=
  filter_absent declared used ignore

/-- When the missing keys are declared with those from before, nothing is missing, and the same keys are unused. -/
theorem without_declared {used before after : KeyList} {ignore added : List String}
    (missing : ((between used before).without ignore).missing = added)
    (declared : ∀ key, key ∈ after.keys ↔ key ∈ before.keys ∨ key ∈ added)
    (others : ∀ kept : String → Bool, (∀ key ∈ added, kept key = false) →
      after.keys.filter kept = before.keys.filter kept) :
    (between used after).without ignore = ⟨[], ((between used before).without ignore).unused⟩ := by
  have mem_added (key : String) : key ∈ added ↔ key ∈ used.keys ∧ key ∉ before.keys ∧ ¬ Ignored ignore key := by
    rw [← missing, missing_without, List.mem_filter, decide_eq_true_iff]
  have none : ((between used after).without ignore).missing = [] := by
    rw [missing_without, List.filter_eq_nil_iff]
    intro key member
    rw [decide_eq_true_iff, declared, mem_added]
    tauto
  have same : ((between used after).without ignore).unused = ((between used before).without ignore).unused := by
    rw [unused_without, unused_without]
    exact others _ fun key member => decide_eq_false fun unused => unused.1 ((mem_added key).mp member).1
  rw [← none, ← same]

end EnvAudit.Findings
