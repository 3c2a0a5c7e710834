import EnvAudit.Proofs.Audit.Exact
import EnvAudit.Proofs.Audit.Excluded

/-!
# Ignored keys

Patterns to ignore are a filter on the findings: more of them leave out the findings that they match and change nothing
else, and the findings taken as patterns leave out themselves.
-/
namespace EnvAudit

namespace IgnorePattern

/-- Whether a key is matched by some of two lists of patterns. -/
theorem ignored_append (patterns more : List String) (key : String) :
    Ignored (patterns ++ more) key ↔ Ignored patterns key ∨ Ignored more key := by
  simp only [Ignored, List.mem_append, or_and_right, exists_or]

/-- A key matches itself as a pattern, wherever it has asterisks. -/
theorem matches_self (key : List Char) : Matches key key := by
  -- The first kind of pattern that the key can be read as is the one it is read as.
  by_cases last : key.getLast? = some '*'
  · obtain ⟨start, rfl⟩ := List.getLast?_eq_some_iff.mp last
    exact .startsWith start ['*']
  · by_cases first : key.head? = some '*'
    · obtain ⟨stop, rfl⟩ := List.head?_eq_some_iff.mp first
      exact .endsWith ['*'] stop last
    · exact .exactly key last first

theorem ignored_of_mem {patterns : List String} {key : String} (listed : key ∈ patterns) : Ignored patterns key :=
  ⟨key, listed, matches_self key.toList⟩

end IgnorePattern

namespace Findings

open IgnorePattern (Ignored)

variable {findings : Findings} {patterns more : List String}

theorem without_eq (findings : Findings) (patterns : List String) : findings.without patterns =
    ⟨findings.missing.filter fun key => ¬ Ignored patterns key,
      findings.unused.filter fun key => ¬ Ignored patterns key⟩ := by
  have same : (fun key => !IgnorePattern.anyCovers patterns key) = fun key => decide (¬ Ignored patterns key) := by
    funext key
    rw [Bool.eq_iff_iff]
    simp [← Bool.not_eq_true, IgnorePattern.anyCovers_iff]
  rw [without, same]

/-- To leave out what two lists of patterns match is to leave out what the one matches, and then the other. -/
theorem without_append : findings.without (patterns ++ more) = (findings.without patterns).without more := by
  have either (key : String) : decide (¬ Ignored (patterns ++ more) key) =
      (decide (¬ Ignored more key) && decide (¬ Ignored patterns key)) := by
    rw [Bool.eq_iff_iff]
    simp [IgnorePattern.ignored_append, and_comm]
  simp only [without_eq, List.filter_filter, either]

/-- Nothing is left of findings that are patterns themselves. -/
theorem without_own : findings.without (findings.missing ++ findings.unused) = ⟨[], []⟩ := by
  simp only [without_eq, Findings.mk.injEq, List.filter_eq_nil_iff, decide_eq_true_eq, not_not]
  constructor
  · intro key missing
    exact IgnorePattern.ignored_of_mem (List.mem_append_left _ missing)
  · intro key unused
    exact IgnorePattern.ignored_of_mem (List.mem_append_right _ unused)

end Findings

namespace Report

def findings (report : Report) : Findings := ⟨report.missing, report.unused⟩

/-- The report with other findings. -/
def withFindings (report : Report) (findings : Findings) : Report :=
  { report with missing := findings.missing, unused := findings.unused }

end Report

namespace Audit

open IgnorePattern (Ignored)

variable (read : Script.TreeReader) (tree : FileTree) (root : Path) (exclude : List String)

/-- More patterns take their share from the findings of a report. -/
theorem runBy_append (patterns more : List String) :
    runBy read tree root exclude (patterns ++ more) =
      (runBy read tree root exclude patterns).map fun report =>
        report.withFindings (report.findings.without more) := by
  rw [runBy, runBy]
  cases ProjectFiles.gather tree root exclude with
  | error fault => rfl
  | ok files =>
    refine congrArg Except.ok ?_
    simp only [ofFilesBy, Findings.without_append]
    rfl

/-- Patterns are a filter: with more of them a report lists, in their order, the findings that none of these matches, and
says the same otherwise; with its own findings as patterns it is clean, since every key matches itself. -/
theorem run_append_ignore (patterns : List String) :
    (∀ more, runBy read tree root exclude (patterns ++ more) =
      (runBy read tree root exclude patterns).map fun report =>
        { report with
          missing := report.missing.filter fun key => ¬ Ignored more key
          unused := report.unused.filter fun key => ¬ Ignored more key }) ∧
    (∀ report, runBy read tree root exclude patterns = .ok report →
      ∃ clean, runBy read tree root exclude (patterns ++ (report.missing ++ report.unused)) = .ok clean ∧
        clean.isClean = true ∧ clean = { report with missing := [], unused := [] }) ∧
    ∀ key : String, Ignored [key] key := by
  refine ⟨?_, ?_, ?_⟩
  · intro more
    rw [runBy_append]
    simp only [Report.withFindings, Report.findings, Findings.without_eq]
  · intro report ran
    refine ⟨{ report with missing := [], unused := [] }, ?_, rfl, rfl⟩
    rw [runBy_append, ran]
    have none : report.findings.without (report.missing ++ report.unused) = ⟨[], []⟩ := Findings.without_own
    rw [Except.map, none]
    rfl
  · intro key
    exact IgnorePattern.ignored_of_mem List.mem_cons_self

/-- A key with asterisks at both ends, as a pattern, matches itself and what begins like it. -/
example : Ignored ["*A*"] "*A*" ∧ Ignored ["*A*"] "*AB" ∧ ¬ Ignored ["*A*"] "BA" := by decide

/-- In that project `C` is ignored, `B` is missing and `A` is unused; with the two ignored as well nothing is left. -/
theorem run_append_ignore_troubled :
    runBy accessReader troubled (.ofString ".") [] ["C"] = .ok troubledReport ∧ troubledReport.isClean = false ∧
      ∃ clean, runBy accessReader troubled (.ofString ".") [] (["C"] ++ (["B"] ++ ["A"])) = .ok clean ∧
        clean.isClean = true ∧ clean = { troubledReport with missing := [], unused := [] } :=
  ⟨runBy_troubled, rfl, (run_append_ignore accessReader troubled _ [] ["C"]).2.1 _ runBy_troubled⟩

end Audit

end EnvAudit
