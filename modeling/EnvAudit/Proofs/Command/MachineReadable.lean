import EnvAudit.Proofs.Command.Gate
import EnvAudit.Proofs.Report.Findings

/-! What a run writes for a program: which reports are told in a document of JSON, and what it tells of the findings. -/
namespace EnvAudit.Command

open EnvAudit.Text (AllShow)
open EnvAudit.Text.Json (Means units)
open Report (toldTexts)

/-- A run that is to write a document writes the report and a line feed. The text before it is a document if all paths of the
report are texts, or else if all characters of the findings show; and then the findings stand in it as they are. -/
theorem run_diagnose_json (report : Report) :
    (∀ (tree : FileTree) (request : Request), formatOf request (settingsOf tree request.path).1 = .json →
      Audit.run tree request.path ((settingsOf tree request.path).1.excludedNames ++ request.exclude)
        ((settingsOf tree request.path).1.ignorePatterns ++ request.ignore) = .ok report →
      (run tree (.diagnose request)).output = report.machineReadable) ∧
    ∃ text, report.machineReadable = text ++ "\n" ∧
      ((∃ value, Means text value) ↔
        (∀ path ∈ report.paths, path.IsText) ∨ (AllShow report.missing ∧ AllShow report.unused)) ∧
      ∀ value, Means text value → ∃ members, value = .object members ∧
        (∀ found, (units "missing", found) ∈ members ↔ found = toldTexts report.missing) ∧
        ∀ found, (units "unused", found) ∈ members ↔ found = toldTexts report.unused := by
  refine ⟨fun tree request asked ran => ?_, report.written, rfl, report.written_means_iff, ?_⟩
  · have told := @output_of_runBy ⟨Script.Dialect.parse, Toml.parse⟩ tree request _ report rfl ran
    rw [← settingsOf, asked] at told
    exact told
  · intro value means
    exact Report.findings_of_means means

/-- An empty directory whose name is no text. -/
def foreign : FileTree where
  root := .directory [([0xff], .directory [] true)] true
  wellNamed := by cbv

/-- A report on it, with keys that are used and not declared. -/
def foreignReport (keys : List String) : Report where
  root := ⟨[0xff]⟩
  declarationFiles := []
  sourceFiles := 0
  usedKeys := keys
  declaredKeys := []
  missing := keys
  unused := []
  skipped := []

private theorem not_isText_foreign (keys : List String) : ¬ ∀ path ∈ (foreignReport keys).paths, path.IsText := by
  intro isText
  obtain ⟨text, spelled⟩ := isText ⟨[0xff]⟩ List.mem_cons_self
  have read := Text.Utf8.decode?_eq_some_iff.mpr (congrArg Path.bytes spelled)
  have unread : Text.Utf8.decode? [0xff] = none := by decide +kernel
  cases unread.symm.trans read

private theorem run_foreign : Audit.run foreign ⟨[0xff]⟩ [] [] = .ok (foreignReport []) := by
  have stands : Walk.Stands foreign ⟨[0xff]⟩ [[0xff]] [] true := ⟨by cbv, rfl⟩
  have listed : Node.listing [] = [] := by cbv
  rw [Audit.run, Audit.runBy, ProjectFiles.gather_listed stands, listed]
  rfl

private theorem settingsOf_foreign : settingsOf foreign ⟨[0xff]⟩ = ({}, "") := by
  have absent : foreign.resolve (Path.child ⟨[0xff]⟩ (Text.Utf8.encode Settings.fileName)) = .error .notFound := by cbv
  rw [settingsOf, settingsBy, Settings.loadBy, absent]

private theorem append_newline_injective {first second : String} (same : first ++ "\n" = second ++ "\n") :
    first = second := by
  have letters := congrArg String.toList same
  rw [String.toList_append, String.toList_append] at letters
  exact String.toList_inj.mp (List.append_cancel_right letters)

/-- The findings on that directory are a document, although the report has none; and so are those with a tab and a quote in
a key. -/
theorem run_diagnose_json_foreign :
    formatOf { path := ⟨[0xff]⟩, json := true } (settingsOf foreign ⟨[0xff]⟩).1 = .json ∧
      Audit.run foreign ⟨[0xff]⟩ [] [] = .ok (foreignReport []) ∧
      (run foreign (.diagnose { path := ⟨[0xff]⟩, json := true })).output =
        "\x7b\"missing\": [], \"unused\": []\x7d\n" ∧
      (¬ ∀ path ∈ (foreignReport ["\t\""]).paths, path.IsText) ∧
      (foreignReport ["\t\""]).machineReadable = "\x7b\"missing\": [\"\\t\\\"\"], \"unused\": []\x7d\n" ∧
      ∃ value, Means "\x7b\"missing\": [\"\\t\\\"\"], \"unused\": []\x7d" value := by
  obtain ⟨output, -⟩ := run_diagnose_json (foreignReport [])
  obtain ⟨-, text, written, document, -⟩ := run_diagnose_json (foreignReport ["\t\""])
  have empty : (foreignReport []).machineReadable = "\x7b\"missing\": [], \"unused\": []\x7d\n" := by decide +kernel
  have spelled : (foreignReport ["\t\""]).machineReadable =
      "\x7b\"missing\": [\"\\t\\\"\"], \"unused\": []\x7d" ++ "\n" := by
    decide +kernel
  have shows : AllShow ["\t\""] := by
    refine List.forall_mem_singleton.mpr fun c member => ?_
    obtain rfl | rfl : c = '\t' ∨ c = '"' := by simpa using member
    · exact .inl rfl
    · exact Text.shows_ascii (by decide) (by decide)
  have format : formatOf { path := ⟨[0xff]⟩, json := true } (settingsOf foreign ⟨[0xff]⟩).1 = .json := rfl
  refine ⟨format, run_foreign, ?_, not_isText_foreign _, spelled, ?_⟩
  · rw [output foreign _ format (by rw [settingsOf_foreign]; exact run_foreign), empty]
  · cases append_newline_injective (written.symm.trans spelled)
    exact document.mpr (.inr ⟨shows, List.forall_mem_nil _⟩)

/-- A combining character is escaped as no document has it, so not every report is told in one. -/
theorem exists_machineReadable_no_document :
    ¬ ∀ report : Report, ∃ text, report.machineReadable = text ++ "\n" ∧ ∃ value, Means text value := by
  intro always
  obtain ⟨text, written, document⟩ := always (foreignReport ["CAFE\u0301"])
  cases append_newline_injective (written.symm.trans (foreignReport ["CAFE\u0301"]).machineReadable_eq)
  rcases (Report.written_means_iff _).mp document with isText | ⟨missing, -⟩
  · exact not_isText_foreign _ isText
  · have shows : Text.Shows '\u0301' := missing "CAFE\u0301" List.mem_cons_self _ (by decide +kernel)
    exact absurd shows (by decide +kernel)

end EnvAudit.Command
