import EnvAudit.Proofs.Report.Document
import EnvAudit.Proofs.Text.Json.Quoted

/-!
# The findings alone

What is written for a report without a document: its findings, quoted by other rules than those of JSON. They are a document
if every character in them shows, and none otherwise.
-/
namespace EnvAudit.Report

open EnvAudit.Text (AllShow quotedList)
open EnvAudit.Text.Json

/-- A name and a list of texts, as the findings have them. -/
private def member (name : String) (texts : List String) : List Char :=
  '"' :: name.toList ++ '"' :: ':' :: ' ' :: (quotedList texts).toList

private theorem toList_findingsLine (report : Report) : report.findingsLine.toList =
    '\x7b' :: member "missing" report.missing ++ ',' :: ' ' :: member "unused" report.unused ++ ['\x7d'] := by
  simp [findingsLine, member]

/-- What the findings tell, where they are a document. -/
def toldFindings (report : Report) : Value := .object [
  (units "missing", toldTexts report.missing),
  (units "unused", toldTexts report.unused)]

section Members

variable {name : String} {texts : List String} {blank : List Char}

private theorem named_member (letters : Letters name.toList (units name)) (shows : AllShow texts) (blanks : Blank blank) :
    Named (Padded Written) (blank ++ member name texts) (units name, toldTexts texts) := by
  have list := Padded.mk blank_space (written_quotedList shows) blank_nil
  have item := Named.mk blanks letters blank_nil list
  simpa [member, toldTexts] using item

private theorem readNamed_hidden (letters : Letters name.toList (units name)) (hidden : ¬ AllShow texts)
    (blanks : Blank blank) (depth : Nat) (rest : List Char) :
    readNamed (readPadded (readValue depth)) (blank ++ member name texts ++ rest) = none := by
  have begun : skipBlanks (blank ++ member name texts ++ rest) =
      '"' :: (name.toList ++ '"' :: ':' :: ' ' :: ((quotedList texts).toList ++ rest)) := by
    rw [member, List.append_assoc]
    simp only [List.cons_append, List.append_assoc]
    exact skipBlanks_begun blanks rfl _
  have colon (behind : List Char) : skipBlanks (':' :: behind) = ':' :: behind := skipBlanks_begun blank_nil rfl behind
  have space : skipBlanks (' ' :: ((quotedList texts).toList ++ rest)) = (quotedList texts).toList ++ rest := by
    rw [Text.Json.toList_quotedList]
    exact skipBlanks_begun blank_space rfl _
  simp only [readNamed, begun, readLetters_of_letters letters, Option.bind_eq_bind, Option.bind_some, colon, readPadded,
    space, readValue_hidden hidden, Option.bind_none]

end Members

private theorem letters_missing : Letters "missing".toList (units "missing") := by
  have plain : "missing".toList.flatMap escaped = "missing".toList := by decide +kernel
  exact plain ▸ letters_flatMap "missing".toList

private theorem letters_unused : Letters "unused".toList (units "unused") := by
  have plain : "unused".toList.flatMap escaped = "unused".toList := by decide +kernel
  exact plain ▸ letters_flatMap "unused".toList

theorem means_toldFindings {report : Report} (missing : AllShow report.missing) (unused : AllShow report.unused) :
    Means report.findingsLine report.toldFindings := by
  have first := named_member letters_missing missing blank_nil
  have last := Separated.last (named_member letters_unused unused blank_space)
  have whole := Padded.mk blank_nil (Written.object (.more first last)) blank_nil
  rw [Means, toList_findingsLine]
  simpa [toldFindings] using whole

/-- The members of the findings are not read where a character does not show, in the first of them or in the second. -/
private theorem readMembers_hidden {report : Report} (hidden : ¬ (AllShow report.missing ∧ AllShow report.unused))
    {depth : Nat} (enough : (member "missing" report.missing).length ≤ depth) (fuel : Nat) :
    readSeparated (readNamed (readPadded (readValue depth))) '\x7d' fuel
      (member "missing" report.missing ++ ',' :: ' ' :: (member "unused" report.unused ++ ['\x7d'])) = none := by
  cases fuel with
  | zero => rfl
  | succ fuel =>
    -- The first member stops the reading; or else it is read, and the second one does.
    by_cases missing : AllShow report.missing
    · have unused : ¬ AllShow report.unused := fun unused => hidden ⟨missing, unused⟩
      have ends (behind : List Char) : EndsPart (',' :: behind) := by
        rintro c ⟨⟩
        exact .inl rfl
      have first (behind : List Char) :
          readNamed (readPadded (readValue depth)) (member "missing" report.missing ++ ',' :: behind) =
            some ((units "missing", toldTexts report.missing), ',' :: behind) :=
        reads_named (reads_padded (reads_value depth)) (named_member letters_missing missing blank_nil) enough
          (ends behind)
      have second := readNamed_hidden letters_unused unused blank_space depth ['\x7d']
      have rest : readSeparated (readNamed (readPadded (readValue depth))) '\x7d' fuel
          (' ' :: (member "unused" report.unused ++ ['\x7d'])) = none := by
        cases fuel with
        | zero => rfl
        | succ fuel =>
          simp only [List.cons_append, List.nil_append] at second
          simp [readSeparated, second]
      simp [readSeparated, first, rest]
    · have first := readNamed_hidden letters_missing missing blank_nil depth
        (',' :: ' ' :: (member "unused" report.unused ++ ['\x7d']))
      rw [List.nil_append] at first
      rw [readSeparated, first]
      rfl

/-- Findings with a character that does not show are no document. -/
theorem shows_of_means {report : Report} {value : Value} (means : Means report.findingsLine value) :
    AllShow report.missing ∧ AllShow report.unused := by
  by_contra hidden
  let inside := member "missing" report.missing ++ ',' :: ' ' :: (member "unused" report.unused ++ ['\x7d'])
  have spelled : report.findingsLine.toList = '\x7b' :: inside := by simp [toList_findingsLine, inside]
  have brace : skipBlanks ('\x7b' :: inside) = '\x7b' :: inside := skipBlanks_begun blank_nil rfl inside
  obtain ⟨behind, begun⟩ : ∃ behind, inside = '"' :: behind := ⟨_, rfl⟩
  have quote : skipBlanks inside = '"' :: behind := begun ▸ skipBlanks_begun blank_nil rfl behind
  have enough : (member "missing" report.missing).length ≤ inside.length := by
    rw [List.length_append]
    exact Nat.le_add_right _ _
  have members : readSeparated (readNamed (readPadded (readValue inside.length))) '\x7d' inside.length inside = none :=
    readMembers_hidden hidden enough inside.length
  have unread : read? report.findingsLine = none := by
    rw [read?, spelled, List.length_cons, readPadded, brace, readValue, readClosed, quote]
    simp [members]
  cases unread.symm.trans (read_of_means means)

/-! ## What is written for a program -/

/-- What is written for a report, but for the line feed at its end. -/
def written (report : Report) : String := report.document?.getD report.findingsLine

theorem machineReadable_eq (report : Report) : report.machineReadable = report.written ++ "\n" := rfl

/-- What is written is a document if the report has one, or else if all characters of its findings show. -/
theorem written_means_iff (report : Report) : (∃ value, Means report.written value) ↔
    (∀ path ∈ report.paths, path.IsText) ∨ (AllShow report.missing ∧ AllShow report.unused) := by
  rw [written, ← isSome_document?_iff]
  cases document : report.document? with
  | some text => exact iff_of_true ⟨report.told, (means_told document).2⟩ (.inl rfl)
  | none =>
    simp only [Option.getD_none, Option.isSome_none, Bool.false_eq_true, false_or]
    constructor
    · rintro ⟨value, means⟩
      exact shows_of_means means
    · rintro ⟨missing, unused⟩
      exact ⟨report.toldFindings, means_toldFindings missing unused⟩

/-- What is written tells the findings, if it tells anything. -/
theorem findings_of_means {report : Report} {value : Value} (means : Means report.written value) :
    ∃ members, value = .object members ∧
      (∀ found, (units "missing", found) ∈ members ↔ found = toldTexts report.missing) ∧
      ∀ found, (units "unused", found) ∈ members ↔ found = toldTexts report.unused := by
  rw [written] at means
  cases document : report.document? with
  | some text =>
    rw [document] at means
    refine ⟨_, means.unique (means_told document).2, ?_, ?_⟩
    all_goals simp [units_injective.eq_iff]
  | none =>
    rw [document] at means
    obtain ⟨missing, unused⟩ := shows_of_means means
    refine ⟨_, means.unique (means_toldFindings missing unused), ?_, ?_⟩
    all_goals simp [units_injective.eq_iff]

end EnvAudit.Report
