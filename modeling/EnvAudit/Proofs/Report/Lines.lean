import EnvAudit.Proofs.Text.Quoted
import EnvAudit.Report

/-!
# Lines of reports

What can be read back from the text of a report: all that it tells, if the keys and messages that it lists as they are
keep to their lines.
-/
namespace EnvAudit.Report

open EnvAudit.Text (quotedList quotedList_injective newline_not_mem_quotedList takeWhile_of_stop dropWhile_of_stop)

/-! ## Lines -/

/-- A text of one line. -/
def IsLine (text : String) : Prop := '\n' ∉ text.toList

instance (text : String) : Decidable (IsLine text) := inferInstanceAs (Decidable (¬ _))

private theorem isLine_append {first second : String} (front : IsLine first) (behind : IsLine second) :
    IsLine (first ++ second) := by
  simp only [IsLine, String.toList_append, List.mem_append, not_or]
  exact ⟨front, behind⟩

private theorem terminated_inj {first second front behind : List Char} (line : '\n' ∉ first) (other : '\n' ∉ second)
    (same : first ++ '\n' :: front = second ++ '\n' :: behind) : first = second ∧ front = behind := by
  have inside {text : List Char} (line : '\n' ∉ text) : ∀ c ∈ text, decide (c ≠ '\n') = true := by
    intro c member
    rw [decide_eq_true_eq]
    rintro rfl
    exact line member
  have stop (rest : List Char) : ∀ c ∈ ('\n' :: rest).head?, decide (c ≠ '\n') = false := by simp
  have lines := congrArg (List.takeWhile fun c => decide (c ≠ '\n')) same
  have rests := congrArg (List.dropWhile fun c => decide (c ≠ '\n')) same
  rw [takeWhile_of_stop (inside line) (stop front), takeWhile_of_stop (inside other) (stop behind)] at lines
  rw [dropWhile_of_stop (inside line) (stop front), dropWhile_of_stop (inside other) (stop behind)] at rests
  exact ⟨lines, (List.cons.inj rests).2⟩

/-- Lines are told by the text in which each of them is ended. -/
private theorem eq_of_ended_eq {first second : List String} (lines : ∀ line ∈ first, IsLine line)
    (others : ∀ line ∈ second, IsLine line)
    (same : String.join (first.map (· ++ "\n")) = String.join (second.map (· ++ "\n"))) : first = second := by
  have letters := congrArg String.toList same
  have ended (lines : List String) : (String.join (lines.map (· ++ "\n"))).toList =
      lines.flatMap fun line => line.toList ++ ['\n'] := by
    simp [String.toList_join, List.flatMap_map]
  rw [ended, ended] at letters
  clear same
  induction first generalizing second with
  | nil =>
    cases second with
    | nil => rfl
    | cons other second => simp at letters
  | cons line first ih =>
    cases second with
    | nil => simp at letters
    | cons other second =>
      obtain ⟨isLine, lines⟩ := List.forall_mem_cons.mp lines
      obtain ⟨isOther, others⟩ := List.forall_mem_cons.mp others
      simp only [List.flatMap_cons, List.append_assoc, List.singleton_append] at letters
      obtain ⟨here, later⟩ := terminated_inj isLine isOther letters
      rw [String.toList_inj.mp here, ih lines others later]

/-! ## Numbers -/

/-- A number in a line. -/
private def numbered (before after : String) (value : Nat) : String := before ++ toString value ++ after

private theorem isLine_numbered {before after : String} (front : IsLine before) (behind : IsLine after) (value : Nat) :
    IsLine (numbered before after value) := by
  have number : IsLine (toString value) := by
    intro member
    rw [Nat.toString_eq_repr, Nat.repr_eq_ofList_toDigits, String.toList_ofList] at member
    exact absurd (Nat.isDigit_of_mem_toDigits (by decide) (by decide) member) (by decide)
  exact isLine_append (isLine_append front number) behind

private theorem numbered_injective (before after : String) : Function.Injective (numbered before after) := by
  intro first second same
  have letters := congrArg String.toList same
  simp only [numbered, String.toList_append, List.append_cancel_right_eq, List.append_cancel_left_eq,
    Nat.toString_eq_repr, Nat.repr_eq_ofList_toDigits, String.toList_ofList] at letters
  calc first = Nat.ofDigitChars 10 (Nat.toDigits 10 first) 0 := Nat.ofDigitChars_ten_toDigits.symm
    _ = Nat.ofDigitChars 10 (Nat.toDigits 10 second) 0 := by rw [letters]
    _ = second := Nat.ofDigitChars_ten_toDigits

/-! ## Lists -/

private theorem isLine_itemLines {items : List String} (lines : ∀ item ∈ items, IsLine item) :
    ∀ line ∈ itemLines items, IsLine line := by
  intro line member
  obtain ⟨item, listed, rfl⟩ := List.mem_map.mp member
  exact isLine_append (by decide) (lines item listed)

private theorem append_right_injective (front : String) : Function.Injective (front ++ ·) := by
  intro first second same
  have letters := congrArg String.toList same
  simp only [String.toList_append, List.append_cancel_left_eq] at letters
  exact String.toList_inj.mp letters

section

variable {before after instead other : String} {items others rest rests : List String}

/-- A list below its number tells its items and where it ends. -/
private theorem listed_inj
    (same : numbered before after items.length :: (itemLines items ++ rest) =
      numbered before after others.length :: (itemLines others ++ rests)) : items = others ∧ rest = rests := by
  obtain ⟨titles, lines⟩ := List.cons.inj same
  have sizes : (itemLines items).length = (itemLines others).length := by
    rw [itemLines, itemLines, List.length_map, List.length_map, numbered_injective _ _ titles]
  obtain ⟨listed, ends⟩ := List.append_inj lines sizes
  exact ⟨List.map_injective_iff.mpr (append_right_injective "  - ") listed, ends⟩

/-- A list below its number, or what is told instead of an empty one. -/
private def titled (before after instead : String) (items : List String) : List String :=
  if items.isEmpty then [instead] else numbered before after items.length :: itemLines items

private theorem isLine_titled (front : IsLine before) (behind : IsLine after) (single : IsLine instead)
    (lines : ∀ item ∈ items, IsLine item) : ∀ line ∈ titled before after instead items, IsLine line := by
  unfold titled
  split
  · exact List.forall_mem_singleton.mpr single
  · exact List.forall_mem_cons.mpr ⟨isLine_numbered front behind _, isLine_itemLines lines⟩

/-- What is told instead of an empty list does not begin as the list does. -/
private theorem titled_inj (unlike : ∀ value, instead ≠ numbered before after value)
    (same : titled before after instead items ++ rest = titled before after instead others ++ rests) :
    items = others ∧ rest = rests := by
  cases items with
  | nil =>
    cases others with
    | nil => exact ⟨rfl, (List.cons.inj same).2⟩
    | cons other others => exact absurd (List.cons.inj same).1 (unlike _)
  | cons item items =>
    cases others with
    | nil => exact absurd (List.cons.inj same).1.symm (unlike _)
    | cons other others => exact listed_inj same

end

private theorem ne_numbered {text before : String} (unlike : ¬ before.toList <+: text.toList) (after : String)
    (value : Nat) : text ≠ numbered before after value := by
  rintro rfl
  rw [numbered, String.toList_append, String.toList_append, List.append_assoc] at unlike
  exact unlike (List.prefix_append _ _)

/-! ## Reports -/

/-- The keys and messages that a report lists as they are keep to their lines. -/
structure KeepsToLines (report : Report) : Prop where
  missing : ∀ key ∈ report.missing, IsLine key
  unused : ∀ key ∈ report.unused, IsLine key
  messages : ∀ skip ∈ report.skipped, IsLine skip.message

private def usedLine (report : Report) : String := "Used keys in code: " ++ quotedList report.usedKeys

private def declaredLine (report : Report) : String := "Keys defined in .env files: " ++ quotedList report.declaredKeys

private def countLines (report : Report) : List String :=
  [numbered "Found " " .env file(s)." report.declarationFiles.length,
    numbered "Parsed .env files: " " unique key(s) declared." report.declaredKeys.length,
    numbered (numbered "Scanned " " source file(s): " report.sourceFiles) " unique key(s) used." report.usedKeys.length]

private theorem skippedLines_eq (report : Report) : report.skippedLines =
    if (report.skipped.map Skip.message).isEmpty then []
    else "" :: numbered "SKIPPED (" "):" (report.skipped.map Skip.message).length ::
      itemLines (report.skipped.map Skip.message) := by
  rw [List.isEmpty_map, List.length_map]
  rfl

private theorem missingLines_eq (report : Report) : report.missingLines =
    "" :: titled "MISSING KEYS (" "):" "No missing keys in .env file(s)." report.missing := by
  unfold missingLines titled
  split <;> rfl

private theorem unusedLines_eq (report : Report) : report.unusedLines =
    titled "UNUSED KEYS (" "):" "No unused keys in .env file(s)." report.unused := rfl

private theorem lines_eq (report : Report) : report.lines =
    report.countLines ++ (report.skippedLines ++
      "" :: report.usedLine :: report.declaredLine :: (report.missingLines ++ report.unusedLines)) := by
  rw [lines, List.append_assoc, List.append_assoc, List.append_assoc]
  rfl

private theorem isLine_lines {report : Report} (keeps : report.KeepsToLines) : ∀ line ∈ report.lines, IsLine line := by
  have blank : IsLine "" := by decide
  have counts : ∀ line ∈ report.countLines, IsLine line := by
    have scanned : IsLine (numbered "Scanned " " source file(s): " report.sourceFiles) :=
      isLine_numbered (by decide) (by decide) _
    simp only [countLines, List.forall_mem_cons]
    exact ⟨isLine_numbered (by decide) (by decide) _, isLine_numbered (by decide) (by decide) _,
      isLine_numbered scanned (by decide) _, by simp⟩
  have skipped : ∀ line ∈ report.skippedLines, IsLine line := by
    rw [skippedLines_eq]
    split
    · simp
    · refine List.forall_mem_cons.mpr ⟨blank, List.forall_mem_cons.mpr ⟨isLine_numbered (by decide) (by decide) _, ?_⟩⟩
      exact isLine_itemLines (List.forall_mem_map.mpr keeps.messages)
  have used : IsLine report.usedLine := isLine_append (by decide) (newline_not_mem_quotedList _)
  have declared : IsLine report.declaredLine := isLine_append (by decide) (newline_not_mem_quotedList _)
  have missing : ∀ line ∈ report.missingLines, IsLine line := by
    rw [missingLines_eq]
    exact List.forall_mem_cons.mpr ⟨blank, isLine_titled (by decide) (by decide) (by decide) keeps.missing⟩
  have unused : ∀ line ∈ report.unusedLines, IsLine line := by
    rw [unusedLines_eq]
    exact isLine_titled (by decide) (by decide) (by decide) keeps.unused
  rw [lines_eq]
  simp only [List.forall_mem_append, List.forall_mem_cons]
  exact ⟨counts, skipped, blank, used, declared, missing, unused⟩

private theorem usedLine_ne (report : Report) (value : Nat) : report.usedLine ≠ numbered "SKIPPED (" "):" value := by
  have begins : report.usedLine.toList = "Used keys in code: ".toList ++ (quotedList report.usedKeys).toList :=
    String.toList_append
  have unlike : ¬ "SKIPPED (".toList <+: report.usedLine.toList := by
    rw [begins]
    simp
  exact ne_numbered unlike _ _

section

variable {first second : Report} {rest rests : List String}

/-- The records tell their messages, and where the lines of the keys begin. -/
private theorem skipped_inj
    (same : first.skippedLines ++ "" :: first.usedLine :: rest =
      second.skippedLines ++ "" :: second.usedLine :: rests) :
    first.skipped.map Skip.message = second.skipped.map Skip.message ∧
      first.usedLine = second.usedLine ∧ rest = rests := by
  -- Behind a blank line stands the number of messages, or the line of the used keys.
  rw [skippedLines_eq, skippedLines_eq] at same
  split at same
  next none =>
    rw [List.isEmpty_iff.mp none]
    split at same
    next others =>
      rw [List.isEmpty_iff.mp others]
      obtain ⟨used, ends⟩ := List.cons.inj (List.cons.inj same).2
      exact ⟨rfl, used, ends⟩
    next => exact absurd (List.cons.inj (List.cons.inj same).2).1 (first.usedLine_ne _)
  next =>
    split at same
    next => exact absurd (List.cons.inj (List.cons.inj same).2).1.symm (second.usedLine_ne _)
    next =>
      obtain ⟨messages, ends⟩ := listed_inj (List.cons.inj same).2
      obtain ⟨used, ends⟩ := List.cons.inj (List.cons.inj ends).2
      exact ⟨messages, used, ends⟩

private theorem findings_inj
    (same : first.missingLines ++ first.unusedLines = second.missingLines ++ second.unusedLines) :
    first.missing = second.missing ∧ first.unused = second.unused := by
  have noneMissing : ¬ "MISSING KEYS (".toList <+: "No missing keys in .env file(s).".toList := by decide
  have noneUnused : ¬ "UNUSED KEYS (".toList <+: "No unused keys in .env file(s).".toList := by decide
  rw [missingLines_eq, missingLines_eq] at same
  obtain ⟨missing, ends⟩ := titled_inj (ne_numbered noneMissing _) (List.cons.inj same).2
  rw [unusedLines_eq, unusedLines_eq, ← List.append_nil (titled _ _ _ first.unused),
    ← List.append_nil (titled _ _ _ second.unused)] at ends
  exact ⟨missing, (titled_inj (ne_numbered noneUnused _) ends).1⟩

private theorem sourceFiles_eq (counts : first.countLines = second.countLines)
    (used : first.usedKeys.length = second.usedKeys.length) : first.sourceFiles = second.sourceFiles := by
  obtain ⟨scanned, -⟩ := List.cons.inj (List.cons.inj (List.cons.inj counts).2).2
  rw [used] at scanned
  have letters := congrArg String.toList scanned
  rw [numbered.eq_1 (numbered _ _ _), numbered.eq_1 (numbered _ _ _)] at letters
  simp only [String.toList_append, List.append_cancel_right_eq] at letters
  exact numbered_injective _ _ (String.toList_inj.mp letters)

/-- Two reports have one text exactly if they agree in all that the text tells: the counts of files, the messages of
what was skipped, and all keys. -/
theorem plain_eq_iff (keepsFirst : first.KeepsToLines) (keepsSecond : second.KeepsToLines) :
    first.plain = second.plain ↔
      first.declarationFiles.length = second.declarationFiles.length ∧ first.sourceFiles = second.sourceFiles ∧
        first.skipped.map Skip.message = second.skipped.map Skip.message ∧
        first.usedKeys = second.usedKeys ∧ first.declaredKeys = second.declaredKeys ∧
        first.missing = second.missing ∧ first.unused = second.unused := by
  constructor
  · intro same
    have lines := eq_of_ended_eq (isLine_lines keepsFirst) (isLine_lines keepsSecond) same
    rw [lines_eq, lines_eq] at lines
    obtain ⟨counts, lists⟩ := List.append_inj lines rfl
    obtain ⟨skipped, used, keys⟩ := skipped_inj lists
    obtain ⟨declared, findings⟩ := List.cons.inj keys
    obtain ⟨missing, unused⟩ := findings_inj findings
    have used := quotedList_injective (append_right_injective _ used)
    have declared := quotedList_injective (append_right_injective _ declared)
    have files := numbered_injective _ _ (List.cons.inj counts).1
    exact ⟨files, sourceFiles_eq counts (congrArg _ used), skipped, used, declared, missing, unused⟩
  · rintro ⟨files, sources, skipped, used, declared, missing, unused⟩
    have counts : first.countLines = second.countLines := by
      rw [countLines, countLines, files, sources, used, declared]
    have messages : first.skippedLines = second.skippedLines := by rw [skippedLines_eq, skippedLines_eq, skipped]
    have missing : first.missingLines = second.missingLines := by rw [missingLines_eq, missingLines_eq, missing]
    have unused : first.unusedLines = second.unusedLines := by rw [unusedLines_eq, unusedLines_eq, unused]
    have usedLines : first.usedLine = second.usedLine :=
      congrArg (fun keys => "Used keys in code: " ++ quotedList keys) used
    have declaredLines : first.declaredLine = second.declaredLine :=
      congrArg (fun keys => "Keys defined in .env files: " ++ quotedList keys) declared
    have lines : first.lines = second.lines := by
      rw [lines_eq, lines_eq, counts, messages, usedLines, declaredLines, missing, unused]
    rw [plain, lines, plain]

end

/-- A project in which a file is skipped. -/
def skippingReport : Report where
  root := .ofString "."
  declarationFiles := [.ofString "./.env"]
  sourceFiles := 2
  usedKeys := ["A\n\", \"B", "C"]
  declaredKeys := []
  missing := ["C"]
  unused := []
  skipped := [⟨.ofString "./a.js", .parse, "no program"⟩]

/-- The text of a report tells none of its paths, so another project can have the same text. -/
def movedReport : Report :=
  { skippingReport with
    root := .ofString "web"
    declarationFiles := [.ofString "web/.env.local"]
    skipped := [⟨.ofString "web/b.js", .traversal, "no program"⟩] }

theorem plain_eq_iff_moved :
    skippingReport.KeepsToLines ∧ movedReport.KeepsToLines ∧ skippingReport ≠ movedReport ∧
      skippingReport.plain = movedReport.plain := by
  have keeps : skippingReport.KeepsToLines := ⟨by decide, by decide, by decide⟩
  have keepsMoved : movedReport.KeepsToLines := ⟨by decide, by decide, by decide⟩
  refine ⟨keeps, keepsMoved, by decide, (plain_eq_iff keeps keepsMoved).mpr ?_⟩
  exact ⟨rfl, rfl, rfl, rfl, rfl, rfl, rfl⟩

end EnvAudit.Report
