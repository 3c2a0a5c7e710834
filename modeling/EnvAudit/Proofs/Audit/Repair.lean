import EnvAudit.Proofs.Audit.Edited
import EnvAudit.Proofs.Audit.Exact
import EnvAudit.Proofs.Declaration.Growth
import EnvAudit.Proofs.Usage.Extraction

/-! Declaring what is missing repairs a project: a declaration file that goes on with a line for each missing key leaves
nothing missing, and nothing else in the report changes but the keys that are declared. -/
namespace EnvAudit.Audit

open Declaration (endedText emptyLines)

/-! ## Keys that are used -/

/-- No source uses the empty key. -/
theorem named_of_used {read : Script.TreeReader} {tree : FileTree} {paths : List Path} :
    "" ∉ (harvest .parse (Usage.ofFileBy read tree) paths).keys.keys := by
  intro member
  obtain ⟨path, -, _, used, inFile⟩ := mem_harvest.mp member
  obtain ⟨content, program, -, -, rfl⟩ := Usage.ofFileBy_eq_ok.mp used
  rw [Usage.keys_eq_ofList, KeyList.mem_ofList, List.mem_flatMap] at inFile
  obtain ⟨node, -, here⟩ := inFile
  exact (Usage.mem_keysAt_iff.mp here).1 rfl

/-! ## Keys that are declared -/

section Declared

variable {tree : FileTree} {root path : Path} {exclude : List String} {files : ProjectFiles} {content : Bytes}
  {items : List Declaration.Item} {added : List String}

/-- What a declaration file declares before it grows and after it, key by key. -/
private theorem declaredIn_appended (gathered : ProjectFiles.gather tree root exclude = .ok files)
    (free : ∀ node, tree.node? root = .ok node → node.isLinkFree = true) (declares : path ∈ files.declarations)
    (readable : tree.readFile path = .ok content)
    (written : Declaration.normalize (Text.Utf8.lossy content).toList = endedText items)
    (spelled : ∀ key ∈ added, key ≠ "" ∧ ∀ c ∈ key.toList, Declaration.isKeyChar c = true) {other : Path}
    (listed : other ∈ files.declarations) :
    (∀ key, key ∈ declaredIn (tree.appended path (Text.Utf8.encode (emptyLines added))) other ↔
      key ∈ declaredIn tree other ∨ other = path ∧ key ∈ added) ∧
    (∀ kept : String → Bool, (∀ key ∈ added, kept key = false) →
      (declaredIn (tree.appended path (Text.Utf8.encode (emptyLines added))) other).filter kept =
        (declaredIn tree other).filter kept) ∧
    declarationRecords (tree.appended path (Text.Utf8.encode (emptyLines added))) other =
      declarationRecords tree other := by
  have after := ProjectFiles.readFile_appended gathered free (.inl declares) readable
    (Text.Utf8.encode (emptyLines added)) (.inl listed)
  by_cases same : other = path
  · subst same
    rw [if_pos rfl] at after
    simp only [declaredIn, declarationRecords, after, readable, Declaration.keys_endedText written,
      Declaration.keys_grown written spelled]
    refine ⟨fun key => by simp, fun kept out => ?_, trivial⟩
    have none : added.filter kept = [] := List.filter_eq_nil_iff.mpr fun key member => by simp [out key member]
    rw [KeyList.filter_eraseDups, KeyList.filter_eraseDups, List.filter_append, none, List.append_nil]
  · rw [if_neg same] at after
    simp only [declaredIn, declarationRecords, after]
    simp [same]

/-- All that is declared, before the file grows and after it. -/
private theorem declared_appended (gathered : ProjectFiles.gather tree root exclude = .ok files)
    (free : ∀ node, tree.node? root = .ok node → node.isLinkFree = true) (declares : path ∈ files.declarations)
    (readable : tree.readFile path = .ok content)
    (written : Declaration.normalize (Text.Utf8.lossy content).toList = endedText items)
    (spelled : ∀ key ∈ added, key ≠ "" ∧ ∀ c ∈ key.toList, Declaration.isKeyChar c = true) :
    let before := harvest .declaration (fun path => (Declaration.read tree path).map Declaration.keys) files.declarations
    let after := harvest .declaration (fun other => (Declaration.read
      (tree.appended path (Text.Utf8.encode (emptyLines added))) other).map Declaration.keys) files.declarations
    (∀ key, key ∈ after.keys.keys ↔ key ∈ before.keys.keys ∨ key ∈ added) ∧
      (∀ kept : String → Bool, (∀ key ∈ added, kept key = false) →
        after.keys.keys.filter kept = before.keys.keys.filter kept) ∧
      after.skipped = before.skipped := by
  have each {other : Path} (listed : other ∈ files.declarations) :=
    declaredIn_appended gathered free declares readable written spelled listed
  simp only [declared_harvest]
  refine ⟨fun key => ?_, fun kept out => ?_, List.flatMap_congr fun other listed => (each listed).2.2⟩
  · simp only [KeyList.mem_ofList, List.mem_flatMap]
    constructor
    · -- A key of the merge comes from one of the files, and only the one that grew has new keys.
      rintro ⟨other, listed, member⟩
      rcases ((each listed).1 key).mp member with known | ⟨rfl, new⟩
      · exact .inl ⟨other, listed, known⟩
      · exact .inr new
    · rintro (⟨other, listed, known⟩ | new)
      · exact ⟨other, listed, ((each listed).1 key).mpr (.inl known)⟩
      · exact ⟨path, declares, ((each declares).1 key).mpr (.inr ⟨rfl, new⟩)⟩
  · rw [KeyList.keys_ofList, KeyList.keys_ofList, KeyList.filter_eraseDups, KeyList.filter_eraseDups,
      List.filter_flatMap, List.filter_flatMap, List.flatMap_congr fun other listed => (each listed).2.1 kept out]

end Declared

/-! ## The report -/

variable {tree : FileTree} {root path : Path} {exclude ignore : List String} {content : Bytes}
  {items : List Declaration.Item} {report : Report}

/-- A declaration file that is a well-formed document may go on with a line for each missing key: then nothing is missing,
the missing keys are declared with those from before, and all else in the report is as it was. -/
theorem run_repaired {read : Script.TreeReader} (free : ∀ node, tree.node? root = .ok node → node.isLinkFree = true)
    (ran : runBy read tree root exclude ignore = .ok report) (declares : path ∈ report.declarationFiles)
    (noSource : path.isSource = false) (readable : tree.readFile path = .ok content)
    (written : Declaration.normalize (Text.Utf8.lossy content).toList = endedText items)
    (spelled : ∀ key ∈ report.missing, ∀ c ∈ key.toList, Declaration.isKeyChar c = true) :
    ∃ declared : List String, (∀ key, key ∈ declared ↔ key ∈ report.declaredKeys ∨ key ∈ report.missing) ∧
      runBy read (tree.appended path (Text.Utf8.encode (emptyLines report.missing))) root exclude ignore =
        .ok { report with declaredKeys := declared, missing := [] } := by
  obtain ⟨files, gathered, ran⟩ := runBy_eq_ok.mp ran
  rw [← ran] at declares
  -- What grows is read as a declaration file only, so the sources are used as before.
  have sourceless : path ∉ files.sources := by
    intro listed
    obtain ⟨found, -, rfl⟩ := ProjectFiles.exists_of_gather gathered
    cases noSource.symm.trans (List.mem_filter.mp listed).2
  generalize missing : report.missing = added at spelled ⊢
  have named : ∀ key ∈ added, key ≠ "" ∧ ∀ c ∈ key.toList, Declaration.isKeyChar c = true := by
    intro key member
    refine ⟨?_, spelled key member⟩
    rintro rfl
    rw [← missing, ← ran] at member
    exact named_of_used (List.mem_of_mem_filter (List.mem_of_mem_filter member))
  let grown := tree.appended path (Text.Utf8.encode (emptyLines added))
  have used : harvest .parse (Usage.ofFileBy read grown) files.sources =
      harvest .parse (Usage.ofFileBy read tree) files.sources := by
    refine harvest_congr _ fun other listed => ?_
    have apart : other ≠ path := by
      rintro rfl
      exact sourceless listed
    unfold Usage.ofFileBy
    rw [ProjectFiles.readFile_appended gathered free (.inl declares) readable _ (.inr listed), if_neg apart]
  obtain ⟨keys, others, records⟩ := declared_appended gathered free declares readable written named
  have findings := Findings.without_declared (by rw [← missing, ← ran]; rfl) keys others
  have regathered : ProjectFiles.gather grown root exclude = .ok files :=
    (ProjectFiles.gather_mapFiles _).trans gathered
  refine ⟨(harvest .declaration (fun other => (Declaration.read grown other).map Declaration.keys)
    files.declarations).keys.keys, fun key => ?_, ?_⟩
  · rw [keys, ← ran]
    rfl
  · refine runBy_eq_ok.mpr ⟨files, regathered, ?_⟩
    rw [← ran]
    simp only [ofFilesBy, used, grown, findings, records]

private theorem declared_troubled :
    troubled.readFile (Path.ofString "./.env") = .ok (Text.Utf8.encode "# B=\nA='1'\nC=\nA=2\n") := by cbv

/-- A line with a key, an equals sign, a value, and a margin around each of them. -/
private def assigned (margin : Declaration.Margin) (key : Declaration.KeyText) (value : Declaration.Value) :
    Declaration.Item :=
  .assignment {
    margin, exported := none, key, separator := .equals margin margin, value, after := margin, comment := none }

/-- The declaration file of that project is a document: a comment that looks like an assignment, and three assignments. -/
private theorem written_troubled : ∃ items : List Declaration.Item,
    Declaration.normalize (Text.Utf8.lossy (Text.Utf8.encode "# B=\nA='1'\nC=\nA=2\n")).toList = endedText items := by
  refine ⟨[
    .comment ⟨[], by simp⟩ ⟨[' ', 'B', '='], by simp⟩,
    assigned ⟨[], by simp⟩ ⟨['A'], by simp, List.forall_mem_singleton.mpr rfl⟩
      (.quoted .single ['1'] (by decide) (by decide)),
    assigned ⟨[], by simp⟩ ⟨['C'], by simp, List.forall_mem_singleton.mpr rfl⟩ .empty,
    assigned ⟨[], by simp⟩ ⟨['A'], by simp, List.forall_mem_singleton.mpr rfl⟩
      (.plain ⟨['2'], by simp, ⟨'2', rfl, by decide, by decide⟩, ⟨'2', rfl, by decide⟩⟩)], ?_⟩
  rw [Text.Utf8.lossy_encode]
  decide +kernel

/-- With the line `B=` behind its declaration file the project lacks nothing. -/
theorem run_repaired_troubled :
    troubled.root.isLinkFree = true ∧
      runBy accessReader troubled (Path.ofString ".") [] ["C"] = .ok troubledReport ∧
      Path.ofString "./.env" ∈ troubledReport.declarationFiles ∧ (Path.ofString "./.env").isSource = false ∧
      troubled.readFile (Path.ofString "./.env") = .ok (Text.Utf8.encode "# B=\nA='1'\nC=\nA=2\n") ∧
      (∃ items, Declaration.normalize (Text.Utf8.lossy (Text.Utf8.encode "# B=\nA='1'\nC=\nA=2\n")).toList =
        endedText items) ∧
      ∃ declared : List String, (∀ key, key ∈ declared ↔ key ∈ ["A", "C"] ∨ key ∈ ["B"]) ∧
        runBy accessReader
          (troubled.appended (Path.ofString "./.env") (Text.Utf8.encode (emptyLines ["B"]))) (Path.ofString ".") [] ["C"] =
          .ok { troubledReport with declaredKeys := declared, missing := [] } := by
  have free : troubled.root.isLinkFree = true := by decide +kernel
  have declares : Path.ofString "./.env" ∈ troubledReport.declarationFiles := List.mem_singleton.mpr rfl
  have noSource : (Path.ofString "./.env").isSource = false := by decide +kernel
  obtain ⟨items, written⟩ := written_troubled
  have spelled : ∀ key ∈ troubledReport.missing, ∀ c ∈ key.toList, Declaration.isKeyChar c = true := by
    simp [troubledReport, Declaration.isKeyChar]
  exact ⟨free, runBy_troubled, declares, noSource, declared_troubled, ⟨items, written⟩,
    run_repaired (fun _ => FileTree.isLinkFree_node free) runBy_troubled declares noSource declared_troubled written
      spelled⟩

end EnvAudit.Audit
