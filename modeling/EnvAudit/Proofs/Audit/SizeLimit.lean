import EnvAudit.Proofs.Audit.Excluded
import EnvAudit.Proofs.Audit.Harvest
import EnvAudit.Proofs.Text.LossySize

/-!
# The size limit

The limit is on the text of a source file. A file that is no UTF-8 has a text longer than itself, so it can be skipped for
its size although it is small; all other files are skipped exactly if they are too large.
-/
namespace EnvAudit

open Text.Utf8 (added)

/-- The fault of a source file with too many bytes; it has no position. -/
def Fault.tooLarge (path : Path) : Fault := .parse path "file exceeds 10000000 bytes" none

namespace Script

/-- Of all faults of a text, that of its size is told only if it is too long. -/
theorem parseBy_eq_tooLarge_iff {read : TreeReader} {path : Path} {source : String} :
    parseBy read path source = .error (.tooLarge path) ↔ mostBytes < source.utf8ByteSize := by
  constructor
  · intro failed
    by_contra small
    unfold parseBy at failed
    rw [if_neg (by omega)] at failed
    dsimp only at failed
    -- The faults of flaws begin with other words.
    split at failed
    · split at failed
      · cases failed
      · simp only [flawFault, Fault.tooLarge, Except.error.injEq] at failed
        split at failed
        next flaw _ =>
          have words := congrArg String.toList (Fault.parse.inj failed).2.1
          simp [String.toList_append] at words
        next => simp at failed
    · cases failed
  · intro large
    unfold parseBy
    rw [if_pos (by omega)]
    rfl

end Script

/-- A source file is skipped for its size if its bytes and those that replacements add are too many. -/
theorem Usage.ofFileBy_eq_tooLarge_iff {read : Script.TreeReader} {tree : FileTree} {path : Path} {content : Bytes}
    (readable : tree.readFile path = .ok content) :
    ofFileBy read tree path = .error (.tooLarge path) ↔ Script.mostBytes < content.length + added content := by
  rw [← Text.Utf8.size_lossy, ← @Script.parseBy_eq_tooLarge_iff read path, ofFileBy, readable]
  dsimp only [ofSourceBy]
  cases Script.parseBy read path (Text.Utf8.lossy content) <;> simp [Except.map]

namespace Audit

/-- What the limit says of a source file with some content. -/
structure Limited (read : Script.TreeReader) (tree : FileTree) (path : Path) (content : Bytes) : Prop where
  /-- The limit is on the text. -/
  skipped : Usage.ofFileBy read tree path = .error (.tooLarge path) ↔ Script.mostBytes < content.length + added content
  /-- It is on the file unless replacements alone take the text over the limit. -/
  onFile : (Usage.ofFileBy read tree path = .error (.tooLarge path) ↔ Script.mostBytes < content.length) ↔
    (content.length ≤ Script.mostBytes → content.length + added content ≤ Script.mostBytes)
  large : Script.mostBytes < content.length → Usage.ofFileBy read tree path = .error (.tooLarge path)
  /-- Replacements are made only where the file is no UTF-8, and they at most triple it. -/
  valid : Text.Utf8.isValid content = true → added content = 0
  tripled : added content ≤ 2 * content.length
  /-- An audit that skips the file for its size records it as a source file that is no program. -/
  recorded : Script.mostBytes < content.length + added content → ∀ root exclude ignore files report,
    ProjectFiles.gather tree root exclude = .ok files → path ∈ files.sources →
    runBy read tree root exclude ignore = .ok report →
      ⟨path, .parse, (Fault.tooLarge path).message⟩ ∈ report.skipped

/-- The limit holds of every source file that can be read, whatever its bytes. -/
theorem limited_of_readFile (read : Script.TreeReader) {tree : FileTree} {path : Path} {content : Bytes}
    (readable : tree.readFile path = .ok content) : Limited read tree path content := by
  have skipped : Usage.ofFileBy read tree path = .error (.tooLarge path) ↔
      Script.mostBytes < content.length + added content := Usage.ofFileBy_eq_tooLarge_iff readable
  constructor
  case skipped => exact skipped
  case onFile =>
    rw [skipped]
    constructor
    · intro same small
      by_contra large
      exact absurd (same.mp (by omega)) (by omega)
    · intro within
      constructor
      · intro large
        by_contra small
        exact absurd (within (by omega)) (by omega)
      · intro large
        omega
  case large =>
    intro large
    exact skipped.mpr (by omega)
  case valid => exact Text.Utf8.added_of_isValid content
  case tripled => exact Text.Utf8.added_le content
  case recorded =>
    intro large root exclude ignore files report gathered listed ran
    obtain ⟨_, again, rfl⟩ := runBy_eq_ok.mp ran
    cases gathered.symm.trans again
    exact List.mem_append_right _ (recorded_of_failed listed (skipped.mpr large))

/-- A directory of one source file. -/
def oneSource (content : Bytes) : FileTree where
  root := .directory [(Text.Utf8.encode "a.js", .file ⟨content.toArray⟩ true)] true
  wellNamed := by cbv

theorem readFile_oneSource (content : Bytes) : (oneSource content).readFile (.ofString "a.js") = .ok content := by
  cbv

/-- An access and a comment of as many bytes `0xff` as make its text too long. -/
def foreignComment : Bytes := Text.Utf8.encode "process.env.A//" ++ List.replicate 3333329 0xff

private theorem added_foreignComment : added foreignComment = 6666658 := by
  have ascii : ∀ byte ∈ Text.Utf8.encode "process.env.A//", byte < 0x80 := by decide +kernel
  rw [foreignComment, Text.Utf8.added_ascii ascii, Text.Utf8.added_replicate]

private theorem length_foreignComment : foreignComment.length = 3333344 := by
  have front : (Text.Utf8.encode "process.env.A//").length = 15 := by decide
  rw [foreignComment, List.length_append, front, List.length_replicate]

theorem limited_of_readFile_foreign :
    (oneSource foreignComment).readFile (.ofString "a.js") = .ok foreignComment ∧
      Limited Script.Dialect.parse (oneSource foreignComment) (.ofString "a.js") foreignComment :=
  ⟨readFile_oneSource _, limited_of_readFile _ (readFile_oneSource _)⟩

/-- A file of a third of the limit is skipped for its size, for its bytes are no UTF-8. -/
theorem exists_small_tooLarge : ∃ tree path content, FileTree.readFile tree path = .ok content ∧
    content.length ≤ Script.mostBytes ∧
      Usage.ofFileBy Script.Dialect.parse tree path = .error (.tooLarge path) := by
  refine ⟨oneSource foreignComment, .ofString "a.js", foreignComment, readFile_oneSource _, ?_, ?_⟩
  · rw [length_foreignComment]
    decide
  · rw [Usage.ofFileBy_eq_tooLarge_iff (readFile_oneSource _), length_foreignComment, added_foreignComment]
    decide

end Audit

end EnvAudit
