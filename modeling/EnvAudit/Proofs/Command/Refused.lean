import EnvAudit.Proofs.Audit.Removed
import EnvAudit.Proofs.Command.Gate

/-!
# Refused settings

A run beside a file of settings that is refused tells what it tells without the file, but for a warning.
-/
namespace EnvAudit.Command

/-- Refused settings are as good as none. The file of settings, a regular one that no link comes by, is refused for what is
in it, whatever else is; and nothing that a refused file says reaches the output or the status. -/
theorem run_diagnose_refused (readers : Readers) {tree : FileTree} {request : Request} {place : Place}
    {content : ByteArray} {readable : Bool}
    (entered : tree.resolveEntry (request.path.child (Text.Utf8.encode Settings.fileName)) = .ok place)
    (there : tree.root.at? place = some (.file content readable)) (unlinked : ¬ FileTree.LinkedThrough tree place) :
    let removed := tree.remove (request.path.child (Text.Utf8.encode Settings.fileName))
    ((∃ fault, Settings.loadBy readers.document tree request.path = .error fault) ↔
        Settings.Refused readers.document content.data.toList readable) ∧
      Settings.loadBy readers.document removed request.path = .ok none ∧
      (Settings.Refused readers.document content.data.toList readable →
        (runBy readers removed (.diagnose request)).output = (runBy readers tree (.diagnose request)).output ∧
          (runBy readers removed (.diagnose request)).status = (runBy readers tree (.diagnose request)).status) := by
  intro removed
  have file : Settings.FileAt tree request.path place := ⟨entered, _, _, there⟩
  obtain ⟨directory, entries, inside, -⟩ := FileTree.inside_of_entry Settings.isEntry_fileName entered
  have lacks : FileTree.Lacks place tree removed := FileTree.lacks_remove (by simp [inside]) entered there unlinked
  have failing := Settings.loadBy_error_iff readers.document entered there
  have none := Settings.loadBy_lacks readers.document lacks file
  refine ⟨failing, none, fun refused => ?_⟩
  -- Both runs are under the settings that hold where nothing is said, and audit the same files.
  obtain ⟨fault, failed⟩ := failing.mpr refused
  simp only [runBy, diagnose, settingsBy, failed, none, Audit.runBy_lacks readers.source lacks file]
  cases Audit.runBy readers.source tree request.path _ _ with
  | error fault => exact ⟨rfl, rfl⟩
  | ok report => exact ⟨rfl, rfl⟩

/-- Settings with a known key and an unknown one. -/
def misspelled : FileTree where
  root := .directory
    [(Text.Utf8.encode "a.js", .file ⟨(Text.Utf8.encode "process.env.A").toArray⟩ true),
      (Text.Utf8.encode "envdoctor.toml",
        .file ⟨(Text.Utf8.encode "ignore = [\"A\"]\nformat = \"json\"").toArray⟩ true)] true
  wellNamed := by cbv

private theorem refused_misspelled :
    Settings.Refused Toml.parse (Text.Utf8.encode "ignore = [\"A\"]\nformat = \"json\"") true := by
  rw [Settings.refused_readable_iff]
  rintro text same ⟨settings, parsed⟩
  cases Text.Utf8.encode_injective same
  have fails : (Settings.parseBy Toml.parse "ignore = [\"A\"]\nformat = \"json\"").toBool = false := by decide +kernel
  rw [parsed] at fails
  cases fails

/-- The known key is not ignored there, for the unknown one is refused with it. -/
theorem run_diagnose_refused_misspelled :
    Settings.Refused Toml.parse (Text.Utf8.encode "ignore = [\"A\"]\nformat = \"json\"") true ∧
      ¬ FileTree.LinkedThrough misspelled [Text.Utf8.encode "envdoctor.toml"] ∧
      (∃ fault, Settings.load misspelled (Path.ofString ".") = .error fault) ∧
      (run (misspelled.remove (Path.ofString "./envdoctor.toml")) (.diagnose {})).output =
        (run misspelled (.diagnose {})).output ∧
      (run (misspelled.remove (Path.ofString "./envdoctor.toml")) (.diagnose {})).status =
        (run misspelled (.diagnose {})).status := by
  have entered : misspelled.resolveEntry ((Path.ofString ".").child (Text.Utf8.encode Settings.fileName)) =
      .ok [Text.Utf8.encode "envdoctor.toml"] := by cbv
  have unlinked : ¬ FileTree.LinkedThrough misspelled [Text.Utf8.encode "envdoctor.toml"] :=
    FileTree.not_linkedThrough_of_free (by decide +kernel)
  obtain ⟨failing, -, same⟩ :=
    @run_diagnose_refused ⟨Script.Dialect.parse, Toml.parse⟩ misspelled {} _ _ _ entered rfl unlinked
  exact ⟨refused_misspelled, unlinked, failing.mpr refused_misspelled, same refused_misspelled⟩

/-- Settings that cannot be read, and a link whose target goes on behind them. -/
def passed : FileTree where
  root := .directory
    [(Text.Utf8.encode "bad", .link (Path.ofString "envdoctor.toml/x")),
      (Text.Utf8.encode "envdoctor.toml", .file ⟨#[]⟩ false)] true
  wellNamed := by cbv

/-- The link alone. -/
private def link : FileTree where
  root := .directory [(Text.Utf8.encode "bad", .link (Path.ofString "envdoctor.toml/x"))] true
  wellNamed := by cbv

private theorem remove_passed : passed.remove ((Path.ofString ".").child (Text.Utf8.encode Settings.fileName)) = link := by
  have entered : passed.resolveEntry ((Path.ofString ".").child (Text.Utf8.encode Settings.fileName)) =
      .ok [Text.Utf8.encode "envdoctor.toml"] := by cbv
  rw [FileTree.remove, entered]
  cbv

/-- The report where nothing but a failure at the link is found. -/
private def linkReport (error : SystemError) : Report where
  root := Path.ofString "."
  declarationFiles := []
  sourceFiles := 0
  usedKeys := []
  declaredKeys := []
  missing := []
  unused := []
  skipped := [⟨Path.ofString "./bad", .traversal, Walk.failureMessage (Path.ofString "./bad") error⟩]

private theorem run_of_entries {tree : FileTree} {entries : List (Name × Node)} {error : SystemError}
    (stands : Walk.Stands tree (Path.ofString ".") [] entries true)
    (gathered : ∀ fuel, ProjectFiles.ofVisits ((Node.listing entries).flatMap (Walk.visitEntry tree
      (ProjectFiles.isExcluded []) (Path.ofString ".") fuel [⟨Path.ofString ".", []⟩] (Path.ofString "."))) =
        ⟨[], [], (linkReport error).skipped⟩) :
    Audit.run tree (Path.ofString ".") [] [] = .ok (linkReport error) := by
  rw [Audit.run, Audit.runBy, ProjectFiles.gather_listed stands, gathered]
  rfl

private theorem run_passed : Audit.run passed (Path.ofString ".") [] [] = .ok (linkReport .notDirectory) := by
  have broken : passed.resolve ((Path.ofString ".").child (Text.Utf8.encode "bad")) = .error .notDirectory := by cbv
  have listed : Node.listing [(Text.Utf8.encode "bad", .link (Path.ofString "envdoctor.toml/x")),
      (Text.Utf8.encode "envdoctor.toml", .file ⟨#[]⟩ false)] =
        [(Text.Utf8.encode "bad", .link (Path.ofString "envdoctor.toml/x")),
          (Text.Utf8.encode "envdoctor.toml", .file ⟨#[]⟩ false)] := by cbv
  have kept : ProjectFiles.isExcluded [] (Text.Utf8.encode "envdoctor.toml") = false := by decide +kernel
  refine run_of_entries (⟨by cbv, rfl⟩ : Walk.Stands passed _ _ _ _) fun fuel => ?_
  rw [listed]
  simp only [List.flatMap_cons, List.flatMap_nil, Walk.visitEntry, Walk.target, Walk.linkTarget, broken, kept]
  decide +kernel

private theorem run_link : Audit.run link (Path.ofString ".") [] [] = .ok (linkReport .notFound) := by
  have broken : link.resolve ((Path.ofString ".").child (Text.Utf8.encode "bad")) = .error .notFound := by cbv
  have listed : Node.listing [(Text.Utf8.encode "bad", .link (Path.ofString "envdoctor.toml/x"))] =
      [(Text.Utf8.encode "bad", .link (Path.ofString "envdoctor.toml/x"))] := by cbv
  refine run_of_entries (⟨by cbv, rfl⟩ : Walk.Stands link _ _ _ _) fun fuel => ?_
  rw [listed]
  simp only [List.flatMap_cons, List.flatMap_nil, Walk.visitEntry, Walk.target, Walk.linkTarget, broken]
  decide +kernel

private theorem unlinked_passed : ¬ FileTree.LinkedTo passed [Text.Utf8.encode "envdoctor.toml"] := by
  rintro ⟨directory, name, target, linked, led⟩
  cases directory with
  | cons first rest =>
    -- Neither the link nor the file has anything in it.
    rw [passed] at linked
    simp only [Node.at?, Node.inner?, List.cons_append, List.lookup_cons, List.lookup_nil] at linked
    revert linked
    cases first == Text.Utf8.encode "bad" <;> cases first == Text.Utf8.encode "envdoctor.toml" <;>
      cases rest <;> simp [Node.at?, Node.inner?]
  | nil =>
    have named : name = Text.Utf8.encode "bad" := by
      by_contra other
      rw [passed] at linked
      simp only [Node.at?, Node.inner?, List.nil_append, List.lookup_cons, List.lookup_nil,
        beq_eq_false_iff_ne.mpr other] at linked
      revert linked
      cases name == Text.Utf8.encode "envdoctor.toml" <;> simp
    have broken : FileTree.follow passed.root FileTree.mostLinks [] [.name (Text.Utf8.encode "bad")] true =
        .error .notDirectory := by cbv
    rw [named, broken] at led
    cases led

/-- A link that only passes by the file is enough to tell the two runs apart: it fails for another reason without it. -/
theorem exists_refused_told :
    ¬ ∀ (tree : FileTree) (request : Request) (place : Place) (content : ByteArray) (readable : Bool),
      tree.resolveEntry (request.path.child (Text.Utf8.encode Settings.fileName)) = .ok place →
      tree.root.at? place = some (.file content readable) → ¬ FileTree.LinkedTo tree place →
      (∃ fault, Settings.load tree request.path = .error fault) →
        (run (tree.remove (request.path.child (Text.Utf8.encode Settings.fileName))) (.diagnose request)).output =
            (run tree (.diagnose request)).output ∧
          (run (tree.remove (request.path.child (Text.Utf8.encode Settings.fileName))) (.diagnose request)).status =
            (run tree (.diagnose request)).status := by
  intro always
  have entered : passed.resolveEntry ((Path.ofString ".").child (Text.Utf8.encode Settings.fileName)) =
      .ok [Text.Utf8.encode "envdoctor.toml"] := by cbv
  obtain ⟨fault, failed⟩ := (Settings.loadBy_error_iff Toml.parse entered rfl).mpr (.unreadable rfl)
  have gone : link.resolve ((Path.ofString ".").child (Text.Utf8.encode Settings.fileName)) = .error .notFound := by cbv
  have unset : (settingsOf link (Path.ofString ".")).1 = {} := by
    rw [settingsOf, settingsBy, Settings.loadBy, gone]
  have refused : (settingsOf passed (Path.ofString ".")).1 = {} := by
    rw [settingsOf, settingsBy, failed]
  obtain ⟨told, -⟩ := always passed {} _ _ _ entered rfl unlinked_passed ⟨fault, failed⟩
  have first : (run link (.diagnose {})).output = render .plain (linkReport .notFound) :=
    @output_of_runBy ⟨Script.Dialect.parse, Toml.parse⟩ link {} {} _ unset run_link
  have second : (run passed (.diagnose {})).output = render .plain (linkReport .notDirectory) :=
    @output_of_runBy ⟨Script.Dialect.parse, Toml.parse⟩ passed {} {} _ refused run_passed
  rw [remove_passed, first, second] at told
  revert told
  decide +kernel

end EnvAudit.Command
