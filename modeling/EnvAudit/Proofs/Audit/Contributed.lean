import EnvAudit.Proofs.Audit.Excluded
import EnvAudit.Proofs.Audit.Harvest
import EnvAudit.Proofs.ProjectFiles

/-!
# Contributed keys

The keys that a project uses and those that it declares, said of the file system and of single files.
-/
namespace EnvAudit.Audit

open ProjectFiles (Reached gather)

/-- A root that can be audited: it leads to a directory that can be listed. -/
def Usable (tree : FileTree) (root : Path) : Prop := ∃ listed, tree.list root = .ok listed

/-- A key is used in a source file that is reached, can be read and is a program, as `read` reads programs. -/
def Uses (read : Script.TreeReader) (tree : FileTree) (root : Path) (exclude : List String) (key : String) : Prop :=
  ∃ names content program, Reached tree exclude root names ∧ (root.below names).isSource = true ∧
    tree.readFile (root.below names) = .ok content ∧
    Script.parseBy read (root.below names) (Text.Utf8.lossy content) = .ok program ∧ key ∈ (Usage.keys program).keys

/-- A key is declared in a declaration file that is reached and can be read. -/
def Declares (tree : FileTree) (root : Path) (exclude : List String) (key : String) : Prop :=
  ∃ names content, Reached tree exclude root names ∧ (root.below names).isDeclaration = true ∧
    tree.readFile (root.below names) = .ok content ∧ key ∈ (Declaration.keys (Text.Utf8.lossy content)).keys

variable {tree : FileTree} {root path : Path} {exclude : List String} {files : ProjectFiles} {key : String}

/-- A root can be audited if the files below it can be gathered. -/
theorem usable_iff : Usable tree root ↔ ∃ files, gather tree root exclude = .ok files := by
  constructor
  · rintro ⟨listed, opened⟩
    obtain ⟨place, entries, stands, -⟩ := Walk.stands_of_list opened
    exact ⟨_, by rw [gather, stands.visits]⟩
  · rintro ⟨files, gathered⟩
    obtain ⟨found, walked, -⟩ := ProjectFiles.exists_of_gather gathered
    obtain ⟨place, entries, stands, -⟩ := Walk.stands_of_visits walked
    exact ⟨_, stands.list_readable⟩

/-- The files of a kind that are gathered are those of the kind that are reached. -/
private theorem mem_gathered_iff {found : List Visit}
    (walked : Walk.visits tree (ProjectFiles.isExcluded exclude) root = .ok found) (kind : Path → Bool) :
    path ∈ (found.filterMap Visit.file?).filter kind ↔
      ∃ names, path = root.below names ∧ Reached tree exclude root names ∧ kind (root.below names) = true := by
  rw [List.mem_filter]
  constructor
  · rintro ⟨listed, ofKind⟩
    -- A file that is visited lies at the end of a way, and that way has names.
    obtain ⟨place, resolved, files⟩ := Walk.file_mem_visits walked
    obtain ⟨visit, visited, file⟩ := List.mem_filterMap.mp listed
    cases visit with
    | failed failing message => cases file
    | file other =>
      cases file
      obtain ⟨names, rfl, way⟩ := (files path).mp visited
      have some_ : names ≠ [] := by cases way <;> simp
      exact ⟨names, rfl, (ProjectFiles.way_iff_reached resolved some_).mp way, ofKind⟩
  · rintro ⟨names, rfl, reached, ofKind⟩
    exact ⟨(ProjectFiles.file_mem_gathered walked reached.entries).mpr reached, ofKind⟩

theorem mem_used_iff (read : Script.TreeReader) (gathered : gather tree root exclude = .ok files) :
    key ∈ (harvest .parse (Usage.ofFileBy read tree) files.sources).keys.keys ↔ Uses read tree root exclude key := by
  obtain ⟨found, walked, rfl⟩ := ProjectFiles.exists_of_gather gathered
  simp only [mem_harvest, ProjectFiles.ofVisits, mem_gathered_iff walked, Usage.ofFileBy_eq_ok]
  constructor
  · rintro ⟨_, ⟨names, rfl, reached, source⟩, _, ⟨content, program, opened, parsed, rfl⟩, member⟩
    exact ⟨names, content, program, reached, source, opened, parsed, member⟩
  · rintro ⟨names, content, program, reached, source, opened, parsed, member⟩
    exact ⟨_, ⟨names, rfl, reached, source⟩, _, ⟨content, program, opened, parsed, rfl⟩, member⟩

theorem mem_declared_iff (gathered : gather tree root exclude = .ok files) :
    key ∈ (harvest .declaration (fun path => (Declaration.read tree path).map Declaration.keys)
        files.declarations).keys.keys ↔ Declares tree root exclude key := by
  obtain ⟨found, walked, rfl⟩ := ProjectFiles.exists_of_gather gathered
  simp only [mem_harvest, ProjectFiles.ofVisits, mem_gathered_iff walked, Declaration.keys_read_eq_ok]
  constructor
  · rintro ⟨_, ⟨names, rfl, reached, declaration⟩, _, ⟨content, read, rfl⟩, member⟩
    exact ⟨names, content, reached, declaration, read, member⟩
  · rintro ⟨names, content, reached, declaration, read, member⟩
    exact ⟨_, ⟨names, rfl, reached, declaration⟩, _, ⟨content, read, rfl⟩, member⟩

end EnvAudit.Audit
