import EnvAudit.Proofs.Audit.Edited
import EnvAudit.Proofs.Audit.Exact
import EnvAudit.Proofs.Usage.Extraction

/-! A source file that cannot be used is isolated: an audit of the project with the file emptied differs in the record
of the file only. -/
namespace EnvAudit

namespace Usage

/-- A reader that reads an empty text as a program without parts. -/
def ReadsBlank (read : Script.TreeReader) : Prop :=
  ∃ head : Script.Tree.Head, read .tsx "" = .node head [] ∧ head.flawed = false

/-- The reader of the program is one of these. -/
theorem readsBlank_parse : ReadsBlank Script.Dialect.parse := by
  have divided : Script.Direct.tokens? "".toList = some [] := by
    unfold Script.Direct.tokens? Script.Direct.tokensOnto
    rfl
  have read : Script.Direct.read? "" = some (.node { kind := "program" } []) := by
    rw [Script.Direct.read?, divided]
    rfl
  refine ⟨{ kind := "program" }, ?_, rfl⟩
  rw [Script.Dialect.parse, read]
  rfl

theorem ofSourceBy_blank {read : Script.TreeReader} (blank : ReadsBlank read) (path : Path) :
    ofSourceBy read path "" = .ok .empty := by
  obtain ⟨head, empty, fits⟩ := blank
  have parsed : Script.parseBy read path "" = .ok (.node head []) := by
    rw [Script.parseBy_of_fits read path "" (by decide) (by rw [empty]; exact fits), empty]
  have unused : keysAt (.node head []) = [] := by
    simp [keysAt, memberKey, subscriptKey, importedKeys, Script.Tree.field?, Script.Tree.fieldAmong]
  rw [ofSourceBy, parsed]
  simp only [Except.map, keys_eq_ofList, Script.Tree.nodes, Script.Tree.nodesOf, List.flatMap_cons, unused]
  rfl

/-- A fault of a source file names it. -/
theorem path_of_ofFileBy_error {read : Script.TreeReader} {tree : FileTree} {path : Path} {fault : Fault}
    (failed : ofFileBy read tree path = .error fault) : fault.path? = some path := by
  unfold ofFileBy ofSourceBy at failed
  cases content : tree.readFile path with
  | error error =>
    simp only [content, Except.error.injEq] at failed
    rw [← failed]
    rfl
  | ok bytes =>
    cases parsed : Script.parseBy read path (Text.Utf8.lossy bytes) with
    | ok program => simp [content, parsed, Except.map] at failed
    | error other =>
      simp only [content, parsed, Except.map, Except.error.injEq] at failed
      rw [← failed]
      exact Script.path_of_parseBy_error parsed

end Usage

namespace Audit

/-! ## Harvests -/

section Harvest

variable {kind : SkipKind} {before after : Path → Except Fault KeyList} {paths chosen : List Path}

private theorem kind_of_harvest : ∀ skip ∈ (harvest kind before paths).skipped, skip.kind = kind := by
  intro skip member
  obtain ⟨⟨path, outcome⟩, -, recorded⟩ := List.mem_filterMap.mp member
  cases outcome with
  | ok found => cases recorded
  | error fault =>
    cases recorded
    rfl

/-- A record that a harvest leaves under a path is that of a file without keys. -/
private theorem failed_of_harvest (own : ∀ path fault, before path = .error fault → fault.path? = some path)
    {skip : Skip} (member : skip ∈ (harvest kind before paths).skipped) : ∃ fault, before skip.path = .error fault := by
  obtain ⟨⟨path, outcome⟩, listed, recorded⟩ := List.mem_filterMap.mp member
  obtain ⟨_, -, same⟩ := List.mem_map.mp listed
  cases same
  cases failed : before path with
  | ok found => simp [record?, failed] at recorded
  | error fault =>
    simp only [record?, failed, Option.some.injEq] at recorded
    refine ⟨fault, ?_⟩
    rw [← recorded, Skip.ofFault, own path fault failed]
    exact failed

/-- When some files that left records give no keys instead, a harvest differs in those records only. -/
private theorem harvest_replaced (own : ∀ path fault, before path = .error fault → fault.path? = some path)
    (kept : ∀ path ∈ paths, path ∉ chosen → after path = before path)
    (replaced : ∀ path ∈ paths, path ∈ chosen → (∃ fault, before path = .error fault) ∧ after path = .ok .empty) :
    harvest kind after paths = ⟨(harvest kind before paths).keys,
      (harvest kind before paths).skipped.filter fun skip => skip.path ∉ chosen⟩ := by
  have same (path : Path) (listed : path ∈ paths) (keys : KeyList) :
      take keys (after path) = take keys (before path) := by
    by_cases member : path ∈ chosen
    · obtain ⟨⟨fault, failed⟩, empty⟩ := replaced path listed member
      rw [failed, empty]
      rfl
    · rw [kept path listed member]
  have fewer (path : Path) (listed : path ∈ paths) :
      record? kind path (after path) = (record? kind path (before path)).filter fun skip => skip.path ∉ chosen := by
    by_cases member : path ∈ chosen
    · obtain ⟨⟨fault, failed⟩, empty⟩ := replaced path listed member
      rw [failed, empty]
      simp [record?, Skip.ofFault, Option.filter, own path fault failed, member]
    · rw [kept path listed member]
      cases failed : before path with
      | ok found => rfl
      | error fault => simp [record?, Skip.ofFault, Option.filter, own path fault failed, member]
  simp only [harvest, List.foldl_map, List.filterMap_map, Function.comp_def, List.filter_filterMap, Harvest.mk.injEq]
  exact ⟨List.foldl_ext _ _ _ fun keys path listed => same path listed keys, List.filterMap_congr fewer⟩

end Harvest

/-! ## Files that are emptied -/

variable {tree : FileTree} {root : Path} {exclude : List String} {files : ProjectFiles} {paths : List Path}

/-- When source files are emptied, the same files are gathered, and what is read in them differs in those only. -/
private theorem gather_emptied (free : ∀ node, tree.node? root = .ok node → node.isLinkFree = true)
    (gathered : ProjectFiles.gather tree root exclude = .ok files) (sources : ∀ path ∈ paths, path ∈ files.sources) :
    ProjectFiles.gather (tree.emptied paths) root exclude = .ok files ∧
      ∀ path, path ∈ files.declarations ∨ path ∈ files.sources →
        (tree.emptied paths).readFile path = if path ∈ paths then .ok [] else tree.readFile path := by
  refine ⟨(ProjectFiles.gather_mapFiles _).trans gathered, fun path listed => ?_⟩
  obtain ⟨place, file, resolved, read, edited⟩ := ProjectFiles.readFile_of_gathered gathered listed
  -- In a project without links two paths to one place are one path.
  have chosen : (∃ path ∈ paths, tree.resolve path = .ok place) ↔ path ∈ paths := by
    constructor
    · rintro ⟨other, member, same⟩
      rwa [ProjectFiles.eq_of_resolve_eq gathered free listed (.inr (sources other member))
        (resolved.trans same.symm)]
    · exact fun member => ⟨path, member, resolved⟩
  refine (edited _).trans ?_
  by_cases member : path ∈ paths
  · rw [if_pos (chosen.mpr member), if_pos member]
    rfl
  · rw [if_neg (mt chosen.mp member), if_neg member, read]

/-- A parse record of a report is that of a source file without keys. -/
private theorem failed_of_recorded {read : Script.TreeReader} {ignore : List String}
    (walk : ∀ skip ∈ files.skipped, skip.kind = .traversal) {skip : Skip}
    (recorded : skip ∈ (ofFilesBy read tree root files ignore).skipped) (kind : skip.kind = .parse) :
    ∃ fault, Usage.ofFileBy read tree skip.path = .error fault := by
  rcases List.mem_append.mp recorded with earlier | used
  · rcases List.mem_append.mp earlier with walked | declared
    · cases (walk skip walked).symm.trans kind
    · cases (kind_of_harvest skip declared).symm.trans kind
  · exact failed_of_harvest (fun _ _ => Usage.path_of_ofFileBy_error) used

/-- The harvest of the sources lacks the records of those that are emptied, and is the same otherwise. -/
private theorem harvest_emptied {read : Script.TreeReader} (blank : Usage.ReadsBlank read)
    (contents : ∀ path ∈ files.sources,
      (tree.emptied paths).readFile path = if path ∈ paths then .ok [] else tree.readFile path)
    (failed : ∀ path ∈ paths, ∃ fault, Usage.ofFileBy read tree path = .error fault) :
    harvest .parse (Usage.ofFileBy read (tree.emptied paths)) files.sources =
      ⟨(harvest .parse (Usage.ofFileBy read tree) files.sources).keys,
        (harvest .parse (Usage.ofFileBy read tree) files.sources).skipped.filter fun skip => skip.path ∉ paths⟩ := by
  refine harvest_replaced (fun _ _ => Usage.path_of_ofFileBy_error) ?_ ?_
  · intro path member other
    unfold Usage.ofFileBy
    rw [contents path member, if_neg other]
  · intro path member chosen
    refine ⟨failed path chosen, ?_⟩
    have empty : Text.Utf8.lossy [] = "" := by cbv
    unfold Usage.ofFileBy
    rw [contents path member, if_pos chosen]
    simp only [empty]
    exact Usage.ofSourceBy_blank blank path

/-- An audit goes on without the source files that it cannot use: if they are emptied, the report lacks their records
and is the same otherwise. -/
theorem run_isolates {read : Script.TreeReader} (blank : Usage.ReadsBlank read)
    (free : ∀ node, tree.node? root = .ok node → node.isLinkFree = true) (ignore : List String) {report : Report}
    (gathered : ProjectFiles.gather tree root exclude = .ok files)
    (ran : runBy read tree root exclude ignore = .ok report)
    (broken : ∀ path ∈ paths, path ∈ files.sources ∧ path ∉ files.declarations ∧
      ∃ skip ∈ report.skipped, skip.kind = .parse ∧ skip.path = path) :
    runBy read (tree.emptied paths) root exclude ignore =
      .ok { report with skipped := report.skipped.filter fun skip => ¬ (skip.kind = .parse ∧ skip.path ∈ paths) } := by
  obtain ⟨regathered, contents⟩ := gather_emptied free gathered fun path member => (broken path member).1
  obtain ⟨-, -, walk⟩ := gather_distinct gathered
  rw [runBy, gathered] at ran
  cases ran
  have failed : ∀ path ∈ paths, ∃ fault, Usage.ofFileBy read tree path = .error fault := by
    intro path member
    obtain ⟨-, -, skip, recorded, kind, rfl⟩ := broken path member
    exact failed_of_recorded walk recorded kind
  have declared : harvest .declaration (fun path => (Declaration.read (tree.emptied paths) path).map Declaration.keys)
      files.declarations = harvest .declaration (fun path => (Declaration.read tree path).map Declaration.keys)
      files.declarations := by
    refine harvest_congr _ fun path member => ?_
    unfold Declaration.read
    rw [contents path (Or.inl member), if_neg fun chosen => (broken path chosen).2.1 member]
  have used := harvest_emptied blank (fun path member => contents path (Or.inr member)) failed
  -- The records of the walk and of declaration files are of other kinds.
  have others (kind : SkipKind) (differ : kind ≠ .parse) {skipped : List Skip}
      (same : ∀ skip ∈ skipped, skip.kind = kind) :
      skipped.filter (fun skip => ¬ (skip.kind = .parse ∧ skip.path ∈ paths)) = skipped :=
    List.filter_eq_self.mpr fun skip member => by simp [same skip member, differ]
  have chosen : ((harvest .parse (Usage.ofFileBy read tree) files.sources).skipped.filter fun skip =>
      ¬ (skip.kind = .parse ∧ skip.path ∈ paths)) =
      (harvest .parse (Usage.ofFileBy read tree) files.sources).skipped.filter fun skip => skip.path ∉ paths :=
    List.filter_congr fun skip member => by simp [kind_of_harvest skip member]
  rw [runBy, regathered, Except.map, ofFilesBy, declared, used]
  simp only [ofFilesBy, List.filter_append, others .traversal (by decide) walk,
    others .declaration (by decide) kind_of_harvest, chosen]

/-- The two source files of that project that cannot be used, one for its permissions and one for its text, leave a record
each. Both are gone once the files are emptied, and the record of the walk is left. -/
theorem run_isolates_troubled :
    Usage.ReadsBlank accessReader ∧ troubled.root.isLinkFree = true ∧
      (∀ path ∈ [Path.ofString "./c.js", Path.ofString "./a.js"],
        path ∈ troubledFiles.sources ∧ path ∉ troubledFiles.declarations ∧
          ∃ skip ∈ troubledReport.skipped, skip.kind = .parse ∧ skip.path = path) ∧
      runBy accessReader (troubled.emptied [Path.ofString "./c.js", Path.ofString "./a.js"]) (Path.ofString ".") [] ["C"] =
        .ok { troubledReport with skipped := troubledFiles.skipped } := by
  have blank : Usage.ReadsBlank accessReader := ⟨_, rfl, rfl⟩
  have free : troubled.root.isLinkFree = true := by decide +kernel
  have broken : ∀ path ∈ [Path.ofString "./c.js", Path.ofString "./a.js"],
      path ∈ troubledFiles.sources ∧ path ∉ troubledFiles.declarations ∧
        ∃ skip ∈ troubledReport.skipped, skip.kind = .parse ∧ skip.path = path := by decide +kernel
  have isolated := run_isolates blank (fun _ => FileTree.isLinkFree_node free) ["C"] gather_troubled runBy_troubled broken
  have left : (troubledReport.skipped.filter fun skip =>
      ¬ (skip.kind = .parse ∧ skip.path ∈ [Path.ofString "./c.js", Path.ofString "./a.js"])) = troubledFiles.skipped := by
    decide +kernel
  rw [left] at isolated
  exact ⟨blank, free, broken, isolated⟩

end Audit
end EnvAudit
