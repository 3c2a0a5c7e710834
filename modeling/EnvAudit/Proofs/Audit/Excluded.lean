import EnvAudit.Audit
import EnvAudit.Proofs.Walk.Agree

/-! What an audit does not depend on: anything under an excluded name. -/
namespace EnvAudit

namespace ProjectFiles

theorem visited_of_mem {found : List Visit} {path : Path}
    (member : path ∈ (ofVisits found).declarations ∨ path ∈ (ofVisits found).sources) : .file path ∈ found := by
  have file : path ∈ found.filterMap Visit.file? :=
    member.elim List.mem_of_mem_filter List.mem_of_mem_filter
  obtain ⟨visit, within, same⟩ := List.mem_filterMap.mp file
  cases visit with
  | file other => exact Option.some.inj same ▸ within
  | failed other message => cases same

/-- What is gathered is what is visited. -/
theorem exists_of_gather {tree : FileTree} {root : Path} {exclude : List String} {files : ProjectFiles}
    (gathered : gather tree root exclude = .ok files) :
    ∃ found, Walk.visits tree (isExcluded exclude) root = .ok found ∧ files = ofVisits found := by
  unfold gather at gathered
  split at gathered
  · cases gathered
  next found walked => exact ⟨found, walked, (Except.ok.inj gathered).symm⟩

/-- What is gathered, by the entries of the root. -/
theorem gather_listed {tree : FileTree} {root : Path} {place : Place} {entries : List (Name × Node)}
    (stands : Walk.Stands tree root place entries true) (exclude : List String) :
    gather tree root exclude = .ok (ofVisits ((Node.listing entries).flatMap
      (Walk.visitEntry tree (isExcluded exclude) root ((tree.root.directoryCount + 1) * (tree.root.depth + 1))
        [⟨root, place⟩] root))) := by
  rw [gather, stands.visits, Walk.mostBranch, Walk.visitBelow_readable stands]

end ProjectFiles

namespace Audit

open Node (AgreeFrom)

/-- There is a report if files can be gathered, and it is the report on these files. -/
theorem runBy_eq_ok {read : Script.TreeReader} {tree : FileTree} {root : Path} {exclude ignore : List String}
    {report : Report} : runBy read tree root exclude ignore = .ok report ↔
      ∃ files, ProjectFiles.gather tree root exclude = .ok files ∧ ofFilesBy read tree root files ignore = report := by
  rw [runBy]
  cases ProjectFiles.gather tree root exclude <;> simp [Except.map]

theorem harvest_congr (kind : SkipKind) {left right : Path → Except Fault KeyList} {paths : List Path}
    (same : ∀ path ∈ paths, left path = right path) : harvest kind left paths = harvest kind right paths := by
  unfold harvest
  rw [List.map_congr_left fun path member => congrArg (Prod.mk path) (same path member)]

/-- What a report says of files depends on their contents only. -/
theorem ofFilesBy_congr (read : Script.TreeReader) {left right : FileTree} (root : Path) {files : ProjectFiles}
    (ignore : List String)
    (same : ∀ path, path ∈ files.declarations ∨ path ∈ files.sources → left.readFile path = right.readFile path) :
    ofFilesBy read left root files ignore = ofFilesBy read right root files ignore := by
  have declared :
      harvest .declaration (fun path => (Declaration.read left path).map Declaration.keys) files.declarations =
        harvest .declaration (fun path => (Declaration.read right path).map Declaration.keys) files.declarations := by
    refine harvest_congr _ fun path member => ?_
    unfold Declaration.read
    rw [same path (Or.inl member)]
  have used : harvest .parse (Usage.ofFileBy read left) files.sources =
      harvest .parse (Usage.ofFileBy read right) files.sources := by
    refine harvest_congr _ fun path member => ?_
    unfold Usage.ofFileBy
    rw [same path (Or.inr member)]
  unfold ofFilesBy
  rw [declared, used]

/-- Two trees without links that agree below a root, but for what stands under excluded names, are reported alike. -/
theorem run_eq_of_agree (read : Script.TreeReader) {left right : FileTree} {root : Path} {exclude : List String}
    (ignore : List String)
    (leftFree : left.root.isLinkFree = true) (rightFree : right.root.isLinkFree = true)
    (agree : AgreeFrom (ProjectFiles.isExcluded exclude) (fun _ => Eq) (left.node? root) (right.node? root)) :
    runBy read left root exclude ignore = runBy read right root exclude ignore := by
  unfold runBy ProjectFiles.gather
  rcases Walk.visits_agree leftFree rightFree agree with
    ⟨message, leftFails, rightFails⟩ | ⟨leftPlace, rightPlace, found, _, -, leftWalked, rightWalked, matched⟩
  · rw [leftFails, rightFails]
    rfl
  · cases Walk.eq_of_matched matched
    rw [leftWalked, rightWalked]
    refine congrArg Except.ok (ofFilesBy_congr _ root ignore fun path member => ?_)
    cases Walk.matched_of_visited matched (ProjectFiles.visited_of_mem member) with
    | @file names leftFile rightFile leftResolved rightResolved leftThere rightThere agree =>
      cases agree
      rw [FileTree.readFile_of_node ((FileTree.node_eq_ok left _ _).mpr ⟨_, leftResolved, leftThere⟩),
        FileTree.readFile_of_node ((FileTree.node_eq_ok right _ _).mpr ⟨_, rightResolved, rightThere⟩)]

/-- A source file beside an excluded directory that cannot be listed. -/
def withModules : FileTree where
  root := .directory
    [(Text.Utf8.encode "a.js", .file ⟨(Text.Utf8.encode "process.env.A").toArray⟩ true),
      (Text.Utf8.encode "node_modules", .directory [(Text.Utf8.encode ".env", .file ⟨#[]⟩ true)] false)] true
  wellNamed := by cbv

/-- The same source file beside a file of the excluded name. -/
def withoutModules : FileTree where
  root := .directory
    [(Text.Utf8.encode "node_modules", .file ⟨#[]⟩ true),
      (Text.Utf8.encode "a.js", .file ⟨(Text.Utf8.encode "process.env.A").toArray⟩ true)] true
  wellNamed := by cbv

private theorem agree_modules : AgreeFrom (ProjectFiles.isExcluded []) (fun _ => Eq)
    (withModules.node? (Path.ofString ".")) (withoutModules.node? (Path.ofString ".")) := by
  have left : withModules.node? (Path.ofString ".") = .ok withModules.root := by cbv
  have right : withoutModules.node? (Path.ofString ".") = .ok withoutModules.root := by cbv
  have out : ProjectFiles.isExcluded [] (Text.Utf8.encode "node_modules") = true := by decide +kernel
  rw [left, right]
  refine .found fun names kept => ?_
  cases names with
  | nil =>
    refine .directory true fun name => ?_
    simp only [List.lookup_cons, List.lookup_nil]
    cases name == Text.Utf8.encode "a.js" <;> cases name == Text.Utf8.encode "node_modules" <;> rfl
  | cons name rest =>
    have other : (name == Text.Utf8.encode "node_modules") = false := by
      rw [beq_eq_false_iff_ne]
      rintro rfl
      cases out.symm.trans (kept _ (by simp))
    simp only [withModules, withoutModules, Node.at?, Node.inner?, List.lookup_cons, List.lookup_nil, other]
    cases name == Text.Utf8.encode "a.js" with
    | false => exact .nothing
    | true =>
      cases rest with
      | nil => exact @Node.Alike.file _ (⟨(Text.Utf8.encode "process.env.A").toArray⟩, true) _ rfl
      | cons => exact .nothing

/-- What stands under the excluded name makes no difference there. -/
theorem run_eq_of_agree_modules :
    withModules.root.isLinkFree = true ∧ withoutModules.root.isLinkFree = true ∧
      AgreeFrom (ProjectFiles.isExcluded []) (fun _ => Eq) (withModules.node? (Path.ofString "."))
        (withoutModules.node? (Path.ofString ".")) ∧
      run withModules (Path.ofString ".") [] ["B"] = run withoutModules (Path.ofString ".") [] ["B"] :=
  ⟨rfl, rfl, agree_modules, run_eq_of_agree Script.Dialect.parse ["B"] rfl rfl agree_modules⟩

end Audit

end EnvAudit
