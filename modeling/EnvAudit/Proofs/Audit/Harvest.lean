import EnvAudit.Audit
import EnvAudit.Proofs.KeyList

/-! What a harvest takes: the keys of every file that has any, each at its first occurrence, and one record of every
other file. -/
namespace EnvAudit

/-- A source file has keys if it can be read and is a program. -/
theorem Usage.ofFileBy_eq_ok {read : Script.TreeReader} {tree : FileTree} {path : Path} {found : KeyList} :
    ofFileBy read tree path = .ok found ↔ ∃ content program, tree.readFile path = .ok content ∧
      Script.parseBy read path (Text.Utf8.lossy content) = .ok program ∧ keys program = found := by
  unfold ofFileBy ofSourceBy
  cases tree.readFile path with
  | error error => simp
  | ok content =>
    cases parsed : Script.parseBy read path (Text.Utf8.lossy content) <;> simp [parsed, Except.map]

/-- A declaration file has keys if it can be read. -/
theorem Declaration.keys_read_eq_ok {tree : FileTree} {path : Path} {found : KeyList} :
    (Declaration.read tree path).map keys = .ok found ↔
      ∃ content, tree.readFile path = .ok content ∧ keys (Text.Utf8.lossy content) = found := by
  unfold Declaration.read
  cases tree.readFile path <;> simp [Except.map]

namespace Audit

/-- A harvest takes from every file its keys, or else its one record. -/
theorem harvest_eq {kind : SkipKind} {keysOf : Path → Except Fault KeyList} {keysIn : Path → List String}
    {records : Path → List Skip}
    (taken : ∀ path found, keysOf path = .ok found → keysIn path = found.keys ∧ records path = [])
    (failed : ∀ path fault, keysOf path = .error fault → keysIn path = [] ∧ records path = [.ofFault path kind fault])
    (paths : List Path) :
    harvest kind keysOf paths = ⟨KeyList.ofList (paths.flatMap keysIn), paths.flatMap records⟩ := by
  -- The keys found so far are the accumulator, so the induction is on any first part of them.
  have keys (first : List String) :
      (paths.map fun path => (path, keysOf path)).foldl (fun keys outcome => take keys outcome.2)
        (KeyList.ofList first) = KeyList.ofList (first ++ paths.flatMap keysIn) := by
    induction paths generalizing first with
    | nil => simp
    | cons path rest ih =>
      rw [List.map_cons, List.foldl_cons, List.flatMap_cons]
      cases outcome : keysOf path with
      | ok found => rw [take, KeyList.extend_ofList, ih, (taken path found outcome).1, List.append_assoc]
      | error fault => rw [take, ih, (failed path fault outcome).1, List.nil_append]
  have skipped : (paths.map fun path => (path, keysOf path)).filterMap (fun outcome =>
      record? kind outcome.1 outcome.2) = paths.flatMap records := by
    clear keys
    induction paths with
    | nil => rfl
    | cons path rest ih =>
      rw [List.map_cons, List.filterMap_cons, List.flatMap_cons, ← ih]
      cases outcome : keysOf path with
      | ok found => simp [record?, taken path found outcome]
      | error fault => simp [record?, failed path fault outcome]
  have onto := keys []
  rw [List.nil_append] at onto
  rw [← onto, ← skipped]
  rfl

/-- A key is taken if some file has it. -/
theorem mem_harvest {kind : SkipKind} {keysOf : Path → Except Fault KeyList} {paths : List Path} {key : String} :
    key ∈ (harvest kind keysOf paths).keys.keys ↔
      ∃ path ∈ paths, ∃ found, keysOf path = .ok found ∧ key ∈ found.keys := by
  let keysIn (path : Path) : List String := ((keysOf path).toOption.map KeyList.keys).getD []
  have taken : harvest kind keysOf paths =
      ⟨KeyList.ofList (paths.flatMap keysIn), paths.flatMap fun path => (record? kind path (keysOf path)).toList⟩ := by
    refine harvest_eq ?_ ?_ paths
    · intro path found outcome
      simp [keysIn, outcome, record?, Except.toOption]
    · intro path fault outcome
      simp [keysIn, outcome, record?, Except.toOption]
  rw [taken, KeyList.mem_ofList, List.mem_flatMap]
  refine exists_congr fun path => and_congr_right fun _ => ?_
  cases outcome : keysOf path with
  | ok found => simp [keysIn, outcome, Except.toOption]
  | error fault => simp [keysIn, outcome, Except.toOption]

/-- A file without keys leaves its record. -/
theorem recorded_of_failed {kind : SkipKind} {keysOf : Path → Except Fault KeyList} {paths : List Path} {path : Path}
    {fault : Fault} (listed : path ∈ paths) (failed : keysOf path = .error fault) :
    .ofFault path kind fault ∈ (harvest kind keysOf paths).skipped := by
  refine List.mem_filterMap.mpr ⟨(path, keysOf path), List.mem_map_of_mem listed, ?_⟩
  rw [failed]
  rfl

end Audit

end EnvAudit
