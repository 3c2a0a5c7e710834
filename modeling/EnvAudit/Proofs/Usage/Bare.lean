import EnvAudit.Proofs.Script.Bare
import EnvAudit.Proofs.Usage.Extraction

/-! The keys of a program do not depend on where its nodes stand in the text. -/
namespace EnvAudit.Usage

open EnvAudit.Script

@[simp] theorem partUnits_bare (part : Tree) : StringLiteral.partUnits part.bare = StringLiteral.partUnits part := by
  simp [StringLiteral.partUnits]

@[simp] theorem value_bare (tree : Tree) : StringLiteral.value? tree.bare = StringLiteral.value? tree := by
  simp [StringLiteral.value?, List.flatMap_map]

@[simp] theorem isImportMeta_bare (tree : Tree) : isImportMeta tree.bare = isImportMeta tree := by
  unfold isImportMeta
  rw [Tree.kind_bare, Tree.children_bare, Tree.field_bare, Tree.field_bare]
  split
  · cases tree.children with
    | nil => rfl
    | cons first rest => simp [Function.comp_def]
  · simp [Function.comp_def]

@[simp] theorem isEnvironment_bare (tree : Tree) : isEnvironment tree.bare = isEnvironment tree := by
  unfold isEnvironment
  rw [Tree.kind_bare, Tree.field_bare, Tree.field_bare]
  cases tree.field? "property" <;> cases tree.field? "object" <;> simp [isNamed]

private theorem memberKey_bare (tree : Tree) : memberKey tree.bare = memberKey tree := by
  unfold memberKey
  rw [Tree.field_bare, Tree.field_bare]
  cases tree.field? "object" <;> cases tree.field? "property" <;> simp

private theorem subscriptKey_bare (tree : Tree) : subscriptKey tree.bare = subscriptKey tree := by
  unfold subscriptKey
  rw [Tree.field_bare, Tree.field_bare]
  cases tree.field? "object" <;> cases tree.field? "index" <;> simp

private theorem parts_bare (kind : String) (tree : Tree) : parts kind tree.bare = (parts kind tree).map Tree.bare := by
  simp [parts, List.filter_map, Function.comp_def]

private theorem importedName_bare (specifier : Tree) : importedName specifier.bare = importedName specifier := by
  unfold importedName
  rw [Tree.field_bare]
  cases specifier.field? "name" <;> simp

private theorem importedKeys_bare (tree : Tree) : importedKeys tree.bare = importedKeys tree := by
  unfold importedKeys
  have source : (tree.bare.field? "source").bind StringLiteral.value? =
      (tree.field? "source").bind StringLiteral.value? := by
    rw [Tree.field_bare]
    cases tree.field? "source" <;> simp
  rw [source]
  simp only [parts_bare, List.flatMap_map, importedName_bare, List.flatMap_assoc]

@[simp] theorem keysAt_bare (tree : Tree) : keysAt tree.bare = keysAt tree := by
  simp [keysAt, memberKey_bare, subscriptKey_bare, importedKeys_bare]

theorem keys_bare (tree : Tree) : keys tree.bare = keys tree := by
  simp [keys_eq_ofList, Tree.nodes_bare, List.flatMap_map]

end EnvAudit.Usage
