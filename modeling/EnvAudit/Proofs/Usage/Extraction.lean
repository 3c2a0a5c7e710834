import EnvAudit.Proofs.KeyList
import EnvAudit.Proofs.Script.Cursor
import EnvAudit.Proofs.Usage.Contribution

/-!
# Extraction

A cursor that enters every node meets the nodes of a tree in textual order, so the keys of a program are what its nodes
contribute, at any depth, each at its first contribution.
-/
namespace EnvAudit.Usage

open EnvAudit.Script

/-- From any place on, the loop adds what the nodes ahead contribute. -/
theorem addKeys_eq (keys : KeyList) (cursor : Cursor) :
    addKeys keys cursor = keys.extend (cursor.ahead.flatMap keysAt) := by
  -- Along the loop itself: the node of the cursor is the first one ahead, the rest is ahead of the next cursor.
  fun_induction addKeys keys cursor with
  | case1 keys cursor known next step ih =>
    rw [ih, cursor.ahead_eq, step, List.flatMap_cons, KeyList.extend_append]
    rfl
  | case2 keys cursor known last =>
    rw [cursor.ahead_eq, last, List.flatMap_cons, ← KeyList.extend_append]
    rfl

theorem keys_eq_ofList (tree : Tree) : keys tree = KeyList.ofList (tree.nodes.flatMap keysAt) := by
  have root : Cursor.ahead { node := tree } = tree.nodes := by simp [Cursor.ahead, Cursor.beyond, Tree.nodesOf]
  rw [keys, addKeys_eq, root]
  rfl

/-! ## Imports in order -/

/-- The specifiers between the braces of an import, in textual order. -/
def specifiers (node : Tree) : List Tree :=
  ((parts "import_clause" node).flatMap (parts "named_imports")).flatMap (parts "import_specifier")

theorem mem_specifiers_iff {node specifier : Tree} : specifier ∈ specifiers node ↔ Specifies node specifier := by
  simp only [specifiers, List.mem_flatMap, mem_parts_iff]
  constructor
  · rintro ⟨names, ⟨clause, inStatement, inClause⟩, inNames⟩
    exact ⟨clause, names, inStatement, inClause, inNames⟩
  · rintro ⟨clause, names, inStatement, inClause, inNames⟩
    exact ⟨names, ⟨clause, inStatement, inClause⟩, inNames⟩

private theorem nodesOf_sublist (node : Tree) : (Tree.nodesOf node.children).Sublist node.nodes := by
  obtain ⟨head, children⟩ := node
  exact List.sublist_cons_self _ _

/-- What is taken of some children in their order is in textual order. -/
private theorem flatMap_parts_sublist {kind : String} {inner : Tree → List Tree}
    (within : ∀ child, (inner child).Sublist child.nodes) (node : Tree) :
    ((parts kind node).flatMap inner).Sublist (Tree.nodesOf node.children) := by
  rw [Tree.nodesOf_eq_flatMap, parts]
  induction node.children with
  | nil => exact List.Sublist.refl _
  | cons child rest ih =>
    rw [List.filter_cons, List.flatMap_cons]
    split
    · exact (within child).append ih
    · exact ih.trans (List.sublist_append_right _ _)

theorem specifiers_sublist (node : Tree) : (specifiers node).Sublist (Tree.nodesOf node.children) := by
  have single (child : Tree) : [child].Sublist child.nodes := by
    cases child
    simp [Tree.nodes]
  -- From the innermost list outwards, each time the children in their order.
  have inNames (names : Tree) : (parts "import_specifier" names).Sublist names.nodes := by
    have taken : ((parts "import_specifier" names).flatMap fun specifier => [specifier]).Sublist _ :=
      flatMap_parts_sublist single names
    rw [List.flatMap_singleton'] at taken
    exact taken.trans (nodesOf_sublist names)
  have inClause (clause : Tree) :
      ((parts "named_imports" clause).flatMap (parts "import_specifier")).Sublist clause.nodes :=
    (flatMap_parts_sublist inNames clause).trans (nodesOf_sublist clause)
  rw [specifiers, List.flatMap_assoc]
  exact flatMap_parts_sublist inClause node

theorem keysAt_import {node : Tree} (kind : node.kind = "import_statement") :
    keysAt node = (importedKeys node).filter (· ≠ "") := by
  simp [keysAt, kind]

private theorem keysAt_sublist {node : Tree} (kind : node.kind = "import_statement") :
    (keysAt node).Sublist ((specifiers node).flatMap importedName) := by
  have taken : (importedKeys node).Sublist ((specifiers node).flatMap importedName) := by
    unfold importedKeys
    split
    · split
      · exact List.Sublist.refl _
      · exact List.nil_sublist _
    · exact List.nil_sublist _
  rw [keysAt_import kind]
  exact List.filter_sublist.trans taken

/-! ## The keys of a program -/

/-- What the keys of a program are: those that nodes in it contribute, each once and in the order of the nodes. -/
structure Extracted (tree : Tree) (keys : List String) : Prop where
  distinct : keys.Nodup
  named : "" ∉ keys
  complete : ∀ key, key ∈ keys ↔ key ≠ "" ∧ ∃ node, tree.Within node ∧ Contributes node key
  ordered : keys = (tree.nodes.flatMap keysAt).eraseDups
  each : ∀ node key, key ∈ keysAt node ↔ key ≠ "" ∧ Contributes node key
  imports : ∀ node, node.kind = "import_statement" → ∃ specifiers : List Tree,
    specifiers.Sublist (Tree.nodesOf node.children) ∧ (∀ specifier, specifier ∈ specifiers ↔ Specifies node specifier) ∧
      (keysAt node).Sublist (specifiers.flatMap importedName)

/-- Extraction is sound, complete and ordered over every tree. -/
theorem extracted_keys (tree : Tree) : Extracted tree (keys tree).keys := by
  have member (key : String) : key ∈ (keys tree).keys ↔ key ≠ "" ∧ ∃ node, tree.Within node ∧ Contributes node key := by
    rw [keys_eq_ofList, KeyList.mem_ofList, List.mem_flatMap]
    constructor
    · rintro ⟨node, inside, found⟩
      obtain ⟨some, contributes⟩ := mem_keysAt_iff.mp found
      exact ⟨some, node, Tree.mem_nodes_iff.mp inside, contributes⟩
    · rintro ⟨some, node, within, contributes⟩
      exact ⟨node, Tree.mem_nodes_iff.mpr within, mem_keysAt_iff.mpr ⟨some, contributes⟩⟩
  constructor
  case distinct => exact KeyList.nodup _
  case named => exact fun empty => ((member "").mp empty).1 rfl
  case complete => exact member
  case ordered => rw [keys_eq_ofList, KeyList.keys_ofList]
  case each => exact fun node key => mem_keysAt_iff
  case imports =>
    intro node kind
    exact ⟨specifiers node, specifiers_sublist node, fun _ => mem_specifiers_iff, keysAt_sublist kind⟩

end EnvAudit.Usage
