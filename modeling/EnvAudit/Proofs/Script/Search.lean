import EnvAudit.Proofs.Script.Flaws

/-!
# The search for the first flaw

The search goes from node to node; it enters marked nodes only and climbs back behind the last child of a node. Where the
marks are right it comes to an end and finds what a search of all nodes finds.
-/
namespace EnvAudit.Script

namespace Cursor

/-- A search from a cursor on: how many moves it makes, and what it finds. -/
inductive Searches : Cursor → Nat → Option Tree → Prop
  | found {cursor : Cursor} (flaw : cursor.node.isFlaw = true) : Searches cursor 0 (some cursor.node)
  | ended {cursor : Cursor} (passed : cursor.node.isFlaw = false)
      (last : cursor.next? cursor.node.head.flawed = none) : Searches cursor 0 none
  | moved {cursor next : Cursor} {moves : Nat} {found : Option Tree} (passed : cursor.node.isFlaw = false)
      (move : cursor.next? cursor.node.head.flawed = some next) (rest : Searches next moves found) :
      Searches cursor (moves + 1) found

/-- A search ends with fewer moves than there are nodes ahead, since no move leads back to one of them. -/
theorem searches_firstFlaw (cursor : Cursor) : ∃ moves < cursor.ahead.length, Searches cursor moves cursor.firstFlaw := by
  have present (cursor : Cursor) : 0 < cursor.ahead.length := by simp [cursor.ahead_eq]
  fun_induction firstFlaw cursor with
  | case1 cursor found => exact ⟨0, present cursor, .found found⟩
  | case2 cursor passed next move ih =>
    obtain ⟨moves, within, rest⟩ := ih
    have shorter := length_ahead_lt move
    exact ⟨moves + 1, by omega, .moved (by simpa using passed) move rest⟩
  | case3 cursor passed last => exact ⟨0, present cursor, .ended (by simpa using passed) last⟩

end Cursor

namespace Tree

/-- Where nodes are marked as flawed exactly if a flaw is in them, the search ends with fewer moves than the tree has
nodes and finds the node that a search of all nodes in textual order finds; it finds none exactly if no node is a flaw.
Where the children of every node lie in it one behind the other, no flaw starts before the one that is found. -/
theorem firstFlaw_exact {tree : Tree} (marked : ∀ node, tree.Within node → node.Marked) :
    (∃ moves < tree.nodes.length, Cursor.Searches { node := tree } moves tree.firstFlaw) ∧
    tree.firstFlaw = tree.nodes.find? isFlaw ∧
    (tree.firstFlaw = none ↔ ∀ node, tree.Within node → node.isFlaw = false) ∧
    ((∀ node, tree.Within node → node.Laid) → ∀ flaw, tree.firstFlaw = some flaw →
      ∀ node, tree.Within node → node.isFlaw = true → flaw.head.start ≤ node.head.start) := by
  refine ⟨Cursor.ahead_root tree ▸ Cursor.searches_firstFlaw { node := tree }, firstFlaw_eq_find marked, ?_, ?_⟩
  · rw [firstFlaw_eq_find marked, List.find?_eq_none]
    simp only [mem_nodes_iff, Bool.not_eq_true]
  · intro laid flaw found node within isFlaw
    exact ((firstFlaw_eq_some_iff marked).mp found).earliest laid within isFlaw

/-- A statement without flaws, one where a brace is missing two levels down and a part behind it fits nowhere, and
another such part. -/
def unclosedTree : Tree :=
  .node { kind := "program", flawed := true, stop := 9 } [
    .node { kind := "expression_statement", stop := 2 } [
      .node { kind := "identifier", stop := 1, text := "a" } [],
      .node { kind := ";", named := false, start := 1, stop := 2, text := ";" } []],
    .node { kind := "if_statement", flawed := true, start := 2, stop := 8 } [
      .node { kind := "if", named := false, start := 2, stop := 4, text := "if" } [],
      .node { kind := "statement_block", flawed := true, start := 4, stop := 5 } [
        .node { kind := "\x7b", named := false, start := 4, stop := 5, text := "\x7b" } [],
        .node { kind := "\x7d", named := false, missing := true, flawed := true, start := 5, stop := 5 } []],
      .node { kind := "ERROR", flawed := true, start := 6, stop := 8 } []],
    .node { kind := "ERROR", flawed := true, start := 8, stop := 9 } []]

theorem firstFlaw_exact_unclosed : (∀ node, unclosedTree.Within node → node.Marked) ∧
    (∀ node, unclosedTree.Within node → node.Laid) ∧
    (unclosedTree.firstFlaw.map fun flaw => (flaw.kind, flaw.head.start)) = some ("\x7d", 5) ∧
    ∀ node, unclosedTree.Within node → node.isFlaw = true → 5 ≤ node.head.start := by
  have marked : ∀ node, unclosedTree.Within node → node.Marked := by
    simp only [← mem_nodes_iff]
    decide +kernel
  have laid : ∀ node, unclosedTree.Within node → node.Laid := by
    simp only [← mem_nodes_iff]
    decide +kernel
  obtain ⟨-, exhaustive, -, earliest⟩ := firstFlaw_exact marked
  have brace : (unclosedTree.nodes.find? isFlaw).map (fun flaw => (flaw.kind, flaw.head.start)) = some ("\x7d", 5) := by
    decide +kernel
  rw [← exhaustive] at brace
  obtain ⟨flaw, found, place⟩ := Option.map_eq_some_iff.mp brace
  exact ⟨marked, laid, brace, (Prod.mk.inj place).2 ▸ earliest laid flaw found⟩

end Tree

end EnvAudit.Script
