import EnvAudit.Proofs.Script.Cursor
import Mathlib.Tactic.MkIffOfInductiveProp

/-!
# Flaws

Where nodes are marked as flawed exactly if a flaw is in them, the search that enters only marked nodes finds the first
flaw of a tree in textual order. Where the children of every node lie one behind the other, no flaw starts earlier.
-/
namespace EnvAudit.Script

namespace Tree

/-- No node of a tree is a flaw. -/
def Flawless (tree : Tree) : Prop := ∀ node, tree.Within node → node.isFlaw = false

/-- A node is marked as flawed if it is a flaw or one is below it, and only then. -/
def Marked (node : Tree) : Prop := node.head.flawed = true ↔ ∃ inner, node.Within inner ∧ inner.isFlaw = true

/-- A node lies in a text as a stretch that holds the stretches of its children, one behind the other. -/
@[mk_iff]
structure Laid (node : Tree) : Prop where
  forward : node.head.start ≤ node.head.stop
  inside : ∀ child ∈ node.children, node.head.start ≤ child.head.start ∧ child.head.stop ≤ node.head.stop
  ordered : node.children.Pairwise fun child later => child.head.stop ≤ later.head.start

/-- A node is the first flaw of a tree in textual order. -/
def FirstFlaw (tree flaw : Tree) : Prop :=
  flaw.isFlaw = true ∧
    ∃ before after, tree.nodes = before ++ flaw :: after ∧ ∀ node ∈ before, node.isFlaw = false

theorem FirstFlaw.within {tree flaw : Tree} (first : tree.FirstFlaw flaw) : tree.Within flaw := by
  obtain ⟨-, before, after, nodes, -⟩ := first
  exact mem_nodes_iff.mp (by rw [nodes]; simp)

/-- Beside the node itself, what is in it is in its children. -/
theorem forall_within_iff {tree : Tree} {holds : Tree → Prop} :
    (∀ node, tree.Within node → holds node) ↔
      holds tree ∧ ∀ child ∈ tree.children, ∀ node, child.Within node → holds node := by
  constructor
  · intro all
    exact ⟨all tree (.self tree), fun child member node within => all node (.inChild member within)⟩
  · rintro ⟨whole, each⟩ node within
    cases within with
    | self => exact whole
    | inChild member within => exact each _ member node within

/-! ## Marks -/

theorem Marked.flawless_iff {tree : Tree} (marked : tree.Marked) : tree.head.flawed = false ↔ tree.Flawless := by
  rw [Marked] at marked
  rw [← Bool.not_eq_true, marked]
  simp [Flawless]

instance (node : Tree) : Decidable node.Marked :=
  decidable_of_iff (node.head.flawed = node.nodes.any isFlaw) (by
    rw [Marked, Bool.eq_iff_iff, List.any_eq_true]
    simp only [mem_nodes_iff])

instance (node : Tree) : Decidable node.Laid := decidable_of_iff' _ (laid_iff node)

end Tree

namespace Cursor

theorem ahead_root (tree : Tree) : ahead { node := tree } = tree.nodes := by simp [ahead, beyond, Tree.nodesOf]

/-- The search passes over no flaw on its way to the next node. -/
private theorem ahead_passed {cursor : Cursor} (marked : cursor.node.Marked) (passed : cursor.node.isFlaw = false) :
    ∃ clean, cursor.ahead = clean ++ ((cursor.next? cursor.node.head.flawed).map ahead).getD [] ∧
      ∀ node ∈ clean, node.isFlaw = false := by
  cases flawed : cursor.node.head.flawed with
  | true => exact ⟨[cursor.node], cursor.ahead_eq, by simpa using passed⟩
  | false =>
    have skips : cursor.next? false = cursor.leave? := by simp [next?]
    refine ⟨cursor.node.nodes, by rw [skips, ← beyond_eq, ahead], fun node member => ?_⟩
    exact marked.flawless_iff.mp flawed node (Tree.mem_nodes_iff.mp member)

theorem firstFlaw_eq {cursor : Cursor} (marked : ∀ node ∈ cursor.ahead, node.Marked) :
    cursor.firstFlaw = cursor.ahead.find? Tree.isFlaw := by
  have first (cursor : Cursor) : cursor.node ∈ cursor.ahead := by
    rw [ahead_eq]
    exact List.mem_cons_self
  have onwards {clean rest : List Tree} (none : ∀ node ∈ clean, node.isFlaw = false) :
      (clean ++ rest).find? Tree.isFlaw = rest.find? Tree.isFlaw := by
    rw [List.find?_append, List.find?_eq_none.mpr (by simpa using none), Option.none_or]
  -- Along the search itself: what is ahead of the next cursor is ahead of the cursor too.
  fun_induction firstFlaw cursor with
  | case1 cursor found => rw [ahead_eq, List.find?_cons_of_pos found]
  | case2 cursor passed next step ih =>
    obtain ⟨clean, split, none⟩ := ahead_passed (marked _ (first cursor)) (by simpa using passed)
    rw [step] at split
    rw [split] at marked ⊢
    rw [onwards none]
    exact ih fun node member => marked node (List.mem_append_right _ member)
  | case3 cursor passed last =>
    obtain ⟨clean, split, none⟩ := ahead_passed (marked _ (first cursor)) (by simpa using passed)
    rw [last] at split
    rw [split, onwards none]
    rfl

end Cursor

namespace Tree

/-- The search finds the first flaw in textual order, though it enters only marked nodes. -/
theorem firstFlaw_eq_find {tree : Tree} (marked : ∀ node, tree.Within node → node.Marked) :
    tree.firstFlaw = tree.nodes.find? isFlaw := by
  have ahead : ∀ node ∈ Cursor.ahead { node := tree }, node.Marked := by
    rw [Cursor.ahead_root]
    exact fun node member => marked node (mem_nodes_iff.mp member)
  rw [firstFlaw, Cursor.firstFlaw_eq ahead, Cursor.ahead_root]

theorem firstFlaw_eq_some_iff {tree flaw : Tree} (marked : ∀ node, tree.Within node → node.Marked) :
    tree.firstFlaw = some flaw ↔ tree.FirstFlaw flaw := by
  rw [firstFlaw_eq_find marked, List.find?_eq_some_iff_append]
  simp [FirstFlaw]

theorem exists_firstFlaw {tree : Tree} (marked : ∀ node, tree.Within node → node.Marked) (flawed : ¬ tree.Flawless) :
    ∃ flaw, tree.firstFlaw = some flaw := by
  cases found : tree.firstFlaw with
  | some flaw => exact ⟨flaw, rfl⟩
  | none =>
    rw [firstFlaw_eq_find marked, List.find?_eq_none] at found
    exact absurd (fun node within => by simpa using found node (mem_nodes_iff.mpr within)) flawed

/-! ## Order -/

/-- What is in a node lies in its stretch. -/
theorem within_stretch {tree node : Tree} (laid : ∀ node, tree.Within node → node.Laid) (within : tree.Within node) :
    tree.head.start ≤ node.head.start ∧ node.head.start ≤ node.head.stop ∧ node.head.stop ≤ tree.head.stop := by
  induction within with
  | self tree => exact ⟨Nat.le_refl _, (laid tree (.self tree)).forward, Nat.le_refl _⟩
  | @inChild tree child node member within ih =>
    obtain ⟨onwards, forward, upto⟩ := ih fun node inner => laid node (.inChild member inner)
    obtain ⟨start, stop⟩ := (laid tree (.self tree)).inside child member
    exact ⟨Nat.le_trans start onwards, forward, Nat.le_trans upto stop⟩

mutual

/-- The nodes of a tree in textual order are ordered by where they start. -/
theorem nodes_sorted : (tree : Tree) → (∀ node, tree.Within node → node.Laid) →
    tree.nodes.Pairwise fun node later => node.head.start ≤ later.head.start
  | .node head children, laid => by
    obtain ⟨here, each⟩ := forall_within_iff.mp laid
    rw [nodes, List.pairwise_cons]
    refine ⟨fun node member => ?_, nodesOf_sorted children here.ordered each⟩
    exact (within_stretch laid (mem_nodes_iff.mp (by rw [nodes]; exact List.mem_cons_of_mem _ member))).1

private theorem nodesOf_sorted : (children : List Tree) →
    children.Pairwise (fun child later => child.head.stop ≤ later.head.start) →
    (∀ child ∈ children, ∀ node, child.Within node → node.Laid) →
    (nodesOf children).Pairwise fun node later => node.head.start ≤ later.head.start
  | [], _, _ => by simp [nodesOf]
  | child :: rest, ordered, laid => by
    obtain ⟨first, later⟩ := List.pairwise_cons.mp ordered
    obtain ⟨inFirst, inRest⟩ := List.forall_mem_cons.mp laid
    rw [nodesOf, List.pairwise_append]
    refine ⟨nodes_sorted child inFirst, nodesOf_sorted rest later inRest, fun node member other inOther => ?_⟩
    rw [nodesOf_eq_flatMap, List.mem_flatMap] at inOther
    obtain ⟨next, among, within⟩ := inOther
    obtain ⟨-, forward, upto⟩ := within_stretch inFirst (mem_nodes_iff.mp member)
    obtain ⟨onwards, -⟩ := within_stretch (inRest next among) (mem_nodes_iff.mp within)
    have apart := first next among
    omega

end

/-- No flaw of a tree starts before the first one in textual order. -/
theorem FirstFlaw.earliest {tree flaw node : Tree} (first : tree.FirstFlaw flaw)
    (laid : ∀ node, tree.Within node → node.Laid) (within : tree.Within node) (isFlaw : node.isFlaw = true) :
    flaw.head.start ≤ node.head.start := by
  obtain ⟨-, before, after, nodes, clean⟩ := first
  have sorted := nodes_sorted tree laid
  have member := mem_nodes_iff.mpr within
  rw [nodes] at sorted member
  rcases List.mem_append.mp member with early | here
  · simp [clean node early] at isFlaw
  · rcases List.mem_cons.mp here with rfl | late
    · exact Nat.le_refl _
    · exact (List.pairwise_cons.mp (List.pairwise_append.mp sorted).2.1).1 node late

end Tree

end EnvAudit.Script
