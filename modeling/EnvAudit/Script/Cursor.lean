import EnvAudit.Script.Tree

/-!
# Cursors

A place in a syntax tree that moves from node to node. `next?` leads through a tree in textual order and may pass
over what is below a node; every move leaves fewer nodes ahead.
-/
namespace EnvAudit.Script

/-- A node, the nodes behind it in the node above, and the same for every node above, innermost first. -/
structure Cursor where
  node : Tree
  behind : List Tree := []
  above : List (Tree × List Tree) := []

namespace Cursor

def firstChild? : Cursor → Option Cursor
  | ⟨.node head (child :: rest), behind, above⟩ => some ⟨child, rest, (.node head (child :: rest), behind) :: above⟩
  | ⟨.node _ [], _, _⟩ => none

def nextSibling? : Cursor → Option Cursor
  | ⟨_, next :: rest, above⟩ => some ⟨next, rest, above⟩
  | ⟨_, [], _⟩ => none

def parent? : Cursor → Option Cursor
  | ⟨_, _, (node, behind) :: above⟩ => some ⟨node, behind, above⟩
  | ⟨_, _, []⟩ => none

theorem length_above_of_parent {cursor parent : Cursor} (up : cursor.parent? = some parent) :
    parent.above.length < cursor.above.length := by
  obtain ⟨node, behind, above⟩ := cursor
  cases above with
  | nil => simp [parent?] at up
  | cons outer above =>
    simp only [parent?, Option.some.injEq] at up
    subst up
    simp

/-- The next sibling of the node at hand, or else of the nearest node above it that has one. -/
def leave? (cursor : Cursor) : Option Cursor :=
  match cursor.nextSibling? with
  | some next => some next
  | none =>
    match _ : cursor.parent? with
    | some parent => leave? parent
    | none => none
termination_by cursor.above.length
decreasing_by exact length_above_of_parent ‹_›

@[simp] theorem leave_sibling (node next : Tree) (rest : List Tree) (above : List (Tree × List Tree)) :
    leave? ⟨node, next :: rest, above⟩ = some ⟨next, rest, above⟩ := by
  rw [leave?]
  rfl

@[simp] theorem leave_parent (node outer : Tree) (behind : List Tree) (above : List (Tree × List Tree)) :
    leave? ⟨node, [], (outer, behind) :: above⟩ = leave? ⟨outer, behind, above⟩ := by
  rw [leave?]
  rfl

@[simp] theorem leave_root (node : Tree) : leave? ⟨node, [], []⟩ = none := by
  rw [leave?]
  rfl

/-- The next node in textual order; what is below the node at hand is passed over unless it is to be entered. -/
def next? (cursor : Cursor) (enter : Bool) : Option Cursor :=
  (if enter then cursor.firstChild? else none).or cursor.leave?

/-- The nodes behind all that is below the node at hand, in textual order. -/
def beyond (cursor : Cursor) : List Tree :=
  Tree.nodesOf cursor.behind ++ cursor.above.flatMap fun (_, behind) => Tree.nodesOf behind

/-- The nodes from the one at hand on, in textual order. -/
def ahead (cursor : Cursor) : List Tree := cursor.node.nodes ++ cursor.beyond

theorem ahead_firstChild {cursor child : Cursor} (down : cursor.firstChild? = some child) :
    cursor.ahead = cursor.node :: child.ahead := by
  obtain ⟨⟨head, children⟩, behind, above⟩ := cursor
  cases children with
  | nil => simp [firstChild?] at down
  | cons first rest =>
    simp only [firstChild?, Option.some.injEq] at down
    subst down
    simp [ahead, beyond, Tree.nodes, Tree.nodesOf]

theorem ahead_of_firstChild_none {cursor : Cursor} (leaf : cursor.firstChild? = none) :
    cursor.ahead = cursor.node :: cursor.beyond := by
  obtain ⟨⟨head, children⟩, behind, above⟩ := cursor
  cases children with
  | nil => simp [ahead, Tree.nodes, Tree.nodesOf]
  | cons first rest => simp [firstChild?] at leaf

theorem beyond_eq (cursor : Cursor) : cursor.beyond = (cursor.leave?.map ahead).getD [] := by
  obtain ⟨node, behind, above⟩ := cursor
  induction above generalizing node behind with
  | nil => cases behind <;> simp [beyond, ahead, Tree.nodesOf]
  | cons outer above ih =>
    cases behind with
    | nil =>
      rw [leave_parent, ← ih]
      simp [beyond, Tree.nodesOf]
    | cons next rest => simp [beyond, ahead, Tree.nodesOf]

/-- Entering every node, a cursor leaves one node at a time. -/
theorem ahead_eq (cursor : Cursor) : cursor.ahead = cursor.node :: ((cursor.next? true).map ahead).getD [] := by
  cases down : cursor.firstChild? with
  | some child => simp [next?, down, ahead_firstChild down]
  | none => simp [next?, down, ahead_of_firstChild_none down, beyond_eq]

theorem length_beyond_lt (cursor : Cursor) : cursor.beyond.length < cursor.ahead.length := by
  obtain ⟨⟨head, children⟩, behind, above⟩ := cursor
  simp only [ahead, Tree.nodes, List.cons_append, List.length_cons, List.length_append]
  omega

theorem length_ahead_lt {cursor next : Cursor} {enter : Bool} (step : cursor.next? enter = some next) :
    next.ahead.length < cursor.ahead.length := by
  cases enter with
  | true => simp [cursor.ahead_eq, step]
  | false =>
    have left : cursor.leave? = some next := by simpa [next?] using step
    have shorter := cursor.length_beyond_lt
    rw [beyond_eq, left] at shorter
    exact shorter

/-- The first flaw from the cursor on; only flawed nodes are entered. -/
def firstFlaw (cursor : Cursor) : Option Tree :=
  if cursor.node.isFlaw then some cursor.node
  else
    match _ : cursor.next? cursor.node.head.flawed with
    | some next => firstFlaw next
    | none => none
termination_by cursor.ahead.length
decreasing_by exact length_ahead_lt ‹_›

end Cursor

/-- The first flaw of a tree in textual order. -/
def Tree.firstFlaw (tree : Tree) : Option Tree := Cursor.firstFlaw { node := tree }

end EnvAudit.Script
