import EnvAudit.Script.Tree

/-! Trees without the places of their nodes in the text. -/
namespace EnvAudit.Script.Tree

mutual

/-- The tree with all nodes at the beginning of the text. -/
def bare : Tree → Tree
  | node head children => node { head with start := 0, stop := 0 } (bareAll children)

def bareAll : List Tree → List Tree
  | [] => []
  | child :: rest => bare child :: bareAll rest

end

theorem bareAll_eq_map (children : List Tree) : bareAll children = children.map bare := by
  induction children with
  | nil => rfl
  | cons child rest ih => rw [bareAll, ih, List.map_cons]

@[simp] theorem kind_bare (tree : Tree) : tree.bare.kind = tree.kind := by
  cases tree
  rfl

@[simp] theorem text_bare (tree : Tree) : tree.bare.text = tree.text := by
  cases tree
  rfl

@[simp] theorem named_bare (tree : Tree) : tree.bare.head.named = tree.head.named := by
  cases tree
  rfl

@[simp] theorem flawed_bare (tree : Tree) : tree.bare.head.flawed = tree.head.flawed := by
  cases tree
  rfl

@[simp] theorem fields_bare (tree : Tree) : tree.bare.head.fields = tree.head.fields := by
  cases tree
  rfl

@[simp] theorem lends_bare (tree : Tree) : tree.bare.head.lends = tree.head.lends := by
  cases tree
  rfl

@[simp] theorem children_bare (tree : Tree) : tree.bare.children = tree.children.map bare := by
  obtain ⟨head, children⟩ := tree
  exact bareAll_eq_map children

mutual

@[simp] theorem field_bare (name : String) : (tree : Tree) → tree.bare.field? name = (tree.field? name).map bare
  | node _ children => fieldAmong_bare name children

private theorem fieldAmong_bare (name : String) :
    (children : List Tree) → fieldAmong name (bareAll children) = (fieldAmong name children).map bare
  | [] => rfl
  | child :: rest => by
    have later := fieldAmong_bare name rest
    have within := field_bare name child
    rw [bareAll, fieldAmong, fieldAmong, fields_bare, lends_bare, within, later]
    split
    · rfl
    · -- A child that lends the field is searched itself, before the children behind it.
      split
      · cases field? name child <;> rfl
      · rfl

end

mutual

theorem nodes_bare : (tree : Tree) → tree.bare.nodes = tree.nodes.map bare
  | node head children => by
    rw [bare, nodes, nodesOf_bare children, nodes, List.map_cons, bare]

private theorem nodesOf_bare : (children : List Tree) → nodesOf (bareAll children) = (nodesOf children).map bare
  | [] => rfl
  | child :: rest => by
    rw [bareAll, nodesOf, nodes_bare child, nodesOf_bare rest, nodesOf, List.map_append]

end

end EnvAudit.Script.Tree
