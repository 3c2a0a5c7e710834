import EnvAudit.Script.Cursor

/-! The nodes of a tree are what it contains at any depth, each before the nodes below it. -/
namespace EnvAudit.Script.Tree

/-- A node is in a tree: it is the tree itself or in one of its children. -/
inductive Within : Tree → Tree → Prop where
  | self (tree : Tree) : Within tree tree
  | inChild {tree child node : Tree} (member : child ∈ tree.children) (within : Within child node) : Within tree node

theorem Within.trans {tree middle node : Tree} (outer : tree.Within middle) (inner : middle.Within node) :
    tree.Within node := by
  induction outer with
  | self => exact inner
  | inChild member _ ih => exact .inChild member (ih inner)

mutual

/-- What is found as a field of a tree is in the tree. -/
theorem within_of_field {name : String} {found : Tree} :
    (tree : Tree) → tree.field? name = some found → Within tree found
  | .node head children, field => by
    obtain ⟨child, inside, within⟩ := within_of_fieldAmong children field
    exact .inChild inside within

private theorem within_of_fieldAmong {name : String} {found : Tree} :
    (children : List Tree) → fieldAmong name children = some found → ∃ child ∈ children, Within child found
  | [], field => by cases field
  | child :: rest, field => by
    have behind (later : fieldAmong name rest = some found) : ∃ other ∈ child :: rest, Within other found := by
      obtain ⟨other, inside, within⟩ := within_of_fieldAmong rest later
      exact ⟨other, List.mem_cons_of_mem _ inside, within⟩
    rw [fieldAmong] at field
    split at field
    · cases field
      exact ⟨_, List.mem_cons_self, .self _⟩
    · split at field
      · split at field
        next lent =>
          cases field
          exact ⟨child, List.mem_cons_self, within_of_field child lent⟩
        next => exact behind field
      · exact behind field

end

mutual

private theorem within_of_mem_nodes {node : Tree} : (tree : Tree) → node ∈ tree.nodes → Within tree node
  | .node head children, member => by
    rw [nodes] at member
    rcases List.mem_cons.mp member with rfl | below
    · exact .self _
    · obtain ⟨child, inside, within⟩ := within_of_mem_nodesOf children below
      exact .inChild inside within

private theorem within_of_mem_nodesOf {node : Tree} :
    (children : List Tree) → node ∈ nodesOf children → ∃ child ∈ children, Within child node
  | [], member => by simp [nodesOf] at member
  | child :: rest, member => by
    rw [nodesOf] at member
    rcases List.mem_append.mp member with first | later
    · exact ⟨child, by simp, within_of_mem_nodes child first⟩
    · obtain ⟨other, inside, within⟩ := within_of_mem_nodesOf rest later
      exact ⟨other, List.mem_cons_of_mem _ inside, within⟩

end

theorem nodesOf_eq_flatMap (children : List Tree) : nodesOf children = children.flatMap nodes := by
  induction children with
  | nil => rfl
  | cons child rest ih => rw [nodesOf, ih, List.flatMap_cons]

theorem mem_nodes_iff {tree node : Tree} : node ∈ tree.nodes ↔ Within tree node := by
  constructor
  · exact within_of_mem_nodes tree
  · intro within
    induction within with
    | self tree =>
      cases tree
      simp [nodes]
    | @inChild tree child node member within ih =>
      obtain ⟨head, children⟩ := tree
      rw [nodes, nodesOf_eq_flatMap]
      exact List.mem_cons_of_mem _ (List.mem_flatMap.mpr ⟨child, member, ih⟩)

end EnvAudit.Script.Tree
