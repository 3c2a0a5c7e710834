import EnvAudit.Proofs.Script.Cursor
import EnvAudit.Script.StringLiteral
import Mathlib.Data.Option.Basic

/-!
# Comments in trees

A tree with comments put between the children of its nodes. What is looked up by a field, by a kind, or at either end of
the children is found as before, for comments are no fields and come neither first nor last.
-/
namespace EnvAudit.Script.Tree

/-! ## Comments -/

def commentKinds : List String := ["comment", "html_comment"]

/-- A comment has no parts and is no field. -/
structure IsComment (tree : Tree) : Prop where
  kind : tree.kind ∈ commentKinds
  childless : tree.children = []
  fieldless : tree.head.fields = []
  lendless : tree.head.lends = []

/-- Heads that agree in all but the place of the node and its text. -/
structure Alike (head other : Head) : Prop where
  kind : other.kind = head.kind
  named : other.named = head.named
  fields : other.fields = head.fields
  lends : other.lends = head.lends

mutual

/-- The second tree is the first one with comments between children of its nodes; a node without children keeps its
text. -/
inductive Commented : Tree → Tree → Prop
  | leaf {head other : Head} (alike : Alike head other) (text : other.text = head.text) :
      Commented (.node head []) (.node other [])
  | inner {head other : Head} {first first' : Tree} {rest rest' : List Tree} (alike : Alike head other)
      (begins : Commented first first') (goesOn : CommentedRest rest rest') :
      Commented (.node head (first :: rest)) (.node other (first' :: rest'))

/-- The second children are the first ones with comments before each of them. -/
inductive CommentedRest : List Tree → List Tree → Prop
  | nil : CommentedRest [] []
  | cons {comments : List Tree} {child child' : Tree} {rest rest' : List Tree}
      (between : ∀ comment ∈ comments, IsComment comment) (next : Commented child child')
      (goesOn : CommentedRest rest rest') : CommentedRest (child :: rest) (comments ++ child' :: rest')

end

/-- There is no comment before the first child. -/
theorem CommentedRest.begun {first first' : Tree} {rest rest' : List Tree} (begins : Commented first first')
    (goesOn : CommentedRest rest rest') : CommentedRest (first :: rest) (first' :: rest') :=
  @CommentedRest.cons [] _ _ _ _ (List.forall_mem_nil _) begins goesOn

variable {tree other : Tree} {children others : List Tree}

theorem Commented.alike (commented : Commented tree other) : Alike tree.head other.head := by
  cases commented with
  | leaf alike => exact alike
  | inner alike => exact alike

theorem Commented.kind (commented : Commented tree other) : other.kind = tree.kind := commented.alike.kind

theorem Commented.text (commented : Commented tree other) (leaf : tree.children = []) : other.text = tree.text := by
  cases commented with
  | leaf _ text => exact text
  | inner => cases leaf

theorem Commented.parts (commented : Commented tree other) : CommentedRest tree.children other.children := by
  cases commented with
  | leaf => exact .nil
  | inner _ begins goesOn => exact .begun begins goesOn

/-! ## Fields -/

private theorem fieldAmong_comments {comments : List Tree} (between : ∀ comment ∈ comments, IsComment comment)
    (name : String) : fieldAmong name (comments ++ children) = fieldAmong name children := by
  induction comments with
  | nil => rfl
  | cons comment comments ih =>
    obtain ⟨isComment, between⟩ := List.forall_mem_cons.mp between
    simp [fieldAmong, isComment.fieldless, isComment.lendless, ih between]

mutual

/-- A field is looked up in a tree and in the tree with comments alike. -/
theorem Commented.field (name : String) : {tree other : Tree} → Commented tree other →
    Option.Rel Commented (tree.field? name) (other.field? name)
  | _, _, .leaf _ _ => .none
  | _, _, .inner _ begins goesOn => fieldAmong_commented name (.begun begins goesOn)

private theorem fieldAmong_commented (name : String) : {children others : List Tree} → CommentedRest children others →
    Option.Rel Commented (fieldAmong name children) (fieldAmong name others)
  | _, _, .nil => .none
  | _, _, .cons between next goesOn => by
    have later := fieldAmong_commented name goesOn
    have within := next.field name
    rw [fieldAmong_comments between, fieldAmong, fieldAmong, next.alike.fields, next.alike.lends]
    split
    · exact .some next
    · -- A child that lends the field is searched itself, before the children behind it.
      split
      · generalize field? name _ = found at within
        generalize field? name _ = found' at within
        cases within with
        | some commented => exact .some commented
        | none => exact later
      · exact later

end

/-! ## Children -/

/-- What is collected from the children one by one is the same, if comments add nothing. -/
theorem CommentedRest.flatMap {α : Type} {f : Tree → List α} (rest : CommentedRest children others)
    (same : ∀ child ∈ children, ∀ child', Commented child child' → f child' = f child)
    (nothing : ∀ comment, IsComment comment → f comment = []) : others.flatMap f = children.flatMap f := by
  induction children generalizing others with
  | nil =>
    cases rest
    rfl
  | cons child children ih =>
    cases rest with
    | cons between next goesOn =>
      have none := List.flatMap_eq_nil_iff.mpr fun comment member => nothing comment (between comment member)
      obtain ⟨here, later⟩ := List.forall_mem_cons.mp same
      rw [List.flatMap_append, none, List.nil_append, List.flatMap_cons, List.flatMap_cons, here _ next,
        ih goesOn later]

/-- The last child stays the last one. -/
theorem CommentedRest.getLast (rest : CommentedRest children others) :
    Option.Rel Commented children.getLast? others.getLast? := by
  induction children generalizing others with
  | nil =>
    cases rest
    exact .none
  | cons child children ih =>
    cases rest with
    | @cons comments _ child' _ rest' between next goesOn =>
      have last : (comments ++ child' :: rest').getLast? = some (rest'.getLast?.getD child') := by
        rw [List.getLast?_append, List.getLast?_cons, Option.some_or]
      rw [last, List.getLast?_cons]
      have behind := ih goesOn
      generalize children.getLast? = found at behind
      generalize rest'.getLast? = found' at behind
      cases behind with
      | some commented => exact .some commented
      | none => exact .some next

end EnvAudit.Script.Tree
