import EnvAudit.Audit
import EnvAudit.Proofs.Script.Dialect
import EnvAudit.Proofs.Script.Direct
import EnvAudit.Proofs.Text.Utf16
import EnvAudit.Proofs.Usage.Bare

/-!
# Keys of programs

The keys of a program are the first keys of its accesses, at any depth and whatever follows them, and the names that it
imports from modules of the environment, in the order of its text. The text is read into the tree of the program first;
what the nodes of that tree contribute is then followed along the parts of the program.
-/
namespace EnvAudit.Usage

open EnvAudit.Script
open EnvAudit.Script.Tree (word leaf branch)
open EnvAudit.Script.Program

/-! ## Trees by their parts -/

/-- The keys that the nodes of a tree contribute, in textual order. -/
def contributed (tree : Tree) : List String := tree.nodes.flatMap keysAt

theorem contributed_node (head : Tree.Head) (children : List Tree) :
    contributed (.node head children) = keysAt (.node head children) ++ children.flatMap contributed := by
  simp only [contributed, Tree.nodes, List.flatMap_cons, Tree.nodesOf_eq_flatMap, List.flatMap_assoc]
  rfl

/-- The kinds of the nodes that can contribute keys. -/
def contributingKinds : List String := ["member_expression", "subscript_expression", "import_statement"]

theorem keysAt_of_kind {tree : Tree} (inert : tree.kind ∉ contributingKinds) : keysAt tree = [] := by
  simp only [contributingKinds, List.mem_cons, List.not_mem_nil, or_false, not_or] at inert
  simp [keysAt, inert]

theorem contributed_branch {kind : String} (inert : kind ∉ contributingKinds) (children : List Tree)
    (fields : List String) : contributed (branch kind children fields) = children.flatMap contributed := by
  have none : keysAt (branch kind children fields) = [] := keysAt_of_kind inert
  rw [branch] at none ⊢
  rw [contributed_node, none, List.nil_append]

theorem contributed_word {text : String} (inert : text ∉ contributingKinds) (fields : List String) :
    contributed (word text fields) = [] := by
  have none : keysAt (word text fields) = [] := keysAt_of_kind inert
  rw [word] at none ⊢
  rw [contributed_node, none]
  rfl

theorem contributed_leaf {kind : String} (inert : kind ∉ contributingKinds) (text : List Char) (fields : List String) :
    contributed (leaf kind text fields) = [] := by
  have none : keysAt (leaf kind text fields) = [] := keysAt_of_kind inert
  rw [leaf] at none ⊢
  rw [contributed_node, none]
  rfl

/-- Marks around some trees add nothing to what the trees contribute. -/
theorem contributed_enclosed {kind opens closes : String} (inert : kind ∉ contributingKinds)
    (opening : opens ∉ contributingKinds) (closing : closes ∉ contributingKinds) (children : List Tree)
    (fields : List String) :
    contributed (branch kind (word opens :: (children ++ [word closes])) fields) = children.flatMap contributed := by
  rw [contributed_branch inert, List.flatMap_cons, contributed_word opening, List.nil_append, List.flatMap_append,
    List.flatMap_singleton, contributed_word closing, List.append_nil]

theorem contributed_asField (tree : Tree) (field : String) : contributed (tree.asField field) = contributed tree := by
  obtain ⟨head, children⟩ := tree
  rw [Tree.asField, contributed_node, contributed_node]
  rfl

theorem isEnvironment_asField (tree : Tree) (field : String) :
    isEnvironment (tree.asField field) = isEnvironment tree := by
  cases tree
  rfl

theorem value_asField (tree : Tree) (field : String) :
    StringLiteral.value? (tree.asField field) = StringLiteral.value? tree := by
  cases tree
  rfl

/-! ## Accesses -/

theorem value_quoted (quoted : Quoted) :
    StringLiteral.value? quoted.tree = some (String.ofList quoted.literal.val) := by
  simp [StringLiteral.value?, Quoted.tree, branch, word, leaf, Tree.kind, Tree.head, Tree.children,
    StringLiteral.partUnits, Tree.text, Text.Utf16.lossy_encode]

theorem contributed_quoted (quoted : Quoted) : contributed quoted.tree = [] := by
  have mark : String.singleton quoted.quote.char ∉ contributingKinds := by cases quoted.quote <;> decide
  have fragment : contributed (leaf "string_fragment" quoted.literal.val) = [] := contributed_leaf (by decide) _ _
  have enclosed : contributed quoted.tree = [leaf "string_fragment" quoted.literal.val].flatMap contributed :=
    @contributed_enclosed "string" _ _ (by decide) mark mark [_] []
  rw [enclosed, List.flatMap_singleton, fragment]

private theorem filled_of_isName {chars : List Char} (name : isName chars = true) : chars ≠ [] := by
  rintro rfl
  cases name

private theorem ofList_ne_env {chars : List Char} (name : isName chars = true) : String.ofList chars ≠ "env" := by
  intro same
  have letters := congrArg String.toList same
  rw [String.toList_ofList] at letters
  subst letters
  exact absurd name (by decide)

private theorem ofList_ne_empty {chars : List Char} (filled : chars ≠ []) : String.ofList chars ≠ "" := by
  intro same
  have letters := congrArg String.toList same
  rw [String.toList_ofList] at letters
  exact filled letters

theorem isEnvironment_root (root : Root) : isEnvironment root.tree = true := by
  cases root <;> decide

theorem contributed_root (root : Root) : contributed root.tree = [] := by
  cases root <;> decide

section Member

variable {object mark : Tree} {name : List Char}

private theorem object_memberTree : (memberTree object mark name).field? "object" = some (object.asField "object") := by
  rw [memberTree, Tree.field_branch, Tree.fieldAmong_found (by simp)]

private theorem property_memberTree (unlike : "property" ∉ mark.head.fields) (unlent : "property" ∉ mark.head.lends) :
    (memberTree object mark name).field? "property" = some (leaf "property_identifier" name ["property"]) := by
  rw [memberTree, Tree.field_branch, Tree.fieldAmong_passed (by simp) (by simp),
    Tree.fieldAmong_passed unlike unlent, Tree.fieldAmong_found (by simp)]

theorem contributed_memberTree (filled : name ≠ []) (unlike : "property" ∉ mark.head.fields)
    (unlent : "property" ∉ mark.head.lends) (inert : contributed mark = []) :
    contributed (memberTree object mark name) =
      (if isEnvironment object then [String.ofList name] else []) ++ contributed object := by
  have used : memberKey (memberTree object mark name) = if isEnvironment object then [String.ofList name] else [] := by
    rw [memberKey, object_memberTree, property_memberTree unlike unlent]
    simp [isEnvironment_asField, leaf, Tree.kind, Tree.text, Tree.head]
  have key : keysAt (memberTree object mark name) = if isEnvironment object then [String.ofList name] else [] := by
    have found : keysAt (memberTree object mark name) = (memberKey (memberTree object mark name)).filter (· ≠ "") := rfl
    rw [found, used]
    split <;> simp [ofList_ne_empty filled]
  have property : contributed (leaf "property_identifier" name ["property"]) = [] := contributed_leaf (by decide) _ _
  rw [memberTree, branch] at key ⊢
  rw [contributed_node, key]
  simp [contributed_asField, inert, property]

/-- No name in capital letters makes an environment of what it is taken of. -/
theorem isEnvironment_memberTree (capital : isName name = true) (unlike : "property" ∉ mark.head.fields)
    (unlent : "property" ∉ mark.head.lends) : isEnvironment (memberTree object mark name) = false := by
  rw [isEnvironment, object_memberTree, property_memberTree unlike unlent]
  simp [isNamed, leaf, Tree.text, Tree.head, ofList_ne_env capital]

end Member

section Subscript

variable {object index : Tree}

theorem contributed_subscriptTree (inert : contributed index = []) :
    contributed (subscriptTree object index) =
      (if isEnvironment object then (StringLiteral.value? index).toList.filter (· ≠ "") else []) ++
        contributed object := by
  have base : (subscriptTree object index).field? "object" = some (object.asField "object") := by
    rw [subscriptTree, Tree.field_branch, Tree.fieldAmong_found (by simp)]
  have accessed : (subscriptTree object index).field? "index" = some (index.asField "index") := by
    rw [subscriptTree, Tree.field_branch, Tree.fieldAmong_passed (by simp) (by simp),
      Tree.fieldAmong_passed (by simp) (by simp), Tree.fieldAmong_found (by simp)]
  have used : subscriptKey (subscriptTree object index) =
      if isEnvironment object then (StringLiteral.value? index).toList else [] := by
    rw [subscriptKey, base, accessed]
    simp [isEnvironment_asField, value_asField]
  have key : keysAt (subscriptTree object index) =
      if isEnvironment object then (StringLiteral.value? index).toList.filter (· ≠ "") else [] := by
    have found : keysAt (subscriptTree object index) =
        (subscriptKey (subscriptTree object index)).filter (· ≠ "") := rfl
    rw [found, used]
    split <;> rfl
  have opens : contributed (word "[") = [] := contributed_word (by decide) _
  have closes : contributed (word "]") = [] := contributed_word (by decide) _
  rw [subscriptTree, branch] at key ⊢
  rw [contributed_node, key]
  simp [contributed_asField, inert, opens, closes]

theorem isEnvironment_subscriptTree : isEnvironment (subscriptTree object index) = false := by
  simp [isEnvironment, subscriptTree, branch, Tree.kind, Tree.head]

end Subscript

theorem contributed_accessor (object : Tree) (accessor : Accessor) :
    contributed (accessor.treeOf object) =
      (if isEnvironment object then [String.ofList accessor.key] else []) ++ contributed object := by
  cases accessor with
  | name named =>
    have filled := filled_of_isName named.property
    exact contributed_memberTree filled (by simp) (by simp) (contributed_word (by decide) _)
  | literal quoted =>
    have filled : String.ofList quoted.literal.val ≠ "" := ofList_ne_empty quoted.literal.property.1
    rw [Accessor.treeOf, contributed_subscriptTree (contributed_quoted quoted), value_quoted]
    simp [filled, Accessor.key]

theorem isEnvironment_accessor (object : Tree) (accessor : Accessor) :
    isEnvironment (accessor.treeOf object) = false := by
  cases accessor with
  | name named => exact isEnvironment_memberTree named.property (by simp) (by simp)
  | literal quoted => exact isEnvironment_subscriptTree

theorem contributed_firstAccessor (object : Tree) (first : FirstAccessor) :
    contributed (first.treeOf object) =
      (if isEnvironment object then [String.ofList first.key] else []) ++ contributed object := by
  cases first with
  | plain accessor => exact contributed_accessor object accessor
  | «optional» name =>
    have mark : contributed optionalMark = [] := by decide
    exact contributed_memberTree (filled_of_isName name.property) (by simp) (by simp) mark

theorem isEnvironment_firstAccessor (object : Tree) (first : FirstAccessor) :
    isEnvironment (first.treeOf object) = false := by
  cases first with
  | plain accessor => exact isEnvironment_accessor object accessor
  | «optional» name => exact isEnvironment_memberTree name.property (by simp) (by simp)

/-- Steps taken from anything but the environment add no keys. -/
theorem contributed_further (further : List Accessor) {object : Tree} (below : isEnvironment object = false) :
    contributed (further.foldl Accessor.treeOf object) = contributed object := by
  -- No step makes an environment of its object, so the hypothesis holds again behind each of them.
  induction further generalizing object with
  | nil => rfl
  | cons accessor rest ih =>
    rw [List.foldl_cons, ih (isEnvironment_accessor object accessor), contributed_accessor, below]
    rfl

theorem contributed_access (access : Access) : contributed access.tree = [String.ofList access.first.key] := by
  rw [Access.tree, contributed_further _ (isEnvironment_firstAccessor _ _), contributed_firstAccessor,
    isEnvironment_root, contributed_root]
  rfl

/-! ## Expressions -/

theorem contributed_commaTrees (trees : List Tree) :
    (commaTrees trees).flatMap contributed = trees.flatMap contributed := by
  have comma : contributed (word ",") = [] := contributed_word (by decide) _
  unfold commaTrees
  induction trees with
  | nil => rfl
  | cons tree rest ih =>
    cases rest with
    | nil => rfl
    | cons next rest => simp_all

theorem contributed_sumOnto (front : Option Tree) (operand : Tree) :
    contributed (sumOnto front operand) = front.elim [] contributed ++ contributed operand := by
  cases front with
  | none => rfl
  | some front =>
    have plus : contributed (word "+" ["operator"]) = [] := contributed_word (by decide) _
    rw [sumOnto, contributed_branch (by decide)]
    simp [contributed_asField, plus]

private theorem contributed_runTrees (run : TemplateRun) : (Template.runTrees run).flatMap contributed = [] := by
  have fragment : contributed (leaf "string_fragment" run.val) = [] := contributed_leaf (by decide) _ _
  unfold Template.runTrees
  split <;> simp [fragment]

theorem contributed_template (template : Template) : contributed template.tree = [] := by
  have escape (text : List Char) : contributed (leaf "escape_sequence" text) = [] := contributed_leaf (by decide) _ _
  rw [Template.tree, contributed_enclosed (by decide) (by decide) (by decide)]
  simp [escape, contributed_runTrees, List.flatMap_assoc]

theorem contributed_computed (name : Identifier) :
    contributed (subscriptTree Root.process.tree (leaf "identifier" name.val)) = [] := by
  have index : contributed (leaf "identifier" name.val) = [] := contributed_leaf (by decide) _ _
  have unread : StringLiteral.value? (leaf "identifier" name.val) = none := by
    simp [StringLiteral.value?, leaf, Tree.kind, Tree.head]
  -- The object is an environment, but the index is no literal and names no key.
  rw [contributed_subscriptTree index, unread, contributed_root]
  simp

mutual

theorem contributed_treeOnto (front : Option Tree) : ∀ expression : Expression,
    contributed (expression.treeOnto front) = front.elim [] contributed ++ expression.keys.map String.ofList
  | .access taken => by
    rw [Expression.treeOnto, contributed_sumOnto, contributed_access]
    rfl
  | .name named => by
    rw [Expression.treeOnto, contributed_sumOnto, contributed_leaf (by decide)]
    rfl
  | .literal quoted => by
    rw [Expression.treeOnto, contributed_sumOnto, contributed_quoted]
    rfl
  | .template filled => by
    rw [Expression.treeOnto, contributed_sumOnto, contributed_template]
    rfl
  | .computed named => by
    rw [Expression.treeOnto, contributed_sumOnto, contributed_computed]
    rfl
  | .group inner => by
    have enclosed : contributed (groupTree (inner.treeOnto none)) = [inner.treeOnto none].flatMap contributed :=
      contributed_enclosed (by decide) (by decide) (by decide) [_] _
    rw [Expression.treeOnto, contributed_sumOnto, enclosed, List.flatMap_singleton, contributed_treeOnto none inner]
    rfl
  | .array items => by
    rw [Expression.treeOnto, contributed_sumOnto, arrayTree, contributed_enclosed (by decide) (by decide) (by decide),
      contributed_commaTrees, contributed_treesOf items]
    rfl
  | .call callee arguments => by
    have called : contributed ((leaf "identifier" callee.val).asField "function") = [] := by
      rw [contributed_asField, contributed_leaf (by decide)]
    rw [Expression.treeOnto, contributed_sumOnto, callTree, contributed_branch (by decide), List.flatMap_cons, called,
      List.nil_append, List.flatMap_singleton, contributed_enclosed (by decide) (by decide) (by decide),
      contributed_commaTrees, contributed_treesOf arguments]
    rfl
  | .sum left right => by
    -- The left operand goes into the front of the right one, so both keep their places in the text.
    rw [Expression.treeOnto, contributed_treeOnto _ right, Option.elim_some, contributed_treeOnto front left,
      Expression.keys, List.map_append, List.append_assoc]

theorem contributed_treesOf : ∀ expressions : List Expression,
    (Expression.treesOf expressions).flatMap contributed = (Expression.keysOf expressions).map String.ofList
  | [] => rfl
  | expression :: rest => by
    rw [Expression.treesOf, Expression.keysOf, List.flatMap_cons, contributed_treeOnto none expression,
      contributed_treesOf rest, List.map_append]
    rfl

end

/-! ## Imports -/

/-- Whoever reads a text into a tree without a flaw finds what the nodes of the tree contribute, under any path. -/
theorem keys_of_reading {read : TreeReader} {source : String} {tree : Tree} (path : Path)
    (small : source.utf8ByteSize ≤ mostBytes) (reads : (read .tsx source).bare = tree)
    (sound : tree.head.flawed = false) :
    ∃ keys, ofSourceBy read path source = .ok keys ∧ keys.keys = (contributed tree).eraseDups := by
  -- No node is a flaw, so no other dialect is tried and the path does not matter.
  have fits : (read .tsx source).head.flawed = false := by
    rw [← Tree.flawed_bare, reads, sound]
  refine ⟨keys (read .tsx source), ?_, ?_⟩
  · rw [ofSourceBy, parseBy_of_fits read path _ small fits]
    rfl
  · -- The keys do not depend on the places of the nodes, the only part of the tree that is not known.
    rw [← keys_bare, reads, keys_eq_ofList, KeyList.keys_ofList]
    rfl

end EnvAudit.Usage
