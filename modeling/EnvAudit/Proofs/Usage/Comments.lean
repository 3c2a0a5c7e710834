import EnvAudit.Proofs.Script.Comments
import EnvAudit.Proofs.Usage.Program

/-!
# Keys and comments

Comments between the children of nodes change no key and no order of keys: whatever recognises an access or an import
looks for fields, for children of a kind, or for what stands at the ends.
-/
namespace EnvAudit.Usage

open EnvAudit.Script
open EnvAudit.Script.Tree (Commented CommentedRest IsComment word leaf branch)

/-! ## Texts -/

/-- The kinds of identifiers, and of the parts of literals. -/
def textKinds : List String := ["identifier", "property_identifier", "string_fragment", "escape_sequence"]

/-- The nodes whose texts are read have no children: those of certain kinds, and identifiers in certain fields. -/
structure TextsInLeaves (tree : Tree) : Prop where
  kinds : ∀ node, tree.Within node → node.kind ∈ textKinds → node.children = []
  properties : ∀ node property, tree.Within node → node.kind = "member_expression" →
    node.field? "property" = some property → property.children = []
  imported : ∀ node name, tree.Within node → node.kind = "import_specifier" → node.field? "name" = some name →
    name.kind ≠ "string" → name.children = []

theorem TextsInLeaves.within {tree node : Tree} (texts : TextsInLeaves tree) (inside : tree.Within node) :
    TextsInLeaves node where
  kinds below within := texts.kinds below (inside.trans within)
  properties below property within := texts.properties below property (inside.trans within)
  imported below name within := texts.imported below name (inside.trans within)

/-- A tree whose texts are in its leaves, and the tree with comments. -/
structure Matched (tree other : Tree) : Prop where
  commented : Commented tree other
  texts : TextsInLeaves tree

namespace Matched

variable {tree other : Tree} (matched : Matched tree other)

include matched

theorem kind : other.kind = tree.kind := matched.commented.kind

theorem text (texted : tree.kind ∈ textKinds) : other.text = tree.text :=
  matched.commented.text (matched.texts.kinds tree (.self tree) texted)

/-- A field is in neither tree, or it is in both of them with comments between its own children. -/
theorem field_cases (name : String) : (tree.field? name = none ∧ other.field? name = none) ∨
    ∃ part part', tree.field? name = some part ∧ other.field? name = some part' ∧ Matched part part' := by
  have commented := matched.commented.field name
  have texts (node : Tree) (found : tree.field? name = some node) : TextsInLeaves node :=
    matched.texts.within (Tree.within_of_field tree found)
  generalize tree.field? name = found at commented texts
  generalize other.field? name = found' at commented
  cases commented with
  | none => exact .inl ⟨rfl, rfl⟩
  | some commented => exact .inr ⟨_, _, rfl, rfl, commented, texts _ rfl⟩

theorem field_kind (name : String) : (other.field? name).map Tree.kind = (tree.field? name).map Tree.kind := by
  rcases matched.field_cases name with ⟨none, none'⟩ | ⟨part, part', found, found', below⟩
  · rw [none, none']
  · rw [found, found', Option.map_some, Option.map_some, below.kind]

/-- What a property is called is read off a leaf. -/
theorem property_text (access : tree.kind = "member_expression") :
    (other.field? "property").map Tree.text = (tree.field? "property").map Tree.text := by
  rcases matched.field_cases "property" with ⟨none, none'⟩ | ⟨property, property', found, found', named⟩
  · rw [none, none']
  · have leaf := matched.texts.properties tree property (.self tree) access found
    rw [found, found', Option.map_some, Option.map_some, named.commented.text leaf]

/-- What is collected from the children is the same, if comments add nothing. -/
theorem flatMap_children {α : Type} {f : Tree → List α}
    (same : ∀ child ∈ tree.children, ∀ child', Matched child child' → f child' = f child)
    (nothing : ∀ comment, IsComment comment → f comment = []) :
    other.children.flatMap f = tree.children.flatMap f := by
  refine matched.commented.parts.flatMap (fun child member child' commented => ?_) nothing
  exact same child member child' ⟨commented, matched.texts.within (.inChild member (.self child))⟩

/-- What is collected from the children of a kind is the same, if the kind is not that of comments. -/
theorem flatMap_parts {α : Type} {f : Tree → List α} {kind : String} (unlike : kind ∉ Tree.commentKinds)
    (same : ∀ child child', Matched child child' → child.kind = kind → f child' = f child) :
    (parts kind other).flatMap f = (parts kind tree).flatMap f := by
  have each (node : Tree) : (parts kind node).flatMap f =
      node.children.flatMap fun child => if child.head.named && child.kind = kind then f child else [] := by
    rw [parts]
    induction node.children with
    | nil => rfl
    | cons child rest ih =>
      rw [List.filter_cons, List.flatMap_cons, ← ih]
      split <;> rfl
  rw [each, each]
  refine matched.flatMap_children (fun child _ child' below => ?_) fun comment isComment => ?_
  · rw [below.kind, below.commented.alike.named]
    split
    next taken => exact same child child' below (by simpa using (Bool.and_eq_true_iff.mp taken).2)
    next => rfl
  · have differ : comment.kind ≠ kind := fun same => unlike (same ▸ isComment.kind)
    simp [differ]

end Matched

section

variable {tree other : Tree} (matched : Matched tree other)

include matched

/-! ## Literals -/

private theorem partUnits_matched : StringLiteral.partUnits other = StringLiteral.partUnits tree := by
  unfold StringLiteral.partUnits
  rw [matched.kind, matched.commented.alike.named]
  split
  · rfl
  · split
    next fragment => rw [matched.text (by simp [fragment, textKinds])]
    next =>
      split
      next escape => rw [matched.text (by simp [escape, textKinds])]
      next => rfl

private theorem value_matched : StringLiteral.value? other = StringLiteral.value? tree := by
  have comments (comment : Tree) (isComment : IsComment comment) : StringLiteral.partUnits comment = [] := by
    have kinds : ∀ kind ∈ Tree.commentKinds, kind ≠ "string_fragment" ∧ kind ≠ "escape_sequence" := by decide
    obtain ⟨fragment, escape⟩ := kinds _ isComment.kind
    simp [StringLiteral.partUnits, fragment, escape]
  have units := matched.flatMap_children (fun _ _ _ => partUnits_matched) comments
  rw [StringLiteral.value?, StringLiteral.value?, matched.kind, units]

/-! ## Environments -/

/-- A node of a kind whose texts are read, with a certain text. -/
private theorem texted_matched {kind : String} (read : kind ∈ textKinds) (text : String) :
    (other.kind = kind ∧ other.text = text) ↔ (tree.kind = kind ∧ tree.text = text) := by
  rw [matched.kind]
  refine and_congr_right fun same => ?_
  rw [matched.text (same ▸ read)]

private theorem isNamed_matched (name : String) : isNamed name other = isNamed name tree := by
  have texted := texted_matched matched (show "property_identifier" ∈ textKinds by decide) name
  simpa only [isNamed, ← Bool.decide_and, decide_eq_decide] using texted

private theorem isImportMeta_matched : isImportMeta other = isImportMeta tree := by
  unfold isImportMeta
  rw [matched.kind]
  split
  · -- The first child and the last one are what they were.
    obtain ⟨commented, -⟩ := matched
    cases commented with
    | leaf => rfl
    | inner _ begins goesOn =>
      have last := goesOn.getLast
      simp only [Tree.children, begins.kind]
      generalize List.getLast? _ = found at last
      generalize List.getLast? _ = found' at last
      cases last with
      | none => rfl
      | some ends => simp [ends.kind]
  · split
    next access => rw [matched.field_kind, matched.property_text access]
    · rfl

private theorem isEnvironment_matched : isEnvironment other = isEnvironment tree := by
  rw [isEnvironment, isEnvironment, matched.kind]
  rcases matched.field_cases "property" with ⟨none, none'⟩ | ⟨property, property', name, name', named⟩
  · rw [none, none']
  · rcases matched.field_cases "object" with ⟨none, none'⟩ | ⟨object, object', base, base', below⟩
    · rw [name, name', none, none']
    · have process := texted_matched below (show "identifier" ∈ textKinds by decide) "process"
      simp only [name, name', base, base', isNamed_matched named, isImportMeta_matched below, ← Bool.decide_and,
        decide_eq_decide.mpr process]

/-! ## The keys of a node -/

private theorem memberKey_matched : memberKey other = memberKey tree := by
  rw [memberKey, memberKey]
  rcases matched.field_cases "object" with ⟨none, none'⟩ | ⟨object, object', base, base', below⟩
  · rw [none, none']
  · rcases matched.field_cases "property" with ⟨none, none'⟩ | ⟨property, property', name, name', named⟩
    · rw [base, base', none, none']
    · simp only [base, base', name, name', isEnvironment_matched below, named.kind]
      by_cases kind : property.kind = "property_identifier"
      · rw [named.text (by simp [kind, textKinds])]
      · simp [kind]

private theorem subscriptKey_matched : subscriptKey other = subscriptKey tree := by
  rw [subscriptKey, subscriptKey]
  rcases matched.field_cases "object" with ⟨none, none'⟩ | ⟨object, object', base, base', below⟩
  · rw [none, none']
  · rcases matched.field_cases "index" with ⟨none, none'⟩ | ⟨index, index', key, key', accessed⟩
    · rw [base, base', none, none']
    · simp only [base, base', key, key', isEnvironment_matched below, value_matched accessed]

private theorem importedName_matched (specifier : tree.kind = "import_specifier") :
    importedName other = importedName tree := by
  rw [importedName, importedName]
  rcases matched.field_cases "name" with ⟨none, none'⟩ | ⟨name, name', found, found', named⟩
  · rw [none, none']
  · simp only [found, found', named.kind]
    by_cases kind : name.kind = "string"
    · simp only [kind, if_true, value_matched named]
    · have leaf := matched.texts.imported tree name (.self tree) specifier found kind
      simp only [kind, if_false, named.commented.text leaf]

private theorem importedKeys_matched : importedKeys other = importedKeys tree := by
  have source : (other.field? "source").bind StringLiteral.value? =
      (tree.field? "source").bind StringLiteral.value? := by
    rcases matched.field_cases "source" with ⟨none, none'⟩ | ⟨source, source', found, found', literal⟩
    · rw [none, none']
    · rw [found, found', Option.bind_some, Option.bind_some, value_matched literal]
  -- Clauses, names and specifiers are all found by their kinds.
  have names :
      (((parts "import_clause" other).flatMap (parts "named_imports")).flatMap (parts "import_specifier")).flatMap
        importedName =
      (((parts "import_clause" tree).flatMap (parts "named_imports")).flatMap (parts "import_specifier")).flatMap
        importedName := by
    simp only [List.flatMap_assoc]
    refine matched.flatMap_parts (by decide) fun clause clause' inStatement _ => ?_
    refine inStatement.flatMap_parts (by decide) fun names names' inClause _ => ?_
    exact inClause.flatMap_parts (by decide) fun specifier specifier' => importedName_matched
  rw [importedKeys, importedKeys, source, names]

private theorem keysAt_matched : keysAt other = keysAt tree := by
  simp only [keysAt, matched.kind, memberKey_matched matched, subscriptKey_matched matched,
    importedKeys_matched matched]

end

/-! ## The keys of a tree -/

private theorem contributed_comment {comment : Tree} (isComment : IsComment comment) : contributed comment = [] := by
  have inert : ∀ kind ∈ Tree.commentKinds, kind ∉ contributingKinds := by decide
  have none := keysAt_of_kind (inert _ isComment.kind)
  have childless := isComment.childless
  obtain ⟨head, children⟩ := comment
  rw [contributed_node, none, show children = [] from childless]
  rfl

private theorem contributed_matched : {tree other : Tree} → Matched tree other → contributed other = contributed tree
  | .node head children, .node head' children', matched => by
    rw [contributed_node, contributed_node, keysAt_matched matched]
    have each (child : Tree) (member : child ∈ children) (child' : Tree) (below : Matched child child') :
        contributed child' = contributed child :=
      have smaller := List.sizeOf_lt_of_mem member
      contributed_matched below
    exact congrArg (_ ++ ·) (matched.flatMap_children each fun _ => contributed_comment)
termination_by tree => tree
decreasing_by
  rw [Tree.node.sizeOf_spec]
  omega

/-- Comments between the children of the nodes of a tree leave its keys as they are, in their order. -/
theorem keys_commented {tree other : Tree} (texts : TextsInLeaves tree) (commented : Commented tree other) :
    keys other = keys tree := by
  have same := contributed_matched ⟨commented, texts⟩
  rw [contributed, contributed] at same
  rw [keys_eq_ofList, same, ← keys_eq_ofList]

/-- The access `import.meta.env.KEY`, with what is before the first mark and before the second one. -/
def metaAccess (first second : List Tree) : Tree :=
  branch "member_expression" [
    branch "member_expression" (
      branch "meta_property" (word "import" :: (first ++ [word ".", word "meta"])) ["object"] ::
      (second ++ [word ".", leaf "property_identifier" "env".toList ["property"]])) ["object"],
    word ".", leaf "property_identifier" "KEY".toList ["property"]]

theorem keys_commented_meta :
    let comments := [leaf "comment" "/* a */".toList, leaf "comment" "// b".toList]
    TextsInLeaves (metaAccess [] []) ∧ Commented (metaAccess [] []) (metaAccess comments comments) ∧
      keys (metaAccess comments comments) = keys (metaAccess [] []) ∧ (keys (metaAccess [] [])).keys = ["KEY"] := by
  intro comments
  have kinds : ∀ node ∈ (metaAccess [] []).nodes, node.kind ∈ textKinds → node.children = [] := by decide
  have properties : ∀ node ∈ (metaAccess [] []).nodes, node.kind = "member_expression" →
      ∀ property ∈ node.field? "property", property.children = [] := by decide
  have imported : ∀ node ∈ (metaAccess [] []).nodes, node.kind ≠ "import_specifier" := by decide
  have texts : TextsInLeaves (metaAccess [] []) :=
    { kinds := fun node within => kinds node (Tree.mem_nodes_iff.mpr within)
      properties := fun node property within access => properties node (Tree.mem_nodes_iff.mpr within) access property
      imported := fun node name within kind => absurd kind (imported node (Tree.mem_nodes_iff.mpr within)) }
  have between : ∀ comment ∈ comments, IsComment comment := by
    intro comment member
    obtain rfl | rfl : comment = _ ∨ comment = _ := by simpa [comments] using member
    all_goals exact ⟨by decide, rfl, rfl, rfl⟩
  have alike (head : Tree.Head) : Tree.Alike head head := ⟨rfl, rfl, rfl, rfl⟩
  have same (head : Tree.Head) : Commented (.node head []) (.node head []) := .leaf (alike head) rfl
  have commented : Commented (metaAccess [] []) (metaAccess comments comments) := by
    have name : CommentedRest [word "meta"] [word "meta"] := .begun (same _) .nil
    have accessed (text : List Char) : CommentedRest [leaf "property_identifier" text ["property"]]
        [leaf "property_identifier" text ["property"]] := .begun (same _) .nil
    refine .inner (alike _) (.inner (alike _) (.inner (alike _) (same _) ?_) ?_) (.begun (same _) (accessed _))
    · exact .cons between (same _) name
    · exact .cons between (same _) (accessed _)
  exact ⟨texts, commented, keys_commented texts commented, by rw [keys_eq_ofList]; decide⟩

end EnvAudit.Usage
