import EnvAudit.Proofs.Script.Bare
import EnvAudit.Proofs.Script.Direct.Phrase
import EnvAudit.Script.Dialect

/-!
# Reading programs

The text of a program is read into its tree, but for the places of the nodes. So is an access alone, by any name that the
grammar takes for an identifier and by any literal.
-/
namespace EnvAudit.Script.Direct

open EnvAudit.Script.Program
open EnvAudit.Script.StringLiteral (stringTree)
open EnvAudit.Script.Tree (word leaf branch)

mutual

/-- A tree stays the same but for the places of its nodes. -/
theorem bare_locate (place : Place) : ∀ tree : Tree, (locate place tree).1.bare = tree.bare
  | .node _ [] => rfl
  | .node head (child :: rest) => by
    have children := bare_locateAll [] place (child :: rest)
    rw [List.reverse_nil, List.map_nil, List.nil_append] at children
    rw [locate, Tree.bare, Tree.bare, Tree.bareAll_eq_map, Tree.bareAll_eq_map, children]

theorem bare_locateAll (read : List Tree) (place : Place) : ∀ children : List Tree,
    (locateAll read place children).1.map Tree.bare = read.reverse.map Tree.bare ++ children.map Tree.bare
  | [] => by
    rw [locateAll, List.map_nil, List.append_nil]
  | child :: rest => by
    have own := bare_locate place child
    rw [locateAll, bare_locateAll _ _ rest, List.reverse_cons, List.map_append, List.map_singleton, own,
      List.append_assoc, List.map_cons, List.singleton_append]

end

/-- A text whose statements can be read is read into a tree of them, in the dialect that comes first. -/
theorem bare_parse {text : String} {tokens : List Token} {statements : List Tree}
    (divided : tokens? text.toList = some tokens) (found : statements? tokens = some statements) :
    (Dialect.parse .tsx text).bare = (branch "program" statements).bare := by
  have children := bare_locateAll [] ⟨0, text.toList⟩ statements
  rw [List.reverse_nil, List.map_nil, List.nil_append] at children
  rw [Dialect.parse, read?, divided, Option.bind_some, found, Option.map_some, Option.getD_some, branch, Tree.bare,
    Tree.bare, Tree.bareAll_eq_map, Tree.bareAll_eq_map, children]

section

variable (root : Root)

private theorem bare_root : root.tree.bare = root.tree := by
  cases root <;> rfl

private theorem bare_asField (tree : Tree) (field : String) : (tree.asField field).bare = tree.bare.asField field := by
  cases tree
  rfl

private theorem bare_memberTree {object mark : Tree} (name : List Char) (placed : object.bare = object)
    (also : mark.bare = mark) : (memberTree object mark name).bare = memberTree object mark name := by
  have named : (leaf "property_identifier" name ["property"]).bare = leaf "property_identifier" name ["property"] := rfl
  rw [memberTree, branch, Tree.bare, Tree.bareAll, Tree.bareAll, Tree.bareAll, Tree.bareAll, bare_asField, placed, also,
    named]

private theorem bare_subscriptTree {object index : Tree} (placed : object.bare = object) (also : index.bare = index) :
    (subscriptTree object index).bare = subscriptTree object index := by
  have marks : (word "[").bare = word "[" ∧ (word "]").bare = word "]" := ⟨rfl, rfl⟩
  rw [subscriptTree, branch, Tree.bare, Tree.bareAll, Tree.bareAll, Tree.bareAll, Tree.bareAll, Tree.bareAll,
    bare_asField, bare_asField, placed, also, marks.1, marks.2]

private theorem bare_stringTree {quote : Quote} {text : List Char} {cut : List Tree}
    (divided : StringLiteral.parts quote text = some cut) :
    (stringTree quote cut).bare = stringTree quote cut := by
  have leaves : cut.map Tree.bare = cut := by
    have each : cut.map Tree.bare = cut.map id := List.map_congr_left fun part listed => by
      obtain ⟨kind, chars, rfl, -⟩ := StringLiteral.leaf_of_mem_parts divided part listed
      rfl
    rw [each, List.map_id]
  have mark : (word (String.singleton quote.char)).bare = word (String.singleton quote.char) := rfl
  rw [stringTree, branch, Tree.bare, Tree.bareAll_eq_map, List.map_cons, List.map_append, List.map_singleton, leaves,
    mark]

/-- An access alone is read into its tree, as the expression that the text ends with. -/
private theorem parse_access {text : List Char} {own : List Token} {tree : Tree} (parted : Parted text)
    (reads : Reads text own)
    (runs : Runs ⟨[], none, .operand root.tree⟩ own ⟨[], none, .operand tree⟩) (placed : tree.bare = tree) :
    (Dialect.parse .tsx (String.ofList (root.text ++ text))).bare = branch "program" [lastStatementTree tree] := by
  have divided : tokens? (String.ofList (root.text ++ text)).toList = some (root.tokens ++ own) := by
    rw [tokens?, String.toList_ofList, spells_root root _ _ parted reads]
    rfl
  have found := statements_runs ((runs_root [] none root).append runs)
  rw [bare_parse divided found, branch, Tree.bare, Tree.bareAll, Tree.bareAll, lastStatementTree, branch, Tree.bare,
    Tree.bareAll, Tree.bareAll, placed]

/-- An access by a literal is read with the parts of the literal. -/
theorem parse_literal {quote : Quote} {text : List Char} {cut : List Tree}
    (divided : StringLiteral.parts quote text = some cut) :
    (Dialect.parse .tsx (String.ofList (root.text ++ '[' :: quote.char :: (text ++ [']'])))).bare =
      branch "program" [lastStatementTree (subscriptTree root.tree (stringTree quote cut))] := by
  have reads : Reads ('[' :: quote.char :: (text ++ [']']))
      [.mark (.opening .square), .literal (stringTree quote cut), .mark (.closing .square)] :=
    .token (token_mark rfl _) (.token (token_parts divided _) (.token (token_mark rfl _) .nil))
  exact parse_access root (parted_of_head (by decide)) reads (.cons rfl (.cons rfl (.cons rfl .nil)))
    (bare_subscriptTree (bare_root root) (bare_stringTree divided))

/-- An access by a name is read with the name as it is written, whatever identifier that is. -/
theorem parse_name {name : List Char} (accepted : Grammar.identifier.pattern.Matches name) :
    (Dialect.parse .tsx (String.ofList (root.text ++ '.' :: name))).bare =
        branch "program" [lastStatementTree (memberTree root.tree (word ".") name)] ∧
      (Dialect.parse .tsx (String.ofList (root.text ++ '?' :: '.' :: name))).bare =
        branch "program" [lastStatementTree (memberTree root.tree optionalMark name)] := by
  have named : Reads name [.word name] := .token (token_identifier accepted) .nil
  constructor
  · exact parse_access root (parted_of_head (by decide)) (.token (token_mark rfl _) named) (.cons rfl (.cons rfl .nil))
      (bare_memberTree name (bare_root root) rfl)
  · exact parse_access root (parted_of_head (by decide)) (.token (token_chain _) named) (.cons rfl (.cons rfl .nil))
      (bare_memberTree name (bare_root root) rfl)

end

end EnvAudit.Script.Direct
