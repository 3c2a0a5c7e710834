import EnvAudit.Script.Grammar.Languages
import EnvAudit.Script.Nodes

/-!
# Tokens of plain texts

Much of what is written is plain: names, literals, comments and a few marks. Such a text is divided into tokens by the
patterns of the grammar alone, without asking at each of them which ones may follow. The end of a line is a token of its
own, for it may end a statement.
-/
namespace EnvAudit.Script.Direct

open EnvAudit.Script.Tree (word leaf branch)

/-! ## Words -/

/-- The words with a meaning of their own in some language; other names are free. -/
def words : List (List Char) :=
  let rules := Grammar.untyped.rules ++ Grammar.typedFormRules true ++ Grammar.typedDefinitionRules ++ Grammar.typeRules
  ((rules.flatMap fun (_, rule) => rule.literals).map String.toList).filter fun text => text.head?.any Char.isAlpha

def isFree (name : List Char) : Bool := !words.contains name

/-! ## Tokens -/

inductive Bracket where
  | round
  | square
  | curly
  deriving DecidableEq, Repr

inductive Mark where
  | opening (bracket : Bracket)
  | closing (bracket : Bracket)
  | comma
  | semicolon
  | dot
  /-- The mark of an access that may find nothing. -/
  | chain
  | plus
  | lineBreak
  deriving DecidableEq, Repr

def Mark.ofChar? : Char → Option Mark
  | '(' => some (opening .round)
  | ')' => some (closing .round)
  | '[' => some (opening .square)
  | ']' => some (closing .square)
  | '\x7b' => some (opening .curly)
  | '\x7d' => some (closing .curly)
  | ',' => some comma
  | ';' => some semicolon
  | '.' => some dot
  | '+' => some plus
  | '\n' | '\r' => some lineBreak
  | _ => none

inductive Token where
  | word (text : List Char)
  | mark (mark : Mark)
  | comment (text : List Char)
  /-- A string, or a template without substitutions. -/
  | literal (tree : Tree)

/-! ## Literals -/

/-- The text of a template up to a mark that may end it, an escape or a substitution, behind what was read. -/
def templateText (read : List Char) : List Char → List Char × List Char
  | [] => (read.reverse, [])
  | '$' :: '\x7b' :: rest => (read.reverse, '$' :: '\x7b' :: rest)
  | c :: rest =>
    if c = '\x60' || c = '\\' || c = '\x00' then (read.reverse, c :: rest) else templateText (c :: read) rest

/-- What the parts of a literal are between its marks. -/
inductive Quoting where
  /-- A string between marks of a character. -/
  | string (mark : Char)
  | template

namespace Quoting

def mark : Quoting → Char
  | string mark => mark
  | template => '\x60'

def kind : Quoting → String
  | string _ => "string"
  | template => "template_string"

/-- A stretch of characters that stand for themselves. -/
def fragment? (quoting : Quoting) (text : List Char) : Option (List Char × List Char) :=
  match quoting with
  | string mark => (Grammar.stringText (String.singleton mark)).pattern.take? text
  | template =>
    let (front, behind) := templateText [] text
    if front.isEmpty then none else some (front, behind)

def part? (quoting : Quoting) (text : List Char) : Option (Tree × List Char) :=
  match quoting.fragment? text with
  | some (front, behind) => some (leaf "string_fragment" front, behind)
  | none => (Grammar.escapeSequence.pattern.take? text).map fun (front, behind) => (leaf "escape_sequence" front, behind)

private theorem length_templateText (read text : List Char) :
    (templateText read text).1.length + (templateText read text).2.length = read.length + text.length := by
  fun_induction templateText read text <;> simp_all <;> omega

private theorem length_part {quoting : Quoting} {text behind : List Char} {part : Tree}
    (found : quoting.part? text = some (part, behind)) : behind.length < text.length := by
  unfold part? at found
  split at found
  next front rest fragment =>
    cases found
    cases quoting with
    | string mark => exact Pattern.length_take fragment
    | template =>
      have whole := length_templateText [] text
      simp only [fragment?, Option.ite_none_left_eq_some, Option.some.injEq, Prod.mk.injEq] at fragment
      obtain ⟨filled, rfl, rfl⟩ := fragment
      have some_ := List.length_pos_iff.mpr (mt List.isEmpty_iff.mpr filled)
      simp only [List.length_nil] at whole
      omega
  next =>
    obtain ⟨⟨front, rest⟩, escape, same⟩ := Option.map_eq_some_iff.mp found
    cases same
    exact Pattern.length_take escape

/-- The parts up to the mark that closes a literal, behind those that were read, and the text behind the mark. -/
def partsOnto (quoting : Quoting) (read : List Tree) (text : List Char) : Option (List Tree × List Char) :=
  match text with
  | [] => none
  | c :: rest =>
    if c = quoting.mark then some (read.reverse, rest)
    else
      match _found : quoting.part? (c :: rest) with
      | some (part, behind) => quoting.partsOnto (part :: read) behind
      | none => none
termination_by text.length
decreasing_by exact length_part _found

private theorem length_partsOnto {quoting : Quoting} {read parts : List Tree} {text behind : List Char}
    (found : quoting.partsOnto read text = some (parts, behind)) : behind.length < text.length := by
  fun_induction partsOnto quoting read text with
  | case1 => cases found
  | case2 =>
    cases found
    exact Nat.lt_succ_self _
  | case3 read c rest inside part left cut ih => exact Nat.lt_trans (ih found) (length_part cut)
  | case4 => cases found

/-- A literal behind its first mark. -/
def tree? (quoting : Quoting) (text : List Char) : Option (Tree × List Char) :=
  (quoting.partsOnto [] text).map fun (parts, behind) =>
    let mark := word (String.singleton quoting.mark)
    (branch quoting.kind (mark :: (parts ++ [mark])), behind)

private theorem length_tree {quoting : Quoting} {text behind : List Char} {tree : Tree}
    (found : quoting.tree? text = some (tree, behind)) : behind.length < text.length := by
  obtain ⟨⟨parts, left⟩, cut, same⟩ := Option.map_eq_some_iff.mp found
  cases same
  exact length_partsOnto cut

end Quoting

/-! ## Reading tokens -/

/-- The token that a text begins with, and the text behind it. -/
def token? : List Char → Option (Token × List Char)
  | [] => none
  | c :: rest =>
    if c = '"' || c = '\'' then ((Quoting.string c).tree? rest).map fun (tree, behind) => (.literal tree, behind)
    else if c = '\x60' then (Quoting.template.tree? rest).map fun (tree, behind) => (.literal tree, behind)
    else if c = '/' then
      (Grammar.comment.pattern.take? (c :: rest)).map fun (front, behind) => (.comment front, behind)
    else if c = '?' then
      match rest with
      | '.' :: behind => some (.mark .chain, behind)
      | _ => none
    else
      match Mark.ofChar? c with
      | some mark => some (.mark mark, rest)
      | none => (Grammar.identifier.pattern.take? (c :: rest)).map fun (front, behind) => (.word front, behind)

private theorem length_token {text behind : List Char} {token : Token} (found : token? text = some (token, behind)) :
    behind.length < text.length := by
  unfold token? at found
  split at found
  next => cases found
  next c rest =>
    split at found
    next =>
      obtain ⟨⟨tree, left⟩, cut, same⟩ := Option.map_eq_some_iff.mp found
      cases same
      exact Nat.lt_succ_of_lt (Quoting.length_tree cut)
    split at found
    next =>
      obtain ⟨⟨tree, left⟩, cut, same⟩ := Option.map_eq_some_iff.mp found
      cases same
      exact Nat.lt_succ_of_lt (Quoting.length_tree cut)
    split at found
    next =>
      obtain ⟨⟨front, left⟩, cut, same⟩ := Option.map_eq_some_iff.mp found
      cases same
      exact Pattern.length_take cut
    split at found
    next =>
      split at found
      next left =>
        cases found
        exact Nat.lt_succ_of_lt (Nat.lt_succ_self _)
      next => cases found
    split at found
    next =>
      cases found
      exact Nat.lt_succ_self _
    next =>
      obtain ⟨⟨front, left⟩, cut, same⟩ := Option.map_eq_some_iff.mp found
      cases same
      exact Pattern.length_take cut

/-- What may stand between two tokens of a line. -/
def isBlank (c : Char) : Bool := c = ' ' || c = '\t'

/-- The tokens of a text behind those that were read. -/
def tokensOnto (read : List Token) (text : List Char) : Option (List Token) :=
  match text with
  | [] => some read.reverse
  | c :: rest =>
    if isBlank c then tokensOnto read rest
    else
      match _found : token? (c :: rest) with
      | some (token, behind) => tokensOnto (token :: read) behind
      | none => none
termination_by text.length
decreasing_by
  · exact Nat.lt_succ_self _
  · exact length_token _found

def tokens? (text : List Char) : Option (List Token) := tokensOnto [] text

end EnvAudit.Script.Direct
