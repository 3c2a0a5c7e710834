import EnvAudit.Proofs.Script.Spelling
import EnvAudit.Proofs.Usage.Program

/-!
# Keys of literals

A key that is accessed by a literal is read back however it is spelled, unless an escape of the grammar takes a
separator of lines or paragraphs behind it: then the separator is lost. All that is used of a reader of texts is that it
divides the literal as the tokens of the grammar do, and the reader of the program does.
-/
namespace EnvAudit.Usage

open EnvAudit.Script
open EnvAudit.Script.Tree (word leaf branch)
open EnvAudit.Script.Program (Root Quote subscriptTree)
open EnvAudit.Script.StringLiteral (Spelling Spells stringTree value?)

/-- An access to the environment by a literal. -/
def literalText {quote : Quote} (root : Root) (spelling : Spelling quote) : String :=
  String.ofList (root.text ++ '[' :: quote.char :: (spelling.text ++ [quote.char, ']']))

/-- Its tree, when the literal has some parts. -/
def literalTree (root : Root) (quote : Quote) (cut : List Tree) : Tree :=
  branch "program" [branch "expression_statement" [subscriptTree root.tree (stringTree quote cut)]]

private theorem contributed_stringTree {quote : Quote} {text : List Char} {cut : List Tree}
    (divided : StringLiteral.parts quote text = some cut) : contributed (stringTree quote cut) = [] := by
  have mark : String.singleton quote.char ∉ contributingKinds := by cases quote <;> decide
  rw [stringTree, contributed_enclosed (by decide) mark mark, List.flatMap_eq_nil_iff]
  intro part listed
  obtain ⟨kind, chars, rfl, either⟩ := StringLiteral.leaf_of_mem_parts divided part listed
  have inert : kind ∉ contributingKinds := by
    rcases either with rfl | rfl <;> decide
  exact contributed_leaf inert chars []

/-- What the access contributes is what the literal stands for. -/
theorem contributed_literalTree (root : Root) {quote : Quote} {text : List Char} {cut : List Tree}
    (divided : StringLiteral.parts quote text = some cut) :
    contributed (literalTree root quote cut) = (value? (stringTree quote cut)).toList.filter (· ≠ "") := by
  rw [literalTree, contributed_branch (by decide), List.flatMap_singleton, contributed_branch (by decide),
    List.flatMap_singleton, contributed_subscriptTree (contributed_stringTree divided), isEnvironment_root,
    contributed_root, if_pos rfl, List.append_nil]

/-- The access is read into its tree. -/
theorem parse_literalText {quote : Quote} (root : Root) (spelling : Spelling quote) {cut : List Tree}
    (divided : StringLiteral.parts quote (spelling.text ++ [quote.char]) = some cut) :
    (Dialect.parse .tsx (literalText root spelling)).bare = literalTree root quote cut := by
  have parsed := Direct.parse_literal root divided
  rw [List.append_assoc] at parsed
  exact parsed

/-- Reading a key that is spelled in a literal gives the key back exactly when no escape takes a separator. -/
theorem keys_of_spelling {quote : Quote} (root : Root) (spelling : Spelling quote) (filled : spelling.chars ≠ []) :
    ∃ cut, StringLiteral.parts quote (spelling.text ++ [quote.char]) = some cut ∧
      value? (stringTree quote cut) = some (String.ofList spelling.kept) ∧
      (spelling.kept = spelling.chars ↔ spelling.Intact) ∧
      (Dialect.parse .tsx (literalText root spelling)).bare = literalTree root quote cut ∧
      ∀ (read : TreeReader) (path : Path), (literalText root spelling).utf8ByteSize ≤ mostBytes →
        (read .tsx (literalText root spelling)).bare = literalTree root quote cut →
        ∃ keys, ofSourceBy read path (literalText root spelling) = .ok keys ∧
          keys.keys = [String.ofList spelling.kept].filter (· ≠ "") ∧
          (keys.keys = [String.ofList spelling.chars] ↔ spelling.Intact) := by
  obtain ⟨cut, divided, decoded⟩ := StringLiteral.value_spelling spelling
  refine ⟨cut, divided, decoded, spelling.kept_eq_iff, parse_literalText root spelling divided, ?_⟩
  intro read path small reads
  obtain ⟨keys, succeeds, found⟩ := keys_of_reading path small reads rfl
  have kept : keys.keys = [String.ofList spelling.kept].filter (· ≠ "") := by
    rw [found, contributed_literalTree root divided, decoded, Option.toList_some]
    by_cases empty : String.ofList spelling.kept = "" <;> simp [empty, List.eraseDups_cons]
  refine ⟨keys, succeeds, kept, ?_⟩
  rw [kept, ← spelling.kept_eq_iff]
  by_cases empty : String.ofList spelling.kept = ""
  · -- Nothing is kept, so no key is found, but the spelled text is not empty.
    have none : spelling.kept = [] := String.ofList_eq_empty_iff.mp empty
    rw [none]
    simp [filled.symm]
  · simp [empty, String.ofList_inj]

/-- A letter by its byte, and a character by the halves of its pair with the end of a line between them. -/
def pairSpelling : Spelling .double where
  items := [
    { char? := some 'A', text := "\\x41".toList, spells := .byte (by decide) ⟨0, by decide⟩ },
    { char? := some '😀', text := "\\uD83D\\\n\\ude00".toList,
      spells := @Spells.pair .double '😀' 0xd83d 0xde00 "D83D".toList "de00".toList [['\n']] (by decide) (by decide)
        ⟨0, by decide⟩ (by decide) (by decide) ⟨0, by decide⟩ }]
  apart := by decide

/-- The parts of its literal. -/
def pairParts : List Tree :=
  [leaf "escape_sequence" "\\x41".toList, leaf "escape_sequence" "\\uD83D".toList,
    leaf "escape_sequence" "\\\n".toList, leaf "escape_sequence" "\\ude00".toList]

theorem keys_of_spelling_pair :
    pairSpelling.chars = ['A', '😀'] ∧
      literalText .process pairSpelling = "process.env[\"\\x41\\uD83D\\\n\\ude00\"]" ∧
      pairSpelling.Intact ∧
      (Dialect.parse .tsx (literalText .process pairSpelling)).bare = literalTree .process .double pairParts ∧
      ∃ keys, ofSource (.ofString "a.ts") (literalText .process pairSpelling) = .ok keys ∧ keys.keys = ["A😀"] := by
  have text : literalText .process pairSpelling = "process.env[\"\\x41\\uD83D\\\n\\ude00\"]" := by decide
  have small : (literalText .process pairSpelling).utf8ByteSize ≤ mostBytes := by
    rw [text]
    decide
  have intact : pairSpelling.Intact := by
    unfold Spelling.Intact
    decide
  have divided : StringLiteral.parts .double (pairSpelling.text ++ ['"']) = some pairParts := by
    with_unfolding_all rfl
  obtain ⟨cut, cuts, -, -, parsed, found⟩ := keys_of_spelling .process pairSpelling (by decide)
  obtain rfl : pairParts = cut := Option.some.inj (divided.symm.trans cuts)
  obtain ⟨keys, succeeds, -, same⟩ := found Dialect.parse (.ofString "a.ts") small parsed
  exact ⟨by decide, text, intact, parsed, keys, succeeds, same.mpr intact⟩

/-- An escaped question mark and a separator of lines behind it. -/
def separatorSpelling : Spelling .double where
  items := [
    { char? := some '?', text := ['\\', '?'], spells := .ordinary (by decide) },
    { char? := some '\u2028', text := ['\u2028'], spells := .itself (by decide) }]
  apart := by decide

/-- The separator is lost. -/
theorem exists_separator_lost :
    ∃ spelling : Spelling .double, spelling.text = "\\?\u2028".toList ∧ spelling.chars = ['?', '\u2028'] ∧
      ∃ cut, StringLiteral.parts .double (spelling.text ++ ['"']) = some cut ∧
        value? (stringTree .double cut) = some "?" ∧
        (∀ (read : TreeReader) (path : Path), (literalText .process spelling).utf8ByteSize ≤ mostBytes →
          (read .tsx (literalText .process spelling)).bare = literalTree .process .double cut →
          ∃ keys, ofSourceBy read path (literalText .process spelling) = .ok keys ∧ keys.keys = ["?"]) ∧
        ∀ path : Path, ∃ keys, ofSource path (literalText .process spelling) = .ok keys ∧ keys.keys = ["?"] := by
  obtain ⟨cut, divided, decoded⟩ := StringLiteral.value_spelling separatorSpelling
  have kept : String.ofList separatorSpelling.kept = "?" := by decide
  rw [kept] at decoded
  have read_ (read : TreeReader) (path : Path)
      (small : (literalText .process separatorSpelling).utf8ByteSize ≤ mostBytes)
      (reads : (read .tsx (literalText .process separatorSpelling)).bare = literalTree .process .double cut) :
      ∃ keys, ofSourceBy read path (literalText .process separatorSpelling) = .ok keys ∧ keys.keys = ["?"] := by
    obtain ⟨keys, succeeds, found⟩ := keys_of_reading path small reads rfl
    rw [contributed_literalTree .process divided, decoded] at found
    exact ⟨keys, succeeds, found⟩
  refine ⟨separatorSpelling, by decide, by decide, cut, divided, decoded, read_, fun path => ?_⟩
  exact read_ Dialect.parse path (by decide) (parse_literalText .process separatorSpelling divided)

end EnvAudit.Usage
