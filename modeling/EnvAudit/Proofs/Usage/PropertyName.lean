import EnvAudit.Proofs.Script.PropertyName
import EnvAudit.Proofs.Usage.Literal

/-!
# Keys of property names

A property of an environment is named behind a mark, as it is written, or between quotes, where the escapes in the name
are read. The three accesses use one key exactly when the name has no escape that is read. All that is used of a reader of
texts is that it gives the accesses the trees of the grammar, and the reader of the program does.
-/
namespace EnvAudit.Usage

open EnvAudit.Script
open EnvAudit.Script.Tree (word leaf branch)
open EnvAudit.Script.Program (Root memberTree subscriptTree)
open EnvAudit.Script.StringLiteral (NamePart stringTree value? escapeUnits)
open EnvAudit.Text

/-- The ways to access a property by its name. -/
inductive NameAccess where
  | dot
  | chain
  | literal
  deriving DecidableEq, Repr

namespace NameAccess

/-- The access as it is written; a literal has the name between its quotes as it is. -/
def text (root : Root) (name : List Char) : NameAccess → String
  | dot => String.ofList (root.text ++ '.' :: name)
  | chain => String.ofList (root.text ++ '?' :: '.' :: name)
  | literal => String.ofList (root.text ++ '[' :: '"' :: (name ++ ['"', ']']))

/-- Its tree, when the literal has some parts. -/
def expression (root : Root) (name : List Char) (cut : List Tree) : NameAccess → Tree
  | dot => memberTree root.tree (word ".") name
  | chain => memberTree root.tree (branch "optional_chain" [word "?."] ["optional_chain"]) name
  | literal => subscriptTree root.tree (stringTree .double cut)

def tree (root : Root) (name : List Char) (cut : List Tree) (access : NameAccess) : Tree :=
  branch "program" [branch "expression_statement" [access.expression root name cut]]

/-- The key of an access by a name that stands for some text between quotes. -/
def key (name decoded : List Char) : NameAccess → List Char
  | literal => decoded
  | _ => name

end NameAccess

private theorem contributed_marked (root : Root) {name : List Char} (filled : name ≠ []) {mark : Tree}
    (unlike : "property" ∉ mark.head.fields) (unlent : "property" ∉ mark.head.lends) (inert : contributed mark = []) :
    contributed (branch "program" [branch "expression_statement" [memberTree root.tree mark name]]) =
      [String.ofList name] := by
  rw [contributed_branch (by decide), List.flatMap_singleton, contributed_branch (by decide), List.flatMap_singleton,
    contributed_memberTree filled unlike unlent inert, isEnvironment_root, contributed_root, if_pos rfl,
    List.append_nil]

/-- Every access contributes its key. -/
private theorem contributed_nameAccess (root : Root) {name decoded : List Char} {cut : List Tree} (filled : name ≠ [])
    (divided : StringLiteral.parts .double (name ++ ['"']) = some cut)
    (read : value? (stringTree .double cut) = some (String.ofList decoded)) (some_ : decoded ≠ [])
    (access : NameAccess) :
    contributed (access.tree root name cut) = [String.ofList (access.key name decoded)] := by
  cases access with
  | dot => exact contributed_marked root filled (by simp) (by simp) (contributed_word (by decide) _)
  | chain => exact contributed_marked root filled (by simp) (by simp) (by decide)
  | literal =>
    have used : String.ofList decoded ≠ "" := fun empty => some_ (String.ofList_eq_empty_iff.mp empty)
    have found := contributed_literalTree root divided
    rw [read, Option.toList_some] at found
    exact found.trans (by simp [NameAccess.key, used])

/-- The keys of the accesses, when their texts are read into their trees. -/
private theorem keys_of_reads (root : Root) {name decoded : List Char} {cut : List Tree} (filled : name ≠ [])
    (divided : StringLiteral.parts .double (name ++ ['"']) = some cut)
    (decodes : value? (stringTree .double cut) = some (String.ofList decoded)) (some_ : decoded ≠ [])
    {read : TreeReader} (path : Path) (small : ∀ access : NameAccess, (access.text root name).utf8ByteSize ≤ mostBytes)
    (reads : ∀ access : NameAccess, (read .tsx (access.text root name)).bare = access.tree root name cut) :
    ∃ keys : NameAccess → KeyList, (∀ access, ofSourceBy read path (access.text root name) = .ok (keys access)) ∧
      ∀ access, (keys access).keys = [String.ofList (access.key name decoded)] := by
  have found (access : NameAccess) : ∃ keys, ofSourceBy read path (access.text root name) = .ok keys ∧
      keys.keys = [String.ofList (access.key name decoded)] := by
    obtain ⟨keys, succeeds, found⟩ := keys_of_reading path (small access) (reads access) rfl
    rw [contributed_nameAccess root filled divided decodes some_ access, List.eraseDups_cons] at found
    exact ⟨keys, succeeds, found⟩
  choose keys succeeds found using found
  exact ⟨keys, succeeds, found⟩

/-- The accesses are read into their trees. -/
theorem parse_nameAccess (root : Root) {name : List Char} {cut : List Tree}
    (accepted : Grammar.identifier.pattern.Matches name)
    (divided : StringLiteral.parts .double (name ++ ['"']) = some cut) (access : NameAccess) :
    (Dialect.parse .tsx (access.text root name)).bare = access.tree root name cut := by
  cases access with
  | dot => exact (Direct.parse_name root accepted).1
  | chain => exact (Direct.parse_name root accepted).2
  | literal =>
    have parsed := Direct.parse_literal root divided
    rw [List.append_assoc] at parsed
    exact parsed

/-- The accesses behind a mark use the name as it is written, and the access by the literal what the parts of the name
stand for. They agree when no escape is read, as in a name without escapes, and otherwise they do not. -/
theorem keys_of_propertyName {name : List Char} (root : Root) (accepted : Grammar.identifier.pattern.Matches name) :
    ∃ (parts : List (List Char)) (cut : List Tree), name = parts.flatten ∧ (∀ part ∈ parts, NamePart part) ∧
      StringLiteral.parts .double (name ++ ['"']) = some cut ∧
      value? (stringTree .double cut) = some (String.ofList (Utf16.lossy (parts.flatMap escapeUnits))) ∧
      ('\\' ∉ name → ∀ part ∈ parts, escapeUnits part = Utf16.encode part) ∧
      (∀ access : NameAccess, (Dialect.parse .tsx (access.text root name)).bare = access.tree root name cut) ∧
      ∀ (read : TreeReader) (path : Path),
        (∀ access : NameAccess, (access.text root name).utf8ByteSize ≤ mostBytes) →
        (∀ access : NameAccess, (read .tsx (access.text root name)).bare = access.tree root name cut) →
        ∃ keys : NameAccess → KeyList,
          (∀ access, ofSourceBy read path (access.text root name) = .ok (keys access)) ∧
          (keys .dot).keys = [String.ofList name] ∧ (keys .chain).keys = [String.ofList name] ∧
          (keys .literal).keys = [String.ofList (Utf16.lossy (parts.flatMap escapeUnits))] ∧
          ((keys .dot).keys = (keys .literal).keys ↔ ∀ part ∈ parts, escapeUnits part = Utf16.encode part) := by
  obtain ⟨filled, parts, rfl, each⟩ := StringLiteral.exists_nameParts accepted
  obtain ⟨cut, divided, decodes⟩ := StringLiteral.value_of_units (StringLiteral.units_nameParts each)
  refine ⟨parts, cut, rfl, each, divided, decodes, fun plain part member => ?_, parse_nameAccess root accepted divided,
    fun read path small reads => ?_⟩
  · exact (each part member).units_of_plain fun escaped => plain (List.mem_flatten.mpr ⟨part, member, escaped⟩)
  · obtain ⟨keys, succeeds, found⟩ := keys_of_reads root filled divided decodes
      (StringLiteral.lossy_filled each filled) path small reads
    refine ⟨keys, succeeds, found .dot, found .chain, found .literal, ?_⟩
    rw [found .dot, found .literal, ← StringLiteral.lossy_eq_iff each, List.singleton_inj, String.ofList_inj]
    exact eq_comm

/-- The letter A by its number. -/
def escapedName : List Char := "\\u0041".toList

def escapedParts : List Tree := [leaf "escape_sequence" escapedName]

private theorem escapedName_small (access : NameAccess) :
    (access.text .process escapedName).utf8ByteSize ≤ mostBytes := by
  cases access <;> decide

private theorem escapedName_accepted : Grammar.identifier.pattern.Matches escapedName := by
  have read : Pattern.longest [Grammar.identifier.pattern] escapedName = some (escapedName, []) := by decide +kernel
  exact (Pattern.someMatches_singleton _ _).mp (Pattern.longest_eq_some read).2.1

private theorem escapedParts_divided : StringLiteral.parts .double (escapedName ++ ['"']) = some escapedParts := by
  with_unfolding_all rfl

/-- The accesses behind a mark use the escape, and the access by the literal the letter. -/
theorem keys_of_propertyName_escaped :
    Grammar.identifier.pattern.Matches escapedName ∧
      (∀ access : NameAccess, (access.text .process escapedName).utf8ByteSize ≤ mostBytes) ∧
      (∀ access : NameAccess, (Dialect.parse .tsx (access.text .process escapedName)).bare =
        access.tree .process escapedName escapedParts) ∧
      ∃ keys : NameAccess → KeyList,
        (∀ access, ofSource (.ofString "a.js") (access.text .process escapedName) = .ok (keys access)) ∧
        (keys .dot).keys = ["\\u0041"] ∧ (keys .chain).keys = ["\\u0041"] ∧ (keys .literal).keys = ["A"] := by
  obtain ⟨parts, cut, -, -, divided, decodes, -, parsed, found⟩ := keys_of_propertyName .process escapedName_accepted
  obtain rfl : escapedParts = cut := Option.some.inj (escapedParts_divided.symm.trans divided)
  obtain ⟨keys, succeeds, dot, chain, literal, -⟩ :=
    found Dialect.parse (.ofString "a.js") escapedName_small parsed
  have letter : value? (stringTree .double escapedParts) = some "A" := by decide
  rw [← Option.some.inj (letter.symm.trans decodes)] at literal
  exact ⟨escapedName_accepted, escapedName_small, parsed, keys, succeeds, dot, chain, literal⟩

/-- A name that the grammar accepts behind a mark is another key between quotes. -/
theorem exists_escape_differs :
    ∃ (name : List Char) (path : Path), Grammar.identifier.pattern.Matches name ∧
      ∃ keys : NameAccess → KeyList, (∀ access, ofSource path (access.text .process name) = .ok (keys access)) ∧
        (keys .dot).keys ≠ (keys .literal).keys := by
  have letter : value? (stringTree .double escapedParts) = some (String.ofList ['A']) := by decide
  obtain ⟨keys, succeeds, found⟩ := keys_of_reads .process (List.cons_ne_nil _ _) escapedParts_divided letter
    (List.cons_ne_nil _ _) (.ofString "a.js") escapedName_small
    (parse_nameAccess .process escapedName_accepted escapedParts_divided)
  refine ⟨escapedName, .ofString "a.js", escapedName_accepted, keys, succeeds, ?_⟩
  rw [found .dot, found .literal]
  decide

end EnvAudit.Usage
