import EnvAudit.Usage

/-!
# Contributions

Which nodes of a syntax tree contribute which keys, told by the shapes of the nodes alone, and that the keys read off a
node are those that it contributes.
-/
namespace EnvAudit.Usage

open EnvAudit.Script

/-! ## Shapes -/

/-- The expression `import.meta`. -/
inductive ImportMeta (node : Tree) : Prop where
  | tokens (first : Tree) (middle : List Tree) (last : Tree) (kind : node.kind = "meta_property")
      (children : node.children = first :: (middle ++ [last])) (keyword : first.kind = "import")
      (name : last.kind = "meta")
  | access (object property : Tree) (kind : node.kind = "member_expression")
      (base : node.field? "object" = some object) (keyword : object.kind = "import")
      (accessed : node.field? "property" = some property) (name : property.text = "meta")

/-- What the property `env` of an environment is taken of. -/
inductive EnvironmentBase (node : Tree) : Prop where
  | process (kind : node.kind = "identifier") (name : node.text = "process")
  | importMeta (shape : ImportMeta node)

/-- An environment: the property `env`, written as a name, of `process` or of `import.meta`. -/
structure EnvironmentRoot (node : Tree) : Prop where
  kind : node.kind = "member_expression"
  property : ∃ property, node.field? "property" = some property ∧ property.kind = "property_identifier" ∧
    property.text = "env"
  base : ∃ base, node.field? "object" = some base ∧ EnvironmentBase base

/-- A named child of a kind. -/
structure NamedChild (kind : String) (node child : Tree) : Prop where
  member : child ∈ node.children
  named : child.head.named = true
  kind : child.kind = kind

/-- A specifier between the braces of an import. -/
inductive Specifies (node specifier : Tree) : Prop where
  | intro (clause names : Tree) (inStatement : NamedChild "import_clause" node clause)
      (inClause : NamedChild "named_imports" clause names) (inNames : NamedChild "import_specifier" names specifier)

/-- The name that a specifier has in the module that it comes from. -/
inductive ImportedName (specifier : Tree) (key : String) : Prop where
  | literal (name : Tree) (named : specifier.field? "name" = some name)
      (decoded : StringLiteral.value? name = some key)
  | word (name : Tree) (named : specifier.field? "name" = some name) (kind : name.kind ≠ "string")
      (text : name.text = key)

/-- A node contributes a key: it is an access to an environment by a name or by a literal, or it imports the key from a
module of the environment. -/
inductive Contributes (node : Tree) (key : String) : Prop where
  | member (object property : Tree) (kind : node.kind = "member_expression")
      (base : node.field? "object" = some object) (root : EnvironmentRoot object)
      (accessed : node.field? "property" = some property) (named : property.kind = "property_identifier")
      (text : property.text = key)
  | subscript (object index : Tree) (kind : node.kind = "subscript_expression")
      (base : node.field? "object" = some object) (root : EnvironmentRoot object)
      (accessed : node.field? "index" = some index) (decoded : StringLiteral.value? index = some key)
  | imported (source specifier : Tree) (origin start : String) (kind : node.kind = "import_statement")
      (from_ : node.field? "source" = some source) (decoded : StringLiteral.value? source = some origin)
      (known : start ∈ moduleStarts) (begins : start.toList <+: origin.toList)
      (specifies : Specifies node specifier) (name : ImportedName specifier key)

/-! ## Recognition -/

theorem isImportMeta_iff (node : Tree) : isImportMeta node = true ↔ ImportMeta node := by
  constructor
  · intro found
    unfold isImportMeta at found
    split at found
    next kind =>
      split at found
      next first rest children =>
        simp only [Bool.and_eq_true, decide_eq_true_eq, Option.map_eq_some_iff] at found
        obtain ⟨keyword, last, ends, name⟩ := found
        obtain ⟨middle, rfl⟩ := List.getLast?_eq_some_iff.mp ends
        exact .tokens first middle last kind children keyword name
      · cases found
    · split at found
      next kind =>
        simp only [Bool.and_eq_true, decide_eq_true_eq, Option.map_eq_some_iff] at found
        obtain ⟨⟨object, base, keyword⟩, property, accessed, name⟩ := found
        exact .access object property kind base keyword accessed name
      · cases found
  · intro shape
    cases shape with
    | tokens first middle last kind children keyword name => simp [isImportMeta, kind, children, keyword, name]
    | access object property kind base keyword accessed name =>
      simp [isImportMeta, kind, base, keyword, accessed, name]

theorem isEnvironment_iff (node : Tree) : isEnvironment node = true ↔ EnvironmentRoot node := by
  constructor
  · intro found
    unfold isEnvironment at found
    simp only [Bool.and_eq_true, decide_eq_true_eq] at found
    obtain ⟨kind, inner⟩ := found
    split at inner
    next property object accessed base =>
      simp only [isNamed, Bool.and_eq_true, Bool.or_eq_true, decide_eq_true_eq] at inner
      obtain ⟨named, ⟨identifier, name⟩ | shape⟩ := inner
      · exact ⟨kind, ⟨property, accessed, named⟩, object, base, .process identifier name⟩
      · exact ⟨kind, ⟨property, accessed, named⟩, object, base, .importMeta ((isImportMeta_iff object).mp shape)⟩
    · cases inner
  · rintro ⟨kind, ⟨property, accessed, named, text⟩, object, base, found⟩
    cases found with
    | process identifier name => simp [isEnvironment, isNamed, kind, accessed, named, text, base, identifier, name]
    | importMeta shape =>
      simp [isEnvironment, isNamed, kind, accessed, named, text, base, (isImportMeta_iff object).mpr shape]

theorem mem_parts_iff {kind : String} {node child : Tree} : child ∈ parts kind node ↔ NamedChild kind node child := by
  simp only [parts, List.mem_filter, Bool.and_eq_true, decide_eq_true_eq]
  exact ⟨fun ⟨member, named, same⟩ => ⟨member, named, same⟩, fun ⟨member, named, same⟩ => ⟨member, named, same⟩⟩

theorem mem_importedName_iff {specifier : Tree} {key : String} :
    key ∈ importedName specifier ↔ ImportedName specifier key := by
  unfold importedName
  constructor
  · intro member
    split at member
    next name named =>
      split at member
      · exact .literal name named (Option.mem_toList.mp member)
      next kind => exact .word name named kind (List.mem_singleton.mp member).symm
    · cases member
  · intro imported
    cases imported with
    | literal name named decoded =>
      -- Nothing but a string is decoded.
      have kind : name.kind = "string" := by
        unfold StringLiteral.value? at decoded
        split at decoded
        · assumption
        · cases decoded
      simp [named, kind, decoded]
    | word name named kind text => simp [named, kind, text]

/-! ## The keys of a node -/

private theorem mem_memberKey_iff {node : Tree} {key : String} (kind : node.kind = "member_expression") :
    key ∈ memberKey node ↔ Contributes node key := by
  unfold memberKey
  constructor
  · intro member
    split at member
    next object property base accessed =>
      split at member
      next found =>
        simp only [Bool.and_eq_true, decide_eq_true_eq, isEnvironment_iff] at found
        exact .member object property kind base found.1 accessed found.2 (List.mem_singleton.mp member).symm
      · cases member
    · cases member
  · intro contributes
    cases contributes with
    | member object property _ base root accessed named text =>
      simp [base, accessed, (isEnvironment_iff object).mpr root, named, text]
    | subscript _ _ other => simp [kind] at other
    | imported _ _ _ _ other => simp [kind] at other

private theorem mem_subscriptKey_iff {node : Tree} {key : String} (kind : node.kind = "subscript_expression") :
    key ∈ subscriptKey node ↔ Contributes node key := by
  unfold subscriptKey
  constructor
  · intro member
    split at member
    next object index base accessed =>
      split at member
      next found =>
        exact .subscript object index kind base ((isEnvironment_iff object).mp found) accessed
          (Option.mem_toList.mp member)
      · cases member
    · cases member
  · intro contributes
    cases contributes with
    | subscript object index _ base root accessed decoded =>
      simp [base, accessed, (isEnvironment_iff object).mpr root, decoded]
    | member _ _ other => simp [kind] at other
    | imported _ _ _ _ other => simp [kind] at other

private theorem mem_importedKeys_iff {node : Tree} {key : String} (kind : node.kind = "import_statement") :
    key ∈ importedKeys node ↔ Contributes node key := by
  unfold importedKeys
  constructor
  · intro member
    split at member
    next origin found =>
      obtain ⟨source, field, decoded⟩ := Option.bind_eq_some_iff.mp found
      split at member
      next known =>
        obtain ⟨start, listed, begins⟩ := List.any_eq_true.mp known
        simp only [List.mem_flatMap, mem_parts_iff, mem_importedName_iff] at member
        obtain ⟨specifier, ⟨names, ⟨clause, inStatement, inClause⟩, inNames⟩, name⟩ := member
        exact .imported source specifier origin start kind field decoded listed (List.isPrefixOf_iff_prefix.mp begins)
          ⟨clause, names, inStatement, inClause, inNames⟩ name
      · cases member
    · cases member
  · intro contributes
    cases contributes with
    | imported source specifier origin start _ field decoded listed begins specifies name =>
      obtain ⟨clause, names, inStatement, inClause, inNames⟩ := specifies
      have known : (moduleStarts.any fun start => start.toList.isPrefixOf origin.toList) = true :=
        List.any_eq_true.mpr ⟨start, listed, List.isPrefixOf_iff_prefix.mpr begins⟩
      simp only [field, Option.bind_some, decoded, known, if_true, List.mem_flatMap, mem_parts_iff, mem_importedName_iff]
      exact ⟨specifier, ⟨names, ⟨clause, inStatement, inClause⟩, inNames⟩, name⟩
    | member _ _ other => simp [kind] at other
    | subscript _ _ other => simp [kind] at other

/-- The keys read off a node are those that it contributes, apart from the empty one. -/
theorem mem_keysAt_iff {node : Tree} {key : String} : key ∈ keysAt node ↔ key ≠ "" ∧ Contributes node key := by
  simp only [keysAt, List.mem_filter, decide_eq_true_eq]
  rw [and_comm]
  refine and_congr_right fun _ => ?_
  split
  next kind => exact mem_memberKey_iff kind
  next notMember =>
    split
    next kind => exact mem_subscriptKey_iff kind
    next notSubscript =>
      split
      next kind => exact mem_importedKeys_iff kind
      next notImport =>
        -- A node of any other kind contributes nothing.
        refine ⟨fun member => absurd member List.not_mem_nil, fun contributes => ?_⟩
        cases contributes with
        | member _ _ kind => exact absurd kind notMember
        | subscript _ _ kind => exact absurd kind notSubscript
        | imported _ _ _ _ kind => exact absurd kind notImport

end EnvAudit.Usage
