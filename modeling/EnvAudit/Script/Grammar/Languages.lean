import EnvAudit.Script.Grammar.Program
import EnvAudit.Script.Grammar.Statements
import EnvAudit.Script.Grammar.Expressions
import EnvAudit.Script.Grammar.Markup
import EnvAudit.Script.Grammar.Definitions
import EnvAudit.Script.Grammar.Operations
import EnvAudit.Script.Grammar.Literals
import EnvAudit.Script.Grammar.Members
import EnvAudit.Script.Grammar.TypedForms
import EnvAudit.Script.Grammar.TypedDefinitions
import EnvAudit.Script.Grammar.Types

/-!
# The grammars of the languages

The untyped language with markup, and the typed language with and without it.
-/
namespace EnvAudit.Script.Grammar

private def untypedRules : Rules :=
  programRules ++ statementRules ++ expressionRules ++ markupRules ++ definitionRules ++ operationRules ++
    literalRules ++ memberRules

private def levels (names : List String) : List LevelEntry := names.map .level

private def ruleNames (names : List String) : List LevelEntry := names.map .rule

private def untypedOrders : List (List LevelEntry) := [
  levels ["member", "template_call", "call"] ++ [.rule "update_expression"] ++
    levels [
      "unary_void", "binary_exp", "binary_times", "binary_plus", "binary_shift", "binary_compare",
      "binary_relation", "binary_equality", "bitwise_and", "bitwise_xor", "bitwise_or", "logical_and",
      "logical_or", "ternary"] ++
    ruleNames ["sequence_expression", "arrow_function"],
  [.level "assign", .rule "primary_expression"],
  levels ["member", "template_call", "new", "call"] ++ [.rule "expression"],
  levels ["declare", "literal"],
  [.rule "primary_expression", .rule "statement_block", .level "object"],
  ruleNames ["meta_property", "import"],
  ruleNames ["import_statement", "import"],
  ruleNames ["export_statement", "primary_expression"],
  ruleNames ["lexical_declaration", "primary_expression"]]

private def typedOrders : List (List LevelEntry) := [
  levels ["call", "instantiation", "unary", "binary"] ++ ruleNames ["await_expression", "arrow_function"],
  levels ["extends", "instantiation"],
  ruleNames ["intersection_type", "union_type", "conditional_type", "function_type"] ++
    [.level "binary"] ++ ruleNames ["type_predicate", "readonly_type"],
  ruleNames ["mapped_type_clause", "primary_expression"],
  ruleNames ["accessibility_modifier", "primary_expression"],
  [.level "unary_void", .rule "expression"],
  ruleNames ["extends_clause", "primary_expression"],
  levels ["unary", "assign"],
  [.level "declare", .rule "expression"],
  ruleNames ["predefined_type", "unary_expression"],
  ruleNames ["type", "flow_maybe_type"],
  ruleNames ["tuple_type", "array_type", "pattern", "type"],
  ruleNames ["readonly_type", "pattern"],
  ruleNames ["readonly_type", "primary_expression"],
  ruleNames ["type_query", "subscript_expression", "expression"],
  ruleNames ["type_query", "_type_query_subscript_expression"],
  ruleNames [
    "nested_type_identifier", "generic_type", "primary_type", "lookup_type", "index_type_query", "type"],
  ruleNames ["as_expression", "satisfies_expression", "primary_type"],
  ruleNames ["_type_query_member_expression", "member_expression"],
  ruleNames ["member_expression", "_type_query_member_expression_in_type_annotation"],
  ruleNames ["_type_query_member_expression", "primary_expression"],
  ruleNames ["_type_query_subscript_expression", "subscript_expression"],
  ruleNames ["_type_query_subscript_expression", "primary_expression"],
  ruleNames ["_type_query_call_expression", "primary_expression"],
  ruleNames ["_type_query_instantiation_expression", "primary_expression"],
  ruleNames ["type_query", "primary_expression"],
  ruleNames ["override_modifier", "primary_expression"],
  ruleNames ["decorator_call_expression", "decorator"],
  ruleNames ["literal_type", "pattern"],
  ruleNames ["predefined_type", "pattern"],
  ruleNames ["call_expression", "_type_query_call_expression"],
  ruleNames ["call_expression", "_type_query_call_expression_in_type_annotation"],
  ruleNames ["new_expression", "primary_expression"],
  ruleNames ["meta_property", "primary_expression"],
  ruleNames ["construct_signature", "_property_name"]]

private def untypedLayout : List (String × Layout) := [
  ("_automatic_semicolon", .semicolon), ("_template_chars", .templateText),
  ("_ternary_qmark", .ternaryMark), ("html_comment", .markupComment), ("jsx_text", .markupText)]

private def untypedInlined : List String := [
  "_expressions", "_semicolon", "_identifier", "_reserved_identifier", "_jsx_attribute",
  "_jsx_element_name", "_jsx_child", "_jsx_element", "_jsx_attribute_name", "_jsx_attribute_value",
  "_jsx_identifier", "_lhs_expression"]

private def untypedSupertypes : List String := [
  "statement", "declaration", "expression", "primary_expression", "pattern"]

private def untypedUnsought : List String := [
  "html_character_reference", "jsx_identifier", "/>", "unescaped_double_jsx_string_fragment",
  "unescaped_single_jsx_string_fragment", "unescaped_double_string_fragment",
  "unescaped_single_string_fragment", "regex_pattern", "regex_flags"]

/-- The untyped language with markup. -/
def untyped : Grammar where
  rules := untypedRules
  supertypes := untypedSupertypes
  inlined := untypedInlined ++ ["_call_signature", "_formal_parameter"]
  orders := untypedOrders
  layout := untypedLayout
  extras := ["comment", "html_comment"]
  unsought := untypedUnsought
  typeAware := false

/-- The typed language; with markup a type in angle brackets before an expression is none. -/
def typed (markup : Bool) : Grammar where
  rules := untypedRules.revise (typedFormRules markup ++ typedDefinitionRules ++ typeRules)
  supertypes := untypedSupertypes ++ ["type", "primary_type"]
  inlined := untypedInlined ++ ["_type_identifier", "_jsx_start_opening_element"]
  orders := untypedOrders ++ typedOrders
  layout := untypedLayout ++
    [("_function_signature_automatic_semicolon", .signatureSemicolon), ("__error_recovery", .lost)]
  extras := ["comment", "html_comment"]
  unsought := untypedUnsought ++ ["?:"] ++ if markup then [] else ["</"]
  typeAware := true

end EnvAudit.Script.Grammar
