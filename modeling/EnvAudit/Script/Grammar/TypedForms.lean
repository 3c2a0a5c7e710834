import EnvAudit.Script.Grammar.Program
import EnvAudit.Script.Grammar.Statements
import EnvAudit.Script.Grammar.Expressions
import EnvAudit.Script.Grammar.Definitions
import EnvAudit.Script.Grammar.Operations
import EnvAudit.Script.Grammar.Members

/-!
# Rules that types change
-/
namespace EnvAudit.Script.Grammar

open Rule

private def previous (name : String) : Rule :=
  Rules.find
    (programRules ++ statementRules ++ expressionRules ++ definitionRules ++ operationRules ++ memberRules) name

/-- The expressions of the untyped language; without markup an element is none. -/
private def untypedExpressions (markup : Bool) : List Rule :=
  match previous "expression" with
  | .alt choices => if markup then choices else choices.filter (· != .ref "_jsx_element")
  | other => [other]

/-- The forms of the untyped language that may carry types; `markup` tells whether elements are expressions. -/
def typedFormRules (markup : Bool) : Rules := [
  ("export_statement", alt [
      previous "export_statement",
      seq [lit "export", lit "type", "export_clause", opt "_from_clause", "_semicolon"],
      seq [lit "export", lit "=", "expression", "_semicolon"],
      seq [lit "export", lit "as", lit "namespace", "identifier", "_semicolon"]]),
  ("export_specifier", seq [opt (words ["type", "typeof"]), previous "export_specifier"]),
  ("declaration", alt [
      previous "declaration", "function_signature", "abstract_class_declaration", "module",
      level "declare" "internal_module", "type_alias_declaration", "enum_declaration",
      "interface_declaration", "import_alias", "ambient_declaration"]),
  ("import_statement", seq [
      lit "import", opt (words ["type", "typeof"]),
      alt [seq ["import_clause", "_from_clause"], "import_require_clause", field "source" "string"],
      opt "import_attribute", "_semicolon"]),
  ("import_clause", alt [
      "namespace_import", "named_imports",
      seq ["_import_identifier", opt (seq [lit ",", alt ["namespace_import", "named_imports"]])]]),
  ("import_specifier", seq [
      opt (words ["type", "typeof"]),
      alt [
        field "name" "_import_identifier",
        seq [
          field "name" (alt ["_module_export_name", shown "identifier" (lit "type")]), lit "as",
          field "alias" "_import_identifier"]]]),
  ("variable_declarator", alt [
      seq [
        field "name" (alt ["identifier", "_destructuring_pattern"]), field "type" (opt "type_annotation"),
        opt "_initializer"],
      level "declare" (seq [field "name" "identifier", lit "!", field "type" "type_annotation"])]),
  ("catch_clause", seq [
      lit "catch",
      opt (seq [
        lit "(", field "parameter" (alt ["identifier", "_destructuring_pattern"]),
        opt (field "type" "type_annotation"), lit ")"]),
      field "body" "statement_block"]),
  ("parenthesized_expression", seq [
      lit "(", alt [seq ["expression", field "type" (opt "type_annotation")], "sequence_expression"], lit ")"]),
  ("expression", alt (
      (["as_expression", "satisfies_expression", "instantiation_expression", "internal_module"] : List Rule) ++
      ((if markup then [] else ["type_assertion"]) : List Rule) ++ untypedExpressions markup)),
  ("primary_expression", alt [previous "primary_expression", "non_null_expression"]),
  ("jsx_opening_element", weighted (-1) (seq ["_jsx_start_opening_element", lit ">"])),
  ("jsx_self_closing_element", weighted (-1) (seq ["_jsx_start_opening_element", lit "/>"])),
  ("class", level "literal" (seq [
      many (field "decorator" "decorator"), lit "class", field "name" (opt "_type_identifier"),
      field "type_parameters" (opt "type_parameters"), opt "class_heritage", field "body" "class_body"])),
  ("class_declaration", leftLevel "declare" (seq [
      many (field "decorator" "decorator"), lit "class", field "name" "_type_identifier",
      field "type_parameters" (opt "type_parameters"), opt "class_heritage", field "body" "class_body",
      opt "_automatic_semicolon"])),
  ("class_heritage", alt [seq ["extends_clause", opt "implements_clause"], "implements_clause"]),
  ("_call_signature", seq [
      field "type_parameters" (opt "type_parameters"), field "parameters" "formal_parameters",
      field "return_type" (opt (alt ["type_annotation", "asserts_annotation", "type_predicate_annotation"]))]),
  ("_formal_parameter", alt ["required_parameter", "optional_parameter"]),
  ("call_expression", alt [
      level "call" (seq [
        field "function" (alt ["expression", "import"]), field "type_arguments" (opt "type_arguments"),
        field "arguments" "arguments"]),
      level "template_call" (seq [
        field "function" (alt ["primary_expression", "new_expression"]), field "arguments" "template_string"]),
      level "member" (seq [
        field "function" "primary_expression", lit "?.", field "type_arguments" (opt "type_arguments"),
        field "arguments" "arguments"])]),
  ("new_expression", rightLevel "new" (seq [
      lit "new", field "constructor" "primary_expression", field "type_arguments" (opt "type_arguments"),
      field "arguments" (opt "arguments")])),
  ("_lhs_expression", alt [previous "_lhs_expression", "non_null_expression"]),
  ("assignment_expression", rightLevel "assign" (seq [
      opt (lit "using"), field "left" (alt ["parenthesized_expression", "_lhs_expression"]), lit "=",
      field "right" "expression"])),
  ("_augmented_assignment_lhs", alt [previous "_augmented_assignment_lhs", "non_null_expression"]),
  ("decorator", seq [
      lit "@",
      alt [
        "identifier", shown "member_expression" "decorator_member_expression",
        shown "call_expression" "decorator_call_expression",
        shown "parenthesized_expression" "decorator_parenthesized_expression"]]),
  ("decorator_call_expression", level "call" (seq [
      field "function" (alt ["identifier", shown "member_expression" "decorator_member_expression"]),
      opt (field "type_arguments" "type_arguments"), field "arguments" "arguments"])),
  ("class_body", seq [
      lit "\x7b",
      many (alt [
        seq [many (field "decorator" "decorator"), "method_definition", opt "_semicolon"],
        seq ["method_signature", alt ["_function_signature_automatic_semicolon", lit ","]],
        "class_static_block",
        seq [
          alt ["abstract_method_signature", "index_signature", "method_signature", "public_field_definition"],
          alt ["_semicolon", lit ","]],
        lit ";"]),
      lit "\x7d"]),
  ("method_definition", left (seq [
      opt "accessibility_modifier", opt (lit "static"), opt "override_modifier", opt (lit "readonly"),
      opt (lit "async"), opt (words ["get", "set", "*"]), field "name" "_property_name", opt (lit "?"),
      "_call_signature", field "body" "statement_block"])),
  ("_reserved_identifier", alt [
      lit "declare", lit "namespace", lit "type", lit "public", lit "private", lit "protected",
      lit "override", lit "readonly", lit "module", lit "any", lit "number", lit "boolean", lit "string",
      lit "symbol", lit "export", lit "object", lit "new", lit "readonly", previous "_reserved_identifier"])]

end EnvAudit.Script.Grammar
