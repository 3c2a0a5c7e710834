import EnvAudit.Script.Rule

/-!
# Declarations of the typed language
-/
namespace EnvAudit.Script.Grammar

open Rule

/-- Members, modules, interfaces, enumerations and parameters with types. -/
def typedDefinitionRules : Rules := [
  ("public_field_definition", seq [
      many (field "decorator" "decorator"),
      opt (alt [
        seq [lit "declare", opt "accessibility_modifier"],
        seq ["accessibility_modifier", opt (lit "declare")]]),
      alt [
        seq [opt (lit "static"), opt "override_modifier", opt (lit "readonly")],
        seq [opt (lit "abstract"), opt (lit "readonly")], seq [opt (lit "readonly"), opt (lit "abstract")],
        opt (lit "accessor")],
      field "name" "_property_name", opt (words ["?", "!"]), field "type" (opt "type_annotation"),
      opt "_initializer"]),
  ("_jsx_start_opening_element", seq [
      lit "<",
      opt (seq [
        alt [
          field "name" (alt ["_jsx_identifier", "jsx_namespace_name"]),
          seq [
            field "name" (alt ["identifier", shown "member_expression" "nested_identifier"]),
            field "type_arguments" (opt "type_arguments")]],
        many (field "attribute" "_jsx_attribute")])]),
  ("_import_identifier", alt ["identifier", shown "identifier" (lit "type")]),
  ("non_null_expression", leftLevel "unary" (seq ["expression", lit "!"])),
  ("method_signature", seq [
      opt "accessibility_modifier", opt (lit "static"), opt "override_modifier", opt (lit "readonly"),
      opt (lit "async"), opt (words ["get", "set", "*"]), field "name" "_property_name", opt (lit "?"),
      "_call_signature"]),
  ("abstract_method_signature", seq [
      opt "accessibility_modifier", lit "abstract", opt "override_modifier", opt (words ["get", "set", "*"]),
      field "name" "_property_name", opt (lit "?"), "_call_signature"]),
  ("function_signature", seq [
      opt (lit "async"), lit "function", field "name" "identifier", "_call_signature",
      alt ["_semicolon", "_function_signature_automatic_semicolon"]]),
  ("decorator_parenthesized_expression", seq [
      lit "(",
      alt [
        "identifier", shown "member_expression" "decorator_member_expression",
        shown "call_expression" "decorator_call_expression"],
      lit ")"]),
  ("type_assertion", leftLevel "unary" (seq ["type_arguments", "expression"])),
  ("as_expression", leftLevel "binary" (seq ["expression", lit "as", alt [lit "const", "type"]])),
  ("satisfies_expression", leftLevel "binary" (seq ["expression", lit "satisfies", "type"])),
  ("instantiation_expression", level "instantiation" (seq [
      "expression", field "type_arguments" "type_arguments"])),
  ("import_require_clause", seq [
      "identifier", lit "=", lit "require", lit "(", field "source" "string", lit ")"]),
  ("extends_clause", seq [lit "extends", commaSep1 "_extends_clause_single"]),
  ("_extends_clause_single", level "extends" (seq [
      field "value" "expression", field "type_arguments" (opt "type_arguments")])),
  ("implements_clause", seq [lit "implements", commaSep1 "type"]),
  ("ambient_declaration", seq [
      lit "declare",
      alt [
        "declaration", seq [lit "global", "statement_block"],
        seq [lit "module", lit ".", shown "property_identifier" "identifier", lit ":", "type", "_semicolon"]]]),
  ("abstract_class_declaration", level "declare" (seq [
      many (field "decorator" "decorator"), lit "abstract", lit "class", field "name" "_type_identifier",
      field "type_parameters" (opt "type_parameters"), opt "class_heritage", field "body" "class_body"])),
  ("module", seq [lit "module", "_module"]),
  ("internal_module", seq [lit "namespace", "_module"]),
  ("_module", right (seq [
      field "name" (alt ["string", "identifier", "nested_identifier"]), field "body" (opt "statement_block")])),
  ("import_alias", seq [
      lit "import", "identifier", lit "=", alt ["identifier", "nested_identifier"], "_semicolon"]),
  ("nested_type_identifier", level "member" (seq [
      field "module" (alt ["identifier", "nested_identifier"]), lit ".", field "name" "_type_identifier"])),
  ("interface_declaration", seq [
      lit "interface", field "name" "_type_identifier", field "type_parameters" (opt "type_parameters"),
      opt "extends_type_clause", field "body" (shown "interface_body" "object_type")]),
  ("extends_type_clause", seq [
      lit "extends",
      commaSep1 (field "type" (alt ["_type_identifier", "nested_type_identifier", "generic_type"]))]),
  ("enum_declaration", seq [
      opt (lit "const"), lit "enum", field "name" "identifier", field "body" "enum_body"]),
  ("enum_body", seq [
      lit "\x7b",
      opt (seq [commaSep1 (alt [field "name" "_property_name", "enum_assignment"]), opt (lit ",")]),
      lit "\x7d"]),
  ("enum_assignment", seq [field "name" "_property_name", "_initializer"]),
  ("type_alias_declaration", seq [
      lit "type", field "name" "_type_identifier", field "type_parameters" (opt "type_parameters"), lit "=",
      field "value" "type", "_semicolon"]),
  ("accessibility_modifier", words ["public", "private", "protected"]),
  ("override_modifier", lit "override"),
  ("required_parameter", seq ["_parameter_name", field "type" (opt "type_annotation"), opt "_initializer"]),
  ("optional_parameter", seq [
      "_parameter_name", lit "?", field "type" (opt "type_annotation"), opt "_initializer"]),
  ("_parameter_name", seq [
      many (field "decorator" "decorator"), opt "accessibility_modifier", opt "override_modifier",
      opt (lit "readonly"), field "pattern" (alt ["pattern", "this"])])]

end EnvAudit.Script.Grammar
