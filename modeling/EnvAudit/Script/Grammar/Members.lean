import EnvAudit.Script.Grammar.Tokens

/-!
# Arguments, parameters and members
-/
namespace EnvAudit.Script.Grammar

open Rule

/-- Arguments, decorators, parameters, and the members of classes and objects. -/
def memberRules : Rules := [
  ("arguments", seq [lit "(", commaSep (opt (alt ["expression", "spread_element"])), lit ")"]),
  ("decorator", seq [
      lit "@",
      alt [
        "identifier", shown "member_expression" "decorator_member_expression",
        shown "call_expression" "decorator_call_expression"]]),
  ("decorator_member_expression", level "member" (seq [
      field "object" (alt ["identifier", shown "member_expression" "decorator_member_expression"]), lit ".",
      field "property" (shown "property_identifier" "identifier")])),
  ("decorator_call_expression", level "call" (seq [
      field "function" (alt ["identifier", shown "member_expression" "decorator_member_expression"]),
      field "arguments" "arguments"])),
  ("class_body", seq [
      lit "\x7b",
      many (alt [
        seq [field "member" "method_definition", opt (lit ";")],
        seq [field "member" "field_definition", "_semicolon"], field "member" "class_static_block", lit ";"]),
      lit "\x7d"]),
  ("field_definition", seq [
      many (field "decorator" "decorator"), opt (lit "static"), field "property" "_property_name",
      opt "_initializer"]),
  ("formal_parameters", seq [lit "(", opt (seq [commaSep1 "_formal_parameter", opt (lit ",")]), lit ")"]),
  ("class_static_block", seq [lit "static", opt "_automatic_semicolon", field "body" "statement_block"]),
  ("pattern", weighted (-1) (alt ["_lhs_expression", "rest_pattern"])),
  ("rest_pattern", right (seq [lit "...", "_lhs_expression"])),
  ("method_definition", seq [
      many (field "decorator" "decorator"),
      opt (alt [
        lit "static",
        shownWord "static get" staticGet]),
      opt (lit "async"), opt (words ["get", "set", "*"]), field "name" "_property_name",
      field "parameters" "formal_parameters", field "body" "statement_block"]),
  ("pair", seq [field "key" "_property_name", lit ":", field "value" "expression"]),
  ("pair_pattern", seq [
      field "key" "_property_name", lit ":", field "value" (alt ["pattern", "assignment_pattern"])]),
  ("_property_name", alt [
      shown "property_identifier" (alt ["identifier", "_reserved_identifier"]), "private_property_identifier",
      "string", "number", "computed_property_name"]),
  ("computed_property_name", seq [lit "[", "expression", lit "]"]),
  ("_reserved_identifier", words ["get", "set", "async", "static", "export", "let"]),
  ("_semicolon", alt ["_automatic_semicolon", lit ";"])]

end EnvAudit.Script.Grammar
