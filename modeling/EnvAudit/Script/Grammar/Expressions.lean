import EnvAudit.Script.Rule

/-!
# Expressions and patterns
-/
namespace EnvAudit.Script.Grammar

open Rule

/-- Expressions, object and array literals, and the patterns that take values apart. -/
def expressionRules : Rules := [
  ("parenthesized_expression", seq [lit "(", "_expressions", lit ")"]),
  ("_expressions", alt ["expression", "sequence_expression"]),
  ("expression", alt [
      "primary_expression", "_jsx_element", "assignment_expression", "augmented_assignment_expression",
      "await_expression", "unary_expression", "binary_expression", "ternary_expression", "update_expression",
      "new_expression", "yield_expression", "arrow_function"]),
  ("primary_expression", alt [
      "subscript_expression", "member_expression", "parenthesized_expression", "_identifier",
      shown "identifier" "_reserved_identifier", "this", "super", "number", "string", "template_string",
      "regex", "true", "false", "null", "object", "array", "function_expression", "generator_function",
      "class", "meta_property", "call_expression"]),
  ("yield_expression", right (seq [lit "yield", alt [seq [lit "*", "expression"], opt "expression"]])),
  ("object", level "object" (seq [
      lit "\x7b",
      commaSep (opt (alt [
        "pair", "spread_element", "method_definition",
        shown "shorthand_property_identifier" (alt ["identifier", "_reserved_identifier"])])),
      lit "\x7d"])),
  ("object_pattern", level "object" (seq [
      lit "\x7b",
      commaSep (opt (alt [
        "pair_pattern", "rest_pattern", "object_assignment_pattern",
        shown "shorthand_property_identifier_pattern" (alt ["identifier", "_reserved_identifier"])])),
      lit "\x7d"])),
  ("assignment_pattern", seq [field "left" "pattern", lit "=", field "right" "expression"]),
  ("object_assignment_pattern", seq [
      field "left" (alt [
        shown "shorthand_property_identifier_pattern" (alt ["_reserved_identifier", "identifier"]),
        "_destructuring_pattern"]),
      lit "=", field "right" "expression"]),
  ("array", seq [lit "[", commaSep (opt (alt ["expression", "spread_element"])), lit "]"]),
  ("array_pattern", seq [lit "[", commaSep (opt (alt ["pattern", "assignment_pattern"])), lit "]"])]

end EnvAudit.Script.Grammar
