import EnvAudit.Script.Rule

/-!
# Calls, accesses and operators
-/
namespace EnvAudit.Script.Grammar

open Rule

/-- Infix operators with their levels. -/
private def operators : List (String × String) := [
  ("&&", "logical_and"), ("||", "logical_or"), (">>", "binary_shift"), (">>>", "binary_shift"),
  ("<<", "binary_shift"), ("&", "bitwise_and"), ("^", "bitwise_xor"), ("|", "bitwise_or"),
  ("+", "binary_plus"), ("-", "binary_plus"), ("*", "binary_times"), ("/", "binary_times"),
  ("%", "binary_times"), ("**", "binary_exp"), ("<", "binary_relation"), ("<=", "binary_relation"),
  ("==", "binary_equality"), ("===", "binary_equality"), ("!=", "binary_equality"),
  ("!==", "binary_equality"), (">=", "binary_relation"), (">", "binary_relation"), ("??", "ternary"),
  ("instanceof", "binary_relation"), ("in", "binary_relation")]

/-- Powers lean to the right, all other operators to the left; a private name may be searched in an object. -/
private def binaryOperations : Rule :=
  alt <| operators.map fun (operator, name) =>
    let operand : Rule :=
      if operator = "in" then alt ["expression", "private_property_identifier"] else "expression"
    leveled (.named name) (some (if operator = "**" then .right else .left))
      (seq [field "left" operand, field "operator" (lit operator), field "right" "expression"])

/-- Calls, accesses, assignments and operators. -/
def operationRules : Rules := [
  ("optional_chain", lit "?."),
  ("call_expression", alt [
      level "call" (seq [field "function" (alt ["expression", "import"]), field "arguments" "arguments"]),
      level "template_call" (seq [
        field "function" (alt ["primary_expression", "new_expression"]), field "arguments" "template_string"]),
      level "member" (seq [
        field "function" "primary_expression", field "optional_chain" "optional_chain",
        field "arguments" "arguments"])]),
  ("new_expression", rightLevel "new" (seq [
      lit "new", field "constructor" (alt ["primary_expression", "new_expression"]),
      field "arguments" (opt (weighted (1) "arguments"))])),
  ("await_expression", level "unary_void" (seq [lit "await", "expression"])),
  ("member_expression", level "member" (seq [
      field "object" (alt ["expression", "primary_expression", "import"]),
      alt [lit ".", field "optional_chain" "optional_chain"],
      field "property" (alt ["private_property_identifier", shown "property_identifier" "identifier"])])),
  ("subscript_expression", rightLevel "member" (seq [
      field "object" (alt ["expression", "primary_expression"]),
      opt (field "optional_chain" "optional_chain"), lit "[", field "index" "_expressions", lit "]"])),
  ("_lhs_expression", alt [
      "member_expression", "subscript_expression", "_identifier", shown "identifier" "_reserved_identifier",
      "_destructuring_pattern"]),
  ("assignment_expression", rightLevel "assign" (seq [
      field "left" (alt ["parenthesized_expression", "_lhs_expression"]), lit "=",
      field "right" "expression"])),
  ("_augmented_assignment_lhs", alt [
      "member_expression", "subscript_expression", shown "identifier" "_reserved_identifier", "identifier",
      "parenthesized_expression"]),
  ("augmented_assignment_expression", rightLevel "assign" (seq [
      field "left" "_augmented_assignment_lhs",
      field "operator" (words [
        "+=", "-=", "*=", "/=", "%=", "^=", "&=", "|=", ">>=", ">>>=", "<<=", "**=", "&&=", "||=", "??="]),
      field "right" "expression"])),
  ("_initializer", seq [lit "=", field "value" "expression"]),
  ("_destructuring_pattern", alt ["object_pattern", "array_pattern"]),
  ("spread_element", seq [lit "...", "expression"]),
  ("ternary_expression", rightLevel "ternary" (seq [
      field "condition" "expression", shownWord "?" "_ternary_qmark", field "consequence" "expression",
      lit ":", field "alternative" "expression"])),
  ("binary_expression", binaryOperations),
  ("unary_expression", leftLevel "unary_void" (seq [
      field "operator" (words ["!", "~", "-", "+", "typeof", "void", "delete"]),
      field "argument" "expression"])),
  ("update_expression", left (alt [
      seq [field "argument" "expression", field "operator" (words ["++", "--"])],
      seq [field "operator" (words ["++", "--"]), field "argument" "expression"]])),
  ("sequence_expression", right (commaSep1 "expression"))]

end EnvAudit.Script.Grammar
