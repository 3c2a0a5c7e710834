import EnvAudit.Script.Rule

/-!
# Classes and functions
-/
namespace EnvAudit.Script.Grammar

open Rule

/-- Classes and functions, as declarations and as expressions. -/
def definitionRules : Rules := [
  ("class", level "literal" (seq [
      many (field "decorator" "decorator"), lit "class", field "name" (opt "identifier"),
      opt "class_heritage", field "body" "class_body"])),
  ("class_declaration", level "declare" (seq [
      many (field "decorator" "decorator"), lit "class", field "name" "identifier", opt "class_heritage",
      field "body" "class_body", opt "_automatic_semicolon"])),
  ("class_heritage", seq [lit "extends", "expression"]),
  ("function_expression", level "literal" (seq [
      opt (lit "async"), lit "function", field "name" (opt "identifier"), "_call_signature",
      field "body" "statement_block"])),
  ("function_declaration", rightLevel "declare" (seq [
      opt (lit "async"), lit "function", field "name" "identifier", "_call_signature",
      field "body" "statement_block", opt "_automatic_semicolon"])),
  ("generator_function", level "literal" (seq [
      opt (lit "async"), lit "function", lit "*", field "name" (opt "identifier"), "_call_signature",
      field "body" "statement_block"])),
  ("generator_function_declaration", rightLevel "declare" (seq [
      opt (lit "async"), lit "function", lit "*", field "name" "identifier", "_call_signature",
      field "body" "statement_block", opt "_automatic_semicolon"])),
  ("arrow_function", seq [
      opt (lit "async"),
      alt [
        field "parameter" (alt [shown "identifier" "_reserved_identifier", "identifier"]), "_call_signature"],
      lit "=>", field "body" (alt ["expression", "statement_block"])]),
  ("_call_signature", field "parameters" "formal_parameters"),
  ("_formal_parameter", alt ["pattern", "assignment_pattern"])]

end EnvAudit.Script.Grammar
