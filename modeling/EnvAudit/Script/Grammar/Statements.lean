import EnvAudit.Script.Rule

/-!
# Statements
-/
namespace EnvAudit.Script.Grammar

open Rule

/-- Statements and their clauses. -/
def statementRules : Rules := [
  ("statement", alt [
      "export_statement", "import_statement", "debugger_statement", "expression_statement", "declaration",
      "statement_block", "if_statement", "switch_statement", "for_statement", "for_in_statement",
      "while_statement", "do_statement", "try_statement", "with_statement", "break_statement",
      "continue_statement", "return_statement", "throw_statement", "empty_statement", "labeled_statement"]),
  ("expression_statement", seq ["_expressions", "_semicolon"]),
  ("variable_declaration", seq [lit "var", commaSep1 "variable_declarator", "_semicolon"]),
  ("lexical_declaration", seq [
      field "kind" (words ["let", "const"]), commaSep1 "variable_declarator", "_semicolon"]),
  ("variable_declarator", seq [
      field "name" (alt ["identifier", "_destructuring_pattern"]), opt "_initializer"]),
  ("statement_block", right (seq [lit "\x7b", many "statement", lit "\x7d", opt "_automatic_semicolon"])),
  ("else_clause", seq [lit "else", "statement"]),
  ("if_statement", right (seq [
      lit "if", field "condition" "parenthesized_expression", field "consequence" "statement",
      opt (field "alternative" "else_clause")])),
  ("switch_statement", seq [
      lit "switch", field "value" "parenthesized_expression", field "body" "switch_body"]),
  ("for_statement", seq [
      lit "for", lit "(",
      alt [
        field "initializer" (alt ["lexical_declaration", "variable_declaration"]),
        seq [field "initializer" "_expressions", lit ";"], field "initializer" "empty_statement"],
      field "condition" (alt [seq ["_expressions", lit ";"], "empty_statement"]),
      field "increment" (opt "_expressions"), lit ")", field "body" "statement"]),
  ("for_in_statement", seq [lit "for", opt (lit "await"), "_for_header", field "body" "statement"]),
  ("_for_header", seq [
      lit "(",
      alt [
        field "left" (alt ["_lhs_expression", "parenthesized_expression"]),
        seq [
          field "kind" (lit "var"), field "left" (alt ["identifier", "_destructuring_pattern"]),
          opt "_initializer"],
        seq [
          field "kind" (words ["let", "const"]), field "left" (alt ["identifier", "_destructuring_pattern"]),
          opt "_automatic_semicolon"]],
      field "operator" (words ["in", "of"]), field "right" "_expressions", lit ")"]),
  ("while_statement", seq [
      lit "while", field "condition" "parenthesized_expression", field "body" "statement"]),
  ("do_statement", right (seq [
      lit "do", field "body" "statement", lit "while", field "condition" "parenthesized_expression",
      opt "_semicolon"])),
  ("try_statement", seq [
      lit "try", field "body" "statement_block", opt (field "handler" "catch_clause"),
      opt (field "finalizer" "finally_clause")]),
  ("with_statement", seq [lit "with", field "object" "parenthesized_expression", field "body" "statement"]),
  ("break_statement", seq [
      lit "break", field "label" (opt (shown "statement_identifier" "identifier")), "_semicolon"]),
  ("continue_statement", seq [
      lit "continue", field "label" (opt (shown "statement_identifier" "identifier")), "_semicolon"]),
  ("debugger_statement", seq [lit "debugger", "_semicolon"]),
  ("return_statement", seq [lit "return", opt "_expressions", "_semicolon"]),
  ("throw_statement", seq [lit "throw", "_expressions", "_semicolon"]),
  ("empty_statement", lit ";"),
  ("labeled_statement", weighted (-1) (seq [
      field "label" (shown "statement_identifier" (alt ["identifier", "_reserved_identifier"])), lit ":",
      field "body" "statement"])),
  ("switch_body", seq [lit "\x7b", many (alt ["switch_case", "switch_default"]), lit "\x7d"]),
  ("switch_case", seq [lit "case", field "value" "_expressions", lit ":", field "body" (many "statement")]),
  ("switch_default", seq [lit "default", lit ":", field "body" (many "statement")]),
  ("catch_clause", seq [
      lit "catch",
      opt (seq [lit "(", field "parameter" (alt ["identifier", "_destructuring_pattern"]), lit ")"]),
      field "body" "statement_block"]),
  ("finally_clause", seq [lit "finally", field "body" "statement_block"])]

end EnvAudit.Script.Grammar
