import EnvAudit.Script.Grammar.Tokens

/-!
# Programs, imports and exports
-/
namespace EnvAudit.Script.Grammar

open Rule

/-- A program and what it shares with other modules. -/
def programRules : Rules := [
  ("program", seq [opt "hash_bang_line", many "statement"]),
  ("hash_bang_line", hashBangLine),
  ("export_statement", alt [
      seq [
        lit "export",
        alt [
          seq [lit "*", "_from_clause"], seq ["namespace_export", "_from_clause"],
          seq ["export_clause", "_from_clause"], "export_clause"],
        "_semicolon"],
      seq [
        many (field "decorator" "decorator"), lit "export",
        alt [
          field "declaration" "declaration",
          seq [
            lit "default",
            alt [field "declaration" "declaration", seq [field "value" "expression", "_semicolon"]]]]]]),
  ("namespace_export", seq [lit "*", lit "as", "_module_export_name"]),
  ("export_clause", seq [lit "\x7b", commaSep "export_specifier", opt (lit ","), lit "\x7d"]),
  ("export_specifier", seq [
      field "name" "_module_export_name", opt (seq [lit "as", field "alias" "_module_export_name"])]),
  ("_module_export_name", alt ["identifier", "string", lit "default"]),
  ("declaration", alt [
      "function_declaration", "generator_function_declaration", "class_declaration", "lexical_declaration",
      "variable_declaration"]),
  ("import", lit "import"),
  ("import_statement", seq [
      lit "import", alt [seq ["import_clause", "_from_clause"], field "source" "string"],
      opt "import_attribute", "_semicolon"]),
  ("import_clause", alt [
      "namespace_import", "named_imports",
      seq ["identifier", opt (seq [lit ",", alt ["namespace_import", "named_imports"]])]]),
  ("_from_clause", seq [lit "from", field "source" "string"]),
  ("namespace_import", seq [lit "*", lit "as", "identifier"]),
  ("named_imports", seq [lit "\x7b", commaSep "import_specifier", opt (lit ","), lit "\x7d"]),
  ("import_specifier", alt [
      field "name" "identifier",
      seq [field "name" "_module_export_name", lit "as", field "alias" "identifier"]]),
  ("import_attribute", seq [lit "with", "object"])]

end EnvAudit.Script.Grammar
