import EnvAudit.Script.Grammar.Tokens

/-!
# Literals and names
-/
namespace EnvAudit.Script.Grammar

open Rule

/-- Strings, comments, templates, patterns, numbers and names. -/
def literalRules : Rules := [
  ("string", alt [
      seq [
        lit "\"", many (alt [shown "string_fragment" "unescaped_double_string_fragment", "escape_sequence"]),
        lit "\""],
      seq [
        lit "'", many (alt [shown "string_fragment" "unescaped_single_string_fragment", "escape_sequence"]),
        lit "'"]]),
  ("unescaped_double_string_fragment", stringText "\""),
  ("unescaped_single_string_fragment", stringText "'"),
  ("escape_sequence", escapeSequence),
  ("comment", comment),
  ("template_string", seq [
      lit "`",
      many (alt [shown "string_fragment" "_template_chars", "escape_sequence", "template_substitution"]),
      lit "`"]),
  ("template_substitution", seq [lit "$\x7b", "_expressions", lit "\x7d"]),
  ("regex", seq [
      lit "/", field "pattern" "regex_pattern", regexEnd,
      opt (field "flags" "regex_flags")]),
  ("regex_pattern", regexBody),
  ("regex_flags", regexFlags),
  ("number", number),
  ("_identifier", alt ["undefined", "identifier"]),
  ("identifier", identifier),
  ("private_property_identifier", privateName),
  ("meta_property", alt [seq [lit "new", lit ".", lit "target"], seq [lit "import", lit ".", lit "meta"]]),
  ("this", lit "this"),
  ("super", lit "super"),
  ("true", lit "true"),
  ("false", lit "false"),
  ("null", lit "null"),
  ("undefined", lit "undefined")]

end EnvAudit.Script.Grammar
