import EnvAudit.Script.Grammar.Tokens

/-!
# Markup inside expressions
-/
namespace EnvAudit.Script.Grammar

open Rule

/-- Elements, attributes and their text. -/
def markupRules : Rules := [
  ("_jsx_element", alt ["jsx_element", "jsx_self_closing_element"]),
  ("jsx_element", seq [
      field "open_tag" "jsx_opening_element", many "_jsx_child", field "close_tag" "jsx_closing_element"]),
  ("html_character_reference", characterReference),
  ("jsx_expression", seq [
      lit "\x7b", opt (alt ["expression", "sequence_expression", "spread_element"]), lit "\x7d"]),
  ("_jsx_child", alt ["jsx_text", "html_character_reference", "_jsx_element", "jsx_expression"]),
  ("jsx_opening_element", weighted (-1) (seq [
      lit "<", opt (seq [field "name" "_jsx_element_name", many (field "attribute" "_jsx_attribute")]),
      lit ">"])),
  ("jsx_identifier", markupName),
  ("_jsx_identifier", alt [shown "identifier" "jsx_identifier", "identifier"]),
  ("nested_identifier", level "member" (seq [
      field "object" (alt ["identifier", shown "member_expression" "nested_identifier"]), lit ".",
      field "property" (shown "property_identifier" "identifier")])),
  ("jsx_namespace_name", seq ["_jsx_identifier", lit ":", "_jsx_identifier"]),
  ("_jsx_element_name", alt [
      "_jsx_identifier", shown "member_expression" "nested_identifier", "jsx_namespace_name"]),
  ("jsx_closing_element", seq [lit "</", opt (field "name" "_jsx_element_name"), lit ">"]),
  ("jsx_self_closing_element", seq [
      lit "<", field "name" "_jsx_element_name", many (field "attribute" "_jsx_attribute"), lit "/>"]),
  ("_jsx_attribute", alt ["jsx_attribute", "jsx_expression"]),
  ("_jsx_attribute_name", alt [shown "property_identifier" "_jsx_identifier", "jsx_namespace_name"]),
  ("jsx_attribute", seq ["_jsx_attribute_name", opt (seq [lit "=", "_jsx_attribute_value"])]),
  ("_jsx_string", alt [
      seq [
        lit "\"",
        many (alt [
          shown "string_fragment" "unescaped_double_jsx_string_fragment", "html_character_reference"]),
        lit "\""],
      seq [
        lit "'",
        many (alt [
          shown "string_fragment" "unescaped_single_jsx_string_fragment", "html_character_reference"]),
        lit "'"]]),
  ("unescaped_double_jsx_string_fragment", attributeText "\""),
  ("unescaped_single_jsx_string_fragment", attributeText "'"),
  ("_jsx_attribute_value", alt [shown "string" "_jsx_string", "jsx_expression", "_jsx_element"])]

end EnvAudit.Script.Grammar
