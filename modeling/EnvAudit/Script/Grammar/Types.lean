import EnvAudit.Script.Rule

/-!
# Types
-/
namespace EnvAudit.Script.Grammar

open Rule

/-- Annotations and types. -/
def typeRules : Rules := [
  ("omitting_type_annotation", seq [lit "-?:", "type"]),
  ("adding_type_annotation", seq [lit "+?:", "type"]),
  ("opting_type_annotation", seq [lit "?:", "type"]),
  ("type_annotation", seq [
      lit ":",
      alt [
        "type", shown "member_expression" "_type_query_member_expression_in_type_annotation",
        shown "call_expression" "_type_query_call_expression_in_type_annotation"]]),
  ("_type_query_member_expression_in_type_annotation", seq [
      field "object" (alt [
        "import", shown "member_expression" "_type_query_member_expression_in_type_annotation",
        shown "call_expression" "_type_query_call_expression_in_type_annotation"]),
      lit ".",
      field "property" (alt ["private_property_identifier", shown "property_identifier" "identifier"])]),
  ("_type_query_call_expression_in_type_annotation", seq [
      field "function" (alt [
        "import", shown "member_expression" "_type_query_member_expression_in_type_annotation"]),
      field "arguments" "arguments"]),
  ("asserts", seq [lit "asserts", alt ["type_predicate", "identifier", "this"]]),
  ("asserts_annotation", seq [seq [lit ":", "asserts"]]),
  ("type", alt [
      "primary_type", "function_type", "readonly_type", "constructor_type", "infer_type",
      numbered (-1) none (shown "member_expression" "_type_query_member_expression_in_type_annotation"),
      numbered (-1) none (shown "call_expression" "_type_query_call_expression_in_type_annotation")]),
  ("tuple_parameter", seq [field "name" (alt ["identifier", "rest_pattern"]), field "type" "type_annotation"]),
  ("optional_tuple_parameter", seq [field "name" "identifier", lit "?", field "type" "type_annotation"]),
  ("optional_type", seq ["type", lit "?"]),
  ("rest_type", seq [lit "...", "type"]),
  ("_tuple_type_member", alt [
      shown "required_parameter" "tuple_parameter", shown "optional_parameter" "optional_tuple_parameter",
      "optional_type", "rest_type", "type"]),
  ("constructor_type", left (seq [
      opt (lit "abstract"), lit "new", field "type_parameters" (opt "type_parameters"),
      field "parameters" "formal_parameters", lit "=>", field "type" "type"])),
  ("primary_type", alt [
      "parenthesized_type", "predefined_type", "_type_identifier", "nested_type_identifier", "generic_type",
      "object_type", "array_type", "tuple_type", "flow_maybe_type", "type_query", "index_type_query",
      shown "this_type" "this", "existential_type", "literal_type", "lookup_type", "conditional_type",
      "template_literal_type", "intersection_type", "union_type", lit "const"]),
  ("template_type", seq [lit "$\x7b", alt ["primary_type", "infer_type"], lit "\x7d"]),
  ("template_literal_type", seq [
      lit "`", many (alt [shown "string_fragment" "_template_chars", "template_type"]), lit "`"]),
  ("infer_type", right (seq [lit "infer", "_type_identifier", opt (seq [lit "extends", "type"])])),
  ("conditional_type", left (seq [
      field "left" "type", lit "extends", field "right" "type", lit "?", field "consequence" "type", lit ":",
      field "alternative" "type"])),
  ("generic_type", level "call" (seq [
      field "name" (alt ["_type_identifier", "nested_type_identifier"]),
      field "type_arguments" "type_arguments"])),
  ("type_predicate", seq [
      field "name" (alt ["identifier", "this", shown "identifier" "predefined_type"]), lit "is",
      field "type" "type"]),
  ("type_predicate_annotation", seq [seq [lit ":", "type_predicate"]]),
  ("_type_query_member_expression", seq [
      field "object" (alt [
        "identifier", "this", shown "subscript_expression" "_type_query_subscript_expression",
        shown "member_expression" "_type_query_member_expression",
        shown "call_expression" "_type_query_call_expression"]),
      words [".", "?."],
      field "property" (alt ["private_property_identifier", shown "property_identifier" "identifier"])]),
  ("_type_query_subscript_expression", seq [
      field "object" (alt [
        "identifier", "this", shown "subscript_expression" "_type_query_subscript_expression",
        shown "member_expression" "_type_query_member_expression",
        shown "call_expression" "_type_query_call_expression"]),
      opt (lit "?."), lit "[", field "index" (alt ["predefined_type", "string", "number"]), lit "]"]),
  ("_type_query_call_expression", seq [
      field "function" (alt [
        "import", "identifier", shown "member_expression" "_type_query_member_expression",
        shown "subscript_expression" "_type_query_subscript_expression"]),
      field "arguments" "arguments"]),
  ("_type_query_instantiation_expression", seq [
      field "function" (alt [
        "import", "identifier", shown "member_expression" "_type_query_member_expression",
        shown "subscript_expression" "_type_query_subscript_expression"]),
      field "type_arguments" "type_arguments"]),
  ("type_query", right (seq [
      lit "typeof",
      alt [
        shown "subscript_expression" "_type_query_subscript_expression",
        shown "member_expression" "_type_query_member_expression",
        shown "call_expression" "_type_query_call_expression",
        shown "instantiation_expression" "_type_query_instantiation_expression", "identifier", "this"]])),
  ("index_type_query", seq [lit "keyof", "primary_type"]),
  ("lookup_type", seq ["primary_type", lit "[", "type", lit "]"]),
  ("mapped_type_clause", seq [
      field "name" "_type_identifier", lit "in", field "type" "type",
      opt (seq [lit "as", field "alias" "type"])]),
  ("literal_type", alt [
      shown "unary_expression" "_number", "number", "string", "true", "false", "null", "undefined"]),
  ("_number", numbered 1 (some .left) (seq [field "operator" (words ["-", "+"]), field "argument" "number"])),
  ("existential_type", lit "*"),
  ("flow_maybe_type", right (seq [lit "?", "primary_type"])),
  ("parenthesized_type", seq [lit "(", "type", lit ")"]),
  ("predefined_type", alt [
      lit "any", lit "number", lit "boolean", lit "string", lit "symbol",
      shownWord "unique symbol" (seq [lit "unique", lit "symbol"]), lit "void", lit "unknown", lit "string",
      lit "never", lit "object"]),
  ("type_arguments", seq [lit "<", commaSep1 "type", opt (lit ","), lit ">"]),
  ("object_type", seq [
      words ["\x7b", "\x7b|"],
      opt (seq [
        opt (words [",", ";"]),
        sepBy1
          (alt [lit ",", "_semicolon"])
          (alt [
            "export_statement", "property_signature", "call_signature", "construct_signature",
            "index_signature", "method_signature"]),
        opt (alt [lit ",", "_semicolon"])]),
      words ["\x7d", "|\x7d"]]),
  ("call_signature", "_call_signature"),
  ("property_signature", seq [
      opt "accessibility_modifier", opt (lit "static"), opt "override_modifier", opt (lit "readonly"),
      field "name" "_property_name", opt (lit "?"), field "type" (opt "type_annotation")]),
  ("type_parameters", seq [lit "<", commaSep1 "type_parameter", opt (lit ","), lit ">"]),
  ("type_parameter", seq [
      opt (lit "const"), field "name" "_type_identifier", field "constraint" (opt "constraint"),
      field "value" (opt "default_type")]),
  ("default_type", seq [lit "=", "type"]),
  ("constraint", seq [words ["extends", ":"], "type"]),
  ("construct_signature", seq [
      opt (lit "abstract"), lit "new", field "type_parameters" (opt "type_parameters"),
      field "parameters" "formal_parameters", field "type" (opt "type_annotation")]),
  ("index_signature", seq [
      opt (seq [field "sign" (opt (words ["-", "+"])), lit "readonly"]), lit "[",
      alt [
        seq [
          field "name" (alt ["identifier", shown "identifier" "_reserved_identifier"]), lit ":",
          field "index_type" "type"],
        "mapped_type_clause"],
      lit "]",
      field "type" (alt [
        "type_annotation", "omitting_type_annotation", "adding_type_annotation", "opting_type_annotation"])]),
  ("array_type", seq ["primary_type", lit "[", lit "]"]),
  ("tuple_type", seq [lit "[", commaSep "_tuple_type_member", opt (lit ","), lit "]"]),
  ("readonly_type", seq [lit "readonly", "type"]),
  ("union_type", left (seq [opt "type", lit "|", "type"])),
  ("intersection_type", left (seq [opt "type", lit "&", "type"])),
  ("function_type", left (seq [
      field "type_parameters" (opt "type_parameters"), field "parameters" "formal_parameters", lit "=>",
      field "return_type" (alt ["type", "asserts", "type_predicate"])])),
  ("_type_identifier", shown "type_identifier" "identifier")]

end EnvAudit.Script.Grammar
