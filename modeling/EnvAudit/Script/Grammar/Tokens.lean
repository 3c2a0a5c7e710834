import EnvAudit.Script.Rule

/-!
# Tokens with a pattern
-/
namespace EnvAudit.Script.Grammar

open Pattern

/-- A token that may follow white space and comments. -/
private def loose (pattern : Pattern) : Rule := .token { pattern }

/-- A token that continues the previous one. -/
private def tight (precedence : Int) (pattern : Pattern) : Rule :=
  .token { pattern, immediate := true, precedence }

private def lineEnd : CharClass := .ofString "\r\n\u2028\u2029"

private def anyButNewline : Pattern := .one (CharClass.ofString "\n").except

def hashBangLine : Rule := loose (allOf [word "#!", .many anyButNewline])

private def unicodeEscape : Pattern :=
  .alt (allOf [word "\\u", times (.one .hexDigit) 4])
    (allOf [word "\\u\x7b", many1 (.one .hexDigit), word "\x7d"])

/-- What no name holds: control characters, white space, invisible marks and most punctuation. -/
def outsideName : CharClass :=
  CharClass.range '\x00' '\x1f' ++ .separator ++ .ofString ":;`\"'@#.,|^&<=>+-*/\\%?!~()[]\x7b\x7d"

private def nameStart : Pattern := .alt (.one (outsideName ++ .digit).except) unicodeEscape

private def nameRest : Pattern := .many (.alt (.one outsideName.except) unicodeEscape)

def identifier : Rule := loose (.seq nameStart nameRest)

def privateName : Rule := loose (allOf [word "#", nameStart, nameRest])

/-- A name with a hyphen, as elements and attributes of the markup have. -/
def markupName : Rule :=
  let start := CharClass.range 'a' 'z' ++ .range 'A' 'Z' ++ .ofString "_$"
  loose (allOf
    [.one start, .many (.one (start ++ .digit)), word "-", .many (.one (start ++ .digit ++ .ofString "-"))])

def characterReference : Rule :=
  let letter := CharClass.range 'a' 'z' ++ .range 'A' 'Z'
  loose (allOf
    [word "&",
      .alt
        (allOf [word "#", .alt (allOf [chars "xX", upTo (.one .hexDigit) 6]) (upTo (.one .digit) 5)])
        (upTo (.one letter) 30),
      word ";"])

/-- Text of an attribute up to its quote or to a character reference. -/
def attributeText (quote : String) : Rule :=
  let letter := CharClass.range 'a' 'z' ++ .range 'A' 'Z'
  tight 1 (many1 (.alt
    (.one (CharClass.ofString (quote ++ "&")).except)
    (allOf [word "&", .one (letter ++ .ofString "#").except])))

/-- Text of a string up to its quote, an escape or the end of the line. -/
def stringText (quote : String) : Rule :=
  tight 1 (many1 (.one (CharClass.ofString (quote ++ "\\\r\n")).except))

def escapeSequence : Rule :=
  tight 0 (allOf
    [word "\\",
      anyOf
        [.one (CharClass.ofString "xu" ++ .range '0' '7').except,
          upTo (.one (.range '0' '7')) 3,
          allOf [word "x", times (.one .hexDigit) 2],
          allOf [word "u", times (.one .hexDigit) 4],
          allOf [word "u\x7b", many1 (.one .hexDigit), word "\x7d"],
          allOf [chars "\r?", chars "\n\u2028\u2029"]]])

def comment : Rule :=
  let notStar := Pattern.many (.one (CharClass.ofString "*").except)
  loose (.alt
    (allOf [word "//", .many (.one lineEnd.except)])
    (allOf
      [word "/*", notStar, many1 (word "*"),
        .many (allOf [.one (CharClass.ofString "/*").except, notStar, many1 (word "*")]),
        word "/"]))

def regexBody : Rule :=
  let escaped := allOf [word "\\", anyButNewline]
  tight (-1) (many1 (anyOf
    [allOf [word "[", .many (.alt escaped (.one (CharClass.ofString "]\n\\").except)), word "]"],
      escaped,
      .one (CharClass.ofString "/\\[\n").except]))

def regexEnd : Rule :=
  .token { pattern := word "/", immediate := true, precedence := 1, label := "/" }

def regexFlags : Rule := tight 0 (many1 (.one (.range 'a' 'z')))

/-- Digits of a class, with single underscores between them. -/
private def digits (cls : CharClass) : Pattern :=
  allOf [.one cls, .many (allOf [opt (word "_"), .one cls])]

def number : Rule :=
  let decimal := digits .digit
  let based (mark : String) (cls : CharClass) := allOf [word "0", chars mark, digits cls]
  let hex := based "xX" .hexDigit
  let binary := based "bB" (.range '0' '1')
  let octal := based "oO" (.range '0' '7')
  let exponent := allOf [chars "eE", opt (chars "-+"), decimal]
  let whole := Pattern.alt (word "0")
    (allOf [opt (word "0"), .one (.range '1' '9'), opt (allOf [opt (word "_"), decimal])])
  loose (anyOf
    [hex,
      allOf [whole, word ".", opt decimal, opt exponent],
      allOf [word ".", decimal, opt exponent],
      allOf [whole, exponent],
      decimal,
      binary,
      octal,
      allOf [anyOf [hex, binary, octal, decimal], word "n"]])

/-- The words `static get` with a line break after them. -/
def staticGet : Rule :=
  loose (allOf
    [word "static", many1 (.one .blank), word "get", .many (.one .blank), word "\n"])

end EnvAudit.Script.Grammar
