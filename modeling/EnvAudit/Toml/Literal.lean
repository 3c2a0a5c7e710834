import EnvAudit.Toml.Reader

/-!
# TOML strings and keys

Strings in one line or several, with escapes or without; keys, bare or as strings in one line.
-/
namespace EnvAudit.Toml.Reader

/-! ## Characters -/

private def hexValue (c : Char) : Nat :=
  if c.isDigit then c.toNat - '0'.toNat
  else if 'a' ≤ c then c.toNat - 'a'.toNat + 10
  else c.toNat - 'A'.toNat + 10

def isHexDigit (c : Char) : Bool := c.isDigit || ('a' ≤ c && c ≤ 'f') || ('A' ≤ c && c ≤ 'F')

private def valueOf (base : Nat) (digits : List Char) : Nat :=
  digits.foldl (fun value digit => value * base + hexValue digit) 0

/-- The character with a code in so many hexadecimal digits. -/
def charOfCode (count : Nat) : Reader Char :=
  labelled s!"unicode {count}-digit hex code" <| firmly <|
    checked (fun digits =>
      let code := valueOf 16 digits
      if code.isValidChar then .ok (Char.ofNat code) else .error "value is out of range")
      (takeExactly count isHexDigit)

def escapeLetters : List String := ["b", "f", "n", "r", "t", "u", "U", "\\", "\""].map fun letter => s!"\x60{letter}\x60"

/-- An escape in a string. -/
def escape : Reader Char := do
  char '\\'
  let start ← offset
  match ← next with
  | 'b' => return '\x08'
  | 'f' => return '\x0c'
  | 'n' => return '\n'
  | 'r' => return '\r'
  | 't' => return '\t'
  | 'u' => charOfCode 4
  | 'U' => charOfCode 8
  | '\\' => return '\\'
  | '"' => return '"'
  | c =>
    labelled "escape sequence" <| expecting escapeLetters <| firmly <|
      failAt (if c.utf8Size = 1 then start + 1 else start)

/-- What stands for itself between double quotes. -/
def isBasic (c : Char) : Bool := isShown c && c ≠ '"' && c ≠ '\\'

/-- What stands for itself between single quotes. -/
def isLiteral (c : Char) : Bool := isShown c && c ≠ '\''

/-! ## Strings in one line -/

def basicPart : Reader (List Char) := orElse (takeSome isBasic) (do return [← escape])

def basicString : Reader String := do
  char '"'
  let parts ← many basicPart
  labelled "basic string" (firmly (char '"'))
  return String.ofList parts.flatten

def literalString : Reader String :=
  labelled "literal string" do
    char '\''
    let text ← takeAll isLiteral
    firmly (char '\'')
    return String.ofList text

/-! ## Strings in several lines -/

/-- One or two quotes with something behind them. -/
def quotesBefore (quote : Char) (behind : Reader Unit) : Reader (List Char) := do
  let followed (quotes : List Char) : Reader (List Char) := do
    literal (String.ofList quotes)
    let cursor ← get
    behind
    set cursor
    return quotes
  orElse (followed [quote, quote]) (followed [quote])

private def triple (quote : Char) : Reader Unit := literal (String.ofList [quote, quote, quote])

private def breakChar : Reader (List Char) := do
  newLine
  return ['\n']

/-- A backslash at the end of a line, which joins it with the next text. -/
private def joinedLine : Reader Unit := do
  char '\\'
  blanks
  newLine
  discard (many (orElse (discard (takeSome isBlank)) newLine))

private def longBasicPart : Reader (List Char) :=
  orElse (takeSome isBasic) <| orElse (do joinedLine; return []) <| orElse breakChar (do return [← escape])

private def longLiteralPart : Reader (List Char) := orElse (takeSome isLiteral) breakChar

def longBasicString : Reader String :=
  labelled "multiline basic string" do
    triple '"'
    discard (optional newLine)
    firmly do
      let first ← many longBasicPart
      let more ← many do
        let quotes ← quotesBefore '"' (discard (one (· ≠ '"')))
        let parts ← many longBasicPart
        return quotes ++ parts.flatten
      let last ← optional (quotesBefore '"' (triple '"'))
      triple '"'
      return String.ofList (first.flatten ++ more.flatten ++ last.getD [])

def longLiteralString : Reader String :=
  labelled "multiline literal string" do
    triple '\''
    discard (optional newLine)
    firmly do
      let first ← many longLiteralPart
      let more ← many do
        let quotes ← quotesBefore '\'' (discard (one (· ≠ '\'')))
        let part ← longLiteralPart
        let parts ← many longLiteralPart
        return quotes ++ part ++ parts.flatten
      let last ← optional (quotesBefore '\'' (triple '\''))
      triple '\''
      return String.ofList (first.flatten ++ more.flatten ++ last.getD [])

/-- A string of any form. -/
def string : Reader String := do
  if ← startsWith "\"\"\"" then longBasicString
  else if ← startsWith "\"" then basicString
  else if ← startsWith "'''" then longLiteralString
  else literalString

/-! ## Keys -/

def isBare (c : Char) : Bool := c.isAlphanum || c = '-' || c = '_'

def simpleKey : Reader Key := do
  let (name, span) ← spanned do
    match ← peek? with
    | some '"' => basicString
    | some '\'' => literalString
    | _ => return String.ofList (← takeSome isBare)
  return { name, span }

/-- The most parts of a key, and the most values inside of each other, with the next one. -/
def mostLevels : Nat := 80

def tooDeep : String := "recursion limit exceeded"

/-- A key with its parts, separated by dots. -/
def key : Reader (List Key) := do
  let start ← offset
  let parts ← labelled "key" <| separated (char '.') do
    blanks
    let part ← simpleKey
    blanks
    return part
  if mostLevels ≤ parts.length then refuse start tooDeep else return parts

end EnvAudit.Toml.Reader

namespace EnvAudit.Toml.Key

private def codeOf (c : Char) : List Char :=
  let digits := (Nat.toDigits 16 c.toNat).map Char.toUpper
  '\\' :: 'u' :: List.replicate (4 - digits.length) '0' ++ digits

private def escaped (c : Char) : List Char :=
  match c with
  | '\x08' => ['\\', 'b']
  | '\t' => ['\\', 't']
  | '\n' => ['\\', 'n']
  | '\x0c' => ['\\', 'f']
  | '\r' => ['\\', 'r']
  | '"' => ['\\', '"']
  | '\\' => ['\\', '\\']
  | c => if Reader.isShown c then [c] else codeOf c

/-- A key as it is written, with quotes only where it needs them. -/
def written (key : Key) : String :=
  let chars := key.name.toList
  if chars ≠ [] && chars.all Reader.isBare then key.name
  else if chars.all Reader.isLiteral && chars.any (fun c => c = '"' || c = '\\') then
    String.ofList ('\'' :: chars ++ ['\''])
  else String.ofList ('"' :: chars.flatMap escaped ++ ['"'])

/-- A key of several parts. -/
def writtenPath (path : List Key) : String := ".".intercalate (path.map written)

end EnvAudit.Toml.Key
