import EnvAudit.Text.Blank
import EnvAudit.KeyList

/-!
# Declaration files

The text of a declaration file and the entries that it declares. A line declares an entry when it begins with a
key and a separator; the value may stand between quotes and then run over several lines. All other lines declare
nothing.
-/
namespace EnvAudit.Declaration

open EnvAudit.Text (isBlank trim)

/-! ## Lines -/

/-- Writes every carriage return with a line feed behind it as the line feed alone, behind what was read. -/
def joinPairsOnto (read : List Char) : List Char → List Char
  | [] => read.reverse
  | '\r' :: '\n' :: rest => joinPairsOnto ('\n' :: read) rest
  | c :: rest => joinPairsOnto (c :: read) rest

/-- A carriage return as a line feed. -/
def fed (c : Char) : Char := if c = '\r' then '\n' else c

/-- Writes every line break of a text as one line feed: first the pairs, then the carriage returns that are left. -/
def normalizeBreaks (text : List Char) : List Char := (joinPairsOnto [] text).map fed

/-- The text without a byte order mark, with line feeds alone. -/
def normalize (text : List Char) : List Char :=
  match text with
  | '\ufeff' :: rest => normalizeBreaks rest
  | text => normalizeBreaks text

/-! ## Parts of an entry -/

def isKeyChar (c : Char) : Bool := c.isAlphanum || c = '_' || c = '.' || c = '-'

/-- The text behind a key's separator: an equals sign, white space before it allowed, or a colon and one white
space. -/
def separator? (text : List Char) : Option (List Char) :=
  match text with
  | ':' :: c :: rest => if isBlank c then some rest else none
  | text =>
    match text.dropWhile isBlank with
    | '=' :: rest => some rest
    | _ => none

/-- A key with its separator, and the text behind them. -/
def key? (text : List Char) : Option (List Char × List Char) :=
  match text.takeWhile isKeyChar with
  | [] => none
  | key => (separator? (text.dropWhile isKeyChar)).map fun rest => (key, rest)

def exportWord : List Char := "export".toList

/-- The text behind the word `export` and white space. -/
def afterExport? (text : List Char) : Option (List Char) :=
  if exportWord.isPrefixOf text then
    match text.drop exportWord.length with
    | c :: rest => if isBlank c then some (rest.dropWhile isBlank) else none
    | [] => none
  else none

/-- A key with its separator at the beginning of an entry; the word `export` may stand before it, and is a key
itself where none follows. -/
def opening? (text : List Char) : Option (List Char × List Char) :=
  ((afterExport? text).bind key?).or (key? text)

/-- The text behind an entry that is complete: a comment may follow, and the line must end. -/
def ending? (text : List Char) : Option (List Char) :=
  match text.dropWhile isBlank with
  | [] => some []
  | c :: rest =>
    if c = '#' then some (rest.dropWhile (· ≠ '\n'))
    else if (text.takeWhile isBlank).contains '\n' then some (c :: rest)
    else none

def isQuote (c : Char) : Bool := c = '\'' || c = '"' || c = '\x60'

/-- A value up to its closing quote, from behind the opening one, and the text behind the entry. The first quote
without a backslash before it closes the value if the entry may end there; otherwise the last one before it with
which the entry may end does. -/
def closing? (quote : Char) (escaped : Bool) (read : List Char) (found : Option (List Char × List Char)) :
    List Char → Option (List Char × List Char)
  | [] => found
  | c :: rest =>
    if c = quote then
      let here := ((ending? rest).map fun behind => (read, behind)).or found
      if escaped then closing? quote false (c :: read) here rest else here
    else closing? quote (c = '\\') (c :: read) found rest

/-- Writes a character for each escape with `letter`, behind what was read. -/
def expandOnto (letter char : Char) (read : List Char) : List Char → List Char
  | [] => read.reverse
  | '\\' :: c :: rest =>
    if c = letter then expandOnto letter char (char :: read) rest
    else expandOnto letter char ('\\' :: read) (c :: rest)
  | c :: rest => expandOnto letter char (c :: read) rest

/-- Writes a character for each escape with `letter`. -/
def expand (letter char : Char) (text : List Char) : List Char := expandOnto letter char [] text

/-- What stands between quotes; escapes of line breaks count in double quotes only. -/
def unquoted (quote : Char) (text : List Char) : List Char :=
  if quote = '"' then expand 'r' '\r' (expand 'n' '\n' text) else text

/-- A value without its outer quotes. -/
def unquote (text : List Char) : List Char :=
  match text with
  | quote :: rest =>
    if isQuote quote && rest.getLast? = some quote then unquoted quote rest.dropLast else text
  | [] => []

/-- A value that is not closed by a quote: the line up to a comment. -/
def plainValue (text : List Char) : List Char × List Char :=
  let rest := text.dropWhile fun c => c ≠ '#' && c ≠ '\n'
  (unquote (trim (text.takeWhile fun c => c ≠ '#' && c ≠ '\n')), (ending? rest).getD rest)

/-- The value behind a separator, and the text behind the entry. -/
def value (text : List Char) : List Char × List Char :=
  match text.dropWhile isBlank with
  | quote :: rest =>
    if isQuote quote then
      match closing? quote false [] none rest with
      | some (read, behind) => (unquoted quote read.reverse, behind)
      | none => plainValue text
    else plainValue text
  | [] => plainValue text

/-! ## Entries -/

/-- Keys with their values; a key that is declared again keeps its place and takes the new value. -/
abbrev Entries := List (String × String)

def Entries.put (entries : Entries) (key value : String) : Entries :=
  if entries.any fun entry => entry.1 = key then
    entries.map fun entry => if entry.1 = key then (key, value) else entry
  else entries ++ [(key, value)]

/-- Reads entries; a text that begins no entry is passed over up to the end of its line. -/
def readOnto : Nat → Entries → List Char → Entries
  | 0, entries, _ => entries
  | fuel + 1, entries, text =>
    match text.dropWhile isBlank with
    | [] => entries
    | line =>
      match opening? line with
      | some (key, rest) =>
        let (found, behind) := value rest
        readOnto fuel (entries.put (String.ofList key) (String.ofList found)) behind
      | none => readOnto fuel entries (line.dropWhile (· ≠ '\n'))

/-- The entries of a declaration file. Every entry takes at least one character, so there are no more of them. -/
def entries (text : String) : Entries :=
  let normal := normalize text.toList
  readOnto normal.length [] normal

def keys (text : String) : KeyList := KeyList.ofList ((entries text).map Prod.fst)

end EnvAudit.Declaration
