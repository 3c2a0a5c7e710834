import EnvAudit.Toml.Item
import EnvAudit.Text.Utf8

/-!
# Excerpts

The line of a text that a span begins in, with marks under the span.
-/
namespace EnvAudit.Toml

namespace Excerpt

/-- Where a byte is: the lines before it, and the characters before it in its line. A place behind the text counts
from its last byte on. A place in front of a character of several bytes counts bytes. -/
structure Location where
  line : Nat
  column : Nat
  deriving DecidableEq, Repr

private def lineFeed : UInt8 := 10

def locate (text : Bytes) (offset : Nat) : Location :=
  if text.isEmpty then ⟨0, offset⟩
  else
    let index := min offset (text.length - 1)
    let before := text.take index
    let inLine := (before.reverse.takeWhile (· ≠ lineFeed)).reverse
    let line := before.count lineFeed
    let upTo := inLine ++ (text.drop index).take 1
    let column := match Text.Utf8.decode? upTo with
      | some line => line.length - 1
      | none => inLine.length
    ⟨line, column + (offset - index)⟩

/-- The bytes of a line. -/
def lineAt : Nat → Bytes → Bytes
  | 0, text => text.takeWhile (· ≠ lineFeed)
  | line + 1, text => lineAt line ((text.dropWhile (· ≠ lineFeed)).drop 1)

private def blanks (count : Nat) : String := String.ofList (List.replicate count ' ')

/-- Four lines: the place, an empty one, the line in question and the marks under it, at least one. -/
def render (text : String) (span : Span) : String :=
  let bytes := Text.Utf8.encode text
  let place := locate bytes span.start
  let content := lineAt place.line bytes
  let number := toString (place.line + 1)
  let margin := blanks (number.length + 1) ++ "|"
  let marks := max 1 (min (span.stop - span.start) (content.length - place.column))
  s!"TOML parse error at line {number}, column {place.column + 1}\n" ++
    margin ++ "\n" ++
    number ++ " | " ++ Text.Utf8.lossy content ++ "\n" ++
    margin ++ blanks (place.column + 1) ++ String.ofList (List.replicate marks '^') ++ "\n"

end Excerpt

/-- What is wrong in a document, and where. -/
structure Flaw where
  span : Option Span
  reason : String
  deriving DecidableEq, Repr

namespace Flaw

/-- The flaw with the line that it is in. -/
def render (flaw : Flaw) (text : String) : String :=
  (match flaw.span with
  | some span => Excerpt.render text span
  | none => "") ++ flaw.reason ++ "\n"

end Flaw

end EnvAudit.Toml
