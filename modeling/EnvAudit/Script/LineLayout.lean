import EnvAudit.Script.Rule
import EnvAudit.Script.Source

/-!
# Tokens that the layout decides

A statement may end where a line ends, the text of a template runs up to its next mark, and a question mark
may begin a choice or an access. What such a token is depends on what may follow, and on what is expected.
-/
namespace EnvAudit.Script

namespace LineLayout

/-- What is expected, as far as the layout asks for it. -/
structure Wish where
  layout : Layout → Bool
  /-- An operator may follow. -/
  operator : Bool
  /-- The rest of a string may follow. -/
  escape : Bool
  /-- The body of a pattern may follow. -/
  pattern : Bool
  /-- Types may follow. -/
  typeAware : Bool

/-- A token that the layout decides, from `start` to `stop`. -/
structure Mark where
  kind : Layout
  start : Nat
  stop : Nat

def isBlank (c : Char) : Bool := c = ' ' || ('\x09' ≤ c && c ≤ '\x0d')

private def isLineEnd (c : Char) : Bool := c = '\n' || c = '\u2028' || c = '\u2029'

private def isLetter (c : Char) : Bool := c.isAlpha

/-! ## Templates and markup -/

/-- The end of a template's text: before its closing mark, an escape or a substitution. -/
private def templateEnd (source : Source) (place : Nat) : Option Nat :=
  if h : place < source.chars.size then
    let c := source.chars[place]
    if c = '\x60' || c = '\\' then some place
    else if c = '\x00' then none
    else if c = '$' && source.get (place + 1) = '\x7b' then some place
    else templateEnd source (place + 1)
  else none
termination_by source.chars.size - place

/-- The end of the text between two elements, and whether it holds more than line breaks with the blanks behind
them. -/
private def markupEnd (source : Source) (place : Nat) (broken holds : Bool) : Nat × Bool :=
  if h : place < source.chars.size then
    let c := source.chars[place]
    if c = '\x00' || c = '<' || c = '>' || c = '\x7b' || c = '\x7d' || c = '&' then (place, holds)
    else
      let broken := c = '\n' || (broken && isBlank c)
      markupEnd source (place + 1) broken (holds || !broken)
  else (place, holds)
termination_by source.chars.size - place

/-- A comment of the markup language, up to the end of its line. -/
private def markupComment (source : Source) (start place : Nat) : Option Mark :=
  let opening := source.skipWhile (fun c => isBlank c || c = '\u2028' || c = '\u2029') place
  let start := if opening = place then start else opening
  let word := if source.get opening = '<' then "<!--" else "-->"
  if source.startsWith word.toList opening then
    let stop := source.skipWhile (fun c => c ≠ '\x00' && !isLineEnd c) (opening + word.length)
    some { kind := .markupComment, start, stop }
  else none

/-- A question mark that begins a choice. -/
private def ternaryMark (source : Source) (typeAware : Bool) (start place : Nat) : Option Mark :=
  let opening := source.skipWhile isBlank place
  let start := if opening = place then start else opening
  if source.get opening ≠ '?' || source.get (opening + 1) = '?' then none
  else
    let stop := opening + 1
    let next := if typeAware then source.skipWhile isBlank stop else stop
    let c := source.get next
    if typeAware && (c = ':' || c = ')' || c = ',') then none
    else if c = '.' && !(source.get (next + 1)).isDigit then none
    else some { kind := .ternaryMark, start, stop }

/-! ## The ends of statements -/

/-- How far was read, the answer, and whether a comment was met. -/
private structure Answer where
  ends : Bool
  place : Nat
  comment : Bool

/-- The place behind a block comment, from inside of it, and whether it was closed and held a line break. -/
private def blockEnd (source : Source) (place : Nat) (breaks : Bool) : Nat × Bool × Bool :=
  if h : place < source.chars.size then
    let c := source.chars[place]
    if c = '\x00' then (place, false, breaks)
    else if c = '*' && source.get (place + 1) = '/' then (place + 2, true, breaks)
    else blockEnd source (place + 1) (breaks || isLineEnd c)
  else (place, false, breaks)
termination_by source.chars.size - place

/-- Whether a word continues an expression that began on an earlier line. -/
private def continues (source : Source) (place : Nat) : Bool × Nat :=
  let next := source.get (place + 1)
  match source.get place with
  | '+' => (next ≠ '+', place + 1)
  | '-' => (next ≠ '-', place + 1)
  | '!' => (next = '=', place + 1)
  | 'i' =>
    if next ≠ 'n' then (false, place + 1)
    else if !isLetter (source.get (place + 2)) then (true, place + 2)
    else
      let tail := "stanceof".toList
      if source.startsWith tail (place + 2) then (!isLetter (source.get (place + 10)), place + 10)
      else (false, place + 2)
  | _ => (false, place)

private def answer (continued : Bool × Nat) (comment : Bool) : Answer :=
  { ends := !continued.1, place := continued.2, comment }

/-- The place behind white space and comments, none behind a lone slash; and whether a line comment was met. -/
private def skipTyped (source : Source) : Nat → Nat → Bool → Bool × Nat × Bool
  | 0, place, comment => (true, place, comment)
  | fuel + 1, place, comment =>
    let place := source.skipWhile isBlank place
    if source.get place ≠ '/' then (true, place, comment)
    else
      match source.get (place + 1) with
      | '/' => skipTyped source fuel (source.skipWhile (fun c => c ≠ '\x00' && c ≠ '\n') (place + 2)) true
      | '*' => skipTyped source fuel (blockEnd source (place + 2) false).1 comment
      | _ => (false, place + 1, comment)

/-- The end of a statement where types may stand. -/
private def typedEnd (source : Source) (wish : Wish) (place : Nat) : Answer :=
  let near := source.skipWhile (fun c => isBlank c && c ≠ '\n') place
  match source.get near with
  | '\x00' => ⟨true, near, false⟩
  | '\x7d' =>
    let behind := source.skipWhile isBlank (near + 1)
    ⟨if source.get behind = ':' then wish.operator else true, behind, false⟩
  | '\n' =>
    let (open_, place, comment) := skipTyped source (source.size + 1) (near + 1) false
    if !open_ then ⟨false, place, comment⟩
    else
      let c := source.get place
      if c ≠ '\x00' && "\x60,.;*%><=?^|&/:".contains c then ⟨false, place, comment⟩
      else if c = '\x7b' then ⟨!wish.layout .signatureSemicolon, place, comment⟩
      else if c = '(' || c = '[' then ⟨!wish.operator, place, comment⟩
      else answer (continues source place) comment
  | _ => ⟨false, near, false⟩

/-- What stands behind white space and comments: a slash alone, the same line, or anything. -/
private inductive Behind where
  | slash
  | sameLine
  | free

/-- Skips white space and comments; unless `all`, stops behind a block comment. -/
private def skipUntyped (source : Source) (all : Bool) : Nat → Nat → Bool → Bool → Behind × Nat × Bool
  | 0, place, _, comment => (.free, place, comment)
  | fuel + 1, place, broken, comment =>
    let place := source.skipWhile isBlank place
    if source.get place ≠ '/' then (.free, place, comment)
    else
      match source.get (place + 1) with
      | '/' =>
        skipUntyped source all fuel
          (source.skipWhile (fun c => c ≠ '\x00' && !isLineEnd c) (place + 2)) broken true
      | '*' =>
        let (behind, closed, broken) := blockEnd source (place + 2) broken
        if closed && !all && source.get behind ≠ '/' then
          (if broken then .free else .sameLine, behind, true)
        else skipUntyped source all fuel behind broken (comment || closed)
      | _ => (.slash, place + 1, comment)

/-- The end of a statement of the untyped language behind the end of a line. -/
private def untypedBelow (source : Source) (place : Nat) (comment : Bool) : Answer :=
  let (behind, place, below) := skipUntyped source true (source.size + 1) place false false
  let comment := comment || below
  match behind with
  | .slash => ⟨false, place, comment⟩
  | _ =>
    let c := source.get place
    if c ≠ '\x00' && "\x60,:;*%><=[(?^|&/".contains c then ⟨false, place, comment⟩
    else if c = '.' then ⟨(source.get (place + 1)).isDigit, place + 1, comment⟩
    else answer (continues source place) comment

/-- The end of a statement of the untyped language. -/
private def untypedEnd (source : Source) (wish : Wish) : Nat → Nat → Bool → Answer
  | 0, place, comment => ⟨false, place, comment⟩
  | fuel + 1, place, comment =>
    if source.get place = '\x00' then ⟨true, place, comment⟩
    else
      let (behind, next, met) :=
        if source.get place = '/' then skipUntyped source false (source.size + 1) place false false
        else (.sameLine, place, false)
      let comment := comment || met
      let c := source.get next
      match behind with
      | .slash => ⟨false, next, comment⟩
      | behind =>
        let free := match behind with
          | .free => true
          | _ => false
        if free && !wish.operator && c ≠ ',' && c ≠ '=' then ⟨true, next, comment⟩
        else if c = '\x7d' then ⟨true, next, comment⟩
        else if isLineEnd c then untypedBelow source (next + 1) comment
        else if isBlank c then untypedEnd source wish fuel (next + 1) comment
        else ⟨false, next, comment⟩

private def statementEnd (source : Source) (wish : Wish) (place : Nat) : Answer :=
  if wish.typeAware then typedEnd source wish place
  else untypedEnd source wish (source.size + 1) place false

/-! ## All together -/

private def afterText (source : Source) (wish : Wish) (start place : Nat) : Option Mark :=
  if wish.layout .semicolon || (wish.typeAware && wish.layout .signatureSemicolon) then
    let answer := statementEnd source wish place
    if answer.ends then some { kind := .semicolon, start := place, stop := place }
    else if !answer.comment && wish.layout .ternaryMark && source.get answer.place = '?' then
      ternaryMark source wish.typeAware answer.place answer.place
    else none
  else if wish.layout .ternaryMark then ternaryMark source wish.typeAware start place
  else if wish.layout .markupComment && !wish.operator && !wish.escape && !wish.pattern then
    markupComment source start place
  else none

/-- The token that the layout puts at a place. -/
def scan (source : Source) (wish : Wish) (place : Nat) : Option Mark :=
  let place := source.skipMark place
  if wish.layout .templateText then
    if wish.layout .semicolon then none
    else
      match templateEnd source place with
      | some stop => if place < stop then some { kind := .templateText, start := place, stop } else none
      | none => none
  else if wish.layout .markupText then
    let (stop, holds) := markupEnd source place false false
    if holds then some { kind := .markupText, start := place, stop } else afterText source wish place stop
  else afterText source wish place place

end LineLayout

end EnvAudit.Script
