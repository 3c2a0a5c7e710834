import EnvAudit.Script.Language
import EnvAudit.Script.Source

/-!
# Scanning for tokens

Finds the next token among those that are expected. All their patterns are followed at once; the longest
match is taken, unless a token of higher precedence matched before.
-/
namespace EnvAudit.Script

namespace Scanner

/-- A token found, or the places where the search began and gave up. -/
inductive Outcome where
  | found (token start stop : Nat)
  | lost (start stop : Nat)
  deriving Inhabited

/-- What may still match of a token. -/
private structure Thread where
  token : Nat
  rest : Pattern
  deriving BEq

/-- The tokens under way, and whether all white space so far may stand before the token. -/
private structure Front where
  threads : List Thread
  waiting : Bool
  /-- Only white space was read. -/
  blank : Bool

private def addThread (threads : List Thread) (thread : Thread) : List Thread :=
  if threads.contains thread then threads else thread :: threads

/-- The better of two tokens over the same text. -/
private def better (language : Language) (left right : Nat) : Nat :=
  let first := language.terminals[left]!
  let second := language.terminals[right]!
  if first.precedence ≠ second.precedence then (if first.precedence > second.precedence then left else right)
  else if first.preference ≠ second.preference then
    (if first.preference > second.preference then left else right)
  else min left right

private def completed (language : Language) (threads : List Thread) : Option Nat :=
  threads.foldl (fun found thread =>
    if thread.rest.isNullable then
      match found with
      | none => some thread.token
      | some token => some (better language token thread.token)
    else found) none

/-- The tokens after one more character; none if the token that is complete is better than all of them. -/
private def step (language : Language) (starts : List Thread) (front : Front) (complete : Option Nat) (c : Char) :
    Option Front :=
  let continued := front.threads.foldl (fun threads thread =>
    (thread.rest.advance c).foldl (fun threads rest => addThread threads { thread with rest }) threads) []
  let separates := front.waiting && CharClass.separator.has c
  -- Behind white space every token may begin anew.
  let threads := if separates then starts.foldl addThread continued else continued
  let next : Front := { threads, waiting := separates, blank := continued.isEmpty }
  if !separates && continued.isEmpty then none
  else
    match complete with
    | none => some next
    | some token =>
      let precedence := (language.terminals[token]!).precedence
      let best := continued.foldl (fun best thread =>
        max best (language.terminals[thread.token]!).precedence)
        (if separates then 0 else (continued.head?.map fun thread =>
          (language.terminals[thread.token]!).precedence).getD 0)
      if best < precedence then none
      else if best = precedence &&
          (next.blank || (front.waiting && !threads.any fun thread => thread.token == token)) then none
      else some next

/-- Follows the tokens from `place`; `start` is the place behind the white space, `found` the last token that was
complete and its end. -/
private def follow (language : Language) (source : Source) (starts : List Thread) (atEnd : Bool) (front : Front)
    (start place : Nat) (found : Option (Nat × Nat)) : Outcome :=
  let complete := completed language front.threads
  -- A longer match replaces the one before it.
  let found := match complete with
    | some token => some (token, place)
    | none => found
  let outcome := match found with
    | some (token, stop) => .found token (min start stop) stop
    | none => .lost start place
  if h : place < source.chars.size then
    match step language starts front complete source.chars[place] with
    | none => outcome
    | some next =>
      let start := if next.blank then place + 1 else start
      follow language source starts (atEnd && next.blank) next start (place + 1) found
  else if atEnd then .found Language.endToken start place
  else outcome
termination_by source.chars.size - place

/-- Keywords are read as names first. -/
private def sought (language : Language) (expected : Nat) : List Nat :=
  let plain := (List.range language.terminals.size).filter fun id =>
    expected.testBit id && id ≠ Language.endToken &&
      (let terminal := language.terminals[id]!
       terminal.layout.isNone && !terminal.keyword && id ≠ Language.nameToken)
  let named := (List.range language.terminals.size).any fun id =>
    expected.testBit id && (id = Language.nameToken || (language.terminals[id]!).keyword)
  if named then Language.nameToken :: plain else plain

/-- The next token from `place` on among the `expected` ones. -/
def scan (language : Language) (source : Source) (expected : Nat) (place : Nat) : Outcome :=
  let tokens := sought language expected
  let thread (token : Nat) : Thread := { token, rest := (language.terminals[token]!).pattern }
  let starts := (tokens.filter fun token => !(language.terminals[token]!).immediate).map thread
  let place := source.skipMark place
  follow language source starts (expected.testBit Language.endToken)
    { threads := tokens.map thread, waiting := true, blank := true } place place none

end Scanner

end EnvAudit.Script
