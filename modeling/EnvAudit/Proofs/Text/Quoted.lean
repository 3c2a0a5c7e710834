import EnvAudit.Proofs.Script.Spelling
import EnvAudit.Proofs.Text.Json.Quoted
import EnvAudit.Proofs.Text.Stretch

/-! Quoted texts can be told apart: how a character is quoted tells which one it is and where the next one begins, and
so it is with texts and with lists of texts. -/
namespace EnvAudit.Text

open Script.StringLiteral (readHex readHex_toDigits all_isHexDigit_of_readHex char? char_toNat)
open Script.Program (isHexDigit)
open Json (quotedItems quotedItems_begins quotedItems_more)

/-! ## Characters -/

/-- The characters that are quoted by a letter of their own. -/
def lettered : List (Char × Char) :=
  [('0', '\x00'), ('t', '\t'), ('r', '\r'), ('n', '\n'), ('"', '"'), ('\\', '\\')]

/-- How a character can be quoted. -/
inductive QuotedAs (c : Char) : List Char → Prop
  | letter {letter : Char} (listed : (letter, c) ∈ lettered) : QuotedAs c ['\\', letter]
  | code : QuotedAs c ('\\' :: 'u' :: '\x7b' :: (hexDigits c.toNat ++ ['\x7d']))
  | itself (unlike : c ≠ '\\' ∧ c ≠ '"' ∧ c ≠ '\n') : QuotedAs c [c]

theorem quotedAs_quotedChar (c : Char) : QuotedAs c (quotedChar c) := by
  unfold quotedChar
  split
  all_goals try exact .letter (by decide)
  next newline quote backslash =>
  split
  next => exact .itself ⟨backslash, quote, newline⟩
  next =>
    split
    next => exact .code
    next => exact .itself ⟨backslash, quote, newline⟩

private theorem isHexDigit_of_mem {c : Char} {code : Nat} (member : c ∈ hexDigits code) : isHexDigit c = true :=
  List.all_eq_true.mp (all_isHexDigit_of_readHex (readHex_toDigits code)) c member

/-- The character at the beginning of a quoted text, and the text behind it. -/
def readQuotedChar : List Char → Option (Char × List Char)
  | [] => none
  | first :: rest =>
    if first ≠ '\\' then some (first, rest)
    else
      match rest with
      | [] => none
      | letter :: rest =>
        if letter ≠ 'u' then (lettered.lookup letter).map fun c => (c, rest)
        else
          let code := rest.tail.takeWhile (· ≠ '\x7d')
          let behind := (rest.tail.dropWhile (· ≠ '\x7d')).tail
          ((readHex 0 code).bind char?).map fun c => (c, behind)

theorem readQuotedChar_quoted {c : Char} {text : List Char} (quoted : QuotedAs c text) (rest : List Char) :
    readQuotedChar (text ++ rest) = some (c, rest) := by
  cases quoted with
  | @letter letter listed =>
    have known : ∀ entry ∈ lettered, entry.1 ≠ 'u' ∧ lettered.lookup entry.1 = some entry.2 := by decide
    obtain ⟨unlike, found⟩ := known _ listed
    simp only at unlike found
    simp [readQuotedChar, unlike, found]
  | code =>
    have digits : ∀ d ∈ hexDigits c.toNat, decide (d ≠ '\x7d') = true := by
      intro d member
      have hex := isHexDigit_of_mem member
      rw [decide_eq_true_eq]
      rintro rfl
      exact absurd hex (by decide)
    have stop : ∀ d ∈ ('\x7d' :: rest).head?, decide (d ≠ '\x7d') = false := by simp
    have code := takeWhile_of_stop digits stop
    have behind := dropWhile_of_stop digits stop
    simp only [ne_eq, decide_not] at code behind
    have read : readHex 0 (hexDigits c.toNat) = some c.toNat := readHex_toDigits c.toNat
    simp [readQuotedChar, code, behind, read, char_toNat]
  | itself unlike => simp [readQuotedChar, unlike.1]

/-- No quoted character begins with the mark that ends a quoted text. -/
theorem head_quotedChar (c : Char) (rest : List Char) : (quotedChar c ++ rest).head? ≠ some '"' := by
  have quoted := quotedAs_quotedChar c
  generalize quotedChar c = text at quoted
  cases quoted with
  | letter => simp
  | code => simp
  | itself unlike => simpa using unlike.2.1

theorem newline_not_mem_quotedChar (c : Char) : '\n' ∉ quotedChar c := by
  have quoted := quotedAs_quotedChar c
  generalize quotedChar c = text at quoted
  cases quoted with
  | @letter letter listed =>
    have known : ∀ entry ∈ lettered, '\n' ∉ ['\\', entry.1] := by decide
    exact known _ listed
  | code =>
    have digits : '\n' ∉ hexDigits c.toNat := fun member => absurd (isHexDigit_of_mem member) (by decide)
    simp [digits]
  | itself unlike => simpa using unlike.2.2.symm

/-! ## Texts -/

private theorem letters_append_inj {first second front behind : List Char}
    (same : first.flatMap quotedChar ++ '"' :: front = second.flatMap quotedChar ++ '"' :: behind) :
    first = second ∧ front = behind := by
  have begins (c : Char) (text front behind : List Char) :
      quotedChar c ++ text.flatMap quotedChar ++ '"' :: front ≠ '"' :: behind := by
    intro same
    rw [List.append_assoc] at same
    exact head_quotedChar c _ (congrArg List.head? same)
  induction first generalizing second with
  | nil =>
    cases second with
    | nil => simpa using same
    | cons d second => exact absurd same.symm (begins d second behind front)
  | cons c first ih =>
    cases second with
    | nil => exact absurd same (begins c first front behind)
    | cons d second =>
      -- Both texts are read as far as their first characters.
      simp only [List.flatMap_cons, List.append_assoc] at same
      have read := congrArg readQuotedChar same
      rw [readQuotedChar_quoted (quotedAs_quotedChar c), readQuotedChar_quoted (quotedAs_quotedChar d)] at read
      obtain ⟨rfl, rest⟩ := Prod.mk.inj (Option.some.inj read)
      obtain ⟨rfl, ends⟩ := ih rest
      exact ⟨rfl, ends⟩

/-- A quoted text tells the text and where it ends. -/
theorem quoted_append_inj {first second : String} {front behind : List Char}
    (same : quoted first ++ front = quoted second ++ behind) : first = second ∧ front = behind := by
  simp only [quoted, List.cons_append, List.append_assoc, List.nil_append, List.cons.injEq, true_and] at same
  obtain ⟨letters, ends⟩ := letters_append_inj same
  exact ⟨String.toList_inj.mp letters, ends⟩

theorem newline_not_mem_quoted (text : String) : '\n' ∉ quoted text := by
  simp [quoted, newline_not_mem_quotedChar]

/-! ## Lists -/

private theorem quotedItems_single (text : String) : quotedItems [text] = quoted text := by
  simp [quotedItems, List.intercalate]

private theorem quotedItems_inj {first second : List String}
    (same : quotedItems first ++ [']'] = quotedItems second ++ [']']) : first = second := by
  have filled (text : String) (texts : List String) :
      quotedItems [] ++ [']'] ≠ quotedItems (text :: texts) ++ [']'] := by
    obtain ⟨front, begun⟩ := quotedItems_begins (List.cons_ne_nil text texts)
    rw [begun]
    exact fun same => absurd (List.cons.inj same).1 (by decide)
  -- A list that goes on has a comma where another one is closed.
  have more (text other next : String) (texts : List String) :
      quotedItems [text] ++ [']'] ≠ quotedItems (other :: next :: texts) ++ [']'] := by
    rw [quotedItems_single, quotedItems_more, List.append_assoc]
    exact fun same => nomatch (quoted_append_inj same).2
  induction first generalizing second with
  | nil =>
    cases second with
    | nil => rfl
    | cons text second => exact absurd same (filled text second)
  | cons text first ih =>
    cases second with
    | nil => exact absurd same.symm (filled text first)
    | cons other second =>
      cases first with
      | nil =>
        cases second with
        | nil =>
          rw [quotedItems_single, quotedItems_single] at same
          rw [(quoted_append_inj same).1]
        | cons next second => exact absurd same (more text other next second)
      | cons next first =>
        cases second with
        | nil => exact absurd same.symm (more other text next first)
        | cons last second =>
          rw [quotedItems_more, quotedItems_more, List.append_assoc, List.append_assoc] at same
          obtain ⟨rfl, rest⟩ := quoted_append_inj same
          rw [ih (List.cons.inj (List.cons.inj rest).2).2]

/-- A list of quoted texts tells the texts. -/
theorem quotedList_injective : Function.Injective quotedList := by
  intro first second same
  have letters := congrArg String.toList same
  rw [Json.toList_quotedList, Json.toList_quotedList] at letters
  exact quotedItems_inj (List.cons.inj letters).2

theorem newline_not_mem_quotedList (texts : List String) : '\n' ∉ (quotedList texts).toList := by
  have items : '\n' ∉ quotedItems texts := by
    induction texts with
    | nil => simp [quotedItems]
    | cons text texts ih =>
      cases texts with
      | nil => simp [quotedItems_single, newline_not_mem_quoted]
      | cons next texts => simp [quotedItems_more, newline_not_mem_quoted, ih]
  simp [Json.toList_quotedList, items]

end EnvAudit.Text
