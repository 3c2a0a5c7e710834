import EnvAudit.Proofs.Text.Json.Grammar
import EnvAudit.Proofs.Text.Stretch

/-!
A reader of JSON documents. It reads every document of the grammar as what the document means, so none means two
things.
-/
namespace EnvAudit.Text.Json

/-- Reads the front of a text, and gives what stands behind it. -/
abbrev Front (α : Type) := List Char → Option (α × List Char)

/-! ## Texts -/

/-- The inside of a text and its closing quote. -/
def readLetters : Front (List Nat)
  | '\\' :: 'u' :: first :: second :: third :: fourth :: rest => do
    let unit ← unit? first second third fourth
    let (units, rest) ← readLetters rest
    return (unit :: units, rest)
  | '\\' :: c :: rest => do
    let meant ← meant? c
    let (units, rest) ← readLetters rest
    return (Utf16.unitsOf meant ++ units, rest)
  | c :: rest =>
    if c = '"' then some ([], rest)
    else if c = '\\' ∨ c.toNat < 0x20 then none
    else do
      let (units, rest) ← readLetters rest
      return (Utf16.unitsOf c ++ units, rest)
  | [] => none

/-- A letter is read off the front of the rest. -/
theorem readLetters_letter {written : List Char} {units : List Nat} (letter : Letter written units)
    (rest : List Char) :
    readLetters (written ++ rest) = (readLetters rest).map fun (more, last) => (units ++ more, last) := by
  cases letter with
  | @plain c control quote backslash =>
    have allowed : ¬ c.toNat < 0x20 := by omega
    rw [List.singleton_append, readLetters]
    · cases readLetters rest <;> simp [quote, backslash, allowed]
    · exact fun _ _ _ _ _ same => absurd same backslash
    · exact fun _ _ same => absurd same backslash
  | @escaped c meant known =>
    have short : c ≠ 'u' := by
      rintro rfl
      cases known
    rw [List.cons_append, List.singleton_append, readLetters]
    · cases readLetters rest <;> simp [known]
    · exact fun _ _ _ _ _ same => absurd same short
  | unit known => cases read : readLetters rest <;> simp [readLetters, known, read]

theorem readLetters_of_letters {written : List Char} {units : List Nat} (letters : Letters written units)
    (rest : List Char) : readLetters (written ++ '"' :: rest) = some (units, rest) := by
  induction letters with
  | nil => simp [readLetters]
  | cons letter _ ih =>
    rw [List.append_assoc, readLetters_letter letter, ih]
    rfl

/-! ## Numbers -/

def readDigits : Front (List Char) := fun front =>
  let digits := front.takeWhile Char.isDigit
  if digits = [] then none else some (digits, front.dropWhile Char.isDigit)

/-- The digits behind a point, none if there is no point. -/
def readFraction : Front (List Char)
  | '.' :: rest => readDigits rest
  | rest => some ([], rest)

/-- The power of ten behind a number. -/
def readExponent : Front ℤ
  | [] => some (0, [])
  | c :: rest =>
    if c = 'e' ∨ c = 'E' then
      match rest with
      | '-' :: rest => (readDigits rest).map fun (digits, rest) => (-Nat.ofDigitChars 10 digits 0, rest)
      | '+' :: rest => (readDigits rest).map fun (digits, rest) => (Nat.ofDigitChars 10 digits 0, rest)
      | rest => (readDigits rest).map fun (digits, rest) => (Nat.ofDigitChars 10 digits 0, rest)
    else some (0, c :: rest)

/-- A number behind its sign. -/
def readUnsigned (negative : Bool) : Front ℚ := fun front => do
  let (whole, front) ← readDigits front
  if !isTrimmed whole then none
  let (decimals, front) ← readFraction front
  let (power, front) ← readExponent front
  return (decimal negative (whole ++ decimals) (power - decimals.length), front)

def readNumeral : Front ℚ
  | '-' :: rest => readUnsigned true rest
  | rest => readUnsigned false rest

/-- What may stand behind a number. -/
def EndsNumeral (rest : List Char) : Prop := ∀ c ∈ rest.head?, c.isDigit = false ∧ c ≠ '.' ∧ c ≠ 'e' ∧ c ≠ 'E'

private theorem exists_digit (digits : Digits) : ∃ first rest, digits.val = first :: rest ∧ first.isDigit = true := by
  obtain ⟨_ | ⟨first, rest⟩, filled, all⟩ := digits
  · exact absurd rfl filled
  · exact ⟨first, rest, rfl, all first List.mem_cons_self⟩

private theorem ne_of_isDigit {c other : Char} (digit : c.isDigit = true) (none : other.isDigit = false) :
    c ≠ other := by
  rintro rfl
  exact Bool.false_ne_true (none.symm.trans digit)

private theorem readDigits_of_digits (digits : Digits) {rest : List Char} (stop : ∀ c ∈ rest.head?, c.isDigit = false) :
    readDigits (digits.val ++ rest) = some (digits.val, rest) := by
  obtain ⟨digits, filled, all⟩ := digits
  rw [readDigits, takeWhile_of_stop all stop, dropWhile_of_stop all stop]
  simp [filled]

private theorem readExponent_of_exponent (exponent : Exponent) {rest : List Char}
    (stop : ∀ c ∈ rest.head?, c.isDigit = false) :
    readExponent (exponent.text ++ rest) = some (exponent.value, rest) := by
  obtain ⟨⟨mark, marked⟩, ⟨sign, signed⟩, digits⟩ := exponent
  have read := readDigits_of_digits digits stop
  simp only [Exponent.text, Exponent.value, List.cons_append, List.append_assoc, readExponent]
  rw [if_pos marked]
  simp only [List.mem_cons, List.not_mem_nil, or_false] at signed
  rcases signed with rfl | rfl | rfl
  · obtain ⟨first, others, begun, digit⟩ := exists_digit digits
    have minus := ne_of_isDigit digit (show '-'.isDigit = false from rfl)
    have plus := ne_of_isDigit digit (show '+'.isDigit = false from rfl)
    rw [begun] at read ⊢
    simp only [List.cons_append, List.nil_append] at read ⊢
    simp [read, minus, plus]
  · simp [read]
  · simp [read]

private theorem readFraction_of_numeral (numeral : Numeral) {rest : List Char}
    (stop : ∀ c ∈ rest.head?, c.isDigit = false ∧ c ≠ '.') :
    readFraction (numeral.fractionText ++ rest) = some (numeral.decimals, rest) := by
  unfold Numeral.fractionText Numeral.decimals
  cases numeral.fraction with
  | none =>
    cases rest with
    | nil => rfl
    | cons c rest =>
      have point : c ≠ '.' := (stop c rfl).2
      simp [readFraction, point]
  | some digits =>
    simp only [Option.isSome_some, if_true, Option.map_some, Option.getD_some, List.cons_append, readFraction]
    exact readDigits_of_digits digits fun c member => (stop c member).1

private theorem readExponent_of_numeral (numeral : Numeral) {rest : List Char} (stop : EndsNumeral rest) :
    readExponent (numeral.exponentText ++ rest) = some ((numeral.exponent.map Exponent.value).getD 0, rest) := by
  unfold Numeral.exponentText
  cases numeral.exponent with
  | none =>
    cases rest with
    | nil => rfl
    | cons c rest =>
      have mark := (stop c rfl).2.2
      simp [readExponent, mark]
  | some exponent => exact readExponent_of_exponent exponent fun c member => (stop c member).1

private theorem readNumeral_of_numeral (numeral : Numeral) {rest : List Char} (stop : EndsNumeral rest) :
    readNumeral (numeral.text ++ rest) = some (numeral.value, rest) := by
  have behindFraction : ∀ c ∈ (numeral.exponentText ++ rest).head?, c.isDigit = false ∧ c ≠ '.' := by
    unfold Numeral.exponentText
    cases numeral.exponent with
    | none => exact fun c member => ⟨(stop c member).1, (stop c member).2.1⟩
    | some exponent =>
      rintro c ⟨⟩
      rcases exponent.mark.property with mark | mark <;> rw [mark] <;> decide
  have behindWhole : ∀ c ∈ (numeral.fractionText ++ (numeral.exponentText ++ rest)).head?, c.isDigit = false := by
    unfold Numeral.fractionText
    cases numeral.fraction with
    | none => exact fun c member => (behindFraction c member).1
    | some digits =>
      rintro c ⟨⟩
      rfl
  have unsigned : readUnsigned numeral.negative
      (numeral.whole.val.val ++ (numeral.fractionText ++ (numeral.exponentText ++ rest))) =
        some (numeral.value, rest) := by
    rw [readUnsigned, readDigits_of_digits _ behindWhole]
    simp [numeral.whole.property, readFraction_of_numeral numeral behindFraction,
      readExponent_of_numeral numeral stop, Numeral.value]
  unfold Numeral.text
  cases sign : numeral.negative with
  | true =>
    rw [sign] at unsigned
    simpa [readNumeral] using unsigned
  | false =>
    -- Without a minus sign the number begins with a digit, so none is read.
    rw [sign] at unsigned
    obtain ⟨first, others, begun, digit⟩ := exists_digit numeral.whole.val
    have minus := ne_of_isDigit digit (show '-'.isDigit = false from rfl)
    rw [begun] at unsigned ⊢
    simp only [Bool.false_eq_true, if_false, List.nil_append, List.cons_append, List.append_assoc] at unsigned ⊢
    rw [readNumeral, unsigned]
    exact fun _ same => absurd (List.cons.inj same).1 minus

/-! ## Values -/

def skipBlanks (text : List Char) : List Char := text.dropWhile isSpace

section Parts

variable {α : Type} (read : Front α)

/-- A part with blanks around it. -/
def readPadded : Front α := fun front => do
  let (value, rest) ← read (skipBlanks front)
  return (value, skipBlanks rest)

/-- A name and a part with a colon between them. -/
def readNamed : Front (List Nat × α) := fun front =>
  match skipBlanks front with
  | '"' :: rest => do
    let (units, rest) ← readLetters rest
    match skipBlanks rest with
    | ':' :: rest =>
      let (value, rest) ← read rest
      return ((units, value), rest)
    | _ => none
  | _ => none

/-- Parts with commas between them, up to a closing sign. -/
def readSeparated (close : Char) : Nat → Front (List α)
  | 0, _ => none
  | fuel + 1, front => do
    let (value, rest) ← read front
    match rest with
    | [] => none
    | c :: rest =>
      if c = ',' then
        let (values, rest) ← readSeparated close fuel rest
        return (value :: values, rest)
      else if c = close then return ([value], rest)
      else none

/-- Parts, or nothing but blanks, up to a closing sign. -/
def readClosed (close : Char) (fuel : Nat) : Front (List α) := fun front =>
  match skipBlanks front with
  | [] => none
  | c :: rest => if c = close then some ([], rest) else readSeparated read close fuel front

end Parts

/-- A value of at most some depth. -/
def readValue : Nat → Front Value
  | 0, _ => none
  | _ + 1, 'n' :: 'u' :: 'l' :: 'l' :: rest => some (.null, rest)
  | _ + 1, 't' :: 'r' :: 'u' :: 'e' :: rest => some (.boolean true, rest)
  | _ + 1, 'f' :: 'a' :: 'l' :: 's' :: 'e' :: rest => some (.boolean false, rest)
  | _ + 1, '"' :: rest => (readLetters rest).map fun (units, rest) => (.text units, rest)
  | fuel + 1, '[' :: rest =>
    (readClosed (readPadded (readValue fuel)) ']' fuel rest).map fun (values, rest) => (.list values, rest)
  | fuel + 1, '\x7b' :: rest =>
    (readClosed (readNamed (readPadded (readValue fuel))) '\x7d' fuel rest).map fun (members, rest) =>
      (.object members, rest)
  | _ + 1, front => (readNumeral front).map fun (value, rest) => (.number value, rest)

/-- What a text means. No value is deeper than the text is long. -/
def read? (text : String) : Option Value :=
  match readPadded (readValue text.toList.length) text.toList with
  | some (value, []) => some value
  | _ => none

/-! ## Completeness -/

/-- What may stand behind a part. -/
def EndsPart (rest : List Char) : Prop := ∀ c ∈ rest.head?, c = ',' ∨ c = ']' ∨ c = '\x7d'

/-- Whether a text goes on with a part, and not with a closing sign. -/
def BeginsPart (text : List Char) : Prop := ∃ c rest, skipBlanks text = c :: rest ∧ c ≠ ']' ∧ c ≠ '\x7d'

/-- A reader reads all parts up to some length, in front of whatever may stand behind a part. -/
def Reads {α : Type} (read : Front α) (Part : List Char → α → Prop) (Ends : List Char → Prop) (length : Nat) : Prop :=
  ∀ ⦃written value⦄, Part written value → written.length ≤ length → ∀ ⦃rest⦄, Ends rest →
    read (written ++ rest) = some (value, rest)

theorem skipBlanks_blank {blank rest : List Char} (blanks : Blank blank)
    (stop : ∀ c ∈ rest.head?, isSpace c = false) : skipBlanks (blank ++ rest) = rest :=
  dropWhile_of_stop blanks stop

private theorem not_space_of_endsPart {rest : List Char} (ends : EndsPart rest) :
    ∀ c ∈ rest.head?, isSpace c = false := by
  intro c member
  rcases ends c member with rfl | rfl | rfl <;> rfl

private theorem endsNumeral_of_endsPart {blank rest : List Char} (blanks : Blank blank) (ends : EndsPart rest) :
    EndsNumeral (blank ++ rest) := by
  intro c member
  cases blank with
  | nil => rcases ends c member with rfl | rfl | rfl <;> decide
  | cons first blank =>
    cases member
    have space := blanks c List.mem_cons_self
    simp only [isSpace, Bool.or_eq_true, decide_eq_true_eq] at space
    rcases space with ((rfl | rfl) | rfl) | rfl <;> decide

private theorem begins_append {text : List Char} (begins : BeginsPart text) (rest : List Char) :
    BeginsPart (text ++ rest) := by
  obtain ⟨c, behind, begun, list, object⟩ := begins
  exact ⟨c, behind ++ rest, dropWhile_append_of_begun begun, list, object⟩

/-- A number begins with a minus sign or a digit. -/
private theorem numeral_begins (numeral : Numeral) :
    ∃ c rest, numeral.text = c :: rest ∧ ∀ other, other ≠ '-' → other.isDigit = false → c ≠ other := by
  obtain ⟨first, others, begun, digit⟩ := exists_digit numeral.whole.val
  unfold Numeral.text
  rw [begun]
  cases numeral.negative with
  | true => exact ⟨'-', _, rfl, fun other minus _ => minus.symm⟩
  | false => exact ⟨first, _, rfl, fun other _ none => ne_of_isDigit digit none⟩

private theorem begins_of_written {written : List Char} {value : Value} (part : Written written value) :
    ∃ c rest, written = c :: rest ∧ isSpace c = false ∧ c ≠ ']' ∧ c ≠ '\x7d' := by
  cases part with
  | number numeral =>
    obtain ⟨c, rest, begun, other⟩ := numeral_begins numeral
    refine ⟨c, rest, begun, ?_, other _ (by decide) rfl, other _ (by decide) rfl⟩
    simp [isSpace, other ' ' (by decide) rfl, other '\t' (by decide) rfl, other '\n' (by decide) rfl,
      other '\r' (by decide) rfl]
  | _ => exact ⟨_, _, rfl, rfl, by decide, by decide⟩

theorem skipBlanks_begun {blank : List Char} (blanks : Blank blank) {c : Char} (begun : isSpace c = false)
    (rest : List Char) : skipBlanks (blank ++ c :: rest) = c :: rest :=
  skipBlanks_blank blanks fun _ member => Option.mem_some.mp member ▸ begun

private theorem begins_of_padded {written : List Char} {value : Value} (part : Padded Written written value) :
    BeginsPart written := by
  rcases part with @⟨before, _, after, _, left, inside, right⟩
  obtain ⟨c, rest, rfl, begun, list, object⟩ := begins_of_written inside
  refine ⟨c, rest ++ after, ?_, list, object⟩
  rw [List.append_assoc]
  exact skipBlanks_begun left begun (rest ++ after)

private theorem begins_of_named {α : Type} {Part : List Char → α → Prop} {written : List Char} {member : List Nat × α}
    (part : Named Part written member) : BeginsPart written := by
  rcases part with @⟨before, name, after, written, _, _, left, letters, right, part⟩
  refine ⟨'"', name ++ '"' :: after ++ ':' :: written, ?_, by decide, by decide⟩
  simp only [List.append_assoc, List.cons_append]
  exact skipBlanks_begun left (show isSpace '"' = false from rfl) _

private theorem begins_of_separated {α : Type} {Part : List Char → α → Prop} {written : List Char} {values : List α}
    (begins : ∀ ⦃written value⦄, Part written value → BeginsPart written) (parts : Separated Part written values) :
    BeginsPart written := by
  cases parts with
  | last part => exact begins part
  | more part parts => exact begins_append (begins part) _

/-- Blanks in front of a value end where it begins, for no value begins with a blank. -/
theorem reads_padded {fuel : Nat} {length : Nat} (reads : Reads (readValue fuel) Written EndsNumeral length) :
    Reads (readPadded (readValue fuel)) (Padded Written) EndsPart length := by
  rintro _ value ⟨left, inside, right⟩ short rest ends
  obtain ⟨c, others, same, begun, -⟩ := begins_of_written inside
  simp only [List.length_append] at short
  have read := reads inside (by omega) (endsNumeral_of_endsPart right ends)
  rw [same] at read ⊢
  rw [readPadded, List.append_assoc, List.append_assoc]
  simp only [List.cons_append] at read ⊢
  rw [skipBlanks_begun left begun, read]
  simp [skipBlanks_blank right (not_space_of_endsPart ends)]

section Parts

variable {α : Type} {read : Front α} {Part : List Char → α → Prop} {length : Nat}

theorem reads_named (reads : Reads read Part EndsPart length) :
    Reads (readNamed read) (Named Part) EndsPart length := by
  rintro _ _ ⟨left, letters, right, part⟩ short rest ends
  simp only [List.length_append, List.length_cons] at short
  simp only [readNamed, List.append_assoc, List.cons_append]
  rw [skipBlanks_begun left rfl]
  simp [readLetters_of_letters letters, skipBlanks_begun right (show isSpace ':' = false from rfl),
    reads part (by omega) ends]

private theorem readSeparated_of_separated {close : Char} (closes : close = ']' ∨ close = '\x7d')
    (reads : Reads read Part EndsPart length) {written : List Char} {values : List α}
    (parts : Separated Part written values) {fuel : Nat} (short : written.length ≤ length)
    (enough : written.length < fuel) (rest : List Char) :
    readSeparated read close fuel (written ++ close :: rest) = some (values, rest) := by
  -- Each step reads a part and its comma, so a step for every character is enough.
  induction parts generalizing fuel with
  | last part =>
    obtain ⟨fuel, rfl⟩ : ∃ less, fuel = less + 1 := ⟨fuel - 1, by omega⟩
    have ends : EndsPart (close :: rest) := by
      rintro c ⟨⟩
      exact Or.inr closes
    have comma : close ≠ ',' := by rcases closes with rfl | rfl <;> decide
    simp [readSeparated, reads part short ends, comma]
  | @more _ others _ _ part parts ih =>
    obtain ⟨fuel, rfl⟩ : ∃ less, fuel = less + 1 := ⟨fuel - 1, by omega⟩
    simp only [List.length_append, List.length_cons] at short enough
    have ends : EndsPart (',' :: (others ++ close :: rest)) := by
      rintro c ⟨⟩
      exact Or.inl rfl
    rw [List.append_assoc, List.cons_append, readSeparated, reads part (by omega) ends]
    simp [ih (show _ ≤ length by omega) (show _ < fuel by omega)]

private theorem readClosed_of_separated {close : Char} (closes : close = ']' ∨ close = '\x7d')
    (reads : Reads read Part EndsPart length) (begins : ∀ ⦃written value⦄, Part written value → BeginsPart written)
    {written : List Char} {values : List α} (parts : Separated Part written values) {fuel : Nat}
    (short : written.length ≤ length) (enough : written.length < fuel) (rest : List Char) :
    readClosed read close fuel (written ++ close :: rest) = some (values, rest) := by
  obtain ⟨c, behind, begun, list, object⟩ := begins_append (begins_of_separated begins parts) (close :: rest)
  have other : c ≠ close := by rcases closes with rfl | rfl <;> assumption
  simp only [readClosed, begun, other, if_false]
  exact readSeparated_of_separated closes reads parts short enough rest

private theorem readClosed_of_blank {close : Char} (closes : close = ']' ∨ close = '\x7d') {blank : List Char}
    (blanks : Blank blank) (fuel : Nat) (rest : List Char) :
    readClosed read close fuel (blank ++ close :: rest) = some ([], rest) := by
  have begun : isSpace close = false := by rcases closes with rfl | rfl <;> rfl
  simp [readClosed, skipBlanks_begun blanks begun]

end Parts

/-- A value is read if it is no longer than the fuel; what may not come behind it would go on with a number. -/
theorem reads_value (fuel : Nat) : Reads (readValue fuel) Written EndsNumeral fuel := by
  -- The values inside a list or an object are shorter than it, so the induction is on the fuel.
  induction fuel with
  | zero =>
    intro written value part short rest ends
    obtain ⟨c, others, rfl, -⟩ := begins_of_written part
    simp at short
  | succ fuel ih =>
    have item := reads_padded ih
    intro written value part short rest ends
    cases part with
    | null => rfl
    | yes => rfl
    | no => rfl
    | number numeral =>
      have read := readNumeral_of_numeral numeral ends
      obtain ⟨c, others, begun, other⟩ := numeral_begins numeral
      rw [begun] at read ⊢
      rw [List.cons_append] at read ⊢
      rw [readValue, read]
      · rfl
      -- No other value begins as a number does.
      all_goals exact fun _ same => other _ (by decide) rfl (List.cons.inj same).1
    | text letters => simp [readValue, readLetters_of_letters letters]
    | emptyList blanks => simp [readValue, readClosed_of_blank (Or.inl rfl) blanks]
    | list items =>
      simp only [List.length_cons, List.length_append, List.length_nil] at short
      have read := readClosed_of_separated (Or.inl rfl) item (fun _ _ => begins_of_padded) items
        (show _ ≤ fuel by omega) (show _ < fuel by omega) rest
      simp [readValue, read]
    | emptyObject blanks => simp [readValue, readClosed_of_blank (Or.inr rfl) blanks]
    | object members =>
      simp only [List.length_cons, List.length_append, List.length_nil] at short
      have read := readClosed_of_separated (Or.inr rfl) (reads_named item) (fun _ _ => begins_of_named) members
        (show _ ≤ fuel by omega) (show _ < fuel by omega) rest
      simp [readValue, read]

/-- A document is read as what it means. -/
theorem read_of_means {text : String} {value : Value} (means : Means text value) : read? text = some value := by
  have read := reads_padded (reads_value text.toList.length) means (Nat.le_refl _) (show EndsPart [] by rintro c ⟨⟩)
  rw [List.append_nil] at read
  simp only [read?, read]

/-- A document means one thing. -/
theorem Means.unique {text : String} {first second : Value} (means : Means text first) (other : Means text second) :
    first = second :=
  Option.some.inj ((read_of_means means).symm.trans (read_of_means other))

end EnvAudit.Text.Json
