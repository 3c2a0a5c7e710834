import EnvAudit.Proofs.Text.Json.Grammar
import EnvAudit.Proofs.Text.Utf16

/-! What is written for a value is a document of the grammar, and means the value. -/
namespace EnvAudit.Text.Json

/-- The units of a text. -/
def units (text : String) : List Nat := Utf16.encode text.toList

theorem units_injective : Function.Injective units := by
  intro first second same
  have read := congrArg Utf16.lossy same
  rw [units, units, Utf16.lossy_encode, Utf16.lossy_encode] at read
  exact String.toList_injective read

mutual

/-- What a value means. -/
def meaning : Json → Value
  | number value => .number value
  | text value => .text (units value)
  | list values => .list (meanings values)
  | object members => .object (memberMeanings members)

def meanings : List Json → List Value
  | [] => []
  | value :: rest => meaning value :: meanings rest

def memberMeanings : List (String × Json) → List (List Nat × Value)
  | [] => []
  | (name, value) :: rest => (units name, meaning value) :: memberMeanings rest

end

theorem meanings_eq_map (values : List Json) : meanings values = values.map meaning := by
  induction values with
  | nil => rfl
  | cons value rest ih => rw [meanings, ih, List.map_cons]

/-! ## Texts -/

private theorem hexValue?_hexDigit : ∀ value < 16, hexValue? (hexDigit value) = some value := by decide

private theorem control_unit (code : Nat) (control : code < 0x20) :
    unit? '0' '0' (hexDigit (code / 16)) (hexDigit (code % 16)) = some code := by
  have zero : hexValue? '0' = some 0 := rfl
  simp only [unit?, zero, hexValue?_hexDigit (code / 16) (by omega), hexValue?_hexDigit (code % 16) (by omega)]
  simp
  omega

theorem letter_escaped (c : Char) : Letter (escaped c) (Utf16.unitsOf c) := by
  unfold escaped
  split
  all_goals try exact .escaped rfl
  split
  next control =>
    have unit := Letter.unit (control_unit c.toNat control)
    have units : Utf16.unitsOf c = [c.toNat] := if_pos (by omega)
    rw [units]
    exact unit
  next quote backslash _ _ _ _ _ control => exact .plain (by omega) quote backslash

theorem letters_flatMap (text : List Char) : Letters (text.flatMap escaped) (Utf16.encode text) := by
  induction text with
  | nil => exact .nil
  | cons c text ih => exact .cons (letter_escaped c) ih

/-! ## Numbers -/

private theorem head_toDigits (value : Nat) (positive : 0 < value) : (Nat.toDigits 10 value).head? ≠ some '0' := by
  induction value using Nat.strongRecOn with
  | ind value ih =>
    rcases Nat.lt_or_ge value 10 with digit | more
    · rw [Nat.toDigits_of_lt_base digit]
      interval_cases value <;> decide
    · rw [Nat.toDigits_of_base_le (by decide) more, List.head?_append_of_ne_nil _ Nat.toDigits_ne_nil]
      exact ih (value / 10) (by omega) (by omega)

theorem isTrimmed_toDigits (value : Nat) : isTrimmed (Nat.toDigits 10 value) = true := by
  rcases Nat.eq_zero_or_pos value with rfl | positive
  · rfl
  · simp [isTrimmed, head_toDigits value positive]

/-- A whole number as it is written. -/
def wholeNumeral (value : Nat) : Numeral where
  negative := false
  whole := ⟨⟨Nat.toDigits 10 value, Nat.toDigits_ne_nil, fun _ => Nat.isDigit_of_mem_toDigits (by decide) (by decide)⟩,
    isTrimmed_toDigits value⟩
  fraction := none
  exponent := none

theorem written_number (value : Nat) : Written (toString value).toList (.number value) := by
  have text : (wholeNumeral value).text = (toString value).toList := by
    simp [wholeNumeral, Numeral.text, Numeral.fractionText, Numeral.exponentText, Nat.repr_eq_ofList_toDigits]
  have same : (wholeNumeral value).value = value := by
    simp [wholeNumeral, Numeral.value, Numeral.decimals, decimal, Nat.ofDigitChars_toDigits]
  rw [← text, ← same]
  exact .number _

/-! ## Values -/

theorem blank_nil : Blank [] := fun _ member => by cases member

private theorem blank_newLine (depth : Nat) : Blank (newLine depth) := by
  intro c member
  rcases List.mem_cons.mp member with rfl | member
  · rfl
  · rw [(List.mem_replicate.mp member).2]
    rfl

mutual

/-- What is written for a value is written as the grammar has it, and means the value. -/
theorem written_render (depth : Nat) : (value : Json) → Written (value.render depth) value.meaning
  | number value => by
    rw [render, meaning]
    exact written_number value
  | text value => by
    rw [render, meaning]
    exact .text (letters_flatMap value.toList)
  | list [] => .emptyList blank_nil
  | list (first :: rest) => by
    have items := Written.list (separated_values depth rest (written_render (depth + 1) first))
    simpa [render, meaning, meanings] using items
  | object [] => .emptyObject blank_nil
  | object ((name, first) :: rest) => by
    have items := Written.object (separated_members depth rest name (written_render (depth + 1) first))
    simpa [render, meaning, memberMeanings] using items

theorem separated_values (depth : Nat) : (rest : List Json) → {front : List Char} → {value : Value} →
    Written front value →
      Separated (Padded Written) (newLine (depth + 1) ++ front ++ renderValues depth rest ++ newLine depth)
        (value :: meanings rest)
  | [], front, value, written => by
    have item := Padded.mk (blank_newLine (depth + 1)) written (blank_newLine depth)
    simpa [renderValues, meanings] using Separated.last item
  | next :: rest, front, value, written => by
    have item := Padded.mk (blank_newLine (depth + 1)) written blank_nil
    have items := separated_values depth rest (written_render (depth + 1) next)
    simpa [renderValues, meanings] using Separated.more item items

theorem separated_members (depth : Nat) : (rest : List (String × Json)) → (name : String) → {front : List Char} →
    {value : Value} → Written front value →
      Separated (Named (Padded Written))
        (newLine (depth + 1) ++ renderText name ++ [':', ' '] ++ front ++ renderMembers depth rest ++ newLine depth)
        ((units name, value) :: memberMeanings rest)
  | [], name, front, value, written => by
    have space : Blank [' '] := fun _ member => by rw [List.mem_singleton.mp member]; rfl
    have item := Named.mk (blank_newLine (depth + 1)) (letters_flatMap name.toList) blank_nil
      (Padded.mk space written (blank_newLine depth))
    simpa [renderMembers, memberMeanings, renderText, units] using Separated.last item
  | (next, inner) :: rest, name, front, value, written => by
    have space : Blank [' '] := fun _ member => by rw [List.mem_singleton.mp member]; rfl
    have item := Named.mk (blank_newLine (depth + 1)) (letters_flatMap name.toList) blank_nil
      (Padded.mk space written blank_nil)
    have items := separated_members depth rest next (written_render (depth + 1) inner)
    simpa [renderMembers, memberMeanings, renderText, units] using Separated.more item items

end

/-- The document of a value means the value. -/
theorem document_means (value : Json) : Means value.document value.meaning := by
  have item := Padded.mk blank_nil (written_render 0 value) blank_nil
  simpa [Means, document] using item

end EnvAudit.Text.Json
