import EnvAudit.Proofs.Text.Json.Document
import EnvAudit.Proofs.Text.Json.Reader
import EnvAudit.Text.Quoted

/-!
# Quoted texts as JSON

A text is quoted by rules of its own. They agree with those of JSON on every character that shows, and on the tab and the
ends of lines; for any other one they write an escape that no document has.
-/
namespace EnvAudit.Text

/-! ## Characters -/

/-- A character that has a glyph of its own, or one of the three others that are escaped by a letter. -/
def Shows (c : Char) : Prop :=
  c = '\t' ∨ c = '\n' ∨ c = '\r' ∨ (isGraphemeExtend c = false ∧ isUnprintable c = false)

instance (c : Char) : Decidable (Shows c) :=
  inferInstanceAs (Decidable (_ ∨ _ ∨ _ ∨ _ ∧ _))

/-- Texts all of whose characters show. -/
def AllShow (texts : List String) : Prop := ∀ text ∈ texts, ∀ c ∈ text.toList, Shows c

instance (texts : List String) : Decidable (AllShow texts) :=
  inferInstanceAs (Decidable (∀ text ∈ texts, ∀ c ∈ text.toList, Shows c))

theorem isUnprintable_control {c : Char} (control : c.toNat < 0x20) : isUnprintable c = true := by
  refine List.any_eq_true.mpr ⟨(0x0, 0x1f), List.mem_cons_self, ?_⟩
  simp only [Nat.zero_le, decide_true, Bool.true_and, decide_eq_true_eq]
  omega

/-- The visible characters of ASCII show. -/
theorem shows_ascii {c : Char} (above : 0x20 ≤ c.toNat) (below : c.toNat ≤ 0x7e) : Shows c := by
  have extending : ∀ range ∈ graphemeExtendRanges, 0x7e < range.1 := by decide +kernel
  have unprintable : ∀ range ∈ unprintableRanges, range.2 < 0x20 ∨ 0x7e < range.1 := by decide +kernel
  refine .inr (.inr (.inr ⟨?_, ?_⟩))
  · refine List.any_eq_false.mpr fun range member => ?_
    have apart := extending range member
    simp only [Bool.and_eq_true, decide_eq_true_eq]
    omega
  · refine List.any_eq_false.mpr fun range member => ?_
    have apart := unprintable range member
    simp only [Bool.and_eq_true, decide_eq_true_eq]
    omega

namespace Json

theorem letter_quotedChar {c : Char} (shows : Shows c) : Letter (quotedChar c) (Utf16.unitsOf c) := by
  unfold quotedChar
  split
  · exact absurd shows (by decide +kernel)
  all_goals try exact .escaped rfl
  next tab return_ feed quote backslash =>
  obtain ⟨extends_, printable⟩ : isGraphemeExtend c = false ∧ isUnprintable c = false := by
    rcases shows with same | same | same | plain
    · exact absurd same tab
    · exact absurd same feed
    · exact absurd same return_
    · exact plain
  have control : 0x20 ≤ c.toNat := by
    by_contra less
    exact Bool.false_ne_true (printable.symm.trans (isUnprintable_control (Nat.lt_of_not_le less)))
  rw [extends_, printable]
  simpa using Letter.plain control quote backslash

/-- A character that does not show is escaped as no text of a document has it. -/
theorem quotedChar_hidden {c : Char} (hidden : ¬ Shows c) :
    quotedChar c = ['\\', '0'] ∨ ∃ digits, quotedChar c = '\\' :: 'u' :: '\x7b' :: digits := by
  unfold quotedChar
  split
  · exact .inl rfl
  all_goals try exact absurd (by decide +kernel) hidden
  split
  next ascii =>
    simp only [Bool.and_eq_true, decide_eq_true_eq, Char.le_def, UInt32.le_iff_toNat_le] at ascii
    exact absurd (shows_ascii ascii.1 ascii.2) hidden
  next =>
    split
    next => exact .inr ⟨_, rfl⟩
    next shown =>
      simp only [Bool.or_eq_true, not_or, Bool.not_eq_true] at shown
      exact absurd (.inr (.inr (.inr shown))) hidden

theorem readLetters_hidden {c : Char} (hidden : ¬ Shows c) (rest : List Char) :
    readLetters (quotedChar c ++ rest) = none := by
  rcases quotedChar_hidden hidden with null | ⟨digits, code⟩
  · rw [null]
    rfl
  · -- The brace is no digit to the base sixteen, and a `u` alone stands for no character.
    rw [code, List.cons_append, List.cons_append, List.cons_append]
    generalize digits ++ rest = behind
    rcases behind with _ | ⟨second, _ | ⟨third, _ | ⟨fourth, more⟩⟩⟩ <;> rfl

/-! ## Texts -/

theorem letters_quoted {text : List Char} (shows : ∀ c ∈ text, Shows c) :
    Letters (text.flatMap quotedChar) (Utf16.encode text) := by
  induction text with
  | nil => exact .nil
  | cons c text ih =>
    obtain ⟨first, others⟩ := List.forall_mem_cons.mp shows
    exact .cons (letter_quotedChar first) (ih others)

/-- The first character that does not show stops the reading of a text. -/
theorem readLetters_quoted_hidden {text : List Char} (hidden : ¬ ∀ c ∈ text, Shows c) (rest : List Char) :
    readLetters (text.flatMap quotedChar ++ rest) = none := by
  induction text with
  | nil => exact absurd (List.forall_mem_nil _) hidden
  | cons c text ih =>
    rw [List.flatMap_cons, List.append_assoc]
    by_cases first : Shows c
    · have others : ¬ ∀ c ∈ text, Shows c := fun others => hidden (List.forall_mem_cons.mpr ⟨first, others⟩)
      rw [readLetters_letter (letter_quotedChar first), ih others]
      rfl
    · exact readLetters_hidden first _

/-! ## Lists of texts -/

/-- Quoted texts with commas between them. -/
def quotedItems (texts : List String) : List Char := List.intercalate [',', ' '] (texts.map quoted)

theorem quotedItems_more (text next : String) (texts : List String) :
    quotedItems (text :: next :: texts) = quoted text ++ ',' :: ' ' :: quotedItems (next :: texts) := by
  simp [quotedItems, List.intercalate]

theorem quotedItems_begins {texts : List String} (some_ : texts ≠ []) : ∃ front, quotedItems texts = '"' :: front := by
  match texts, some_ with
  | [only], _ => exact ⟨only.toList.flatMap quotedChar ++ ['"'], by simp [quotedItems, List.intercalate, quoted]⟩
  | first :: next :: rest, _ =>
    rw [quotedItems_more, quoted]
    exact ⟨_, rfl⟩

theorem toList_quotedList (texts : List String) : (quotedList texts).toList = '[' :: quotedItems texts ++ [']'] := by
  rw [quotedList, String.toList_ofList, quotedItems]

theorem blank_space : Blank [' '] := fun _ member => by rw [List.mem_singleton.mp member]; rfl

private theorem separated_quoted {text : String} {texts : List String} (shows : AllShow (text :: texts))
    {blank : List Char} (blanks : Blank blank) :
    Separated (Padded Written) (blank ++ quotedItems (text :: texts))
      ((text :: texts).map fun text => .text (units text)) := by
  induction texts generalizing text blank with
  | nil =>
    have letters := letters_quoted (shows text List.mem_cons_self)
    have item := Separated.last (Padded.mk blanks (Written.text letters) blank_nil)
    simpa [quotedItems, List.intercalate, quoted, units] using item
  | cons next texts ih =>
    obtain ⟨first, others⟩ := List.forall_mem_cons.mp shows
    have item := Padded.mk blanks (Written.text (letters_quoted first)) blank_nil
    have items := Separated.more item (ih others blank_space)
    simpa [quotedItems_more, quoted, units] using items

/-- Texts that show are quoted as the list of them is written. -/
theorem written_quotedList {texts : List String} (shows : AllShow texts) :
    Written (quotedList texts).toList (.list (texts.map fun text => .text (units text))) := by
  rw [toList_quotedList]
  cases texts with
  | nil => exact .emptyList blank_nil
  | cons text texts => exact .list (separated_quoted shows blank_nil)

/-- A quoted text with blanks before it is read as far as its characters are. -/
private theorem readPadded_quoted (depth : Nat) {blank : List Char} (blanks : Blank blank) (text : String)
    (behind : List Char) :
    readPadded (readValue (depth + 1)) (blank ++ quoted text ++ behind) =
      (readLetters (text.toList.flatMap quotedChar ++ '"' :: behind)).map fun (units, rest) =>
        (.text units, skipBlanks rest) := by
  have begun : skipBlanks (blank ++ quoted text ++ behind) =
      '"' :: (text.toList.flatMap quotedChar ++ '"' :: behind) := by
    rw [quoted, List.append_assoc, List.cons_append, List.cons_append, skipBlanks_begun blanks rfl]
    simp
  rw [readPadded, begun, readValue]
  cases readLetters (text.toList.flatMap quotedChar ++ '"' :: behind) <;> rfl

private theorem readSeparated_hidden {texts : List String} (hidden : ¬ AllShow texts) (depth fuel : Nat)
    {blank : List Char} (blanks : Blank blank) (rest : List Char) :
    readSeparated (readPadded (readValue depth)) ']' fuel (blank ++ quotedItems texts ++ ']' :: rest) = none := by
  -- Texts that show are passed over one by one, up to the first that does not.
  induction texts generalizing fuel blank with
  | nil => exact absurd (List.forall_mem_nil _) hidden
  | cons text texts ih =>
    cases fuel with
    | zero => rfl
    | succ fuel =>
      cases depth with
      | zero => simp [readSeparated, readPadded, readValue]
      | succ depth =>
        cases texts with
        | nil =>
          have here : ¬ ∀ c ∈ text.toList, Shows c := fun shows => hidden (List.forall_mem_singleton.mpr shows)
          have alone : quotedItems [text] = quoted text := by simp [quotedItems, List.intercalate]
          rw [readSeparated, alone, readPadded_quoted depth blanks, readLetters_quoted_hidden here]
          rfl
        | cons next texts =>
          rw [readSeparated, quotedItems_more, List.append_assoc, List.append_assoc, ← List.append_assoc blank,
            readPadded_quoted depth blanks]
          by_cases here : ∀ c ∈ text.toList, Shows c
          · have others : ¬ AllShow (next :: texts) := fun others => hidden (List.forall_mem_cons.mpr ⟨here, others⟩)
            have later := ih others fuel blank_space
            have comma (behind : List Char) : skipBlanks (',' :: behind) = ',' :: behind :=
              skipBlanks_begun blank_nil rfl behind
            simp only [List.cons_append, List.nil_append] at later ⊢
            simp [readLetters_of_letters (letters_quoted here), comma, later]
          · rw [readLetters_quoted_hidden here]
            rfl

/-- No value is read where a list of quoted texts stands in which a character does not show. -/
theorem readValue_hidden {texts : List String} (hidden : ¬ AllShow texts) (depth : Nat) (rest : List Char) :
    readValue depth ((quotedList texts).toList ++ rest) = none := by
  cases depth with
  | zero => rfl
  | succ depth =>
    have items := readSeparated_hidden hidden depth depth blank_nil rest
    have some_ : texts ≠ [] := by
      rintro rfl
      exact hidden (List.forall_mem_nil _)
    obtain ⟨front, begun⟩ := quotedItems_begins some_
    have quote (behind : List Char) : skipBlanks ('"' :: behind) = '"' :: behind :=
      skipBlanks_begun blank_nil rfl behind
    rw [toList_quotedList]
    rw [begun] at items ⊢
    simp only [List.cons_append, List.nil_append, List.append_assoc] at items ⊢
    rw [readValue, readClosed, quote]
    simp [items]

end Json
end EnvAudit.Text
