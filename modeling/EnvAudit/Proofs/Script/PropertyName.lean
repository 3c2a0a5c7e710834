import EnvAudit.Proofs.Script.Spelling

/-!
# Property names

What the identifiers of the grammar consist of, and what they stand for between quotes: a character stands for itself
there, but an escape is read, if a character has its number.
-/
namespace EnvAudit.Script.StringLiteral

open Program (isHexDigit)
open EnvAudit.Text

/-- What an identifier consists of. -/
inductive NamePart : List Char → Prop
  | char {c : Char} (plain : isPlain .double c = true) : NamePart [c]
  | unit {digits : List Char} (four : digits.length = 4) (hex : digits.all isHexDigit = true) :
    NamePart ('\\' :: 'u' :: digits)
  | braced {digits : List Char} (filled : digits ≠ []) (hex : digits.all isHexDigit = true) :
    NamePart ('\\' :: 'u' :: '\x7b' :: (digits ++ ['\x7d']))

/-! ## Tokens -/

/-- The escapes in identifiers. -/
def nameEscape : Pattern :=
  .alt (.seq (.text ['\\', 'u']) (.times (.one .hexDigit) 4))
    (.seq (.text ['\\', 'u', '\x7b']) (.seq (.many1 (.one .hexDigit)) (.text ['\x7d'])))

/-- Identifiers are runs of escapes and of characters outside a class. -/
theorem identifier_shape :
    Grammar.identifier.pattern =
      .seq (.alt (.one (Grammar.outsideName ++ .digit).except) nameEscape)
        (.many (.alt (.one Grammar.outsideName.except) nameEscape)) := rfl

private theorem namePart_of_matches {cls : CharClass} (plain : ∀ c, cls.has c = true → isPlain .double c = true)
    {part : List Char} (matched : (Pattern.alt (.one cls) nameEscape).Matches part) : NamePart part := by
  simp only [nameEscape, Pattern.matches_alt, Pattern.matches_one, Pattern.matches_text_seq, Pattern.matches_times,
    has_hexDigit] at matched
  rcases matched with ⟨c, rfl, held⟩ | ⟨digits, rfl, four, hex⟩ | ⟨_, rfl, digits, _, rfl, braced, rfl⟩
  · exact .char (plain c held)
  · exact .unit four hex
  · obtain ⟨filled, hex⟩ := (Pattern.matches_many1 digits).mp braced
    exact .braced filled (has_hexDigit ▸ hex)

theorem NamePart.ne_nil {part : List Char} (isPart : NamePart part) : part ≠ [] := by
  cases isPart <;> exact List.cons_ne_nil _ _

/-- An identifier is not empty, and put together from parts. -/
theorem exists_nameParts {name : List Char} (accepted : Grammar.identifier.pattern.Matches name) :
    name ≠ [] ∧ ∃ parts : List (List Char), name = parts.flatten ∧ ∀ part ∈ parts, NamePart part := by
  have marks : ∀ mark ∈ ['"', '\\', '\r', '\n'], Grammar.outsideName.has mark = true :=
    List.all_eq_true.mp rfl
  rw [identifier_shape] at accepted
  -- The class holds the marks of literals.
  have plain (c : Char) (filled : c ≠ '\x00') (inside : ¬ Grammar.outsideName.has c = true) :
      isPlain .double c = true := by
    have differ (mark : Char) (member : mark ∈ ['"', '\\', '\r', '\n']) : c ≠ mark :=
      fun same => inside (same ▸ marks mark member)
    simp [isPlain, Program.Quote.char, filled, differ '"' (by simp), differ '\\' (by simp), differ '\r' (by simp),
      differ '\n' (by simp)]
  obtain ⟨first, _, rfl, starts, rest, rfl, each⟩ := accepted
  have start : NamePart first := by
    refine namePart_of_matches (fun c held => ?_) starts
    have direct : (Grammar.outsideName ++ CharClass.digit).complement = false := rfl
    rw [CharClass.has_except direct, CharClass.has_append rfl rfl, Bool.or_eq_true, not_or] at held
    exact plain c held.1 held.2.1
  refine ⟨List.append_ne_nil_of_left_ne_nil start.ne_nil _, first :: rest, rfl, List.forall_mem_cons.mpr ⟨start, ?_⟩⟩
  intro part member
  refine namePart_of_matches (fun c held => ?_) (each part member)
  rw [CharClass.has_except rfl] at held
  exact plain c held.1 held.2

/-! ## Units -/

private theorem units_char {c : Char} (plain : isPlain .double c = true) : escapeUnits [c] = Utf16.encode [c] := by
  unfold escapeUnits
  split
  next same => cases same
  next same =>
    obtain rfl := (List.cons.inj same).1
    simp [isPlain] at plain
  next => rfl

private theorem units_unit {digits : List Char} (four : digits.length = 4) (hex : digits.all isHexDigit = true) :
    ∃ unit < 0x10000, escapeUnits ('\\' :: 'u' :: digits) = [unit] := by
  have filled : digits ≠ [] := List.length_pos_iff.mp (by omega)
  obtain ⟨unit, small, read⟩ := readHex_of_all hex 0
  rw [four] at small
  exact ⟨unit, by omega, by simp [escapeUnits, unitsAfter, braced_of_all hex, hex_of_all filled hex, read, four]⟩

/-- An escape in braces is a character, or stands for itself if no character has its number. -/
private theorem units_braced {digits : List Char} (filled : digits ≠ []) (hex : digits.all isHexDigit = true) :
    (∃ c, escapeUnits ('\\' :: 'u' :: '\x7b' :: (digits ++ ['\x7d'])) = Utf16.unitsOf c) ∨
      escapeUnits ('\\' :: 'u' :: '\x7b' :: (digits ++ ['\x7d'])) =
        Utf16.encode ('\\' :: 'u' :: '\x7b' :: (digits ++ ['\x7d'])) := by
  obtain ⟨code, -, read⟩ := readHex_of_all hex 0
  cases found : char? code with
  | some c => exact .inl ⟨c, by simp [escapeUnits, unitsAfter, braced?, hex_of_all filled hex, read, found]⟩
  | none => exact .inr (by simp [escapeUnits, unitsAfter, braced?, hex_of_all filled hex, read, found])

/-- Between quotes, a part stands for itself or for fewer units than it has. -/
theorem NamePart.units {part : List Char} (isPart : NamePart part) :
    (∀ unit ∈ escapeUnits part, unit < 0x10000) ∧
      (escapeUnits part = Utf16.encode part ∨ (escapeUnits part).length < (Utf16.encode part).length) := by
  have written := Utf16.length_le_encode part
  cases isPart with
  | @char c plain =>
    have same := units_char plain
    exact ⟨same ▸ Utf16.encode_lt [c], .inl same⟩
  | @unit digits four hex =>
    obtain ⟨unit, small, same⟩ := units_unit four hex
    simp only [List.length_cons] at written
    rw [same]
    exact ⟨by simpa using small, .inr (by rw [List.length_singleton]; omega)⟩
  | @braced digits filled hex =>
    rcases units_braced filled hex with ⟨c, same⟩ | same
    · have most := (Utf16.length_unitsOf c).2
      simp only [List.length_cons, List.length_append] at written
      rw [same]
      exact ⟨Utf16.unitsOf_lt c, .inr (by omega)⟩
    · exact ⟨same ▸ Utf16.encode_lt _, .inl same⟩

/-- A part that is no escape stands for itself. -/
theorem NamePart.units_of_plain {part : List Char} (isPart : NamePart part) (plain : '\\' ∉ part) :
    escapeUnits part = Utf16.encode part := by
  cases isPart with
  | char own => exact units_char own
  | _ => exact absurd List.mem_cons_self plain

theorem NamePart.filled {part : List Char} (isPart : NamePart part) : escapeUnits part ≠ [] := by
  have written := Utf16.length_le_encode part
  apply List.length_pos_iff.mp
  cases isPart with
  | @char c plain =>
    rw [units_char plain]
    exact written
  | unit four hex =>
    obtain ⟨unit, -, same⟩ := units_unit four hex
    rw [same]
    exact Nat.one_pos
  | @braced digits filled hex =>
    rcases units_braced filled hex with ⟨c, same⟩ | same
    · rw [same]
      exact (Utf16.length_unitsOf c).1
    · rw [same]
      exact Nat.lt_of_lt_of_le (Nat.succ_pos _) written

/-- The units of the literal of a name are those of its parts. -/
theorem units_nameParts {parts : List (List Char)} (each : ∀ part ∈ parts, NamePart part) :
    units .double (parts.flatten ++ ['"']) = some (parts.flatMap escapeUnits) := by
  induction parts with
  | nil => exact units_closing .double
  | cons part parts ih =>
    obtain ⟨isPart, later⟩ := List.forall_mem_cons.mp each
    rw [List.flatten_cons, List.append_assoc, List.flatMap_cons]
    generalize parts.flatten ++ ['"'] = rest at ih
    -- An escape takes nothing of what is behind it.
    have escaped {body : List Char} (escape : EscapeBody ('u' :: body)) :
        StringLiteral.units .double ('\\' :: 'u' :: (body ++ rest)) =
          some (escapeUnits ('\\' :: 'u' :: body) ++ parts.flatMap escapeUnits) := by
      have apart : ∀ next ∈ rest.head?, ¬ Takes ('u' :: body) next :=
        fun next _ => not_takes body (by decide) (by decide)
      have own : StringLiteral.units .double ('\\' :: ('u' :: body ++ rest)) = _ := units_escape escape apart
      rw [List.cons_append] at own
      rw [own, ih later, Option.map_some]
    cases isPart with
    | @char c plain =>
      rw [List.singleton_append, units_plain plain, ih later, Option.map_some, units_char plain, Utf16.encode,
        List.flatMap_singleton]
    | unit four hex => exact escaped (.unit four hex)
    | braced filled hex => exact escaped (.braced filled hex)

private theorem length_units_le {parts : List (List Char)} (each : ∀ part ∈ parts, NamePart part) :
    (parts.flatMap escapeUnits).length ≤ (parts.flatMap Utf16.encode).length := by
  induction parts with
  | nil => exact Nat.le_refl _
  | cons part parts ih =>
    obtain ⟨isPart, later⟩ := List.forall_mem_cons.mp each
    have rest := ih later
    rw [List.flatMap_cons, List.flatMap_cons, List.length_append, List.length_append]
    rcases isPart.units.2 with same | shorter
    · rw [same]
      omega
    · omega

/-- Parts that lose no units stand for themselves. -/
private theorem units_of_length_eq {parts : List (List Char)} (each : ∀ part ∈ parts, NamePart part)
    (sizes : (parts.flatMap escapeUnits).length = (parts.flatMap Utf16.encode).length) :
    ∀ part ∈ parts, escapeUnits part = Utf16.encode part := by
  induction parts with
  | nil => exact List.forall_mem_nil _
  | cons part parts ih =>
    obtain ⟨isPart, later⟩ := List.forall_mem_cons.mp each
    have rest := length_units_le later
    rw [List.flatMap_cons, List.flatMap_cons, List.length_append, List.length_append] at sizes
    rcases isPart.units.2 with same | shorter
    · rw [same] at sizes
      exact List.forall_mem_cons.mpr ⟨same, ih later (by omega)⟩
    · omega

/-- What the parts of a name stand for is the name exactly when each of them stands for itself. -/
theorem lossy_eq_iff {parts : List (List Char)} (each : ∀ part ∈ parts, NamePart part) :
    Utf16.lossy (parts.flatMap escapeUnits) = parts.flatten ↔
      ∀ part ∈ parts, escapeUnits part = Utf16.encode part := by
  constructor
  · intro same
    -- A text has as many units as it is decoded from, so no part can have lost any.
    have small : ∀ unit ∈ parts.flatMap escapeUnits, unit < 0x10000 := by
      intro unit member
      obtain ⟨part, listed, within⟩ := List.mem_flatMap.mp member
      exact (each part listed).units.1 unit within
    have sizes := Utf16.length_encode_lossy small
    rw [same, Utf16.encode_flatten] at sizes
    exact units_of_length_eq each sizes.symm
  · intro same
    have whole : parts.flatMap escapeUnits = parts.flatMap Utf16.encode := List.flatMap_congr same
    rw [whole, ← Utf16.encode_flatten, Utf16.lossy_encode]

/-- A name stands for some text. -/
theorem lossy_filled {parts : List (List Char)} (each : ∀ part ∈ parts, NamePart part) (filled : parts.flatten ≠ []) :
    Utf16.lossy (parts.flatMap escapeUnits) ≠ [] := by
  cases parts with
  | nil => exact absurd rfl filled
  | cons part parts =>
    obtain ⟨unit, units, first⟩ := List.exists_cons_of_ne_nil (each part List.mem_cons_self).filled
    rw [List.flatMap_cons, first, List.cons_append]
    exact Utf16.lossy_filled unit _

end EnvAudit.Script.StringLiteral
