import EnvAudit.Text.Utf8
import Mathlib

/-! Bytes are UTF-8 if they are the bytes of a text, and only then; the text is read back from them. -/
namespace EnvAudit.Text.Utf8

/-! ## The bytes of a character -/

section Encoded

variable {code : Nat}

private theorem val_ofNat (code : Nat) (valid : code.isValidChar) : (Char.ofNat code).val.toNat = code :=
  (Char.toNat_ofNat code).trans (if_pos valid)

private theorem encode_one (low : code < 0x80) : String.utf8EncodeChar (Char.ofNat code) = [UInt8.ofNat code] := by
  have val := val_ofNat code (by simp [Nat.isValidChar]; omega)
  simp only [String.utf8EncodeChar, val]
  rw [if_pos (by omega)]

private theorem encode_two (low : 0x80 ≤ code) (high : code < 0x800) :
    String.utf8EncodeChar (Char.ofNat code) = [UInt8.ofNat (code / 64 + 0xc0), UInt8.ofNat (code % 64 + 0x80)] := by
  have val := val_ofNat code (by simp [Nat.isValidChar]; omega)
  simp only [String.utf8EncodeChar, val]
  rw [if_neg (by omega), if_pos (by omega), Nat.mod_eq_of_lt (a := code / 64) (by omega)]

private theorem encode_three (low : 0x800 ≤ code) (high : code < 0x10000) (valid : code < 0xd800 ∨ 0xdfff < code) :
    String.utf8EncodeChar (Char.ofNat code) =
      [UInt8.ofNat (code / 4096 + 0xe0), UInt8.ofNat (code / 64 % 64 + 0x80), UInt8.ofNat (code % 64 + 0x80)] := by
  have val := val_ofNat code (by simp [Nat.isValidChar]; omega)
  simp only [String.utf8EncodeChar, val]
  rw [if_neg (by omega), if_neg (by omega), if_pos (by omega), Nat.mod_eq_of_lt (a := code / 4096) (by omega)]

private theorem encode_four (low : 0x10000 ≤ code) (high : code < 0x110000) :
    String.utf8EncodeChar (Char.ofNat code) =
      [UInt8.ofNat (code / 262144 + 0xf0), UInt8.ofNat (code / 4096 % 64 + 0x80), UInt8.ofNat (code / 64 % 64 + 0x80),
        UInt8.ofNat (code % 64 + 0x80)] := by
  have val := val_ofNat code (by simp [Nat.isValidChar]; omega)
  simp only [String.utf8EncodeChar, val]
  rw [if_neg (by omega), if_neg (by omega), if_neg (by omega), Nat.mod_eq_of_lt (a := code / 262144) (by omega)]

end Encoded

/-! ## One character -/

section Bounds

variable {first second byte : UInt8}

private theorem isTail_iff : isTail byte = true ↔ 0x80 ≤ byte.toNat ∧ byte.toNat ≤ 0xbf := by
  simp [isTail, UInt8.le_iff_toNat_le]

private theorem isSecondOfThree_iff : isSecondOfThree first second = true ↔
    0x80 ≤ second.toNat ∧ second.toNat ≤ 0xbf ∧ (first.toNat = 0xe0 → 0xa0 ≤ second.toNat) ∧
      (first.toNat = 0xed → second.toNat ≤ 0x9f) := by
  simp only [isSecondOfThree, ← UInt8.toNat_inj]
  split
  · simp [UInt8.le_iff_toNat_le] at *
    omega
  · split
    · simp [UInt8.le_iff_toNat_le] at *
      omega
    · rw [isTail_iff]
      simp at *
      omega

private theorem isSecondOfFour_iff : isSecondOfFour first second = true ↔
    0x80 ≤ second.toNat ∧ second.toNat ≤ 0xbf ∧ (first.toNat = 0xf0 → 0x90 ≤ second.toNat) ∧
      (first.toNat = 0xf4 → second.toNat ≤ 0x8f) := by
  simp only [isSecondOfFour, ← UInt8.toNat_inj]
  split
  · simp [UInt8.le_iff_toNat_le] at *
    omega
  · split
    · simp [UInt8.le_iff_toNat_le] at *
      omega
    · rw [isTail_iff]
      simp at *
      omega

/-- A byte that goes on no character is no second byte either. -/
private theorem not_second (other : isTail second = false) :
    isSecondOfThree first second = false ∧ isSecondOfFour first second = false := by
  rw [← Bool.not_eq_true, isTail_iff] at other
  rw [← Bool.not_eq_true, ← Bool.not_eq_true, isSecondOfThree_iff, isSecondOfFour_iff]
  constructor
  · rintro ⟨low, high, -⟩
    exact other ⟨low, high⟩
  · rintro ⟨low, high, -⟩
    exact other ⟨low, high⟩

variable {third fourth : UInt8} {rest : Bytes}

private theorem next_one (one : first.toNat < 0x80) : next first rest = (some (Char.ofNat first.toNat), rest) := by
  unfold next
  rw [if_pos (UInt8.lt_iff_toNat_lt.mpr one)]

private theorem next_two (low : 0xc2 ≤ first.toNat) (high : first.toNat ≤ 0xdf) (tail : isTail second = true) :
    next first (second :: rest) =
      (some (Char.ofNat ((first.toNat - 0xc0) * 64 + (second.toNat - 0x80))), rest) := by
  simp only [next, UInt8.lt_iff_toNat_lt, UInt8.le_iff_toNat_le, UInt8.reduceToNat, Bool.and_eq_true, decide_eq_true_eq]
  rw [if_neg (by omega), if_pos ⟨low, high⟩, if_pos tail]
  rfl

private theorem next_three (low : 0xe0 ≤ first.toNat) (high : first.toNat ≤ 0xef)
    (allowed : isSecondOfThree first second = true) (tail : isTail third = true) :
    next first (second :: third :: rest) =
      (some (Char.ofNat (((first.toNat - 0xe0) * 64 + (second.toNat - 0x80)) * 64 + (third.toNat - 0x80))), rest) := by
  simp only [next, UInt8.lt_iff_toNat_lt, UInt8.le_iff_toNat_le, UInt8.reduceToNat, Bool.and_eq_true, decide_eq_true_eq]
  rw [if_neg (by omega), if_neg (by omega), if_pos ⟨low, high⟩, if_pos allowed, if_pos tail]
  rfl

private theorem next_four (low : 0xf0 ≤ first.toNat) (high : first.toNat ≤ 0xf4)
    (allowed : isSecondOfFour first second = true) (tail : isTail third = true) (last : isTail fourth = true) :
    next first (second :: third :: fourth :: rest) =
      (some (Char.ofNat ((((first.toNat - 0xf0) * 64 + (second.toNat - 0x80)) * 64 + (third.toNat - 0x80)) * 64 +
        (fourth.toNat - 0x80))), rest) := by
  simp only [next, UInt8.lt_iff_toNat_lt, UInt8.le_iff_toNat_le, UInt8.reduceToNat, Bool.and_eq_true, decide_eq_true_eq]
  rw [if_neg (by omega), if_neg (by omega), if_neg (by omega), if_pos ⟨low, high⟩, if_pos allowed, if_pos tail,
    if_pos last]
  rfl

end Bounds

private theorem byte_eq {byte : UInt8} {code : Nat} (same : byte.toNat = code) : byte = UInt8.ofNat code := by
  rw [← same, UInt8.ofNat_toNat]

section Joined

variable {first second third fourth : UInt8}

private theorem encode_join_two (low : 0xc2 ≤ first.toNat) (high : first.toNat ≤ 0xdf)
    (tail : isTail second = true) :
    String.utf8EncodeChar (join (first.toNat - 0xc0) [second]) = [first, second] := by
  have tail := isTail_iff.mp tail
  rw [join, List.foldl_cons, List.foldl_nil, encode_two (by omega) (by omega)]
  simp only [List.cons.injEq, and_true]
  exact ⟨(byte_eq (by omega)).symm, (byte_eq (by omega)).symm⟩

private theorem encode_join_three (low : 0xe0 ≤ first.toNat) (high : first.toNat ≤ 0xef)
    (allowed : isSecondOfThree first second = true) (tail : isTail third = true) :
    String.utf8EncodeChar (join (first.toNat - 0xe0) [second, third]) = [first, second, third] := by
  have allowed := isSecondOfThree_iff.mp allowed
  have tail := isTail_iff.mp tail
  rw [join, List.foldl_cons, List.foldl_cons, List.foldl_nil, encode_three (by omega) (by omega) (by omega)]
  simp only [List.cons.injEq, and_true]
  exact ⟨(byte_eq (by omega)).symm, (byte_eq (by omega)).symm, (byte_eq (by omega)).symm⟩

private theorem encode_join_four (low : 0xf0 ≤ first.toNat) (high : first.toNat ≤ 0xf4)
    (allowed : isSecondOfFour first second = true) (tail : isTail third = true) (last : isTail fourth = true) :
    String.utf8EncodeChar (join (first.toNat - 0xf0) [second, third, fourth]) = [first, second, third, fourth] := by
  have allowed := isSecondOfFour_iff.mp allowed
  have tail := isTail_iff.mp tail
  have last := isTail_iff.mp last
  rw [join, List.foldl_cons, List.foldl_cons, List.foldl_cons, List.foldl_nil, encode_four (by omega) (by omega)]
  simp only [List.cons.injEq, and_true]
  exact ⟨(byte_eq (by omega)).symm, (byte_eq (by omega)).symm, (byte_eq (by omega)).symm, (byte_eq (by omega)).symm⟩

end Joined

/-- A character that is read stands in front. -/
theorem encode_of_next {first : UInt8} {rest behind : Bytes} {c : Char} (found : next first rest = (some c, behind)) :
    first :: rest = String.utf8EncodeChar c ++ behind := by
  unfold next at found
  simp only [UInt8.lt_iff_toNat_lt, UInt8.le_iff_toNat_le, Bool.and_eq_true, decide_eq_true_eq] at found
  -- One way through for each length gives a character; all others end without one.
  split at found
  next one =>
    simp only [Prod.mk.injEq, Option.some.injEq] at found
    obtain ⟨rfl, rfl⟩ := found
    rw [encode_one one, UInt8.ofNat_toNat, List.singleton_append]
  split at found
  next two =>
    split at found
    case h_2 => cases found
    split at found
    case isFalse => cases found
    next tail =>
      simp only [Prod.mk.injEq, Option.some.injEq] at found
      obtain ⟨rfl, rfl⟩ := found
      rw [encode_join_two two.1 two.2 tail]
      rfl
  split at found
  next three =>
    split at found
    case h_2 => cases found
    split at found
    case isFalse => cases found
    next allowed =>
      split at found
      case h_2 => cases found
      split at found
      case isFalse => cases found
      next tail =>
        simp only [Prod.mk.injEq, Option.some.injEq] at found
        obtain ⟨rfl, rfl⟩ := found
        rw [encode_join_three three.1 three.2 allowed tail]
        rfl
  split at found
  case isFalse => cases found
  next four =>
    split at found
    case h_2 => cases found
    split at found
    case isFalse => cases found
    next allowed =>
      split at found
      case h_2 => cases found
      split at found
      case isFalse => cases found
      next tail =>
        split at found
        case h_2 => cases found
        split at found
        case isFalse => cases found
        next last =>
          simp only [Prod.mk.injEq, Option.some.injEq] at found
          obtain ⟨rfl, rfl⟩ := found
          rw [encode_join_four four.1 four.2 allowed tail last]
          rfl

private theorem toNat_byte (code : Nat) (small : code < 256) : (UInt8.ofNat code).toNat = code :=
  UInt8.toNat_ofNat_of_lt' small

/-- The first character of a text is read, whatever follows. -/
theorem next_encode (c : Char) (behind : Bytes) :
    ∃ first rest, String.utf8EncodeChar c ++ behind = first :: rest ∧ next first rest = (some c, behind) := by
  have whole : c.toNat < 0xd800 ∨ 0xdfff < c.toNat ∧ c.toNat < 0x110000 := c.valid
  have read {code : Nat} (same : code = c.toNat) : Char.ofNat code = c := by rw [same, Char.ofNat_toNat]
  -- By length: the bytes are known as numbers, so their bounds and what they are joined to are arithmetic.
  rcases Nat.lt_or_ge c.toNat 0x80 with one | more
  · refine ⟨_, _, congrArg (· ++ behind) (read rfl ▸ encode_one one), ?_⟩
    have first := toNat_byte c.toNat (by omega)
    rw [next_one (by omega), first, read rfl]
    rfl
  rcases Nat.lt_or_ge c.toNat 0x800 with two | more
  · refine ⟨_, _, congrArg (· ++ behind) (read rfl ▸ encode_two more two), ?_⟩
    have first := toNat_byte (c.toNat / 64 + 0xc0) (by omega)
    have second := toNat_byte (c.toNat % 64 + 0x80) (by omega)
    refine (next_two (by omega) (by omega) (isTail_iff.mpr (by omega))).trans ?_
    rw [read (by omega)]
    rfl
  rcases Nat.lt_or_ge c.toNat 0x10000 with three | four
  · refine ⟨_, _, congrArg (· ++ behind) (read rfl ▸ encode_three more three (by omega)), ?_⟩
    have first := toNat_byte (c.toNat / 4096 + 0xe0) (by omega)
    have second := toNat_byte (c.toNat / 64 % 64 + 0x80) (by omega)
    have third := toNat_byte (c.toNat % 64 + 0x80) (by omega)
    refine (next_three (by omega) (by omega) (isSecondOfThree_iff.mpr (by omega)) (isTail_iff.mpr (by omega))).trans ?_
    rw [read (by omega)]
    rfl
  · refine ⟨_, _, congrArg (· ++ behind) (read rfl ▸ encode_four four (by omega)), ?_⟩
    have first := toNat_byte (c.toNat / 262144 + 0xf0) (by omega)
    have second := toNat_byte (c.toNat / 4096 % 64 + 0x80) (by omega)
    have third := toNat_byte (c.toNat / 64 % 64 + 0x80) (by omega)
    have fourth := toNat_byte (c.toNat % 64 + 0x80) (by omega)
    refine (next_four (by omega) (by omega) (isSecondOfFour_iff.mpr (by omega)) (isTail_iff.mpr (by omega))
      (isTail_iff.mpr (by omega))).trans ?_
    rw [read (by omega)]
    rfl

/-- A byte that goes on no character ends the one before it, complete or not. -/
theorem next_append (first : UInt8) (rest : Bytes) {behind : Bytes}
    (starts : ∀ byte ∈ behind.head?, isTail byte = false) :
    next first (rest ++ behind) = ((next first rest).1, (next first rest).2 ++ behind) := by
  rcases behind with _ | ⟨byte, behind⟩
  · simp
  have tail := starts byte rfl
  obtain ⟨three, four⟩ := @not_second first byte tail
  unfold next
  -- By the length that the first byte calls for, and then by the bytes that are there.
  by_cases one : first < 0x80
  · rw [if_pos one, if_pos one]
  rw [if_neg one, if_neg one]
  by_cases two : (decide (0xc2 ≤ first) && decide (first ≤ 0xdf)) = true
  · rw [if_pos two, if_pos two]
    rcases rest with _ | ⟨second, rest⟩
    · simp [tail]
    · cases allowed : isTail second <;> simp [allowed]
  rw [if_neg two, if_neg two]
  by_cases three_ : (decide (0xe0 ≤ first) && decide (first ≤ 0xef)) = true
  · rw [if_pos three_, if_pos three_]
    rcases rest with _ | ⟨second, _ | ⟨third, rest⟩⟩
    · simp [three]
    · cases allowed : isSecondOfThree first second <;> simp [allowed, tail]
    · cases allowed : isSecondOfThree first second <;> cases also : isTail third <;> simp [allowed, also]
  rw [if_neg three_, if_neg three_]
  by_cases four_ : (decide (0xf0 ≤ first) && decide (first ≤ 0xf4)) = true
  · rw [if_pos four_, if_pos four_]
    rcases rest with _ | ⟨second, _ | ⟨third, _ | ⟨fourth, rest⟩⟩⟩
    · simp [four]
    · cases allowed : isSecondOfFour first second <;> simp [allowed, tail]
    · cases allowed : isSecondOfFour first second <;> cases also : isTail third <;> simp [allowed, also, tail]
    · cases allowed : isSecondOfFour first second <;> cases also : isTail third <;> cases last : isTail fourth <;>
        simp [allowed, also, last]
  rw [if_neg four_, if_neg four_]

/-! ## Texts -/

theorem length_encode (text : String) : (encode text).length = text.utf8ByteSize := by
  rw [encode, ← String.size_toByteArray, ← String.utf8Encode_toList, List.utf8Encode, List.size_toByteArray]

/-- Bytes that begin with no byte of a character are read apart from those before them. -/
theorem lossy_append (bytes : Bytes) {behind : Bytes} (starts : ∀ byte ∈ behind.head?, isTail byte = false) :
    (lossy (bytes ++ behind)).toList = (lossy bytes).toList ++ (lossy behind).toList := by
  induction measured : bytes.length using Nat.strong_induction_on generalizing bytes with
  | _ size ih =>
    cases bytes with
    | nil => rw [lossy_nil, List.nil_append]; rfl
    | cons first rest =>
      have shorter := length_next_le first rest
      rw [List.length_cons] at measured
      rw [List.cons_append, lossy_cons, lossy_cons, next_append first rest starts,
        ih _ (by omega) (next first rest).2 rfl, List.cons_append]

theorem isValid_cons (first : UInt8) (rest : Bytes) :
    isValid (first :: rest) = ((next first rest).1.isSome && isValid (next first rest).2) := by
  rw [isValid]

private theorem decode?_encodeAll (text : List Char) :
    isValid (text.flatMap String.utf8EncodeChar) = true ∧
      (lossy (text.flatMap String.utf8EncodeChar)).toList = text := by
  induction text with
  | nil => exact ⟨by rw [List.flatMap_nil, isValid], by rw [List.flatMap_nil, lossy_nil]; rfl⟩
  | cons c text ih =>
    obtain ⟨first, rest, bytes, read⟩ := next_encode c (text.flatMap String.utf8EncodeChar)
    rw [List.flatMap_cons, bytes, isValid_cons, lossy_cons, read, ih.1, ih.2]
    exact ⟨rfl, rfl⟩

private theorem encode_lossy : (bytes : Bytes) → isValid bytes = true → encode (lossy bytes) = bytes
  | [], _ => by rw [lossy_nil]; rfl
  | first :: rest, valid => by
    have shorter := length_next_le first rest
    rw [isValid_cons, Bool.and_eq_true] at valid
    obtain ⟨c, read⟩ := Option.isSome_iff_exists.mp valid.1
    have inner := encode_lossy (next first rest).2 valid.2
    rw [encode] at inner ⊢
    rw [lossy_cons, List.flatMap_cons, inner, read, Option.getD_some]
    exact (encode_of_next (Prod.ext read rfl)).symm
termination_by bytes => bytes.length

/-- Bytes are read as a text if they are its bytes, and not otherwise. -/
theorem decode?_eq_some_iff {bytes : Bytes} {text : String} : decode? bytes = some text ↔ encode text = bytes := by
  constructor
  · intro read
    unfold decode? at read
    split at read
    next valid =>
      cases read
      exact encode_lossy bytes valid
    next => cases read
  · rintro rfl
    obtain ⟨valid, read⟩ := decode?_encodeAll text.toList
    rw [decode?, encode, if_pos valid]
    exact congrArg some (String.toList_injective read)

theorem isValid_iff {bytes : Bytes} : isValid bytes = true ↔ ∃ text, bytes = encode text := by
  constructor
  · intro valid
    exact ⟨lossy bytes, (encode_lossy bytes valid).symm⟩
  · rintro ⟨text, rfl⟩
    exact (decode?_encodeAll text.toList).1

/-- The bytes of a text are read as the text, also where a replacement could be made. -/
theorem lossy_encode (text : String) : lossy (encode text) = text :=
  String.toList_injective (decode?_encodeAll text.toList).2

theorem encode_injective : Function.Injective encode := Function.LeftInverse.injective lossy_encode

private theorem next_of_tail {first : UInt8} (tail : isTail first = true) (rest : Bytes) :
    next first rest = (none, rest) := by
  rw [isTail_iff] at tail
  simp only [next, UInt8.lt_iff_toNat_lt, UInt8.le_iff_toNat_le, UInt8.reduceToNat, Bool.and_eq_true, decide_eq_true_eq]
  rw [if_neg (by omega), if_neg (by omega), if_neg (by omega), if_neg (by omega)]

/-- The bytes of a text are read behind any others as the text. -/
theorem lossy_append_encode (bytes : Bytes) (text : String) :
    lossy (bytes ++ encode text) = lossy bytes ++ text := by
  have starts : ∀ byte ∈ (encode text).head?, isTail byte = false := by
    intro byte begins
    rw [encode] at begins
    cases chars : text.toList with
    | nil => simp [chars] at begins
    | cons c rest =>
      obtain ⟨first, behind, bytes, read⟩ := next_encode c (rest.flatMap String.utf8EncodeChar)
      rw [chars, List.flatMap_cons, bytes] at begins
      cases begins
      by_contra tail
      cases (next_of_tail (Bool.not_eq_false _ ▸ tail) behind).symm.trans read
  apply String.toList_injective
  rw [lossy_append bytes starts, String.toList_append, lossy_encode]

end EnvAudit.Text.Utf8
