import EnvAudit.Text.Utf16

/-! Text that is written as units of 16 bits is read back as it was. -/
namespace EnvAudit.Text.Utf16

private theorem not_surrogate (c : Char) : c.toNat < 0xd800 ∨ 0xdfff < c.toNat ∧ c.toNat < 0x110000 := by
  rcases c.valid with low | high
  · exact .inl low
  · exact .inr high

/-- A character in one unit is no half of a pair. -/
private theorem lossy_unit {c : Char} (single : c.toNat < 0x10000) (rest : List Nat) :
    lossy (c.toNat :: rest) = c :: lossy rest := by
  have whole := not_surrogate c
  have high : isHigh c.toNat = false := by
    simp only [isHigh, Bool.and_eq_false_iff, decide_eq_false_iff_not]
    omega
  have low : isLow c.toNat = false := by
    simp only [isLow, Bool.and_eq_false_iff, decide_eq_false_iff_not]
    omega
  -- Whatever follows, no pair is tried.
  cases rest <;> simp [lossy, high, low, Char.ofNat_toNat]

private theorem lossy_pair {c : Char} (pair : 0x10000 ≤ c.toNat) (rest : List Nat) :
    lossy ((0xd800 + (c.toNat - 0x10000) / 0x400) :: (0xdc00 + (c.toNat - 0x10000) % 0x400) :: rest) =
      c :: lossy rest := by
  have whole := not_surrogate c
  have high : isHigh (0xd800 + (c.toNat - 0x10000) / 0x400) = true := by
    simp only [isHigh, Bool.and_eq_true, decide_eq_true_eq]
    omega
  have low : isLow (0xdc00 + (c.toNat - 0x10000) % 0x400) = true := by
    simp only [isLow, Bool.and_eq_true, decide_eq_true_eq]
    omega
  have code : 0x10000 + (0xd800 + (c.toNat - 0x10000) / 0x400 - 0xd800) * 0x400 +
      (0xdc00 + (c.toNat - 0x10000) % 0x400 - 0xdc00) = c.toNat := by omega
  rw [lossy, high, low, code, Char.ofNat_toNat]
  rfl

theorem lossy_encode (text : List Char) : lossy (encode text) = text := by
  induction text with
  | nil => rfl
  | cons c text ih =>
    have cons : encode (c :: text) = unitsOf c ++ encode text := rfl
    rw [cons, unitsOf]
    split
    next single => rw [List.singleton_append, lossy_unit single, ih]
    next pair =>
      rw [List.cons_append, List.singleton_append, lossy_pair (Nat.le_of_not_lt pair), ih]

theorem lossy_filled (unit : Nat) (units : List Nat) : lossy (unit :: units) ≠ [] := by
  cases units with
  | nil => exact List.cons_ne_nil _ _
  | cons next rest =>
    rw [lossy]
    split <;> exact List.cons_ne_nil _ _

/-! ## Numbers of units -/

theorem encode_append (front behind : List Char) : encode (front ++ behind) = encode front ++ encode behind :=
  List.flatMap_append

theorem encode_flatten (parts : List (List Char)) : encode parts.flatten = parts.flatMap encode := by
  induction parts with
  | nil => rfl
  | cons part parts ih => rw [List.flatten_cons, encode_append, ih, List.flatMap_cons]

theorem unitsOf_lt (c : Char) : ∀ unit ∈ unitsOf c, unit < 0x10000 := by
  have whole := not_surrogate c
  rw [unitsOf]
  split
  next single => simpa using single
  next pair =>
    simp only [List.mem_cons, List.not_mem_nil, or_false, forall_eq_or_imp, forall_eq]
    omega

theorem encode_lt (text : List Char) : ∀ unit ∈ encode text, unit < 0x10000 := by
  intro unit member
  obtain ⟨c, -, within⟩ := List.mem_flatMap.mp member
  exact unitsOf_lt c unit within

theorem length_unitsOf (c : Char) : 1 ≤ (unitsOf c).length ∧ (unitsOf c).length ≤ 2 := by
  rw [unitsOf]
  split <;> simp

theorem length_le_encode (text : List Char) : text.length ≤ (encode text).length := by
  induction text with
  | nil => exact Nat.le_refl _
  | cons c text ih =>
    have one := (length_unitsOf c).1
    have cons : encode (c :: text) = unitsOf c ++ encode text := rfl
    rw [cons, List.length_append, List.length_cons]
    omega

private theorem toNat_ofNat {code : Nat} (valid : code.isValidChar) : (Char.ofNat code).toNat = code := by
  rw [Char.ofNat, dif_pos valid]
  rfl

/-- A unit that is read alone gives one unit again. -/
private theorem length_alone {unit : Nat} (small : unit < 0x10000) :
    (unitsOf (if isHigh unit || isLow unit then '\ufffd' else Char.ofNat unit)).length = 1 := by
  split
  next => rfl
  next whole =>
    have valid : unit.isValidChar := by
      simp only [isHigh, isLow, Bool.or_eq_true, Bool.and_eq_true, decide_eq_true_eq] at whole
      rw [Nat.isValidChar]
      omega
    rw [unitsOf, toNat_ofNat valid, if_pos small]
    rfl

/-- The text that some units are read as has as many units. -/
theorem length_encode_lossy {units : List Nat} (small : ∀ unit ∈ units, unit < 0x10000) :
    (encode (lossy units)).length = units.length := by
  have cons (c : Char) (text : List Char) : encode (c :: text) = unitsOf c ++ encode text := rfl
  fun_induction lossy units with
  | case1 => rfl
  | case2 unit =>
    rw [cons, List.length_append, length_alone (small unit (by simp))]
    rfl
  | case3 unit next rest both ih =>
    -- A pair is read as one character, and that has two units.
    simp only [isHigh, isLow, Bool.and_eq_true, decide_eq_true_eq] at both
    have code : 0x10000 ≤ 0x10000 + (unit - 0xd800) * 0x400 + (next - 0xdc00) := by omega
    have valid : (0x10000 + (unit - 0xd800) * 0x400 + (next - 0xdc00)).isValidChar := by
      rw [Nat.isValidChar]
      omega
    obtain ⟨-, later⟩ := List.forall_mem_cons.mp (List.forall_mem_cons.mp small).2
    rw [cons, List.length_append, ih later, unitsOf, toNat_ofNat valid, if_neg (Nat.not_lt.mpr code), List.length_cons,
      List.length_cons, List.length_cons, List.length_cons, List.length_nil]
    omega
  | case4 unit next rest apart ih =>
    obtain ⟨here, later⟩ := List.forall_mem_cons.mp small
    rw [cons, List.length_append, length_alone here, ih later, Nat.add_comm]
    rfl

end EnvAudit.Text.Utf16
