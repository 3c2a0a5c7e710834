import EnvAudit.Proofs.Text.Utf8

/-!
# Sizes of texts that are read from any bytes

A part that is no UTF-8 has up to three bytes, and the character that stands for it has three. So a text is never shorter
than its bytes, and longer by what the replacements add.
-/
namespace EnvAudit.Text.Utf8

/-- The bytes that replacements add to a text: for each part that is replaced, those that it lacks to three. -/
def added : Bytes → Nat
  | [] => 0
  | first :: rest =>
    have := length_next_le first rest
    (if (next first rest).1.isSome then 0 else 3 - (rest.length + 1 - (next first rest).2.length)) +
      added (next first rest).2
termination_by bytes => bytes.length

theorem added_nil : added [] = 0 := by rw [added]

/-- A character that is read adds nothing. -/
theorem added_of_next {first : UInt8} {rest behind : Bytes} {c : Char} (found : next first rest = (some c, behind)) :
    added (first :: rest) = added behind := by
  rw [added, found, Option.isSome_some, if_pos rfl, Nat.zero_add]

theorem added_of_broken {first : UInt8} {rest behind : Bytes} (broken : next first rest = (none, behind)) :
    added (first :: rest) = 3 - (rest.length + 1 - behind.length) + added behind := by
  rw [added, broken]
  rfl

/-- At most three bytes are replaced by one character. -/
theorem length_broken {first : UInt8} {rest behind : Bytes} (broken : next first rest = (none, behind)) :
    rest.length ≤ behind.length + 2 := by
  have size : rest.length ≤ (next first rest).2.length + 2 ∨ (next first rest).1.isSome = true := by
    unfold next
    repeat' split
    all_goals simp
  rw [broken] at size
  exact size.resolve_right (by simp)

/-- A text has the bytes that it is read from and those that replacements add. -/
theorem size_lossy : (bytes : Bytes) → (lossy bytes).utf8ByteSize = bytes.length + added bytes
  | [] => by
    rw [lossy_nil, added_nil]
    rfl
  | first :: rest => by
    have shorter := length_next_le first rest
    have inner := size_lossy (next first rest).2
    rw [← length_encode, encode] at inner ⊢
    rw [lossy_cons, List.flatMap_cons, List.length_append, inner]
    rcases read : next first rest with ⟨found, behind⟩
    rw [read] at shorter
    cases found with
    | some c =>
      have taken := congrArg List.length (encode_of_next read)
      rw [List.length_append] at taken
      rw [added_of_next read, Option.getD_some, taken]
      dsimp only
      omega
    | none =>
      have taken := length_broken read
      have three : (String.utf8EncodeChar replacement).length = 3 := by decide
      rw [added_of_broken read, Option.getD_none, three, List.length_cons]
      dsimp only at shorter ⊢
      omega
termination_by bytes => bytes.length

theorem added_of_isValid : (bytes : Bytes) → isValid bytes = true → added bytes = 0
  | [], _ => added_nil
  | first :: rest, valid => by
    have shorter := length_next_le first rest
    rw [isValid_cons, Bool.and_eq_true] at valid
    obtain ⟨c, read⟩ := Option.isSome_iff_exists.mp valid.1
    rw [added_of_next (Prod.ext read rfl)]
    exact added_of_isValid _ valid.2
termination_by bytes => bytes.length

/-- Replacements at most triple a text. -/
theorem added_le : (bytes : Bytes) → added bytes ≤ 2 * bytes.length
  | [] => by
    rw [added_nil]
    exact Nat.zero_le _
  | first :: rest => by
    have shorter := length_next_le first rest
    have inner := added_le (next first rest).2
    rw [added, List.length_cons]
    split <;> omega
termination_by bytes => bytes.length

/-! ## Bytes that are each read alone -/

theorem added_ascii {front : Bytes} (ascii : ∀ byte ∈ front, byte < 0x80) (rest : Bytes) :
    added (front ++ rest) = added rest := by
  induction front with
  | nil => rfl
  | cons byte front ih =>
    have read : next byte (front ++ rest) = (some (Char.ofNat byte.toNat), front ++ rest) := by
      unfold next
      rw [if_pos (ascii byte List.mem_cons_self)]
    rw [List.cons_append, added_of_next read]
    exact ih fun other member => ascii other (List.mem_cons_of_mem _ member)

/-- A byte that begins no character is replaced alone, which triples it. -/
theorem added_replicate (count : Nat) : added (List.replicate count 0xff) = 2 * count := by
  induction count with
  | zero => rw [List.replicate_zero, added_nil]
  | succ count ih =>
    have broken : next 0xff (List.replicate count 0xff) = (none, List.replicate count 0xff) := rfl
    rw [List.replicate_succ, added_of_broken broken, ih]
    omega

end EnvAudit.Text.Utf8
