/-!
# UTF-8

Bytes read as text. Where the bytes are no UTF-8, each longest part that could still have become a character is
read as one replacement character.
-/
namespace EnvAudit

abbrev Bytes := List UInt8

namespace Text.Utf8

/-- The character that stands for bytes that are no UTF-8. -/
def replacement : Char := '\ufffd'

def isTail (byte : UInt8) : Bool := 0x80 ≤ byte && byte ≤ 0xbf

/-- The bytes that may follow the first byte of three. -/
def isSecondOfThree (first second : UInt8) : Bool :=
  if first = 0xe0 then 0xa0 ≤ second && second ≤ 0xbf
  else if first = 0xed then 0x80 ≤ second && second ≤ 0x9f
  else isTail second

/-- The bytes that may follow the first byte of four. -/
def isSecondOfFour (first second : UInt8) : Bool :=
  if first = 0xf0 then 0x90 ≤ second && second ≤ 0xbf
  else if first = 0xf4 then 0x80 ≤ second && second ≤ 0x8f
  else isTail second

def join (high : Nat) (tails : List UInt8) : Char :=
  Char.ofNat (tails.foldl (fun value tail => value * 64 + (tail.toNat - 0x80)) high)

/-- The first character of some bytes, or nothing where they are no UTF-8, and the bytes behind it. -/
def next (first : UInt8) (rest : Bytes) : Option Char × Bytes :=
  if first < 0x80 then (some (Char.ofNat first.toNat), rest)
  else if 0xc2 ≤ first && first ≤ 0xdf then
    match rest with
    | second :: behind => if isTail second then (some (join (first.toNat - 0xc0) [second]), behind) else (none, rest)
    | [] => (none, rest)
  else if 0xe0 ≤ first && first ≤ 0xef then
    match rest with
    | second :: behind =>
      if isSecondOfThree first second then
        match behind with
        | third :: last =>
          if isTail third then (some (join (first.toNat - 0xe0) [second, third]), last) else (none, behind)
        | [] => (none, behind)
      else (none, rest)
    | [] => (none, rest)
  else if 0xf0 ≤ first && first ≤ 0xf4 then
    match rest with
    | second :: behind =>
      if isSecondOfFour first second then
        match behind with
        | third :: last =>
          if isTail third then
            match last with
            | fourth :: final =>
              if isTail fourth then (some (join (first.toNat - 0xf0) [second, third, fourth]), final)
              else (none, last)
            | [] => (none, last)
          else (none, behind)
        | [] => (none, behind)
      else (none, rest)
    | [] => (none, rest)
  else (none, rest)

theorem length_next_le (first : UInt8) (rest : Bytes) : (next first rest).2.length ≤ rest.length := by
  unfold next
  repeat' split
  all_goals simp only [List.length_cons, Nat.le_refl]
  all_goals omega

/-- Puts the characters of the bytes in front of `read`, the last one first. -/
private def readOnto (read : List Char) : Bytes → List Char
  | [] => read
  | first :: rest =>
    have := length_next_le first rest
    readOnto ((next first rest).1.getD replacement :: read) (next first rest).2
termination_by bytes => bytes.length

/-- The text of any bytes. -/
def lossy (bytes : Bytes) : String := String.ofList (readOnto [] bytes).reverse

private theorem readOnto_eq (read : List Char) : (bytes : Bytes) → readOnto read bytes = readOnto [] bytes ++ read
  | [] => by simp [readOnto]
  | first :: rest => by
    have := length_next_le first rest
    rw [readOnto, readOnto_eq _ (next first rest).2, readOnto, readOnto_eq [_] (next first rest).2]
    simp
termination_by bytes => bytes.length

theorem lossy_nil : lossy [] = "" := by simp [lossy, readOnto]

theorem lossy_cons (first : UInt8) (rest : Bytes) : (lossy (first :: rest)).toList =
    (next first rest).1.getD replacement :: (lossy (next first rest).2).toList := by
  rw [lossy, readOnto, readOnto_eq]
  simp [lossy]

/-- Whether all bytes are UTF-8. -/
def isValid : Bytes → Bool
  | [] => true
  | first :: rest =>
    have := length_next_le first rest
    (next first rest).1.isSome && isValid (next first rest).2
termination_by bytes => bytes.length

/-- The text of bytes that are UTF-8. -/
def decode? (bytes : Bytes) : Option String := if isValid bytes then some (lossy bytes) else none

/-- The bytes of a text. -/
def encode (text : String) : Bytes := text.toList.flatMap String.utf8EncodeChar

end Text.Utf8

end EnvAudit
