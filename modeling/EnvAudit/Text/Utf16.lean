/-!
# UTF-16

Text as units of 16 bits. A half of a pair without its other half is read as a replacement character.
-/
namespace EnvAudit.Text.Utf16

/-- The units of a character: one, or a pair above U+FFFF. -/
def unitsOf (c : Char) : List Nat :=
  let code := c.toNat
  if code < 0x10000 then [code] else [0xd800 + (code - 0x10000) / 0x400, 0xdc00 + (code - 0x10000) % 0x400]

def encode (text : List Char) : List Nat := text.flatMap unitsOf

def isHigh (unit : Nat) : Bool := 0xd800 ≤ unit && unit < 0xdc00

def isLow (unit : Nat) : Bool := 0xdc00 ≤ unit && unit < 0xe000

/-- The text of some units. -/
def lossy : List Nat → List Char
  | [] => []
  | [unit] => [if isHigh unit || isLow unit then '\ufffd' else Char.ofNat unit]
  | unit :: next :: rest =>
    if isHigh unit && isLow next then
      Char.ofNat (0x10000 + (unit - 0xd800) * 0x400 + (next - 0xdc00)) :: lossy rest
    else (if isHigh unit || isLow unit then '\ufffd' else Char.ofNat unit) :: lossy (next :: rest)

end EnvAudit.Text.Utf16
