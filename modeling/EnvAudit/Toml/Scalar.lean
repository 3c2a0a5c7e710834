import EnvAudit.Toml.Reader

/-!
# TOML numbers, dates and truth values

Numbers may have underscores between their digits. Dates and times are checked, but nothing else is made of them.
-/
namespace EnvAudit.Toml.Reader

private def isDigit (c : Char) : Bool := c.isDigit

private def digitValue (c : Char) : Nat :=
  if c.isDigit then c.toNat - '0'.toNat else c.toLower.toNat - 'a'.toNat + 10

private def valueIn (base : Nat) (digits : List Char) : Nat :=
  digits.foldl (fun value digit => value * base + digitValue digit) 0

/-! ## Integers -/

/-- Digits with single underscores between them. -/
def digitRun (isMember : Char → Bool) : Reader (List Char) := do
  let first ← one isMember
  let rest ← many <| orElse (one isMember) do
    char '_'
    expecting ["digit"] (firmly (one isMember))
  return first :: rest

def sign : Reader Bool := return (← optional (one fun c => c = '+' || c = '-')) = some '-'

/-- A sign and decimal digits without a leading zero. -/
def decimalDigits : Reader (Bool × List Char) :=
  labelled "integer" do
    let negative ← sign
    match ← peek? with
    | some '0' => return (negative, [← next])
    | _ => return (negative, ← digitRun isDigit)

def leastInteger : Int := -0x8000000000000000

def mostInteger : Int := 0x7fffffffffffffff

private def inRange (value : Int) : Except String Int :=
  if value > mostInteger then .error "number too large to fit in target type"
  else if value < leastInteger then .error "number too small to fit in target type"
  else .ok value

private def digitsIn (label : String) (base : Nat) (isMember : Char → Bool) : Reader Int :=
  firmly <| checked (fun digits => inRange (valueIn base digits)) <| labelled label do
    discard (takeAtMost 2 fun _ => true)
    digitRun isMember

def integer : Reader Int := do
  if ← startsWith "0x" then
    digitsIn "hexadecimal integer" 16 fun c => c.isDigit || ('a' ≤ c.toLower && c.toLower ≤ 'f')
  else if ← startsWith "0o" then digitsIn "octal integer" 8 fun c => '0' ≤ c && c ≤ '7'
  else if ← startsWith "0b" then digitsIn "binary integer" 2 fun c => c = '0' || c = '1'
  else do
    let start ← offset
    let (negative, digits) ← decimalDigits
    let value : Int := valueIn 10 digits
    match inRange (if negative then -value else value) with
    | .ok value => return value
    | .error cause => firmly (refuse start cause)

/-! ## Fractions -/

private def fraction : Reader (List Char) := do
  char '.'
  expecting ["digit"] (firmly (digitRun isDigit))

private def power : Reader Int := do
  discard (one fun c => c = 'e' || c = 'E')
  let negative ← sign
  let digits ← firmly (digitRun isDigit)
  let value : Int := valueIn 10 digits
  return if negative then -value else value

private def decimalFraction : Reader Double := do
  let start ← offset
  let (negative, whole) ← decimalDigits
  let (places, exponent) ← orElse (do return ([], ← power)) do
    let places ← fraction
    return (places, (← optional power).getD 0)
  let decimal : Decimal := ⟨valueIn 10 (whole ++ places), exponent - places.length⟩
  match Double.ofDecimal negative decimal with
  | .infinite false => firmly (failAt start)
  | value => return value

def infinity : Reader Double := do
  literal "inf"
  return .infinite false

def notANumber : Reader Double := do
  literal "nan"
  return .notANumber

private def negate : Double → Double
  | .finite negative value => .finite (!negative) value
  | .infinite negative => .infinite (!negative)
  | .notANumber => .notANumber

private def specialNumber : Reader Double := do
  let negative ← sign
  let value ← orElse infinity notANumber
  return if negative then negate value else value

def float : Reader Double := labelled "floating-point number" (orElse decimalFraction specialNumber)

/-! ## Dates and times -/

/-- A number of two digits within bounds. -/
private def twoDigits (least most : Nat) : Reader Nat :=
  checked (fun digits =>
    let value := valueIn 10 digits
    if least ≤ value && value ≤ most then .ok value else .error "value is out of range")
    (takeExactly 2 isDigit)

def daysIn (year month : Nat) : Nat :=
  if month = 2 then if year % 4 = 0 && (year % 100 ≠ 0 || year % 400 = 0) then 29 else 28
  else if [4, 6, 9, 11].contains month then 30
  else 31

private def date : Reader Unit := do
  let year := valueIn 10 (← takeExactly 4 isDigit)
  char '-'
  firmly do
    let month ← twoDigits 1 12
    char '-'
    let start ← offset
    let day ← twoDigits 1 31
    if daysIn year month < day then refuse start "value is out of range"

private def time : Reader Unit := do
  discard (twoDigits 0 23)
  char ':'
  firmly do
    discard (twoDigits 0 59)
    char ':'
    discard (twoDigits 0 60)
    discard <| optional do
      char '.'
      takeSome isDigit

private def timeOffset : Reader Unit :=
  labelled "time offset" <| orElse (discard (one fun c => c = 'Z' || c = 'z')) do
    discard (one fun c => c = '+' || c = '-')
    firmly do
      discard (twoDigits 0 23)
      char ':'
      discard (twoDigits 0 59)

def dateTime : Reader Unit :=
  orElse
    (labelled "date-time" do
      date
      discard <| optional do
        discard (one fun c => c = 'T' || c = 't' || c = ' ')
        time
        optional timeOffset)
    (labelled "time" time)

end EnvAudit.Toml.Reader
