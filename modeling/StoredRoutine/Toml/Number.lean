import StoredRoutine.Decimal.Binary64
import StoredRoutine.Toml.Text

/-!
# Numbers and dates of TOML

Integers have 64 bits; floating-point numbers must not be too large; the parts of a date and of
a time have to be in their ranges. Underscores may stand between the digits of a number.
-/

namespace StoredRoutine.Toml

open Reader

/-! ## Numbers -/

/-- Takes a digit with an underscore before it or not. -/
def nextDigit (isDigit : Char → Bool) : Reader Char :=
  one isDigit <|> (char '_' *> one isDigit)

/-- Takes one or more digits. -/
def digitRun (isDigit : Char → Bool) : Reader (List Char) := do
  let first ← one isDigit
  return first :: (← many (nextDigit isDigit))

/-- Takes a sign, and says whether it is a minus. -/
def sign : Reader Bool := do
  match ← optional (one fun c => c == '+' || c == '-') with
  | some c => return c == '-'
  | none => return false

/-- Takes decimal digits without zeros in front. -/
def wholeNumber : Reader (List Char) := do
  let first ← one Char.isDigit
  if first = '0' then return ['0'] else return first :: (← many (nextDigit Char.isDigit))

/-- The number that digits make up to a base. -/
def ofDigits (base : Nat) (digits : List Char) : Nat :=
  digits.foldl (fun n c => base * n + (hexValue? c).getD 0) 0

/-- The number, if it has 64 bits. -/
def inRange (n : Int) : Reader Int :=
  if -Int.pow 2 63 ≤ n ∧ n < Int.pow 2 63 then return n else failure

/-- Takes an integer to a base other than ten, given what it begins with. -/
def basedInteger (start : String) (base : Nat) : Reader Int := do
  literal start
  let digits ← digitRun fun c => (hexValue? c).any (· < base)
  inRange (ofDigits base digits)

/-- Takes a decimal integer. -/
def decimalInteger : Reader Int := do
  let negative ← sign
  let n : Int := ofDigits 10 (← wholeNumber)
  inRange (if negative then -n else n)

/-- Takes an integer. -/
def integer : Reader Int :=
  basedInteger "0x" 16 <|> basedInteger "0o" 8 <|> basedInteger "0b" 2 <|> decimalInteger

/-- Takes the exponent of a number. -/
def exponent : Reader Int := do
  let _ ← one fun c => c == 'e' || c == 'E'
  let negative ← sign
  let n : Int := ofDigits 10 (← digitRun Char.isDigit)
  return if negative then -n else n

/-- Takes a number with a fraction, an exponent, or both, unless it is so large that it counts
as infinite. -/
def finiteFloat : Reader Unit := do
  let negative ← sign
  let whole ← wholeNumber
  let fraction ← optional (char '.' *> digitRun Char.isDigit)
  let exp ← optional exponent
  if fraction.isNone ∧ exp.isNone then failure
  let places := (fraction.getD []).length
  let value : Decimal :=
    ⟨ofDigits 10 (whole ++ fraction.getD []), exp.getD 0 - places⟩
  if !negative && Binary64.isTooLarge value then failure

/-- Takes one of the numbers that are written as words. -/
def specialFloat : Reader Unit := do
  let _ ← sign
  literal "inf" <|> literal "nan"

/-! ## Dates and times -/

/-- Takes a number of two digits in a range. -/
def twoDigits (low high : Nat) : Reader Nat := do
  let n ← digits 2
  if low ≤ n ∧ n ≤ high then return n else failure

/-- The number of days of a month. -/
def daysOfMonth (year month : Nat) : Nat :=
  if month = 2 then
    if year % 4 = 0 ∧ (year % 100 ≠ 0 ∨ year % 400 = 0) then 29 else 28
  else if month = 4 ∨ month = 6 ∨ month = 9 ∨ month = 11 then 30
  else 31

/-- Takes a date. -/
def date : Reader Unit := do
  let year ← digits 4
  char '-'
  let month ← twoDigits 1 12
  char '-'
  let _ ← twoDigits 1 (daysOfMonth year month)

/-- Takes a time of day. A minute may have a leap second. -/
def timeOfDay : Reader Unit := do
  let _ ← twoDigits 0 23
  char ':'
  let _ ← twoDigits 0 59
  char ':'
  let _ ← twoDigits 0 60
  let _ ← optional (do
    char '.'
    let _ ← one Char.isDigit
    let _ ← span Char.isDigit)

/-- Takes the offset of a time. -/
def offset : Reader Unit :=
  (do let _ ← one fun c => c == 'Z' || c == 'z')
    <|> (do
      let _ ← one fun c => c == '+' || c == '-'
      let _ ← twoDigits 0 23
      char ':'
      let _ ← twoDigits 0 59)

/-- Takes a date, a time of day, or a date with a time of day. -/
def datetime : Reader Unit :=
  (do
    date
    let _ ← optional (do
      let _ ← one fun c => c == 'T' || c == 't' || c == ' '
      timeOfDay
      let _ ← optional offset))
    <|> timeOfDay

end StoredRoutine.Toml
