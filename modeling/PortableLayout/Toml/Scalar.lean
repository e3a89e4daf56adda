import PortableLayout.Toml.Reader
import PortableLayout.Toml.Value

/-!
# TOML numbers, dates and truth values

Digits may be grouped by single underscores between them. A decimal integer has no leading zeros and
fits into 64 bits with a sign; the forms with a base have no sign. A number with a fraction or an
exponent must not round to positive infinity. Dates are days of the proleptic Gregorian calendar, and
a minute may have a leap second.
-/

set_option autoImplicit false

namespace PortableLayout.Toml

/-- A decimal digit. -/
def isDigit (c : Char) : Bool :=
  '0' ≤ c && c ≤ '9'

/-- A hexadecimal digit. -/
def isHexDigit (c : Char) : Bool :=
  isDigit c || ('a' ≤ c && c ≤ 'f') || ('A' ≤ c && c ≤ 'F')

/-- The value of a digit in any base up to sixteen. -/
def digitValue (c : Char) : Nat :=
  if isDigit c then c.toNat - 48
  else if 'a' ≤ c then c.toNat - 87
  else c.toNat - 55

/-- The number that digits write in a base. -/
def numberOf (base : Nat) (digits : List Char) : Nat :=
  digits.foldl (fun n c => n * base + digitValue c) 0

/-- Whether every underscore has a digit on either side; `afterDigit` says what came before. -/
def wellGrouped (afterDigit : Bool) : List Char → Bool
  | [] => afterDigit
  | c :: cs => if c = '_' then afterDigit && wellGrouped false cs else wellGrouped true cs

/-- Reads grouped digits of a class, at least one, and leaves the underscores out. -/
def digits (p : Char → Bool) : Reader (List Char) := do
  let cs ← Reader.run fun c => p c || c == '_'
  if wellGrouped false cs then return cs.filter (· ≠ '_') else failure

/-- Reads the digits of a decimal integer: a zero alone, or digits that begin with another one. -/
def decimalDigits : Reader (List Char) := do
  if ← Reader.accept '0' then return ['0'] else digits isDigit

/-- Reads a sign; true for minus. -/
def sign : Reader Bool := do
  if ← Reader.accept '-' then return true
  let _ ← Reader.accept '+'
  return false

/-- The least number that is too large for an integer. -/
def integerBound : Nat :=
  Nat.pow 2 63

/-- The least number that rounds to positive infinity in binary64: half a unit above the largest
finite one. -/
def binary64Overflow : Nat :=
  Nat.pow 2 1024 - Nat.pow 2 970

/-- Whether digits, scaled by a power of ten, round to positive infinity. -/
def overflows (digits : List Char) (exponent : Int) : Bool :=
  let significant := digits.dropWhile (· == '0')
  let top : Int := significant.length + exponent
  if significant.isEmpty then false
  else if 309 < top then true
  else if top < 309 then false
  else
    let n := numberOf 10 significant
    if 0 ≤ exponent then binary64Overflow ≤ n * Nat.pow 10 exponent.toNat
    else binary64Overflow * Nat.pow 10 (-exponent).toNat ≤ n

/-- Reads the exponent of a number, if there is one. -/
def exponent? : Reader (Option Int) := do
  match ← Reader.peek? with
  | some 'e' | some 'E' =>
    let _ ← Reader.one fun _ => true
    let negative ← sign
    let n := numberOf 10 (← digits isDigit)
    return some (if negative then -n else n)
  | _ => return none

/-- Reads a signed decimal number: an integer, or a number with a fraction or an exponent. -/
def decimal : Reader Item := do
  let negative ← sign
  match ← Reader.peek? with
  | some 'i' =>
    Reader.word ['i', 'n', 'f']
    return .float
  | some 'n' =>
    Reader.word ['n', 'a', 'n']
    return .float
  | _ =>
    let whole ← decimalDigits
    let fraction ← if ← Reader.accept '.' then some <$> digits isDigit else pure none
    let exponent ← exponent?
    match fraction, exponent with
    | none, none =>
      let n : Int := if negative then -(numberOf 10 whole : Int) else numberOf 10 whole
      if -(integerBound : Int) ≤ n ∧ n < integerBound then return .integer n else failure
    | _, _ =>
      let places := fraction.getD []
      if ¬ negative ∧ overflows (whole ++ places) (exponent.getD 0 - places.length) then failure
      else return .float

/-- Reads an integer whose base stands in front of its digits. -/
def based : Reader Item := do
  Reader.char '0'
  let base ← Reader.one fun c => c == 'x' || c == 'o' || c == 'b'
  let n ←
    if base = 'x' then numberOf 16 <$> digits isHexDigit
    else if base = 'o' then numberOf 8 <$> digits fun c => '0' ≤ c && c ≤ '7'
    else numberOf 2 <$> digits fun c => c == '0' || c == '1'
  if n < integerBound then return .integer n else failure

/-- Reads a number of exactly `n` digits that lies between two bounds. -/
def field (n low high : Nat) : Reader Nat := do
  let v := numberOf 10 (← Reader.exactly isDigit n)
  if low ≤ v ∧ v ≤ high then return v else failure

/-- The days of a month. -/
def daysOf (year month : Nat) : Nat :=
  if month = 2 then
    if year % 4 = 0 ∧ (year % 100 ≠ 0 ∨ year % 400 = 0) then 29 else 28
  else if month = 4 ∨ month = 6 ∨ month = 9 ∨ month = 11 then 30
  else 31

/-- Reads a date. -/
def date : Reader Unit := do
  let year ← field 4 0 9999
  Reader.char '-'
  let month ← field 2 1 12
  Reader.char '-'
  let _ ← field 2 1 (daysOf year month)

/-- Reads a time of day. -/
def timeOfDay : Reader Unit := do
  let _ ← field 2 0 23
  Reader.char ':'
  let _ ← field 2 0 59
  Reader.char ':'
  let _ ← field 2 0 60
  let _ ← Reader.optional do
    Reader.char '.'
    let _ ← Reader.one isDigit
    Reader.run isDigit

/-- Reads how far a time is from universal time. -/
def offset : Reader Unit := do
  let c ← Reader.one fun c => c == 'Z' || c == 'z' || c == '+' || c == '-'
  if c == '+' || c == '-' then
    let _ ← field 2 0 23
    Reader.char ':'
    let _ ← field 2 0 59

/-- Reads a date, a time, or both with or without an offset. -/
def moment : Reader Item :=
  (do
    date
    let _ ← Reader.optional do
      let _ ← Reader.one fun c => c == 'T' || c == 't' || c == ' '
      timeOfDay
      let _ ← Reader.optional offset
    return .moment) <|>
  (do
    timeOfDay
    return .moment)

/-- Reads `true` or `false`. -/
def truth : Reader Item :=
  (do
    Reader.word ['t', 'r', 'u', 'e']
    return .boolean true) <|>
  (do
    Reader.word ['f', 'a', 'l', 's', 'e']
    return .boolean false)

/-- Reads a value that is neither a string nor made of other values. -/
def scalar : Reader Item :=
  truth <|> moment <|> based <|> decimal

end PortableLayout.Toml
