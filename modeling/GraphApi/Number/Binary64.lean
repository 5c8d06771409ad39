/-!
# Double-precision numbers

A finite number is a sign, a significand below `2 ^ 53` and an exponent of two. A decimal is read as
the nearest double, a tie going to the even significand, and a double is written with the fewest
digits that read back as it.
-/

namespace GraphApi

/-- A double-precision number: `mantissa * 2 ^ exponent` with its sign, an infinity, or not a
number. -/
inductive Binary64 where
  | finite (negative : Bool) (mantissa : Nat) (exponent : Int)
  | infinite (negative : Bool)
  | nan
deriving DecidableEq, Repr

namespace Binary64

def leastExponent : Int := -1074

def greatestExponent : Int := 971

/-- The quotient of two numbers rounded to the nearest integer, a tie to the even one. -/
def roundDiv (num den : Nat) : Nat :=
  let q := num / den
  let r := num % den
  if 2 * r < den then q else if den < 2 * r then q + 1 else if q % 2 = 0 then q else q + 1

/-- `num / (den * 2 ^ shift)` as a fraction of naturals. -/
def scaled (num den : Nat) (shift : Int) : Nat × Nat :=
  if shift ≥ 0 then (num, den * Nat.pow 2 shift.toNat) else (num * Nat.pow 2 (-shift).toNat, den)

def ofFraction (negative : Bool) (num den : Nat) : Binary64 :=
  if num = 0 then .finite negative 0 leastExponent
  else
    let estimate : Int := (num.log2 : Int) - (den.log2 : Int) - 53
    let first := max estimate leastExponent
    let (a, b) := scaled num den first
    let shift := if a / b ≥ Nat.pow 2 53 then first + 1 else first
    let (a, b) := scaled num den shift
    let mantissa := roundDiv a b
    let (mantissa, shift) := if mantissa ≥ Nat.pow 2 53 then (mantissa / 2, shift + 1)
      else (mantissa, shift)
    if shift > greatestExponent then .infinite negative else .finite negative mantissa shift

def ofDecimal (negative : Bool) (digits : Nat) (power : Int) : Binary64 :=
  if digits = 0 then .finite negative 0 leastExponent
  else if power > 400 then .infinite negative
  else if power + (Nat.toDigits 10 digits).length < -400 then .finite negative 0 leastExponent
  else if power ≥ 0 then ofFraction negative (digits * Nat.pow 10 power.toNat) 1
  else ofFraction negative digits (Nat.pow 10 (-power).toNat)

def ofInt (n : Int) : Binary64 :=
  ofFraction (n < 0) n.natAbs 1

def isFinite : Binary64 → Bool
  | .finite .. => true
  | _ => false

def toInt? : Binary64 → Option Int
  | .finite negative mantissa exponent =>
    let magnitude : Option Nat :=
      if exponent ≥ 0 then some (mantissa * Nat.pow 2 exponent.toNat)
      else if mantissa % Nat.pow 2 (-exponent).toNat = 0
        then some (mantissa / Nat.pow 2 (-exponent).toNat) else none
    magnitude.map fun n => if negative then -(n : Int) else n
  | _ => none

/-! ## Sums and products -/

def negate : Binary64 → Binary64
  | .finite negative mantissa exponent => .finite (!negative) mantissa exponent
  | .infinite negative => .infinite (!negative)
  | .nan => .nan

/-- A finite number as a multiple of the smallest positive one. -/
def units (negative : Bool) (mantissa : Nat) (exponent : Int) : Int :=
  let magnitude : Int := mantissa * Nat.pow 2 (exponent - leastExponent).toNat
  if negative then -magnitude else magnitude

def unitsOfOne : Nat := Nat.pow 2 leastExponent.natAbs

def add : Binary64 → Binary64 → Binary64
  | .nan, _ | _, .nan => .nan
  | .infinite a, .infinite b => if a = b then .infinite a else .nan
  | .infinite a, _ | _, .infinite a => .infinite a
  | .finite s m e, .finite t n f =>
    let sum := units s m e + units t n f
    ofFraction (sum < 0) sum.natAbs unitsOfOne

def mul : Binary64 → Binary64 → Binary64
  | .nan, _ | _, .nan => .nan
  | .infinite a, .infinite b => .infinite (a != b)
  | .infinite a, .finite b n _ | .finite b n _, .infinite a => if n = 0 then .nan
    else .infinite (a != b)
  | .finite s m e, .finite t n f =>
    ofFraction (s != t) (units s m e * units t n f).natAbs (unitsOfOne * unitsOfOne)

/-! ## The fewest digits -/

/-- Whether the fraction `num / den` lies in the interval of decimals that read as `mantissa * 2 ^
exponent`. -/
def readsAs (mantissa : Nat) (exponent : Int) (num den : Nat) : Bool :=
  -- distances are compared in quarters of a unit in the last place
  let lowQuarters := if mantissa = Nat.pow 2 52 ∧ exponent > leastExponent then 1 else 2
  let (low, lowDen) := scaled (num * 4) den exponent
  let value := 4 * mantissa * lowDen
  let below := (4 * mantissa - lowQuarters) * lowDen
  let above := (4 * mantissa + 2) * lowDen
  let closed := mantissa % 2 = 0
  if low ≤ value then (if closed then below ≤ low else below < low)
  else if closed then low ≤ above else low < above

def powerOfTen (power : Int) : Nat × Nat :=
  if power ≥ 0 then (Nat.pow 10 power.toNat, 1) else (1, Nat.pow 10 (-power).toNat)

/-- The power `k` with `10 ^ (k - 1) ≤ num / den < 10 ^ k`, searched upwards from a power that is
not above it. -/
def decimalPoint (num den : Nat) (start : Int) : Nat → Int
  | 0 => start
  | fuel + 1 =>
    let (a, b) := powerOfTen start
    if num * b < a * den then start else decimalPoint num den (start + 1) fuel

/-- The nearer of the two grid points of `count` digits around the number that reads back as it. -/
def gridPoint? (mantissa : Nat) (exponent : Int) (point : Int) (count : Nat) : Option Nat :=
  let (num, den) := scaled mantissa 1 (-exponent)
  let (a, b) := powerOfTen (point - count)
  let lower := num * b / (den * a)
  let remainder := num * b % (den * a)
  let reads := fun n => readsAs mantissa exponent (n * a) b
  let lowerFirst := 2 * remainder < den * a ∨ (2 * remainder = den * a ∧ lower % 2 = 0)
  let (near, far) := if lowerFirst then (lower, lower + 1) else (lower + 1, lower)
  if reads near then some near else if reads far then some far else none

def shortestFrom (mantissa : Nat) (exponent point : Int) (count : Nat) : Nat → Nat × Int
  | 0 => (mantissa, 0)
  | fuel + 1 =>
    match gridPoint? mantissa exponent point count with
    | some digits => (digits, point - count)
    | none => shortestFrom mantissa exponent point (count + 1) fuel

/-- The shortest decimal of a positive finite number: its digits and the position of the decimal
point after the first of them, counted from the left end of the digits. -/
def shortest (mantissa : Nat) (exponent : Int) : List Char × Int :=
  let (num, den) := scaled mantissa 1 (-exponent)
  let start : Int := ((mantissa.log2 : Int) + exponent) * 3 / 10 - 2
  let point := decimalPoint num den start 400
  let (digits, power) := shortestFrom mantissa exponent point 1 17
  let all := Nat.toDigits 10 digits
  let position := power + all.length
  let kept := (all.reverse.dropWhile (· = '0')).reverse
  (kept, position)

/-! ## Text -/

structure Layout where
  leastPositional : Int
  firstScientific : Int
  exponentDigits : Nat
  infinity : String
  undefined : String

/-- Numbers in values: positional from `0.0001` up to sixteen digits, always with a point or an
exponent. -/
def layout : Layout where
  leastPositional := -4
  firstScientific := 16
  exponentDigits := 2
  infinity := "inf"
  undefined := "nan"

def padded (width : Nat) (n : Nat) : String :=
  let digits := Nat.toDigits 10 n
  String.ofList (List.replicate (width - digits.length) '0' ++ digits)

/-- Digits with the decimal point at `position` from their left end. -/
def positional (digits : List Char) (position : Int) : String :=
  if position ≤ 0 then
    "0." ++ String.ofList (List.replicate (-position).toNat '0' ++ digits)
  else
    let places := position.toNat
    let whole := digits.take places ++ List.replicate (places - digits.length) '0'
    let rest := digits.drop places
    String.ofList whole ++ "." ++ (if rest.isEmpty then "0" else String.ofList rest)

def scientific (form : Layout) (digits : List Char) (exponent : Int) : String :=
  let head := digits.take 1
  let rest := digits.drop 1
  String.ofList head ++ (if rest.isEmpty then "" else "." ++ String.ofList rest) ++ "e" ++
    (if exponent < 0 then "-" else "+") ++ padded form.exponentDigits exponent.natAbs

def render (form : Layout) : Binary64 → String
  | .nan => form.undefined
  | .infinite negative => (if negative then "-" else "") ++ form.infinity
  | .finite negative mantissa exponent =>
    let sign := if negative then "-" else ""
    if mantissa = 0 then sign ++ "0.0"
    else
      let (digits, position) := shortest mantissa exponent
      let power := position - 1
      if power < form.leastPositional ∨ form.firstScientific ≤ power then sign ++
        scientific form digits power
      else sign ++ positional digits position

def text (x : Binary64) : String :=
  x.render layout

def digitsValue (digits : List Char) : Nat :=
  digits.foldl (fun n c => 10 * n + (c.toNat - 48)) 0

def readSign : List Char → Bool × List Char
  | '-' :: rest => (true, rest)
  | '+' :: rest => (false, rest)
  | cs => (false, cs)

def ofDecimalText? (cs : List Char) : Option Binary64 :=
  let (negative, cs) := readSign cs
  let (whole, rest) := cs.span Char.isDigit
  let (part, rest) := match rest with
    | '.' :: more => more.span Char.isDigit
    | _ => ([], rest)
  if whole.isEmpty && part.isEmpty then none
  else
    let digits := digitsValue (whole ++ part)
    let power : Int := -(part.length : Int)
    match rest with
    | [] => some (ofDecimal negative digits power)
    | e :: more =>
      if e = 'e' ∨ e = 'E' then
        let (down, more) := readSign more
        let (run, after) := more.span Char.isDigit
        if run.isEmpty || !after.isEmpty then none
        else
          let size : Int := digitsValue run
          some (ofDecimal negative digits (power + (if down then -size else size)))
      else none

def ofText? (text : String) : Option Binary64 :=
  match text with
  | "inf" => some (.infinite false)
  | "-inf" => some (.infinite true)
  | "nan" => some .nan
  | _ => ofDecimalText? text.toList

end Binary64

end GraphApi
