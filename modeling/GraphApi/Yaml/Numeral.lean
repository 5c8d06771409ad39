import GraphApi.Text.Character
import GraphApi.Value.Basic
import GraphApi.Yaml.Scalar
import GraphApi.Yaml.Tag

/-!
# Numerals

How scalars that are to be numbers are read. What a tag calls a number need not be written the way
that plain numbers are: there may be blanks around it, digits of any script, and signs of its own in
each part.
-/

namespace GraphApi.Yaml

def orDefect {α : Type} (defect : Defect) (value : Option α) : Except Defect α :=
  match value with
  | some value => .ok value
  | none => .error defect

def ungrouped (content : String) : Chars := content.toList.filter (· != '_')

/-- Whether a character may stand around a number. The separators before the space may not. -/
def isMargin (c : Char) : Bool := Text.isBlank c && !(28 ≤ c.toNat && c.toNat ≤ 31)

def trimMargins (text : Chars) : Chars :=
  ((text.dropWhile isMargin).reverse.dropWhile isMargin).reverse

/-- A digit of any script as the usual one. Other characters stay. -/
def usualDigit (c : Char) : Char :=
  match Text.digitValue? c with
  | some value => Char.ofNat (48 + value)
  | none => c

/-! ## Integers -/

def digit? (base : Nat) (c : Char) : Option Nat := (hexDigit? c).filter (· < base)

/-- The number that digits with a base stand for. There may be only so many decimal digits. -/
def number? (base : Nat) (digits : Chars) : Option Nat :=
  if digits.isEmpty || (base = 10 && digits.length > digitLimit) then none
  else digits.foldlM (fun number c => (digit? base c).map (base * number + ·)) 0

def baseLetter? : Nat → Option Char
  | 2 => some 'b'
  | 8 => some 'o'
  | 16 => some 'x'
  | _ => none

def dropBase (base : Nat) : Chars → Chars
  | '0' :: letter :: digits => if baseLetter? base == some letter.toLower then digits
    else '0' :: letter :: digits
  | digits => digits

def signedNumber? (base : Nat) (text : Chars) : Option Int :=
  let (isNegative, digits) := Binary64.readSign ((trimMargins text).map usualDigit)
  (number? base (dropBase base digits)).map fun number => if isNegative then -number else number

def sixtieths? (parts : List Chars) : Option Int :=
  parts.foldlM (fun number part => (signedNumber? 10 part).map (60 * number + ·)) 0

def unsignedNumber? (text : Chars) : Option Int :=
  match text with
  | '0' :: 'b' :: digits => signedNumber? 2 digits
  | '0' :: 'x' :: digits => signedNumber? 16 digits
  | '0' :: _ => signedNumber? 8 text
  | _ => if text.contains ':' then sixtieths? (cutAtColons text) else signedNumber? 10 text

def integer (content : String) : Except Defect Int := do
  let (isNegative, unsigned) := Binary64.readSign (ungrouped content)
  if unsigned.isEmpty then throw .digits
  let number ← orDefect .range (unsignedNumber? unsigned)
  return if isNegative then -number else number

/-! ## Fractions -/

def infinityNames : List Chars := ["inf".toList, "infinity".toList]

def signedFraction? (text : Chars) : Option Binary64 :=
  let trimmed := (trimMargins text).map usualDigit
  let (isNegative, unsigned) := Binary64.readSign trimmed
  if infinityNames.contains unsigned then some (.infinite isNegative)
  else if unsigned == "nan".toList then some .nan
  else Binary64.ofDecimalText? trimmed

def sumOfParts : Nat → List Binary64 → Binary64 → Except Defect Binary64
  | _, [], sum => .ok sum
  | weight, part :: rest, sum =>
    let factor := Binary64.ofInt weight
    if factor.isFinite then sumOfParts (60 * weight) rest (sum.add (part.mul factor))
      else .error .size

def unsignedFraction (text : Chars) : Except Defect Binary64 :=
  if text == ".inf".toList then .ok (.infinite false)
  else if text == ".nan".toList then .ok .nan
  else if text.contains ':' then do
    let parts ← orDefect .range ((cutAtColons text).mapM signedFraction?)
    sumOfParts 1 parts.reverse (.ofInt 0)
  else orDefect .range (signedFraction? text)

def fraction (content : String) : Except Defect Binary64 := do
  let text := (ungrouped content).map Char.toLower
  if text.isEmpty then throw .digits
  let (isNegative, unsigned) := Binary64.readSign text
  let magnitude ← unsignedFraction unsigned
  return if isNegative then magnitude.negate else magnitude

end GraphApi.Yaml
