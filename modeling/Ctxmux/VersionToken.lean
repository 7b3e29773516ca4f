import Ctxmux.DecimalDigits

/-!
# Capability versions on the wire

The number tokens of the wire format, and the two parsers of a capability version: the
daemon's, on the source of the token, and the SDK's, on the same source.
-/

namespace Ctxmux
namespace Version

open Decimal (IsDigits spelled trimZeros)

/-- A number token. -/
structure NumberToken where
  negative : Bool
  integer : List Char
  fraction : Option (List Char)
  exponent : Option (Char × Option Char × List Char)
  integer_digits : IsDigits integer
  integer_plain : integer = ['0'] ∨ ∃ c rest, integer = c::rest ∧ c ≠ '0'
  fraction_digits : ∀ digits ∈ fraction, IsDigits digits ∧ digits ≠ []
  exponent_digits : ∀ e ∈ exponent, (e.1 = 'e' ∨ e.1 = 'E') ∧
    (∀ sign ∈ e.2.1, sign = '+' ∨ sign = '-') ∧ IsDigits e.2.2 ∧ e.2.2 ≠ []

namespace NumberToken

variable (t : NumberToken)

def fractionSource : List Char := t.fraction.elim [] fun digits => '.'::digits

def exponentSource : List Char := t.exponent.elim [] fun e => e.1::(e.2.1.toList ++ e.2.2)

def source : List Char :=
  (if t.negative then ['-'] else []) ++ (t.integer ++ (t.fractionSource ++ t.exponentSource))

def fractionPart : List Char := t.fraction.getD []

def exponentValue : ℤ :=
  t.exponent.elim 0 fun e =>
    if e.2.1 = some '-' then -(spelled e.2.2 : ℤ) else (spelled e.2.2 : ℤ)

/-- The exact decimal value. -/
def value : ℚ :=
  let magnitude := (spelled (t.integer ++ t.fractionPart) : ℚ) *
    (10 : ℚ)^(t.exponentValue-t.fractionPart.length)
  if t.negative then -magnitude else magnitude

end NumberToken

def maxRuntimeCapabilityVersion : ℕ := 9007199254740991

def i128Max : ℕ := 2^127-1

def usizeMax : ℕ := 2^64-1

def u64Max : ℕ := 2^64-1

/-- The parts on either side of the first character that meets the pattern. -/
def splitOnce (pattern : Char → Bool) (source : List Char) : Option (List Char × List Char) :=
  match source.dropWhile (!pattern ·) with
  | [] => none
  | _::rest => some (source.takeWhile (!pattern ·),rest)

def inI128 (n : ℤ) : Option ℤ := if -(i128Max+1 : ℤ) ≤ n ∧ n ≤ i128Max then some n else none

def parseDigits (source : List Char) : Option ℕ :=
  if source ≠ [] ∧ IsDigits source then some (spelled source) else none

def parseI128 (source : List Char) : Option ℤ :=
  match source with
  | '+'::digits => (parseDigits digits).bind fun n => inI128 n
  | '-'::digits => (parseDigits digits).bind fun n => inI128 (-n)
  | digits => (parseDigits digits).bind fun n => inI128 n

def parseU64 (source : List Char) : Option ℕ :=
  let parsed :=
    match source with
    | '+'::digits => parseDigits digits
    | digits => parseDigits digits
  parsed.bind fun n => if n ≤ u64Max then some n else none

def validateRuntimeCapabilityVersion (version : ℕ) : Except String Unit :=
  if version = 0 then .error "Runtime capability version must be greater than zero"
  else if maxRuntimeCapabilityVersion < version then
    .error s!"Runtime capability version {version} exceeds the safe-integer maximum {maxRuntimeCapabilityVersion}"
  else .ok ()

def exceedsMaximum : String :=
  s!"Runtime capability version exceeds the safe-integer maximum {maxRuntimeCapabilityVersion}"

def orError {α : Type} (result : Option α) (error : String) : Except String α :=
  match result with
  | some value => .ok value
  | none => .error error

/-- The digits of the significand, and the power of ten that they are scaled by. -/
def scanVersion (source : List Char) : Except String (List Char × ℤ) := do
  if source.head? = some '-' then
    throw "Runtime capability version must be greater than zero"
  let (significand,exponent) :=
    (splitOnce (fun c => c = 'e' || c = 'E') source).getD (source,['0'])
  let exponent ← orError (parseI128 exponent)
    "Runtime capability version exponent is outside the supported domain"
  let (integer,fraction) := (splitOnce (· = '.') significand).getD (significand,[])
  if integer.isEmpty || !decide (IsDigits integer) || !decide (IsDigits fraction) then
    throw "Runtime capability version must be a JSON number"
  let digits := integer ++ fraction
  if digits.all (· = '0') then
    throw "Runtime capability version must be greater than zero"
  let decimalShift ← orError (inI128 (exponent-fraction.length))
    "Runtime capability version is outside the supported domain"
  return (digits,decimalShift)

/-- The digits of the integer: zeros are cut off, or appended. -/
def shiftDigits (digits : List Char) (decimalShift : ℤ) : Except String (List Char) :=
  if decimalShift < 0 then do
    let removed ← orError
      ((inI128 (-decimalShift)).bind fun n =>
        if n.toNat ≤ usizeMax then some n.toNat else none)
      "Runtime capability version must be an integer"
    if digits.length ≤ removed || !(digits.drop (digits.length-removed)).all (· = '0') then
      throw "Runtime capability version must be an integer"
    return digits.take (digits.length-removed)
  else do
    let significantDigits := (trimZeros digits).length
    let appended ← orError
      (if decimalShift.toNat ≤ usizeMax then some decimalShift.toNat else none) exceedsMaximum
    if 16 < min (significantDigits+appended) usizeMax then throw exceedsMaximum
    return digits ++ List.replicate appended '0'

def parseRuntimeCapabilityVersion (source : List Char) : Except String ℕ := do
  let (digits,decimalShift) ← scanVersion source
  let integerDigits ← shiftDigits digits decimalShift
  let version ← orError (parseU64 (trimZeros integerDigits)) exceedsMaximum
  validateRuntimeCapabilityVersion version
  return version

namespace Sdk

/-- The value of an integer literal: from 53 bits on it is rounded to the nearest number
of 53 significant bits, and a tie to the even one. -/
def number (n : ℕ) : ℕ :=
  if n < 2^53 then n
  else
    let exponent := n.log2-52
    let significand := n / 2^exponent
    let rest := n % 2^exponent
    let half := 2^(exponent-1)
    (if half < rest ∨ (rest = half ∧ significand % 2 = 1) then significand+1 else significand) *
      2^exponent

def isSafeInteger (n : ℕ) : Bool := n ≤ 2^53-1

def isRuntimeCapabilityVersion (version : ℕ) : Bool :=
  isSafeInteger version && decide (0 < version) && decide (version ≤ maxRuntimeCapabilityVersion)

/-- What the pattern of the token captures. -/
structure Match where
  integer : List Char
  fraction : Option (List Char)
  sign : Option Char
  exponent : Option (List Char)

def matchFraction (source : List Char) : Option (Option (List Char) × List Char) :=
  match source with
  | '.'::rest =>
    let digits := rest.takeWhile Char.isDigit
    if digits = [] then none else some (some digits,rest.dropWhile Char.isDigit)
  | rest => some (none,rest)

def matchExponent (source : List Char) : Option (Option Char × Option (List Char)) :=
  match source with
  | [] => some (none,none)
  | c::rest =>
    if c = 'e' ∨ c = 'E' then
      let sign := rest.head?.filter fun s => s = '+' || s = '-'
      let digits := if sign.isSome then rest.tail else rest
      if digits ≠ [] ∧ IsDigits digits then some (sign,some digits) else none
    else none

def matchNumber (source : List Char) : Option Match := do
  let integer := source.takeWhile Char.isDigit
  guard (integer = ['0'] ∨ (integer ≠ [] ∧ integer.head? ≠ some '0'))
  let (fraction,rest) ← matchFraction (source.dropWhile Char.isDigit)
  let (sign,exponent) ← matchExponent rest
  return ⟨integer,fraction,sign,exponent⟩

/-- Beyond 53 bits the shift is rounded, but it is far from both bounds there. -/
def shiftDigits (digits : List Char) (decimalShift : ℤ) : Option (List Char) :=
  if decimalShift < 0 then
    let removed := (-decimalShift).toNat
    if digits.length ≤ removed || !(digits.drop (digits.length-removed)).all (· = '0') then none
    else some (digits.take (digits.length-removed))
  else
    let digits := trimZeros digits
    if 16 < digits.length+decimalShift.toNat then none
    else some (digits ++ List.replicate decimalShift.toNat '0')

def scanVersion (source : List Char) : Option (List Char × ℤ) := do
  let found ← matchNumber source
  let fraction := found.fraction.getD []
  let magnitude := number (spelled (found.exponent.getD ['0']))
  guard (isSafeInteger magnitude)
  let exponent : ℤ := if found.sign = some '-' then -magnitude else magnitude
  let digits := found.integer ++ fraction
  guard (digits.any fun c => '1' ≤ c && c ≤ '9')
  return (digits,exponent-fraction.length)

def parseRuntimeCapabilityVersionSource (source : List Char) : Option ℕ := do
  let (digits,decimalShift) ← scanVersion source
  let digits ← shiftDigits digits decimalShift
  let version := number (spelled (trimZeros digits))
  if isRuntimeCapabilityVersion version then some version else none

end Sdk
end Version
end Ctxmux
