import Mathlib.Algebra.Group.Nat.Defs
import Mathlib.Data.Int.Notation
import Mathlib.Data.Nat.Notation
import Palimpsest.Lib.PosixPath

/-!
# The decimal form of floating-point numbers

What `repr` writes for the binary64 number that a decimal token denotes: the token is
rounded to the nearest number, ties to even, and of the decimals that round to this
number the shortest is written, the nearest one where several are as short. The
numbers are kept as their `repr` (`Json.FloatRepr`), which is read back as itself.
-/

namespace Json

/-! ### Tokens -/

/-- The digits a text begins with, and what follows them. -/
def spanDigits (t : Text) : Text × Text := (t.takeWhile Char.isDigit, t.dropWhile Char.isDigit)

/-- The number that digits spell. -/
def digitsValue (t : Text) : ℕ := Nat.ofDigitChars 10 t 0

/-- A number token: its sign, the digits before and after the point, the exponent with its
sign, where they are there. -/
structure NumberToken where
  negative : Bool
  whole : Text
  fraction : Option Text
  exponent : Option (Bool × Text)
  deriving DecidableEq

/-- The fraction a text begins with. -/
def takeFraction : Text → Option Text × Text
  | '.' :: t =>
    match spanDigits t with
    | ([], _) => (none, '.' :: t)
    | (d, rest) => (some d, rest)
  | t => (none, t)

/-- The sign an exponent begins with. -/
def takeSign : Text → Bool × Text
  | '-' :: t => (true, t)
  | '+' :: t => (false, t)
  | t => (false, t)

/-- The exponent a text begins with. -/
def takeExponent : Text → Option (Bool × Text) × Text
  | c :: t =>
    if c = 'e' ∨ c = 'E' then
      match spanDigits (takeSign t).2 with
      | ([], _) => (none, c :: t)
      | (d, rest) => (some ((takeSign t).1, d), rest)
    else (none, c :: t)
  | [] => (none, [])

/-- The digits before the point: a zero, or digits that do not begin with one. -/
def takeWhole : Text → Option (Text × Text)
  | '0' :: t => some (['0'], t)
  | t =>
    match spanDigits t with
    | ([], _) => none
    | p => some p

/-- The sign a number begins with. -/
def takeMinus : Text → Bool × Text
  | '-' :: t => (true, t)
  | t => (false, t)

/-- The number token a text begins with, and what follows it. -/
def takeNumber (t : Text) : Option (NumberToken × Text) :=
  (takeWhole (takeMinus t).2).map fun p =>
    let f := takeFraction p.2
    let e := takeExponent f.2
    (⟨(takeMinus t).1, p.1, f.1, e.1⟩, e.2)

/-- The token denotes a float. -/
def NumberToken.isFloat (k : NumberToken) : Bool := k.fraction.isSome || k.exponent.isSome

/-! ### Rounding -/

/-- The quotient of two numbers, rounded to the nearest integer, ties to even. -/
def roundHalfEven (a b : ℕ) : ℕ :=
  if 2 * (a % b) < b ∨ 2 * (a % b) = b ∧ a / b % 2 = 0 then a / b else a / b + 1

/-- The fraction `a / b` times `base ^ k`. -/
def scale (base : ℕ) (a b : ℕ) (k : ℤ) : ℕ × ℕ :=
  if 0 ≤ k then (a * base ^ k.toNat, b) else (a, b * base ^ (-k).toNat)

/-- The nearest binary64 number to a positive fraction, as a mantissa and an exponent of two;
nothing if it is infinite. -/
def nearestDouble (a b : ℕ) : Option (ℕ × ℤ) :=
  let k : ℤ := (Nat.log2 a : ℤ) - Nat.log2 b
  let (a', b') := scale 2 a b (-k)
  let e := max (-1074) ((if b' ≤ a' then k else k - 1) - 52)
  let (a', b') := scale 2 a b (-e)
  let m := roundHalfEven a' b'
  if 971 < (if m = 2 ^ 53 then e + 1 else e) then none
  else if m = 2 ^ 53 then some (2 ^ 52, e + 1) else some (m, e)

/-- The nearest binary64 number to `digits * 10 ^ exponent`, where the digits are no zero. -/
def nearestDecimal (digits : ℕ) (exponent : ℤ) : Option (ℕ × ℤ) :=
  let (a, b) := scale 10 digits 1 exponent
  nearestDouble a b

/-! ### The shortest decimal -/

/-- The place of the decimal point before the digits of a positive fraction. -/
def decimalPoint (a b : ℕ) : ℤ :=
  let k : ℤ := ((Nat.toDigits 10 a).length : ℤ) - (Nat.toDigits 10 b).length
  let (a', b') := scale 10 a b (-k)
  if b' ≤ a' then k + 1 else k

/-- A decimal of this many digits that rounds to the number, if there is one: the nearest. -/
def decimalOfLength (x : ℕ × ℤ) (point : ℤ) (n : ℕ) : Option ℕ :=
  let (a, b) := scale 2 x.1 1 x.2
  let (a, b) := scale 10 a b (n - point)
  let near := roundHalfEven a b
  let far := if near = a / b then near + 1 else a / b
  [near, far].find? fun d => nearestDecimal d (point - n) = some x

/-- The digits of the shortest decimal that rounds to the number. -/
def shortestDigits (x : ℕ × ℤ) (point : ℤ) : Option (ℕ × ℕ) :=
  (List.range 17).findSome? fun n => (decimalOfLength x point (n + 1)).map (·, n + 1)

/-- Digits without the zeros at their end. -/
def stripZeros (t : Text) : Text := (t.reverse.dropWhile (· = '0')).reverse

/-- Digits with a point at this place, as `repr` writes them. -/
def placePoint (digits : Text) (point : ℤ) : Text :=
  if -4 < point ∧ point ≤ 16 then
    if point ≤ 0 then '0' :: '.' :: (List.replicate (-point).toNat '0' ++ digits)
    else if digits.length ≤ point.toNat then
      digits ++ List.replicate (point.toNat - digits.length) '0' ++ ['.', '0']
    else digits.take point.toNat ++ '.' :: digits.drop point.toNat
  else
    let e := point - 1
    let power := Nat.toDigits 10 e.natAbs
    digits.take 1 ++ (if digits.length = 1 then [] else '.' :: digits.drop 1) ++
      'e' :: (if e < 0 then '-' else '+') ::
        (if power.length < 2 then '0' :: power else power)

/-- The shortest decimal of a positive binary64 number, as `repr` writes it. -/
def reprDouble (x : ℕ × ℤ) : Option Text :=
  let (a, b) := scale 2 x.1 1 x.2
  let point := decimalPoint a b
  (shortestDigits x point).map fun (d, n) =>
    let digits := Nat.toDigits 10 d
    -- rounding may have carried into a further digit
    placePoint (stripZeros digits) (point + (digits.length - n))

/-- `repr(float(token))`, or nothing if it is infinite. -/
def NumberToken.floatRepr (k : NumberToken) : Option Text :=
  let fraction := k.fraction.getD []
  let exponent : ℤ := match k.exponent with
    | none => 0
    | some (true, e) => -(digitsValue e : ℤ)
    | some (false, e) => digitsValue e
  let digits := digitsValue (k.whole ++ fraction)
  let sign := if k.negative then ['-'] else []
  if digits = 0 then some (sign ++ "0.0".toList)
  else
    match nearestDecimal digits (exponent - fraction.length) with
    | none => none
    | some (0, _) => some (sign ++ "0.0".toList)
    | some x => (reprDouble x).map (sign ++ ·)

/-- The text is a float token that `repr` gives back. -/
def isFloatRepr (t : Text) : Bool :=
  match takeNumber t with
  | some (k, []) => k.isFloat && k.floatRepr = some t
  | _ => false

/-- A finite binary64 number, by its `repr`. -/
abbrev FloatRepr := {t : Text // isFloatRepr t}

/-- The float that a token denotes, or nothing if it is infinite. -/
def NumberToken.toFloat (k : NumberToken) : Option FloatRepr :=
  match k.floatRepr with
  | some t => if h : isFloatRepr t then some ⟨t, h⟩ else none
  | none => none

end Json
