/-!
# Finite numbers of the 64-bit binary format

A number of this format is a sign, a whole mantissa below `2 ^ 53` and a power of two.  Rounding,
scaling by powers of ten and the choice of the shortest decimal digits are carried out here on
whole numbers, so that every step is exact and visible to proofs.

* `roundRatio` gives the number nearest to a ratio of whole numbers; halfway, the even mantissa.
* `ofDecimal` reads a decimal in two roundings: the digits first, then their product with (or
  quotient by) one power of ten.
* `shortestDigits` gives the fewest digits that determine the number, and of those the nearest.
* `render` writes these digits, positionally from `0.00001` up to `10 ^ 16` and with an exponent
  beyond.
-/

namespace KeyedReflection

/-- A finite number of the 64-bit binary format, of the size `mantissa * 2 ^ exponent`.  The numbers
built here are in lowest form: the mantissa is at least `2 ^ 52`, or the exponent is `-1074`. -/
structure Binary64 where
  negative : Bool
  mantissa : Nat
  exponent : Int
  deriving DecidableEq, Repr

namespace Binary64

/-- The least exponent of the format. -/
def leastExponent : Int := -1074

/-- The greatest exponent of the format. -/
def greatestExponent : Int := 971

/-- Zero, which keeps its sign. -/
def zero (negative : Bool) : Binary64 :=
  ⟨negative, 0, leastExponent⟩

/-- Whether the number is zero, of either sign. -/
def isZero (x : Binary64) : Bool :=
  x.mantissa == 0

/-- The same size with the other sign. -/
def negate (x : Binary64) : Binary64 :=
  { x with negative := !x.negative }

/-- Numerical equality: the two zeros are equal, and else the forms agree. -/
def same (x y : Binary64) : Bool :=
  x == y || (x.isZero && y.isZero)

/-- The whole number nearest to `numerator / denominator`; halfway, the even one. -/
def roundQuotient (numerator denominator : Nat) : Nat :=
  let quotient := numerator / denominator
  let twice := 2 * (numerator % denominator)
  if denominator < twice || (twice == denominator && quotient % 2 == 1) then quotient + 1
  else quotient

/-- Apply `f` to the numerator and the denominator of `numerator / denominator / 2 ^ exponent`. -/
def scaledBy {β : Type} (f : Nat → Nat → β) (numerator denominator : Nat) (exponent : Int) : β :=
  f (numerator * Nat.pow 2 (-exponent).toNat) (denominator * Nat.pow 2 exponent.toNat)

/-- The number of the format that is nearest to a positive ratio or to zero.  There is none when
the ratio lies beyond the format's range. -/
def roundRatio (numerator denominator : Nat) : Option Binary64 :=
  if numerator = 0 then some (zero false)
  else
    let guess : Int := (numerator.log2 : Int) - denominator.log2 - 52
    let tight :=
      if scaledBy (· / ·) numerator denominator guess < Nat.pow 2 52 then guess - 1 else guess
    let exponent := max leastExponent tight
    let mantissa := scaledBy roundQuotient numerator denominator exponent
    let rounded : Binary64 :=
      if mantissa = Nat.pow 2 53 then ⟨false, Nat.pow 2 52, exponent + 1⟩
      else ⟨false, mantissa, exponent⟩
    if rounded.exponent ≤ greatestExponent then some rounded else none

/-- The rounded product of two sizes. -/
def multiply (x y : Binary64) : Option Binary64 :=
  let exponent := x.exponent + y.exponent
  roundRatio (x.mantissa * y.mantissa * Nat.pow 2 exponent.toNat) (Nat.pow 2 (-exponent).toNat)

/-- The rounded quotient of two sizes, the second not zero. -/
def divide (x y : Binary64) : Option Binary64 :=
  let exponent := x.exponent - y.exponent
  roundRatio (x.mantissa * Nat.pow 2 exponent.toNat) (y.mantissa * Nat.pow 2 (-exponent).toNat)

/-- The greatest power of ten within the format's range. -/
def greatestPower : Nat := 308

/-- The number nearest to a power of ten. -/
def powerOfTen (power : Nat) : Option Binary64 :=
  roundRatio (Nat.pow 10 power) 1

/-- Divide by a factor a number of times, until nothing is left. -/
def divideRepeatedly (factor : Binary64) : Nat → Binary64 → Option Binary64
  | 0, x => some x
  | times + 1, x =>
    if x.isZero then some x else (divide x factor).bind (divideRepeatedly factor times)

/-- Scale a size by a power of ten, in steps by powers that the format has.  Only a product can
leave the format's range; a quotient that is too small becomes zero. -/
def scaleByTen (x : Binary64) (power : Int) : Option Binary64 :=
  if 0 ≤ power then
    if power ≤ greatestPower then (powerOfTen power.toNat).bind (multiply x)
    else if x.isZero then some x
    else none
  else
    let places := (-power).toNat
    let steps := (places - 1) / greatestPower
    (powerOfTen greatestPower).bind fun factor =>
      (divideRepeatedly factor steps x).bind fun quotient =>
        (powerOfTen (places - steps * greatestPower)).bind (divide quotient)

/-- The number of the decimal `digits * 10 ^ power`, rounded once for the digits and once for the
scaling.  There is none when it lies beyond the format's range. -/
def ofDecimal (negative : Bool) (digits : Nat) (power : Int) : Option Binary64 :=
  ((roundRatio digits 1).bind (scaleByTen · power)).map fun size =>
    if negative then size.negate else size

/-! ## Shortest digits -/

/-- Whether `left * 10 ^ power` is at most `right * 2 ^ exponent`. -/
def decimalAtMost (left : Nat) (power : Int) (right : Nat) (exponent : Int) : Bool :=
  left * Nat.pow 10 power.toNat * Nat.pow 2 (-exponent).toNat ≤
    right * Nat.pow 2 exponent.toNat * Nat.pow 10 (-power).toNat

/-- Whether `left * 10 ^ power` is at least `right * 2 ^ exponent`. -/
def decimalAtLeast (left : Nat) (power : Int) (right : Nat) (exponent : Int) : Bool :=
  right * Nat.pow 2 exponent.toNat * Nat.pow 10 (-power).toNat ≤
    left * Nat.pow 10 power.toNat * Nat.pow 2 (-exponent).toNat

/-- The power of ten of the leading digit of a number that is not zero. -/
def leadingPower (x : Binary64) : Int :=
  let guess := ((x.mantissa.log2 : Int) + x.exponent) * 30103 / 100000
  if decimalAtMost 1 guess x.mantissa x.exponent then
    if decimalAtMost 1 (guess + 1) x.mantissa x.exponent then guess + 1 else guess
  else guess - 1

/-- The decimal `digits * 10 ^ power` reads back as the number: it lies between the points halfway
to the number's neighbours, these points included when the mantissa is even. -/
def readsBack (x : Binary64) (digits : Nat) (power : Int) : Bool :=
  let unit := x.exponent - 2
  let narrow := x.mantissa == Nat.pow 2 52 && leastExponent < x.exponent
  let low := 4 * x.mantissa - (if narrow then 1 else 2)
  let high := 4 * x.mantissa + 2
  decimalAtLeast digits power low unit && decimalAtMost digits power high unit &&
    (x.mantissa % 2 == 0 ||
      (!decimalAtMost digits power low unit && !decimalAtLeast digits power high unit))

/-- The candidates with a given last place: the decimals next to the number on that grid, the
nearer one first.  At equal distance the even one comes first. -/
def gridNeighbours (x : Binary64) (power : Int) : List Nat :=
  let numerator := x.mantissa * Nat.pow 2 x.exponent.toNat * Nat.pow 10 (-power).toNat
  let denominator := Nat.pow 2 (-x.exponent).toNat * Nat.pow 10 power.toNat
  let below := numerator / denominator
  if roundQuotient numerator denominator = below then [below, below + 1] else [below + 1, below]

/-- The first decimal that reads back, trying one digit more in each round. -/
def searchDigits (x : Binary64) : Nat → Int → Nat × Int
  | 0, power => ((gridNeighbours x power).headD 0, power)
  | rounds + 1, power =>
    match (gridNeighbours x power).find? (readsBack x · power) with
    | some digits => (digits, power)
    | none => searchDigits x rounds (power - 1)

/-- The fewest digits that determine a number, with the power of ten of their last place. -/
def shortestDigits (x : Binary64) : Nat × Int :=
  if x.isZero then (0, 0) else searchDigits x 17 x.leadingPower

/-- Drop the zeros at the end of the digits. -/
def dropTrailingZeros : Nat → Nat × Int → Nat × Int
  | 0, decimal => decimal
  | rounds + 1, (digits, power) =>
    if digits ≠ 0 ∧ digits % 10 = 0 then dropTrailingZeros rounds (digits / 10, power + 1)
    else (digits, power)

/-- The text of a number. Whole numbers keep a fraction `.0`. -/
def render (x : Binary64) : String :=
  let (digits, power) := dropTrailingZeros 20 x.shortestDigits
  let shown := (toString digits).toList
  let point : Int := shown.length + power
  let body : List Char :=
    if digits = 0 then ['0', '.', '0']
    else if 0 ≤ power ∧ point ≤ 16 then
      shown ++ List.replicate power.toNat '0' ++ ['.', '0']
    else if 0 < point ∧ point ≤ 16 then
      shown.take point.toNat ++ ['.'] ++ shown.drop point.toNat
    else if -5 < point ∧ point ≤ 0 then
      ['0', '.'] ++ List.replicate (-point).toNat '0' ++ shown
    else
      shown.take 1 ++ (if shown.length = 1 then [] else '.' :: shown.drop 1) ++ ['e'] ++
        [if 0 < point then '+' else '-'] ++ (toString (point - 1).natAbs).toList
  .ofList (if x.negative then '-' :: body else body)

end Binary64
end KeyedReflection
