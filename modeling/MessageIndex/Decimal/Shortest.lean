/-!
# The shortest decimal of a double

A double is written with the fewest digits that read back as the same double. A finite positive
double is `m * 2 ^ q`; the reals that round to it form an interval around it, which holds its own
ends exactly when `m` is even. For one digit, two digits and so on, the two neighbours of the value
on the grid of decimals with that many digits are tested against the interval in exact natural
number arithmetic; the first grid with a hit wins, the nearer neighbour first, and of two equally
near ones the even one.
-/

namespace MessageIndex.Decimal

/-- A finite positive double, taken apart: its value is `mantissa * 2 ^ exponent`. -/
structure Binary where
  /-- The significant bits as a number. -/
  mantissa : Nat
  /-- The power of two. -/
  exponent : Int
  /-- The next smaller double is nearer than the next greater one. -/
  gapBelowHalved : Bool
  deriving DecidableEq, Repr

namespace Binary

/-- Takes a positive double apart by its bits. -/
def ofBits (bits : UInt64) : Binary :=
  let fraction : Nat := bits.toNat % 0x10000000000000
  let biased : Nat := bits.toNat / 0x10000000000000 % 0x800
  if biased = 0 then ⟨fraction, -1074, false⟩
  else ⟨0x10000000000000 + fraction, (biased : Int) - 1075, fraction = 0 ∧ 1 < biased⟩

/-- The value as a quotient of natural numbers, the mantissa taken four times: numerator and
denominator of a quarter of the last bit. -/
def quarterUnit (b : Binary) : Nat × Nat :=
  if 2 ≤ b.exponent then (Nat.pow 2 (b.exponent - 2).toNat, 1)
  else (1, Nat.pow 2 (2 - b.exponent).toNat)

/-- The power of ten of the leading digit. -/
def leadingExponent (b : Binary) : Int :=
  let (unit, den) := b.quarterUnit
  let num := 4 * b.mantissa * unit
  if den ≤ num then ((Nat.toDigits 10 (num / den)).length : Int) - 1
  else
    let length := (Nat.toDigits 10 (den / num)).length
    if den ≤ num * Nat.pow 10 (length - 1) then -((length : Int) - 1) else -(length : Int)

end Binary

/-- Digits with the power of ten of the first one. -/
structure Digits where
  /-- The digits as a number; the first one is not zero. -/
  digits : Nat
  /-- The power of ten of the leading digit. -/
  leading : Int
  deriving DecidableEq, Repr

/-- The best decimal with `count` digits for a double, if one reads back as it. -/
def withDigits? (b : Binary) (count : Nat) : Option Digits :=
  let (unit, den) := b.quarterUnit
  let leading := b.leadingExponent
  let last := leading - (count - 1)
  let (up, down) := if 0 ≤ last then (Nat.pow 10 last.toNat, 1) else (1, Nat.pow 10 (-last).toNat)
  -- Both sides of each comparison are multiplied by `den * down`.
  let value := 4 * b.mantissa * unit * down
  let low := (4 * b.mantissa - if b.gapBelowHalved then 1 else 2) * unit * down
  let high := (4 * b.mantissa + 2) * unit * down
  let scaled (d : Nat) : Nat := d * up * den
  let hits (d : Nat) : Bool :=
    if b.mantissa % 2 = 0 then low ≤ scaled d ∧ scaled d ≤ high
    else low < scaled d ∧ scaled d < high
  let below := value / (up * den)
  let above := below + 1
  let nearer :=
    if value - scaled below < scaled above - value then below
    else if scaled above - value < value - scaled below then above
    else if below % 2 = 0 then below else above
  let other := if nearer = below then above else below
  let carry (d : Nat) : Digits := ⟨d, if d = Nat.pow 10 count then leading + 1 else leading⟩
  if hits nearer then some (carry nearer)
  else if hits other then some (carry other)
  else none

/-- Drops the zeros at the end. -/
def dropZeros : (fuel digits : Nat) → Nat
  | 0, d => d
  | fuel + 1, d => if d % 10 = 0 then dropZeros fuel (d / 10) else d

/-- The shortest decimal of a finite positive double: seventeen digits always suffice. -/
def shortest (b : Binary) : Digits :=
  match (List.range 17).findSome? fun n => withDigits? b (n + 1) with
  | some d => { d with digits := dropZeros 17 d.digits }
  | none => ⟨b.mantissa, b.leadingExponent⟩

/-! ## Layout -/

/-- Leading digits from the power -5 up to the power 15 are written positionally, with at least one
place after the point; any other number has one digit before the point, no point if there is none
after it, and a signed power of ten. -/
def layout (d : Digits) : String :=
  let digits := Nat.toDigits 10 d.digits
  let zeros (n : Int) : List Char := List.replicate n.toNat '0'
  let text :=
    if 0 ≤ d.leading ∧ d.leading ≤ 15 then
      let whole := (d.leading + 1).toNat
      digits.take whole ++ zeros (whole - digits.length) ++ '.' ::
        (if digits.length ≤ whole then ['0'] else digits.drop whole)
    else if -5 ≤ d.leading ∧ d.leading < 0 then
      '0' :: '.' :: zeros (-d.leading - 1) ++ digits
    else
      digits.take 1 ++ (if digits.length = 1 then [] else '.' :: digits.drop 1) ++
        'e' :: (if d.leading < 0 then '-' else '+') :: Nat.toDigits 10 d.leading.natAbs
  String.ofList text

/-- A finite double in decimal; zero keeps its sign. -/
def render (x : Float) : String :=
  let bits := x.toBits
  let sign := if bits < 0x8000000000000000 then "" else "-"
  let magnitude := bits &&& 0x7fffffffffffffff
  sign ++ if magnitude = 0 then "0.0" else layout (shortest (Binary.ofBits magnitude))

end MessageIndex.Decimal
