/-!
# Floating-point numbers in text

No quantity of the protocol is a floating-point number, but a file that somebody else has
written may hold some, and they are kept as doubles. Reading takes as many digits as 64
bits can hold and scales their value by a power of ten, so that it rounds up to three
times. Writing selects the fewest digits that denote the double and no other one.

* `StakeGovernance.Double.ofText?` – the **double of a decimal text**;
* `StakeGovernance.Double.shortest` – the **fewest digits** of a double;
* `StakeGovernance.Double.toText` – the **text** of a double.
-/

namespace StakeGovernance.Double

/-! ### Reading -/

/-- Whether a character is a decimal digit. -/
def isDigit (c : Char) : Bool := '0' ≤ c && c ≤ '9'

/-- The value of digits after those of value `acc`, as long as it fits 64 bits, and the
number of digits from the first one on that does not fit. -/
def gather (acc : Nat) : List Char → Nat × Nat
  | [] => (acc, 0)
  | c :: cs =>
    let next := 10 * acc + (c.toNat - 48)
    if next < UInt64.size then gather next cs else (acc, cs.length + 1)

/-- A power of ten. -/
def power (n : Nat) : Float := Float.ofScientific 1 false n

/-- The double next to `digits * 10 ^ exponent`, unless that is too large. The digits are
rounded first, and a very small exponent is applied in two steps. -/
def scale? (digits : Nat) (exponent : Int) : Option Float :=
  let x := Float.ofNat digits
  if digits = 0 then some x
  else if 308 < exponent then none
  else if 0 ≤ exponent then
    let y := x * power exponent.toNat
    if y.isInf then none else some y
  else if -308 ≤ exponent then some (x / power (-exponent).toNat)
  -- ten to a smaller exponent is not a double of its own
  else if -616 ≤ exponent then some (x / power 308 / power (-exponent - 308).toNat)
  else some 0

/-- The value of an exponent after its mark. -/
def exponentOf : List Char → Int
  | '-' :: ds => -(ds.foldl (fun n c => 10 * n + (c.toNat - 48)) 0 : Nat)
  | '+' :: ds => (ds.foldl (fun n c => 10 * n + (c.toNat - 48)) 0 : Nat)
  | ds => (ds.foldl (fun n c => 10 * n + (c.toNat - 48)) 0 : Nat)

/-- The double of digits, a fraction and an exponent, each of them possibly missing. -/
def magnitude? (cs : List Char) : Option Float :=
  let whole := cs.takeWhile isDigit
  let (fraction, rest) := match cs.dropWhile isDigit with
    | '.' :: cs => (cs.takeWhile isDigit, cs.dropWhile isDigit)
    | rest => ([], rest)
  let (digits, above) := gather 0 whole
  let (digits, below) := gather digits fraction
  scale? digits (above + below - fraction.length + exponentOf (rest.drop 1))

/-- **The double of a decimal text**, unless it is too large. -/
def ofText? (text : String) : Option Float :=
  match text.toList with
  | '-' :: cs => (magnitude? cs).map fun x => -x
  | cs => magnitude? cs

/-! ### The fewest digits -/

/-- The least significand of a double that is not very small. -/
def leastSignificand : Nat := 1 <<< 52

/-- The integers `m` and `q` with `m * 2 ^ q` for the magnitude of a double. -/
def decompose (x : Float) : Nat × Int :=
  let exponent := (x.toBits >>> 52 &&& 0x7ff).toNat
  let fraction := (x.toBits &&& 0xfffffffffffff).toNat
  -- without an exponent there is no leading one in front of the fraction
  if exponent = 0 then (fraction, -1074)
  else (leastSignificand + fraction, (exponent : Int) - 1075)

/-- The number `d * 10 ^ p`, in the unit in which `binary` gives numbers. -/
def decimal (d : Nat) (p q : Int) : Nat := d * Nat.pow 10 p.toNat <<< (2 - q).toNat

/-- The number `n / 4 * 2 ^ q`, in the unit in which `decimal` gives numbers. -/
def binary (n : Nat) (p q : Int) : Nat := n * Nat.pow 10 (-p).toNat <<< (q - 2).toNat

/-- Whether `d * 10 ^ p` is rounded to `m * 2 ^ q`: it lies between the midpoints to the
neighbours, and on one of them only if `m` is even. The neighbour below a power of two is
nearer than the one above. -/
def denotes (m : Nat) (p q : Int) (d : Nat) : Bool :=
  let low := binary (if m = leastSignificand && -1074 < q then 4 * m - 1 else 4 * m - 2) p q
  let high := binary (4 * m + 2) p q
  let point := decimal d p q
  if m % 2 = 0 then low ≤ point && point ≤ high else low < point && point < high

/-- The multiple of `10 ^ p` that denotes `m * 2 ^ q`, if there is one: the nearer one of
two, and of two that are equally near the even one. -/
def candidate? (m : Nat) (q p : Int) : Option Nat :=
  let unit := decimal 1 p q
  let d := binary (4 * m) p q / unit
  let excess := binary (4 * m) p q % unit
  let nearer := if 2 * excess < unit || (2 * excess = unit && d % 2 = 0) then d else d + 1
  if denotes m p q nearer then some nearer
  else [d, d + 1].find? (denotes m p q)

/-- The exponent of the first digit of `m * 2 ^ q`. -/
def leadingExponent (m : Nat) (q : Int) : Int :=
  (((List.range 640).find? fun (i : Nat) =>
    binary (4 * m) ((i : Int) - 329) q < decimal 1 ((i : Int) - 329) q).getD 0 : Nat) - 330

/-- Takes the zeros away from the end of digits. -/
def stripZeros : Nat → Nat → Int → Nat × Int
  | 0, d, p => (d, p)
  | fuel + 1, d, p =>
    if d ≠ 0 && d % 10 = 0 then stripZeros fuel (d / 10) (p + 1) else (d, p)

/-- **The fewest digits** that denote `m * 2 ^ q`, as `d` and `p` with `d * 10 ^ p`. -/
def shortest (m : Nat) (q : Int) : Nat × Int :=
  let first := leadingExponent m q
  ((List.range 17).findSome? fun (i : Nat) =>
    (candidate? m q (first - i)).map fun d => stripZeros 18 d (first - i)).getD (m, q)

/-! ### Writing -/

/-- The text of `d * 10 ^ p`: positional from five zeros after the point up to sixteen
digits before it, and with an exponent, which always has a sign, otherwise. -/
def layout (d : Nat) (p : Int) : String :=
  let digits := Nat.toDigits 10 d
  let point := digits.length + p
  let zeros := fun (n : Int) => List.replicate n.toNat '0'
  let sign := if 0 < point then ['+'] else []
  let exponent := 'e' :: (sign ++ (toString (point - 1)).toList)
  String.ofList <|
    -- a whole number, then one with its point among the digits, then one with zeros in front
    if 0 ≤ p && point ≤ 16 then digits ++ zeros p ++ ['.', '0']
    else if 0 < point && point ≤ 16 then
      digits.take point.toNat ++ '.' :: digits.drop point.toNat
    else if -5 < point && point ≤ 0 then '0' :: '.' :: (zeros (-point) ++ digits)
    else if digits.length = 1 then digits ++ exponent
    else digits.take 1 ++ '.' :: (digits.drop 1 ++ exponent)

/-- **The text of a double.** -/
def toText (x : Float) : String :=
  let sign := if x.toBits >>> 63 = 1 then "-" else ""
  let (m, q) := decompose x
  if m = 0 then sign ++ "0.0"
  else
    let (d, p) := shortest m q
    sign ++ layout d p

end StakeGovernance.Double
