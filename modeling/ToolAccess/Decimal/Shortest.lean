import ToolAccess.Decimal.Binary64

/-!
# Shortest decimals

The decimal text of a floating-point number has the fewest digits that read back as the same
number, and among those the digits nearest to it. `Shortest.digits` finds them by comparing whole
numbers: for each count of digits from one on, the two neighbours of the number on the decimal
grid are tested against the interval of reals that round to it.
-/

namespace ToolAccess.Shortest

/-- `digits * 10 ^ power`. -/
structure Decimal where
  digits : Nat
  power : Int
  deriving DecidableEq, Repr

/-- The reals that round to a number, in quarters of its last binary place: the number is
`4 * m * 2 ^ (e - 2)`, and the interval reaches from `low` to `high` quarters. Its ends belong to
it when the significand is even. -/
structure Interval where
  low : Nat
  mid : Nat
  high : Nat
  closed : Bool
  exponent : Int

/-- The interval of a finite number other than zero. Just above a power of two the numbers below
are twice as dense. -/
def interval (m : Nat) (e : Int) : Interval where
  low := if m = twoTo 52 ∧ Binary64.minExponent < e then 4 * m - 1 else 4 * m - 2
  mid := 4 * m
  high := 4 * m + 2
  closed := m % 2 == 0
  exponent := e - 2

/-- `n * 2 ^ e / 10 ^ p` as a fraction. -/
def onGrid (n : Nat) (e p : Int) : Nat × Nat :=
  let (a, b) := Binary64.ratio n e
  if 0 ≤ p then (a, b * tenTo p.toNat) else (a * tenTo (-p).toNat, b)

/-- Whether `d * 10 ^ p` lies in the interval. -/
def Interval.contains (i : Interval) (d : Nat) (p : Int) : Bool :=
  let (ln, ld) := onGrid i.low i.exponent p
  let (hn, hd) := onGrid i.high i.exponent p
  if i.closed then ln ≤ d * ld && d * hd ≤ hn else ln < d * ld && d * hd < hn

/-- The greatest power of ten that is at most the positive fraction. -/
def magnitude (num den : Nat) : Int :=
  let k : Int := ((Nat.toDigits 10 num).length : Int) - ((Nat.toDigits 10 den).length : Int)
  let (n, d) := if 0 ≤ k then (num, den * tenTo k.toNat) else (num * tenTo (-k).toNat, den)
  if d ≤ n then k else k - 1

/-- The nearer of the two neighbours of the number on the grid of `10 ^ p` that lie in the
interval; of two equally near ones the even one. -/
def onGridOf (i : Interval) (p : Int) : Option Nat :=
  let (n, d) := onGrid i.mid i.exponent p
  let down := n / d
  match i.contains down p, i.contains (down + 1) p with
  | true, true => some (Binary64.roundQuotient n d)
  | true, false => some down
  | false, true => some (down + 1)
  | false, false => none

/-- Tries the grids from the power `p` down. -/
def search (i : Interval) (p : Int) : Nat → Decimal
  | 0 => ⟨(let (n, d) := onGrid i.mid i.exponent p; Binary64.roundQuotient n d), p⟩
  | fuel + 1 =>
    match onGridOf i p with
    | some d => ⟨d, p⟩
    | none => search i (p - 1) fuel

/-- Takes the zeros off the end of the digits. -/
def trim (d : Decimal) : Nat → Decimal
  | 0 => d
  | fuel + 1 =>
    if d.digits ≠ 0 ∧ d.digits % 10 = 0 then trim ⟨d.digits / 10, d.power + 1⟩ fuel else d

/-- The shortest decimal of a finite number other than zero. Seventeen digits are always enough. -/
def digits (m : Nat) (e : Int) : Decimal :=
  let (n, d) := Binary64.ratio m e
  trim (search (interval m e) (magnitude n d) 17) 20

/-- The digits without an exponent, with zeros in front of or behind them as needed. -/
def positional (d : Decimal) : List Char :=
  let ds := Nat.toDigits 10 d.digits
  let point := (ds.length : Int) + d.power
  if 0 ≤ d.power then ds ++ List.replicate d.power.toNat '0'
  else if 0 < point then ds.take point.toNat ++ '.' :: ds.drop point.toNat
  else '0' :: '.' :: List.replicate (-point).toNat '0' ++ ds

/-- The digits with an exponent behind a point after the first digit. -/
def scientific (d : Decimal) : List Char :=
  let ds := Nat.toDigits 10 d.digits
  let exponent := (ds.length : Int) + d.power - 1
  ds.take 1 ++ (if ds.length ≤ 1 then [] else '.' :: ds.drop 1) ++ 'e' :: (toString exponent).toList

end ToolAccess.Shortest
