import SchemaStructs.Json.Fault

namespace SchemaStructs.Json

structure Numeral where
  whole : List Nat
  fraction : List Nat
  exponent : Int

namespace Numeral

def digit (c : Char) : Nat := c.toNat - '0'.toNat

def digits (cs : List Char) : List Nat × List Char :=
  ((cs.takeWhile Char.isDigit).map digit, cs.dropWhile Char.isDigit)

def valueFrom (n : Nat) (ds : List Nat) : Nat := ds.foldl (fun n d => n * 10 + d) n

/-- The digits after a point, where there is one. Nothing is read when the digits are missing,
and then what stands in their place is returned. -/
def scanFraction : List Char → Except (List Char) (List Nat × List Char)
  | '.' :: cs =>
    match digits cs with
    | ([], rest) => .error rest
    | (ds, rest) => .ok (ds, rest)
  | cs => .ok ([], cs)

def scanExponent : List Char → Except (List Char) (Int × List Char)
  | [] => .ok (0, [])
  | c :: cs =>
    if c = 'e' ∨ c = 'E' then
      let (negative, cs) :=
        match cs with
        | '-' :: cs => (true, cs)
        | '+' :: cs => (false, cs)
        | cs => (false, cs)
      match digits cs with
      | ([], rest) => .error rest
      | (ds, rest) =>
        let e : Int := valueFrom 0 ds
        .ok (if negative then -e else e, rest)
    else .ok (0, c :: cs)

def scan (cs : List Char) : Except (List Char) (Numeral × List Char) :=
  match digits cs with
  | ([], rest) => .error rest
  | (0 :: _ :: _, _) => .error cs
  | (whole, rest) =>
    match scanFraction rest with
    | .error stop => .error stop
    | .ok (fraction, rest) =>
      match scanExponent rest with
      | .error stop => .error stop
      | .ok (exponent, rest) => .ok (⟨whole, fraction, exponent⟩, rest)

def absorb (n : Nat) : List Nat → Nat × List Nat
  | [] => (n, [])
  | d :: ds => if n * 10 + d < Nat.pow 2 64 then absorb (n * 10 + d) ds else (n, d :: ds)

/-- The nearest number with at most 53 significant bits, of two the even one. -/
def round53 (n : Nat) : Nat :=
  if n < Nat.pow 2 53 then n
  else
    let unit := Nat.pow 2 (n.log2 - 52)
    let q := n / unit
    let r := n % unit
    if 2 * r > unit ∨ (2 * r = unit ∧ q % 2 = 1) then (q + 1) * unit else q * unit

/-- Whether the number has a finite value in double precision, where the value is the product of
the leading digits and a power of ten, each rounded. Digits that no longer go into the leading
digits count for the power when they stand before the point, and not at all after it. -/
def fits (x : Numeral) : Bool :=
  let (n, surplus) := absorb 0 x.whole
  let (n, dropped) := absorb n x.fraction
  let power : Int := surplus.length - (x.fraction.length - dropped.length) + x.exponent
  if power < 0 then true
  else if 308 < power then n == 0
  else round53 n * round53 (Nat.pow 10 power.toNat) < Nat.pow 2 1024 - Nat.pow 2 970

end Numeral

end SchemaStructs.Json
