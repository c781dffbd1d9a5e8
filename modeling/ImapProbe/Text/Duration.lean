/-!
# Durations

A duration is written in the largest of seconds, milliseconds, microseconds and nanoseconds that
gives a whole part other than zero, with the digits of its fraction less the zeros at their end.
-/

namespace ImapProbe

structure Duration where
  nanoseconds : Nat
  deriving DecidableEq, Repr

namespace Duration

def ofSeconds (n : Nat) : Duration := ⟨n * 1000000000⟩

/-- The digits of `part` over `size`, a power of ten above it, less the zeros at their end. Added to
`size` the part has a digit in each place, behind a one. -/
def fraction (part size : Nat) : List Char :=
  (((Nat.toDigits 10 (size + part)).drop 1).reverse.dropWhile (· == '0')).reverse

/-- `n` over `size`, a power of ten, with the unit behind it. -/
def inUnit (n size : Nat) (unit : String) : String :=
  let whole := toString (n / size)
  match fraction (n % size) size with
  | [] => whole ++ unit
  | digits => whole ++ "." ++ String.ofList digits ++ unit

def text (d : Duration) : String :=
  let n := d.nanoseconds
  if 1000000000 ≤ n then inUnit n 1000000000 "s"
  else if 1000000 ≤ n then inUnit n 1000000 "ms"
  else if 1000 ≤ n then inUnit n 1000 "µs"
  else inUnit n 1 "ns"

end Duration

end ImapProbe
