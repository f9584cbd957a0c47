namespace PkiEnroll.Text

/-- A number of parts, as many of which make a unit as the power of ten says, with the decimals it needs. -/
def inUnits (places n : Nat) : String :=
  let digits := (List.range places).map fun i => Nat.digitChar (n / Nat.pow 10 i % 10)
  let decimals := (digits.dropWhile (· = '0')).reverse
  Nat.repr (n / Nat.pow 10 places) ++ if decimals.isEmpty then "" else "." ++ String.ofList decimals

/-- A number of nanoseconds in the largest unit of which there is one. -/
def duration (n : Nat) : String :=
  if n < 1000 then inUnits 0 n ++ "ns"
  else if n < 1000000 then inUnits 3 n ++ "µs"
  else if n < 1000000000 then inUnits 6 n ++ "ms"
  else inUnits 9 n ++ "s"

end PkiEnroll.Text
