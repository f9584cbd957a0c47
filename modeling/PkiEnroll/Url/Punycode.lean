namespace PkiEnroll.Url.Punycode

def digit (n : Nat) : Char := Char.ofNat (if n < 26 then 97 + n else 22 + n)

def value? (c : Char) : Option Nat :=
  let n := c.toNat
  if 97 ≤ n ∧ n ≤ 122 then some (n - 97)
  else if 65 ≤ n ∧ n ≤ 90 then some (n - 65)
  else if 48 ≤ n ∧ n ≤ 57 then some (n - 22)
  else none

def threshold (bias k : Nat) : Nat := min 26 (max 1 (36 * k - bias))

/-- Divides by 35 until at most 455 is left; returns that and 36 a division. -/
def damp : Nat → Nat → Nat × Nat
  | 0, delta => (0, delta)
  | bound + 1, delta =>
    if 455 < delta then
      let (k, rest) := damp bound (delta / 35)
      (k + 36, rest)
    else (0, delta)

/-- The bias for the next number after `delta`, when `count` characters are in place. -/
def adapt (delta count : Nat) (isFirst : Bool) : Nat :=
  let delta := if isFirst then delta / 700 else delta / 2
  let (k, rest) := damp delta (delta + delta / count)
  k + 36 * rest / (rest + 38)

/-- The digits of a number from position `k` on; a number has fewer digits than `bound`. -/
def numberDigits (bias : Nat) : Nat → Nat → Nat → List Char
  | 0, _, _ => []
  | bound + 1, k, n =>
    let t := threshold bias k
    if n < t then [digit n]
    else digit (t + (n - t) % (36 - t)) :: numberDigits bias bound (k + 1) ((n - t) / (36 - t))

structure Encoder where
  digits : List Char
  delta : Nat
  bias : Nat
  count : Nat

def Encoder.pass (basic code : Nat) (e : Encoder) (c : Char) : Encoder :=
  if c.toNat < code then { e with delta := e.delta + 1 }
  else if c.toNat = code then
    { digits := e.digits ++ numberDigits e.bias (e.delta + 1) 1 e.delta, delta := 0,
      bias := adapt e.delta (e.count + 1) (e.count = basic), count := e.count + 1 }
  else e

/-- Puts the characters in place, code by code in rising order from `next` on. -/
def encodeCodes (label : List Char) (basic : Nat) : List Nat → Nat → Encoder → Encoder
  | [], _, e => e
  | code :: codes, next, e =>
    let e := { e with delta := e.delta + (code - next) * (e.count + 1) }
    let e := label.foldl (Encoder.pass basic code) e
    encodeCodes label basic codes (code + 1) { e with delta := e.delta + 1 }

def encode (label : List Char) : List Char :=
  let basic := label.filter (·.toNat < 128)
  let codes := ((label.map Char.toNat).filter (128 ≤ ·)).mergeSort.eraseDups
  basic ++ (if basic.isEmpty then [] else ['-']) ++
    (encodeCodes label basic.length codes 128 ⟨[], 0, 72, basic.length⟩).digits

/-- Reads the digits of one number into `sum`, the next of which counts `weight`. -/
def readNumber? (bias : Nat) : Nat → Nat → Nat → List Char → Option (Nat × List Char)
  | _, _, _, [] => none
  | k, weight, sum, c :: rest => do
    let d ← value? c
    let t := threshold bias k
    if d < t then some (sum + d * weight, rest)
    else readNumber? bias (k + 1) (weight * (36 - t)) (sum + d * weight) rest

/-- Puts characters among those in place, until the digits end. Each takes a digit at least. -/
def decodeCodes? (basic : Nat) : Nat → List Char → Nat → Nat → Nat → List Char → Option (List Char)
  | _, [], _, _, _, placed => some placed
  | 0, _, _, _, _, _ => none
  | bound + 1, digits, code, start, bias, placed => do
    let (position, rest) ← readNumber? bias 1 1 start digits
    let count := placed.length + 1
    let code := code + position / count
    let place := position % count
    if 0x10ffff < code ∨ (0xd800 ≤ code ∧ code ≤ 0xdfff) then none
    else
      decodeCodes? basic bound rest code (place + 1) (adapt (position - start) count (placed.length = basic))
        (placed.take place ++ Char.ofNat code :: placed.drop place)

def decode? (text : List Char) : Option (List Char) :=
  let reversed := text.reverse
  let digits := (reversed.takeWhile (· ≠ '-')).reverse
  let basic := ((reversed.dropWhile (· ≠ '-')).drop 1).reverse
  if basic.all (·.toNat < 128) then decodeCodes? basic.length digits.length digits 128 0 72 basic
  else none

end PkiEnroll.Url.Punycode
