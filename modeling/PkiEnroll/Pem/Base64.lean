import PkiEnroll.Bytes

namespace PkiEnroll.Base64

def digit (n : Nat) : UInt8 :=
  UInt8.ofNat <|
    if n < 26 then 65 + n
    else if n < 52 then 71 + n
    else if n < 62 then n - 4
    else if n = 62 then 43
    else 47

def value? (c : UInt8) : Option Nat :=
  let n := c.toNat
  if 65 ≤ n ∧ n ≤ 90 then some (n - 65)
  else if 97 ≤ n ∧ n ≤ 122 then some (n - 71)
  else if 48 ≤ n ∧ n ≤ 57 then some (n + 4)
  else if n = 43 then some 62
  else if n = 47 then some 63
  else none

/-- Three bytes make four characters; equals signs fill up the last four. -/
def encode : Bytes → Bytes
  | a :: b :: c :: rest =>
    let n := 65536 * a.toNat + 256 * b.toNat + c.toNat
    digit (n / 262144) :: digit (n / 4096 % 64) :: digit (n / 64 % 64) :: digit (n % 64) ::
      encode rest
  | [a, b] =>
    let n := 256 * a.toNat + b.toNat
    [digit (n / 1024), digit (n / 16 % 64), digit (n * 4 % 64), 61]
  | [a] => [digit (a.toNat / 4), digit (a.toNat * 16 % 64), 61, 61]
  | [] => []

/-- The whole bytes of a sequence of sextets; bits left over are dropped. -/
def ofSextets : List Nat → Bytes
  | a :: b :: c :: d :: rest =>
    UInt8.ofNat (4 * a + b / 16) :: UInt8.ofNat (b % 16 * 16 + c / 4) ::
      UInt8.ofNat (c % 4 * 64 + d) :: ofSextets rest
  | [a, b, c] => [UInt8.ofNat (4 * a + b / 16), UInt8.ofNat (b % 16 * 16 + c / 4)]
  | [a, b] => [UInt8.ofNat (4 * a + b / 16)]
  | _ => []

def isBlank (c : UInt8) : Bool := c = 32 || c = 9 || c = 10 || c = 13

/-- Blanks are passed over. The filling at the end may be missing; nothing follows it. -/
def decode? (text : Bytes) : Option Bytes :=
  let text := text.filter fun c => !isBlank c
  let filling := text.dropWhile (· ≠ 61)
  if filling.length ≤ 2 ∧ filling.all (· = 61) then
    ((text.takeWhile (· ≠ 61)).mapM value?).map ofSextets
  else none

end PkiEnroll.Base64
