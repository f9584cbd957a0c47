import PkiEnroll.Url.Percent
import PkiEnroll.Url.Punycode

namespace PkiEnroll

namespace Url

inductive Problem where
  | relative
  | emptyHost
  | port
  | ipv4
  | ipv6
  | domain
  deriving DecidableEq, Repr

namespace Problem

def message : Problem → String
  | relative => "relative URL without a base"
  | emptyHost => "empty host"
  | port => "invalid port number"
  | ipv4 => "invalid IPv4 address"
  | ipv6 => "invalid IPv6 address"
  | domain => "invalid international domain name"

end Problem

inductive Host where
  | domain (name : String)
  | ipv4 (address : Nat)
  /-- Eight numbers of 16 bits. -/
  | ipv6 (pieces : List Nat)
  deriving DecidableEq, Repr

namespace Host

/-- The lower-case letters of the alphabets that have simple ones, and the other forms of the dot and
of ASCII. Other characters stay as they are. -/
def fold (c : Char) : Char :=
  let n := c.toNat
  if 0x41 ≤ n ∧ n ≤ 0x5a ∨ 0xc0 ≤ n ∧ n ≤ 0xde ∧ n ≠ 0xd7 ∨ 0x391 ≤ n ∧ n ≤ 0x3a9 ∨
      0x410 ≤ n ∧ n ≤ 0x42f then Char.ofNat (n + 32)
  else if 0x400 ≤ n ∧ n ≤ 0x40f then Char.ofNat (n + 80)
  else if 0x100 ≤ n ∧ n ≤ 0x137 ∧ n % 2 = 0 ∨ 0x14a ≤ n ∧ n ≤ 0x177 ∧ n % 2 = 0 ∨
      0x139 ≤ n ∧ n ≤ 0x148 ∧ n % 2 = 1 then Char.ofNat (n + 1)
  else if n = 0x3002 ∨ n = 0xff0e ∨ n = 0xff61 then '.'
  else if 0xff21 ≤ n ∧ n ≤ 0xff3a then Char.ofNat (n - 0xfee0 + 32)
  else if 0xff01 ≤ n ∧ n ≤ 0xff5e then Char.ofNat (n - 0xfee0)
  else c

/-- Characters that do not show: soft hyphen, zero-width ones, byte order mark. -/
def isIgnored (c : Char) : Bool :=
  [0xad, 0x200b, 0x2060, 0xfeff].contains c.toNat

def isForbidden (c : Char) : Bool :=
  c.toNat ≤ 0x20 || c.toNat = 0x7f || "%#/:<>?@[\\]^|".toList.contains c

def isAscii (cs : List Char) : Bool := cs.all (·.toNat < 128)

/-- A label in ASCII. One that is already encoded has to decode to something that needs it. -/
def labelToAscii? (label : List Char) : Option (List Char) :=
  if "xn--".toList.isPrefixOf label then do
    let decoded ← if isAscii label then Punycode.decode? (label.drop 4) else none
    if isAscii decoded || decoded.map fold ≠ decoded then none else some label
  else if isAscii label then some label
  else some ("xn--".toList ++ Punycode.encode label)

def domainToAscii? (name : String) : Option String := do
  let folded := (name.toList.filter fun c => !isIgnored c).map fold
  if folded.any isForbidden then none
  else
    let labels ← (folded.splitOn '.').mapM labelToAscii?
    return String.ofList (['.'].intercalate labels)

def number? (radix : Nat) (cs : List Char) : Option Nat :=
  cs.foldlM (fun n c => do
    let d ← Bytes.hexValue? (UInt8.ofNat (min c.toNat 255))
    if d.toNat < radix then some (radix * n + d.toNat) else none) 0

def ipv4Number? : List Char → Option Nat
  | [] => none
  | '0' :: 'x' :: digits | '0' :: 'X' :: digits => number? 16 digits
  | '0' :: d :: digits => number? 8 (d :: digits)
  | digits => number? 10 digits

def trimmedLabels (name : List Char) : List (List Char) :=
  match (name.splitOn '.').reverse with
  | [] :: more => more.reverse
  | labels => labels.reverse

def endsInNumber (name : List Char) : Bool :=
  match (trimmedLabels name).getLast? with
  | none => false
  | some label => (!label.isEmpty && label.all Char.isDigit) || (ipv4Number? label).isSome

/-- Up to four numbers, of which the last fills the bytes that are left. -/
def ipv4? (name : List Char) : Option Nat := do
  let numbers ← (trimmedLabels name).mapM ipv4Number?
  let last ← numbers.getLast?
  let front := numbers.dropLast
  let span := 1 <<< (8 * (4 - front.length))
  if front.length < 4 ∧ front.all (· < 256) ∧ last < span then
    some (front.foldl (fun n b => 256 * n + b) 0 * span + last)
  else none

def decimalByte? (cs : List Char) : Option Nat :=
  if cs.isEmpty || (cs.length ≠ 1 && cs.head? = some '0') then none
  else (number? 10 cs).filter (· < 256)

def hexPiece? (cs : List Char) : Option Nat :=
  if cs.isEmpty || 4 < cs.length then none else number? 16 cs

/-- The last piece of an address may be four decimal bytes. -/
def lastPieces? (cs : List Char) : Option (List Nat) :=
  if cs.contains '.' then
    match (cs.splitOn '.').mapM decimalByte? with
    | some [a, b, c, d] => some [256 * a + b, 256 * c + d]
    | _ => none
  else (hexPiece? cs).map fun n => [n]

/-- Pieces between colons; none if there is no text. -/
def pieces? (isLast : Bool) (cs : List Char) : Option (List Nat) :=
  match (cs.splitOn ':').reverse with
  | [[]] => some []
  | last :: front => do
    let front ← front.reverse.mapM hexPiece?
    let last ← if isLast then lastPieces? last else (hexPiece? last).map fun n => [n]
    return front ++ last
  | [] => none

def splitDoubleColon? : List Char → Option (List Char × List Char)
  | ':' :: ':' :: rest => some ([], rest)
  | c :: rest => (splitDoubleColon? rest).map fun (front, back) => (c :: front, back)
  | [] => none

/-- Eight pieces; two colons stand for one zero or more. -/
def ipv6? (cs : List Char) : Option (List Nat) :=
  match splitDoubleColon? cs with
  | none => (pieces? true cs).filter (·.length = 8)
  | some (front, back) => do
    let front ← pieces? false front
    let back ← pieces? true back
    let known := front.length + back.length
    if known < 8 then some (front ++ List.replicate (8 - known) 0 ++ back) else none

def longestZeros (pieces : List Nat) : Nat × Nat :=
  (List.range pieces.length).foldl (fun (start, length) i =>
    let run := ((pieces.drop i).takeWhile (· = 0)).length
    if length < run then (i, run) else (start, length)) (0, 0)

def hexText (n : Nat) : String := String.ofList (Nat.toDigits 16 n)

def ipv6Text (pieces : List Nat) : String :=
  let join (ps : List Nat) := ":".intercalate (ps.map hexText)
  let (start, length) := longestZeros pieces
  if length < 2 then join pieces
  else join (pieces.take start) ++ "::" ++ join (pieces.drop (start + length))

def text : Host → String
  | domain name => name
  | ipv4 n =>
    ".".intercalate ([n / 16777216, n / 65536 % 256, n / 256 % 256, n % 256].map Nat.repr)
  | ipv6 pieces => "[" ++ ipv6Text pieces ++ "]"

def ofBracketed? (cs : List Char) : Except Problem Host :=
  match cs.getLast?, ipv6? cs.dropLast with
  | some ']', some pieces => .ok (ipv6 pieces)
  | _, _ => .error .ipv6

def ofText? (cs : List Char) : Except Problem Host :=
  match cs with
  | [] => .error .emptyHost
  | '[' :: rest => ofBracketed? rest
  | _ =>
    match Bytes.toString? (Percent.decode (Bytes.ofString (String.ofList cs))) >>= domainToAscii? with
    | none => .error .domain
    | some "" => .error .emptyHost
    | some name =>
      if endsInNumber name.toList then
        match ipv4? name.toList with
        | some n => .ok (ipv4 n)
        | none => .error .ipv4
      else .ok (domain name)

end Host

end Url

end PkiEnroll
