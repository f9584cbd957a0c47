import PkiEnroll.Bytes
import PkiEnroll.Der.Tag

namespace PkiEnroll.Der

/-- One encoded value whose contents are not yet interpreted. -/
structure Element where
  tag : Tag
  content : Bytes
  deriving DecidableEq, Repr

def maxLength : Nat := 0x0fffffff

namespace Length

def encode (n : Nat) : Bytes :=
  if n < 128 then [UInt8.ofNat n]
  else
    let digits := Bytes.minimal n
    UInt8.ofNat (128 + digits.length) :: digits

/-- Up to four length octets may follow the first. -/
def read : Bytes → Option (Nat × Bytes)
  | [] => none
  | first :: rest =>
    if first < 0x80 then some (first.toNat, rest)
    else if first = 0x80 ∨ 0x84 < first then none
    else do
      let (digits, rest) ← Bytes.split? (first.toNat - 128) rest
      let n := Bytes.toNat digits
      if n ≤ maxLength ∧ encode n = first :: digits then some (n, rest) else none

end Length

namespace Element

def encode (e : Element) : Bytes := e.tag.octet :: Length.encode e.content.length ++ e.content

def read : Bytes → Option (Element × Bytes)
  | [] => none
  | first :: rest => do
    let tag ← Tag.ofOctet? first
    let (length, rest) ← Length.read rest
    let (content, rest) ← Bytes.split? length rest
    return (⟨tag, content⟩, rest)

/-- Reads a byte string that is one element and nothing more. No longer byte string than an encoding
may be is looked at. -/
def ofBytes? (b : Bytes) : Option Element :=
  if b.length ≤ maxLength then
    match read b with
    | some (e, []) => some e
    | _ => none
  else none

/-- Reads elements to the end of the input. An element has at least two bytes, so the length of the
input bounds their number. -/
def readMany : Nat → Bytes → Option (List Element)
  | _, [] => some []
  | 0, _ => none
  | bound + 1, b => do
    let (e, rest) ← read b
    let es ← readMany bound rest
    return e :: es

def readAll (b : Bytes) : Option (List Element) := readMany b.length b

def encodeAll (es : List Element) : Bytes := es.flatMap encode

end Element

end PkiEnroll.Der
