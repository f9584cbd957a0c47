import PkiEnroll.Bytes
import PkiEnroll.Document.Value

namespace PkiEnroll.Document.Json

def isBlank (c : Char) : Bool := c = ' ' || c = '\n' || c = '\t' || c = '\x0d'

def skipBlank (cs : List Char) : List Char := cs.dropWhile isBlank

def hexValue? (c : Char) : Option Nat :=
  if c.toNat < 128 then (Bytes.hexValue? (UInt8.ofNat c.toNat)).map UInt8.toNat else none

def hexNumber? (cs : List Char) : Option Nat :=
  cs.foldlM (fun n c => (hexValue? c).map (16 * n + ·)) 0

def simpleEscape? : Char → Option Nat
  | '"' => some 34
  | '\\' => some 92
  | '/' => some 47
  | 'b' => some 8
  | 'f' => some 12
  | 'n' => some 10
  | 'r' => some 13
  | 't' => some 9
  | _ => none

/-- Reads a string after its opening quote: characters, and the units that escapes name. -/
def readUnits? : List Char → Option (List Nat × List Char)
  | '"' :: rest => some ([], rest)
  | '\\' :: 'u' :: a :: b :: c :: d :: rest => do
    let unit ← hexNumber? [a, b, c, d]
    let (units, rest) ← readUnits? rest
    return (unit :: units, rest)
  | '\\' :: c :: rest => do
    let unit ← simpleEscape? c
    let (units, rest) ← readUnits? rest
    return (unit :: units, rest)
  | c :: rest =>
    if c = '\\' ∨ c.toNat < 0x20 then none
    else (readUnits? rest).map fun (units, rest) => (c.toNat :: units, rest)
  | [] => none

/-- Joins pairs of surrogates; one without its other half stands for no character. -/
def joinUnits? : List Nat → Option (List Char)
  | [] => some []
  | high :: rest =>
    if 0xd800 ≤ high ∧ high < 0xdc00 then
      match rest with
      | low :: rest =>
        if 0xdc00 ≤ low ∧ low < 0xe000 then
          (joinUnits? rest).map (Char.ofNat (0x10000 + 0x400 * (high - 0xd800) + (low - 0xdc00)) :: ·)
        else none
      | [] => none
    else if 0xdc00 ≤ high ∧ high < 0xe000 then none
    else (joinUnits? rest).map (Char.ofNat high :: ·)

def readText? (cs : List Char) : Option (Option String × List Char) :=
  (readUnits? cs).map fun (units, rest) => ((joinUnits? units).map String.ofList, rest)

def skipDigits? (cs : List Char) : Option (List Char) :=
  let rest := cs.dropWhile Char.isDigit
  if rest.length < cs.length then some rest else none

def skipFraction? : List Char → Option (List Char)
  | '.' :: rest => skipDigits? rest
  | rest => some rest

def skipExponent? : List Char → Option (List Char)
  | c :: rest =>
    if c = 'e' ∨ c = 'E' then
      match rest with
      | '+' :: rest | '-' :: rest => skipDigits? rest
      | rest => skipDigits? rest
    else some (c :: rest)
  | [] => some []

def skipNumber? (cs : List Char) : Option (List Char) :=
  let cs := if cs.head? = some '-' then cs.drop 1 else cs
  let whole :=
    match cs with
    | '0' :: rest => if (rest.head?.map Char.isDigit).getD false then none else some rest
    | cs => skipDigits? cs
  whole >>= skipFraction? >>= skipExponent?

mutual

/-- Reads a value. `bound` is above the number of characters and values that are left to read. -/
def readValue? : Nat → List Char → Option (Value × List Char)
  | 0, _ => none
  | bound + 1, cs =>
    match skipBlank cs with
    | '"' :: rest => (readText? rest).map fun (t, rest) => (.text t, rest)
    | 'n' :: 'u' :: 'l' :: 'l' :: rest => some (.null, rest)
    | 't' :: 'r' :: 'u' :: 'e' :: rest => some (.bool true, rest)
    | 'f' :: 'a' :: 'l' :: 's' :: 'e' :: rest => some (.bool false, rest)
    | '[' :: rest =>
      match skipBlank rest with
      | ']' :: rest => some (.list [], rest)
      | rest => (readItems? bound rest).map fun (items, rest) => (.list items, rest)
    | '\x7b' :: rest =>
      match skipBlank rest with
      | '\x7d' :: rest => some (.table [], rest)
      | rest => (readMembers? bound rest).map fun (members, rest) => (.table members, rest)
    | cs => (skipNumber? cs).map fun rest =>
      (.scalar (isFinite ((cs.take (cs.length - rest.length)).dropWhile (· = '-'))), rest)

def readItems? : Nat → List Char → Option (List Value × List Char)
  | 0, _ => none
  | bound + 1, cs => do
    let (item, rest) ← readValue? bound cs
    match skipBlank rest with
    | ',' :: rest => do
      let (items, rest) ← readItems? bound rest
      return (item :: items, rest)
    | ']' :: rest => return ([item], rest)
    | _ => none

def readMembers? : Nat → List Char → Option (List (Option String × Value) × List Char)
  | 0, _ => none
  | bound + 1, cs =>
    match skipBlank cs with
    | '"' :: rest => do
      let (key, rest) ← readText? rest
      match skipBlank rest with
      | ':' :: rest => do
        let (value, rest) ← readValue? bound rest
        match skipBlank rest with
        | ',' :: rest => do
          let (members, rest) ← readMembers? bound rest
          return ((key, value) :: members, rest)
        | '\x7d' :: rest => return ([(key, value)], rest)
        | _ => none
      | _ => none
    | _ => none

end

def ofText? (s : String) : Option Value := do
  let cs := s.toList
  let (value, rest) ← readValue? (2 * cs.length + 2) cs
  if (skipBlank rest).isEmpty then some value else none

end PkiEnroll.Document.Json
