import PkiEnroll.Der.Encoding

namespace PkiEnroll.Der

structure Oid where
  content : Bytes
  deriving DecidableEq, Repr

namespace Oid

def maxLength : Nat := 39

/-- Seven bits a byte, all but the last marked; `n` is below `128 ^ (more + 1)`. -/
def arcBytes : Nat → Nat → Bytes
  | 0, n => [UInt8.ofNat (n % 128)]
  | more + 1, n => UInt8.ofNat (128 + n >>> (7 * (more + 1)) % 128) :: arcBytes more n

def encodeArc (n : Nat) : Bytes := arcBytes (if n = 0 then 0 else n.log2 / 7) n

/-- The identifier of a list of arcs; the first two share a byte. -/
def ofArcs : List Nat → Oid
  | a :: b :: rest => ⟨UInt8.ofNat (40 * a + b) :: rest.flatMap encodeArc⟩
  | _ => ⟨[]⟩

/-- Reads the arcs after the first two. `value` and `seen` are of the arc under way: from its fifth
byte on, a byte must be below 16, so that the arc ends there. Arcs are numbers of 32 bits. -/
def restArcs? (value seen : Nat) : Bytes → Option (List Nat)
  | [] => if seen = 0 then some [] else none
  | b :: rest =>
    if 4 ≤ seen ∧ 16 ≤ b then none
    else
      let value := (value * 128 + b.toNat % 128) % UInt32.size
      if b < 128 then (restArcs? 0 0 rest).map (value :: ·) else restArcs? value (seen + 1) rest

def arcs? (o : Oid) : Option (List Nat) :=
  match o.content with
  | [] => none
  | b :: rest =>
    if b < 120 then (restArcs? 0 0 rest).map fun arcs => b.toNat / 40 :: b.toNat % 40 :: arcs
    else none

/-- Contents that are read: three bytes at least, and whole arcs. -/
def isValid (o : Oid) : Bool :=
  3 ≤ o.content.length && o.content.length ≤ maxLength && o.arcs?.isSome

def toString (o : Oid) : String := ".".intercalate ((o.arcs?.getD []).map Nat.repr)

def arcOfDigits? (s : List Char) : Option Nat :=
  s.foldlM (fun n c =>
    let m := 10 * n + (c.toNat - 48)
    if c.isDigit ∧ m < UInt32.size then some m else none) 0

/-- Reads the dotted form: it begins with a digit, does not end with a dot and has three arcs at
least. -/
def ofString? (s : String) : Option Oid := do
  let cs := s.toList
  let first ← cs.head?
  let last ← cs.getLast?
  if first.isDigit ∧ last ≠ '.' then
    match ← (cs.splitOn '.').mapM arcOfDigits? with
    | a :: b :: c :: rest =>
      let o := ofArcs (a :: b :: c :: rest)
      if a ≤ 2 ∧ b ≤ 39 ∧ o.content.length ≤ maxLength then some o else none
    | _ => none
  else none

end Oid

instance : Content Oid where
  tag := .universal .oid
  content o := o.content
  ofContent? b := if Oid.isValid ⟨b⟩ then some ⟨b⟩ else none

end PkiEnroll.Der
