namespace PkiEnroll.Document

def decimal (digits : List Char) : Nat := digits.foldl (fun n c => 10 * n + (c.toNat - 48)) 0

/-- The number after the mark of an exponent, if there is one. -/
def exponent : List Char → Int
  | _ :: '-' :: digits => -decimal digits
  | _ :: '+' :: digits | _ :: digits => decimal digits
  | [] => 0

/-- Whether a decimal number without a sign is finite as a double, which it is below half a step above
the largest one. -/
def isFinite (number : List Char) : Bool :=
  let mantissa := number.takeWhile fun c => c ≠ 'e' && c ≠ 'E'
  let whole := mantissa.takeWhile (· ≠ '.')
  let fraction := (mantissa.drop whole.length).drop 1
  let digits := (whole ++ fraction).dropWhile (· = '0')
  let scale := exponent (number.drop mantissa.length) - fraction.length
  let bound := 1 <<< 1024 - 1 <<< 970
  -- powers are only computed where the number of digits does not decide
  if digits.isEmpty ∨ digits.length + scale < 300 then true
  else if 310 < digits.length + scale then false
  else decimal digits * Nat.pow 10 scale.toNat < bound * Nat.pow 10 (-scale).toNat

/-- A document as a tree, whichever way it is written. -/
inductive Value where
  | null
  | bool (value : Bool)
  /-- A time, or a number, which may be too large to be held. -/
  | scalar (isHeld : Bool)
  /-- A text, unless escapes in it stand for no sequence of characters. -/
  | text (text : Option String)
  | list (items : List Value)
  /-- Members in their order; a key may come twice. -/
  | table (members : List (Option String × Value))
  deriving Repr

namespace Value

mutual

/-- How many lists and tables stand inside each other, if every text and number in them can be held. -/
def depth? : Value → Option Nat
  | null | bool _ => some 0
  | scalar isHeld => if isHeld then some 0 else none
  | text t => t.map fun _ => 0
  | list items => (listDepth? items).map (· + 1)
  | table members => (tableDepth? members).map (· + 1)

def listDepth? : List Value → Option Nat
  | [] => some 0
  | v :: vs => do return max (← depth? v) (← listDepth? vs)

def tableDepth? : List (Option String × Value) → Option Nat
  | [] => some 0
  | (key, v) :: more => do
    let _ ← key
    return max (← depth? v) (← tableDepth? more)

end

end Value

end PkiEnroll.Document
