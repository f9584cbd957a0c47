import PkiEnroll.Bytes

namespace PkiEnroll.Text

/-- The range of the second byte of a character and the number of bytes after the first. -/
def continuation? (first : UInt8) : Option (UInt8 × UInt8 × Nat) :=
  if 0xc2 ≤ first ∧ first ≤ 0xdf then some (0x80, 0xbf, 1)
  else if first = 0xe0 then some (0xa0, 0xbf, 2)
  else if first = 0xed then some (0x80, 0x9f, 2)
  else if 0xe1 ≤ first ∧ first ≤ 0xef then some (0x80, 0xbf, 2)
  else if first = 0xf0 then some (0x90, 0xbf, 3)
  else if 0xf1 ≤ first ∧ first ≤ 0xf3 then some (0x80, 0xbf, 3)
  else if first = 0xf4 then some (0x80, 0x8f, 3)
  else none

def isContinuation (b : UInt8) : Bool := 0x80 ≤ b && b ≤ 0xbf

/-- The bytes after the first that belong to its character, as far as they are there. -/
def tailOf (low high : UInt8) (count : Nat) : Bytes → Bytes
  | second :: rest =>
    if low ≤ second ∧ second ≤ high then second :: (rest.takeWhile isContinuation).take (count - 1) else []
  | [] => []

def replacement : Char := '\ufffd'

def lossyChars : Nat → Bytes → List Char
  | 0, _ => []
  | _, [] => []
  | bound + 1, first :: rest =>
    if first < 0x80 then Char.ofNat first.toNat :: lossyChars bound rest
    else
      match continuation? first with
      | none => replacement :: lossyChars bound rest
      | some (low, high, count) =>
        let tail := tailOf low high count rest
        let lead := first.toNat % 1 <<< (6 - count)
        let code := tail.foldl (fun n b => 64 * n + b.toNat % 64) lead
        (if tail.length = count then Char.ofNat code else replacement) ::
          lossyChars bound (rest.drop tail.length)

def ofUtf8Lossy (b : Bytes) : String := String.ofList (lossyChars b.length b)

end PkiEnroll.Text
