import PkiEnroll.Http.Reason
import PkiEnroll.Text.Lossy

namespace PkiEnroll.Http

structure Response where
  status : Nat
  declared : Option Nat
  /-- The body, as it arrives. -/
  chunks : List Bytes
  /-- Whether the body arrives to its end. -/
  complete : Bool := true
  deriving DecidableEq, Repr

namespace Response

def isSuccess (r : Response) : Bool := 200 ≤ r.status && r.status < 300

/-- Announcements of the response proper, which is still to come. -/
def isInterim (r : Response) : Bool := 100 ≤ r.status && r.status < 200 && r.status ≠ 101

/-- Responses that end with their head, whatever length they announce. -/
def isHeadOnly (r : Response) : Bool := [101, 204, 304].contains r.status

end Response

def tooLarge (limit : Nat) : String := "CA response exceeds " ++ Nat.repr limit ++ " bytes"

def connectionFailure : String := "connection failed"

/-- Gathers chunks after `body`, as long as they stay within the limit. -/
def gather (limit : Nat) (complete : Bool) (body : Bytes) : List Bytes → Except String Bytes
  | [] => if complete then .ok body else .error connectionFailure
  | chunk :: chunks =>
    if limit < body.length + chunk.length then .error (tooLarge limit)
    else gather limit complete (body ++ chunk) chunks

def readBody (limit : Nat) (r : Response) : Except String Bytes :=
  if r.isHeadOnly then .ok []
  else if r.declared.any (limit < ·) then .error (tooLarge limit)
  else gather limit r.complete [] r.chunks

def errorText (limit : Nat) (r : Response) : String :=
  let phrase := (reason? r.status).getD "Unknown error"
  match readBody limit r with
  | .ok (b :: body) => Text.ofUtf8Lossy (b :: body)
  | _ => phrase

/-- The body of a success. An empty body is no answer, and no response follows an interim one. -/
def accept (limit : Nat) (r : Response) : Except String Bytes :=
  if r.isInterim then .error connectionFailure
  else if r.isSuccess then do
    let body ← readBody limit r
    if body.isEmpty then throw "CA returned an empty response"
    return body
  else
    .error ("CA returned HTTP " ++ Nat.repr r.status ++ ": " ++ errorText limit r)

end PkiEnroll.Http
