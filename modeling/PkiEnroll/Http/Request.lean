import PkiEnroll.Config.Basic
import PkiEnroll.Pem.Base64
import PkiEnroll.Url.Basic

namespace PkiEnroll.Http

/-- A POST request. Header names are in lower case. -/
structure Request where
  target : String
  headers : List (String × String)
  body : Bytes
  deriving DecidableEq, Repr

namespace Request

def contentType : String := "application/pkixcmp"

def userAgent : String := "usg-cmp-client/0.1.0"

def isHeaderName (s : String) : Bool :=
  s.length ≠ 0 && s.toList.all fun c => c.isAlphanum || "!#$%&'*+-.^_\x60|~".toList.contains c

/-- Whether a text may be the value of a header: it has no controls but tabs. -/
def isHeaderValue (s : String) : Bool :=
  s.toList.all fun c => c = '\t' || (0x20 ≤ c.toNat && c.toNat ≠ 0x7f)

def setHeader (headers : List (String × String)) (name value : String) : List (String × String) :=
  headers.filter (·.1 ≠ name) ++ [(name, value)]

def addConfigured (headers : List (String × String)) (header : String × String) : List (String × String) :=
  if isHeaderName header.1 ∧ isHeaderValue header.2 then
    setHeader headers (String.ofList (header.1.toList.map Char.toLower)) header.2
  else headers

/-- The authorization that user information in a URL stands for. -/
def authorization? (u : Url) : Option String := do
  let decoded (s : String) : Option Bytes :=
    let b := Url.Percent.decode (Bytes.ofString s)
    (Bytes.toString? b).map fun _ => b
  let name ← decoded u.username
  let password := u.password >>= decoded
  if name.isEmpty ∧ password.isNone then none
  else
    let encoded := Base64.encode (name ++ 0x3a :: password.getD [])
    some ("Basic " ++ String.ofList (encoded.map fun c => Char.ofNat c.toNat))

/-- The request for a message. Configured headers come before those that the message needs. -/
def ofMessage (configured : List (String × String)) (u : Url) (message : Bytes) : Request :=
  let headers := configured.foldl addConfigured [("accept", contentType), ("user-agent", userAgent)]
  let headers :=
    match authorization? u with
    | some value => setHeader headers "authorization" value
    | none => headers
  let headers := setHeader headers "content-type" contentType
  let headers :=
    if message.isEmpty then headers else setHeader headers "content-length" (Nat.repr message.length)
  ⟨u.target, headers, message⟩

end Request

end PkiEnroll.Http
