import PkiEnroll.Cmp.Body
import PkiEnroll.Cmp.Failure
import PkiEnroll.Cmp.Header

namespace PkiEnroll.Cmp

open Der X509

structure Message where
  header : Header
  body : Body
  protection : Option BitString := none
  extraCerts : Option (List Certificate) := none
  deriving DecidableEq, Repr

instance : Content Message where
  tag := sequenceTag
  content m :=
    encode m.header ++ encode m.body ++ explicitField 0 m.protection ++ explicitField 1 m.extraCerts
  ofContent? := Fields.read? do
    let header ← Fields.required
    let body ← Fields.required
    let protection ← Fields.explicit 0
    let extraCerts ← Fields.explicit 1
    return { header, body, protection, extraCerts }

/-- An encoding, unless it is longer than encodings may be. -/
def bounded (b : Bytes) : Except Failure Bytes :=
  if b.length ≤ maxLength then .ok b else .error .malformed

namespace Message

def extraCertList (m : Message) : List Certificate := m.extraCerts.getD []

def encode (m : Message) : Except Failure Bytes := bounded (Der.encode m)

def decode (b : Bytes) : Except Failure Message :=
  orFail (.decode ("invalid PKIMessage: " ++ Failure.malformedDetail)) (Der.decode? b)

def pairBytes (header body : Bytes) : Bytes := (Element.mk sequenceTag (header ++ body)).encode

/-- What the protection of an outgoing message covers. -/
def protectedPart (header : Header) (body : Body) : Except Failure Bytes :=
  bounded (pairBytes (Der.encode header) (Der.encode body))

/-- What the protection of a received message covers: its first two elements as they came. -/
def receivedPart (b : Bytes) : Except Failure Bytes := do
  let outer ← orFail .malformed (Element.ofBytes? b)
  if outer.tag ≠ sequenceTag then throw (.decode "PKIMessage is not a SEQUENCE")
  let (header, rest) ← orFail .malformed (Element.read outer.content)
  let (body, _) ← orFail .malformed (Element.read rest)
  bounded (pairBytes header.encode body.encode)

end Message

end PkiEnroll.Cmp
