import PkiEnroll.Der.Integer
import PkiEnroll.Der.NamedBits

namespace PkiEnroll.Cmp

open Der

inductive Status where
  | accepted | grantedWithMods | rejection | waiting | revocationWarning | revocationNotification
  | keyUpdateWarning
  deriving DecidableEq, Repr

namespace Status

def all : List Status :=
  [accepted, grantedWithMods, rejection, waiting, revocationWarning, revocationNotification,
    keyUpdateWarning]

def toOctet : Status → UInt8
  | accepted => 0
  | grantedWithMods => 1
  | rejection => 2
  | waiting => 3
  | revocationWarning => 4
  | revocationNotification => 5
  | keyUpdateWarning => 6

def name : Status → String
  | accepted => "accepted"
  | grantedWithMods => "grantedWithMods"
  | rejection => "rejection"
  | waiting => "waiting"
  | revocationWarning => "revocationWarning"
  | revocationNotification => "revocationNotification"
  | keyUpdateWarning => "keyUpdateWarning"

def ofOctet? (n : UInt8) : Option Status := all.find? (·.toOctet = n)

def isGranted : Status → Bool
  | accepted | grantedWithMods => true
  | _ => false

end Status

instance : Content Status where
  tag := .universal .integer
  content s := Content.content s.toOctet
  ofContent? b := Content.ofContent? b >>= Status.ofOctet?

structure FailureInfo where
  bits : UInt32
  deriving DecidableEq, Repr

namespace FailureInfo

def names : List String :=
  ["badAlg", "badMessageCheck", "badRequest", "badTime", "badCertId", "badDataFormat",
    "wrongAuthority", "incorrectData", "missingTimeStamp", "badPOP", "certRevoked", "certConfirmed",
    "wrongIntegrity", "badRecipientNonce", "timeNotAvailable", "unacceptedPolicy",
    "unacceptedExtension", "addInfoNotAvailable", "badSenderNonce", "badCertTemplate",
    "signerNotTrusted", "transactionIdInUse", "unsupportedVersion", "notAuthorized",
    "systemUnavail", "systemFailure", "duplicateCertReq"]

def bit (f : FailureInfo) (i : Nat) : Bool := f.bits.toNat.testBit i

def isEmpty (f : FailureInfo) : Bool := f.bits = 0

def contains (f : FailureInfo) (mask : UInt32) : Bool := f.bits &&& mask ≠ 0

def bitName (i : Nat) : String := names.getD i ("bit" ++ Nat.repr i)

def text (f : FailureInfo) : String :=
  ", ".intercalate (((List.range 32).filter f.bit).map bitName)

/-- Bits beyond the first 32 are not kept. -/
def ofBitString (s : BitString) : FailureInfo := ⟨UInt32.ofNat (NamedBits.ofBitString 32 s)⟩

def toBitString (f : FailureInfo) : BitString := NamedBits.toBitString f.bits.toNat

end FailureInfo

structure StatusInfo where
  status : Status
  texts : Option (List String)
  failInfo : Option BitString
  deriving DecidableEq, Repr

instance : Content StatusInfo where
  tag := sequenceTag
  content i := encode i.status ++ optionalField i.texts ++ optionalField i.failInfo
  ofContent? := Fields.read? do
    let status ← Fields.required
    let texts ← Fields.optional
    let failInfo ← Fields.optional
    return ⟨status, texts, failInfo⟩

namespace StatusInfo

def ofStatus (status : Status) : StatusInfo := ⟨status, none, none⟩

def rejection (failure : FailureInfo) (text : String) : StatusInfo :=
  ⟨.rejection, some [text], some failure.toBitString⟩

def failure? (i : StatusInfo) : Option FailureInfo := i.failInfo.map FailureInfo.ofBitString

def textList (i : StatusInfo) : List String := i.texts.getD []

end StatusInfo

end PkiEnroll.Cmp
