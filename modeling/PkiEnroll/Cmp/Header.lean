import PkiEnroll.Der.Integer
import PkiEnroll.Der.Time
import PkiEnroll.X509.Algorithm
import PkiEnroll.X509.GeneralName

namespace PkiEnroll.Cmp

open Der X509

structure GeneralInfo where
  type : Oid
  value : Option Element
  deriving DecidableEq, Repr

instance : Content GeneralInfo where
  tag := sequenceTag
  content i := encode i.type ++ optionalField i.value
  ofContent? := Fields.read? do
    let type ← Fields.required
    let value ← Fields.optional
    return ⟨type, value⟩

namespace GeneralInfo

def implicitConfirmId : Oid := Oid.ofArcs [1, 3, 6, 1, 5, 5, 7, 4, 13]

/-- Asks for, or grants, that no confirmation be sent. -/
def implicitConfirm : GeneralInfo := ⟨implicitConfirmId, some (Encoding.toElement Null.mk)⟩

end GeneralInfo

structure Header where
  pvno : UInt8
  sender : GeneralName
  recipient : GeneralName
  messageTime : Option GeneralizedTime := none
  protectionAlg : Option AlgorithmIdentifier := none
  senderKid : Option OctetString := none
  recipKid : Option OctetString := none
  transactionId : Option OctetString := none
  senderNonce : Option OctetString := none
  recipNonce : Option OctetString := none
  freeText : Option (List String) := none
  generalInfo : Option (List GeneralInfo) := none
  deriving DecidableEq, Repr

instance : Content Header where
  tag := sequenceTag
  content h :=
    encode h.pvno ++ encode h.sender ++ encode h.recipient ++ explicitField 0 h.messageTime ++
      explicitField 1 h.protectionAlg ++ explicitField 2 h.senderKid ++ explicitField 3 h.recipKid ++
      explicitField 4 h.transactionId ++ explicitField 5 h.senderNonce ++
      explicitField 6 h.recipNonce ++ explicitField 7 h.freeText ++ explicitField 8 h.generalInfo
  ofContent? := Fields.read? do
    let pvno ← Fields.required
    let sender ← Fields.required
    let recipient ← Fields.required
    let messageTime ← Fields.explicit 0
    let protectionAlg ← Fields.explicit 1
    let senderKid ← Fields.explicit 2
    let recipKid ← Fields.explicit 3
    let transactionId ← Fields.explicit 4
    let senderNonce ← Fields.explicit 5
    let recipNonce ← Fields.explicit 6
    let freeText ← Fields.explicit 7
    let generalInfo ← Fields.explicit 8
    return { pvno, sender, recipient, messageTime, protectionAlg, senderKid, recipKid,
             transactionId, senderNonce, recipNonce, freeText, generalInfo }

namespace Header

def cmp2000 : UInt8 := 2

def hasImplicitConfirm (h : Header) : Bool :=
  (h.generalInfo.getD []).any fun info => info.type = GeneralInfo.implicitConfirmId

end Header

end PkiEnroll.Cmp
