import PkiEnroll.X509.Certificate

namespace PkiEnroll.Cmp

open Der X509

structure OptionalValidity where
  notBefore : Option Time
  notAfter : Option Time
  deriving DecidableEq, Repr

instance : Content OptionalValidity where
  tag := sequenceTag
  content v := explicitField 0 v.notBefore ++ explicitField 1 v.notAfter
  ofContent? := Fields.read? do
    let notBefore ← Fields.explicit 0
    let notAfter ← Fields.explicit 1
    return ⟨notBefore, notAfter⟩

structure CertTemplate where
  version : Option UInt8
  serialNumber : Option SerialNumber
  signingAlg : Option AlgorithmIdentifier
  issuer : Option Name
  validity : Option OptionalValidity
  subject : Option Name
  publicKey : Option PublicKeyInfo
  issuerUid : Option BitString
  subjectUid : Option BitString
  extensions : Option (List Extension)
  deriving DecidableEq, Repr

/-- Tags are implicit, except on the two names. -/
instance : Content CertTemplate where
  tag := sequenceTag
  content t :=
    implicitField 0 t.version ++ implicitField 1 t.serialNumber ++ implicitField 2 t.signingAlg ++
      explicitField 3 t.issuer ++ implicitField 4 t.validity ++ explicitField 5 t.subject ++
      implicitField 6 t.publicKey ++ implicitField 7 t.issuerUid ++ implicitField 8 t.subjectUid ++
      implicitField 9 t.extensions
  ofContent? := Fields.read? do
    let version ← Fields.implicit 0
    let serialNumber ← Fields.implicit 1
    let signingAlg ← Fields.implicit 2
    let issuer ← Fields.explicit 3
    let validity ← Fields.implicit 4
    let subject ← Fields.explicit 5
    let publicKey ← Fields.implicit 6
    let issuerUid ← Fields.implicit 7
    let subjectUid ← Fields.implicit 8
    let extensions ← Fields.implicit 9
    return { version, serialNumber, signingAlg, issuer, validity, subject, publicKey, issuerUid,
             subjectUid, extensions }

structure CertRequest where
  certReqId : Int64
  template : CertTemplate
  controls : Option (List Attribute)
  deriving DecidableEq, Repr

instance : Content CertRequest where
  tag := sequenceTag
  content r := encode r.certReqId ++ encode r.template ++ optionalField r.controls
  ofContent? := Fields.read? do
    let certReqId ← Fields.required
    let template ← Fields.required
    let controls ← Fields.optional
    return ⟨certReqId, template, controls⟩

/-- A signature over the encoded `CertRequest`. -/
structure SigningKeyProof where
  algorithm : AlgorithmIdentifier
  signature : BitString
  deriving DecidableEq, Repr

instance : Content SigningKeyProof where
  tag := sequenceTag
  content p := encode p.algorithm ++ encode p.signature
  ofContent? := Fields.read? do
    let algorithm ← Fields.required
    let signature ← Fields.required
    return ⟨algorithm, signature⟩

/-- Proofs for signing keys; those for other keys are not read. -/
inductive ProofOfPossession where
  | raVerified
  | signature (proof : SigningKeyProof)
  deriving DecidableEq, Repr

instance : Encoding ProofOfPossession where
  accepts t := t = .context false 0 || t = .context true 1
  toElement
    | .raVerified => implicitElement 0 Null.mk
    | .signature p => implicitElement 1 p
  ofElement? e :=
    match e.tag with
    | .context false 0 => (fun _ : Null => ProofOfPossession.raVerified) <$> Content.ofContent? e.content
    | .context true 1 => ProofOfPossession.signature <$> Content.ofContent? e.content
    | _ => none

structure CertReqMsg where
  request : CertRequest
  proof : Option ProofOfPossession
  regInfo : Option (List Attribute)
  deriving DecidableEq, Repr

instance : Content CertReqMsg where
  tag := sequenceTag
  content m := encode m.request ++ optionalField m.proof ++ optionalField m.regInfo
  ofContent? := Fields.read? do
    let request ← Fields.required
    let proof ← Fields.optional
    let regInfo ← Fields.optional
    return ⟨request, proof, regInfo⟩

end PkiEnroll.Cmp
