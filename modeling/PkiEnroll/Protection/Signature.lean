import PkiEnroll.Cmp.Failure
import PkiEnroll.Rsa.Signature
import PkiEnroll.X509.Certificate

namespace PkiEnroll.Protection

open Der X509 Cmp

def publicKey (info : PublicKeyInfo) : Except Failure Rsa.PublicKey :=
  orFail (.protection ("not an RSA public key: " ++ Failure.malformedDetail)) (Rsa.PublicKey.ofInfo? info)

def certificateKey (c : Certificate) : Except Failure Rsa.PublicKey := publicKey c.publicKey

/-- Messages and proofs of possession are signed with SHA-256. -/
def sign (key : Rsa.PrivateKey) (data : Bytes) : Except Failure Bytes :=
  orFail (.protection "signing failed: the key does not fit the signature")
    (Rsa.sign? .sha256 key data)

def verifySignature (algorithm : Oid) (key : Rsa.PublicKey) (data signature : Bytes) :
    Except Failure Unit :=
  match Rsa.Scheme.ofOid? algorithm with
  | none => .error (.protection ("unsupported signature algorithm " ++ algorithm.toString))
  | some scheme =>
    if Rsa.verify scheme key data signature then .ok ()
    else .error (.protection "signature verification failed")

def verifyCertificate (c : Certificate) (issuerKey : Rsa.PublicKey) : Except Failure Unit := do
  let signature ← orFail (.protection "certificate signature has unused bits") c.signature.toBytes?
  verifySignature c.signatureAlgorithm.oid issuerKey (encode c.tbs) signature

end PkiEnroll.Protection
