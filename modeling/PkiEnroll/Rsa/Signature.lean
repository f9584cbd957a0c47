import PkiEnroll.Der.Primitive
import PkiEnroll.Hash.Sha2
import PkiEnroll.Rsa.Key

namespace PkiEnroll.Rsa

open Der X509 Hash

/-- A signature algorithm: its identifier, and that of the hash function it signs with. -/
structure Scheme where
  signature : Oid
  digest : Oid
  hash : HashFunction

namespace Scheme

def sha256 : Scheme := ⟨Algorithm.sha256WithRsa, Algorithm.sha256, Hash.sha256⟩
def sha384 : Scheme := ⟨Algorithm.sha384WithRsa, Oid.ofArcs [2, 16, 840, 1, 101, 3, 4, 2, 2], Hash.sha384⟩
def sha512 : Scheme := ⟨Algorithm.sha512WithRsa, Oid.ofArcs [2, 16, 840, 1, 101, 3, 4, 2, 3], Hash.sha512⟩

def ofOid? (o : Oid) : Option Scheme := [sha256, sha384, sha512].find? (·.signature = o)

def digestInfo (s : Scheme) (data : Bytes) : Bytes :=
  (Element.mk sequenceTag
    (encode (AlgorithmIdentifier.mk s.digest (some Algorithm.nullParameters)) ++
      encode (OctetString.mk (s.hash.digest data)))).encode

/-- The encoded message of `size` bytes. Eight bytes of filling at least have to fit. -/
def paddedDigest? (s : Scheme) (size : Nat) (data : Bytes) : Option Bytes :=
  let info := s.digestInfo data
  if size < info.length + 11 then none
  else some (0x00 :: 0x01 :: List.replicate (size - info.length - 3) 0xff ++ 0x00 :: info)

end Scheme

/-- Signs data. The result is checked with the public exponent before it is given out. -/
def sign? (s : Scheme) (key : PrivateKey) (data : Bytes) : Option Bytes := do
  let message ← s.paddedDigest? key.size data
  let signature := key.apply (Bytes.toNat message)
  if key.publicKey.apply signature = Bytes.toNat message then some (Bytes.ofNat key.size signature)
  else none

/-- A signature is as long as the modulus and less than it. -/
def verify (s : Scheme) (key : PublicKey) (data signature : Bytes) : Bool :=
  match s.paddedDigest? key.size data with
  | none => false
  | some message =>
    signature.length = key.size && Bytes.toNat signature < key.modulus &&
      key.apply (Bytes.toNat signature) = Bytes.toNat message

end PkiEnroll.Rsa
