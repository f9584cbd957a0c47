import PkiEnroll.Der.Integer
import PkiEnroll.X509.Algorithm

namespace PkiEnroll.Rsa

open Der X509

/-- `b ^ e % m` for an exponent of at most `bits` bits: one squaring a bit. -/
def powModBits (b m : Nat) : Nat → Nat → Nat
  | 0, _ => 1 % m
  | bits + 1, e =>
    let half := powModBits b m bits (e / 2)
    let square := half * half % m
    if e % 2 = 1 then square * b % m else square

def powMod (b e m : Nat) : Nat := powModBits b m (Bytes.bitLength e) e

structure PublicKey where
  modulus : Nat
  exponent : Nat
  deriving DecidableEq, Repr

namespace PublicKey

def size (k : PublicKey) : Nat := (Bytes.bitLength k.modulus + 7) / 8

/-- Keys that are worked with: both numbers odd, the modulus of at most 4096 bits, the exponent
neither below 3 nor above 33 bits. -/
def isValid (k : PublicKey) : Bool :=
  Bytes.bitLength k.modulus ≤ 4096 && k.modulus % 2 = 1 && k.exponent % 2 = 1 && 3 ≤ k.exponent &&
    Bytes.bitLength k.exponent ≤ 33 && k.exponent < k.modulus

def apply (k : PublicKey) (x : Nat) : Nat := powMod x k.exponent k.modulus

end PublicKey

instance : Content PublicKey where
  tag := sequenceTag
  content k := encode k.modulus ++ encode k.exponent
  ofContent? := Fields.read? do
    let modulus ← Fields.required
    let exponent ← Fields.required
    return ⟨modulus, exponent⟩

def keyAlgorithm : AlgorithmIdentifier := ⟨Algorithm.rsaEncryption, some Algorithm.nullParameters⟩

namespace PublicKey

def ofInfo? (info : PublicKeyInfo) : Option PublicKey := do
  let key ← info.key.toBytes? >>= decode?
  if info.algorithm = keyAlgorithm ∧ key.isValid then some key else none

end PublicKey

structure PrivateKey where
  publicKey : PublicKey
  exponent : Nat
  prime1 : Nat
  prime2 : Nat
  deriving DecidableEq, Repr

namespace PrivateKey

/-- The primes make the modulus, and the exponents undo each other modulo each of them. -/
def isValid (k : PrivateKey) : Bool :=
  let inverse p := 1 < p && k.publicKey.exponent * k.exponent % (p - 1) = 1 % (p - 1)
  k.publicKey.isValid && k.prime1 * k.prime2 = k.publicKey.modulus && inverse k.prime1 &&
    inverse k.prime2

/-- Reads an `RSAPrivateKey` of two primes. The numbers that only speed up its use are not kept. -/
def ofPkcs1? (b : Bytes) : Option PrivateKey := do
  let e ← Element.ofBytes? b
  let fields : Fields PrivateKey := do
    let version : UInt8 ← Fields.required
    let modulus ← Fields.required
    let publicExponent ← Fields.required
    let exponent ← Fields.required
    let prime1 ← Fields.required
    let prime2 ← Fields.required
    let _exponent1 : Nat ← Fields.required
    let _exponent2 : Nat ← Fields.required
    let _coefficient : Nat ← Fields.required
    if version = 0 then return ⟨⟨modulus, publicExponent⟩, exponent, prime1, prime2⟩ else failure
  let key ← Fields.read? fields e.content
  if e.tag = sequenceTag ∧ key.isValid then some key else none

/-- What may follow the last field that is interpreted: context-specific elements of which each
holds one element. -/
def isExtra (e : Element) : Bool :=
  match e.tag with
  | .context true _ => (Element.ofBytes? e.content).isSome
  | _ => false

/-- Reads a `PrivateKeyInfo` that holds an RSA key. The second version adds the public key. -/
def ofPkcs8? (b : Bytes) : Option PrivateKey := do
  let e ← Element.ofBytes? b
  let fields : Fields Bytes := do
    let version : UInt8 ← Fields.required
    let algorithm : AlgorithmIdentifier ← Fields.required
    let key : OctetString ← Fields.required
    let publicKey : Option BitString ← Fields.implicit 1
    let rest ← get
    set ([] : List Element)
    let publicKeyFits : Bool :=
      match publicKey with
      | none => version = 0
      | some bits => version = 1 ∧ bits.unused = 0
    if publicKeyFits ∧ algorithm = keyAlgorithm ∧ rest.all isExtra then return key.bytes else failure
  let key ← Fields.read? fields e.content
  if e.tag = sequenceTag then ofPkcs1? key else none

def size (k : PrivateKey) : Nat := k.publicKey.size

def apply (k : PrivateKey) (x : Nat) : Nat := powMod x k.exponent k.publicKey.modulus

end PrivateKey

end PkiEnroll.Rsa
