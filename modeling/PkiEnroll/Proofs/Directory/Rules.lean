import PkiEnroll.Directory.Entry
import PkiEnroll.Proofs.Cmp.Failure

namespace PkiEnroll

open Der X509 Cmp Protection

namespace Protection

variable {c original : Credential}

/-- Whether a credential has been put together as `original`. Its certificate can be replaced afterwards,
its key cannot. -/
def Credential.ComesFrom (c original : Credential) : Prop :=
  (∃ certificate key, ofParts certificate key = .ok original) ∧ c.key = original.key

theorem Credential.key_of_ofParts {certificate : Certificate} {key : Rsa.PrivateKey}
    (h : ofParts certificate key = .ok c) : certificateKey c.certificate = .ok c.key.publicKey := by
  unfold ofParts at h
  split at h
  · cases h
  · next publicKey hkey =>
    split at h
    · next hmatch =>
      cases h
      rw [hkey, hmatch]
    · cases h

theorem Credential.ComesFrom.key (h : c.ComesFrom original) :
    certificateKey original.certificate = .ok c.key.publicKey := by
  obtain ⟨⟨certificate, key, hparts⟩, hkey⟩ := h
  rw [hkey]
  exact key_of_ofParts hparts

end Protection

namespace Directory

/-- The rules for descriptors, on which enrollments rely without checking them again. -/
structure Rules (read : Readers) (d : Descriptor) : Prop where
  caName : 1 ≤ d.caName.length ∧ d.caName.length ≤ 128
  url : ∃ text, read.url text = .ok d.url
  scheme : d.url.scheme = .http ∨ d.url.scheme = .https
  host : d.url.host.isSome = true
  issuerDn : (∃ text, read.name text = some d.issuerDn) ∧ d.issuerDn.rdns ≠ []
  secret : ∀ iak rv, d.authentication = .sharedSecret iak rv →
    (1 ≤ iak.length ∧ iak.length ≤ 256) ∧ 1 ≤ rv.length ∧ rv.length ≤ 256
  pinned : ∀ c, d.authentication = .signature c → d.caCertificate.isSome = true
  credential : ∀ c original, d.authentication = .signature c → c.ComesFrom original →
    certificateKey original.certificate = .ok c.key.publicKey

/-- The rules for a descriptor from a document, of which the credential is as it was put together. -/
structure Loaded (read : Readers) (d : Descriptor) : Prop extends Rules read d where
  key : ∀ c, d.authentication = .signature c → certificateKey c.certificate = .ok c.key.publicKey

namespace Draft

end Draft

namespace Descriptor

open Draft

variable {read : Readers} {draft : Draft} {d : Descriptor}

end Descriptor

end Directory

end PkiEnroll
