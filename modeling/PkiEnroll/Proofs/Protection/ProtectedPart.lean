import PkiEnroll.Proofs.Protection.Acceptance

namespace PkiEnroll.Protection

open Der X509 Cmp

namespace Context

variable {c : Context} {m m₀ : Message} {part : Bytes}

theorem protection_of_protectMessage (h : c.protectMessage m₀ = .ok m)
    (hpart : Message.protectedPart m.header m.body = .ok part) :
    ∃ protection, c.protect part = .ok protection ∧
      m.protection = some (BitString.ofBytes protection) := by
  obtain ⟨part', protection, hpart', hprotection, rfl⟩ := protectMessage_eq_ok h
  have hsame : part' = part := Except.ok.inj (hpart'.symm.trans hpart)
  rw [hsame] at hprotection
  exact ⟨protection, hprotection, rfl⟩

/-- Whatever follows the body, the part that is taken out of a written message is the one made of its
header and body: the message without protection and certificates. So a receiver checks the protection
against the very bytes that it was made of. -/
theorem receivedPart_eq_protectedPart {b : Bytes} (h : m.encode = .ok b) :
    Message.receivedPart b = Message.protectedPart m.header m.body ∧
      ∃ part, Message.protectedPart m.header m.body = .ok part ∧
        Message.encode { header := m.header, body := m.body } = .ok part ∧
        ∀ c m₀, protectMessage c m₀ = .ok m → ∃ protection, c.protect part = .ok protection ∧
          m.protection = some (BitString.ofBytes protection) := by
  obtain ⟨hfits, rfl⟩ := bounded_eq_ok_iff.1 h
  have hpart := Message.protectedPart_of_fits hfits
  refine ⟨Message.receivedPart_encode hfits, _, hpart, ?_, ?_⟩
  · rw [← Message.protectedPart_eq_encode]
    exact hpart
  · intro c m₀ hprotected
    exact protection_of_protectMessage hprotected hpart

end Context

namespace Sample

open Enroll.Sample Context

/-- A message with a body of a tag that is not known, the contents of which are no encoding. -/
def foreign : Message :=
  { confirmation with
    body := .unsupported 30 [0xff, 0x30, 0x84]
    extraCerts := some [root, leaf] }

/-- What is signed does not depend on the certificates that the signer then adds. -/
theorem receivedPart_eq_protectedPart_foreign :
    ∃ m raw part protection, (signer issuing).protectMessage foreign = .ok m ∧ m.encode = .ok raw ∧
      m.extraCerts = some [issuing] ∧ Message.receivedPart raw = .ok part ∧
      sign Enroll.Sample.privateKey part = .ok protection ∧
      m.protection = some (BitString.ofBytes protection) := by
  have hsent : ((signer issuing).protectMessage foreign >>= Message.encode).isOk = true := by
    decide +kernel
  obtain ⟨raw, hraw⟩ := exists_of_isOk hsent
  obtain ⟨m, hm, hraw⟩ := bind_eq_ok_iff.1 hraw
  obtain ⟨hreceived, part, hpart, -, hsigned⟩ := receivedPart_eq_protectedPart hraw
  obtain ⟨protection, hprotection, hbits⟩ := hsigned _ _ hm
  obtain ⟨_, _, -, -, hcomplete⟩ := protectMessage_eq_ok hm
  have hcerts : m.extraCerts = some [issuing] := congrArg Message.extraCerts hcomplete
  exact ⟨m, raw, part, protection, hm, hraw, hcerts, hreceived.trans hpart, hprotection, hbits⟩

end Sample

end PkiEnroll.Protection
