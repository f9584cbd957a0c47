import PkiEnroll.Proofs.Der.Integer
import PkiEnroll.Rsa.Signature

namespace PkiEnroll.Rsa

open Der

theorem powModBits_lt {m : Nat} (hm : 0 < m) (b bits e : Nat) : powModBits b m bits e < m := by
  cases bits with
  | zero => exact Nat.mod_lt _ hm
  | succ bits =>
    rw [powModBits]
    split
    · exact Nat.mod_lt _ hm
    · exact Nat.mod_lt _ hm

theorem lt_capacity_size (k : PublicKey) : k.modulus < Bytes.capacity k.size := by
  have hbits : k.modulus < 2 ^ Bytes.bitLength k.modulus := Bytes.bitLength_le_iff.1 (Nat.le_refl _)
  refine Nat.lt_of_lt_of_le hbits ?_
  rw [Bytes.capacity, Nat.one_shiftLeft, PublicKey.size]
  exact Nat.pow_le_pow_right (by decide) (by omega)

theorem Scheme.size_pos {s : Scheme} {size : Nat} {data message : Bytes}
    (h : s.paddedDigest? size data = some message) : 0 < size := by
  refine Nat.pos_of_ne_zero fun hzero => ?_
  rw [hzero, Scheme.paddedDigest?] at h
  simp at h

theorem modulus_pos {s : Scheme} {k : PublicKey} {data message : Bytes}
    (h : s.paddedDigest? k.size data = some message) : 0 < k.modulus := by
  refine Nat.pos_of_ne_zero fun hzero => ?_
  have hsize : k.size = 0 := by
    rw [PublicKey.size, hzero]
    rfl
  exact absurd hsize (Nat.ne_of_gt (Scheme.size_pos h))

theorem Scheme.ofOid?_eq_some_iff {o : Oid} {s : Scheme} :
    Scheme.ofOid? o = some s ↔ s ∈ [Scheme.sha256, .sha384, .sha512] ∧ o = s.signature := by
  constructor
  · intro h
    have hnamed : s.signature = o := by simpa using List.find?_some h
    exact ⟨List.mem_of_find?_eq_some h, hnamed.symm⟩
  · intro h
    obtain ⟨hmem, rfl⟩ := h
    simp only [List.mem_cons, List.not_mem_nil, or_false] at hmem
    rcases hmem with rfl | rfl | rfl
    · rfl
    · rfl
    · rfl

theorem verify_eq_true_iff {s : Scheme} {key : PublicKey} {data signature : Bytes} :
    verify s key data signature = true ↔
      ∃ message, s.paddedDigest? key.size data = some message ∧ signature.length = key.size ∧
        Bytes.toNat signature < key.modulus ∧
        key.apply (Bytes.toNat signature) = Bytes.toNat message := by
  unfold verify
  cases s.paddedDigest? key.size data with
  | none => simp
  | some message => simp [and_assoc]

theorem verify_of_sign? {s : Scheme} {key : PrivateKey} {data signature : Bytes}
    (h : sign? s key data = some signature) : verify s key.publicKey data signature = true := by
  obtain ⟨message, hmessage, h⟩ := Option.bind_eq_some_iff.1 h
  obtain ⟨happly, h⟩ := Option.ite_none_right_eq_some.1 h
  obtain rfl := Option.some.inj h
  have hlt : key.apply (Bytes.toNat message) < key.publicKey.modulus :=
    powModBits_lt (modulus_pos hmessage) _ _ _
  have hvalue : Bytes.toNat (Bytes.ofNat key.size (key.apply (Bytes.toNat message))) =
      key.apply (Bytes.toNat message) :=
    Bytes.toNat_ofNat (Nat.lt_trans hlt (lt_capacity_size key.publicKey))
  refine verify_eq_true_iff.2 ⟨message, hmessage, Bytes.length_ofNat _ _, ?_, ?_⟩
  · rw [hvalue]
    exact hlt
  · rw [hvalue]
    exact happly

end PkiEnroll.Rsa
