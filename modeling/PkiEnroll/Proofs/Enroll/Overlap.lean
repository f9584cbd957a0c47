import PkiEnroll.Proofs.Enroll.CaCertificates
import PkiEnroll.Proofs.Enroll.ExtraCerts

namespace PkiEnroll.Enroll

open Der X509 Cmp Protection

/-- The certificates of the CA that come with a response, inside and outside its protection. -/
def received (m : Message) : List Certificate := caPubs m ++ m.extraCertList

section

variable {s : Session} {expected : Nat} {raw : Bytes} {m : Message} {model : Model}
  {cas : List Certificate}

theorem Yields.distributes (h : Yields s expected raw m model) : Distributes (received m) model := by
  obtain ⟨rep, c, hgrants, hbuild⟩ := h.cases
  have hpubs : caPubs m = rep.caPubs.getD [] := by
    rw [caPubs, hgrants.answer]
    rfl
  rw [added, ← distinct_append] at hbuild
  refine distributes_of_buildModel (fun d hd => ?_) hbuild
  rw [received, hpubs] at hd
  exact Message.valid_received h.decoded hgrants.answer hd

namespace Distributes

theorem count (h : Distributes cas model) (b : Bytes) :
    ((model.chain ++ model.trusted).map encode).count b =
      (if b ∈ cas.map encode then 1 else 0) + if encode model.certificate = b then 1 else 0 := by
  rw [← h.once b, Model.chain, List.cons_append, List.map_cons, List.count_cons]
  simp only [List.tail_cons, beq_iff_eq]

theorem nodup_tail (h : Distributes cas model) :
    ((model.chain.tail ++ model.trusted).map encode).Nodup := by
  rw [List.nodup_iff_count_le_one]
  intro b
  rw [h.once b]
  split
  · exact Nat.le_refl 1
  · exact Nat.zero_le 1

theorem nodup_iff (h : Distributes cas model) :
    ((model.chain ++ model.trusted).map encode).Nodup ↔
      encode model.certificate ∉ cas.map encode := by
  rw [List.nodup_iff_count_le_one]
  constructor
  · intro hcount hmem
    have htwice := hcount (encode model.certificate)
    rw [h.count, if_pos hmem, if_pos rfl] at htwice
    exact absurd htwice (by decide)
  · intro hmem b
    rw [h.count]
    by_cases hb : encode model.certificate = b
    · rw [if_neg (hb ▸ hmem), if_pos hb]
    · rw [if_neg hb]
      split
      · exact Nat.le_refl 1
      · exact Nat.zero_le 1

/-- A certificate that was received is on the chain behind its head, or else trusted. -/
theorem mem_trusted_iff (h : Distributes cas model) (b : Bytes) :
    b ∈ model.trusted.map encode ↔ b ∈ cas.map encode ∧ b ∉ model.chain.tail.map encode := by
  have honce := h.once b
  rw [List.map_append, List.count_append] at honce
  rw [← List.count_pos_iff, ← List.count_eq_zero]
  split at honce
  next hmem =>
    simp only [hmem, true_and]
    omega
  next hmem =>
    simp only [hmem, false_and, iff_false]
    omega

end Distributes

/-- No certificate of the CA occurs twice in the chain behind its head and the trusted certificates, however
often it was sent. The issued certificate occurs twice exactly if the CA sent it among its own, and it is
then trusted unless it has become a link of the chain. So without it there is no certificate twice. -/
theorem yields_nodup_iff (h : Yields s expected raw m model) :
    ((model.chain.tail ++ model.trusted).map encode).Nodup ∧
    (((model.chain ++ model.trusted).map encode).Nodup ↔
      encode model.certificate ∉ (received m).map encode) ∧
    (encode model.certificate ∈ model.trusted.map encode ↔
      encode model.certificate ∈ (received m).map encode ∧
        encode model.certificate ∉ model.chain.tail.map encode) :=
  ⟨h.distributes.nodup_tail, h.distributes.nodup_iff, h.distributes.mem_trusted_iff _⟩

end

namespace Sample

def redundant : List Certificate := [issuing, leaf, issuing, root]

def overlapping : Model := ⟨leaf, [issuing], [leaf, root]⟩

theorem yields_redundant :
    Yields session 1 (raw redundant) (response redundant) overlapping where
  decoded := by decide +kernel
  built := ⟨leaf, [issuing, leaf, root], false, by decide +kernel, by decide +kernel⟩

/-- The leaf heads the chain and is trusted. -/
theorem leaf_trusted :
    Yields session 1 (raw redundant) (response redundant) overlapping ∧
      overlapping.chain.head? = some leaf ∧ leaf ∈ overlapping.trusted ∧
      ¬((overlapping.chain ++ overlapping.trusted).map encode).Nodup := by
  have htrusted : leaf ∈ overlapping.trusted := List.mem_cons_self
  refine ⟨yields_redundant, rfl, htrusted, fun h => ?_⟩
  have hfirst := (List.nodup_cons.1 h).1
  exact hfirst (List.mem_map_of_mem (List.mem_append_right _ htrusted))

/-- The leaf is all that occurs twice, though the issuer was sent twice as well. -/
theorem yields_nodup_iff_redundant :
    Yields session 1 (raw redundant) (response redundant) overlapping ∧
      ((overlapping.chain.tail ++ overlapping.trusted).map encode).Nodup ∧
      encode overlapping.certificate ∈ (received (response redundant)).map encode ∧
      ¬((overlapping.chain ++ overlapping.trusted).map encode).Nodup := by
  obtain ⟨htail, hnodup, htrusted⟩ := yields_nodup_iff yields_redundant
  have hmem : encode overlapping.certificate ∈ overlapping.trusted.map encode :=
    List.mem_map_of_mem List.mem_cons_self
  have hreceived := (htrusted.1 hmem).1
  exact ⟨yields_redundant, htail, hreceived, fun h => hnodup.1 h hreceived⟩

end Sample

end PkiEnroll.Enroll
