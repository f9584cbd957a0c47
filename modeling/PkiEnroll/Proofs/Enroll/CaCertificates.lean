import Mathlib.Data.List.Count
import Mathlib.Data.List.Nodup
import PkiEnroll.Proofs.Cmp.Parts
import PkiEnroll.Proofs.Enroll.Authentic
import PkiEnroll.Proofs.Enroll.Chain
import PkiEnroll.Proofs.Enroll.PollBudget

namespace PkiEnroll.Enroll

open Der X509 Cmp Protection
open Relation (ReflTransGen)

variable {seen : List Bytes} {c : Certificate} {cs chain trusted received : List Certificate} {b : Bytes}

theorem distinctFrom_sublist (seen : List Bytes) (cs : List Certificate) :
    (distinctFrom seen cs).Sublist cs := by
  induction cs generalizing seen with
  | nil => exact .slnil
  | cons c cs ih =>
    by_cases hseen : encode c ∈ seen
    · rw [distinctFrom_cons_of_mem hseen]
      exact (ih seen).cons c
    · rw [distinctFrom_cons_of_not_mem hseen]
      exact (ih _).cons_cons c

theorem mem_map_distinctFrom :
    b ∈ (distinctFrom seen cs).map encode ↔ b ∈ cs.map encode ∧ b ∉ seen := by
  induction cs generalizing seen with
  | nil => simp [distinctFrom]
  | cons c cs ih =>
    by_cases hseen : encode c ∈ seen
    · rw [distinctFrom_cons_of_mem hseen, ih]
      constructor
      · rintro ⟨hb, hnot⟩
        exact ⟨List.mem_cons_of_mem _ hb, hnot⟩
      · rintro ⟨hb, hnot⟩
        rcases List.mem_cons.1 hb with rfl | hb
        · exact absurd hseen hnot
        · exact ⟨hb, hnot⟩
    · rw [distinctFrom_cons_of_not_mem hseen, List.map_cons, List.map_cons, List.mem_cons, ih,
        List.mem_cons, List.mem_cons, not_or]
      by_cases hb : b = encode c
      · simp [hb, hseen]
      · simp [hb]

theorem encode_ne_of_mem_distinctFrom {d : Certificate} (hd : d ∈ distinctFrom seen cs)
    (hc : encode c ∈ seen) : encode c ≠ encode d := by
  intro h
  rw [h] at hc
  exact (mem_map_distinctFrom.1 (List.mem_map_of_mem hd)).2 hc

theorem idxOf_encode_cons {d : Certificate} (h : encode c ≠ encode d) :
    ((c :: cs).map encode).idxOf (encode d) = (cs.map encode).idxOf (encode d) + 1 := by
  rw [List.map_cons, List.idxOf_cons_ne _ h]

/-- Those that are kept stand in the order in which their encodings come first. -/
theorem distinctFrom_pairwise (seen : List Bytes) (cs : List Certificate) :
    (distinctFrom seen cs).Pairwise fun c d =>
      (cs.map encode).idxOf (encode c) < (cs.map encode).idxOf (encode d) := by
  induction cs generalizing seen with
  | nil => exact .nil
  | cons c cs ih =>
    -- whatever is kept after the first differs from it, so it stands one place further on
    have hrest {seen : List Bytes} (hseen : encode c ∈ seen) :
        (distinctFrom seen cs).Pairwise fun d e =>
          ((c :: cs).map encode).idxOf (encode d) < ((c :: cs).map encode).idxOf (encode e) := by
      refine (ih seen).imp_of_mem fun {d e} hd he hlt => ?_
      rw [idxOf_encode_cons (encode_ne_of_mem_distinctFrom hd hseen),
        idxOf_encode_cons (encode_ne_of_mem_distinctFrom he hseen)]
      exact Nat.succ_lt_succ hlt
    by_cases hseen : encode c ∈ seen
    · rw [distinctFrom_cons_of_mem hseen]
      exact hrest hseen
    · rw [distinctFrom_cons_of_not_mem hseen]
      refine List.pairwise_cons.2 ⟨fun d hd => ?_, hrest List.mem_cons_self⟩
      rw [idxOf_encode_cons (encode_ne_of_mem_distinctFrom hd List.mem_cons_self), List.map_cons,
        List.idxOf_cons_self]
      exact Nat.succ_pos _

theorem distinct_nodup (cs : List Certificate) : ((distinct cs).map encode).Nodup := by
  refine List.pairwise_map.2 ((distinctFrom_pairwise [] cs).imp fun hlt h => ?_)
  rw [h] at hlt
  exact absurd hlt (Nat.lt_irrefl _)

theorem mem_map_distinct : b ∈ (distinct cs).map encode ↔ b ∈ cs.map encode := by
  simp [distinct, mem_map_distinctFrom]

theorem Leads.sublist (h : Leads c cs chain trusted) : trusted.Sublist cs := by
  induction h with
  | root => exact .refl _
  | link _ _ _ ih => exact ih.trans List.eraseP_sublist

/-- How a model shares out the certificates received: by encoding, each is on the chain or trusted, once. -/
structure Distributes (received : List Certificate) (m : Model) : Prop where
  once : ∀ b, ((m.chain.tail ++ m.trusted).map encode).count b =
    if b ∈ received.map encode then 1 else 0
  members : ∀ c, c ∈ m.chain.tail ++ m.trusted ↔ c ∈ received
  order : m.trusted.Pairwise fun c d =>
    (received.map encode).idxOf (encode c) < (received.map encode).idxOf (encode d)

theorem distributes_of_buildModel {m : Model}
    (hcodec : ∀ c ∈ received, Valid c ∧ (encode c).length ≤ maxLength)
    (h : buildModel c (distinct received) = .ok m) : Distributes received m := by
  obtain ⟨-, hleads⟩ := buildModel_eq_ok_iff.1 h
  have hperm : (m.chain.tail ++ m.trusted).Perm (distinct received) := hleads.perm
  have hsub : (distinct received).Sublist received := distinctFrom_sublist [] received
  refine ⟨fun b => ?_, fun d => ?_, (distinctFrom_pairwise [] received).sublist hleads.sublist⟩
  · rw [(hperm.map encode).count_eq, (distinct_nodup received).count]
    simp only [mem_map_distinct]
  · rw [hperm.mem_iff]
    refine ⟨fun hd => hsub.subset hd, fun hd => ?_⟩
    -- one with the same encoding is kept, and the encoding tells them apart
    obtain ⟨d', hd', hencode⟩ := List.mem_map.1 (mem_map_distinct.2 (List.mem_map_of_mem hd))
    obtain ⟨hvalid, hlength⟩ := hcodec d hd
    obtain rfl := encode_inj hvalid (hcodec d' (hsub.subset hd')).1 hlength hencode.symm
    exact hd'

/-- Whether an exchange brought an authentic response that grants a certificate, and with it the
certificates of the CA. -/
def Exchange.Brings (x : Exchange) (e : Enrollment) (c : Certificate) (received : List Certificate) :
    Prop :=
  ∃ m rep, x.Answers e.session m ∧ m.body.tagNumber = e.kind.responseTag ∧
    Grants m e.draws.certReqId rep c ∧ received = rep.caPubs.getD [] ++ m.extraCertList

theorem Exchange.Brings.valid {x : Exchange} {e : Enrollment} (h : x.Brings e c received) :
    ∀ d ∈ received, Valid d ∧ (encode d).length ≤ maxLength := by
  obtain ⟨m, rep, ⟨raw, -, hauthentic⟩, -, hgrants, rfl⟩ := h
  exact fun d hd => Message.valid_received hauthentic.decoded hgrants.answer hd

namespace Enrollment

variable {e : Enrollment} {peer : Peer} {p q : Progress}

/-- Whether a conversation brought a certificate, and after it nothing but a confirmation. -/
def Delivers (e : Enrollment) (xs : List Exchange) (c : Certificate) (received : List Certificate) :
    Prop :=
  ∃ before x after, xs = before ++ x :: after ∧ x.Brings e c received ∧
    ∀ y ∈ after, ∃ m, y.Answers e.session m ∧ m.body = .confirmation

/-- What an enrollment has to do with the certificates of the CA: those received, each once, and then the
model made of them. -/
def Delivered (e : Enrollment) (xs : List Exchange) : Stage → Prop
  | .judged _ (.issued c cas _) => ∃ received, cas = distinct received ∧ e.Delivers xs c received
  | .arranged m | .ended (.ok m) => ∃ received,
      buildModel m.certificate (distinct received) = .ok m ∧ e.Delivers xs m.certificate received
  | _ => True

theorem Delivered.judge {state : State} {body : Body} {started : Nat}
    {result : Except Failure Verdict} (hs : e.session.Continues p.session)
    (hr : RoundTrip e peer state body p result q) :
    e.Delivered q.exchanges (.after started result) := by
  cases result with
  | error f => trivial
  | ok verdict =>
    cases verdict with
    | confirmed => trivial
    | waiting checkAfter => trivial
    | issued c cas granted =>
      obtain ⟨x, m, rep, hexchanges, hanswers, htag, hgrants, hcas⟩ := hr.issued hs
      have hbrings : x.Brings e c (rep.caPubs.getD [] ++ m.extraCertList) :=
        ⟨m, rep, hanswers, htag, hgrants, rfl⟩
      exact ⟨_, hcas, p.exchanges, x, [], hexchanges, hbrings, by simp⟩

theorem Delivered.built {started : Nat} {cas : List Certificate} {granted : Bool} {m : Model}
    {xs : List Exchange} (h : e.Delivered xs (.judged started (.issued c cas granted)))
    (hm : buildModel c cas = .ok m) : ∃ received,
      buildModel m.certificate (distinct received) = .ok m ∧
        e.Delivers xs m.certificate received := by
  obtain ⟨received, rfl, hdelivers⟩ := h
  rw [certificate_of_buildModel hm]
  exact ⟨received, hm, hdelivers⟩

theorem Delivered.acknowledge {body : Body} {m : Model} (hs : e.session.Continues p.session)
    (h : e.Delivered p.exchanges (.arranged m))
    (hr : RoundTrip e peer .confirming body p (.ok .confirmed) q) :
    e.Delivered q.exchanges (.ended (.ok m)) := by
  obtain ⟨received, hbuild, before, x, after, hsplit, hbrings, hafter⟩ := h
  obtain ⟨y, m', hexchanges, hanswers, hbody⟩ := hr.confirmed
  refine ⟨received, hbuild, before, x, after ++ [y], by simp [hexchanges, hsplit], hbrings, ?_⟩
  intro z hz
  rcases List.mem_append.1 hz with hz | hz
  · exact hafter z hz
  · rw [List.mem_singleton.1 hz]
    exact ⟨m', hanswers.of_continues hs, hbody⟩

theorem Delivered.move {a b : Stage × Progress} (hs : e.session.Continues a.2.session)
    (h : e.Delivered a.2.exchanges a.1) (hm : Move e peer a b) : e.Delivered b.2.exchanges b.1 := by
  cases hm with
  | ask _ _ hr => exact .judge hs hr
  | poll hr => exact .judge hs hr
  | finish hbuild => exact Delivered.built h hbuild
  | arrange hbuild => exact Delivered.built h hbuild
  | confirm hr => exact .acknowledge hs h hr
  | _ => trivial

theorem delivered_of_path {a : Stage × Progress}
    (h : ReflTransGen (Move e peer) (.preparing, e.start) a) : e.Delivered a.2.exchanges a.1 := by
  induction h with
  | refl => trivial
  | tail hpath hm ih => exact ih.move (sound_of_path hpath).continues hm

/-- The chain behind the certificate and the trusted certificates are those of the response that granted
the certificate, each once; the trusted ones stand in the order in which they came first. -/
theorem run_distributes (e : Enrollment) (peer : Peer) (model : Model)
    (h : (e.run peer).1 = .ok model) :
    ∃ received, e.Delivers (e.run peer).2.exchanges model.certificate received ∧
      Distributes received model := by
  obtain ⟨q, hend, hpath⟩ := run_path e peer
  have hdelivered := delivered_of_path hpath
  rw [h] at hdelivered
  obtain ⟨received, hbuild, hdelivers⟩ := hdelivered
  have hexchanges : (e.run peer).2.exchanges = q.exchanges := by rw [hend]; rfl
  obtain ⟨before, x, after, hsplit, hbrings, hafter⟩ := hdelivers
  rw [hexchanges]
  exact ⟨received, ⟨before, x, after, hsplit, hbrings, hafter⟩,
    distributes_of_buildModel hbrings.valid hbuild⟩

end Enrollment

namespace Sample

open Enrollment

def repeatingPeer : Peer := fun _ =>
  { answer := .ok (Der.encode { issuingAnswer with extraCerts := some [issuing, root, issuing] }) }

/-- The issuer comes on the chain, and is not among the trusted certificates. -/
theorem run_distributes_hurried :
    (hurried.run repeatingPeer).1 = .ok ⟨leaf, [issuing], [root]⟩ ∧
      ∃ received, hurried.Delivers (hurried.run repeatingPeer).2.exchanges leaf received ∧
        Distributes received ⟨leaf, [issuing], [root]⟩ := by
  have hrun : (hurried.run repeatingPeer).1 = .ok ⟨leaf, [issuing], [root]⟩ := by decide +kernel
  exact ⟨hrun, run_distributes hurried repeatingPeer _ hrun⟩

end Sample

end PkiEnroll.Enroll
