import PkiEnroll.Proofs.Enroll.CaCertificates
import PkiEnroll.Proofs.Enroll.CertificationPath
import PkiEnroll.Proofs.Enroll.Conversation
import PkiEnroll.Proofs.Rsa.Signature

namespace PkiEnroll.Enroll

open Der X509 Cmp Protection
open Relation (ReflTransGen)

variable {c : Certificate} {cas chain trusted : List Certificate}

theorem Leads.exists_issuer (h : Leads c cas chain trusted) : ∃ issuer, IssuedBy c issuer := by
  cases h with
  | root hfind => exact ⟨_, issuedBy_of_find? hfind⟩
  | link hfind => exact ⟨_, issuedBy_of_find? hfind⟩

theorem scheme_of_buildModel {m : Model} (h : buildModel c cas = .ok m) :
    ∃ scheme, Rsa.Scheme.ofOid? m.certificate.signatureAlgorithm.oid = some scheme := by
  obtain ⟨rfl, hleads⟩ := buildModel_eq_ok_iff.1 h
  obtain ⟨issuer, -, key, scheme, -, hscheme, -⟩ := hleads.exists_issuer
  exact ⟨scheme, hscheme⟩

namespace Session

variable {s : Session} {m : Message} {expected : Nat}

theorem eq_confirmed_iff {verdict : Verdict} (h : s.verdictOfBody m expected = .ok verdict) :
    verdict = .confirmed ↔ s.state = .confirming := by
  unfold verdictOfBody at h
  split at h
  · next hexpected =>
    have hstate : s.state ≠ .confirming := by
      intro hconfirming
      rw [hconfirming] at hexpected
      exact absurd hexpected.1 (by decide)
    refine iff_of_false ?_ hstate
    cases hrep : m.body.certRep? with
    | none =>
      rw [hrep] at h
      cases h
    | some rep =>
      rw [hrep] at h
      rcases verdictOfRep_cases hrep h with rfl | ⟨c, -, rfl⟩
      · simp
      · simp
  · split at h
    · next hpolling _ =>
      obtain ⟨entry, -, h⟩ := bind_eq_ok_iff.1 h
      cases h
      exact iff_of_false (by simp) (by simp [hpolling])
    · next hconfirming _ =>
      cases h
      exact iff_of_true rfl hconfirming
    · cases h

end Session

/-- Whether a message handed over confirms certificates. -/
def Exchange.Confirms (x : Exchange) : Prop := ∃ statuses, x.Carries (.certConfirm statuses)

theorem Exchange.Carries.not_confirms {x : Exchange} {body : Body} (h : x.Carries body)
    (hbody : body.tagNumber ≠ 24) : ¬x.Confirms := by
  rintro ⟨statuses, m', hm', hwritten'⟩
  obtain ⟨m, rfl, hwritten⟩ := h
  have htags := Message.tagNumber_eq_of_encode hwritten hwritten'
  rw [hm'] at htags
  exact hbody htags

namespace Enrollment

variable {e : Enrollment} {peer : Peer} {p q : Progress}

def chainAlgorithms : List Oid :=
  [Algorithm.sha256WithRsa, Algorithm.sha384WithRsa, Algorithm.sha512WithRsa]

/-- The digest of a confirmation is that of the scheme by which the certificate was verified. -/
theorem confirmHash_of_ofOid? {algorithm : Oid} {scheme : Rsa.Scheme}
    (h : Rsa.Scheme.ofOid? algorithm = some scheme) :
    algorithm ∈ chainAlgorithms ∧ confirmHash algorithm = scheme.hash := by
  obtain ⟨hmem, rfl⟩ := Rsa.Scheme.ofOid?_eq_some_iff.1 h
  simp only [List.mem_cons, List.not_mem_nil, or_false] at hmem
  rcases hmem with rfl | rfl | rfl
  · exact ⟨by decide, rfl⟩
  · exact ⟨by decide, rfl⟩
  · exact ⟨by decide, rfl⟩

/-- The only confirmation of a conversation: before it the certificate was delivered and its chain built.
It accepts the certificate by its digest. -/
structure Accepts (e : Enrollment) (before : List Exchange) (x : Exchange) (m : Model) : Prop where
  first : ∀ y ∈ before, ¬y.Confirms
  built : ∃ received, e.Delivers before m.certificate received ∧
    buildModel m.certificate (distinct received) = .ok m
  entry : ∃ c scheme, m.chain.head? = some c ∧ c.signatureAlgorithm.oid ∈ chainAlgorithms ∧
    Rsa.Scheme.ofOid? c.signatureAlgorithm.oid = some scheme ∧
    x.Carries (.certConfirm [⟨⟨scheme.hash.digest (encode c)⟩, e.session.certReqId, none⟩])

theorem RoundTrip.confirmed_iff {state : State} {body : Body} {verdict : Verdict}
    (h : RoundTrip e peer state body p (.ok verdict) q) :
    verdict = .confirmed ↔ state = .confirming := by
  obtain ⟨x, m, -, -, hverdict⟩ := h.authentic
  exact Session.eq_confirmed_iff hverdict

/-- How confirmations stand at a stage: there is none before the chain is built, and one at most then. -/
def Confirming (e : Enrollment) : Stage × Progress → Prop
  | (.judged _ verdict, p) => verdict ≠ .confirmed ∧ ∀ x ∈ p.exchanges, ¬x.Confirms
  | (.ended result, p) =>
    ((∀ x ∈ p.exchanges, ¬x.Confirms) ∧ ∀ m, result = .ok m → e.descriptor.implicitConfirm = true) ∨
      ∃ before x m, p.exchanges = before ++ [x] ∧ e.Accepts before x m ∧
        ∀ m', result = .ok m' → m' = m ∧
          ∃ answer, x.Answers e.session answer ∧ answer.body = .confirmation
  | (_, p) => ∀ x ∈ p.exchanges, ¬x.Confirms

theorem RoundTrip.unconfirmed {state : State} {body : Body} {result : Except Failure Verdict}
    (hp : ∀ x ∈ p.exchanges, ¬x.Confirms) (hbody : body.tagNumber ≠ 24)
    (h : RoundTrip e peer state body p result q) : ∀ x ∈ q.exchanges, ¬x.Confirms := by
  rcases h.carries with ⟨rfl, -⟩ | ⟨x, hx, hexchanges, -⟩
  · exact hp
  · rw [hexchanges]
    intro y hy
    rcases List.mem_append.1 hy with hy | hy
    · exact hp y hy
    · rw [List.mem_singleton.1 hy]
      exact hx.not_confirms hbody

theorem Confirming.judge {state : State} {body : Body} {started : Nat}
    {result : Except Failure Verdict} (hp : ∀ x ∈ p.exchanges, ¬x.Confirms)
    (hbody : body.tagNumber ≠ 24) (hstate : state ≠ .confirming)
    (h : RoundTrip e peer state body p result q) : Confirming e (.after started result, q) := by
  have hq := h.unconfirmed hp hbody
  cases result with
  | error f => exact .inl ⟨hq, by simp⟩
  | ok verdict => exact ⟨mt h.confirmed_iff.1 hstate, hq⟩

theorem accepts_of_arranged {m : Model} {x : Exchange} (hp : ∀ x ∈ p.exchanges, ¬x.Confirms)
    (hdelivered : e.Delivered p.exchanges (.arranged m)) (hx : x.Carries (e.confirmBody m)) :
    e.Accepts p.exchanges x m := by
  obtain ⟨received, hbuild, hdelivers⟩ := hdelivered
  obtain ⟨scheme, hscheme⟩ := scheme_of_buildModel hbuild
  obtain ⟨halgorithm, hhash⟩ := confirmHash_of_ofOid? hscheme
  refine ⟨hp, ⟨received, hdelivers, hbuild⟩, m.certificate, scheme, rfl, halgorithm, hscheme, ?_⟩
  rw [← hhash]
  exact hx

/-- A confirmation that is not acknowledged is not sent at all, or is the last message. -/
theorem Confirming.fail {m : Model} {f : Failure} {result : Except Failure Verdict}
    (hp : ∀ x ∈ p.exchanges, ¬x.Confirms) (hdelivered : e.Delivered p.exchanges (.arranged m))
    (h : RoundTrip e peer .confirming (e.confirmBody m) p result q) :
    Confirming e (.ended (.error f), q) := by
  rcases h.carries with ⟨rfl, -⟩ | ⟨x, hx, hexchanges, -⟩
  · exact .inl ⟨hp, by simp⟩
  · exact .inr ⟨_, x, m, hexchanges, accepts_of_arranged hp hdelivered hx, by simp⟩

theorem Confirming.acknowledge {m : Model} (hs : e.session.Continues p.session)
    (hp : ∀ x ∈ p.exchanges, ¬x.Confirms) (hdelivered : e.Delivered p.exchanges (.arranged m))
    (h : RoundTrip e peer .confirming (e.confirmBody m) p (.ok .confirmed) q) :
    Confirming e (.ended (.ok m), q) := by
  rcases h.carries with ⟨-, f, hf⟩ | ⟨x, hx, hexchanges, -⟩
  · cases hf
  · obtain ⟨y, answer, hexchanges', hanswers, hbody⟩ := h.confirmed
    obtain ⟨-, hsame⟩ := List.append_inj' (hexchanges.symm.trans hexchanges') rfl
    obtain rfl := List.singleton_inj.1 hsame
    refine .inr ⟨_, x, m, hexchanges, accepts_of_arranged hp hdelivered hx, fun m' hm' => ?_⟩
    exact ⟨(Except.ok.inj hm').symm, answer, hanswers.of_continues hs, hbody⟩

theorem tagNumber_body_ne (kind : Kind) (messages : List CertReqMsg) :
    (kind.body messages).tagNumber ≠ 24 := by
  cases kind with
  | initialization => exact (by decide : (0 : TagNumber) ≠ 24)
  | certification => exact (by decide : (2 : TagNumber) ≠ 24)
  | keyUpdate current => exact (by decide : (7 : TagNumber) ≠ 24)

theorem tagNumber_pollBody_ne (e : Enrollment) : e.pollBody.tagNumber ≠ 24 :=
  (by decide : (25 : TagNumber) ≠ 24)

theorem Confirming.move {a b : Stage × Progress} (hs : e.session.Continues a.2.session)
    (hdelivered : e.Delivered a.2.exchanges a.1) (h : Confirming e a) (hm : Move e peer a b) :
    Confirming e b := by
  cases hm with
  | cancel => exact .inl ⟨h, by simp⟩
  | unprepared => exact .inl ⟨h, by simp⟩
  | ask _ _ hr => exact .judge h (tagNumber_body_ne _ _) (by decide) hr
  | misplaced => exact absurd rfl h.1
  | exhausted => exact .inl ⟨h.2, by simp⟩
  | late => exact .inl ⟨h.2, by simp⟩
  | interrupted => exact .inl ⟨h.2, by simp⟩
  | wait => exact h.2
  | poll hr => exact .judge h (tagNumber_pollBody_ne e) (by decide) hr
  | unarranged => exact .inl ⟨h.2, by simp⟩
  | finish _ hi => exact .inl ⟨h.2, fun _ _ => hi⟩
  | arrange => exact h.2
  | confirm hr => exact .acknowledge hs h hdelivered hr
  | unacknowledged _ hr => exact .fail h hdelivered hr
  | unconfirmed hr => exact .fail h hdelivered hr

theorem confirming_of_path {a : Stage × Progress}
    (h : ReflTransGen (Move e peer) (.preparing, e.start) a) : Confirming e a := by
  induction h with
  | refl => exact fun x hx => by cases hx
  | tail hpath hm ih =>
    exact ih.move (sound_of_path hpath).continues (delivered_of_path hpath) hm

/-- A run without implicit confirmation succeeds by confirming the certificate. In every run there is
one confirmation at most, the last message, sent when the chain has been built; so the certificate is
signed with an algorithm that chains allow. No answer is taken for an acknowledgement of anything else,
and a confirmation has no other answer that is accepted. -/
theorem run_confirms (e : Enrollment) (peer : Peer) :
    (∀ model, (e.run peer).1 = .ok model → e.descriptor.implicitConfirm = false →
      ∃ before x answer, (e.run peer).2.exchanges = before ++ [x] ∧ e.Accepts before x model ∧
        x.Answers e.session answer ∧ answer.body = .confirmation) ∧
    (∀ before x after, (e.run peer).2.exchanges = before ++ x :: after → x.Confirms →
      after = [] ∧ ∃ model, e.Accepts before x model) ∧
    ∀ a, ReflTransGen (Move e peer) (.preparing, e.start) a →
      (∀ started, a.1 ≠ .judged started .confirmed) ∧
      ∀ model, a.1 = .arranged model →
        model.certificate.signatureAlgorithm.oid ∈ chainAlgorithms ∧
        ∀ verdict q, RoundTrip e peer .confirming (e.confirmBody model) a.2 (.ok verdict) q →
          verdict = .confirmed := by
  obtain ⟨q, hend, hpath⟩ := run_path e peer
  have hexchanges : (e.run peer).2.exchanges = q.exchanges := by rw [hend]; rfl
  have hconfirming : Confirming e (.ended (e.run peer).1, q) := confirming_of_path hpath
  rw [hexchanges]
  refine ⟨fun model hmodel hno => ?_, fun before x after hsplit hx => ?_, fun a ha => ⟨?_, ?_⟩⟩
  · rcases hconfirming with ⟨-, himplicit⟩ | ⟨before, x, m, hlast, haccepts, hok⟩
    · rw [himplicit model hmodel] at hno
      cases hno
    · obtain ⟨rfl, answer, hanswers, hbody⟩ := hok model hmodel
      exact ⟨before, x, answer, hlast, haccepts, hanswers, hbody⟩
  · rcases hconfirming with ⟨hnone, -⟩ | ⟨before', y, m, hlast, haccepts, -⟩
    · exact absurd hx (hnone x (by rw [hsplit]; simp))
    · rcases split_concat (hlast.symm.trans hsplit) with ⟨rfl, rfl, rfl⟩ | ⟨after', rfl⟩
      · exact ⟨rfl, m, haccepts⟩
      · exact absurd hx (haccepts.first x (by simp))
  · rintro started hstage
    obtain ⟨stage, p⟩ := a
    obtain rfl := hstage
    exact (confirming_of_path ha).1 rfl
  · rintro model hstage
    obtain ⟨stage, p⟩ := a
    obtain rfl := hstage
    obtain ⟨received, hbuild, -⟩ := delivered_of_path ha
    obtain ⟨scheme, hscheme⟩ := scheme_of_buildModel hbuild
    exact ⟨(confirmHash_of_ofOid? hscheme).1, fun verdict q hr => hr.confirmed_iff.2 rfl⟩

end Enrollment

namespace Sample

open Enrollment

/-- An enrollment that confirms what it is given. -/
def careful : Enrollment :=
  { hurried with descriptor := { hurried.descriptor with implicitConfirm := false } }

def acknowledgement : Message :=
  answer 4 .confirmation 0x36250e81318c3422344113cdc8b7f8b669eb6e30eeef4098cd97f15818e82a4c

def promptPeer : Peer := fun sent =>
  match sent.length with
  | 1 => { answer := .ok (Der.encode { issuingAnswer with extraCerts := some [issuing, root] }) }
  | _ => { answer := .ok (Der.encode acknowledgement) }

/-- The confirmation is the second message and the last. -/
theorem run_confirms_careful :
    (careful.run promptPeer).1 = .ok genuine ∧ ∃ x y answer,
      (careful.run promptPeer).2.exchanges = [x, y] ∧ careful.Accepts [x] y genuine ∧
        y.Answers careful.session answer ∧ answer.body = .confirmation := by
  have hrun : (careful.run promptPeer).1 = .ok genuine ∧
      (careful.run promptPeer).2.exchanges.length = 2 := by
    decide +kernel
  obtain ⟨hmodel, hlength⟩ := hrun
  obtain ⟨before, y, answer, hexchanges, haccepts, hanswers, hbody⟩ :=
    (run_confirms careful promptPeer).1 genuine hmodel rfl
  rw [hexchanges, List.length_append] at hlength
  obtain ⟨x, rfl⟩ := List.length_eq_one_iff.1 (Nat.succ.inj hlength)
  exact ⟨hmodel, x, y, answer, hexchanges, haccepts, hanswers, hbody⟩

end Sample

end PkiEnroll.Enroll
