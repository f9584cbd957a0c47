import PkiEnroll.Proofs.Enroll.Authentic
import PkiEnroll.Proofs.Enroll.Conversation
import PkiEnroll.Proofs.Enroll.Identifiers

namespace PkiEnroll.Enroll

open Der X509 Cmp Protection Directory
open Relation (ReflTransGen)

/-- What is wrong with the call itself: the CA is not contacted. -/
def callerKinds : List FailureKind := [.serverNotFound, .configuration, .invalidRequest]

/-- What only an exchange, or the wait after one, can bring up. -/
def exchangeKinds : List FailureKind := [.nonceMismatch, .pkiError, .pollTimeout, .transport]

/-- What a failure tells of the messages handed over before it. -/
structure Tells (f : Failure) (xs : List Exchange) : Prop where
  silent : f.kind ∈ callerKinds → xs = []
  contacted : f.kind ∈ exchangeKinds → xs ≠ []

namespace Tells

variable {f : Failure} {xs : List Exchange}

theorem of_nil (h : f.kind ∉ exchangeKinds) (hxs : xs = []) : Tells f xs :=
  ⟨fun _ => hxs, fun hf => absurd hf h⟩

theorem of_ne_nil (h : f.kind ∉ callerKinds) (hxs : xs ≠ []) : Tells f xs :=
  ⟨fun hf => absurd hf h, fun _ => hxs⟩

end Tells

theorem Stage.eq_error_of_after {started : Nat} {result : Except Failure Verdict} {f : Failure}
    (h : Stage.after started result = .ended (.error f)) : result = .error f := by
  cases result with
  | ok verdict => cases h
  | error g =>
    cases h
    rfl

namespace Enrollment

variable {e : Enrollment} {peer : Peer} {p q : Progress}

theorem Talk.exchanges_ne_nil {more : List Body} {states : List State} (h : Talk e p more states) :
    p.exchanges ≠ [] := by
  obtain ⟨m, hcarried⟩ := h.carried
  intro hnone
  rw [hnone] at hcarried
  cases hcarried

/-- A round trip blames the caller for nothing, and the other side only after a message. -/
theorem RoundTrip.tells {state : State} {body : Body} {f : Failure}
    (h : RoundTrip e peer state body p (.error f) q) : Tells f q.exchanges where
  silent hf := absurd hf (h.failsWithin.not_mem rfl (by decide))
  contacted hf := by
    have hapart : ∀ kind ∈ exchangeKinds, kind ∉ [.decode, .protection] := by decide
    exact h.sends_of_kind (hapart f.kind hf)

theorem Move.tells {a b : Stage × Progress} {f : Failure} (hs : Stands e a) (h : Move e peer a b)
    (hb : b.1 = .ended (.error f)) : Tells f b.2.exchanges := by
  -- what fails before the first message, then what fails after it, and round trips in between
  cases h with
  | cancel =>
    cases hb
    exact .of_nil (by decide) hs.exchanges
  | unprepared _ hm =>
    cases hb
    exact .of_nil ((Request.certReqMsg_failsWithin _ _ _).not_mem hm (by decide)) hs.exchanges
  | ask _ _ hr =>
    obtain rfl := Stage.eq_error_of_after hb
    exact hr.tells
  | misplaced =>
    cases hb
    exact .of_ne_nil (by decide) (Talk.exchanges_ne_nil hs)
  | exhausted =>
    cases hb
    exact .of_ne_nil (by simp [callerKinds]) (Talk.await hs).exchanges_ne_nil
  | late =>
    cases hb
    exact .of_ne_nil (by simp [callerKinds]) (Talk.await hs).exchanges_ne_nil
  | interrupted =>
    cases hb
    exact .of_ne_nil (by decide) ((Talk.await hs).atClock _).exchanges_ne_nil
  | wait => cases hb
  | poll hr =>
    obtain rfl := Stage.eq_error_of_after hb
    exact hr.tells
  | unarranged hbuild =>
    cases hb
    exact .of_ne_nil ((buildModel_failsWithin _ _).not_mem hbuild (by decide))
      (Talk.exchanges_ne_nil hs)
  | finish => cases hb
  | arrange => cases hb
  | confirm => cases hb
  | unacknowledged _ hr =>
    cases hb
    obtain ⟨x, m, hexchanges, -⟩ := hr.authentic
    exact .of_ne_nil (by decide) (by simp [hexchanges])
  | unconfirmed hr =>
    cases hb
    exact hr.tells

/-- Where the caller's wish to cancel can end a run: before anything is sent, or within a wait for a
poll, which is over no later than it would have been. -/
inductive Stops (e : Enrollment) : Stage × Progress → Progress → Prop
  | unsent {p : Progress} (h : e.isCancelled p p.clock = true) (hnone : p.exchanges = []) :
      Stops e (.preparing, p) p
  | waiting {p q : Progress} {started : Nat} {checkAfter : Option Int64}
      (h : e.isCancelled p (p.clock + e.pause checkAfter) = true)
      (hsome : p.exchanges ≠ []) (hexchanges : q.exchanges = p.exchanges)
      (hvisited : q.visited = p.visited ++ [.awaitingPollDecision])
      (hclock : p.clock ≤ q.clock ∧ q.clock ≤ p.clock + e.pause checkAfter) :
      Stops e (.judged started (.waiting checkAfter), p) q

theorem cancelClock_within {duration : Nat} (h : e.isCancelled p (p.clock + duration) = true) :
    p.clock ≤ e.cancelClock p ∧ e.cancelClock p ≤ p.clock + duration := by
  unfold cancelClock
  split
  · exact ⟨Nat.le_refl _, Nat.le_add_right _ _⟩
  · next hcaller =>
    rw [isCancelled, Bool.or_eq_true] at h
    have hdue := h.resolve_left hcaller
    cases hat : e.cancelAt with
    | none => simp [hat] at hdue
    | some time =>
      have htime : time ≤ p.clock + duration := by simpa [hat] using hdue
      simp only [Option.getD_some]
      omega

theorem Move.stops {a b : Stage × Progress} (hs : Stands e a) (h : Move e peer a b)
    (hb : b.1 = .ended (.error .cancelled)) : Stops e a b.2 := by
  cases h with
  | cancel hc => exact .unsent hc hs.exchanges
  | unprepared _ hm =>
    cases hb
    exact absurd rfl ((Request.certReqMsg_failsWithin _ _ _).kind_ne hm (by decide))
  | ask _ _ hr =>
    obtain rfl := Stage.eq_error_of_after hb
    exact absurd rfl hr.kind_ne.2
  | interrupted _ _ hc => exact .waiting hc (Talk.exchanges_ne_nil hs) rfl rfl (cancelClock_within hc)
  | poll hr =>
    obtain rfl := Stage.eq_error_of_after hb
    exact absurd rfl hr.kind_ne.2
  | unarranged hbuild =>
    cases hb
    exact absurd rfl ((buildModel_failsWithin _ _).kind_ne hbuild (by decide))
  | unconfirmed hr =>
    cases hb
    exact absurd rfl hr.kind_ne.2
  | _ => cases hb

theorem last_move {result : Except Failure Model}
    (h : ReflTransGen (Move e peer) (.preparing, e.start) (.ended result, q)) :
    ∃ a, ReflTransGen (Move e peer) (.preparing, e.start) a ∧ Move e peer a (.ended result, q) := by
  rcases h.cases_tail with hsame | ⟨a, hpath, hlast⟩
  · cases hsame
  · exact ⟨a, hpath, hlast⟩

/-- A run that is cancelled stops where it can be, and every message handed over by then is answered. -/
structure Cancels (e : Enrollment) (peer : Peer) (p : Progress) : Prop where
  stopped : ∃ a q, ReflTransGen (Move e peer) (.preparing, e.start) a ∧ Stops e a q ∧
    p = q.enter .failed
  answered : ∀ x ∈ p.exchanges, ∃ m, x.Answers e.session m

theorem Stops.hasFailed {a : Stage × Progress} (h : Stops e a q) : a.1.hasFailed = false := by
  cases h with
  | unsent => rfl
  | waiting => rfl

theorem Stops.exchanges {a : Stage × Progress} (h : Stops e a q) : q.exchanges = a.2.exchanges := by
  cases h with
  | unsent => rfl
  | waiting _ _ hexchanges => exact hexchanges

theorem run_tells {f : Failure} (h : (e.run peer).1 = .error f) :
    Tells f (e.run peer).2.exchanges ∧ (f = .cancelled → Cancels e peer (e.run peer).2) := by
  obtain ⟨q, hend, hpath⟩ := run_path e peer
  rw [hend, h]
  rw [h] at hpath
  obtain ⟨a, ha, hlast⟩ := last_move hpath
  have hstands := stands_of_path ha
  refine ⟨hlast.tells hstands rfl, fun hcancelled => ?_⟩
  obtain rfl := hcancelled
  have hstops : Stops e a q := hlast.stops hstands rfl
  refine ⟨⟨a, q, ha, hstops, rfl⟩, fun x hx => ?_⟩
  have hmem : x ∈ a.2.exchanges := by
    rw [← hstops.exchanges]
    exact hx
  exact (sound_of_path ha).all hstops.hasFailed x hmem

end Enrollment

namespace Client

open Enrollment

variable {c : Client} {caName : String} {kind : Kind} {request : Request} {draws : Draws} {now : Clock}
  {cancelAt : Option Nat}

/-- What a call comes to, and the exchanges with the CA. -/
def call (c : Client) (caName : String) (kind : Kind) (request : Request) (draws : Draws)
    (now : Clock) (cancelAt : Option Nat) (peer : Peer) : Except Failure Model × List Exchange :=
  match c.enrollment caName kind request draws now cancelAt with
  | .error f => (.error f, [])
  | .ok e => ((e.run peer).1, (e.run peer).2.exchanges)

theorem context_failsWithin (d : Descriptor) (salt : Bytes) (iterations : UInt32) :
    FailsWithin [.configuration] (d.context salt iterations) := by
  unfold Descriptor.context
  split
  · exact .ok _
  · exact Context.ofCredential_failsWithin _ _ _

theorem enrollment_failsWithin (c : Client) (caName : String) (kind : Kind) (request : Request)
    (draws : Draws) (now : Clock) (cancelAt : Option Nat) :
    FailsWithin [.serverNotFound, .configuration]
      (c.enrollment caName kind request draws now cancelAt) := by
  refine .bind (.orFail (by simp) _) fun d => ?_
  cases kind with
  | keyUpdate current =>
    exact ((Context.ofCredential_failsWithin _ _ _).mono (by decide)).bind fun _ => .ok _
  | initialization => exact ((context_failsWithin _ _ _).mono (by decide)).bind fun _ => .ok _
  | certification => exact ((context_failsWithin _ _ _).mono (by decide)).bind fun _ => .ok _

/-- The kind of a failure tells whether the CA was contacted. A call that is cancelled stops before its
first message or while it waits for a poll, with everything it has sent answered and authentic. -/
theorem call_failure (c : Client) (caName : String) (kind : Kind) (request : Request) (draws : Draws)
    (now : Clock) (cancelAt : Option Nat) (peer : Peer) {f : Failure}
    (h : (c.call caName kind request draws now cancelAt peer).1 = .error f) :
    Tells f (c.call caName kind request draws now cancelAt peer).2 ∧
      (f = .cancelled → ∃ e, c.enrollment caName kind request draws now cancelAt = .ok e ∧
        (c.call caName kind request draws now cancelAt peer).2 = (e.run peer).2.exchanges ∧
        Cancels e peer (e.run peer).2) := by
  unfold call at h ⊢
  have hwithin := c.enrollment_failsWithin caName kind request draws now cancelAt
  cases he : c.enrollment caName kind request draws now cancelAt with
  | error g =>
    rw [he] at h
    cases h
    refine ⟨.of_nil (hwithin.not_mem he (by decide)) rfl, fun hcancelled => ?_⟩
    rw [hcancelled] at he
    exact absurd rfl (hwithin.kind_ne he (by decide))
  | ok e =>
    rw [he] at h
    obtain ⟨htells, hcancels⟩ := run_tells h
    exact ⟨htells, fun hcancelled => ⟨e, rfl, rfl, hcancels hcancelled⟩⟩

end Client

namespace Sample

/-- The caller loses patience within the first wait. -/
theorem call_failure_hurried :
    (client.call "CA" .initialization hurried.request hurried.draws hurried.now (some 3) slowPeer).1 =
        .error .cancelled ∧
      ∃ e, client.enrollment "CA" .initialization hurried.request hurried.draws hurried.now (some 3) =
        .ok e ∧ Enrollment.Cancels e slowPeer (e.run slowPeer).2 := by
  have hcall : (client.call "CA" .initialization hurried.request hurried.draws hurried.now (some 3)
      slowPeer).1 = .error .cancelled := by
    decide +kernel
  obtain ⟨-, hcancels⟩ := Client.call_failure client "CA" .initialization hurried.request hurried.draws
    hurried.now (some 3) slowPeer hcall
  obtain ⟨e, he, -, hcancels⟩ := hcancels rfl
  exact ⟨hcall, e, he, hcancels⟩

end Sample

end PkiEnroll.Enroll
