import PkiEnroll.Enroll.Run

namespace PkiEnroll.Enroll

open Der X509 Cmp Protection

namespace Step

variable {α β : Type} {p : Progress}

theorem run_pure (a : α) : (pure a : Step α).run p = (.ok a, p) := rfl

theorem run_throw (f : Failure) : (throw f : Step α).run p = (.error f, p) := rfl

theorem run_get : (get : Step Progress).run p = (.ok p, p) := rfl

theorem run_set (q : Progress) : (set q : Step PUnit).run p = (.ok ⟨⟩, q) := rfl

theorem run_modify (f : Progress → Progress) : (modify f : Step PUnit).run p = (.ok ⟨⟩, f p) := rfl

theorem run_ofExcept (x : Except Failure α) : (ofExcept x : Step α).run p = (x, p) := by
  cases x <;> rfl

theorem run_bind_ok {x : Step α} {f : α → Step β} {a : α} {q : Progress}
    (h : x.run p = (.ok a, q)) : (x >>= f).run p = (f a).run q := by
  change (x >>= f) p = f a q
  change x p = (.ok a, q) at h
  simp [bind, ExceptT.bind, ExceptT.mk, StateT.bind, h, ExceptT.bindCont]

theorem run_bind_error {x : Step α} {f : α → Step β} {failure : Failure} {q : Progress}
    (h : x.run p = (.error failure, q)) : (x >>= f).run p = (.error failure, q) := by
  change (x >>= f) p = _
  change x p = _ at h
  simp only [bind, ExceptT.bind, ExceptT.mk, StateT.bind, h, ExceptT.bindCont]
  rfl

end Step

namespace Progress

def enter (p : Progress) (next : State) : Progress :=
  { p with session := p.session.enter next, visited := p.visited ++ [next] }

def reply (p : Progress) (peer : Peer) (request : Bytes) : Reply :=
  peer (p.exchanges.map Exchange.request ++ [request])

def send (p : Progress) (peer : Peer) (state : State) (request : Bytes) : Progress :=
  { p.enter state with
    exchanges := p.exchanges ++ [⟨p.clock, request, (p.reply peer request).answer⟩]
    clock := p.clock + (p.reply peer request).delay
    cancelled := p.cancelled || (p.reply peer request).cancels }

def record (p : Progress) (h : Header) : Progress := { p with session := p.session.record h }

end Progress

namespace Session

/-- Whether a session is a later moment of another: only the CA's nonce and the progress differ. -/
def Continues (s t : Session) : Prop :=
  t = { s with recipNonce := t.recipNonce, state := t.state, polls := t.polls }

theorem Continues.refl (s : Session) : s.Continues s := rfl

theorem Continues.trans {r s t : Session} (h : r.Continues s) (h' : s.Continues t) : r.Continues t := by
  rw [Continues, h', h]

theorem continues_enter (s : Session) (next : State) : s.Continues (s.enter next) := rfl

end Session

namespace Enrollment

variable {e : Enrollment} {peer : Peer} {p q : Progress}

/-- What can come of a round trip, by how far it gets. -/
inductive RoundTrip (e : Enrollment) (peer : Peer) (state : State) (body : Body) (p : Progress) :
    Except Failure Verdict → Progress → Prop
  | unsent {f : Failure} (h : p.session.message (e.timeAt p) body >>= Message.encode = .error f) :
      RoundTrip e peer state body p (.error f) p
  | unanswered {m : Message} {request : Bytes} {detail : String}
      (hm : p.session.message (e.timeAt p) body = .ok m) (hr : m.encode = .ok request)
      (ha : (p.reply peer request).answer = .error detail) :
      RoundTrip e peer state body p (.error (.transport detail)) (p.send peer state request)
  | unread {m : Message} {request raw : Bytes} {f : Failure}
      (hm : p.session.message (e.timeAt p) body = .ok m) (hr : m.encode = .ok request)
      (ha : (p.reply peer request).answer = .ok raw) (hd : Message.decode raw = .error f) :
      RoundTrip e peer state body p (.error f) (p.send peer state request)
  | rejected {m answer : Message} {request raw : Bytes} {f : Failure}
      (hm : p.session.message (e.timeAt p) body = .ok m) (hr : m.encode = .ok request)
      (ha : (p.reply peer request).answer = .ok raw) (hd : Message.decode raw = .ok answer)
      (hv : (p.session.enter state).verify answer raw e.kind.responseTag = .error f) :
      RoundTrip e peer state body p (.error f) (p.send peer state request)
  | accepted {m answer : Message} {request raw : Bytes} {verdict : Verdict}
      (hm : p.session.message (e.timeAt p) body = .ok m) (hr : m.encode = .ok request)
      (ha : (p.reply peer request).answer = .ok raw) (hd : Message.decode raw = .ok answer)
      (hv : (p.session.enter state).verify answer raw e.kind.responseTag = .ok verdict) :
      RoundTrip e peer state body p (.ok verdict) ((p.send peer state request).record answer.header)

theorem run_exchange_ok {request raw : Bytes} {state : State}
    (ha : (p.reply peer request).answer = .ok raw) :
    (exchange peer request).run (p.enter state) = (.ok raw, p.send peer state request) := by
  rw [exchange, Step.run_bind_ok Step.run_get, Step.run_bind_ok (Step.run_set _)]
  have hanswer : (peer ((p.enter state).exchanges.map Exchange.request ++ [request])).answer = _ := ha
  simp only [hanswer, Progress.send, ha]
  rfl

theorem run_exchange_error {request : Bytes} {state : State} {detail : String}
    (ha : (p.reply peer request).answer = .error detail) :
    (exchange peer request).run (p.enter state) =
      (.error (.transport detail), p.send peer state request) := by
  rw [exchange, Step.run_bind_ok Step.run_get, Step.run_bind_ok (Step.run_set _)]
  have hanswer : (peer ((p.enter state).exchanges.map Exchange.request ++ [request])).answer = _ := ha
  simp only [hanswer, Progress.send, ha]
  rfl

theorem roundTrip_cases (e : Enrollment) (peer : Peer) (state : State) (body : Body) (p : Progress) :
    RoundTrip e peer state body p ((e.roundTrip peer state body).run p).1
      ((e.roundTrip peer state body).run p).2 := by
  unfold roundTrip
  rw [Step.run_bind_ok Step.run_get]
  -- each step that fails is the last; what has been handed over by then stays in the progress
  cases hm : p.session.message (e.timeAt p) body with
  | error f =>
    rw [Step.run_bind_error (Step.run_ofExcept _)]
    exact .unsent (by simp [hm, bind, Except.bind])
  | ok m =>
    rw [Step.run_bind_ok (Step.run_ofExcept _)]
    cases hr : m.encode with
    | error f =>
      rw [Step.run_bind_error (Step.run_ofExcept _)]
      exact .unsent (by simp [hm, hr, bind, Except.bind])
    | ok request =>
      rw [Step.run_bind_ok (Step.run_ofExcept _)]
      have henter : (Step.enter state).run p = (.ok (), p.enter state) := Step.run_modify _
      rw [Step.run_bind_ok henter]
      cases ha : (p.reply peer request).answer with
      | error detail =>
        rw [Step.run_bind_error (run_exchange_error ha)]
        exact .unanswered hm hr ha
      | ok raw =>
        rw [Step.run_bind_ok (run_exchange_ok ha)]
        cases hd : Message.decode raw with
        | error f =>
          rw [Step.run_bind_error (Step.run_ofExcept _)]
          exact .unread hm hr ha hd
        | ok answer =>
          rw [Step.run_bind_ok (Step.run_ofExcept _), Step.run_bind_ok Step.run_get]
          cases hv : (p.send peer state request).session.verify answer raw e.kind.responseTag with
          | error f =>
            rw [Step.run_bind_error (Step.run_ofExcept _)]
            exact .rejected hm hr ha hd hv
          | ok verdict =>
            rw [Step.run_bind_ok (Step.run_ofExcept _), Step.run_bind_ok (Step.run_modify _),
              Step.run_pure]
            exact .accepted hm hr ha hd hv

theorem roundTrip_run (e : Enrollment) (peer : Peer) (state : State) (body : Body) (p : Progress) :
    ∃ result q, (e.roundTrip peer state body).run p = (result, q) ∧
      RoundTrip e peer state body p result q :=
  ⟨_, _, rfl, roundTrip_cases e peer state body p⟩

namespace RoundTrip

variable {state : State} {body : Body} {result : Except Failure Verdict}

theorem continues (h : RoundTrip e peer state body p result q) : p.session.Continues q.session := by
  cases h <;> rfl

/-- Nothing happens, or one message is handed over in the state. -/
theorem sends (h : RoundTrip e peer state body p result q) :
    (q = p ∧ ∃ f, result = .error f) ∨
      ∃ x m, q.exchanges = p.exchanges ++ [x] ∧ p.session.message (e.timeAt p) body = .ok m ∧
        m.encode = .ok x.request ∧ q.visited = p.visited ++ [state] ∧
        q.session.polls = (p.session.enter state).polls := by
  cases h with
  | unsent => exact .inl ⟨rfl, _, rfl⟩
  | unanswered hm hr => exact .inr ⟨_, _, rfl, hm, hr, rfl, rfl⟩
  | unread hm hr => exact .inr ⟨_, _, rfl, hm, hr, rfl, rfl⟩
  | rejected hm hr => exact .inr ⟨_, _, rfl, hm, hr, rfl, rfl⟩
  | accepted hm hr => exact .inr ⟨_, _, rfl, hm, hr, rfl, rfl⟩

end RoundTrip

end Enrollment

end PkiEnroll.Enroll
