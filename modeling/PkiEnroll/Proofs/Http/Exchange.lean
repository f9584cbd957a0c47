import Mathlib.Tactic.Common
import PkiEnroll.Http.Client
import PkiEnroll.Proofs.Text.Utf8

namespace PkiEnroll.Http

open Cmp

/-- One turn of the loop: what is held after one more chunk. -/
def hold (limit : Nat) (held chunk : Bytes) : Except String Bytes :=
  if limit < held.length + chunk.length then .error (tooLarge limit) else .ok (held ++ chunk)

section

variable {limit : Nat} {complete : Bool} {held held' chunk : Bytes} {chunks front rest : List Bytes}

theorem hold_eq_ok_iff :
    hold limit held chunk = .ok held' ↔ held.length + chunk.length ≤ limit ∧ held' = held ++ chunk := by
  unfold hold
  by_cases h : limit < held.length + chunk.length
  · rw [if_pos h]
    constructor
    · intro hok
      cases hok
    · intro hok
      exact absurd hok.1 (by omega)
  · rw [if_neg h]
    constructor
    · intro hok
      exact ⟨by omega, (Except.ok.inj hok).symm⟩
    · intro hok
      rw [hok.2]

theorem length_hold_le (h : hold limit held chunk = .ok held') : held'.length ≤ limit := by
  obtain ⟨hle, rfl⟩ := hold_eq_ok_iff.1 h
  rw [List.length_append]
  exact hle

theorem gather_eq_foldlM :
    gather limit complete held chunks =
      chunks.foldlM (hold limit) held >>= fun held => gather limit complete held [] := by
  induction chunks generalizing held with
  | nil => rfl
  | cons chunk chunks ih =>
    rw [List.foldlM_cons, gather, hold]
    by_cases h : limit < held.length + chunk.length
    · rw [if_pos h, if_pos h]
      rfl
    · rw [if_neg h, if_neg h]
      exact ih

theorem gather_append :
    gather limit complete held (front ++ rest) =
      front.foldlM (hold limit) held >>= fun held => gather limit complete held rest := by
  rw [gather_eq_foldlM, List.foldlM_append, bind_assoc]
  simp only [← gather_eq_foldlM]

/-- However far the loop has come, it holds what has arrived, and no more than the limit. -/
theorem foldlM_hold (hheld : held.length ≤ limit) (h : front.foldlM (hold limit) held = .ok held') :
    held' = held ++ front.flatten ∧ held'.length ≤ limit := by
  induction front generalizing held with
  | nil =>
    obtain rfl : held = held' := Except.ok.inj h
    exact ⟨(List.append_nil held).symm, hheld⟩
  | cons chunk front ih =>
    rw [List.foldlM_cons] at h
    cases hturn : hold limit held chunk with
    | error why =>
      rw [hturn] at h
      cases h
    | ok next =>
      rw [hturn] at h
      have hnext := (hold_eq_ok_iff.1 hturn).2
      have hrest := ih (length_hold_le hturn) h
      rw [hnext, List.append_assoc] at hrest
      exact hrest

/-- What the loop comes to depends on the size of the body alone. -/
theorem gather_eq (hheld : held.length ≤ limit) :
    gather limit complete held chunks =
      if limit < held.length + chunks.flatten.length then .error (tooLarge limit)
      else if complete then .ok (held ++ chunks.flatten) else .error connectionFailure := by
  induction chunks generalizing held with
  | nil =>
    have hfits : ¬limit < held.length + ([] : List Bytes).flatten.length := by
      rw [List.flatten_nil, List.length_nil]
      omega
    rw [if_neg hfits, List.flatten_nil, List.append_nil, gather]
  | cons chunk chunks ih =>
    rw [gather, List.flatten_cons, List.length_append]
    by_cases h : limit < held.length + chunk.length
    · rw [if_pos h, if_pos (by omega)]
    · have hnext : (held ++ chunk).length ≤ limit := by
        rw [List.length_append]
        omega
      rw [if_neg h, ih hnext, List.length_append, Nat.add_assoc, List.append_assoc]

end

namespace Response

/-- The body of a response, be it cut as it may. A response that ends with its head has none. -/
def body (r : Response) : Bytes := if r.isHeadOnly then [] else r.chunks.flatten

/-- Whether the body is within a limit, by the announced length and by what arrives. -/
structure Fits (r : Response) (limit : Nat) : Prop where
  announced : ∀ n ∈ r.declared, n ≤ limit
  arrived : r.body.length ≤ limit

instance (r : Response) (limit : Nat) : Decidable (r.Fits limit) :=
  decidable_of_iff ((∀ n ∈ r.declared, n ≤ limit) ∧ r.body.length ≤ limit)
    ⟨fun h => ⟨h.1, h.2⟩, fun h => ⟨h.1, h.2⟩⟩

end Response

section

variable {limit : Nat} {r : Response}

theorem any_declared_iff : r.declared.any (limit < ·) = true ↔ ¬∀ n ∈ r.declared, n ≤ limit := by
  cases r.declared with
  | none => simp
  | some n => simp

theorem readBody_eq (hcomplete : r.complete = true) (hbody : r.body ≠ []) :
    readBody limit r = if r.Fits limit then .ok r.body else .error (tooLarge limit) := by
  have hhead : ¬r.isHeadOnly = true := by
    intro hhead
    apply hbody
    rw [Response.body, if_pos hhead]
  have hchunks : r.body = r.chunks.flatten := by rw [Response.body, if_neg hhead]
  rw [readBody, if_neg hhead]
  by_cases hannounced : ∀ n ∈ r.declared, n ≤ limit
  · rw [if_neg (not_not.2 hannounced ∘ any_declared_iff.1), gather_eq (Nat.zero_le limit), hcomplete,
      List.length_nil, Nat.zero_add, List.nil_append, ← hchunks]
    by_cases harrived : r.body.length ≤ limit
    · rw [if_neg (by omega), if_pos rfl, if_pos ⟨hannounced, harrived⟩]
    · rw [if_pos (by omega), if_neg fun hfits => harrived hfits.arrived]
  · rw [if_pos (any_declared_iff.2 hannounced), if_neg fun hfits => hannounced hfits.announced]

theorem readBody_of_body_eq_nil (hcomplete : r.complete = true) (hbody : r.body = []) :
    readBody limit r = .ok [] ∨ readBody limit r = .error (tooLarge limit) := by
  unfold readBody
  by_cases hhead : r.isHeadOnly = true
  · rw [if_pos hhead]
    exact Or.inl rfl
  · have hchunks : r.chunks.flatten = [] := by rwa [Response.body, if_neg hhead] at hbody
    rw [if_neg hhead]
    split
    · exact Or.inr rfl
    · rw [gather_eq (Nat.zero_le limit), hcomplete, hchunks, if_neg (by simp)]
      exact Or.inl rfl

theorem readBody_eq_ok_iff (hcomplete : r.complete = true) {b : Bytes} (hb : b ≠ []) :
    readBody limit r = .ok b ↔ r.Fits limit ∧ b = r.body := by
  by_cases hbody : r.body = []
  · have hunread : readBody limit r = .ok [] ∨ readBody limit r = .error (tooLarge limit) :=
      readBody_of_body_eq_nil hcomplete hbody
    refine iff_of_false ?_ fun h => hb (h.2.trans hbody)
    intro hread
    rcases hunread with hnone | hlong
    · exact hb (Except.ok.inj (hread.symm.trans hnone))
    · cases hread.symm.trans hlong
  · rw [readBody_eq hcomplete hbody]
    by_cases hfits : r.Fits limit
    · rw [if_pos hfits]
      constructor
      · intro h
        exact ⟨hfits, (Except.ok.inj h).symm⟩
      · intro h
        rw [h.2]
    · rw [if_neg hfits]
      exact iff_of_false (by rintro ⟨⟩) fun h => hfits h.1

theorem errorText_eq (hcomplete : r.complete = true) :
    errorText limit r =
      if r.body ≠ [] ∧ r.Fits limit then Text.ofUtf8Lossy r.body
      else (reason? r.status).getD "Unknown error" := by
  have hquoted (b : UInt8) (body : Bytes) :
      readBody limit r = .ok (b :: body) ↔ r.Fits limit ∧ b :: body = r.body :=
    readBody_eq_ok_iff hcomplete (List.cons_ne_nil b body)
  unfold errorText
  dsimp only
  split
  · next b body hread =>
    obtain ⟨hfits, hbody⟩ := (hquoted b body).1 hread
    rw [← hbody, if_pos ⟨List.cons_ne_nil b body, hfits⟩]
  · next hunread =>
    rw [if_neg]
    rintro ⟨hbody, hfits⟩
    obtain ⟨b, body, hcons⟩ := List.exists_cons_of_ne_nil hbody
    exact hunread b body ((hquoted b body).2 ⟨hfits, hcons.symm⟩)

theorem isSuccess_iff : r.isSuccess = true ↔ 200 ≤ r.status ∧ r.status ≤ 299 := by
  rw [Response.isSuccess, Bool.and_eq_true, decide_eq_true_iff, decide_eq_true_iff, Nat.lt_succ_iff]

theorem not_isInterim_of_isSuccess (h : r.isSuccess = true) : ¬r.isInterim = true := by
  intro hinterim
  rw [isSuccess_iff] at h
  rw [Response.isInterim, Bool.and_eq_true, Bool.and_eq_true, decide_eq_true_iff,
    decide_eq_true_iff] at hinterim
  omega

theorem accept_eq_ok_iff_readBody {b : Bytes} :
    accept limit r = .ok b ↔ r.isSuccess = true ∧ b ≠ [] ∧ readBody limit r = .ok b := by
  unfold accept
  by_cases hsuccess : r.isSuccess = true
  · rw [if_neg (not_isInterim_of_isSuccess hsuccess), if_pos hsuccess]
    cases readBody limit r with
    | error why => exact iff_of_false (by rintro ⟨⟩) fun h => nomatch h.2.2
    | ok body =>
      cases body with
      | nil => exact iff_of_false (by rintro ⟨⟩) fun h => h.2.1 (Except.ok.inj h.2.2).symm
      | cons first rest =>
        constructor
        · rintro ⟨⟩
          exact ⟨hsuccess, List.cons_ne_nil first rest, rfl⟩
        · intro h
          exact h.2.2
  · rw [if_neg hsuccess]
    refine iff_of_false ?_ fun h => hsuccess h.1
    split
    · rintro ⟨⟩
    · rintro ⟨⟩

theorem accept_eq_ok_iff (hcomplete : r.complete = true) {b : Bytes} :
    accept limit r = .ok b ↔ r.isSuccess = true ∧ r.Fits limit ∧ r.body ≠ [] ∧ b = r.body := by
  rw [accept_eq_ok_iff_readBody]
  refine and_congr_right fun _ => ?_
  constructor
  · rintro ⟨hb, hread⟩
    obtain ⟨hfits, rfl⟩ := (readBody_eq_ok_iff hcomplete hb).1 hread
    exact ⟨hfits, hb, rfl⟩
  · rintro ⟨hfits, hbody, rfl⟩
    exact ⟨hbody, (readBody_eq_ok_iff hcomplete hbody).2 ⟨hfits, rfl⟩⟩

end

namespace Client

variable {c : Client} {r : Response}

theorem exchange_eq_ok_iff {b : Bytes} : c.exchange (some r) = .ok b ↔ accept c.limit r = .ok b := by
  change (accept c.limit r).mapError Failure.transport = .ok b ↔ _
  cases accept c.limit r with
  | ok body => simp [Except.mapError]
  | error why => simp [Except.mapError]

/-- Only the bytes of a body count, and not where it is cut. -/
theorem exchange_congr {chunks : List Bytes} (h : chunks.flatten = r.chunks.flatten) :
    c.exchange (some { r with chunks }) = c.exchange (some r) := by
  have hgather : gather c.limit r.complete [] chunks = gather c.limit r.complete [] r.chunks := by
    rw [gather_eq (Nat.zero_le _), gather_eq (Nat.zero_le _), h]
  have hread : readBody c.limit { r with chunks } = readBody c.limit r := by
    unfold readBody
    rw [hgather]
    rfl
  have haccept : accept c.limit { r with chunks } = accept c.limit r := by
    unfold accept errorText
    rw [hread]
    rfl
  exact congrArg (Except.mapError Failure.transport) haccept

theorem transport_of_exchange_eq_error {f : Failure} (h : c.exchange (some r) = .error f) :
    ∃ detail, f = .transport detail := by
  unfold exchange at h
  cases hreceive : c.receive (some r) with
  | ok b =>
    rw [hreceive] at h
    cases h
  | error why =>
    rw [hreceive] at h
    cases h
    exact ⟨why, rfl⟩

theorem exchange_of_not_success (hfinal : r.isInterim = false)
    (hstatus : ¬(200 ≤ r.status ∧ r.status ≤ 299)) :
    c.exchange (some r) =
      .error (.transport ("CA returned HTTP " ++ Nat.repr r.status ++ ": " ++ errorText c.limit r)) := by
  have hsuccess : r.isSuccess = false := Bool.eq_false_iff.2 (mt isSuccess_iff.1 hstatus)
  simp only [exchange, receive, accept, hfinal, hsuccess, Bool.false_eq_true, if_false, Except.mapError]

/-- A body is returned if it comes with a success, is there and is within the limit; all else is a failure
of the transport. An error response is named by its status and quoted if it can be. On the way no more
than the limit is held, and it makes no difference how the body is cut. -/
theorem exchange_outcome (hfinal : r.isInterim = false) (hcomplete : r.complete = true) :
    (∀ b, c.exchange (some r) = .ok b ↔
      (200 ≤ r.status ∧ r.status ≤ 299) ∧ (∀ n ∈ r.declared, n ≤ c.limit) ∧
        1 ≤ r.body.length ∧ r.body.length ≤ c.limit ∧ b = r.body) ∧
    (∀ f, c.exchange (some r) = .error f → ∃ detail, f = .transport detail) ∧
    (¬(200 ≤ r.status ∧ r.status ≤ 299) → ∃ text,
      c.exchange (some r) =
        .error (.transport ("CA returned HTTP " ++ Nat.repr r.status ++ ": " ++ text)) ∧
      (r.body ≠ [] ∧ r.Fits c.limit →
        text = Text.ofUtf8Lossy r.body ∧ ∀ s, r.body = Bytes.ofString s → text = s) ∧
      (¬(r.body ≠ [] ∧ r.Fits c.limit) → text = (reason? r.status).getD "Unknown error")) ∧
    (∀ front rest, r.chunks = front ++ rest →
      (gather c.limit r.complete [] r.chunks =
        front.foldlM (hold c.limit) [] >>= fun held => gather c.limit r.complete held rest) ∧
      ∀ held, front.foldlM (hold c.limit) [] = .ok held →
        held = front.flatten ∧ held.length ≤ c.limit) ∧
    ∀ chunks, chunks.flatten = r.chunks.flatten →
      c.exchange (some { r with chunks }) = c.exchange (some r) := by
  refine ⟨?_, ?_, ?_, ?_, fun chunks h => exchange_congr h⟩
  · intro b
    rw [exchange_eq_ok_iff, accept_eq_ok_iff hcomplete, isSuccess_iff, ← List.length_pos_iff]
    constructor
    · rintro ⟨hstatus, hfits, hpos, hb⟩
      exact ⟨hstatus, hfits.announced, hpos, hfits.arrived, hb⟩
    · rintro ⟨hstatus, hannounced, hpos, harrived, hb⟩
      exact ⟨hstatus, ⟨hannounced, harrived⟩, hpos, hb⟩
  · intro f h
    exact transport_of_exchange_eq_error h
  · intro hstatus
    refine ⟨errorText c.limit r, exchange_of_not_success hfinal hstatus, ?_, ?_⟩
    · intro hquoted
      have htext : errorText c.limit r = Text.ofUtf8Lossy r.body := by
        rw [errorText_eq hcomplete, if_pos hquoted]
      refine ⟨htext, fun s hs => ?_⟩
      rw [htext, hs, Text.ofUtf8Lossy_ofString]
    · intro hunquoted
      rw [errorText_eq hcomplete, if_neg hunquoted]
  · intro front rest hcut
    refine ⟨?_, ?_⟩
    · rw [hcut]
      exact gather_append
    · intro held hheld
      exact foldlM_hold (Nat.zero_le _) hheld

end Client

namespace Sample

def notFound : Response where
  status := 404
  declared := none
  chunks := [Bytes.ofString "not ", [], Bytes.ofString "found"]

/-- The text of the page fits exactly, so it is quoted. -/
theorem exchange_outcome_notFound :
    notFound.isInterim = false ∧ notFound.complete = true ∧
      (⟨[], 9⟩ : Client).exchange (some notFound) =
        .error (.transport "CA returned HTTP 404: not found") := by
  have hbody : notFound.body = Bytes.ofString "not found" := by decide +kernel
  have hfits : notFound.Fits 9 := by decide +kernel
  have hquoted : notFound.body ≠ [] ∧ notFound.Fits 9 := ⟨by decide +kernel, hfits⟩
  obtain ⟨-, -, herror, -⟩ :=
    Client.exchange_outcome (c := ⟨[], 9⟩) (r := notFound) (by decide) (by decide)
  obtain ⟨text, hresult, htext, -⟩ := herror (by decide)
  have hsaid : text = "not found" := (htext hquoted).2 _ hbody
  refine ⟨by decide, by decide, hresult.trans ?_⟩
  rw [hsaid]
  rfl

end Sample

end PkiEnroll.Http
