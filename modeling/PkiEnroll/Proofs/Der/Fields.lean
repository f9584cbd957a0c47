import PkiEnroll.Proofs.Der.Element

namespace PkiEnroll.Der

namespace Fields

variable {α β : Type} {es rest : List Element}

theorem bind_eq_some_iff {x : Fields α} {f : α → Fields β} {b : β} :
    (x >>= f) es = some (b, rest) ↔ ∃ a es', x es = some (a, es') ∧ f a es' = some (b, rest) := by
  constructor
  · intro h
    obtain ⟨⟨a, es'⟩, hx, hf⟩ := Option.bind_eq_some_iff.1 h
    exact ⟨a, es', hx, hf⟩
  · intro h
    obtain ⟨a, es', hx, hf⟩ := h
    exact Option.bind_eq_some_iff.2 ⟨(a, es'), hx, hf⟩

theorem required_cons [Encoding α] (e : Element) (es : List Element) :
    (required : Fields α) (e :: es) = (Encoding.ofElement? e).map fun a => (a, es) := by
  change ((Encoding.ofElement? e).bind fun a => some (a, es)) = _
  rw [Option.map_eq_bind]
  rfl

theorem required_eq_some_iff [Encoding α] {a : α} :
    (required : Fields α) es = some (a, rest) ↔
      ∃ e, es = e :: rest ∧ Encoding.ofElement? e = some a := by
  cases es with
  | nil =>
    constructor
    · intro h
      cases h
    · intro h
      obtain ⟨e, h, -⟩ := h
      cases h
  | cons e es =>
    rw [required_cons, Option.map_eq_some_iff]
    constructor
    · intro h
      obtain ⟨a', ha, heq⟩ := h
      obtain ⟨rfl, rfl⟩ := Prod.mk.inj heq
      exact ⟨e, rfl, ha⟩
    · intro h
      obtain ⟨e', hes, ha⟩ := h
      obtain ⟨rfl, rfl⟩ := List.cons.inj hes
      exact ⟨a, ha, rfl⟩

theorem wrapped_cons [Encoding α] {n : TagNumber} (e : Element) (es : List Element) :
    (wrapped n : Fields α) (e :: es) =
      (if e.tag = .context true n then decode? e.content else none).map fun a => (a, es) := by
  change ((if e.tag = .context true n then decode? e.content else none).bind fun a => some (a, es)) = _
  rw [Option.map_eq_bind]
  rfl

theorem wrapped_eq_some_iff [Encoding α] {n : TagNumber} {a : α} :
    (wrapped n : Fields α) es = some (a, rest) ↔
      ∃ content, es = ⟨.context true n, content⟩ :: rest ∧ decode? content = some a := by
  cases es with
  | nil =>
    constructor
    · intro h
      cases h
    · intro h
      obtain ⟨content, h, -⟩ := h
      cases h
  | cons e es =>
    rw [wrapped_cons, Option.map_eq_some_iff]
    constructor
    · intro h
      obtain ⟨a', ha, heq⟩ := h
      obtain ⟨rfl, rfl⟩ := Prod.mk.inj heq
      obtain ⟨htag, hread⟩ := Option.ite_none_right_eq_some.1 ha
      exact ⟨e.content, by rw [← htag], hread⟩
    · intro h
      obtain ⟨content, hes, ha⟩ := h
      obtain ⟨rfl, rfl⟩ := List.cons.inj hes
      exact ⟨a, (if_pos rfl).trans ha, rfl⟩

theorem read?_eq_some_iff {fields : Fields α} {content : Bytes} {a : α} :
    read? fields content = some a ↔
      ∃ es, Element.readAll content = some es ∧ fields es = some (a, []) := by
  constructor
  · intro h
    obtain ⟨es, hes, hfields⟩ := Option.bind_eq_some_iff.1 h
    refine ⟨es, hes, ?_⟩
    split at hfields
    next a' hread =>
      obtain rfl := Option.some.inj hfields
      exact hread
    next => cases hfields
  · intro h
    obtain ⟨es, hes, hfields⟩ := h
    simp [read?, hes, hfields]

end Fields

end PkiEnroll.Der
