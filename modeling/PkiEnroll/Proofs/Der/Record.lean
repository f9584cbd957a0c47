import PkiEnroll.Proofs.Der.Codec

namespace PkiEnroll.Der

def optionalElements {α : Type} [Encoding α] (o : Option α) : List Element :=
  o.toList.map Encoding.toElement

def explicitElements {α : Type} [Encoding α] (n : TagNumber) (o : Option α) : List Element :=
  o.toList.map (wrap n)

def implicitElements {α : Type} [Content α] (n : TagNumber) (o : Option α) : List Element :=
  o.toList.map (implicitElement n)

section
variable {α : Type}

theorem encode_eq [Encoding α] (a : α) : encode a = Element.encodeAll [Encoding.toElement a] := by
  simp [encode, Element.encodeAll]

theorem optionalField_eq [Encoding α] (o : Option α) :
    optionalField o = Element.encodeAll (optionalElements o) := by
  cases o <;> simp [optionalField, optionalElements, Element.encodeAll, encode]

theorem wrappedField_eq [Encoding α] (n : TagNumber) (a : α) :
    wrappedField n a = Element.encodeAll [wrap n a] := by
  simp [wrappedField, Element.encodeAll]

theorem explicitField_eq [Encoding α] (n : TagNumber) (o : Option α) :
    explicitField n o = Element.encodeAll (explicitElements n o) := by
  cases o <;> simp [explicitField, explicitElements, wrappedField_eq, Element.encodeAll]

theorem implicitField_eq [Content α] (n : TagNumber) (o : Option α) :
    implicitField n o = Element.encodeAll (implicitElements n o) := by
  cases o <;> simp [implicitField, implicitElements, Element.encodeAll]

end

namespace Fields

variable {α β R : Type}

/-- Whether an absent field `[n]` would be looked for in an element with this tag. -/
def upTo (n : TagNumber) : Tag → Bool
  | .context _ m => m ≤ n
  | _ => false

/-- A reader of one field, and the elements written for it. Their tags are among `own`. An element
that follows must not be among `claimed`, or an absent field would take it. -/
structure Slot [Checked β] (read : Fields β) (elements : β → List Element)
    (own claimed : Tag → Bool) : Prop where
  tagged (b : β) : ∀ e ∈ elements b, own e.tag = true
  complete {b : β} {rest : List Element} (hb : Valid b)
    (hlength : ∀ e ∈ elements b, e.content.length ≤ maxLength)
    (hrest : ∀ e ∈ rest, claimed e.tag = false) : read (elements b ++ rest) = some (b, rest)
  sound {es rest : List Element} {b : β} (h : read es = some (b, rest)) :
    Valid b ∧ Tidies .sequence (Element.encodeAll es) (Element.encodeAll (elements b ++ rest))

/-- A reader of the last fields of a record of which something is `known`, and the elements written
for these fields. -/
structure Reads (known : R → Prop) (read : Fields R) (elements : R → List Element)
    (valid : R → Prop) (own : Tag → Bool) : Prop where
  tagged (r : R) : ∀ e ∈ elements r, own e.tag = true
  complete {r : R} (hr : known r) (hv : valid r)
    (hlength : ∀ e ∈ elements r, e.content.length ≤ maxLength) : read (elements r) = some (r, [])
  sound {es rest : List Element} {r : R} (h : read es = some (r, rest)) :
    known r ∧ valid r ∧
      Tidies .sequence (Element.encodeAll es) (Element.encodeAll (elements r ++ rest))

theorem slot_required [Encoding α] [Checked α] [LawfulEncoding α] :
    Slot (required : Fields α) (fun a => [Encoding.toElement a]) (Encoding.accepts α)
      (fun _ => false) where
  tagged a e he := by
    rw [List.mem_singleton.1 he]
    exact LawfulEncoding.accepts_toElement a
  complete {a rest} ha hlength _ := by
    have helement := LawfulEncoding.ofElement?_toElement ha (hlength _ (List.mem_singleton.2 rfl))
    rw [List.singleton_append, required_cons, helement]
    rfl
  sound {es rest a} h := by
    obtain ⟨e, rfl, ha⟩ := required_eq_some_iff.1 h
    obtain ⟨hvalid, htidy⟩ := LawfulEncoding.of_ofElement? ha
    exact ⟨hvalid, .inside (by decide) htidy _⟩

theorem slot_wrapped [Encoding α] [Checked α] [LawfulEncoding α] (n : TagNumber) :
    Slot (wrapped n : Fields α) (fun a => [wrap n a]) (fun t => t = .context true n)
      (fun _ => false) where
  tagged a e he := by
    rw [List.mem_singleton.1 he]
    exact decide_eq_true rfl
  complete {a rest} ha hlength _ := by
    have hread := decode?_encode ha (hlength (wrap n a) (List.mem_singleton.2 rfl))
    exact wrapped_eq_some_iff.2 ⟨encode a, rfl, hread⟩
  sound {es rest a} h := by
    obtain ⟨content, rfl, hread⟩ := wrapped_eq_some_iff.1 h
    obtain ⟨hvalid, htidy⟩ := of_decode? hread
    have helement : (Element.mk (.context true n) content).Tidies (wrap n a) := ⟨rfl, htidy.tidies⟩
    exact ⟨hvalid, .inside (by decide) helement _⟩

theorem optional_cons [Encoding α] (e : Element) (es : List Element) :
    (optional : Fields (Option α)) (e :: es) =
      if Encoding.accepts α e.tag then (Encoding.ofElement? e).map fun a => (some a, es)
      else some (none, e :: es) := rfl

theorem slot_optional [Encoding α] [Checked α] [LawfulEncoding α] :
    Slot (optional : Fields (Option α)) optionalElements (Encoding.accepts α)
      (Encoding.accepts α) where
  tagged o e he := by
    obtain ⟨a, -, rfl⟩ := List.mem_map.1 he
    exact LawfulEncoding.accepts_toElement a
  complete {o rest} ho hlength hrest := by
    cases o with
    | none =>
      cases rest with
      | nil => rfl
      | cons e es =>
        have he := hrest e List.mem_cons_self
        simp [optionalElements, optional, he]
    | some a =>
      have ha := hlength (Encoding.toElement a) (by simp [optionalElements])
      have helement := LawfulEncoding.ofElement?_toElement (ho a rfl) ha
      simp [optionalElements, optional, helement, LawfulEncoding.accepts_toElement]
  sound {es rest o} h := by
    cases es with
    | nil =>
      cases h
      exact ⟨by simp, .refl⟩
    | cons e es =>
      rw [optional_cons] at h
      split at h
      · obtain ⟨a, ha, heq⟩ := Option.map_eq_some_iff.1 h
        cases heq
        obtain ⟨hvalid, htidy⟩ := LawfulEncoding.of_ofElement? ha
        exact ⟨by simpa using hvalid, .inside (by decide) htidy _⟩
      · cases h
        exact ⟨by simp, .refl⟩

theorem isBelow_of_upTo {n : TagNumber} {e : Element} (h : upTo n e.tag = false) :
    isBelow n e = false := by
  unfold isBelow
  split
  next c m htag =>
    rw [htag] at h
    have hle : ¬m ≤ n := of_decide_eq_false h
    exact decide_eq_false fun hlt => hle (Fin.le_of_lt hlt)
  next => rfl

theorem tagged_absent {n : TagNumber} {es : List Element}
    (h : ∀ e ∈ es.head?, upTo n e.tag = false) : tagged n es = some (none, es) := by
  cases es with
  | nil => rfl
  | cons e es =>
    have he := h e rfl
    rw [tagged, List.dropWhile_cons_of_neg (by simp [isBelow_of_upTo he])]
    dsimp only
    split
    next c m htag =>
      rw [htag] at he
      have hne : m ≠ n := by
        rintro rfl
        simp [upTo] at he
      rw [if_neg hne]
    next => rfl

theorem tagged_present {n : TagNumber} {constructed : Bool} {content : Bytes} {es : List Element} :
    tagged n (⟨.context constructed n, content⟩ :: es) = some (some (constructed, content), es) := by
  simp [tagged, isBelow]

/-- An element that is taken has the tag; elements passed over are dropped. -/
theorem tagged_sound {n : TagNumber} {es rest : List Element} {o : Option (Bool × Bytes)}
    (h : tagged n es = some (o, rest)) :
    Tidies .sequence (Element.encodeAll es)
      (Element.encodeAll ((o.toList.map fun field => ⟨.context field.1 n, field.2⟩) ++ rest)) := by
  have hpassed : ∀ e ∈ es.takeWhile (isBelow n), e.Omitted :=
    fun e he => .passed (List.all_eq_true.1 List.all_takeWhile e he)
  have hdrop : Tidies .sequence (Element.encodeAll es)
      (Element.encodeAll (es.dropWhile (isBelow n))) := by
    have hall := Tidies.drop hpassed (Element.encodeAll (es.dropWhile (isBelow n)))
    rwa [← Element.encodeAll_append, List.takeWhile_append_dropWhile] at hall
  unfold tagged at h
  split at h
  next hes =>
    rw [hes] at hdrop
    cases h
    exact hdrop
  next e tail hes =>
    rw [hes] at hdrop
    split at h
    next c m htag =>
      split at h
      next hmn =>
        cases h
        subst hmn
        obtain ⟨tag, content⟩ := e
        cases htag
        exact hdrop
      next =>
        cases h
        exact hdrop
    next =>
      cases h
      exact hdrop

/-- An optional field `[n]`, by what is made of its constructed bit and its contents. -/
def taggedWith (n : TagNumber) (ofTagged? : Bool → Bytes → Option α) : Fields (Option α) := do
  match ← tagged n with
  | none => return none
  | some (constructed, content) => some <$> ofTagged? constructed content

theorem explicit_eq [Encoding α] (n : TagNumber) :
    (explicit n : Fields (Option α)) =
      taggedWith n fun constructed content => if constructed then decode? content else none := by
  refine congrArg (tagged n >>= ·) (funext fun field => ?_)
  rcases field with _ | ⟨_ | _, content⟩
  · rfl
  · rfl
  · rfl

theorem implicit_eq [Content α] (n : TagNumber) :
    (implicit n : Fields (Option α)) = taggedWith n fun constructed content =>
      if constructed = (Content.tag α).isConstructed then Content.ofContent? content else none := by
  refine congrArg (tagged n >>= ·) (funext fun field => ?_)
  rcases field with _ | ⟨constructed, content⟩
  · rfl
  · dsimp only
    split
    · rfl
    · rfl

theorem slot_taggedWith [Checked α] {n : TagNumber} {constructed : Bool} {content : α → Bytes}
    {ofTagged? : Bool → Bytes → Option α}
    (hcomplete : ∀ {a}, Valid a → (content a).length ≤ maxLength →
      ofTagged? constructed (content a) = some a)
    (hsound : ∀ {c b a}, ofTagged? c b = some a →
      Valid a ∧ c = constructed ∧ Tidies (Tag.context c n).shape b (content a)) :
    Slot (taggedWith n ofTagged?)
      (fun o => o.toList.map fun a => ⟨.context constructed n, content a⟩)
      (fun t => t = .context constructed n) (upTo n) where
  tagged o e he := by
    obtain ⟨a, -, rfl⟩ := List.mem_map.1 he
    exact decide_eq_true rfl
  complete {o rest} ho hlength hrest := by
    cases o with
    | none => exact bind_eq_some_iff.2 ⟨none, rest, tagged_absent fun e he => hrest e (List.mem_of_mem_head? he), rfl⟩
    | some a =>
      refine bind_eq_some_iff.2 ⟨some (constructed, content a), rest, tagged_present, ?_⟩
      have hread := hcomplete (ho a rfl) (hlength ⟨.context constructed n, content a⟩ (by simp))
      dsimp only
      rw [hread]
      rfl
  sound {es rest o} h := by
    obtain ⟨field, es', htagged, h⟩ := bind_eq_some_iff.1 h
    have htidy := tagged_sound htagged
    rcases field with _ | ⟨c, b⟩
    · cases h
      exact ⟨by simp, htidy⟩
    · dsimp only at h
      cases hread : ofTagged? c b with
      | none =>
        rw [hread] at h
        cases h
      | some a =>
        rw [hread] at h
        cases h
        obtain ⟨ha, rfl, hcontent⟩ := hsound hread
        have helement : (Element.mk (.context c n) b).Tidies ⟨.context c n, content a⟩ :=
          ⟨rfl, hcontent⟩
        refine ⟨by simpa using ha, htidy.trans ?_⟩
        exact Tidies.inside (by decide) helement _

theorem slot_explicit [Encoding α] [Checked α] [LawfulEncoding α] (n : TagNumber) :
    Slot (explicit n : Fields (Option α)) (explicitElements n) (fun t => t = .context true n)
      (upTo n) := by
  rw [explicit_eq]
  refine slot_taggedWith (fun ha hlength => (if_pos rfl).trans (decode?_encode ha hlength)) ?_
  intro c b a h
  obtain ⟨rfl, hread⟩ := Option.ite_none_right_eq_some.1 h
  obtain ⟨ha, htidy⟩ := of_decode? hread
  exact ⟨ha, rfl, htidy.tidies⟩

/-- A set under an implicit tag would look like a sequence. -/
theorem slot_implicit [Content α] [Checked α] [LawfulContent α] (n : TagNumber)
    (hshape : (Tag.context (Content.tag α).isConstructed n).shape = (Content.tag α).shape) :
    Slot (implicit n : Fields (Option α)) (implicitElements n)
      (fun t => t = .context (Content.tag α).isConstructed n) (upTo n) := by
  rw [implicit_eq]
  refine slot_taggedWith
    (fun ha hlength => (if_pos rfl).trans (LawfulContent.ofContent?_content ha hlength)) ?_
  intro c b a h
  obtain ⟨rfl, hread⟩ := Option.ite_none_right_eq_some.1 h
  rw [hshape]
  obtain ⟨ha, htidy⟩ := LawfulContent.of_ofContent? hread
  exact ⟨ha, rfl, htidy⟩

namespace Reads

variable {known : R → Prop} {valid : R → Prop} {read : Fields R} {elements : R → List Element}
  {own : Tag → Bool}

/-- One field and then the others. What is read tells something about the record that what is
written tells as well, and what is read tidies to what is written. -/
theorem field [Checked β] {first : Fields β} {taken : β → List Element}
    {ownFirst claimed : Tag → Bool} {next : β → Fields R} {tells : β → R → Prop} (written : R → β)
    (slot : Slot first taken ownFirst claimed)
    (rest : ∀ b, Reads (fun r => known r ∧ tells b r) (next b) elements valid own)
    (hwritten : ∀ r, tells (written r) r)
    (htidy : ∀ b r, tells b r → Valid b →
      Valid (written r) ∧ Tidies .sequence (Element.encodeAll (taken b))
        (Element.encodeAll (taken (written r))))
    (hapart : Tag.apart own claimed = true) :
    Reads known (first >>= next) (fun r => taken (written r) ++ elements r)
      (fun r => Valid (written r) ∧ valid r) (fun t => ownFirst t || own t) where
  tagged r e he := by
    rcases List.mem_append.1 he with he | he
    · rw [slot.tagged (written r) e he, Bool.true_or]
    · rw [(rest (written r)).tagged r e he, Bool.or_true]
  complete {r} hr hv hlength := by
    obtain ⟨hfirst, hlater⟩ := List.forall_mem_append.1 hlength
    -- the fields that follow do not look like this one, so none is taken for it when it is absent
    have hclaimed (e : Element) (he : e ∈ elements r) : claimed e.tag = false :=
      Tag.eq_false_of_apart hapart ((rest (written r)).tagged r e he)
    have hslot := slot.complete hv.1 hfirst hclaimed
    have hnext := (rest (written r)).complete ⟨hr, hwritten r⟩ hv.2 hlater
    exact bind_eq_some_iff.2 ⟨_, _, hslot, hnext⟩
  sound {es after r} h := by
    obtain ⟨b, es', hfirst, hnext⟩ := bind_eq_some_iff.1 h
    obtain ⟨hb, hread⟩ := slot.sound hfirst
    obtain ⟨⟨hr, htells⟩, hv, hlater⟩ := (rest b).sound hnext
    obtain ⟨hvalid, hfield⟩ := htidy b r htells hb
    refine ⟨hr, ⟨hvalid, hv⟩, ?_⟩
    rw [Element.encodeAll_append] at hread
    rw [List.append_assoc, Element.encodeAll_append]
    exact hread.trans ((hlater.afterAll (by decide) (taken b)).trans (hfield.append _))

theorem same [Checked β] {first : Fields β} {taken : β → List Element}
    {ownFirst claimed : Tag → Bool} {next : β → Fields R} (proj : R → β)
    (slot : Slot first taken ownFirst claimed)
    (rest : ∀ b, Reads (fun r => known r ∧ proj r = b) (next b) elements valid own)
    (hapart : Tag.apart own claimed = true) :
    Reads known (first >>= next) (fun r => taken (proj r) ++ elements r)
      (fun r => Valid (proj r) ∧ valid r) (fun t => ownFirst t || own t) := by
  refine field proj slot rest (fun _ => rfl) ?_ hapart
  rintro b r rfl hb
  exact ⟨hb, .refl⟩

theorem required [Encoding α] [Checked α] [LawfulEncoding α] {next : α → Fields R} (proj : R → α)
    (rest : ∀ a, Reads (fun r => known r ∧ proj r = a) (next a) elements valid own) :
    Reads known (Fields.required >>= next) (fun r => [Encoding.toElement (proj r)] ++ elements r)
      (fun r => Valid (proj r) ∧ valid r) (fun t => Encoding.accepts α t || own t) :=
  same proj slot_required rest (by simp [Tag.apart])

theorem optional [Encoding α] [Checked α] [LawfulEncoding α] {next : Option α → Fields R}
    (proj : R → Option α)
    (rest : ∀ o, Reads (fun r => known r ∧ proj r = o) (next o) elements valid own)
    (hapart : Tag.apart own (Encoding.accepts α) = true := by decide +kernel) :
    Reads known (Fields.optional >>= next) (fun r => optionalElements (proj r) ++ elements r)
      (fun r => Valid (proj r) ∧ valid r) (fun t => Encoding.accepts α t || own t) :=
  same proj slot_optional rest hapart

theorem explicit [Encoding α] [Checked α] [LawfulEncoding α] {next : Option α → Fields R}
    {n : TagNumber} (proj : R → Option α)
    (rest : ∀ o, Reads (fun r => known r ∧ proj r = o) (next o) elements valid own)
    (hapart : Tag.apart own (upTo n) = true := by decide +kernel) :
    Reads known (Fields.explicit n >>= next) (fun r => explicitElements n (proj r) ++ elements r)
      (fun r => Valid (proj r) ∧ valid r) (fun t => t = .context true n || own t) :=
  same proj (slot_explicit n) rest hapart

theorem implicit [Content α] [Checked α] [LawfulContent α] {next : Option α → Fields R}
    {n : TagNumber} (proj : R → Option α)
    (rest : ∀ o, Reads (fun r => known r ∧ proj r = o) (next o) elements valid own)
    (hapart : Tag.apart own (upTo n) = true := by decide +kernel)
    (hshape : (Tag.context (Content.tag α).isConstructed n).shape = (Content.tag α).shape := by
      rfl) :
    Reads known (Fields.implicit n >>= next) (fun r => implicitElements n (proj r) ++ elements r)
      (fun r => Valid (proj r) ∧ valid r)
      (fun t => t = .context (Content.tag α).isConstructed n || own t) :=
  same proj (slot_implicit n hshape) rest hapart

/-- A field with a default, which is not written but may be read. -/
theorem defaulted [Checked α] {first : Fields (Option α)} {taken : Option α → List Element}
    {ownFirst claimed : Tag → Bool} {next : Option α → Fields R} (proj : R → α) (default : α)
    (written : R → Option α) (slot : Slot first taken ownFirst claimed) (hnone : taken none = [])
    (hall : ∀ a : α, Valid a)
    (rest : ∀ o, Reads (fun r => known r ∧ proj r = o.getD default) (next o) elements valid own)
    (hwritten : ∀ r, proj r = (written r).getD default)
    (hdefault : ∀ r, proj r = default → written r = none)
    (homitted : ∃ e, taken (some default) = [e] ∧ e.Omitted)
    (hapart : Tag.apart own claimed = true := by decide +kernel) :
    Reads known (first >>= next) (fun r => taken (written r) ++ elements r) valid
      (fun t => ownFirst t || own t) := by
  -- others may have written the default out; then it is dropped
  have htidy (o : Option α) (r : R) (hread : proj r = o.getD default) (_ : Valid o) :
      Valid (written r) ∧
        Tidies .sequence (Element.encodeAll (taken o)) (Element.encodeAll (taken (written r))) := by
    refine ⟨fun a _ => hall a, ?_⟩
    have hr := hwritten r
    cases o with
    | none => rw [hdefault r hread]
    | some b =>
      cases hw : written r with
      | none =>
        rw [hw] at hr
        obtain rfl : b = default := hread.symm.trans hr
        obtain ⟨e, he, homit⟩ := homitted
        have hdrop := Tidies.drop (List.forall_mem_singleton.2 homit) []
        rw [hnone, he]
        rwa [List.append_nil] at hdrop
      | some a =>
        rw [hw] at hr
        obtain rfl : a = b := hr.symm.trans hread
        exact .refl
  have h := field written slot rest hwritten htidy hapart
  refine ⟨h.tagged, fun hr hv => h.complete hr ⟨fun a _ => hall a, hv⟩, fun hread => ?_⟩
  obtain ⟨hr, ⟨-, hv⟩, htidies⟩ := h.sound hread
  exact ⟨hr, hv, htidies⟩

theorem wrapped [Encoding α] [Checked α] [LawfulEncoding α] {next : α → Fields R} {n : TagNumber}
    (proj : R → α)
    (rest : ∀ a, Reads (fun r => known r ∧ proj r = a) (next a) elements valid own) :
    Reads known (Fields.wrapped n >>= next) (fun r => [wrap n (proj r)] ++ elements r)
      (fun r => Valid (proj r) ∧ valid r) (fun t => t = .context true n || own t) :=
  same proj (slot_wrapped n) rest (by simp [Tag.apart])

theorem done {a : R} (h : ∀ r, known r ↔ r = a := by rintro ⟨⟩; simp [and_assoc]) :
    Reads known (pure a) (fun _ => []) (fun _ => True) (fun _ => false) where
  tagged r e he := by cases he
  complete {r} hr _ _ := by
    rw [(h r).1 hr]
    rfl
  sound {es rest r} hread := by
    cases hread
    exact ⟨(h a).2 rfl, trivial, .refl⟩

end Reads

end Fields

theorem LawfulContent.ofFields {R : Type} [Content R] [Checked R] {read : Fields R}
    {valid : R → Prop} {elements : R → List Element} {own : Tag → Bool}
    (hread : Content.ofContent? = Fields.read? read)
    (h : Fields.Reads (fun _ => True) read elements valid own)
    (helements : ∀ r, Content.content r = Element.encodeAll (elements r) := by
      intro r
      simp only [Element.encodeAll_append, ← encode_eq, ← optionalField_eq, ← wrappedField_eq,
        ← explicitField_eq, ← implicitField_eq, ← List.append_assoc]
      exact (List.append_nil _).symm)
    (hvalid : ∀ r, Valid r ↔ valid r := by
      intro r
      simp only [and_true]
      rfl)
    (hshape : (Content.tag R).shape = .sequence := by rfl) : LawfulContent R where
  ofContent?_content {r} hr hlength := by
    rw [helements] at hlength ⊢
    rw [hread]
    refine (Fields.read?_encodeAll_iff hlength).2 ?_
    refine h.complete trivial ((hvalid r).1 hr) fun e he => ?_
    exact Nat.le_trans (Element.content_le_size he) hlength
  of_ofContent? {b r} hb := by
    rw [hread] at hb
    obtain ⟨es, hes, hfields⟩ := Fields.read?_eq_some_iff.1 hb
    obtain ⟨rfl, -⟩ := Element.readAll_eq_some_iff.1 hes
    obtain ⟨-, hv, htidy⟩ := h.sound hfields
    rw [List.append_nil] at htidy
    rw [helements, hshape]
    exact ⟨(hvalid r).2 hv, htidy⟩

end PkiEnroll.Der
