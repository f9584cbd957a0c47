import Mathlib.Data.List.Forall2
import PkiEnroll.Proofs.Der.Fields
import PkiEnroll.Proofs.Der.Tidy

namespace PkiEnroll.Der

namespace Tag

def all : List Tag :=
  let both (tag : Bool → TagNumber → Tag) :=
    (List.finRange 31).flatMap fun n => [tag false n, tag true n]
  Universal.all.map universal ++ both application ++ both context ++ both privateUse

theorem mem_all (t : Tag) : t ∈ all := by
  cases t with
  | universal u => cases u <;> simp [all, Universal.all]
  | application c n => cases c <;> simp [all]
  | context c n => cases c <;> simp [all]
  | privateUse c n => cases c <;> simp [all]

/-- Whether no tag is among both. -/
def apart (tags others : Tag → Bool) : Bool := all.all fun t => !(tags t && others t)

theorem eq_false_of_apart {tags others : Tag → Bool} (h : apart tags others = true) {t : Tag}
    (ht : tags t = true) : others t = false := by
  have hboth := List.all_eq_true.1 h t (mem_all t)
  simpa [ht] using hboth

end Tag

theorem mapM_eq_some_iff {α β : Type} {f : α → Option β} {as : List α} {bs : List β} :
    as.mapM f = some bs ↔ List.Forall₂ (fun a b => f a = some b) as bs := by
  induction as generalizing bs with
  | nil =>
    rw [List.mapM_nil, List.forall₂_nil_left_iff]
    exact ⟨fun h => (Option.some.inj h).symm, fun h => by rw [h]; rfl⟩
  | cons a as ih =>
    rw [List.mapM_cons, Option.bind_eq_bind, Option.bind_eq_some_iff, List.forall₂_cons_left_iff]
    constructor
    · rintro ⟨b, hb, h⟩
      obtain ⟨bs, hbs, h⟩ := Option.bind_eq_some_iff.1 h
      cases h
      exact ⟨b, bs, hb, ih.1 hbs, rfl⟩
    · rintro ⟨b, bs, hb, hbs, rfl⟩
      exact ⟨b, hb, Option.bind_eq_some_iff.2 ⟨bs, ih.2 hbs, rfl⟩⟩

/-- Which values of a type can stand in an encoding. -/
class Checked (α : Type) where
  Valid : α → Prop

export Checked (Valid)

/-- Values are read back from their elements, and what is read tidies to what is written. -/
class LawfulEncoding (α : Type) [Encoding α] [Checked α] : Prop where
  accepts_toElement (a : α) : Encoding.accepts α (Encoding.toElement a).tag = true
  ofElement?_toElement {a : α} (ha : Valid a)
    (hlength : (Encoding.toElement a).content.length ≤ maxLength) :
    Encoding.ofElement? (Encoding.toElement a) = some a
  of_ofElement? {e : Element} {a : α} (h : Encoding.ofElement? e = some a) :
    Valid a ∧ e.Tidies (Encoding.toElement a)

/-- The same for the contents of types with a tag of their own. -/
class LawfulContent (α : Type) [Content α] [Checked α] : Prop where
  ofContent?_content {a : α} (ha : Valid a) (hlength : (Content.content a).length ≤ maxLength) :
    Content.ofContent? (Content.content a) = some a
  of_ofContent? {b : Bytes} {a : α} (h : Content.ofContent? b = some a) :
    Valid a ∧ Tidies (Content.tag α).shape b (Content.content a)

instance {α : Type} [Content α] [Checked α] [LawfulContent α] : LawfulEncoding α where
  accepts_toElement a := decide_eq_true rfl
  ofElement?_toElement ha hlength :=
    (if_pos rfl).trans (LawfulContent.ofContent?_content ha hlength)
  of_ofElement? h := by
    obtain ⟨htag, hcontent⟩ := Option.ite_none_right_eq_some.1 h
    obtain ⟨hvalid, htidy⟩ := LawfulContent.of_ofContent? hcontent
    exact ⟨hvalid, .of_content htag htidy⟩

instance {α : Type} [Checked α] : Checked (Option α) := ⟨fun o => ∀ a ∈ o, Valid a⟩
instance {α : Type} [Checked α] : Checked (List α) := ⟨fun as => ∀ a ∈ as, Valid a⟩

@[simp] theorem valid_none {α : Type} [Checked α] : Valid (none : Option α) := by
  simp [Valid]

@[simp] theorem valid_some_iff {α : Type} [Checked α] {a : α} : Valid (some a) ↔ Valid a := by
  simp [Valid]

@[simp] theorem valid_nil {α : Type} [Checked α] : Valid ([] : List α) := by
  simp [Valid]

instance : Checked Element := ⟨fun _ => True⟩

instance : LawfulEncoding Element where
  accepts_toElement _ := rfl
  ofElement?_toElement _ _ := rfl
  of_ofElement? h := by
    obtain rfl := Option.some.inj h
    exact ⟨trivial, rfl, .refl⟩

namespace Element

abbrev size (es : List Element) : Nat := (encodeAll es).length

theorem encodeAll_append (es fs : List Element) :
    encodeAll (es ++ fs) = encodeAll es ++ encodeAll fs :=
  List.flatMap_append

theorem size_cons (e : Element) (es : List Element) :
    size (e :: es) = e.encode.length + size es := by
  rw [size, encodeAll_cons, List.length_append]

theorem content_le_size {e : Element} {es : List Element} (h : e ∈ es) :
    e.content.length ≤ size es := by
  induction es with
  | nil => cases h
  | cons f es ih =>
    rw [size_cons]
    rcases List.mem_cons.1 h with rfl | h
    · have := content_lt_encode e
      omega
    · have := ih h
      omega

theorem readAll_encodeAll {es : List Element} (h : size es ≤ maxLength) :
    readAll (encodeAll es) = some es :=
  readAll_eq_some_iff.2 ⟨rfl, fun _ he => Nat.le_trans (content_le_size he) h⟩

end Element

theorem Fields.read?_encodeAll_iff {α : Type} {fields : Fields α} {es : List Element} {a : α}
    (h : Element.size es ≤ maxLength) :
    read? fields (Element.encodeAll es) = some a ↔ fields es = some (a, []) := by
  rw [read?_eq_some_iff, Element.readAll_encodeAll h]
  simp

section

variable {α : Type}

theorem length_content_le [Content α] (a : α) : (Content.content a).length ≤ (encode a).length :=
  Nat.le_of_lt (Element.content_lt_encode (Encoding.toElement a))

theorem length_le_content_list [Encoding α] {as : List α} {a : α} (h : a ∈ as) :
    (encode a).length ≤ (Content.content as).length := by
  obtain ⟨before, after, rfl⟩ := List.append_of_mem h
  simp only [Content.content, List.flatMap_append, List.flatMap_cons, List.length_append]
  omega

theorem length_le_explicitField [Encoding α] (n : TagNumber) (a : α) :
    (encode a).length ≤ (explicitField n (some a)).length :=
  Nat.le_of_lt (Element.content_lt_encode (wrap n a))

theorem length_le_explicitField_list [Encoding α] {n : TagNumber} {o : Option (List α)} {a : α}
    (h : a ∈ o.getD []) : (encode a).length ≤ (explicitField n o).length := by
  cases o with
  | none => cases h
  | some as =>
    have hlist : (encode a).length ≤ (encode as).length :=
      Nat.le_trans (length_le_content_list h) (length_content_le as)
    exact Nat.le_trans hlist (length_le_explicitField n as)

theorem valid_of_mem_getD [Checked α] {o : Option (List α)} {a : α} (ho : Valid o)
    (h : a ∈ o.getD []) : Valid a := by
  cases o with
  | none => cases h
  | some as => exact ho as rfl a h

end

section

variable {α : Type} [Encoding α] [Checked α] [LawfulEncoding α]

theorem decode?_encode {a : α} (ha : Valid a) (h : (encode a).length ≤ maxLength) :
    decode? (encode a) = some a := by
  refine Option.bind_eq_some_iff.2 ⟨_, Element.ofBytes?_eq_some_iff.2 ⟨rfl, h⟩, ?_⟩
  refine LawfulEncoding.ofElement?_toElement ha ?_
  exact Nat.le_trans (Nat.le_of_lt (Element.content_lt_encode _)) h

omit [Checked α] [LawfulEncoding α] in
theorem decode?_encode_element {e : Element} (h : e.encode.length ≤ maxLength) :
    (decode? e.encode : Option α) = Encoding.ofElement? e := by
  rw [decode?, Element.ofBytes?_eq_some_iff.2 ⟨rfl, h⟩]
  rfl

theorem ofContent?_of_decode?_encode {β : Type} [Content β] {a a' : β} (h : decode? (encode a) = some a') :
    (encode a).length ≤ maxLength ∧ Content.ofContent? (Content.content a) = some a' := by
  obtain ⟨e, he, -⟩ := Option.bind_eq_some_iff.1 h
  obtain ⟨-, hlength⟩ := Element.ofBytes?_eq_some_iff.1 he
  have hread : Encoding.ofElement? (Encoding.toElement a) = some a' :=
    (decode?_encode_element hlength).symm.trans h
  obtain ⟨-, hread⟩ := Option.ite_none_right_eq_some.1 hread
  exact ⟨hlength, hread⟩

theorem encode_inj {a b : α} (ha : Valid a) (hb : Valid b) (hlength : (encode a).length ≤ maxLength)
    (h : encode a = encode b) : a = b := by
  have hread := decode?_encode ha hlength
  rw [h, decode?_encode hb (h ▸ hlength)] at hread
  exact (Option.some.inj hread).symm

theorem of_decode? {b : Bytes} {a : α} (h : decode? b = some a) :
    Valid a ∧ TidiesTo b (encode a) := by
  obtain ⟨e, he, ha⟩ := Option.bind_eq_some_iff.1 h
  obtain ⟨rfl, -⟩ := Element.ofBytes?_eq_some_iff.1 he
  obtain ⟨hvalid, htidy⟩ := LawfulEncoding.of_ofElement? ha
  exact ⟨hvalid, e, Encoding.toElement a, rfl, rfl, htidy⟩

/-- A byte string is the one that is written for what is read of it, unless it can be tidied without a
change of that. -/
theorem encode_eq_iff_of_decode? {b : Bytes} {a : α} (h : decode? b = some a) :
    encode a = b ↔ ∀ b', TidiesTo b b' → decode? b' = some a → b' = b := by
  obtain ⟨hvalid, htidy⟩ := of_decode? h
  obtain ⟨e, he, -⟩ := Option.bind_eq_some_iff.1 h
  obtain ⟨-, hbounded⟩ := Element.ofBytes?_eq_some_iff.1 he
  constructor
  · intro hsame b' hother hread
    have hback : TidiesTo b' b := hsame ▸ (of_decode? hread).2
    exact hback.antisymm hother
  · intro hall
    exact hall _ htidy (decode?_encode hvalid (Nat.le_trans htidy.tidies.length_le hbounded))

omit [Checked α] [LawfulEncoding α] in
theorem content_list (as : List α) :
    Content.content as = Element.encodeAll (as.map Encoding.toElement) := by
  rw [Element.encodeAll, List.flatMap_map]
  rfl

theorem mapM_ofElement?_toElement {as : List α} (has : Valid as)
    (h : ∀ a ∈ as, (Encoding.toElement a).content.length ≤ maxLength) :
    (as.map Encoding.toElement).mapM (Encoding.ofElement? : Element → Option α) = some as := by
  refine mapM_eq_some_iff.2 (List.forall₂_map_left_iff.2 (List.forall₂_same.2 fun a ha => ?_))
  exact LawfulEncoding.ofElement?_toElement (has a ha) (h a ha)

theorem of_mapM_ofElement? {s : Shape} (hs : s ≠ .primitive) {es : List Element} {as : List α}
    (h : es.mapM (Encoding.ofElement? : Element → Option α) = some as) :
    Valid as ∧ Tidies s (Element.encodeAll es) (Content.content as) := by
  rw [mapM_eq_some_iff] at h
  rw [content_list]
  induction h with
  | nil => exact ⟨by simp, .refl⟩
  | cons ha _ ih =>
    obtain ⟨hfirst, htidy⟩ := LawfulEncoding.of_ofElement? ha
    obtain ⟨hvalid, htidies⟩ := ih
    refine ⟨List.forall_mem_cons.2 ⟨hfirst, hvalid⟩, ?_⟩
    exact (Tidies.inside hs htidy _).trans (htidies.after hs _)

theorem length_of_mapM_ofElement? {es : List Element} {as : List α}
    (hes : ∀ e ∈ es, e.content.length ≤ maxLength)
    (h : es.mapM (Encoding.ofElement? : Element → Option α) = some as) :
    ∀ a ∈ as, (Encoding.toElement a).content.length ≤ maxLength := by
  rw [mapM_eq_some_iff] at h
  induction h with
  | nil => simp
  | cons ha _ ih =>
    obtain ⟨he, hes⟩ := List.forall_mem_cons.1 hes
    obtain ⟨-, -, htidy⟩ := LawfulEncoding.of_ofElement? ha
    exact List.forall_mem_cons.2 ⟨Nat.le_trans htidy.length_le he, ih hes⟩

instance : LawfulContent (List α) where
  ofContent?_content {as} has hlength := by
    rw [content_list] at hlength ⊢
    refine Option.bind_eq_some_iff.2 ⟨_, Element.readAll_encodeAll hlength, ?_⟩
    refine mapM_ofElement?_toElement has fun a ha => ?_
    exact Nat.le_trans (Element.content_le_size (List.mem_map_of_mem ha)) hlength
  of_ofContent? {b as} h := by
    obtain ⟨es, hes, hmap⟩ := Option.bind_eq_some_iff.1 h
    obtain ⟨rfl, -⟩ := Element.readAll_eq_some_iff.1 hes
    exact of_mapM_ofElement? (s := .sequence) (by decide) hmap

end

section

variable {α β : Type} {alternative : α → β} {b : β}

theorem map_ofElement? [Encoding α] [Checked α] [LawfulEncoding α] {a : α} (ha : Valid a)
    (h : (Encoding.toElement a).content.length ≤ maxLength) :
    alternative <$> (Encoding.ofElement? (Encoding.toElement a) : Option α) = some (alternative a) :=
  congrArg (Functor.map alternative) (LawfulEncoding.ofElement?_toElement ha h)

theorem of_map_ofElement? [Encoding α] [Checked α] [LawfulEncoding α] {e : Element}
    (h : alternative <$> (Encoding.ofElement? e : Option α) = some b) :
    ∃ a, alternative a = b ∧ Valid a ∧ e.Tidies (Encoding.toElement a) := by
  obtain ⟨a, ha, hb⟩ := Option.map_eq_some_iff.1 h
  exact ⟨a, hb, LawfulEncoding.of_ofElement? ha⟩

theorem map_ofContent? [Content α] [Checked α] [LawfulContent α] {a : α} (ha : Valid a)
    (h : (Content.content a).length ≤ maxLength) :
    alternative <$> (Content.ofContent? (Content.content a) : Option α) = some (alternative a) :=
  congrArg (Functor.map alternative) (LawfulContent.ofContent?_content ha h)

theorem of_map_ofContent? [Content α] [Checked α] [LawfulContent α] {bytes : Bytes}
    (h : alternative <$> (Content.ofContent? bytes : Option α) = some b) :
    ∃ a, alternative a = b ∧ Valid a ∧
      Tidies (Content.tag α).shape bytes (Content.content a) := by
  obtain ⟨a, ha, hb⟩ := Option.map_eq_some_iff.1 h
  exact ⟨a, hb, LawfulContent.of_ofContent? ha⟩

theorem map_decode? [Encoding α] [Checked α] [LawfulEncoding α] {a : α} (ha : Valid a)
    (h : (encode a).length ≤ maxLength) :
    alternative <$> (decode? (encode a) : Option α) = some (alternative a) :=
  congrArg (Functor.map alternative) (decode?_encode ha h)

theorem of_map_decode? [Encoding α] [Checked α] [LawfulEncoding α] {bytes : Bytes}
    (h : alternative <$> (decode? bytes : Option α) = some b) :
    ∃ a, alternative a = b ∧ Valid a ∧ TidiesTo bytes (encode a) := by
  obtain ⟨a, ha, hb⟩ := Option.map_eq_some_iff.1 h
  exact ⟨a, hb, of_decode? ha⟩

end

/-- A type that is written as a value of another is read back if its conversions undo each other. -/
theorem LawfulContent.ofConversion {α β : Type} [Content α] [Checked α] [Content β] [Checked β]
    [LawfulContent β] (down : α → β) (of? : β → Option α)
    (hcontent : ∀ a, Content.content a = Content.content (down a))
    (hread : ∀ b, Content.ofContent? b = Content.ofContent? b >>= of?)
    (hvalid : ∀ a, Valid a ↔ Valid (down a)) (hof : ∀ a, of? (down a) = some a)
    (hto : ∀ {b a}, of? b = some a → down a = b)
    (htag : Content.tag α = Content.tag β := by rfl) : LawfulContent α where
  ofContent?_content {a} ha hlength := by
    rw [hcontent] at hlength ⊢
    rw [hread, LawfulContent.ofContent?_content ((hvalid a).1 ha) hlength]
    exact hof a
  of_ofContent? {bytes a} h := by
    rw [hread] at h
    obtain ⟨b, hb, ha⟩ := Option.bind_eq_some_iff.1 h
    rw [hvalid, hcontent, hto ha, htag]
    exact LawfulContent.of_ofContent? hb

end PkiEnroll.Der
