import PkiEnroll.Proofs.Cmp.Codec

namespace PkiEnroll.Cmp

open Der

namespace Message

/-- A byte string that, when it is read at all, is the one written for its message. -/
def IsStrict (b : Bytes) : Prop := ∀ m, decode b = .ok m → encode m = .ok b

theorem isStrict_iff {b : Bytes} {m : Message} (h : decode b = .ok m) :
    IsStrict b ↔ encode m = .ok b := by
  constructor
  · intro hall
    exact hall m h
  · intro hm m' hm'
    obtain rfl : m = m' := Except.ok.inj (h.symm.trans hm')
    exact hm

instance (b : Bytes) : Decidable (IsStrict b) :=
  match h : decode b with
  | .error _ => isTrue fun _ hm => nomatch h.symm.trans hm
  | .ok _ => decidable_of_iff _ (isStrict_iff h).symm

/-- What is read tidies to what is written, which is read as the same message. So it is what is
written exactly when it cannot be tidied without a change of the message. -/
theorem decode_tidies {b : Bytes} {m : Message} (h : decode b = .ok m) :
    (∃ b', encode m = .ok b' ∧ decode b' = .ok m ∧ TidiesTo b b') ∧
      (encode m = .ok b ↔ ∀ b', TidiesTo b b' → decode b' = .ok m → b' = b) := by
  obtain ⟨hm, written, hwritten, htidy⟩ := encode_of_decode h
  have hread : decode written = .ok m := decode_of_encode hm hwritten
  refine ⟨⟨written, hwritten, hread, htidy⟩, ?_, ?_⟩
  · intro hsame b' hother hdecode
    -- the other byte string tidies to the written one too, which is where it came from
    obtain ⟨-, written', hwritten', hback⟩ := encode_of_decode hdecode
    obtain rfl : written' = b := Except.ok.inj (hwritten'.symm.trans hsame)
    exact hback.antisymm hother
  · intro hall
    rw [← hall written htidy hread]
    exact hwritten

/-- The confirmation with a field out of place is tidied by dropping the field. -/
theorem decode_tidies_loose :
    decode (looseConfirmation 0xaa) = .ok (looseMessage 0xaa) ∧
      (∃ b', encode (looseMessage 0xaa) = .ok b' ∧ decode b' = .ok (looseMessage 0xaa) ∧
        TidiesTo (looseConfirmation 0xaa) b') ∧
      ¬∀ b', TidiesTo (looseConfirmation 0xaa) b' → decode b' = .ok (looseMessage 0xaa) →
        b' = looseConfirmation 0xaa := by
  have hread : decode (looseConfirmation 0xaa) = .ok (looseMessage 0xaa) := by decide +kernel
  have hother : encode (looseMessage 0xaa) ≠ .ok (looseConfirmation 0xaa) := by decide +kernel
  obtain ⟨hwritten, hiff⟩ := decode_tidies hread
  exact ⟨hread, hwritten, mt hiff.2 hother⟩

/-- A confirmation whose sender has two common names in one relative name, the greater first. -/
def unsortedSender : Bytes :=
  [0x30, 0x27, 0x30, 0x21, 0x02, 0x01, 0x02, 0xa4, 0x18, 0x30, 0x16, 0x31, 0x14, 0x30, 0x08, 0x06,
    0x03, 0x55, 0x04, 0x03, 0x0c, 0x01, 0x62, 0x30, 0x08, 0x06, 0x03, 0x55, 0x04, 0x03, 0x0c, 0x01,
    0x61, 0xa4, 0x02, 0x30, 0x00, 0xb3, 0x02, 0x05, 0x00]

/-- A request for an extension of which it is written that it is not critical. -/
def writtenDefault : Bytes :=
  [0x30, 0x28, 0x30, 0x0b, 0x02, 0x01, 0x02, 0xa4, 0x02, 0x30, 0x00, 0xa4, 0x02, 0x30, 0x00, 0xa0,
    0x19, 0x30, 0x17, 0x30, 0x15, 0x30, 0x13, 0x02, 0x01, 0x00, 0x30, 0x0e, 0xa9, 0x0c, 0x30, 0x0a,
    0x06, 0x03, 0x55, 0x1d, 0x0f, 0x01, 0x01, 0x00, 0x04, 0x00]

/-- A field out of place, members out of order and a default that is written out are all read, and
not written as they were read. -/
theorem decode_not_strict :
    ¬IsStrict (looseConfirmation 0xaa) ∧ ¬IsStrict unsortedSender ∧ ¬IsStrict writtenDefault := by
  decide +kernel

end Message

end PkiEnroll.Cmp
