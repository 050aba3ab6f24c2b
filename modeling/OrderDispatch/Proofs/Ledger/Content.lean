import OrderDispatch.Ledger.Entry
import OrderDispatch.Proofs.Text.Bytes

/-!
# What the hash of an entry covers

The bytes that are hashed tell every field of an entry but its own reference, as long as no text in
front of them holds the zero that marks their ends:

    a and b are plain, and a.preimage = b.preimage → a and b differ at most in txRef   (preimage_inj)

Without that, a text may take the zero behind it along with the text after it, and the bytes are the
same (preimage_shift). What comes first is told in any case, since a reference has no zero byte.
-/

namespace OrderDispatch.LedgerEntry

/-- None of the texts that end with a zero byte has a zero in it. -/
structure Plain (e : LedgerEntry) : Prop where
  orderId : '\x00' ∉ e.orderId.toList
  userId : '\x00' ∉ e.userId.toList
  providerId : ∀ p, e.providerId = some p → '\x00' ∉ p.toList
  schema : '\x00' ∉ e.schema.toList

/-- The bytes about a provider. -/
def providerBytes : Option String → List UInt8
  | some provider => 1 :: Text.utf8 provider
  | none => [0]

/-- The bytes behind the height. -/
def body (e : LedgerEntry) : List UInt8 :=
  Text.littleEndian 8 e.recordedAt.toUInt64.toNat ++
  (Text.utf8 e.orderId ++ 0 ::
  (Text.utf8 e.userId ++ 0 ::
  (providerBytes e.providerId ++ 0 ::
  (Text.utf8 e.schema ++ 0 ::
  (Text.littleEndian 2 e.schemaVersion.toNat ++ Text.utf8 e.payloadHash)))))

theorem preimage_eq (e : LedgerEntry) :
    e.preimage = Text.utf8 e.prevRef ++ 0 :: (Text.littleEndian 8 e.height.toNat ++ e.body) := by
  simp only [preimage, body, List.append_assoc, List.cons_append, List.nil_append]
  rfl

/-- The reference before and the height come first. -/
theorem head_of_preimage (a b : LedgerEntry) (ha : 0 ∉ Text.utf8 a.prevRef)
    (hb : 0 ∉ Text.utf8 b.prevRef) (h : a.preimage = b.preimage) :
    a.prevRef = b.prevRef ∧ a.height = b.height ∧ a.body = b.body := by
  rw [preimage_eq, preimage_eq] at h
  obtain ⟨hprev, hrest⟩ := Text.append_zero_inj _ _ _ _ ha hb h
  obtain ⟨hheight, hbody⟩ :=
    Text.littleEndian_append_inj 8 _ _ _ _ a.height.toNat_lt b.height.toNat_lt hrest
  exact ⟨Text.utf8_inj _ _ hprev, UInt64.toNat_inj.1 hheight, hbody⟩

/-- The byte in front of a provider tells whether there is one. -/
theorem provider_of_bytes (p q : Option String) (xs ys : List UInt8)
    (hp : ∀ s, p = some s → '\x00' ∉ s.toList) (hq : ∀ s, q = some s → '\x00' ∉ s.toList)
    (h : providerBytes p ++ 0 :: xs = providerBytes q ++ 0 :: ys) : p = q ∧ xs = ys := by
  cases p with
  | none =>
    cases q with
    | none => exact ⟨rfl, (List.cons.inj (List.cons.inj h).2).2⟩
    | some t => exact absurd (List.cons.inj h).1 (by decide)
  | some s =>
    cases q with
    | none => exact absurd (List.cons.inj h).1 (by decide)
    | some t =>
      obtain ⟨htext, hrest⟩ := Text.append_zero_inj _ _ _ _
        (Text.zero_not_mem_utf8 s (hp s rfl)) (Text.zero_not_mem_utf8 t (hq t rfl))
        (List.cons.inj h).2
      exact ⟨by rw [Text.utf8_inj s t htext], hrest⟩

/-- Two plain entries with the same bytes differ at most in the reference they stand under. -/
theorem preimage_inj (a b : LedgerEntry) (ha : a.Plain) (hb : b.Plain)
    (hpa : 0 ∉ Text.utf8 a.prevRef) (hpb : 0 ∉ Text.utf8 b.prevRef)
    (h : a.preimage = b.preimage) : { a with txRef := b.txRef } = b := by
  obtain ⟨hprev, hheight, hbody⟩ := head_of_preimage a b hpa hpb h
  unfold body at hbody
  obtain ⟨htime, hbody⟩ := Text.littleEndian_append_inj 8 _ _ _ _ a.recordedAt.toUInt64.toNat_lt
    b.recordedAt.toUInt64.toNat_lt hbody
  obtain ⟨horder, hbody⟩ := Text.append_zero_inj _ _ _ _ (Text.zero_not_mem_utf8 _ ha.orderId)
    (Text.zero_not_mem_utf8 _ hb.orderId) hbody
  obtain ⟨huser, hbody⟩ := Text.append_zero_inj _ _ _ _ (Text.zero_not_mem_utf8 _ ha.userId)
    (Text.zero_not_mem_utf8 _ hb.userId) hbody
  obtain ⟨hprovider, hbody⟩ := provider_of_bytes _ _ _ _ ha.providerId hb.providerId hbody
  obtain ⟨hschema, hbody⟩ := Text.append_zero_inj _ _ _ _ (Text.zero_not_mem_utf8 _ ha.schema)
    (Text.zero_not_mem_utf8 _ hb.schema) hbody
  obtain ⟨hversion, hhash⟩ := Text.littleEndian_append_inj 2 _ _ _ _ a.schemaVersion.toNat_lt
    b.schemaVersion.toNat_lt hbody
  have horder := Text.utf8_inj _ _ horder
  have huser := Text.utf8_inj _ _ huser
  have hschema := Text.utf8_inj _ _ hschema
  have hhash := Text.utf8_inj _ _ hhash
  have hversion := UInt16.toNat_inj.1 hversion
  have htime : a.recordedAt = b.recordedAt :=
    congrArg Int64.ofUInt64 (UInt64.toNat_inj.1 htime)
  cases a
  cases b
  simp only [LedgerEntry.mk.injEq, true_and]
  exact ⟨hprev, hheight, horder, huser, hprovider, hschema, hversion, hhash, htime⟩

/-- A zero between two texts may belong to either of them, or part them. -/
theorem preimage_shift (e : LedgerEntry) (s t u : String) :
    { e with orderId := s, userId := t ++ "\x00" ++ u }.preimage =
      { e with orderId := s ++ "\x00" ++ t, userId := u }.preimage := by
  have hzero : Text.utf8 "\x00" = [0] := by decide
  simp only [preimage, Text.utf8_append, hzero, List.append_assoc]

end OrderDispatch.LedgerEntry
