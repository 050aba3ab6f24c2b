import OrderDispatch.Proofs.Order.Doubles
import OrderDispatch.Proofs.Text.Bytes

/-!
# Payloads, opened again

A payload that is opened under its own schema is read like any text that was written, so that what
is found in it is what reading makes of the value:

    (pack a).unpack finds reread? a                                  (unpack_pack)
    reread? o = some o' → reread? (ofOrder o) = some (ofOrder o')    (Offer.reread?_ofOrder)

So an offer is opened as it was packed exactly if its places and its two amounts are read back as
they are.
-/

namespace OrderDispatch

namespace Payload

/-- What is found in a payload is what is read of the value that was packed. -/
theorem unpack_pack {α : Type} [Versioned α] [Rereads α] (a : α) :
    ((pack a).unpack α).toOption = Rereads.reread? a := by
  unfold unpack pack
  rw [if_neg (by simp)]
  simp only [Text.ofUtf8?_utf8, toOption_mapError, Rereads.read_render]

theorem unpack_pack_eq_ok_iff {α : Type} [Versioned α] [Rereads α] (a b : α) :
    (pack a).unpack α = .ok b ↔ Rereads.reread? a = some b := by
  rw [eq_ok_iff, unpack_pack]

end Payload

/-! ## Offers -/

instance : Rereads Offer where
  reread? o := do
    return { o with
      pickup := ← Rereads.reread? o.pickup
      destination := ← Rereads.reread? o.destination
      totalPrice := ← Binary64.reread? o.totalPrice
      providerFee := ← Binary64.reread? o.providerFee }
  full o := .record [
    ("order_id", .text o.orderId),
    ("order_type", Rereads.full o.kind),
    ("pickup", Rereads.full o.pickup),
    ("destination", Rereads.full o.destination),
    ("items_count", .int o.itemsCount.toNat),
    ("total_price", .real o.totalPrice),
    ("provider_fee", .real o.providerFee),
    ("created_at", o.createdAt.encode)]
  decode_full o := by
    show Option.bind _ _ = _
    simp [Json.get?, List.lookup, Json.real?, Json.text?, Json.int?, Rereads.decode_full,
      Timestamp.decode?_encode]
  opens o := Json.opens_record _
  echoes o := by
    have h := Json.echoes_record _ _ _
      (.given (.required "order_id" .text) _ _ (Json.echoes_text o.orderId) <|
        .given (.required "order_type" (Coded.shape OrderKind)) _ _ (Rereads.echoes o.kind) <|
        .given (.required "pickup" (Coded.shape Location)) _ _ (Rereads.echoes o.pickup) <|
        .given (.required "destination" (Coded.shape Location)) _ _
          (Rereads.echoes o.destination) <|
        .given (.required "items_count" .word64) _ _ (echoes_word64 o.itemsCount) <|
        .given (.required "total_price" .real) _ _ (Json.echoes_real o.totalPrice) <|
        .given (.required "provider_fee" .real) _ _ (Json.echoes_real o.providerFee) <|
        .given (.required "created_at" .signed64) _ _ (Timestamp.echoes o.createdAt) .done)
      (by decide)
    refine Eq.mp (congrArg (Json.Echoes _ _) ?_) h
    cases Rereads.reread? o.pickup <;> cases Rereads.reread? o.destination <;>
      cases Binary64.reread? o.totalPrice <;> cases Binary64.reread? o.providerFee <;> rfl

theorem reread?_offer_eq (o : Offer) :
    Rereads.reread? o = (do
      return { o with
        pickup := ← Rereads.reread? o.pickup
        destination := ← Rereads.reread? o.destination
        totalPrice := ← Binary64.reread? o.totalPrice
        providerFee := ← Binary64.reread? o.providerFee }) :=
  rfl

theorem length_mapM_eq_some {α β : Type} (f : α → Option β) (xs : List α) (ys : List β)
    (h : xs.mapM f = some ys) : ys.length = xs.length := by
  induction xs generalizing ys with
  | nil =>
    cases h
    rfl
  | cons x xs ih =>
    simp only [List.mapM_cons, Option.bind_eq_bind, Option.bind_eq_some_iff] at h
    obtain ⟨y, -, zs, hzs, hys⟩ := h
    cases hys
    exact congrArg (· + 1) (ih zs hzs)

/-- The offer of an order is read back as that of the order is. -/
theorem Offer.reread?_ofOrder (o o' : Order) (h : Rereads.reread? o = some o') :
    Rereads.reread? (ofOrder o) = some (ofOrder o') := by
  rw [reread?_order_eq] at h
  simp only [Option.bind_eq_bind, Option.bind_eq_some_iff] at h
  obtain ⟨pickup, hpickup, destination, hdestination, items, hitems, totalPrice, htotal,
    platformFee, -, providerFee, hprovider, ho⟩ := h
  cases ho
  have hcount : items.length = o.items.length := length_mapM_eq_some _ _ _ hitems
  rw [reread?_offer_eq]
  simp only [ofOrder]
  rw [hpickup, hdestination, htotal, hprovider, hcount]
  rfl

end OrderDispatch
