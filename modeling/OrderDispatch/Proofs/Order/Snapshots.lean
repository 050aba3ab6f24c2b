import OrderDispatch.Proofs.Order.Encoding
import OrderDispatch.Proofs.Order.Payloads

/-!
# What payloads tell

A snapshot and an offer are opened as they were packed, each double for itself. The bytes of a
snapshot tell everything of an order but its reference to the ledger, so that what is hashed is the
state of the order. A payload is opened under its own schema only.

    opening the snapshot of o gives o without its reference, if its doubles are read back
    equal bytes of two snapshots ↔ equal orders, references apart
    another schema or another version → a mismatch, whatever the bytes    (unpack_eq_mismatch_iff)

The three are one theorem, `Payload.payloads_faithful`.
-/

namespace OrderDispatch

open Binary64 (isFinite ReadsBack)

/-- What is read back is a number. -/
theorem Binary64.isFinite_of_readsBack (x : Float) (h : ReadsBack x) : isFinite x = true := by
  by_contra hfin
  rw [ReadsBack, reread?, if_neg hfin] at h
  cases h

/-! ## Snapshots -/

instance : Rereads Snapshot where
  reread? s := (Rereads.reread? s.order).map Snapshot.mk
  full s := .record [("order", Rereads.full s.order)]
  decode_full s := by
    show Option.bind _ _ = _
    simp [Json.get?, List.lookup, Rereads.decode_full]
  opens s := Json.opens_record _
  echoes s := by
    have h := Json.echoes_record _ _ _
      (.given (.required "order" (Coded.shape Order)) _ _ (Rereads.echoes s.order) .done) (by decide)
    refine Eq.mp (congrArg (Json.Echoes _ _) ?_) h
    cases Rereads.reread? s.order <;> rfl

namespace Snapshot

theorem reread?_eq (s : Snapshot) :
    Rereads.reread? s = (Rereads.reread? s.order).map Snapshot.mk := rfl

theorem reread?_eq_self (s : Snapshot) :
    Rereads.reread? s = some s ↔ ∀ x ∈ s.order.doubles, ReadsBack x := by
  rw [← s.order.reread?_eq_self, reread?_eq]
  exact (Option.map_injective fun _ _ => Snapshot.mk.inj).eq_iff (b := some s.order)

theorem legible_encode (s : Snapshot) (h : ∀ x ∈ s.order.doubles, isFinite x = true) :
    (Coded.encode s).Legible :=
  .record (List.forall_mem_singleton.2 (s.order.legible_encode h))

theorem encode_injective : Function.Injective (Coded.encode : Snapshot → Json) := by
  rintro ⟨o⟩ ⟨p⟩ h
  have hfields := Json.record.inj h
  simp only [List.cons.injEq, Prod.mk.injEq, true_and, and_true] at hfields
  rw [Order.encode_injective hfields]

end Snapshot

/-! ## Offers -/

/-- The doubles of an offer. -/
def Offer.doubles (f : Offer) : List Float :=
  f.pickup.doubles ++ f.destination.doubles ++ [f.totalPrice, f.providerFee]

theorem Offer.reread?_eq_self (f : Offer) :
    Rereads.reread? f = some f ↔ ∀ x ∈ f.doubles, ReadsBack x := by
  have hparts : Rereads.reread? f = some f ↔ Rereads.reread? f.pickup = some f.pickup ∧
      Rereads.reread? f.destination = some f.destination ∧ ReadsBack f.totalPrice ∧
      ReadsBack f.providerFee := by
    rw [reread?_offer_eq]
    obtain ⟨_, _, pickup, destination, _, totalPrice, providerFee, _⟩ := f
    simp only [ReadsBack]
    cases Rereads.reread? pickup <;> cases Rereads.reread? destination <;>
      cases Binary64.reread? totalPrice <;> cases Binary64.reread? providerFee <;> simp
  rw [hparts, Location.reread?_eq_self, Location.reread?_eq_self]
  simp only [doubles, List.forall_mem_append, List.forall_mem_cons, List.not_mem_nil,
    false_imp_iff, implies_true, and_true, and_assoc]

/-- An offer whose doubles are numbers is opened. -/
theorem Offer.exists_reread? (f : Offer) (h : ∀ x ∈ f.doubles, isFinite x = true) :
    ∃ f', Rereads.reread? f = some f' := by
  simp only [doubles, Location.doubles, List.forall_mem_append, List.forall_mem_cons,
    List.not_mem_nil, false_imp_iff, implies_true, and_true] at h
  obtain ⟨⟨hpickup, hdestination⟩, htotal, hfee⟩ := h
  obtain ⟨pickup, hpickup, -⟩ := f.pickup.reread?_isFinite ⟨hpickup.1, hpickup.2⟩
  obtain ⟨destination, hdestination, -⟩ :=
    f.destination.reread?_isFinite ⟨hdestination.1, hdestination.2⟩
  obtain ⟨totalPrice, htotal, -⟩ := Binary64.reread?_isFinite _ htotal
  obtain ⟨providerFee, hfee, -⟩ := Binary64.reread?_isFinite _ hfee
  refine ⟨{ f with pickup, destination, totalPrice, providerFee }, ?_⟩
  rw [reread?_offer_eq]
  simp only [hpickup, hdestination, htotal, hfee]
  rfl

/-! ## Payloads -/

namespace Payload

/-- A payload is refused for its schema just if it is of another one, whatever its bytes are. -/
theorem unpack_eq_mismatch_iff (α : Type) [Versioned α] (p : Payload) :
    p.unpack α = .error (.schemaMismatch (Versioned.schema α) (Versioned.version α) p.schema
        p.schemaVersion) ↔
      (p.schema, p.schemaVersion) ≠ (Versioned.schema α, Versioned.version α) := by
  rw [ne_eq, Prod.mk.injEq, not_and_or]
  unfold unpack
  split
  · next hother => exact iff_of_true rfl hother
  · next hsame =>
    refine iff_of_false ?_ hsame
    cases Text.ofUtf8? p.bytes with
    | none => rintro ⟨⟩
    | some text =>
      simp only
      cases (Coded.read text : Except Json.Problem α) <;> rintro ⟨⟩

/-- The bytes of a payload tell the text that was packed. -/
theorem bytes_pack_inj {α : Type} [Versioned α] (a b : α) :
    (pack a).bytes = (pack b).bytes ↔ Coded.render a = Coded.render b :=
  ⟨Text.utf8_inj _ _, congrArg Text.utf8⟩

theorem bytes_pack_snapshot_inj (s t : Snapshot) (hs : ∀ x ∈ s.order.doubles, isFinite x = true)
    (ht : ∀ x ∈ t.order.doubles, isFinite x = true) : (pack s).bytes = (pack t).bytes ↔ s = t := by
  rw [bytes_pack_inj, ← Snapshot.encode_injective.eq_iff]
  exact Json.render_inj _ _ (s.legible_encode hs) (t.legible_encode ht)

/-- Payloads tell what was packed. The snapshot of an order is opened as the order without its
reference to the ledger, and an offer as itself, just if their doubles are read back, each for
itself; if they are numbers, the order differs in nothing but places, items and amounts. Two orders
whose doubles are numbers have the same bytes for a snapshot just if they agree in everything but
their references, in their doubles bit for bit. A payload is refused for its schema just if the name
or the version is not exactly the one that is asked for, whatever its bytes are. -/
theorem payloads_faithful :
    (∀ o : Order,
      ((pack (Snapshot.ofOrder o)).unpack Snapshot = .ok ⟨{ o with ledgerRef := none }⟩ ↔
        ∀ x ∈ o.doubles, ReadsBack x) ∧
      ((∀ x ∈ o.doubles, isFinite x = true) → ∃ o' : Order,
        (pack (Snapshot.ofOrder o)).unpack Snapshot =
          .ok ⟨({ o with ledgerRef := none } : Order).withFigures o'⟩)) ∧
    (∀ f : Offer, ((pack f).unpack Offer = .ok f ↔ ∀ x ∈ f.doubles, ReadsBack x) ∧
      ((∀ x ∈ f.doubles, isFinite x = true) → ∃ f', (pack f).unpack Offer = .ok f')) ∧
    (∀ o p : Order, (∀ x ∈ o.doubles, isFinite x = true) → (∀ x ∈ p.doubles, isFinite x = true) →
      ((pack (Snapshot.ofOrder o)).bytes = (pack (Snapshot.ofOrder p)).bytes ↔
        ({ o with ledgerRef := none } : Order) = { p with ledgerRef := none })) ∧
    ∀ (α : Type) [Versioned α] (p : Payload),
      p.unpack α = .error (.schemaMismatch (Versioned.schema α) (Versioned.version α) p.schema
          p.schemaVersion) ↔
        (p.schema, p.schemaVersion) ≠ (Versioned.schema α, Versioned.version α) := by
  refine ⟨fun o => ⟨?_, fun hfin => ?_⟩, fun f => ⟨?_, fun hfin => ?_⟩, fun o p ho hp => ?_,
    unpack_eq_mismatch_iff⟩
  · exact (unpack_pack_eq_ok_iff _ _).trans (Snapshot.reread?_eq_self _)
  · obtain ⟨o', hread, -⟩ := Order.reread?_isFinite { o with ledgerRef := none }
      ((Order.isFinite_iff _).2 hfin)
    have hwhole : Rereads.reread? (Snapshot.ofOrder o) =
        some ⟨({ o with ledgerRef := none } : Order).withFigures o'⟩ := by
      rw [Snapshot.reread?_eq, Snapshot.ofOrder, hread, Option.map_some, ← reread?_order _ o' hread]
    exact ⟨o', (unpack_pack_eq_ok_iff _ _).2 hwhole⟩
  · exact (unpack_pack_eq_ok_iff f f).trans f.reread?_eq_self
  · obtain ⟨f', hread⟩ := f.exists_reread? hfin
    exact ⟨f', (unpack_pack_eq_ok_iff f f').2 hread⟩
  · rw [bytes_pack_snapshot_inj (.ofOrder o) (.ofOrder p) ho hp]
    exact Eq.to_iff (Snapshot.mk.injEq _ _)

/-- An order that has just been placed. -/
def supper : Order where
  id := "o-1"
  userId := "u-1"
  providerId := none
  kind := .foodDelivery
  status := .created
  pickup := .ofPoint ⟨1, 2⟩
  destination := .ofPoint ⟨3, 4⟩
  items := [⟨"i-1", "rice \"plain\"", 2, 10.5, .empty⟩]
  totalPrice := 21
  platformFee := 2.1
  providerFee := 16.8
  paymentMethod := .cash
  ledgerRef := none
  notes := none
  history := [⟨.created, "u-1", "Order created", 5⟩]
  createdAt := 5
  updatedAt := 5

/-- The order is told from one with an empty note, but not from the same one with a reference. -/
theorem payloads_faithful_supper :
    (∀ x ∈ supper.doubles, isFinite x = true ∧ ReadsBack x) ∧
      (pack (Snapshot.ofOrder supper)).unpack Snapshot = .ok ⟨{ supper with ledgerRef := none }⟩ ∧
      (pack (Offer.ofOrder supper)).unpack Offer = .ok (Offer.ofOrder supper) ∧
      (pack (Snapshot.ofOrder supper)).bytes =
        (pack (Snapshot.ofOrder { supper with ledgerRef := some "tx-1" })).bytes ∧
      (pack (Snapshot.ofOrder supper)).bytes ≠
        (pack (Snapshot.ofOrder { supper with notes := some "" })).bytes := by
  have hback : ∀ x ∈ supper.doubles, ReadsBack x := by
    unfold ReadsBack
    decide +kernel
  have hfin : ∀ x ∈ supper.doubles, isFinite x = true :=
    fun x hx => Binary64.isFinite_of_readsBack x (hback x hx)
  have hoffer : ∀ x ∈ (Offer.ofOrder supper).doubles, ReadsBack x := by
    unfold ReadsBack
    decide +kernel
  obtain ⟨hsnapshot, hoffers, hbytes, -⟩ := payloads_faithful
  have hreference := (hbytes supper { supper with ledgerRef := some "tx-1" } hfin hfin).2 rfl
  have hnote := hbytes supper { supper with notes := some "" } hfin hfin
  refine ⟨fun x hx => ⟨hfin x hx, hback x hx⟩, (hsnapshot supper).1.2 hback,
    (hoffers (Offer.ofOrder supper)).1.2 hoffer, hreference, fun h => ?_⟩
  cases congrArg Order.notes (hnote.1 h)

end Payload

end OrderDispatch
