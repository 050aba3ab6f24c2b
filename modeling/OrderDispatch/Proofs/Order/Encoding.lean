import OrderDispatch.Proofs.Json.Unambiguous
import OrderDispatch.Proofs.Order.Doubles

/-!
# Orders told apart by their text

The JSON of an order tells the order, though texts and tables may be left out of it: the name of a
field that is left out is not that of any field behind it. If the doubles are numbers, the text
tells the JSON.

    Coded.encode o = Coded.encode p → o = p                             (Order.encode_injective)
    finite doubles → (Coded.render o = Coded.render p ↔ o = p)          (Order.render_inj)
-/

namespace OrderDispatch

open Function (Injective)
open Binary64 (isFinite)
open Json (Legible)

/-! ## Fields that may be left out -/

/-- A text that is there is told from one that is left out. -/
theorem optionalTextField_append_inj (name : String) (s t : Option String)
    (xs ys : List (String × Json)) (hxs : xs.lookup name = none) (hys : ys.lookup name = none)
    (h : optionalTextField name s ++ xs = optionalTextField name t ++ ys) : s = t ∧ xs = ys := by
  cases s with
  | none =>
    cases t with
    | none => exact ⟨rfl, h⟩
    | some t =>
      have hxs' : xs = (name, .text t) :: ys := h
      simp [hxs'] at hxs
  | some s =>
    cases t with
    | none =>
      have hys' : (name, .text s) :: xs = ys := h
      simp [← hys'] at hys
    | some t =>
      simp only [optionalTextField, List.cons_append, List.nil_append, List.cons.injEq,
        Prod.mk.injEq, Json.text.injEq, true_and] at h
      exact ⟨congrArg some h.1, h.2⟩

theorem lookup_optionalTextField (name other : String) (s : Option String)
    (xs : List (String × Json)) (h : other ≠ name) :
    (optionalTextField name s ++ xs).lookup other = xs.lookup other := by
  cases s with
  | none => rfl
  | some s =>
    show List.lookup other ((name, .text s) :: xs) = _
    rw [List.lookup_cons, beq_false_of_ne h]

theorem Extras.encode_injective : Injective Extras.encode := by
  intro t u h
  have hdecode := congrArg Extras.decode? h
  rw [Extras.decode?_encode, Extras.decode?_encode] at hdecode
  exact Option.some.inj hdecode

/-- A table that is left out is the empty one. -/
theorem Extras.fieldOf_injective (name : String) : Injective (Extras.fieldOf name) := by
  have hempty : ∀ t : Extras, t.entries.isEmpty = true → t = .ofList [] := by
    intro t ht
    rw [← t.ofList_entries, List.isEmpty_iff.1 ht]
  intro t u h
  unfold Extras.fieldOf at h
  split at h
  · next ht =>
    split at h
    · next hu => rw [hempty t ht, hempty u hu]
    · cases h
  · split at h
    · cases h
    · exact Extras.encode_injective (Prod.mk.inj (List.cons.inj h).1).2

/-! ## Encodings -/

section Coded

variable {α : Type} [Coded α]

/-- What is written in full can be taken back. -/
theorem Rereads.encode_injective [Rereads α] (h : ∀ a : α, Rereads.full a = Coded.encode a) :
    Injective (Coded.encode : α → Json) := by
  intro a b hab
  have hdecode := Rereads.decode_full a
  rw [h, hab, ← h, Rereads.decode_full] at hdecode
  exact (Option.some.inj hdecode).symm

theorem Coded.encode_list_injective (h : Injective (Coded.encode : α → Json)) :
    Injective (Coded.encode : List α → Json) :=
  fun _ _ hlist => h.list_map (Json.list.inj hlist)

end Coded

theorem Timestamp.encode_injective : Injective Timestamp.encode := by
  intro t u h
  have hdecode := congrArg Timestamp.decode? h
  rw [Timestamp.decode?_encode, Timestamp.decode?_encode] at hdecode
  exact Option.some.inj hdecode

theorem Location.encode_injective : Injective (Coded.encode : Location → Json) := by
  rintro ⟨_, _, _, _, _, _, info⟩ ⟨_, _, _, _, _, _, info'⟩ h
  have hfields := Json.record.inj h
  simp only [List.cons_append, List.nil_append, List.cons.injEq, Prod.mk.injEq, true_and,
    Json.real.injEq, Json.text.injEq] at hfields
  obtain ⟨rfl, rfl, rfl, rfl, rfl, rfl, hinfo⟩ := hfields
  rw [Extras.fieldOf_injective _ hinfo]

theorem OrderItem.encode_injective : Injective (Coded.encode : OrderItem → Json) := by
  rintro ⟨_, _, _, _, properties⟩ ⟨_, _, _, _, properties'⟩ h
  have hfields := Json.record.inj h
  simp only [List.cons_append, List.nil_append, List.cons.injEq, Prod.mk.injEq, true_and,
    Json.real.injEq, Json.text.injEq] at hfields
  obtain ⟨rfl, rfl, rfl, rfl, hproperties⟩ := hfields
  rw [Extras.fieldOf_injective _ hproperties]

/-- The JSON of an order is that of no other one. -/
theorem Order.encode_injective : Injective (Coded.encode : Order → Json) := by
  intro o p h
  have hfields := Json.record.inj h
  simp only [List.append_assoc, List.cons_append, List.nil_append, List.cons.injEq, Prod.mk.injEq,
    true_and, Json.text.injEq] at hfields
  obtain ⟨hid, huser, hfields⟩ := hfields
  obtain ⟨hprovider, hfields⟩ := optionalTextField_append_inj _ _ _ _ _
    (by simp [List.lookup, lookup_optionalTextField])
    (by simp [List.lookup, lookup_optionalTextField]) hfields
  simp only [List.cons.injEq, Prod.mk.injEq, true_and, Json.real.injEq] at hfields
  obtain ⟨hkind, hstatus, hpickup, hdestination, hitems, htotal, hplatform, hfee, hmethod,
    hfields⟩ := hfields
  obtain ⟨hledger, hfields⟩ := optionalTextField_append_inj _ _ _ _ _
    (by simp [List.lookup, lookup_optionalTextField])
    (by simp [List.lookup, lookup_optionalTextField]) hfields
  obtain ⟨hnotes, hfields⟩ := optionalTextField_append_inj _ _ _ _ _ rfl rfl hfields
  simp only [List.cons.injEq, Prod.mk.injEq, true_and, and_true] at hfields
  obtain ⟨hhistory, hcreated, hupdated⟩ := hfields
  have hkind := Rereads.encode_injective (fun _ => rfl) hkind
  have hstatus := Rereads.encode_injective (fun _ => rfl) hstatus
  have hmethod := Rereads.encode_injective (fun _ => rfl) hmethod
  have hpickup := Location.encode_injective hpickup
  have hdestination := Location.encode_injective hdestination
  have hitems := Coded.encode_list_injective OrderItem.encode_injective hitems
  have hhistory := Coded.encode_list_injective
    (Rereads.encode_injective (α := HistoryEntry) fun _ => rfl) hhistory
  have hcreated := Timestamp.encode_injective hcreated
  have hupdated := Timestamp.encode_injective hupdated
  obtain ⟨_, _, _, _, _, _, _, _, _, _, _, _, _, _, _, _, _⟩ := o
  obtain ⟨_, _, _, _, _, _, _, _, _, _, _, _, _, _, _, _, _⟩ := p
  simp only at *
  subst hid huser hprovider hkind hstatus hpickup hdestination hitems htotal hplatform hfee hmethod
    hledger hnotes hhistory hcreated hupdated
  rfl

/-! ## Texts -/

theorem legible_optionalTextField (name : String) (s : Option String) :
    ∀ f ∈ optionalTextField name s, Legible f.2 := by
  cases s with
  | none => nofun
  | some s =>
    intro f hf
    rw [List.mem_singleton.1 hf]
    exact .text s

theorem Extras.legible_fieldOf (name : String) (t : Extras) :
    ∀ f ∈ Extras.fieldOf name t, Legible f.2 := by
  unfold Extras.fieldOf
  split
  · nofun
  · intro f hf
    rw [List.mem_singleton.1 hf]
    refine .record fun g hg => ?_
    obtain ⟨⟨_, s⟩, -, rfl⟩ := List.mem_map.1 hg
    exact .text s

theorem Location.legible_encode (l : Location) (h : ∀ x ∈ l.doubles, isFinite x = true) :
    Legible (Coded.encode l) := by
  simp only [doubles, List.forall_mem_cons, List.not_mem_nil, false_imp_iff, implies_true,
    and_true] at h
  refine .record ?_
  simp only [List.forall_mem_append, List.forall_mem_cons, List.not_mem_nil, false_imp_iff,
    implies_true, and_true]
  exact ⟨⟨.real h.1, .real h.2, .text _, .text _, .text _, .text _⟩, Extras.legible_fieldOf _ _⟩

theorem OrderItem.legible_encode (item : OrderItem) (h : ∀ x ∈ item.doubles, isFinite x = true) :
    Legible (Coded.encode item) := by
  simp only [doubles, List.forall_mem_cons, List.not_mem_nil, false_imp_iff, implies_true,
    and_true] at h
  refine .record ?_
  simp only [List.forall_mem_append, List.forall_mem_cons, List.not_mem_nil, false_imp_iff,
    implies_true, and_true]
  exact ⟨⟨.text _, .text _, .real h.1, .real h.2⟩, Extras.legible_fieldOf _ _⟩

theorem HistoryEntry.legible_encode (e : HistoryEntry) : Legible (Coded.encode e) := by
  refine .record ?_
  simp only [List.forall_mem_cons, List.not_mem_nil, false_imp_iff, implies_true, and_true]
  exact ⟨.text _, .text _, .text _, .int _⟩

theorem Coded.legible_encode_list {α : Type} [Coded α] (as : List α)
    (h : ∀ a ∈ as, Legible (Coded.encode a)) : Legible (Coded.encode as) := by
  refine .list fun j hj => ?_
  obtain ⟨a, ha, rfl⟩ := List.mem_map.1 hj
  exact h a ha

theorem Order.legible_encode (o : Order) (h : ∀ x ∈ o.doubles, isFinite x = true) :
    Legible (Coded.encode o) := by
  simp only [doubles, List.forall_mem_append, List.forall_mem_cons, List.not_mem_nil, false_imp_iff,
    implies_true, and_true, List.mem_flatMap] at h
  obtain ⟨⟨⟨hpickup, hdestination⟩, hitems⟩, htotal, hplatform, hfee⟩ := h
  have hitem : ∀ item ∈ o.items, Legible (Coded.encode item) :=
    fun item hitem => item.legible_encode fun x hx => hitems x ⟨item, hitem, hx⟩
  refine .record ?_
  simp only [List.forall_mem_append, List.forall_mem_cons, List.not_mem_nil, false_imp_iff,
    implies_true, and_true]
  exact ⟨⟨⟨⟨⟨⟨.text _, .text _⟩, legible_optionalTextField _ _⟩,
    .text _, .text _, o.pickup.legible_encode hpickup, o.destination.legible_encode hdestination,
    Coded.legible_encode_list _ hitem, .real htotal, .real hplatform, .real hfee, .text _⟩,
    legible_optionalTextField _ _⟩, legible_optionalTextField _ _⟩,
    Coded.legible_encode_list _ fun e _ => e.legible_encode, .int _, .int _⟩

/-- The text of an order whose doubles are numbers is that of no other such order. -/
theorem Order.render_inj (o p : Order) (ho : ∀ x ∈ o.doubles, isFinite x = true)
    (hp : ∀ x ∈ p.doubles, isFinite x = true) : Coded.render o = Coded.render p ↔ o = p :=
  (Json.render_inj _ _ (o.legible_encode ho) (p.legible_encode hp)).trans
    Order.encode_injective.eq_iff

end OrderDispatch
