import OrderDispatch.Proofs.Order.Rows
import OrderDispatch.Store.Orders

/-!
# Stored orders

`s.Stored i o` says that the row under `i` is the text of `o`. The order that `get` finds there is
`o` read again, and every change of a stored order goes through it.

    s.update lift i change = .ok (new, t) → change old = .ok new for the order old that get finds,
    and t is s.replace i old.providerId new                           (update_eq_ok)
    two orders with one text agree on who they are and whose          (owners_of_render_eq)

The second line holds of all orders, also of those whose text is not read again: the three fields
come first in the row, and quoted texts mark their own end.
-/

namespace OrderDispatch

/-! ## One text, one owner -/

open Json in
theorem joined_field_inj (first : Bool) (name : String) (s t : String) (x y : List (List Char))
    (h : joined first (fieldText (name, .text s) :: x) =
      joined first (fieldText (name, .text t) :: y)) :
    s = t ∧ joined false x = joined false y := by
  simp only [joined, List.append_cancel_left_eq, fieldText_append, chars] at h
  exact (quoted_append_inj _ _ _ _).1 (List.cons.inj h).2

open Json in
theorem joined_name_ne (name other : String) (v w : Json) (x y : List (List Char))
    (hne : name ≠ other) :
    joined false (fieldText (name, v) :: x) ≠ joined false (fieldText (other, w) :: y) := by
  intro h
  simp only [joined, List.append_cancel_left_eq, fieldText_append] at h
  exact hne ((quoted_append_inj _ _ _ _).1 h).1

/-- The fields that come first in the row of an order. -/
theorem Order.encode_eq (o : Order) : ∃ others,
    Coded.encode o = .record (("id", .text o.id) :: ("user_id", .text o.userId) ::
      (optionalTextField "provider_id" o.providerId ++
        ("order_type", Coded.encode o.kind) :: others)) := by
  have h : Coded.encode o = .record (_ ++ _ ++ _ ++ _ ++ _ ++ _) := rfl
  simp only [List.append_assoc, List.cons_append, List.nil_append] at h
  exact ⟨_, h⟩

theorem Order.render_eq (o : Order) : ∃ others,
    (Coded.render o).toList =
      '{' :: (Json.joined true (Json.fieldText ("id", .text o.id) ::
        Json.fieldText ("user_id", .text o.userId) ::
        ((optionalTextField "provider_id" o.providerId).map Json.fieldText ++
          Json.fieldText ("order_type", Coded.encode o.kind) :: others)) ++ ['}']) := by
  obtain ⟨others, h⟩ := o.encode_eq
  refine ⟨others.map Json.fieldText, ?_⟩
  unfold Coded.render Json.render
  rw [String.toList_ofList, h, Json.chars_record]
  simp

/-- Two orders with one text have one identifier, one user and one provider. -/
theorem owners_of_render_eq (o p : Order) (h : Coded.render o = Coded.render p) :
    o.id = p.id ∧ o.userId = p.userId ∧ o.providerId = p.providerId := by
  obtain ⟨others, ho⟩ := o.render_eq
  obtain ⟨others', hp⟩ := p.render_eq
  rw [h, hp] at ho
  have hfields := List.append_cancel_right (List.cons.inj ho).2
  obtain ⟨hid, hfields⟩ := joined_field_inj true "id" _ _ _ _ hfields
  obtain ⟨huser, hfields⟩ := joined_field_inj false "user_id" _ _ _ _ hfields
  refine ⟨hid.symm, huser.symm, ?_⟩
  cases hop : o.providerId with
  | none =>
    cases hpp : p.providerId with
    | none => rfl
    | some b =>
      rw [hop, hpp] at hfields
      exact absurd hfields (joined_name_ne _ _ _ _ _ _ (by decide))
  | some a =>
    cases hpp : p.providerId with
    | none =>
      rw [hop, hpp] at hfields
      exact absurd hfields (joined_name_ne _ _ _ _ _ _ (by decide))
    | some b =>
      rw [hop, hpp] at hfields
      rw [(joined_field_inj false "provider_id" _ _ _ _ hfields).1]

namespace OrderStore

/-! ## Rows -/

/-- The row under an identifier is the text of this order. -/
def Stored (s : OrderStore) (i : String) (o : Order) : Prop :=
  s.orders.find? i = some (Coded.render o)

theorem contains_of_stored (s : OrderStore) (i : String) (o : Order) (h : s.Stored i o) :
    s.orders.contains i = true := by
  unfold Table.contains
  rw [h]
  rfl

theorem toOption_readRow {α : Type} [Coded α] (row : String) :
    (readRow (α := α) row).toOption = (Coded.read row : Except Json.Problem α).toOption :=
  toOption_mapError _ _

/-- What is found of a stored order is the order read again. -/
theorem get_of_stored (s : OrderStore) (i : String) (o : Order) (h : s.Stored i o) :
    (s.get i).toOption = (Rereads.reread? o).map some := by
  unfold get
  rw [h]
  show Except.toOption ((readRow _).map some) = _
  rw [toOption_map, toOption_readRow, Rereads.read_render]

/-- What is found was read from a row. -/
theorem contains_of_get (s : OrderStore) (i : String) (o : Order) (h : s.get i = .ok (some o)) :
    s.orders.contains i = true := by
  unfold get at h
  unfold Table.contains
  cases hrow : s.orders.find? i with
  | none => rw [hrow] at h; cases h
  | some row => rfl

theorem get_of_reread? (s : OrderStore) (i : String) (o o' : Order) (h : s.Stored i o)
    (hread : Rereads.reread? o = some o') : s.get i = .ok (some o') := by
  have hget := get_of_stored s i o h
  rw [hread] at hget
  cases hs : s.get i with
  | error e => rw [hs] at hget; cases hget
  | ok found => rw [hs] at hget; cases hget; rfl

theorem reread?_of_get (s : OrderStore) (i : String) (o o' : Order) (h : s.Stored i o)
    (hget : s.get i = .ok (some o')) : Rereads.reread? o = some o' := by
  have hread := get_of_stored s i o h
  rw [hget] at hread
  cases hr : Rereads.reread? o with
  | none => rw [hr] at hread; cases hread
  | some p => rw [hr] at hread; cases hread; rfl

/-- An update that succeeds changes the order that is found. -/
theorem update_eq_ok {ε : Type} (s t : OrderStore) (lift : StoreError → ε) (i : String)
    (change : Order → Except ε Order) (new : Order) (h : s.update lift i change = .ok (new, t)) :
    ∃ old, s.get i = .ok (some old) ∧ change old = .ok new ∧
      t = s.replace i old.providerId new := by
  unfold update at h
  split at h
  · cases h
  · cases h
  · next old hget =>
    split at h
    · cases h
    · next new' hchange =>
      cases h
      exact ⟨old, hget, hchange, rfl⟩

theorem update_of_get {ε : Type} (s : OrderStore) (lift : StoreError → ε) (i : String)
    (change : Order → Except ε Order) (old : Order) (h : s.get i = .ok (some old)) :
    s.update lift i change = (change old).map fun new => (new, s.replace i old.providerId new) := by
  unfold update
  simp only [h]
  cases change old <;> rfl

end OrderStore

end OrderDispatch
