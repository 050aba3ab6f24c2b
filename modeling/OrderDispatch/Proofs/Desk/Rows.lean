import OrderDispatch.Proofs.Desk.Run
import OrderDispatch.Proofs.Order.Figures

/-!
# The row of one order

A step of the desk seen from a single order: its row stays, or it appears when the order is opened,
or it is read, changed and written back, by a request or by the bookkeeper (`rowMoves`). Since all
figures of an order are finite from the request on, every row can be read after every run:

    i is stored → get i finds an order                       (exists_found)

-/

namespace OrderDispatch

/-- What a step does to the row of one order. The flag tells whether its history grows. -/
inductive RowMoves (m : Moment) (s t : OrderStore) (i : String) : Bool → Prop where
  | same (row : t.orders.find? i = s.orders.find? i) : RowMoves m s t i false
  | opened (r : CreateRequest) (o : Order) (opens : r.Opens m o) (id : o.id = i)
      (fresh : s.orders.contains i = false) (stored : t.Stored i o) : RowMoves m s t i true
  | advanced (old new : Order) (found : s.get i = .ok (some old)) (moves : old.MovesOn new m.now)
      (stored : t.Stored i new) : RowMoves m s t i true
  | noted (old : Order) (txRef : String) (found : s.get i = .ok (some old))
      (stored : t.Stored i { old with ledgerRef := some txRef }) : RowMoves m s t i false

namespace OrderStore

/-- A row that is written, and the others beside it. -/
theorem row_write (s t : OrderStore) (i : String) (o : Order)
    (h : t.orders = s.orders.insert i (Coded.render o)) :
    t.Stored i o ∧ ∀ j, j ≠ i → t.orders.find? j = s.orders.find? j := by
  unfold Stored
  rw [h]
  refine ⟨by rw [Table.find?_insert, if_pos rfl], fun j hj => ?_⟩
  rw [Table.find?_insert, if_neg hj]

theorem insert_eq_ok (s t : OrderStore) (o : Order) (h : s.insert o = .ok t) :
    s.orders.contains o.id = false ∧ t.orders = s.orders.insert o.id (Coded.render o) := by
  unfold insert at h
  split at h
  · cases h
  · next hfresh =>
    cases h
    exact ⟨by simpa using hfresh, rfl⟩

theorem get_congr (s t : OrderStore) (i : String) (h : t.orders.find? i = s.orders.find? i) :
    t.get i = s.get i := by
  unfold get
  rw [h]

theorem contains_eq_of_find? (s t : OrderStore) (i : String)
    (h : t.orders.find? i = s.orders.find? i) : t.orders.contains i = s.orders.contains i := by
  unfold Table.contains
  rw [h]

end OrderStore

namespace Desk

theorem orders_of_writes (s t : OrderStore) (i : String) (old new : Order)
    (h : Writes s t i old new) : t.orders = s.orders.insert i (Coded.render new) := by
  rcases h with rfl | ⟨r, -, rfl⟩ <;> rfl

/-- What is written in place of an order and submitted stands in its row. -/
theorem stored_submit (d : Desk) (i : String) (provider : Option String) (new : Order) :
    ({ d with store := d.store.replace i provider new }.submit new).store.Stored i new := by
  rw [submit_store]
  exact (OrderStore.row_write d.store _ i new rfl).1

/-- What a step that adds to one history, or to none, does to the row of any order. -/
theorem rowMoves (m : Moment) (d d' : Desk) (grown : Option String) (h : Moves m d d' grown)
    (i : String) : RowMoves m d.store d'.store i (decide (grown = some i)) := by
  cases h with
  | idle store =>
    rw [store]
    exact .same rfl
  | reported r store =>
    rw [store]
    exact .same rfl
  | opened r o opens store =>
    obtain ⟨hfresh, horders⟩ := OrderStore.insert_eq_ok _ _ o store
    obtain ⟨hstored, hothers⟩ := OrderStore.row_write _ _ _ o horders
    by_cases hi : o.id = i
    · subst hi
      rw [decide_eq_true rfl]
      exact .opened r o opens rfl hfresh hstored
    · rw [decide_eq_false (by simpa using hi)]
      exact .same (hothers i (Ne.symm hi))
  | advanced j old new found moves store =>
    obtain ⟨hstored, hothers⟩ :=
      OrderStore.row_write _ _ j new (orders_of_writes _ _ j old new store)
    by_cases hi : j = i
    · subst hi
      rw [decide_eq_true rfl]
      exact .advanced old new found moves hstored
    · rw [decide_eq_false (by simpa using hi)]
      exact .same (hothers i (Ne.symm hi))
  | posted books =>
    have hstore : d'.store = (d.toBooks.postNext m.now m.ledgerOutage).store :=
      congrArg Books.store books
    have hposts := Books.posts_postNext m.now m.ledgerOutage d.toBooks
    generalize d.toBooks.postNext m.now m.ledgerOutage = b at hstore hposts
    rw [hstore, decide_eq_false (by simp)]
    cases hposts with
    | nothing | lost | recorded => exact .same rfl
    | noted job rest txRef ledger old waiting record found =>
      obtain ⟨hstored, hothers⟩ := OrderStore.row_write d.store
        (d.store.replace job.orderId old.providerId { old with ledgerRef := some txRef })
        job.orderId _ rfl
      by_cases hi : job.orderId = i
      · subst hi
        exact .noted old txRef found hstored
      · exact .same (hothers i (Ne.symm hi))

end Desk

/-! ## Readable rows -/

theorem Order.isFinite_movesOn (old new : Order) (now : Timestamp) (hold : old.IsFinite)
    (h : old.MovesOn new now) : new.IsFinite := by
  obtain ⟨_, _, _, _, rfl⟩ := h
  exact ⟨hold.pickup, hold.destination, hold.items, hold.totals⟩

theorem CreateRequest.isFinite_opens (r : CreateRequest) (m : Moment) (o : Order)
    (h : r.Opens m o) : o.IsFinite := by
  obtain ⟨drawn, pickup, destination, totals, hcheck, htotals, rfl⟩ := h
  exact r.isFinite_order (m.newId drawn) m.now m.later pickup destination totals hcheck htotals

namespace OrderStore

/-- Every row is the text of an order with finite figures. -/
def Readable (s : OrderStore) : Prop :=
  ∀ i, s.orders.contains i = true → ∃ o, s.Stored i o ∧ o.IsFinite

/-- What is stored is found, with finite figures. -/
theorem exists_found (s : OrderStore) (hs : s.Readable) (i : String)
    (h : s.orders.contains i = true) : ∃ o, s.get i = .ok (some o) ∧ o.IsFinite := by
  obtain ⟨o, hstored, hfin⟩ := hs i h
  obtain ⟨o', hread, hfin'⟩ := o.reread?_isFinite hfin
  exact ⟨o', get_of_reread? s i o o' hstored hread, hfin'⟩

theorem isFinite_of_get (s : OrderStore) (hs : s.Readable) (i : String) (o : Order)
    (h : s.get i = .ok (some o)) : o.IsFinite := by
  obtain ⟨o', hget, hfin⟩ := exists_found s hs i (contains_of_get s i o h)
  rw [h] at hget
  cases hget
  exact hfin

/-- Two orders with the text of one row differ in nothing but figures. -/
theorem eq_withFigures_of_stored (s : OrderStore) (hs : s.Readable) (i : String) (o p : Order)
    (ho : s.Stored i o) (hp : s.Stored i p) : p = o.withFigures p := by
  obtain ⟨q, hget, -⟩ := exists_found s hs i (contains_of_stored s i o ho)
  have hoq := reread?_order o q (reread?_of_get s i o q ho hget)
  have hpq := reread?_order p q (reread?_of_get s i p q hp hget)
  calc p = (p.withFigures q).withFigures p := rfl
    _ = q.withFigures p := by rw [← hpq]
    _ = (o.withFigures q).withFigures p := by rw [← hoq]
    _ = o.withFigures p := rfl

section Stored

variable (P : Order → Prop) (hfigures : ∀ o p, P o → P (o.withFigures p))

include hfigures

/-- What holds of one order with the text of a row, whatever its figures, holds of all of them. -/
theorem of_stored (s : OrderStore) (hs : s.Readable) (i : String) (o p : Order)
    (ho : s.Stored i o) (h : P o) (hp : s.Stored i p) : P p := by
  rw [eq_withFigures_of_stored s hs i o p ho hp]
  exact hfigures o p h

/-- What holds of a stored order, whatever its figures, holds of what is found. -/
theorem of_get (s : OrderStore) (hs : s.Readable) (i : String) (o : Order)
    (h : ∀ p, s.Stored i p → P p) (hget : s.get i = .ok (some o)) : P o := by
  obtain ⟨p, hp, -⟩ := hs i (contains_of_get s i o hget)
  rw [reread?_order p o (reread?_of_get s i p o hp hget)]
  exact hfigures p o (h p hp)

end Stored

theorem readable_empty : empty.Readable := by
  intro i h
  cases h

/-- Whatever a step does to a row, it can be read again. -/
theorem readable_rowMoves (m : Moment) (s t : OrderStore) (hs : s.Readable)
    (h : ∀ i, ∃ grown, RowMoves m s t i grown) : t.Readable := by
  intro i hi
  obtain ⟨grown, hmoves⟩ := h i
  cases hmoves with
  | same row =>
    rw [contains_eq_of_find? s t i row] at hi
    obtain ⟨o, hstored, hfin⟩ := hs i hi
    exact ⟨o, row.trans hstored, hfin⟩
  | opened r o opens _ _ stored => exact ⟨o, stored, r.isFinite_opens m o opens⟩
  | advanced old new found moves stored =>
    exact ⟨new, stored, old.isFinite_movesOn new m.now (isFinite_of_get s hs i old found) moves⟩
  | noted old txRef found stored =>
    have hold := isFinite_of_get s hs i old found
    exact ⟨_, stored, hold.pickup, hold.destination, hold.items, hold.totals⟩

end OrderStore

namespace Desk

/-- The row of an order across a step of a run. -/
theorem rowMoves_after (d : Desk) (s : DeskStep) (hs : d.store.Indexed) (i : String) :
    RowMoves s.moment d.store (d.after s).store i (decide (d.grows? s = some i)) :=
  rowMoves s.moment d _ _ (moves_after d s hs) i

/-- A stored order stays stored. -/
theorem contains_rowMoves (m : Moment) (s t : OrderStore) (i : String) (grown : Bool)
    (h : RowMoves m s t i grown) (hi : s.orders.contains i = true) :
    t.orders.contains i = true := by
  cases h with
  | same row => rwa [OrderStore.contains_eq_of_find? s t i row]
  | opened _ o _ _ _ stored | advanced _ o _ _ stored =>
    exact OrderStore.contains_of_stored t i o stored
  | noted _ _ _ stored => exact OrderStore.contains_of_stored t i _ stored

/-- Every row can be read after every run. -/
theorem readable_run (capacity : Nat) (steps : List DeskStep) :
    (run capacity steps).store.Readable := by
  induction steps using List.reverseRecOn with
  | nil => exact OrderStore.readable_empty
  | append_singleton steps s ih =>
    rw [run_append]
    exact OrderStore.readable_rowMoves s.moment _ _ ih fun i =>
      ⟨_, rowMoves_after _ s (indexed_run capacity steps) i⟩

theorem contains_run_append (capacity : Nat) (steps since : List DeskStep) (i : String)
    (h : (run capacity steps).store.orders.contains i = true) :
    (run capacity (steps ++ since)).store.orders.contains i = true := by
  induction since using List.reverseRecOn with
  | nil => rwa [List.append_nil]
  | append_singleton since s ih =>
    rw [← List.append_assoc, run_append]
    exact contains_rowMoves s.moment _ _ i _
      (rowMoves_after _ s (indexed_run capacity (steps ++ since)) i) ih

end Desk

end OrderDispatch
