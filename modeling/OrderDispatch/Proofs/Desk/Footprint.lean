import OrderDispatch.Proofs.Desk.Run

/-!
# The footprint of a request

A request that is refused, or whose totals overflow, leaves the books as they were and has told no
provider anything, whatever the directory did. One that succeeds touches nothing that belongs to
another order.

    carryOut answers an error → the same books, the same notifications
    carryOut answers .ok a    → every row, index entry, position report and notification
                                of any order but a is the same

Both come from `outcome_carryOut`: nothing is written or sent in front of a check that can still
fail. An assignment sends its offers before it writes the order back, but that cannot fail any more.
-/

namespace OrderDispatch

namespace OrderStore

/-- Two stores differ in nothing but what belongs to one order. -/
structure SameBeyond (s t : OrderStore) (i : String) : Prop where
  row : ∀ j, j ≠ i → t.orders.find? j = s.orders.find? j
  listed : ∀ x key j, j ≠ i → (t.index x).find? ⟨key, j⟩ = (s.index x).find? ⟨key, j⟩
  reported : ∀ j n, j ≠ i → t.reports.find? ⟨j, n⟩ = s.reports.find? ⟨j, n⟩

theorem SameBeyond.trans (s t u : OrderStore) (i : String) (hst : s.SameBeyond t i)
    (htu : t.SameBeyond u i) : s.SameBeyond u i where
  row j hj := (htu.row j hj).trans (hst.row j hj)
  listed x key j hj := (htu.listed x key j hj).trans (hst.listed x key j hj)
  reported j n hj := (htu.reported j n hj).trans (hst.reported j n hj)

theorem find?_enlist_ne (index : Table (PairKey String String) Unit) (owner : Option String)
    (i x j : String) (h : j ≠ i) : (enlist index owner i).find? ⟨x, j⟩ = index.find? ⟨x, j⟩ := by
  cases owner with
  | none => rfl
  | some o =>
    unfold enlist
    rw [Table.find?_insert, if_neg]
    intro hkey
    exact h (congrArg PairKey.member hkey)

theorem find?_delist_ne (index : Table (PairKey String String) Unit) (owner : Option String)
    (i x j : String) (h : j ≠ i) : (delist index owner i).find? ⟨x, j⟩ = index.find? ⟨x, j⟩ := by
  cases owner with
  | none => rfl
  | some o =>
    unfold delist
    rw [Table.find?_erase, if_neg]
    intro hkey
    exact h (congrArg PairKey.member hkey)

theorem sameBeyond_insert (s t : OrderStore) (o : Order) (h : s.insert o = .ok t) :
    s.SameBeyond t o.id := by
  unfold insert at h
  split at h
  · cases h
  cases h
  constructor
  · intro j hj
    show (s.orders.insert o.id (Coded.render o)).find? j = _
    rw [Table.find?_insert, if_neg hj]
  · intro x key j hj
    cases x with
    | user => exact find?_enlist_ne s.byUser (some o.userId) o.id key j hj
    | provider => exact find?_enlist_ne s.byProvider o.providerId o.id key j hj
  · intro j n _
    rfl

theorem sameBeyond_replace (s : OrderStore) (i : String) (provider : Option String) (o : Order) :
    s.SameBeyond (s.replace i provider o) i := by
  constructor
  · intro j hj
    show (s.orders.insert i (Coded.render o)).find? j = _
    rw [Table.find?_insert, if_neg hj]
  · intro x key j hj
    cases x with
    | user => rfl
    | provider =>
      show (if provider = o.providerId then s.byProvider
        else enlist (delist s.byProvider provider i) o.providerId i).find? ⟨key, j⟩ = _
      split
      · rfl
      · rw [find?_enlist_ne _ _ i key j hj, find?_delist_ne _ _ i key j hj]
        rfl
  · intro j n _
    rfl

theorem sameBeyond_insertReport (s : OrderStore) (r : PositionReport) :
    s.SameBeyond (s.insertReport r) r.orderId := by
  constructor
  · intro j _
    rfl
  · intro x key j _
    cases x <;> rfl
  · intro j n hj
    show (s.reports.insert ⟨r.orderId, s.sequence + 1⟩ (Coded.render r)).find? ⟨j, n⟩ = _
    rw [Table.find?_insert, if_neg]
    intro hkey
    exact hj (congrArg PairKey.owner hkey)

end OrderStore

namespace Desk

/-- Writing an order, with or without a position of its provider, touches nothing else. -/
theorem sameBeyond_writes (s t : OrderStore) (i : String) (old new : Order) (hid : new.id = i)
    (h : Writes s t i old new) : s.SameBeyond t i := by
  have hreplaced := OrderStore.sameBeyond_replace s i old.providerId new
  rcases h with rfl | ⟨r, hr, rfl⟩
  · exact hreplaced
  · have hreport := OrderStore.sameBeyond_insertReport (s.replace i old.providerId new) r
    rw [hr, hid] at hreport
    exact hreplaced.trans _ _ _ _ hreport

/-- Notifications about one order leave those about the others alone. -/
theorem filter_notices (d d' : Desk) (i j : String) (hj : j ≠ i) (h : d.NotifiesOnly d' i) :
    d'.notices.filter (·.1.orderId = j) = d.notices.filter (·.1.orderId = j) := by
  obtain ⟨sent, hsent, habout⟩ := h
  have hnone : sent.filter (·.1.orderId = j) = [] := by
    apply List.filter_eq_nil_iff.2
    intro n hn
    rw [habout n hn]
    simpa using Ne.symm hj
  rw [hsent, List.filter_append, hnone, List.append_nil]

/-- A request that fails leaves the books and the notifications as they were, and one that succeeds
leaves every other order, its place in the indexes, its position reports and the notifications about
it as they were. -/
theorem carryOut_footprint (capacity : Nat) (steps : List DeskStep) (m : Moment) (r : DeskRequest) :
    let d := run capacity steps
    let answer := (d.carryOut m r).1
    let d' := (d.carryOut m r).2
    (∀ e, answer = .error e →
      d'.toBooks = d.toBooks ∧ d'.backlog = d.backlog ∧ d'.notices = d.notices) ∧
    ∀ a, answer = .ok a →
      (∀ i, r.target? = some i → i = a) ∧
      d.store.SameBeyond d'.store a ∧
      ∀ b, b ≠ a →
        d'.notices.filter (·.1.orderId = b) = d.notices.filter (·.1.orderId = b) := by
  intro d answer d'
  have hs : d.store.Indexed := indexed_run capacity steps
  have h : Outcome m d d' r answer := outcome_carryOut m d r hs
  clear_value answer d'
  constructor
  · rintro e rfl
    cases h with
    | refused _ e books backlog notices => exact ⟨books, backlog, notices⟩
  · rintro a rfl
    cases h with
    | opened r o _ store _ _ notices =>
      refine ⟨?_, OrderStore.sameBeyond_insert _ _ o store, ?_⟩
      · intro i hi
        cases hi
      · intro b _
        rw [notices]
    | advanced _ i old new target _ found moves store _ _ notices =>
      have hid : new.id = a :=
        (movesOn_owner old new m.now moves).1.trans (id_of_get _ hs a old found)
      refine ⟨?_, sameBeyond_writes _ _ a old new hid store, ?_⟩
      · intro j hj
        rw [target] at hj
        exact (Option.some.inj hj).symm
      · intro b hb
        exact filter_notices d d' a b hb notices
    | reported i r report about _ store _ _ notices =>
      refine ⟨?_, ?_, ?_⟩
      · rintro j ⟨⟩
        rfl
      · have hreport := OrderStore.sameBeyond_insertReport d.store report
        rwa [about, ← store] at hreport
      · intro b _
        rw [notices]

end Desk

end OrderDispatch
