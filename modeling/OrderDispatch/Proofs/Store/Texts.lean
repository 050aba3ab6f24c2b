import OrderDispatch.Proofs.Store.Reports

/-!
# Tables of texts

As long as every row is the text of something that can be read back, every reader succeeds. The
ledger holds entries, and those are read back as they are; the order store holds orders and reports,
and those are read back as soon as their figures are finite.

    l.AllTexts → every entry, every history and the whole chain can be read    (Ledger.exists_*)
    s.AllTexts → every order, every listing and every report can be read   (OrderStore.exists_*)

The readers that fail are the readers of rows; an update may also be refused (`update_eq_error`).
-/

namespace OrderDispatch

/-! ## Tables of texts -/

namespace Table

variable {κ α : Type} [Ord κ] [Coded α]

/-- Every row is the text of something of a kind. -/
def TextsOf (kind : α → Prop) (t : Table κ String) : Prop :=
  ∀ row ∈ t.values, ∃ a, kind a ∧ row = Coded.render a

theorem textsOf_empty (kind : α → Prop) : (empty : Table κ String).TextsOf kind := by
  intro row h
  cases h

theorem textsOf_insert [Std.TransOrd κ] (kind : α → Prop) (t : Table κ String)
    (h : t.TextsOf kind) (k : κ) (a : α) (ha : kind a) :
    (t.insert k (Coded.render a)).TextsOf kind := by
  intro row hrow
  obtain ⟨e, he, rfl⟩ := List.mem_map.1 hrow
  rcases mem_insertEntry he with rfl | he
  · exact ⟨a, ha, rfl⟩
  · exact h _ (List.mem_map_of_mem he)

theorem mem_values_of_find? [Std.LawfulEqOrd κ] (t : Table κ String) (k : κ) (row : String)
    (h : t.find? k = some row) : row ∈ t.values :=
  List.mem_map_of_mem (mem_of_find? t k row h)

theorem mem_values_of_mem_under {β : Type} [Ord β] (t : Table (PairKey κ β) String) (i : κ)
    (e : β × String) (h : e ∈ t.under i) : e.2 ∈ t.values := by
  obtain ⟨⟨k, row⟩, hrow, hunder⟩ := List.mem_filterMap.1 h
  obtain ⟨-, he⟩ := Option.ite_none_right_eq_some.1 hunder
  cases he
  exact List.mem_map_of_mem hrow

/-- Where everything of a kind is read back, so is every row. -/
theorem exists_read [Rereads α] (kind : α → Prop) (t : Table κ String) (h : t.TextsOf kind)
    (hkind : ∀ a, kind a → ∃ a', Rereads.reread? a = some a') (row : String)
    (hrow : row ∈ t.values) : ∃ a : α, Coded.read row = .ok a := by
  obtain ⟨a, ha, rfl⟩ := h row hrow
  obtain ⟨a', hread⟩ := hkind a ha
  exact ⟨a', (read_render_eq_ok_iff a a').2 hread⟩

end Table

theorem exists_mapM_eq_ok {ε α β : Type} (f : α → Except ε β) (xs : List α)
    (h : ∀ x ∈ xs, ∃ b, f x = .ok b) : ∃ bs, xs.mapM f = .ok bs := by
  induction xs with
  | nil => exact ⟨[], rfl⟩
  | cons x xs ih =>
    obtain ⟨b, hb⟩ := h x List.mem_cons_self
    obtain ⟨bs, hbs⟩ := ih fun y hy => h y (List.mem_cons_of_mem _ hy)
    refine ⟨b :: bs, ?_⟩
    rw [List.mapM_cons, hb, hbs]
    rfl

/-! ## The ledger -/

namespace Ledger

/-- Every row of the ledger is the text of an entry. -/
def AllTexts (l : Ledger) : Prop := l.entries.TextsOf fun _ : LedgerEntry => True

theorem allTexts_put (l : Ledger) (hl : l.AllTexts) (e : LedgerEntry) : (l.put e).AllTexts :=
  Table.textsOf_insert _ l.entries hl e.height e trivial

theorem exists_put_of_record (l l' : Ledger) (job : Job) (now : Timestamp) (txRef : String)
    (h : l.record job now = .ok (txRef, l')) : ∃ e, l' = l.put e := by
  unfold record at h
  obtain ⟨⟨height, prevRef⟩, -, h⟩ := bind_eq_ok h
  cases h
  exact ⟨_, rfl⟩

section Texts

variable (l : Ledger) (hl : l.AllTexts)

include hl

theorem exists_read (row : String) (h : row ∈ l.entries.values) :
    ∃ e : LedgerEntry, Coded.read row = .ok e :=
  Table.exists_read _ l.entries hl (fun e _ => ⟨e, rfl⟩) row h

theorem exists_readRow (row : String) (h : row ∈ l.entries.values) : ∃ e, readRow row = .ok e := by
  obtain ⟨e, he⟩ := exists_read l hl row h
  exact ⟨e, by rw [readRow, he]; rfl⟩

theorem exists_head : ∃ head, l.head = .ok head := by
  unfold head
  cases hlast : l.entries.last? with
  | none => exact ⟨_, rfl⟩
  | some entry =>
    obtain ⟨height, row⟩ := entry
    obtain ⟨e, he⟩ := exists_readRow l hl row (List.mem_map_of_mem (List.mem_of_getLast? hlast))
    exact ⟨(height, e.txRef), by simp only [he]; rfl⟩

theorem exists_record (job : Job) (now : Timestamp) :
    ∃ recorded, l.record job now = .ok recorded := by
  obtain ⟨head, hhead⟩ := exists_head l hl
  unfold record
  rw [hhead]
  exact ⟨_, rfl⟩

theorem exists_getByRef (txRef : String) : ∃ found, l.getByRef txRef = .ok found := by
  unfold getByRef
  cases hrow : (l.refs.find? txRef).bind l.entries.find? with
  | none => exact ⟨none, rfl⟩
  | some row =>
    obtain ⟨height, -, hfind⟩ := Option.bind_eq_some_iff.1 hrow
    obtain ⟨e, he⟩ := exists_readRow l hl row (Table.mem_values_of_find? _ height row hfind)
    exact ⟨some e, by simp only [he]; rfl⟩

theorem exists_verify (orderId txRef : String) : ∃ answer, l.verify orderId txRef = .ok answer := by
  obtain ⟨found, hfound⟩ := exists_getByRef l hl txRef
  unfold verify
  rw [hfound]
  cases found <;> exact ⟨_, rfl⟩

theorem exists_history (orderId : String) : ∃ es, l.history orderId = .ok es := by
  refine exists_mapM_eq_ok _ _ fun row hrow => ?_
  obtain ⟨⟨height, u⟩, -, hfind⟩ := List.mem_filterMap.1 hrow
  exact exists_readRow l hl row (Table.mem_values_of_find? _ height row hfind)

theorem exists_verifyChain : ∃ report, l.verifyChain = .ok report := by
  obtain ⟨es, hes⟩ := exists_mapM_eq_ok readRow l.entries.values (exists_readRow l hl)
  unfold verifyChain
  rw [hes]
  exact ⟨_, rfl⟩

end Texts

end Ledger

/-! ## The order store -/

namespace OrderStore

/-- Every row of the store is the text of an order or of a report, with finite figures. -/
structure AllTexts (s : OrderStore) : Prop where
  orders : s.orders.TextsOf Order.IsFinite
  reports : s.reports.TextsOf PositionReport.IsFinite

theorem exists_readRow {α : Type} [Coded α] (row : String) (h : ∃ a : α, Coded.read row = .ok a) :
    ∃ a : α, readRow row = .ok a := by
  obtain ⟨a, ha⟩ := h
  exact ⟨a, by rw [readRow, ha]; rfl⟩

section Texts

variable (s : OrderStore) (hs : s.AllTexts)

include hs

theorem exists_read_order (row : String) (h : row ∈ s.orders.values) :
    ∃ o : Order, Coded.read row = .ok o := by
  refine Table.exists_read _ s.orders hs.orders (fun o hfin => ?_) row h
  obtain ⟨o', hread, -⟩ := o.reread?_isFinite hfin
  exact ⟨o', hread⟩

theorem exists_read_report (row : String) (h : row ∈ s.reports.values) :
    ∃ r : PositionReport, Coded.read row = .ok r :=
  Table.exists_read _ s.reports hs.reports PositionReport.reread?_isFinite row h

theorem exists_get (i : String) : ∃ found, s.get i = .ok found := by
  unfold get
  cases hrow : s.orders.find? i with
  | none => exact ⟨none, rfl⟩
  | some row =>
    obtain ⟨o, ho⟩ := exists_readRow row
      (exists_read_order s hs row (Table.mem_values_of_find? _ i row hrow))
    exact ⟨some o, by simp only [ho]; rfl⟩

theorem exists_list (x : OrderIndex) (key : String) (status : Option OrderStatus)
    (offset limit : Nat) : ∃ page, s.list x key status offset limit = .ok page := by
  have hindexed : ∃ os, s.indexed x key = .ok os := by
    refine exists_mapM_eq_ok _ _ fun row hrow => ?_
    obtain ⟨⟨i, u⟩, -, hfind⟩ := List.mem_filterMap.1 hrow
    exact exists_readRow row (exists_read_order s hs row (Table.mem_values_of_find? _ i row hfind))
  obtain ⟨os, hos⟩ := hindexed
  unfold list
  rw [hos]
  exact ⟨_, rfl⟩

theorem exists_reportHistory (i : String) (n : Nat) : ∃ rs, s.reportHistory i n = .ok rs := by
  refine exists_mapM_eq_ok _ _ fun row hrow => exists_readRow row (exists_read_report s hs row ?_)
  obtain ⟨e, he, rfl⟩ := List.mem_map.1 (List.mem_reverse.1 (List.mem_of_mem_take hrow))
  exact Table.mem_values_of_mem_under s.reports i e he

theorem exists_latestReport (i : String) : ∃ found, s.latestReport i = .ok found := by
  obtain ⟨rs, hrs⟩ := exists_reportHistory s hs i 1
  rw [latestReport_eq_head?, hrs]
  exact ⟨_, rfl⟩

/-- An update fails where there is no order, or where the order refuses the change. -/
theorem update_eq_error {ε : Type} (lift : StoreError → ε) (i : String)
    (change : Order → Except ε Order) (e : ε) (h : s.update lift i change = .error e) :
    e = lift (.orderNotFound i) ∨ ∃ o, s.get i = .ok (some o) ∧ change o = .error e := by
  obtain ⟨found, hget⟩ := exists_get s hs i
  unfold update at h
  rw [hget] at h
  cases found with
  | none =>
    cases h
    exact .inl rfl
  | some o =>
    refine .inr ⟨o, hget, ?_⟩
    cases hchange : change o with
    | error f =>
      simp only [hchange] at h
      cases h
      rfl
    | ok new =>
      simp only [hchange] at h
      cases h

end Texts

end OrderStore

end OrderDispatch
