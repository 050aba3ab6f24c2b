import OrderDispatch.Proofs.Ledger.Chain
import OrderDispatch.Proofs.Order.Doubles
import OrderDispatch.Proofs.Store.Rows

/-!
# Position reports as a log

Reports are filed one behind the other, under numbers that count the reports of all orders. So the
entries on an order are its part of one log, and both readers read that part from its end: the row
of a report is never touched again, but its two coordinates are what reading makes of them.

    s.Files log → (s.insertReport r).Files (log ++ [r])                        (files_insertReport)
    s.Files log → the rows on i are the texts of (about i log).reverse         (reportRows_of_files)
    log <+: log' → the entries on i are the first ones on i later on           (filed_prefix)
-/

namespace OrderDispatch

/-! ## Reading rows -/

section Rereads

variable {α : Type} [Coded α] [Rereads α]

theorem OrderStore.toOption_readRow_render (a : α) :
    (readRow (Coded.render a) : Except StoreError α).toOption = Rereads.reread? a := by
  rw [toOption_readRow, Rereads.read_render]

theorem OrderStore.toOption_mapM_readRow (as : List α) :
    ((as.map Coded.render).mapM (readRow (α := α))).toOption = as.mapM Rereads.reread? := by
  rw [toOption_mapM, List.mapM_map]
  exact congrArg (as.mapM ·) (funext toOption_readRow_render)

end Rereads

/-! ## The log -/

/-- The reports of a log that are about an order. -/
def PositionReport.about (i : String) (log : List PositionReport) : List PositionReport :=
  log.filter (·.orderId = i)

namespace OrderStore

open PositionReport (about)

/-- The entries on an order when these reports have been filed: each text under its place in the
whole log. -/
def filed (log : List PositionReport) (i : String) : List (UInt64 × String) :=
  ((log.zipIdx 1).filter (·.1.orderId = i)).map fun (r, k) => (.ofNat k, Coded.render r)

/-- These reports have been filed, the oldest first. -/
structure Files (s : OrderStore) (log : List PositionReport) : Prop where
  sequence : s.sequence = .ofNat log.length
  under : ∀ i, s.reports.under i = filed log i

@[simp] theorem get_insertReport (s : OrderStore) (r : PositionReport) (i : String) :
    (s.insertReport r).get i = s.get i := rfl

theorem files_empty : empty.Files [] := ⟨rfl, fun _ => rfl⟩

/-- Only the reports and their count matter. -/
theorem files_of_eq (s t : OrderStore) (log : List PositionReport) (hs : s.Files log)
    (hreports : t.reports = s.reports) (hsequence : t.sequence = s.sequence) : t.Files log :=
  ⟨hsequence.trans hs.sequence, fun i => by rw [hreports, hs.under]⟩

theorem filed_append (log more : List PositionReport) (i : String) :
    filed (log ++ more) i = filed log i ++
      ((more.zipIdx (1 + log.length)).filter (·.1.orderId = i)).map
        fun (r, k) => (.ofNat k, Coded.render r) := by
  unfold filed
  rw [List.zipIdx_append, List.filter_append, List.map_append]

/-- Filed entries stay where they are. -/
theorem filed_prefix (log log' : List PositionReport) (h : log <+: log') (i : String) :
    filed log i <+: filed log' i := by
  obtain ⟨more, rfl⟩ := h
  rw [filed_append]
  exact List.prefix_append _ _

theorem filed_values (log : List PositionReport) (i : String) :
    (filed log i).map (·.2) = (about i log).map Coded.render := by
  unfold filed about
  calc _ = (((log.zipIdx 1).filter ((·.orderId = i) ∘ Prod.fst)).map Prod.fst).map Coded.render := by
        rw [List.map_map, List.map_map]
        rfl
    _ = _ := by
        rw [← List.filter_map, List.zipIdx_map_fst]

theorem toNat_lt_of_mem_filed (log : List PositionReport) (i : String) (e : UInt64 × String)
    (he : e ∈ filed log i) (room : log.length + 1 < 2 ^ 64) : e.1.toNat < log.length + 1 := by
  obtain ⟨⟨r, k⟩, hk, rfl⟩ := List.mem_map.1 he
  have hlt := (List.mem_zipIdx (List.mem_filter.1 hk).1).2.1
  have hsize : UInt64.size = 2 ^ 64 := rfl
  rw [UInt64.toNat_ofNat_of_lt' (by omega)]
  omega

/-- A report goes behind all others. -/
theorem files_insertReport (s : OrderStore) (log : List PositionReport) (r : PositionReport)
    (hs : s.Files log) (room : log.length + 1 < 2 ^ 64) :
    (s.insertReport r).Files (log ++ [r]) := by
  have hnext : s.sequence + 1 = .ofNat (log.length + 1) := by
    rw [hs.sequence, UInt64.ofNat_add]
    rfl
  refine ⟨?_, fun i => ?_⟩
  · rw [List.length_append]
    exact hnext
  · have hlast : ∀ e ∈ s.reports.under r.orderId, compare e.1 (s.sequence + 1) = .lt := by
      intro e he
      rw [hs.under] at he
      rw [hnext]
      apply Ledger.compare_height
      rw [UInt64.toNat_ofNat_of_lt' (by simpa using room)]
      exact toNat_lt_of_mem_filed log _ e he room
    show (s.reports.insert ⟨r.orderId, s.sequence + 1⟩ (Coded.render r)).under i = _
    rw [Table.under_insert _ _ _ _ hlast, hs.under, filed_append, hnext, Nat.add_comm 1]
    congr 1
    by_cases hi : r.orderId = i
    · simp [hi]
    · simp [hi]

/-! ## Reading the log -/

theorem reportRows_of_files (s : OrderStore) (log : List PositionReport) (hs : s.Files log)
    (i : String) : s.reportRows i = (about i log).reverse.map Coded.render := by
  unfold reportRows
  rw [hs.under, filed_values, List.map_reverse]

theorem reportHistory_of_files (s : OrderStore) (log : List PositionReport) (hs : s.Files log)
    (i : String) (n : Nat) :
    (s.reportHistory i n).toOption = ((about i log).reverse.take n).mapM Rereads.reread? := by
  unfold reportHistory
  rw [reportRows_of_files s log hs, ← List.map_take, toOption_mapM_readRow]

theorem latestReport_of_files (s : OrderStore) (log : List PositionReport) (hs : s.Files log)
    (i : String) :
    (s.latestReport i).toOption =
      match (about i log).getLast? with
      | none => some none
      | some r => (Rereads.reread? r).map some := by
  unfold latestReport
  rw [reportRows_of_files s log hs, List.head?_map, List.head?_reverse]
  cases (about i log).getLast? with
  | none => rfl
  | some r =>
    show Except.toOption ((readRow (Coded.render r)).map some) = _
    rw [toOption_map, toOption_readRow_render]

/-- A report is found as the newest one just if it is the newest one, as it is read. -/
theorem latestReport_eq_some_iff (s : OrderStore) (log : List PositionReport) (hs : s.Files log)
    (i : String) (found : PositionReport) :
    s.latestReport i = .ok (some found) ↔
      ∃ r, (about i log).getLast? = some r ∧ Rereads.reread? r = some found := by
  rw [eq_ok_iff, latestReport_of_files s log hs]
  cases (about i log).getLast? with
  | none => simp
  | some r => simp

/-- The newest report is the first of the history. -/
theorem latestReport_eq_head? (s : OrderStore) (i : String) :
    s.latestReport i = (s.reportHistory i 1).map List.head? := by
  unfold latestReport reportHistory
  cases s.reportRows i with
  | nil => rfl
  | cons row rows =>
    show (readRow row).map some = (List.mapM readRow [row]).map List.head?
    rw [List.mapM_cons, List.mapM_nil]
    cases (readRow row : Except StoreError PositionReport) <;> rfl

theorem latestReport_of_history (s : OrderStore) (i : String) (n : Nat)
    (reports : List PositionReport) (h : s.reportHistory i (n + 1) = .ok reports) :
    s.latestReport i = .ok reports.head? := by
  unfold reportHistory at h
  unfold latestReport
  cases hrows : s.reportRows i with
  | nil =>
    rw [hrows] at h
    cases h
    rfl
  | cons row rows =>
    rw [hrows, List.take_succ_cons, List.mapM_cons] at h
    obtain ⟨r, hrow, h⟩ := bind_eq_ok h
    obtain ⟨rest, -, h⟩ := bind_eq_ok h
    cases h
    show (readRow row).map some = _
    rw [hrow]
    rfl

end OrderStore

end OrderDispatch
