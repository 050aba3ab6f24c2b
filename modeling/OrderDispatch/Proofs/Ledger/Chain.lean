import OrderDispatch.Ledger.Chain
import OrderDispatch.Proofs.Ledger.Content
import OrderDispatch.Proofs.Order.Rows

/-!
# What the ledger holds

`l.Holds es` says that the three tables of a ledger hold the entries `es`, the oldest first, under
the heights from one on. Recording puts one more entry behind them, as long as heights do not run
out:

    l.Holds es → l.record job now = .ok (e.txRef, l.put e) and (l.put e).Holds (es ++ [e])
                 for e = nextEntry es job now
    l.Holds es → l.history i finds the entries of es about i, in their order

A reference leads to the entry it is the hash of, unless two entries have different content but one
hash. The content tells the height, so that no two entries have the same content.
-/

namespace OrderDispatch

namespace Ledger

/-- The tables hold these entries, the oldest first. -/
structure Holds (l : Ledger) (es : List LedgerEntry) : Prop where
  rows : l.entries.entries = es.map fun e => (e.height, Coded.render e)
  heights : ∀ k e, es[k]? = some e → e.height.toNat = k + 1
  refs : ∀ r, l.refs.find? r = (es.filter (·.txRef = r)).getLast?.map (·.height)
  byOrder : ∀ i, l.byOrder.under i = (es.filter (·.orderId = i)).map fun e => (e.height, ())
  intact : ∀ e ∈ es, e.txRef = e.computedRef
  plain : ∀ e ∈ es, 0 ∉ Text.utf8 e.prevRef

theorem holds_empty : empty.Holds [] := by
  constructor
  · rfl
  · intro k e h
    cases h
  · intro r
    rfl
  · intro i
    rfl
  · intro e he
    cases he
  · intro e he
    cases he

section Held

variable (l : Ledger) (es : List LedgerEntry) (hl : l.Holds es)

include hl

theorem Holds.height_le (e : LedgerEntry) (he : e ∈ es) : e.height.toNat ≤ es.length := by
  obtain ⟨k, hk⟩ := List.getElem?_of_mem he
  have hlt := (List.getElem?_eq_some_iff.1 hk).1
  rw [hl.heights k e hk]
  exact hlt

/-- A height tells its entry. -/
theorem Holds.eq_of_height (a b : LedgerEntry) (ha : a ∈ es) (hb : b ∈ es)
    (h : a.height = b.height) : a = b := by
  obtain ⟨j, hj⟩ := List.getElem?_of_mem ha
  obtain ⟨k, hk⟩ := List.getElem?_of_mem hb
  have hja := hl.heights j a hj
  have hkb := hl.heights k b hk
  have hjk : j = k := by
    rw [h] at hja
    omega
  rw [hjk, hk] at hj
  exact (Option.some.inj hj).symm

theorem Holds.find?_height (e : LedgerEntry) (he : e ∈ es) :
    l.entries.find? e.height = some (Coded.render e) := by
  apply Table.find?_of_mem
  rw [hl.rows]
  exact List.mem_map_of_mem he

end Held

/-! ## Reading rows -/

theorem readRow_render (e : LedgerEntry) : readRow (Coded.render e) = .ok e := by
  have h : (Coded.read (Coded.render e) : Except Json.Problem LedgerEntry).toOption = some e :=
    Rereads.read_render e
  unfold readRow
  cases hread : (Coded.read (Coded.render e) : Except Json.Problem LedgerEntry) with
  | error p => rw [hread] at h; cases h
  | ok e' => rw [hread] at h; cases h; rfl

theorem mapM_readRow (es : List LedgerEntry) : (es.map Coded.render).mapM readRow = .ok es := by
  induction es with
  | nil => rfl
  | cons e es ih =>
    rw [List.map_cons, List.mapM_cons, readRow_render, ih]
    rfl

theorem values_of_rows (l : Ledger) (es : List LedgerEntry)
    (h : l.entries.entries = es.map fun e => (e.height, Coded.render e)) :
    l.entries.values.mapM readRow = .ok es := by
  have hvalues : l.entries.values = es.map Coded.render := by
    unfold Table.values
    rw [h, List.map_map]
    rfl
  rw [hvalues, mapM_readRow]

/-- The rows of the ledger are its entries. -/
theorem Holds.values (l : Ledger) (es : List LedgerEntry) (hl : l.Holds es) :
    l.entries.values.mapM readRow = .ok es :=
  values_of_rows l es hl.rows

/-- The history of an order is what the ledger holds about it. -/
theorem Holds.history (l : Ledger) (es : List LedgerEntry) (hl : l.Holds es) (i : String) :
    l.history i = .ok (es.filter (·.orderId = i)) := by
  have hrows : (l.byOrder.under i).filterMap (fun row => l.entries.find? row.1) =
      (es.filter (·.orderId = i)).map Coded.render := by
    rw [hl.byOrder, List.filterMap_map, ← List.filterMap_eq_map']
    apply List.filterMap_congr
    intro e he
    exact hl.find?_height l es e (List.mem_of_mem_filter he)
  show ((l.byOrder.under i).filterMap fun row => l.entries.find? row.1).mapM readRow = _
  rw [hrows, mapM_readRow]

/-! ## Recording -/

theorem zero_not_mem_genesisRef : 0 ∉ Text.utf8 LedgerEntry.genesisRef := by decide

/-- The reference that an entry behind these has to lead to. -/
def lastRef (prevRef : String) (es : List LedgerEntry) : String :=
  (es.getLast?.map (·.txRef)).getD prevRef

/-- The entry that is made for a job behind these. -/
def nextEntry (es : List LedgerEntry) (job : Job) (now : Timestamp) : LedgerEntry :=
  entryFor job (.ofNat es.length) (lastRef LedgerEntry.genesisRef es) now

/-- The head is the count of entries, with the reference of the last one. -/
theorem Holds.head (l : Ledger) (es : List LedgerEntry) (hl : l.Holds es) :
    l.head = .ok (.ofNat es.length, lastRef LedgerEntry.genesisRef es) := by
  have hlast : l.entries.last? = es.getLast?.map fun e => (e.height, Coded.render e) := by
    unfold Table.last?
    rw [hl.rows, List.getLast?_map]
  unfold Ledger.head lastRef
  rw [hlast]
  cases hes : es.getLast? with
  | none =>
    rw [List.getLast?_eq_none_iff.1 hes]
    rfl
  | some e =>
    have hindex : es[es.length - 1]? = some e := by rw [← List.getLast?_eq_getElem?, hes]
    have hpos := List.length_pos_iff.2 (List.ne_nil_of_mem (List.mem_of_getLast? hes))
    have hheight : e.height.toNat = es.length := by
      rw [hl.heights _ e hindex]
      omega
    show (readRow (Coded.render e)).map _ = _
    rw [readRow_render, ← hheight, UInt64.ofNat_toNat]
    rfl

/-- References are made of hexadecimal digits, but for the first one. -/
theorem zero_not_mem_lastRef (es : List LedgerEntry) (h : ∀ e ∈ es, e.txRef = e.computedRef) :
    0 ∉ Text.utf8 (lastRef LedgerEntry.genesisRef es) := by
  unfold lastRef
  cases hes : es.getLast? with
  | none => exact zero_not_mem_genesisRef
  | some e =>
    show 0 ∉ Text.utf8 e.txRef
    rw [h e (List.mem_of_getLast? hes)]
    exact Text.zero_not_mem_utf8_hex _

theorem compare_height (a b : UInt64) (h : a.toNat < b.toNat) : compare a b = .lt := by
  show compareOfLessAndEq a b = .lt
  unfold compareOfLessAndEq
  rw [if_pos (UInt64.lt_iff_toNat_lt.2 h)]

/-- The entries that satisfy a condition, with one more behind them. -/
theorem filter_append_singleton (p : LedgerEntry → Bool) (es : List LedgerEntry) (e : LedgerEntry) :
    (es ++ [e]).filter p = es.filter p ++ if p e then [e] else [] := by
  rw [List.filter_append, List.filter_cons, List.filter_nil]

/-- A reference leads to the newest entry that bears it. -/
theorem find?_refs_put (l : Ledger) (es : List LedgerEntry) (e : LedgerEntry)
    (h : ∀ r, l.refs.find? r = (es.filter (·.txRef = r)).getLast?.map (·.height)) (r : String) :
    (l.put e).refs.find? r = ((es ++ [e]).filter (·.txRef = r)).getLast?.map (·.height) := by
  show (l.refs.insert e.txRef e.height).find? r = _
  rw [Table.find?_insert, filter_append_singleton]
  by_cases hr : r = e.txRef
  · simp [hr]
  · simp [hr, Ne.symm hr, h]

/-- A new entry goes behind all others. -/
theorem Holds.put (l : Ledger) (es : List LedgerEntry) (hl : l.Holds es) (e : LedgerEntry)
    (hheight : e.height.toNat = es.length + 1) (hintact : e.txRef = e.computedRef)
    (hplain : 0 ∉ Text.utf8 e.prevRef) : (l.put e).Holds (es ++ [e]) := by
  have hbefore : ∀ x ∈ es, compare x.height e.height = .lt := by
    intro x hx
    have := hl.height_le l es x hx
    exact compare_height _ _ (by omega)
  constructor
  · show (l.entries.insert e.height (Coded.render e)).entries = _
    rw [Table.entries_insert, hl.rows, List.map_append]
    · rfl
    · intro r hr
      rw [hl.rows] at hr
      obtain ⟨x, hx, rfl⟩ := List.mem_map.1 hr
      exact hbefore x hx
  · intro k x hk
    rcases Nat.lt_or_ge k es.length with hlt | hge
    · rw [List.getElem?_append_left hlt] at hk
      exact hl.heights k x hk
    · rw [List.getElem?_append_right hge] at hk
      have hzero : k - es.length = 0 := by
        by_contra hne
        rw [List.getElem?_eq_none (by simp; omega)] at hk
        cases hk
      rw [hzero] at hk
      cases hk
      omega
  · exact find?_refs_put l es e hl.refs
  · intro i
    show (l.byOrder.insert ⟨e.orderId, e.height⟩ ()).under i = _
    rw [Table.under_insert, hl.byOrder, filter_append_singleton, List.map_append]
    · by_cases hi : e.orderId = i <;> simp [hi]
    · intro r hr
      rw [hl.byOrder] at hr
      obtain ⟨x, hx, rfl⟩ := List.mem_map.1 hr
      exact hbefore x (List.mem_of_mem_filter hx)
  · exact List.forall_mem_append.2 ⟨hl.intact, List.forall_mem_singleton.2 hintact⟩
  · exact List.forall_mem_append.2 ⟨hl.plain, List.forall_mem_singleton.2 hplain⟩

theorem Holds.length_lt (l : Ledger) (es : List LedgerEntry) (hl : l.Holds es) :
    es.length < 2 ^ 64 := by
  cases hes : es.getLast? with
  | none =>
    rw [List.getLast?_eq_none_iff.1 hes]
    exact Nat.two_pow_pos 64
  | some e =>
    have hindex : es[es.length - 1]? = some e := by rw [← List.getLast?_eq_getElem?, hes]
    have hheight := hl.heights _ e hindex
    have hlt := e.height.toNat_lt
    omega

theorem Holds.record_eq (l : Ledger) (es : List LedgerEntry) (hl : l.Holds es) (job : Job)
    (now : Timestamp) :
    l.record job now = .ok ((nextEntry es job now).txRef, l.put (nextEntry es job now)) := by
  unfold Ledger.record
  rw [hl.head]
  rfl

/-- While there are heights left, what is recorded goes behind the others. -/
theorem Holds.put_nextEntry (l : Ledger) (es : List LedgerEntry) (hl : l.Holds es) (job : Job)
    (now : Timestamp) (hroom : es.length + 1 < 2 ^ 64) :
    (l.put (nextEntry es job now)).Holds (es ++ [nextEntry es job now]) := by
  refine hl.put l es _ ?_ rfl (zero_not_mem_lastRef es hl.intact)
  show (UInt64.ofNat es.length + 1).toNat = es.length + 1
  rw [UInt64.toNat_add, UInt64.toNat_ofNat', Nat.mod_eq_of_lt (hl.length_lt l es)]
  exact Nat.mod_eq_of_lt hroom

/-- Recording a job succeeds while there are heights left, and puts one entry behind the others. -/
theorem Holds.record (l : Ledger) (es : List LedgerEntry) (hl : l.Holds es) (job : Job)
    (now : Timestamp) (hroom : es.length + 1 < 2 ^ 64) :
    ∃ e, l.record job now = .ok (e.txRef, l.put e) ∧ (l.put e).Holds (es ++ [e]) ∧
      e.orderId = job.orderId :=
  ⟨nextEntry es job now, hl.record_eq l es job now, hl.put_nextEntry l es job now hroom, rfl⟩

/-! ## Verification -/

/-- Two entries have different content, but the same hash. -/
def Collides (es : List LedgerEntry) : Prop :=
  ∃ a ∈ es, ∃ b ∈ es, a.preimage ≠ b.preimage ∧ Sha256.digest a.preimage = Sha256.digest b.preimage

/-- Without a collision, a reference tells the content it was made for. -/
theorem preimage_of_txRef (es : List LedgerEntry) (hno : ¬ Collides es) (a b : LedgerEntry)
    (ha : a ∈ es) (hb : b ∈ es) (hia : a.txRef = a.computedRef) (hib : b.txRef = b.computedRef)
    (h : a.txRef = b.txRef) : a.preimage = b.preimage := by
  have hdigest : Sha256.digest a.preimage = Sha256.digest b.preimage := by
    apply Text.hex_inj
    exact hia.symm.trans (h.trans hib)
  by_contra hne
  exact hno ⟨a, ha, b, hb, hne, hdigest⟩

/-- There is a newest entry under the reference of any entry. -/
theorem exists_newest (es : List LedgerEntry) (e : LedgerEntry) (he : e ∈ es) :
    ∃ x ∈ es, x.txRef = e.txRef ∧ (es.filter (·.txRef = e.txRef)).getLast? = some x := by
  have hmem : e ∈ es.filter (·.txRef = e.txRef) := List.mem_filter.2 ⟨he, by simp⟩
  have hlast := List.getLast?_eq_some_getLast (List.ne_nil_of_mem hmem)
  obtain ⟨hes, href⟩ := List.mem_filter.1 (List.mem_of_getLast? hlast)
  exact ⟨_, hes, by simpa using href, hlast⟩

/-- Without a collision, a reference tells its entry. -/
theorem Holds.eq_of_txRef (l : Ledger) (es : List LedgerEntry) (hl : l.Holds es)
    (hno : ¬ Collides es) (a b : LedgerEntry) (ha : a ∈ es) (hb : b ∈ es)
    (h : a.txRef = b.txRef) : a = b := by
  have hpreimage := preimage_of_txRef es hno a b ha hb (hl.intact a ha) (hl.intact b hb) h
  exact hl.eq_of_height l es a b ha hb
    (LedgerEntry.head_of_preimage a b (hl.plain a ha) (hl.plain b hb) hpreimage).2.1

theorem getByRef_of_row (l : Ledger) (r : String) (e : LedgerEntry)
    (h : (l.refs.find? r).bind l.entries.find? = some (Coded.render e)) :
    l.getByRef r = .ok (some e) := by
  unfold getByRef
  rw [h]
  show (readRow (Coded.render e)).map some = _
  rw [readRow_render]
  rfl

theorem verify_of_getByRef (l : Ledger) (i r : String) (e : LedgerEntry)
    (h : l.getByRef r = .ok (some e)) :
    l.verify i r = .ok (e.orderId == i && e.computedRef == r) := by
  unfold verify
  rw [h]
  rfl

/-- What is found under a reference is the newest entry that bears it. -/
theorem Holds.getByRef (l : Ledger) (es : List LedgerEntry) (hl : l.Holds es) (r : String) :
    l.getByRef r = .ok (es.filter (·.txRef = r)).getLast? := by
  cases h : (es.filter (·.txRef = r)).getLast? with
  | none =>
    unfold Ledger.getByRef
    rw [hl.refs, h]
    rfl
  | some e =>
    apply getByRef_of_row
    rw [hl.refs, h]
    exact hl.find?_height l es e (List.mem_of_mem_filter (List.mem_of_getLast? h))

/-- Without a collision, what is found under the reference of an entry is that entry. -/
theorem Holds.getByRef_of_mem (l : Ledger) (es : List LedgerEntry) (hl : l.Holds es)
    (hno : ¬ Collides es) (e : LedgerEntry) (he : e ∈ es) : l.getByRef e.txRef = .ok (some e) := by
  obtain ⟨x, hx, href, hlast⟩ := exists_newest es e he
  rw [hl.getByRef, hlast, hl.eq_of_txRef l es hno x e hx he href]

/-- Every entry is intact under its reference, unless there is a collision. -/
theorem Holds.verify (l : Ledger) (es : List LedgerEntry) (hl : l.Holds es) (hno : ¬ Collides es)
    (e : LedgerEntry) (he : e ∈ es) : l.verify e.orderId e.txRef = .ok true := by
  rw [verify_of_getByRef l _ _ e (hl.getByRef_of_mem l es hno e he), hl.intact e he,
    beq_self_eq_true, beq_self_eq_true]
  rfl

end Ledger

end OrderDispatch
