import OrderDispatch.Proofs.Ledger.Links

/-!
# A ledger after calls

What is asked of a ledger is a list of jobs with their times. Every call succeeds, however many
there were before, and answers the reference of the entry it makes:

    l.recordAll calls = .ok (references of es, es.foldl put l)    for es = l.entriesOf calls

While heights last, no entry takes the place of another, so that the tables hold all of them, each
with a link to the one before. Behind the greatest height, the count starts again at zero. What is
then still true is `Keeps`: the rows are entries that have been made, and a reference leads to the
newest entry that bears it.
-/

namespace OrderDispatch.Ledger

open LedgerEntry (genesisRef)

/-- Records jobs at their times, one behind the other, and answers their references. -/
def recordAll (l : Ledger) : List (Job × Timestamp) → Except LedgerError (List String × Ledger)
  | [] => .ok ([], l)
  | (job, now) :: calls => do
    let (txRef, l) ← l.record job now
    let (txRefs, l) ← l.recordAll calls
    return (txRef :: txRefs, l)

/-- The entries that are made when these jobs are recorded. -/
def entriesOf (l : Ledger) : List (Job × Timestamp) → List LedgerEntry
  | [] => []
  | (job, now) :: calls =>
    match l.head with
    | .error _ => []
    | .ok (height, prevRef) =>
      entryFor job height prevRef now :: (l.put (entryFor job height prevRef now)).entriesOf calls

theorem entriesOf_cons (l : Ledger) (job : Job) (now : Timestamp) (calls : List (Job × Timestamp))
    (height : UInt64) (prevRef : String) (hhead : l.head = .ok (height, prevRef)) :
    l.entriesOf ((job, now) :: calls) =
      entryFor job height prevRef now ::
        (l.put (entryFor job height prevRef now)).entriesOf calls := by
  rw [entriesOf, hhead]

/-! ## Any number of calls -/

/-- The row of an entry. -/
def rowOf (e : LedgerEntry) : UInt64 × String := (e.height, Coded.render e)

/-- All rows are entries among these, and references lead to the newest that bears them. -/
structure Keeps (l : Ledger) (es : List LedgerEntry) : Prop where
  rows : ∀ row ∈ l.entries.entries, ∃ e ∈ es, row = rowOf e
  refs : ∀ r, l.refs.find? r = (es.filter (·.txRef = r)).getLast?.map (·.height)
  intact : ∀ e ∈ es, e.txRef = e.computedRef
  plain : ∀ e ∈ es, 0 ∉ Text.utf8 e.prevRef

theorem keeps_empty : empty.Keeps [] := by
  constructor
  · intro row hrow
    cases hrow
  · intro r
    rfl
  · intro e he
    cases he
  · intro e he
    cases he

section Kept

variable (l : Ledger) (es : List LedgerEntry) (hl : l.Keeps es)

include hl

theorem Keeps.head : ∃ height prevRef, l.head = .ok (height, prevRef) ∧
    0 ∉ Text.utf8 prevRef := by
  unfold Ledger.head
  cases hlast : l.entries.last? with
  | none => exact ⟨0, genesisRef, rfl, zero_not_mem_genesisRef⟩
  | some row =>
    obtain ⟨e, he, rfl⟩ := hl.rows row (List.mem_of_getLast? hlast)
    refine ⟨e.height, e.txRef, ?_, ?_⟩
    · show (readRow (Coded.render e)).map _ = _
      rw [readRow_render]
      rfl
    · rw [hl.intact e he]
      exact Text.zero_not_mem_utf8_hex _

theorem Keeps.put (e : LedgerEntry) (hintact : e.txRef = e.computedRef)
    (hplain : 0 ∉ Text.utf8 e.prevRef) : (l.put e).Keeps (es ++ [e]) := by
  constructor
  · intro row hrow
    rcases Table.mem_insertEntry hrow with rfl | hrow
    · exact ⟨e, List.mem_append_right _ List.mem_cons_self, rfl⟩
    · obtain ⟨x, hx, rfl⟩ := hl.rows row hrow
      exact ⟨x, List.mem_append_left _ hx, rfl⟩
  · exact find?_refs_put l es e hl.refs
  · exact List.forall_mem_append.2 ⟨hl.intact, List.forall_mem_singleton.2 hintact⟩
  · exact List.forall_mem_append.2 ⟨hl.plain, List.forall_mem_singleton.2 hplain⟩

end Kept

/-- Every call is answered with the reference of the entry it makes. -/
theorem Keeps.recordAll (l : Ledger) (es : List LedgerEntry) (hl : l.Keeps es)
    (calls : List (Job × Timestamp)) :
    l.recordAll calls =
        .ok ((l.entriesOf calls).map (·.txRef), (l.entriesOf calls).foldl Ledger.put l) ∧
      ((l.entriesOf calls).foldl Ledger.put l).Keeps (es ++ l.entriesOf calls) := by
  induction calls generalizing l es with
  | nil =>
    refine ⟨rfl, ?_⟩
    show l.Keeps (es ++ [])
    rwa [List.append_nil]
  | cons call calls ih =>
    obtain ⟨job, now⟩ := call
    obtain ⟨height, prevRef, hhead, hplain⟩ := hl.head
    rw [entriesOf_cons l job now calls height prevRef hhead]
    generalize he : entryFor job height prevRef now = e
    have hrecord : l.record job now = .ok (e.txRef, l.put e) := by
      unfold Ledger.record
      rw [hhead, ← he]
      rfl
    have hput : (l.put e).Keeps (es ++ [e]) := by
      subst he
      exact hl.put _ _ _ rfl hplain
    obtain ⟨hanswers, hkeeps⟩ := ih (l.put e) (es ++ [e]) hput
    rw [List.append_assoc] at hkeeps
    refine ⟨?_, hkeeps⟩
    rw [Ledger.recordAll, hrecord, ok_bind]
    show ((l.put e).recordAll calls >>= _) = _
    rw [hanswers]
    rfl

/-! ## As long as heights last -/

section Lasting

variable (l : Ledger) (es : List LedgerEntry) (hl : l.Holds es) (calls : List (Job × Timestamp))
  (hroom : es.length + calls.length < 2 ^ 64)

include hl hroom

/-- The tables hold what was there and what was made. -/
theorem Holds.entriesOf : ((l.entriesOf calls).foldl Ledger.put l).Holds (es ++ l.entriesOf calls) ∧
    (l.entriesOf calls).length = calls.length := by
  induction calls generalizing l es with
  | nil =>
    refine ⟨?_, rfl⟩
    show l.Holds (es ++ [])
    rwa [List.append_nil]
  | cons call calls ih =>
    obtain ⟨job, now⟩ := call
    rw [List.length_cons] at hroom
    have hput := hl.put_nextEntry l es job now (by omega)
    obtain ⟨hholds, hlength⟩ := ih _ _ hput (by
      rw [List.length_append, List.length_singleton]
      omega)
    rw [entriesOf_cons l job now calls _ _ (hl.head l es)]
    rw [List.append_assoc] at hholds
    exact ⟨hholds, congrArg (· + 1) hlength⟩

/-- Each call makes the next entry behind those of the calls before it. -/
theorem Holds.getElem?_entriesOf (k : Nat) (job : Job) (now : Timestamp)
    (hk : calls[k]? = some (job, now)) :
    (l.entriesOf calls)[k]? = some (nextEntry (es ++ (l.entriesOf calls).take k) job now) := by
  induction calls generalizing l es k with
  | nil => cases hk
  | cons call calls ih =>
    obtain ⟨first, start⟩ := call
    rw [List.length_cons] at hroom
    rw [entriesOf_cons l first start calls _ _ (hl.head l es)]
    cases k with
    | zero =>
      cases hk
      rw [List.take_zero, List.append_nil]
      rfl
    | succ k =>
      have hput := hl.put_nextEntry l es first start (by omega)
      have hrest := ih _ _ hput (by
        rw [List.length_append, List.length_singleton]
        omega) k hk
      rw [List.append_assoc] at hrest
      exact hrest

/-- What is made behind a chain without breaks makes none. -/
theorem Holds.breaksFrom_entriesOf (hes : breaksFrom genesisRef es = []) :
    breaksFrom genesisRef (es ++ l.entriesOf calls) = [] := by
  induction calls generalizing l es with
  | nil => rwa [Ledger.entriesOf, List.append_nil]
  | cons call calls ih =>
    obtain ⟨job, now⟩ := call
    rw [List.length_cons] at hroom
    have hput := hl.put_nextEntry l es job now (by omega)
    have hrest := ih _ _ hput (by
      rw [List.length_append, List.length_singleton]
      omega) (breaksFrom_nextEntry es hes job now)
    rw [entriesOf_cons l job now calls _ _ (hl.head l es)]
    rw [List.append_assoc] at hrest
    exact hrest

end Lasting

/-- The reference behind some entries is the one of the entry before, or the first reference. -/
theorem getElem?_lastRef (es : List LedgerEntry) (k : Nat) (hk : k ≤ es.length) :
    (genesisRef :: es.map (·.txRef))[k]? = some (lastRef genesisRef (es.take k)) := by
  cases k with
  | zero => rfl
  | succ k =>
    have hlast : (es.take (k + 1)).getLast? = es[k]? := by
      rw [List.getLast?_take]
      simp [show k < es.length from hk]
    rw [List.getElem?_cons_succ, List.getElem?_map]
    unfold lastRef
    rw [hlast, List.getElem?_eq_getElem hk]
    rfl

/-- Without a collision, exactly the references of entries about an order are verified for it. -/
theorem Holds.verify_eq (l : Ledger) (es : List LedgerEntry) (hl : l.Holds es)
    (hno : ¬ Collides es) (i r : String) :
    ∃ answer, l.verify i r = .ok answer ∧
      (answer = true ↔ ∃ e ∈ es, e.orderId = i ∧ e.txRef = r) := by
  by_cases hr : ∃ e ∈ es, e.txRef = r
  · obtain ⟨e, he, rfl⟩ := hr
    refine ⟨e.orderId == i, ?_, ?_⟩
    · rw [verify_of_getByRef l i _ e (hl.getByRef_of_mem l es hno e he), hl.intact e he,
        beq_self_eq_true, Bool.and_true]
    · rw [beq_iff_eq]
      constructor
      · intro hi
        exact ⟨e, he, hi, rfl⟩
      · rintro ⟨x, hx, hi, href⟩
        rwa [hl.eq_of_txRef l es hno x e hx he href] at hi
  · refine ⟨false, ?_, ?_⟩
    · have hnone : es.filter (·.txRef = r) = [] :=
        List.filter_eq_nil_iff.2 fun e he hre => hr ⟨e, he, by simpa using hre⟩
      unfold Ledger.verify
      rw [hl.getByRef, hnone]
      rfl
    · constructor
      · intro h
        cases h
      · rintro ⟨e, he, -, hre⟩
        exact absurd ⟨e, he, hre⟩ hr

/-- An entry under a reference is the one of a call that was answered with it. -/
theorem exists_entry_iff (calls : List (Job × Timestamp)) (es : List LedgerEntry)
    (hlength : es.length = calls.length)
    (hmade : ∀ (k : Nat) (job : Job) (now : Timestamp), calls[k]? = some (job, now) →
      ∃ e, es[k]? = some e ∧ e.orderId = job.orderId) (i r : String) :
    (∃ e ∈ es, e.orderId = i ∧ e.txRef = r) ↔
      ∃ (k : Nat) (job : Job) (now : Timestamp), calls[k]? = some (job, now) ∧ job.orderId = i ∧
        (es.map (·.txRef))[k]? = some r := by
  constructor
  · rintro ⟨e, he, rfl, rfl⟩
    obtain ⟨k, hk⟩ := List.getElem?_of_mem he
    have hlt : k < calls.length := by
      rw [← hlength]
      exact (List.getElem?_eq_some_iff.1 hk).1
    obtain ⟨x, hx, horder⟩ := hmade k _ _ (List.getElem?_eq_getElem hlt)
    rw [hk] at hx
    cases hx
    refine ⟨k, _, _, List.getElem?_eq_getElem hlt, horder.symm, ?_⟩
    rw [List.getElem?_map, hk]
    rfl
  · rintro ⟨k, job, now, hk, rfl, hr⟩
    obtain ⟨e, he, horder⟩ := hmade k job now hk
    rw [List.getElem?_map, he] at hr
    exact ⟨e, List.mem_of_getElem? he, horder, Option.some.inj hr⟩

/-- Fewer than `2 ^ 64` jobs, whatever they are about, are recorded by a call each. The entry of each
call leads to that of the call before, the chain has no break, the history of an order is what was
recorded about it, and exactly the answered references are verified for the order of their call,
unless two different contents have one hash. -/
theorem recordAll_faithful (calls : List (Job × Timestamp)) (hcalls : calls.length < 2 ^ 64) :
    ∃ txRefs l es, empty.recordAll calls = .ok (txRefs, l) ∧
      l.entries.values.mapM readRow = .ok es ∧
      txRefs.length = calls.length ∧ es.length = calls.length ∧
      (∀ k job now, calls[k]? = some (job, now) → ∃ prevRef e,
        (genesisRef :: txRefs)[k]? = some prevRef ∧ es[k]? = some e ∧ txRefs[k]? = some e.txRef ∧
        e = entryFor job (.ofNat k) prevRef now ∧ e.height.toNat = k + 1) ∧
      l.verifyChain = .ok ⟨calls.length, []⟩ ∧
      (∀ i, l.history i = .ok (es.filter (·.orderId = i))) ∧
      (Collides es ∨ ∀ i r, ∃ answer, l.verify i r = .ok answer ∧
        (answer = true ↔ ∃ (k : Nat) (job : Job) (now : Timestamp),
          calls[k]? = some (job, now) ∧ job.orderId = i ∧ txRefs[k]? = some r)) := by
  have hroom : ([] : List LedgerEntry).length + calls.length < 2 ^ 64 := by
    rw [List.length_nil]
    omega
  have hanswers := (keeps_empty.recordAll empty [] calls).1
  obtain ⟨hholds, hlength⟩ := holds_empty.entriesOf empty [] calls hroom
  have hnext := holds_empty.getElem?_entriesOf empty [] calls hroom
  have hbreaks := holds_empty.breaksFrom_entriesOf empty [] calls hroom rfl
  simp only [List.nil_append] at hholds hnext hbreaks
  generalize empty.entriesOf calls = es at hanswers hholds hlength hnext hbreaks
  generalize es.foldl Ledger.put empty = l at hanswers hholds
  have hmade : ∀ (k : Nat) (job : Job) (now : Timestamp), calls[k]? = some (job, now) →
      ∃ e, es[k]? = some e ∧ e.orderId = job.orderId := by
    intro k job now hk
    exact ⟨_, hnext k job now hk, rfl⟩
  refine ⟨_, l, es, hanswers, hholds.values, by rw [List.length_map, hlength], hlength, ?_, ?_,
    hholds.history, ?_⟩
  · intro k job now hk
    have hlt : k < es.length := by
      rw [hlength]
      exact (List.getElem?_eq_some_iff.1 hk).1
    have hentry := hnext k job now hk
    refine ⟨_, _, getElem?_lastRef es k (by omega), hentry, ?_, ?_, hholds.heights k _ hentry⟩
    · rw [List.getElem?_map, hentry]
      rfl
    · unfold nextEntry
      rw [List.length_take, Nat.min_eq_left (by omega)]
  · rw [verifyChain_of_values l es hholds.values, hbreaks, hlength]
  · by_cases hcollides : Collides es
    · exact .inl hcollides
    · right
      intro i r
      obtain ⟨answer, hverify, hanswer⟩ := hholds.verify_eq l es hcollides i r
      exact ⟨answer, hverify, hanswer.trans (exists_entry_iff calls es hlength hmade i r)⟩

/-- Two jobs whose texts are the same but for where a zero parts them. -/
def partedCalls : List (Job × Timestamp) :=
  [(⟨"a", "b\x00c", none, default⟩, 5), (⟨"a\x00b", "c", none, default⟩, 3)]

theorem recordAll_faithful_partedCalls :
    partedCalls.length < 2 ^ 64 ∧ ∃ txRefs l, empty.recordAll partedCalls = .ok (txRefs, l) ∧
      txRefs.length = 2 ∧ l.verifyChain = .ok ⟨2, []⟩ := by
  have hcalls : partedCalls.length < 2 ^ 64 := by decide
  obtain ⟨txRefs, l, -, hanswers, -, hlength, -, -, hchain, -, -⟩ :=
    recordAll_faithful partedCalls hcalls
  exact ⟨hcalls, txRefs, l, hanswers, hlength, hchain⟩

end OrderDispatch.Ledger
