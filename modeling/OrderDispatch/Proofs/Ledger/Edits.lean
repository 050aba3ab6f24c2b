import OrderDispatch.Proofs.Ledger.Calls

/-!
# Rows written over

An entry is written over another one, at its height and under its reference. As long as no hashes
collide, that is detected exactly if the two have different bytes to be hashed:

    (l.overwrite e').Detects e.height e.txRef ↔ e'.preimage ≠ e.preimage

Different plain entries have different bytes. Other entries need not, so that some edits are not
detected at all: a zero may move from one text to the next.
-/

namespace OrderDispatch.Ledger

open LedgerEntry (genesisRef)

/-- The ledger with this entry in the row at its height. -/
def overwrite (l : Ledger) (e : LedgerEntry) : Ledger := l.setRow e.height (some (Coded.render e))

/-- The walk reports a break at this height, and the reference is verified for no order. -/
def Detects (l : Ledger) (height : UInt64) (txRef : String) : Prop :=
  (∃ report, l.verifyChain = .ok report ∧ ∃ b ∈ report.breaks, b.height = height) ∧
    ∀ i, l.verify i txRef = .ok false

theorem render_inj (a b : LedgerEntry) (h : Coded.render a = Coded.render b) : a = b := by
  have hread := readRow_render a
  rw [h, readRow_render] at hread
  exact (Except.ok.inj hread).symm

/-! ## The rows -/

theorem exists_of_rows (rows : List (UInt64 × String)) (h : ∀ row ∈ rows, ∃ e, row = rowOf e) :
    ∃ es : List LedgerEntry, rows = es.map rowOf := by
  induction rows with
  | nil => exact ⟨[], rfl⟩
  | cons row rows ih =>
    obtain ⟨e, rfl⟩ := h row List.mem_cons_self
    obtain ⟨es, rfl⟩ := ih fun r hr => h r (List.mem_cons_of_mem _ hr)
    exact ⟨e :: es, rfl⟩

/-- An entry takes the place of the one at its height. -/
theorem rows_overwrite (l : Ledger) (xs ys : List LedgerEntry) (e e' : LedgerEntry)
    (hrows : l.entries.entries = (xs ++ e :: ys).map rowOf) (hheight : e'.height = e.height) :
    (l.overwrite e').entries.entries = (xs ++ e' :: ys).map rowOf := by
  have hasc := l.entries.ascending
  rw [hrows, List.map_append, List.map_cons] at hasc
  show Table.insertEntry e'.height _ l.entries.entries = _
  rw [hrows, List.map_append, List.map_append, List.map_cons, List.map_cons, hheight]
  show Table.insertEntry e.height _ (xs.map rowOf ++ (e.height, Coded.render e) :: ys.map rowOf) = _
  rw [Table.insertEntry_replace _ _ _ _ _ hasc, ← hheight]
  rfl

section Edited

variable (l : Ledger) (es : List LedgerEntry) (hl : l.Keeps es) (e e' : LedgerEntry)
  (hrow : l.entries.find? e.height = some (Coded.render e))

include hl hrow

theorem Keeps.mem : e ∈ es := by
  obtain ⟨x, hx, heq⟩ := hl.rows _ (Table.mem_of_find? l.entries _ _ hrow)
  rw [render_inj e x (congrArg Prod.snd heq)]
  exact hx

/-- One entry is written over; those before and behind it stay. -/
theorem Keeps.values_overwrite (hheight : e'.height = e.height) :
    ∃ xs ys, (l.overwrite e').entries.values.mapM readRow = .ok (xs ++ e' :: ys) := by
  obtain ⟨zs, hrows⟩ := exists_of_rows l.entries.entries fun row hrow =>
    (hl.rows row hrow).imp fun _ h => h.2
  have hmem : rowOf e ∈ zs.map rowOf := by
    rw [← hrows]
    exact Table.mem_of_find? l.entries _ _ hrow
  obtain ⟨z, hz, hze⟩ := List.mem_map.1 hmem
  obtain ⟨xs, ys, rfl⟩ := List.append_of_mem hz
  rw [render_inj z e (congrArg Prod.snd hze)] at hrows
  exact ⟨xs, ys, values_of_rows _ _ (rows_overwrite l xs ys e e' hrows hheight)⟩

/-- Without a collision, the reference of a row leads to its height. -/
theorem Keeps.find?_refs (hno : ¬ Collides es) : l.refs.find? e.txRef = some e.height := by
  have he := hl.mem l es e hrow
  obtain ⟨x, hx, href, hlast⟩ := exists_newest es e he
  have hpreimage := preimage_of_txRef es hno x e hx he (hl.intact x hx) (hl.intact e he) href
  rw [hl.refs, hlast]
  exact congrArg some
    (LedgerEntry.head_of_preimage x e (hl.plain x hx) (hl.plain e he) hpreimage).2.1

/-- What is under the reference of the row now is judged by its own content. -/
theorem Keeps.verify_overwrite (hno : ¬ Collides es) (hheight : e'.height = e.height) (i : String) :
    (l.overwrite e').verify i e.txRef =
      .ok (e'.orderId == i && e'.computedRef == e.txRef) := by
  apply verify_of_getByRef
  apply getByRef_of_row
  have hnow : (l.overwrite e').entries.find? e.height = some (Coded.render e') := by
    show (l.entries.insert e'.height _).find? e.height = _
    rw [Table.find?_insert, if_pos hheight.symm]
  rw [show (l.overwrite e').refs = l.refs from rfl, hl.find?_refs l es e hrow hno]
  exact hnow

/-- An edit is detected exactly if it changes what is hashed. -/
theorem Keeps.detects_iff (hheight : e'.height = e.height) (href : e'.txRef = e.txRef)
    (hno : ¬ Collides (e' :: es)) :
    (l.overwrite e').Detects e.height e.txRef ↔ e'.preimage ≠ e.preimage := by
  have he := hl.mem l es e hrow
  have hno' : ¬ Collides es :=
    fun h => hno (collides_of_subset es _ (fun _ hx => List.mem_cons_of_mem _ hx) h)
  have hverify := hl.verify_overwrite l es e e' hrow hno' hheight
  constructor
  · rintro ⟨-, hnone⟩ hsame
    have hcomputed : e'.computedRef = e.txRef := by
      rw [hl.intact e he]
      exact congrArg Sha256.hexDigest hsame
    have hfalse := hnone e'.orderId
    rw [hverify, hcomputed, beq_self_eq_true, beq_self_eq_true] at hfalse
    cases hfalse
  · intro hdiffer
    have hcomputed : e'.computedRef ≠ e.txRef := by
      intro h
      rw [hl.intact e he] at h
      exact hno ⟨e', List.mem_cons_self, e, List.mem_cons_of_mem _ he, hdiffer,
        Text.hex_inj _ _ h⟩
    constructor
    · obtain ⟨xs, ys, hvalues⟩ := hl.values_overwrite l es e e' hrow hheight
      obtain ⟨b, hb, hbreak⟩ := exists_break_of_computedRef (lastRef genesisRef xs) e'
        (by rw [href]; exact hcomputed)
      refine ⟨_, verifyChain_of_values _ _ hvalues, b, ?_, hbreak.trans hheight⟩
      show b ∈ breaksFrom genesisRef (xs ++ e' :: ys)
      rw [breaksFrom_append, breaksFrom]
      exact List.mem_append_right _ (List.mem_append_left _ hb)
    · intro i
      rw [hverify, beq_eq_false_iff_ne.2 hcomputed, Bool.and_false]

end Edited

/-- However many jobs were recorded, and whichever row is written over under its height and its
reference, that is detected exactly if it changes what is hashed, unless two different contents have
one hash. Any edit does so that leads from one plain entry to another. -/
theorem overwrite_detected (calls : List (Job × Timestamp)) :
    ∃ l, empty.recordAll calls = .ok ((empty.entriesOf calls).map (·.txRef), l) ∧
      ∀ e e' : LedgerEntry, l.entries.find? e.height = some (Coded.render e) →
        e'.height = e.height → e'.txRef = e.txRef →
        (Collides (e' :: empty.entriesOf calls) ∨
          ((l.overwrite e').Detects e.height e.txRef ↔ e'.preimage ≠ e.preimage)) ∧
        (e' ≠ e → e.Plain → e'.Plain → '\x00' ∉ e'.prevRef.toList → e'.preimage ≠ e.preimage) := by
  obtain ⟨hanswers, hkeeps⟩ := keeps_empty.recordAll empty [] calls
  rw [List.nil_append] at hkeeps
  refine ⟨_, hanswers, fun e e' hrow hheight href => ⟨?_, ?_⟩⟩
  · by_cases hcollides : Collides (e' :: empty.entriesOf calls)
    · exact .inl hcollides
    · exact .inr (hkeeps.detects_iff _ _ e e' hrow hheight href hcollides)
  · intro hne he he' hzero hsame
    have hplain := hkeeps.plain e (hkeeps.mem _ _ e hrow)
    have heq := LedgerEntry.preimage_inj e' e he' he (Text.zero_not_mem_utf8 _ hzero) hplain hsame
    rw [← href] at heq
    exact hne heq

/-! ## A zero that moves -/

/-- A job for an order of a user whose identifier has a zero in it. -/
def zeroCall : Job × Timestamp := (⟨"a", "b\x00c", none, default⟩, 0)

def zeroEntry : LedgerEntry := nextEntry [] zeroCall.1 zeroCall.2

/-- The same bytes as an entry about another order. -/
def shiftedEntry : LedgerEntry := { zeroEntry with orderId := "a\x00b", userId := "c" }

theorem preimage_shiftedEntry : shiftedEntry.preimage = zeroEntry.preimage :=
  (LedgerEntry.preimage_shift zeroEntry "a" "b" "c").symm

theorem entriesOf_zeroCall : empty.entriesOf [zeroCall] = [zeroEntry] :=
  entriesOf_cons empty zeroCall.1 zeroCall.2 [] _ _ (holds_empty.head empty [])

theorem not_collides_shiftedEntry : ¬ Collides [shiftedEntry, zeroEntry] := by
  rintro ⟨a, ha, b, hb, hne, -⟩
  have hsame : ∀ x ∈ [shiftedEntry, zeroEntry], x.preimage = zeroEntry.preimage := by
    intro x hx
    rcases List.mem_pair.1 hx with rfl | rfl
    · exact preimage_shiftedEntry
    · rfl
  exact hne ((hsame a ha).trans (hsame b hb).symm)

/-- The entry of one order becomes that of another, and nothing shows it. -/
theorem shiftedEntry_undetected :
    ∃ l, empty.recordAll [zeroCall] = .ok ([zeroEntry.txRef], l) ∧
      l.entries.find? zeroEntry.height = some (Coded.render zeroEntry) ∧
      shiftedEntry.height = zeroEntry.height ∧ shiftedEntry.txRef = zeroEntry.txRef ∧
      shiftedEntry.orderId ≠ zeroEntry.orderId ∧
      ¬ Collides (shiftedEntry :: empty.entriesOf [zeroCall]) ∧
      (l.overwrite shiftedEntry).verifyChain = .ok ⟨1, []⟩ ∧
      (l.overwrite shiftedEntry).verify shiftedEntry.orderId zeroEntry.txRef = .ok true := by
  obtain ⟨hanswers, hkeeps⟩ := keeps_empty.recordAll empty [] [zeroCall]
  rw [entriesOf_zeroCall] at hanswers hkeeps ⊢
  have hkept : (empty.put zeroEntry).Keeps [zeroEntry] := hkeeps
  have hheight : shiftedEntry.height = zeroEntry.height := rfl
  have hheld : (empty.put zeroEntry).Holds [zeroEntry] :=
    holds_empty.put_nextEntry empty [] zeroCall.1 zeroCall.2 (by decide)
  have hcomputed : shiftedEntry.computedRef = zeroEntry.txRef := by
    rw [hheld.intact zeroEntry List.mem_cons_self]
    exact congrArg Sha256.hexDigest preimage_shiftedEntry
  have hrow := hheld.find?_height _ _ zeroEntry List.mem_cons_self
  refine ⟨_, hanswers, hrow, hheight, rfl, ?_, not_collides_shiftedEntry, ?_, ?_⟩
  · show "a\x00b" ≠ "a"
    decide
  · have hrows : ((empty.put zeroEntry).overwrite shiftedEntry).entries.entries =
        [shiftedEntry].map fun e => (e.height, Coded.render e) := by
      show Table.insertEntry shiftedEntry.height _ (empty.put zeroEntry).entries.entries = _
      rw [hheld.rows, hheight]
      exact Table.insertEntry_replace zeroEntry.height (Coded.render zeroEntry) _ [] []
        (List.pairwise_singleton _ _)
    have hbreaks : breaksFrom genesisRef [shiftedEntry] = [] := by
      rw [breaksFrom, breaksFrom, List.append_nil]
      exact (breaksAt_eq_nil_iff _ _).2 ⟨rfl, hcomputed.symm⟩
    show ((empty.put zeroEntry).overwrite shiftedEntry).verifyChain = _
    rw [verifyChain_of_values _ _ (values_of_rows _ _ hrows), hbreaks]
    rfl
  · have hno : ¬ Collides [zeroEntry] := fun h => not_collides_shiftedEntry
      (collides_of_subset _ _ (fun _ hx => List.mem_cons_of_mem _ hx) h)
    show ((empty.put zeroEntry).overwrite shiftedEntry).verify _ _ = _
    rw [hkept.verify_overwrite _ _ zeroEntry shiftedEntry hrow hno hheight, hcomputed,
      beq_self_eq_true, beq_self_eq_true]
    rfl

end OrderDispatch.Ledger
