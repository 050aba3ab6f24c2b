import OrderDispatch.Proofs.Ledger.Edits

/-!
# What a walk reports

The walk carries one reference from entry to entry. So what stands at one place shows at that place
and, through its reference, at the next one, and nowhere else:

    breaksFrom p (xs ++ e' :: ys) = breaksAt e.prevRef e' ++ breaksFrom e'.txRef ys
        where xs ++ e :: ys has no breaks                                     (breaksFrom_replace)

What is recorded leads to whatever stands last, sound or not, and is the hash of its own content.
A report about any rows, tampered with in any way, stays as it is but for one more entry.
-/

namespace OrderDispatch.Ledger

open LedgerEntry (genesisRef)

/-! ## One entry in the place of another -/

/-- Behind another reference than before, the first link is all that breaks. -/
theorem breaksFrom_of_ref (prevRef ref : String) (e : LedgerEntry) (es : List LedgerEntry)
    (hes : breaksFrom prevRef (e :: es) = []) :
    breaksFrom ref (e :: es) =
      if prevRef = ref then [] else [⟨e.height, .prevRefMismatch, ref, prevRef⟩] := by
  rw [breaksFrom, List.append_eq_nil_iff, breaksAt_eq_nil_iff] at hes
  obtain ⟨⟨hlink, hintact⟩, hrest⟩ := hes
  rw [breaksFrom, hrest, List.append_nil, breaksAt, if_pos hintact.symm, List.append_nil, hlink]

/-- In a chain without breaks, another entry shows at its place and at the next one. -/
theorem breaksFrom_replace (prevRef : String) (xs ys : List LedgerEntry) (e e' : LedgerEntry)
    (hes : breaksFrom prevRef (xs ++ e :: ys) = []) :
    breaksFrom prevRef (xs ++ e' :: ys) = breaksAt e.prevRef e' ++ breaksFrom e'.txRef ys ∧
      breaksFrom e.txRef ys = [] := by
  rw [breaksFrom_append, breaksFrom, List.append_eq_nil_iff, List.append_eq_nil_iff,
    breaksAt_eq_nil_iff] at hes
  obtain ⟨hxs, ⟨hlink, -⟩, hys⟩ := hes
  rw [breaksFrom_append, hxs, breaksFrom, List.nil_append, hlink]
  exact ⟨rfl, hys⟩

section Replaced

variable (l : Ledger) (xs ys : List LedgerEntry) (e e' : LedgerEntry)
  (hl : l.Holds (xs ++ e :: ys))

include hl

theorem Holds.height_of_append : e.height.toNat = xs.length + 1 :=
  hl.heights xs.length e (by simp)

/-- The entry behind another one has the next height. -/
theorem Holds.next_height (y : LedgerEntry) (zs : List LedgerEntry) (hys : ys = y :: zs) :
    y.height = e.height + 1 := by
  have he := hl.height_of_append
  have hy : y.height.toNat = xs.length + 1 + 1 := by
    apply hl.heights (xs.length + 1) y
    simp [hys]
  have hlt := y.height.toNat_lt
  apply UInt64.toNat_inj.1
  rw [UInt64.toNat_add, he, hy]
  exact (Nat.mod_eq_of_lt (by omega)).symm

/-- The report about a chain without breaks in which one entry has been written over. -/
theorem Holds.verifyChain_overwrite (hbreaks : breaksFrom genesisRef (xs ++ e :: ys) = [])
    (hheight : e'.height = e.height) :
    (l.overwrite e').verifyChain = .ok ⟨(xs ++ e :: ys).length,
      breaksAt e.prevRef e' ++
      (if e.height.toNat < (xs ++ e :: ys).length ∧ e'.txRef ≠ e.txRef then
        [⟨e.height + 1, .prevRefMismatch, e'.txRef, e.txRef⟩] else [])⟩ := by
  have hvalues := values_of_rows _ _ (rows_overwrite l xs ys e e' hl.rows hheight)
  obtain ⟨hreplaced, hrest⟩ := breaksFrom_replace genesisRef xs ys e e' hbreaks
  have hplace := hl.height_of_append
  rw [verifyChain_of_values _ _ hvalues, hreplaced, List.length_append, List.length_append,
    List.length_cons, List.length_cons, hplace]
  congr 3
  cases ys with
  | nil => exact (if_neg fun h => by simp at h).symm
  | cons y zs =>
    rw [breaksFrom_of_ref e.txRef e'.txRef y zs hrest, hl.next_height _ xs _ e y zs rfl]
    by_cases href : e.txRef = e'.txRef
    · rw [if_pos href, if_neg fun h => h.2 href.symm]
    · rw [if_neg href, if_pos ⟨by simp, Ne.symm href⟩]

end Replaced

/-- Each height from one on has its entry, with those of the lower heights before it. -/
theorem Holds.exists_at_height (l : Ledger) (es : List LedgerEntry) (hl : l.Holds es) (h : UInt64)
    (hpos : 1 ≤ h.toNat) (hle : h.toNat ≤ es.length) :
    ∃ xs e ys, es = xs ++ e :: ys ∧ e.height = h := by
  have hplace : h.toNat - 1 < es.length := by omega
  have hsplit : es = es.take (h.toNat - 1) ++ es[h.toNat - 1] :: es.drop (h.toNat - 1 + 1) := by
    rw [← List.drop_eq_getElem_cons hplace, List.take_append_drop]
  refine ⟨_, _, _, hsplit, UInt64.toNat_inj.1 ?_⟩
  rw [hl.heights (h.toNat - 1) _ (List.getElem?_eq_getElem hplace)]
  omega

/-- However many jobs were recorded, and whatever is written over the entry at one of the heights,
the report names the links to and from that entry and its own reference, where they differ. -/
theorem overwrite_reported (calls : List (Job × Timestamp)) (hcalls : calls.length < 2 ^ 64) :
    ∃ txRefs l, empty.recordAll calls = .ok (txRefs, l) ∧
      ∀ h : UInt64, 1 ≤ h.toNat → h.toNat ≤ calls.length →
        ∃ e : LedgerEntry, l.entries.find? h = some (Coded.render e) ∧ e.height = h ∧
          e.txRef = e.computedRef ∧
          ∀ e' : LedgerEntry, e'.height = h →
            (l.overwrite e').verifyChain = .ok ⟨calls.length,
              (if e'.prevRef ≠ e.prevRef then
                [⟨h, .prevRefMismatch, e.prevRef, e'.prevRef⟩] else []) ++
              (if e'.computedRef ≠ e'.txRef then
                [⟨h, .txRefMismatch, e'.computedRef, e'.txRef⟩] else []) ++
              (if h.toNat < calls.length ∧ e'.txRef ≠ e.txRef then
                [⟨h + 1, .prevRefMismatch, e'.txRef, e.txRef⟩] else [])⟩ := by
  have hroom : ([] : List LedgerEntry).length + calls.length < 2 ^ 64 := by
    rw [List.length_nil]
    omega
  have hanswers := (keeps_empty.recordAll empty [] calls).1
  obtain ⟨hholds, hlength⟩ := holds_empty.entriesOf empty [] calls hroom
  have hbreaks := holds_empty.breaksFrom_entriesOf empty [] calls hroom rfl
  rw [List.nil_append] at hholds hbreaks
  refine ⟨_, _, hanswers, fun h hpos hle => ?_⟩
  generalize empty.entriesOf calls = es at hholds hlength hbreaks
  obtain ⟨xs, e, ys, rfl, rfl⟩ := hholds.exists_at_height _ es h hpos (by omega)
  have hmem : e ∈ xs ++ e :: ys := List.mem_append_right _ List.mem_cons_self
  refine ⟨e, hholds.find?_height _ _ e hmem, rfl, hholds.intact e hmem, fun e' hheight => ?_⟩
  rw [hholds.verifyChain_overwrite _ xs ys e e' hbreaks hheight, hlength, breaksAt, hheight]
  simp only [ite_not]

/-- The first reference put in the place of another breaks the entry and the link to it. -/
theorem overwrite_reported_partedCalls :
    partedCalls.length < 2 ^ 64 ∧ 1 ≤ (1 : UInt64).toNat ∧
      (1 : UInt64).toNat ≤ partedCalls.length ∧
      ∃ txRefs l, ∃ e e' : LedgerEntry, empty.recordAll partedCalls = .ok (txRefs, l) ∧
        l.entries.find? 1 = some (Coded.render e) ∧ e'.height = 1 ∧ e'.txRef = genesisRef ∧
        (l.overwrite e').verifyChain = .ok ⟨2,
          [⟨1, .txRefMismatch, e'.computedRef, genesisRef⟩,
           ⟨2, .prevRefMismatch, genesisRef, e.txRef⟩]⟩ := by
  have hcalls : partedCalls.length < 2 ^ 64 := by decide
  have hone : (1 : UInt64).toNat ≤ partedCalls.length := by decide
  obtain ⟨txRefs, l, hanswers, hheights⟩ := overwrite_reported partedCalls hcalls
  obtain ⟨e, hrow, hheight, hintact, hreport⟩ := hheights 1 (by decide) hone
  refine ⟨hcalls, by decide, hone, txRefs, l, e, { e with txRef := genesisRef }, hanswers, hrow,
    hheight, rfl, ?_⟩
  have hcomputed := computedRef_ne_genesisRef { e with txRef := genesisRef }
  have hother : genesisRef ≠ e.txRef := by
    rw [hintact]
    exact (computedRef_ne_genesisRef e).symm
  rw [hreport { e with txRef := genesisRef } hheight, if_neg (fun h => h rfl), if_pos hcomputed,
    if_pos ⟨by decide, hother⟩]
  rfl

/-! ## Recording behind any rows -/

theorem toNat_lt_of_compare (a b : UInt64) (h : compare a b = .lt) : a.toNat < b.toNat := by
  have hlt : compareOfLessAndEq a b = .lt := h
  exact UInt64.lt_iff_toNat_lt.1 (compareOfLessAndEq_eq_lt.1 hlt)

theorem toNat_succ (height : UInt64) (hroom : height.toNat < 2 ^ 64 - 1) :
    (height + 1).toNat = height.toNat + 1 := by
  rw [UInt64.toNat_add]
  exact Nat.mod_eq_of_lt (show height.toNat + 1 < 2 ^ 64 by omega)

theorem mapM_readRow_append (texts : List String) (text : String) :
    (texts ++ [text]).mapM readRow = do
      let es ← texts.mapM readRow
      let e ← readRow text
      return es ++ [e] := by
  simp only [List.mapM_append, List.mapM_cons, List.mapM_nil, bind_assoc, pure_bind]

/-- The head names the reference of the last entry, where all rows can be read. -/
theorem head_of_values (l : Ledger) (es : List LedgerEntry)
    (hes : l.entries.values.mapM readRow = .ok es) :
    ∃ height, l.head = .ok (height, lastRef genesisRef es) := by
  unfold Table.values at hes
  unfold head
  cases hlast : l.entries.last? with
  | none =>
    rw [List.getLast?_eq_none_iff.1 hlast] at hes
    cases hes
    exact ⟨0, rfl⟩
  | some row =>
    obtain ⟨rows, hrows⟩ := List.getLast?_eq_some_iff.1 hlast
    rw [hrows, List.map_append, List.map_singleton, mapM_readRow_append] at hes
    obtain ⟨xs, -, hes⟩ := bind_eq_ok hes
    obtain ⟨e, hrow, hes⟩ := bind_eq_ok hes
    cases hes
    refine ⟨row.1, ?_⟩
    show (readRow row.2).map _ = _
    rw [hrow, lastRef_append_singleton]
    rfl

/-- While the greatest key is not the last possible one, all keys are before the next height. -/
theorem keys_before_next (l : Ledger) (height : UInt64) (prevRef : String)
    (hhead : l.head = .ok (height, prevRef))
    (hroom : ∀ row, l.entries.last? = some row → row.1.toNat < 2 ^ 64 - 1) :
    ∀ r ∈ l.entries.entries, compare r.1 (height + 1) = .lt := by
  intro r hr
  unfold head at hhead
  cases hlast : l.entries.last? with
  | none =>
    rw [List.getLast?_eq_none_iff.1 hlast] at hr
    cases hr
  | some row =>
    obtain ⟨key, text⟩ := row
    rw [hlast] at hhead
    have hkey : key = height := by
      cases hrow : readRow text with
      | error _ => simp [hrow, Except.map] at hhead
      | ok e => simpa [hrow, Except.map] using congrArg (·.map Prod.fst) hhead
    subst hkey
    have hsucc := toNat_succ key (hroom _ hlast)
    obtain ⟨rows, hrows⟩ := List.getLast?_eq_some_iff.1 hlast
    have hasc := l.entries.ascending
    rw [hrows] at hasc hr
    apply compare_height
    rcases List.mem_append.1 hr with hr | hr
    · have hlt : r.1.toNat < key.toNat := toNat_lt_of_compare _ _
        ((List.pairwise_append.1 hasc).2.2 r hr _ List.mem_cons_self)
      omega
    · rw [List.mem_singleton.1 hr, hsucc]
      exact Nat.lt_succ_self _

/-- The new row comes behind all others, leads to the last of them and is sound. So the report is
what it was, but for one more entry. -/
theorem verifyChain_put_of_head (l : Ledger) (height : UInt64) (prevRef : String)
    (hhead : l.head = .ok (height, prevRef))
    (hroom : ∀ row, l.entries.last? = some row → row.1.toNat < 2 ^ 64 - 1) (job : Job)
    (now : Timestamp) :
    (l.put (entryFor job height prevRef now)).entries.entries =
        l.entries.entries ++ [rowOf (entryFor job height prevRef now)] ∧
      (l.put (entryFor job height prevRef now)).verifyChain =
        l.verifyChain.map fun report => ⟨report.totalEntries + 1, report.breaks⟩ := by
  have hrows : (l.put (entryFor job height prevRef now)).entries.entries =
      l.entries.entries ++ [rowOf (entryFor job height prevRef now)] :=
    Table.entries_insert _ _ _ (keys_before_next l height prevRef hhead hroom)
  refine ⟨hrows, ?_⟩
  generalize he : entryFor job height prevRef now = e at hrows
  have hvalues : (l.put e).entries.values = l.entries.values ++ [Coded.render e] := by
    unfold Table.values
    rw [hrows, List.map_append]
    rfl
  cases hes : l.entries.values.mapM readRow with
  | error fault =>
    unfold verifyChain
    rw [hvalues, mapM_readRow_append, hes]
    rfl
  | ok es =>
    obtain ⟨key, hlast⟩ := head_of_values l es hes
    rw [hhead] at hlast
    cases hlast
    have hsound : breaksAt (lastRef genesisRef es) e = [] := by
      rw [breaksAt_eq_nil_iff, ← he]
      exact ⟨rfl, rfl⟩
    have hnow : (l.put e).entries.values.mapM readRow = .ok (es ++ [e]) := by
      rw [hvalues, mapM_readRow_append, hes, readRow_render]
      rfl
    rw [verifyChain_of_values _ _ hes, verifyChain_of_values _ _ hnow, breaksFrom_append,
      breaksFrom, breaksFrom, hsound, List.append_nil, List.append_nil, List.length_append]
    rfl

/-- Whatever the rows are, while the greatest key is not the last possible one: recording succeeds
where the chain can be walked, names the new last entry, and leaves the breaks as they are. -/
theorem record_keeps_breaks (l : Ledger)
    (hroom : ∀ row, l.entries.last? = some row → row.1.toNat < 2 ^ 64 - 1) (job : Job)
    (now : Timestamp) :
    (∀ report, l.verifyChain = .ok report → ∃ answer, l.record job now = .ok answer) ∧
      ∀ txRef l', l.record job now = .ok (txRef, l') →
        l'.verifyChain =
            l.verifyChain.map (fun report => ⟨report.totalEntries + 1, report.breaks⟩) ∧
          ∃ e : LedgerEntry, l'.entries.entries = l.entries.entries ++ [rowOf e] ∧
            l'.entries.last? = some (e.height, Coded.render e) ∧ e.txRef = txRef := by
  constructor
  · intro report hreport
    obtain ⟨es, hes, -⟩ := bind_eq_ok hreport
    obtain ⟨height, hhead⟩ := head_of_values l es hes
    let e := entryFor job height (lastRef genesisRef es) now
    refine ⟨(e.txRef, l.put e), ?_⟩
    unfold record
    rw [hhead]
    rfl
  · intro txRef l' hrecord
    obtain ⟨⟨height, prevRef⟩, hhead, hput⟩ := bind_eq_ok hrecord
    cases hput
    obtain ⟨hrows, hreport⟩ := verifyChain_put_of_head l height prevRef hhead hroom job now
    refine ⟨hreport, _, hrows, ?_, rfl⟩
    unfold Table.last?
    rw [hrows, List.getLast?_concat]
    rfl

/-- An entry under another reference than its own. -/
def misnamedEntry : LedgerEntry := { firstEntry with txRef := genesisRef }

/-- One row, with that entry, under a key that is not its height. -/
def strayRow : Ledger := empty.setRow 7 (some (Coded.render misnamedEntry))

/-- The break that was there stays, and no other one comes. -/
theorem record_keeps_breaks_strayRow :
    (∀ row, strayRow.entries.last? = some row → row.1.toNat < 2 ^ 64 - 1) ∧
      ∃ txRef l', ∃ e : LedgerEntry, strayRow.record default 5 = .ok (txRef, l') ∧
        l'.verifyChain =
          .ok ⟨2, [⟨1, .txRefMismatch, misnamedEntry.computedRef, genesisRef⟩]⟩ ∧
        l'.entries.entries = [(7, Coded.render misnamedEntry), (e.height, Coded.render e)] ∧
        e.txRef = txRef := by
  have hroom : ∀ row, strayRow.entries.last? = some row → row.1.toNat < 2 ^ 64 - 1 := by
    intro row hrow
    cases hrow
    decide
  have hreport : strayRow.verifyChain =
      .ok ⟨1, [⟨1, .txRefMismatch, misnamedEntry.computedRef, genesisRef⟩]⟩ := by
    have hlink : misnamedEntry.prevRef = genesisRef := rfl
    have href : misnamedEntry.computedRef ≠ misnamedEntry.txRef := computedRef_ne_genesisRef _
    rw [verifyChain_of_values strayRow [misnamedEntry] (mapM_readRow [misnamedEntry]), breaksFrom,
      breaksFrom, breaksAt, if_pos hlink, if_neg href]
    rfl
  obtain ⟨hanswer, hkept⟩ := record_keeps_breaks strayRow hroom default 5
  obtain ⟨⟨txRef, l'⟩, hrecord⟩ := hanswer _ hreport
  obtain ⟨hreport', e, hrows, -, href⟩ := hkept txRef l' hrecord
  rw [hreport] at hreport'
  exact ⟨hroom, txRef, l', e, hrecord, hreport', hrows, href⟩

end OrderDispatch.Ledger
