import OrderDispatch.Proofs.Ledger.Chain

/-!
# Links from entry to entry

A walk without breaks means that every entry leads to the one before it and is the one its reference
was made for. So the last reference covers the whole chain:

    breaksFrom p (xs ++ ys) = breaksFrom p xs ++ breaksFrom (lastRef p xs) ys    (breaksFrom_append)
    no breaks in es and es', and one last reference → es = es'                   (eq_of_lastRef)

The second line goes backwards along both chains at once. The shorter one cannot end early, because
no hash is written like the reference before the first entry. It holds of plain entries, unless two
different contents have one hash.
-/

namespace OrderDispatch.Ledger

open LedgerEntry (genesisRef)

/-! ## Breaks -/

theorem breaksAt_eq_nil_iff (prevRef : String) (e : LedgerEntry) :
    breaksAt prevRef e = [] ↔ e.prevRef = prevRef ∧ e.txRef = e.computedRef := by
  unfold breaksAt
  rw [List.append_eq_nil_iff, eq_comm (a := e.txRef)]
  constructor
  · rintro ⟨hlink, hintact⟩
    constructor
    · by_contra hne
      rw [if_neg hne] at hlink
      cases hlink
    · by_contra hne
      rw [if_neg hne] at hintact
      cases hintact
  · rintro ⟨hlink, hintact⟩
    exact ⟨if_pos hlink, if_pos hintact⟩

/-- A reference that is not the hash of the content is a break. -/
theorem exists_break_of_computedRef (prevRef : String) (e : LedgerEntry)
    (h : e.computedRef ≠ e.txRef) : ∃ b ∈ breaksAt prevRef e, b.height = e.height := by
  refine ⟨⟨e.height, .txRefMismatch, e.computedRef, e.txRef⟩, ?_, rfl⟩
  apply List.mem_append_right
  rw [if_neg h]
  exact List.mem_cons_self

theorem lastRef_cons (prevRef : String) (e : LedgerEntry) (es : List LedgerEntry) :
    lastRef prevRef (e :: es) = lastRef e.txRef es := by
  unfold lastRef
  cases h : es.getLast? <;> simp [List.getLast?_cons, h]

theorem lastRef_append_singleton (prevRef : String) (es : List LedgerEntry) (e : LedgerEntry) :
    lastRef prevRef (es ++ [e]) = e.txRef := by
  unfold lastRef
  rw [List.getLast?_concat]
  rfl

theorem breaksFrom_append (prevRef : String) (xs ys : List LedgerEntry) :
    breaksFrom prevRef (xs ++ ys) =
      breaksFrom prevRef xs ++ breaksFrom (lastRef prevRef xs) ys := by
  induction xs generalizing prevRef with
  | nil => rfl
  | cons x xs ih =>
    rw [List.cons_append, breaksFrom, breaksFrom, ih, lastRef_cons, List.append_assoc]

/-- One more entry makes no break exactly if it leads to the last one and is intact. -/
theorem breaksFrom_append_singleton_eq_nil_iff (prevRef : String) (es : List LedgerEntry)
    (e : LedgerEntry) :
    breaksFrom prevRef (es ++ [e]) = [] ↔
      breaksFrom prevRef es = [] ∧ e.prevRef = lastRef prevRef es ∧ e.txRef = e.computedRef := by
  rw [breaksFrom_append, List.append_eq_nil_iff, breaksFrom, breaksFrom, List.append_nil,
    breaksAt_eq_nil_iff]

/-- The entry that is made behind a chain without breaks makes none. -/
theorem breaksFrom_nextEntry (es : List LedgerEntry) (hes : breaksFrom genesisRef es = [])
    (job : Job) (now : Timestamp) : breaksFrom genesisRef (es ++ [nextEntry es job now]) = [] :=
  (breaksFrom_append_singleton_eq_nil_iff genesisRef es _).2 ⟨hes, rfl, rfl⟩

theorem intact_of_breaksFrom (prevRef : String) (es : List LedgerEntry)
    (h : breaksFrom prevRef es = []) : ∀ e ∈ es, e.txRef = e.computedRef := by
  induction es generalizing prevRef with
  | nil =>
    intro e he
    cases he
  | cons x xs ih =>
    rw [breaksFrom, List.append_eq_nil_iff, breaksAt_eq_nil_iff] at h
    intro e he
    rcases List.mem_cons.1 he with rfl | he
    · exact h.1.2
    · exact ih x.txRef h.2 e he

/-- The report is about the entries in the rows. -/
theorem verifyChain_of_values (l : Ledger) (es : List LedgerEntry)
    (hes : l.entries.values.mapM readRow = .ok es) :
    l.verifyChain = .ok ⟨es.length, breaksFrom genesisRef es⟩ := by
  unfold verifyChain
  rw [hes]
  rfl

theorem breaksFrom_of_isIntact (l : Ledger) (es : List LedgerEntry)
    (hes : l.entries.values.mapM readRow = .ok es)
    (hintact : ∃ r, l.verifyChain = .ok r ∧ r.isIntact = true) :
    breaksFrom genesisRef es = [] := by
  obtain ⟨r, hr, hempty⟩ := hintact
  rw [verifyChain_of_values l es hes] at hr
  cases hr
  exact List.isEmpty_iff.1 hempty

/-! ## The last reference -/

/-- A hash has an even count of digits, which the reference before the first entry has not. -/
theorem computedRef_ne_genesisRef (e : LedgerEntry) : e.computedRef ≠ genesisRef := by
  intro h
  have hlength := congrArg String.length h
  have hgenesis : genesisRef.length = 7 := by decide
  unfold LedgerEntry.computedRef Sha256.hexDigest at hlength
  rw [Text.length_hex, hgenesis] at hlength
  omega

theorem collides_of_subset (es es' : List LedgerEntry) (h : ∀ e ∈ es, e ∈ es')
    (hes : Collides es) : Collides es' := by
  obtain ⟨a, ha, b, hb, hdiffer⟩ := hes
  exact ⟨a, h a ha, b, h b hb, hdiffer⟩

/-- Plain entries with one reference are the same, where no hashes collide. -/
theorem eq_of_txRef (es : List LedgerEntry) (hno : ¬ Collides es) (a b : LedgerEntry) (ha : a ∈ es)
    (hb : b ∈ es) (hpa : a.Plain) (hpb : b.Plain) (hza : 0 ∉ Text.utf8 a.prevRef)
    (hzb : 0 ∉ Text.utf8 b.prevRef) (hia : a.txRef = a.computedRef)
    (hib : b.txRef = b.computedRef) (h : a.txRef = b.txRef) : a = b := by
  have hpreimage := preimage_of_txRef es hno a b ha hb hia hib h
  have hab := LedgerEntry.preimage_inj a b hpa hpb hza hzb hpreimage
  rw [← h] at hab
  exact hab

/-- Two chains without breaks that end in one reference are the same. -/
theorem eq_of_lastRef (es es' : List LedgerEntry) (hes : breaksFrom genesisRef es = [])
    (hes' : breaksFrom genesisRef es' = []) (hplain : ∀ e ∈ es, e.Plain)
    (hplain' : ∀ e ∈ es', e.Plain) (hno : ¬ Collides (es ++ es'))
    (hlast : lastRef genesisRef es = lastRef genesisRef es') : es = es' := by
  induction es using List.reverseRecOn generalizing es' with
  | nil =>
    cases es' using List.reverseRecOn with
    | nil => rfl
    | append_singleton ys y =>
      rw [breaksFrom_append_singleton_eq_nil_iff] at hes'
      rw [lastRef_append_singleton, hes'.2.2] at hlast
      exact absurd hlast.symm (computedRef_ne_genesisRef y)
  | append_singleton xs x ih =>
    rw [breaksFrom_append_singleton_eq_nil_iff] at hes
    obtain ⟨hxs, hlink, hintact⟩ := hes
    cases es' using List.reverseRecOn with
    | nil =>
      rw [lastRef_append_singleton, hintact] at hlast
      exact absurd hlast (computedRef_ne_genesisRef x)
    | append_singleton ys y =>
      rw [breaksFrom_append_singleton_eq_nil_iff] at hes'
      obtain ⟨hys, hlink', hintact'⟩ := hes'
      rw [lastRef_append_singleton, lastRef_append_singleton] at hlast
      have hx : x ∈ xs ++ [x] := List.mem_append_right _ List.mem_cons_self
      have hy : y ∈ ys ++ [y] := List.mem_append_right _ List.mem_cons_self
      have hzx : 0 ∉ Text.utf8 x.prevRef := by
        rw [hlink]
        exact zero_not_mem_lastRef xs (intact_of_breaksFrom _ xs hxs)
      have hzy : 0 ∉ Text.utf8 y.prevRef := by
        rw [hlink']
        exact zero_not_mem_lastRef ys (intact_of_breaksFrom _ ys hys)
      have hxy : x = y := eq_of_txRef _ hno x y (List.mem_append_left _ hx)
        (List.mem_append_right _ hy) (hplain x hx) (hplain' y hy) hzx hzy hintact hintact' hlast
      -- One entry leads to one entry before it.
      have hbefore : lastRef genesisRef xs = lastRef genesisRef ys := by
        rw [← hlink, ← hlink', hxy]
      have hsubset : ∀ e ∈ xs ++ ys, e ∈ xs ++ [x] ++ (ys ++ [y]) := by
        intro e he
        rcases List.mem_append.1 he with he | he
        · exact List.mem_append_left _ (List.mem_append_left _ he)
        · exact List.mem_append_right _ (List.mem_append_left _ he)
      have hrest := ih ys hxs hys (fun e he => hplain e (List.mem_append_left _ he))
        (fun e he => hplain' e (List.mem_append_left _ he))
        (fun h => hno (collides_of_subset _ _ hsubset h)) hbefore
      rw [hrest, hxy]

/-- Two ledgers of plain entries, found intact, whose last entries have the same reference hold the
same entries, unless two different contents among them have one hash. -/
theorem intact_chains_agree (l l' : Ledger) (es es' : List LedgerEntry) (e e' : LedgerEntry)
    (hes : l.entries.values.mapM readRow = .ok es)
    (hes' : l'.entries.values.mapM readRow = .ok es')
    (hplain : ∀ e ∈ es, e.Plain) (hplain' : ∀ e ∈ es', e.Plain)
    (hintact : ∃ r, l.verifyChain = .ok r ∧ r.isIntact = true)
    (hintact' : ∃ r, l'.verifyChain = .ok r ∧ r.isIntact = true)
    (hlast : es.getLast? = some e) (hlast' : es'.getLast? = some e')
    (href : e.txRef = e'.txRef) :
    Collides (es ++ es') ∨ es.length = es'.length ∧ es = es' := by
  by_cases hcollides : Collides (es ++ es')
  · exact .inl hcollides
  · right
    have hends : lastRef genesisRef es = lastRef genesisRef es' := by
      unfold lastRef
      rw [hlast, hlast']
      exact href
    have hsame := eq_of_lastRef es es' (breaksFrom_of_isIntact l es hes hintact)
      (breaksFrom_of_isIntact l' es' hes' hintact') hplain hplain' hcollides hends
    exact ⟨congrArg List.length hsame, hsame⟩

/-! ## A row under another key -/

def firstEntry : LedgerEntry := nextEntry [] ⟨"order-1", "user-1", some "provider-1", default⟩ 0

def secondEntry : LedgerEntry := nextEntry [firstEntry] ⟨"order-2", "user-2", none, default⟩ 1

def bookedPair : Ledger := (empty.put firstEntry).put secondEntry

/-- The second row has been moved from the key 2 to the key 9. -/
def movedPair : Ledger := (bookedPair.setRow 2 none).setRow 9 (some (Coded.render secondEntry))

theorem holds_bookedPair : bookedPair.Holds [firstEntry, secondEntry] := by
  have hfirst := holds_empty.put_nextEntry empty []
    ⟨"order-1", "user-1", some "provider-1", default⟩ 0 (by decide)
  exact hfirst.put_nextEntry _ [firstEntry] ⟨"order-2", "user-2", none, default⟩ 1 (by decide)

theorem values_movedPair :
    movedPair.entries.values.mapM readRow = .ok [firstEntry, secondEntry] := by
  have hrows : movedPair.entries.entries =
      [(1, Coded.render firstEntry), (9, Coded.render secondEntry)] := by
    show Table.insertEntry 9 _
      (bookedPair.entries.entries.filter fun row => compare 2 row.1 != .eq) = _
    rw [holds_bookedPair.rows]
    rfl
  have hvalues : movedPair.entries.values = [firstEntry, secondEntry].map Coded.render := by
    unfold Table.values
    rw [hrows]
    rfl
  rw [hvalues, mapM_readRow]

theorem plain_bookedPair : ∀ e ∈ [firstEntry, secondEntry], e.Plain := by
  intro e he
  rcases List.mem_pair.1 he with rfl | rfl
  · refine ⟨by decide, by decide, ?_, by decide⟩
    intro p hp
    cases hp
    decide
  · refine ⟨by decide, by decide, ?_, by decide⟩
    intro p hp
    cases hp

/-- Where a row is kept does not matter to the chain, as long as the rows stay in order. -/
theorem intact_chains_agree_movedPair :
    movedPair.entries ≠ bookedPair.entries ∧ ∃ es es' e e',
      bookedPair.entries.values.mapM readRow = .ok es ∧
      movedPair.entries.values.mapM readRow = .ok es' ∧
      (∀ e ∈ es, e.Plain) ∧ (∀ e ∈ es', e.Plain) ∧
      (∃ r, bookedPair.verifyChain = .ok r ∧ r.isIntact = true) ∧
      (∃ r, movedPair.verifyChain = .ok r ∧ r.isIntact = true) ∧
      es.getLast? = some e ∧ es'.getLast? = some e' ∧ e.txRef = e'.txRef ∧
      (Collides (es ++ es') ∨ es.length = es'.length ∧ es = es') := by
  have hbreaks : breaksFrom genesisRef [firstEntry, secondEntry] = [] :=
    breaksFrom_nextEntry [firstEntry] (breaksFrom_nextEntry [] rfl _ _) _ _
  have hbooked := holds_bookedPair.values
  have hmoved := values_movedPair
  have hintact : ∃ r, bookedPair.verifyChain = .ok r ∧ r.isIntact = true :=
    ⟨_, verifyChain_of_values _ _ hbooked, by rw [hbreaks]; rfl⟩
  have hintact' : ∃ r, movedPair.verifyChain = .ok r ∧ r.isIntact = true :=
    ⟨_, verifyChain_of_values _ _ hmoved, by rw [hbreaks]; rfl⟩
  constructor
  · intro hsame
    have hrow : movedPair.entries.find? 2 = some (Coded.render secondEntry) := by
      rw [hsame]
      exact holds_bookedPair.find?_height _ _ secondEntry (by simp)
    simp [movedPair, setRow] at hrow
  · exact ⟨_, _, secondEntry, secondEntry, hbooked, hmoved, plain_bookedPair, plain_bookedPair,
      hintact, hintact', rfl, rfl, rfl,
      intact_chains_agree _ _ _ _ _ _ hbooked hmoved plain_bookedPair plain_bookedPair hintact
        hintact' rfl rfl rfl⟩

end OrderDispatch.Ledger
