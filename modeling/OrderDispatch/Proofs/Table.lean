import OrderDispatch.Table

/-!
# Entries in their place

What the list of entries of a table looks like when entries come in ascending order: each goes to
the end. So a table is the table of its own entries, and the last entry is the newest one. Under an
owner, a member greater than all others of that owner comes last too.

    every key before k → insertEntry k v es = es ++ [(k, v)]        (insertEntry_append)
    ofList t.entries = t                                             (ofList_entries)
    insertEntry k w (xs ++ (k, v) :: ys) = xs ++ (k, w) :: ys        (insertEntry_replace)
    (k, v) ∈ t.entries → t.find? k = some v                          (find?_of_mem)
    s.find? = t.find? → s = t                                        (eq_of_find?)
    (t.insert ⟨i, m⟩ v).under i = t.under i ++ [(m, v)]              (under_insert)
    (m, v) ∈ t.under i ↔ t.find? ⟨i, m⟩ = some v                     (mem_under_iff)
-/

namespace OrderDispatch.Table

variable {κ ν : Type} [Ord κ]

/-- An entry behind all others goes to the end. -/
theorem insertEntry_append [Std.OrientedOrd κ] (k : κ) (v : ν) (es : List (κ × ν))
    (h : ∀ e ∈ es, compare e.1 k = .lt) : insertEntry k v es = es ++ [(k, v)] := by
  induction es with
  | nil => rfl
  | cons d ds ih =>
    obtain ⟨l, w⟩ := d
    have hlt : compare l k = .lt := h (l, w) List.mem_cons_self
    have hgt : compare k l = .gt := Std.OrientedCmp.gt_iff_lt.2 hlt
    unfold insertEntry
    rw [hgt]
    show (l, w) :: insertEntry k v ds = _
    rw [ih fun e he => h e (List.mem_cons_of_mem _ he)]
    rfl

theorem entries_insert [Std.TransOrd κ] (t : Table κ ν) (k : κ) (v : ν)
    (h : ∀ e ∈ t.entries, compare e.1 k = .lt) : (t.insert k v).entries = t.entries ++ [(k, v)] :=
  insertEntry_append k v t.entries h

/-- An entry takes the place of one with the same key. -/
theorem insertEntry_replace [Std.OrientedOrd κ] [Std.ReflOrd κ] (k : κ) (v w : ν)
    (xs ys : List (κ × ν))
    (hasc : (xs ++ (k, v) :: ys).Pairwise fun a b => compare a.1 b.1 = .lt) :
    insertEntry k w (xs ++ (k, v) :: ys) = xs ++ (k, w) :: ys := by
  induction xs with
  | nil => simp only [List.nil_append, insertEntry, Std.ReflCmp.compare_self]
  | cons d ds ih =>
    obtain ⟨hd, hds⟩ := List.pairwise_cons.1 hasc
    have hgt : compare k d.1 = .gt :=
      Std.OrientedCmp.gt_iff_lt.2 (hd (k, v) (List.mem_append_right _ List.mem_cons_self))
    simp only [List.cons_append, insertEntry, hgt]
    rw [ih hds]

theorem entries_foldl_insert [Std.TransOrd κ] (es : List (κ × ν)) (t : Table κ ν)
    (h : (t.entries ++ es).Pairwise fun a b => compare a.1 b.1 = .lt) :
    (es.foldl (fun t (k, v) => t.insert k v) t).entries = t.entries ++ es := by
  induction es generalizing t with
  | nil => simp
  | cons e es ih =>
    obtain ⟨k, v⟩ := e
    have hbefore : ∀ e ∈ t.entries, compare e.1 k = .lt := by
      intro e he
      exact (List.pairwise_append.1 h).2.2 e he (k, v) List.mem_cons_self
    have hnext := entries_insert t k v hbefore
    rw [List.foldl_cons, ih (t.insert k v) (by rw [hnext]; simpa using h), hnext,
      List.append_assoc]
    rfl

/-- A table is the table of its entries. -/
theorem ofList_entries [Std.TransOrd κ] (t : Table κ ν) : ofList t.entries = t := by
  have h : (ofList t.entries).entries = t.entries :=
    entries_foldl_insert t.entries empty t.ascending
  cases ht : ofList t.entries
  cases t
  rw [ht] at h
  subst h
  rfl

/-! ## Look-up -/

theorem lookup_of_mem [Std.OrientedOrd κ] [Std.ReflOrd κ] (k : κ) (v : ν) (es : List (κ × ν))
    (hasc : es.Pairwise fun a b => compare a.1 b.1 = .lt) (h : (k, v) ∈ es) :
    lookup k es = some v := by
  induction es with
  | nil => cases h
  | cons d ds ih =>
    obtain ⟨hd, hds⟩ := List.pairwise_cons.1 hasc
    rcases List.mem_cons.1 h with rfl | h
    · simp only [lookup, Std.ReflCmp.compare_self, if_true]
    · have hgt : compare k d.1 = .gt := Std.OrientedCmp.gt_iff_lt.2 (hd (k, v) h)
      simp only [lookup, hgt]
      exact ih hds h

theorem find?_of_mem [Std.TransOrd κ] (t : Table κ ν) (k : κ) (v : ν) (h : (k, v) ∈ t.entries) :
    t.find? k = some v :=
  lookup_of_mem k v t.entries t.ascending h

theorem mem_of_lookup [Std.LawfulEqOrd κ] (k : κ) (v : ν) (es : List (κ × ν))
    (h : lookup k es = some v) : (k, v) ∈ es := by
  induction es with
  | nil => cases h
  | cons d ds ih =>
    obtain ⟨l, w⟩ := d
    unfold lookup at h
    split at h
    · next heq =>
      rw [Std.LawfulEqOrd.eq_of_compare heq, Option.some.inj h]
      exact List.mem_cons_self
    · exact List.mem_cons_of_mem _ (ih h)

theorem mem_of_find? [Std.LawfulEqOrd κ] (t : Table κ ν) (k : κ) (v : ν)
    (h : t.find? k = some v) : (k, v) ∈ t.entries :=
  mem_of_lookup k v t.entries h

/-- Entries in ascending order are in no other. -/
theorem nodup_entries [Std.ReflOrd κ] (t : Table κ ν) : t.entries.Nodup := by
  refine t.ascending.imp ?_
  rintro a b hlt rfl
  have hself : compare a.1 a.1 = .eq := Std.ReflCmp.compare_self
  rw [hself] at hlt
  cases hlt

theorem mem_keys_iff [Std.TransOrd κ] [Std.LawfulEqOrd κ] (t : Table κ ν) (k : κ) :
    k ∈ t.keys ↔ t.contains k = true := by
  unfold keys contains
  rw [List.mem_map, Option.isSome_iff_exists]
  constructor
  · rintro ⟨⟨_, v⟩, he, rfl⟩
    exact ⟨v, find?_of_mem t _ v he⟩
  · rintro ⟨v, h⟩
    exact ⟨(k, v), mem_of_find? t k v h, rfl⟩

theorem nodup_keys [Std.ReflOrd κ] (t : Table κ ν) : t.keys.Nodup := by
  rw [keys, List.Nodup, List.pairwise_map]
  refine t.ascending.imp ?_
  intro a b hlt heq
  have hself : compare b.1 b.1 = .eq := Std.ReflCmp.compare_self
  rw [heq, hself] at hlt
  cases hlt

/-- Two tables with the same values at all keys are the same. -/
theorem eq_of_find? [Std.TransOrd κ] [Std.LawfulEqOrd κ] (s t : Table κ ν)
    (h : ∀ k, s.find? k = t.find? k) : s = t := by
  have hmem : ∀ e, e ∈ s.entries ↔ e ∈ t.entries := by
    rintro ⟨k, v⟩
    constructor
    · exact fun he => mem_of_find? t k v ((h k).symm.trans (find?_of_mem s k v he))
    · exact fun he => mem_of_find? s k v ((h k).trans (find?_of_mem t k v he))
  have hperm := (List.perm_ext_iff_of_nodup s.nodup_entries t.nodup_entries).2 hmem
  have hentries : s.entries = t.entries := by
    refine List.Perm.eq_of_pairwise ?_ s.ascending t.ascending hperm
    intro a b _ _ hab hba
    rw [Std.OrientedCmp.gt_iff_lt.2 hab] at hba
    cases hba
  cases s
  cases t
  cases hentries
  rfl

/-! ## Keys of two parts -/

section Pair

variable {α β : Type} [Ord α]

/-- The entries of an owner among others. -/
def ownedBy (j : α) (es : List (PairKey α β × ν)) : List (β × ν) :=
  es.filterMap fun e => if compare e.1.owner j = .eq then some (e.1.member, e.2) else none

theorem ownedBy_append (j : α) (es fs : List (PairKey α β × ν)) :
    ownedBy j (es ++ fs) = ownedBy j es ++ ownedBy j fs :=
  List.filterMap_append

theorem ownedBy_eq_nil [Std.LawfulEqOrd α] (j : α) (es : List (PairKey α β × ν))
    (h : ∀ e ∈ es, e.1.owner ≠ j) : ownedBy j es = [] := by
  apply List.filterMap_eq_nil_iff.2
  intro e he
  rw [if_neg]
  exact fun heq => h e he (Std.LawfulEqOrd.eq_of_compare heq)

variable [Ord β] [Std.TransOrd α] [Std.TransOrd β] [Std.LawfulEqOrd α] [Std.LawfulEqOrd β]

/-- A member greater than all others of its owner comes behind them. -/
theorem ownedBy_insertEntry (i : α) (m : β) (v : ν) (es : List (PairKey α β × ν))
    (hasc : es.Pairwise fun a b => compare a.1 b.1 = .lt)
    (h : ∀ e ∈ es, e.1.owner = i → compare e.1.member m = .lt) (j : α) :
    ownedBy j (insertEntry ⟨i, m⟩ v es) = ownedBy j es ++ ownedBy j [(⟨i, m⟩, v)] := by
  -- No entry of the owner stands behind the new one, or in its place.
  have hnot : ∀ e ∈ es, compare (⟨i, m⟩ : PairKey α β) e.1 ≠ .gt → e.1.owner ≠ i := by
    intro e he hle howner
    apply hle
    have hmember : compare m e.1.member = .gt := Std.OrientedCmp.gt_iff_lt.2 (h e he howner)
    rw [PairKey.compare_def, howner, hmember]
    simp
  induction es with
  | nil => rfl
  | cons d ds ih =>
    obtain ⟨l, w⟩ := d
    obtain ⟨hd, hds⟩ := List.pairwise_cons.1 hasc
    cases hc : compare (⟨i, m⟩ : PairKey α β) l with
    | lt =>
      have hinsert : insertEntry ⟨i, m⟩ v ((l, w) :: ds) = [(⟨i, m⟩, v)] ++ (l, w) :: ds := by
        simp only [insertEntry, hc]
        rfl
      have hbehind : ∀ e ∈ (l, w) :: ds, e.1.owner ≠ i := by
        intro e he
        apply hnot e he
        rcases List.mem_cons.1 he with rfl | he'
        · rw [hc]
          decide
        · rw [Std.TransCmp.lt_trans hc (hd e he')]
          decide
      rw [hinsert, ownedBy_append]
      rcases Classical.em (i = j) with rfl | hne
      · rw [ownedBy_eq_nil i _ hbehind, List.append_nil, List.nil_append]
      · have hnone : ownedBy j [((⟨i, m⟩ : PairKey α β), v)] = [] := by
          apply ownedBy_eq_nil
          intro e he
          rw [List.mem_singleton.1 he]
          exact hne
        rw [hnone, List.append_nil, List.nil_append]
    | eq =>
      have howner := congrArg PairKey.owner (Std.LawfulEqOrd.eq_of_compare hc)
      refine absurd howner.symm (hnot (l, w) List.mem_cons_self ?_)
      rw [hc]
      decide
    | gt =>
      have hinsert : insertEntry ⟨i, m⟩ v ((l, w) :: ds) =
          [(l, w)] ++ insertEntry ⟨i, m⟩ v ds := by
        simp only [insertEntry, hc]
        rfl
      rw [hinsert, ownedBy_append, ih hds (fun e he => h e (List.mem_cons_of_mem _ he))
        (fun e he => hnot e (List.mem_cons_of_mem _ he)), ← List.append_assoc, ← ownedBy_append]
      rfl

theorem under_insert (t : Table (PairKey α β) ν) (i : α) (m : β) (v : ν)
    (h : ∀ e ∈ t.under i, compare e.1 m = .lt) (j : α) :
    (t.insert ⟨i, m⟩ v).under j =
      t.under j ++ if compare i j = .eq then [(m, v)] else [] := by
  have hbefore : ∀ e ∈ t.entries, e.1.owner = i → compare e.1.member m = .lt := by
    intro e he howner
    exact h (e.1.member, e.2) (List.mem_filterMap.2 ⟨e, he, by simp [howner]⟩)
  refine (ownedBy_insertEntry i m v t.entries t.ascending hbefore j).trans ?_
  unfold ownedBy
  rw [List.filterMap_cons, List.filterMap_nil]
  congr 1
  split <;> simp_all

theorem mem_under_iff (t : Table (PairKey α β) ν) (i : α) (m : β) (v : ν) :
    (m, v) ∈ t.under i ↔ t.find? ⟨i, m⟩ = some v := by
  unfold under
  rw [List.mem_filterMap]
  constructor
  · rintro ⟨⟨⟨j, m'⟩, w⟩, he, h⟩
    obtain ⟨howner, hentry⟩ := Option.ite_none_right_eq_some.1 h
    cases hentry
    cases Std.LawfulEqOrd.eq_of_compare howner
    exact find?_of_mem t _ v he
  · intro h
    exact ⟨(⟨i, m⟩, v), mem_of_find? t _ v h, if_pos Std.ReflCmp.compare_self⟩

omit [Std.TransOrd α] [Std.TransOrd β] in
/-- No member is twice under an owner. -/
theorem nodup_under (t : Table (PairKey α β) ν) (i : α) : ((t.under i).map (·.1)).Nodup := by
  rw [List.Nodup, List.pairwise_map]
  refine List.Pairwise.filterMap _ ?_ t.ascending
  rintro ⟨a, v⟩ ⟨b, w⟩ hlt e he e' he' heq
  obtain ⟨ha, he⟩ := Option.ite_none_right_eq_some.1 he
  obtain ⟨hb, he'⟩ := Option.ite_none_right_eq_some.1 he'
  cases he
  cases he'
  -- Keys of one owner and one member are equal.
  have howner : a.owner = b.owner :=
    (Std.LawfulEqOrd.eq_of_compare ha).trans (Std.LawfulEqOrd.eq_of_compare hb).symm
  have hself : compare a b = .eq := by
    rw [PairKey.compare_def, howner, show a.member = b.member from heq]
    simp
  rw [hself] at hlt
  cases hlt

end Pair

end OrderDispatch.Table
