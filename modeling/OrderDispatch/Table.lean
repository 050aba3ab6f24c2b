/-!
# Tables

A table maps keys to values and keeps its entries in ascending order of the keys, each key once, so
that two tables with the same entries are equal and a walk has one possible order.

    t.insert k v  holds v at k and is t elsewhere      (find?_insert)
    t.erase k     holds nothing at k and is t elsewhere  (find?_erase)

A key may have two parts, of which the first one names an owner; `under` lists what one owner has.
-/

namespace OrderDispatch

/-- Entries in strictly ascending order of their keys. -/
structure Table (κ : Type) (ν : Type) [Ord κ] where
  entries : List (κ × ν)
  ascending : entries.Pairwise fun a b => compare a.1 b.1 = .lt

namespace Table

variable {κ ν : Type} [Ord κ]

instance [DecidableEq κ] [DecidableEq ν] : DecidableEq (Table κ ν) := fun s t =>
  if h : s.entries = t.entries then .isTrue (by cases s; cases t; simp_all)
  else .isFalse (by rintro rfl; exact h rfl)

instance : Inhabited (Table κ ν) := ⟨⟨[], .nil⟩⟩

/-- The table without entries. -/
def empty : Table κ ν := ⟨[], .nil⟩

/-- The count of entries. -/
def size (t : Table κ ν) : Nat := t.entries.length

/-- The value at a key in a list of entries. -/
def lookup (k : κ) : List (κ × ν) → Option ν
  | [] => none
  | (l, v) :: rest => if compare k l = .eq then some v else lookup k rest

/-- The value at a key. -/
def find? (t : Table κ ν) (k : κ) : Option ν := lookup k t.entries

/-- Whether there is a value at a key. -/
def contains (t : Table κ ν) (k : κ) : Bool := (t.find? k).isSome

/-- The keys in ascending order. -/
def keys (t : Table κ ν) : List κ := t.entries.map (·.1)

/-- The values in the order of their keys. -/
def values (t : Table κ ν) : List ν := t.entries.map (·.2)

/-- The entry with the greatest key. -/
def last? (t : Table κ ν) : Option (κ × ν) := t.entries.getLast?

/-! ## Insertion -/

/-- Puts an entry in its place, over one with the same key. -/
def insertEntry (k : κ) (v : ν) : List (κ × ν) → List (κ × ν)
  | [] => [(k, v)]
  | (l, w) :: rest =>
    match compare k l with
    | .lt => (k, v) :: (l, w) :: rest
    | .eq => (k, v) :: rest
    | .gt => (l, w) :: insertEntry k v rest

theorem mem_insertEntry {k : κ} {v : ν} {e : κ × ν} {es : List (κ × ν)}
    (h : e ∈ insertEntry k v es) : e = (k, v) ∨ e ∈ es := by
  induction es with
  | nil => simpa [insertEntry] using h
  | cons d ds ih =>
    obtain ⟨l, w⟩ := d
    simp only [insertEntry] at h
    split at h
    · simpa using h
    · rcases List.mem_cons.1 h with h | h
      · exact .inl h
      · exact .inr (List.mem_cons_of_mem _ h)
    · rcases List.mem_cons.1 h with h | h
      · exact .inr (h ▸ List.mem_cons_self)
      · exact (ih h).imp_right (List.mem_cons_of_mem _)

theorem ascending_insertEntry [Std.TransOrd κ] {k : κ} {v : ν} {es : List (κ × ν)}
    (h : es.Pairwise fun a b => compare a.1 b.1 = .lt) :
    (insertEntry k v es).Pairwise fun a b => compare a.1 b.1 = .lt := by
  induction es with
  | nil => simp [insertEntry]
  | cons d ds ih =>
    obtain ⟨l, w⟩ := d
    obtain ⟨hd, hds⟩ := List.pairwise_cons.1 h
    simp only [insertEntry]
    split
    · next hc =>
      refine List.pairwise_cons.2 ⟨fun e he => ?_, h⟩
      rcases List.mem_cons.1 he with rfl | he
      · exact hc
      · exact Std.TransCmp.lt_trans hc (hd e he)
    · next hc =>
      refine List.pairwise_cons.2 ⟨fun e he => ?_, hds⟩
      exact Std.TransCmp.lt_of_eq_of_lt hc (hd e he)
    · next hc =>
      refine List.pairwise_cons.2 ⟨fun e he => ?_, ih hds⟩
      rcases mem_insertEntry he with rfl | he
      · exact Std.OrientedCmp.gt_iff_lt.1 hc
      · exact hd e he

/-- The table with this value at this key. -/
def insert [Std.TransOrd κ] (t : Table κ ν) (k : κ) (v : ν) : Table κ ν :=
  ⟨insertEntry k v t.entries, ascending_insertEntry t.ascending⟩

/-- The table of a list of entries, a later one replacing an earlier one with the same key. -/
def ofList [Std.TransOrd κ] (es : List (κ × ν)) : Table κ ν :=
  es.foldl (fun t (k, v) => t.insert k v) empty

/-- The table with nothing at this key. -/
def erase (t : Table κ ν) (k : κ) : Table κ ν :=
  ⟨t.entries.filter fun e => compare k e.1 != .eq, t.ascending.filter _⟩

/-! ## Look-up after a change -/

theorem lookup_insertEntry [DecidableEq κ] [Std.TransOrd κ] [Std.LawfulEqOrd κ] (k l : κ) (v : ν)
    (es : List (κ × ν)) :
    lookup l (insertEntry k v es) = if l = k then some v else lookup l es := by
  induction es with
  | nil => simp [insertEntry, lookup]
  | cons d ds ih =>
    obtain ⟨m, w⟩ := d
    simp only [insertEntry]
    split
    · simp [lookup]
    · next hc =>
      have hk : k = m := Std.LawfulEqOrd.compare_eq_iff_eq.1 hc
      subst hk
      by_cases h : l = k <;> simp [lookup, h]
    · next hc =>
      have hk : k ≠ m := by
        rintro rfl
        simp [Std.ReflCmp.compare_self] at hc
      simp only [lookup, ih, Std.LawfulEqOrd.compare_eq_iff_eq]
      by_cases h : l = k
      · subst h; simp [hk]
      · simp [h]

@[simp] theorem find?_insert [DecidableEq κ] [Std.TransOrd κ] [Std.LawfulEqOrd κ] (t : Table κ ν)
    (k l : κ) (v : ν) :
    (t.insert k v).find? l = if l = k then some v else t.find? l :=
  lookup_insertEntry k l v t.entries

theorem lookup_filter_ne [DecidableEq κ] [Std.LawfulEqOrd κ] (k l : κ) (es : List (κ × ν)) :
    lookup l (es.filter fun e => compare k e.1 != .eq) = if l = k then none else lookup l es := by
  induction es with
  | nil => simp [lookup]
  | cons d ds ih =>
    obtain ⟨m, w⟩ := d
    by_cases hk : k = m
    · subst hk
      by_cases h : l = k <;> simp_all [lookup]
    · by_cases h : l = m
      · subst h
        simp [lookup, hk, Ne.symm hk]
      · by_cases hl : l = k <;> simp_all [lookup]

@[simp] theorem find?_erase [DecidableEq κ] [Std.LawfulEqOrd κ] (t : Table κ ν) (k l : κ) :
    (t.erase k).find? l = if l = k then none else t.find? l :=
  lookup_filter_ne k l t.entries

@[simp] theorem find?_empty (k : κ) : (empty : Table κ ν).find? k = none := rfl

end Table

/-! ## Keys of two parts -/

/-- A key of two parts, ordered by the first part and, where that is the same, by the second. -/
structure PairKey (α : Type) (β : Type) where
  owner : α
  member : β
deriving DecidableEq, Repr

namespace PairKey

variable {α β : Type} [Ord α] [Ord β]

instance : Ord (PairKey α β) :=
  ⟨compareLex (fun a b => compare a.owner b.owner) (fun a b => compare a.member b.member)⟩

theorem compare_def (a b : PairKey α β) :
    compare a b = (compare a.owner b.owner).then (compare a.member b.member) := rfl

instance [Std.TransOrd α] [Std.TransOrd β] : Std.TransOrd (PairKey α β) :=
  inferInstanceAs (Std.TransCmp
    (compareLex (compareOn PairKey.owner) (compareOn PairKey.member)))

instance [Std.LawfulEqOrd α] [Std.LawfulEqOrd β] : Std.LawfulEqOrd (PairKey α β) where
  compare_self := by simp [compare_def]
  eq_of_compare := by
    intro a b h
    obtain ⟨h₁, h₂⟩ := Ordering.then_eq_eq.1 (compare_def a b ▸ h)
    cases a; cases b
    simp_all

end PairKey

/-- The entries under keys with this first part, by their second parts. -/
def Table.under {α β ν : Type} [Ord α] [Ord β] (t : Table (PairKey α β) ν) (owner : α) :
    List (β × ν) :=
  t.entries.filterMap fun (k, v) => if compare k.owner owner = .eq then some (k.member, v) else none

end OrderDispatch
