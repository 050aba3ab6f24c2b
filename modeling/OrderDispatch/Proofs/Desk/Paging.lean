import OrderDispatch.Proofs.Desk.Answers
import OrderDispatch.Proofs.Store.Listing

/-!
# Pages

A listing is handed out page by page, and each page counts the orders of all of them. The pages of
one size are consecutive parts of one list: the matching orders after the run, newest first. So all
the pages together hold each of them once.

    page k = (listing.drop ((k - 1) * size)).take size
    pages 1, …, n = listing.take (n * size)                 (flatMap_parts)
    pages 1, …, length ⌈/⌉ size = listing                   (flatMap_part)

The count of a page is at most 100, and the number of a page has 32 bits, so that the offset is far
below `2 ^ 64`.
-/

namespace OrderDispatch

/-! ## Parts of a list -/

/-- Consecutive parts of one size make up the front of a list. -/
theorem flatMap_parts {α : Type} (l : List α) (size n : Nat) :
    ((List.range n).flatMap fun k => (l.drop (k * size)).take size) = l.take (n * size) := by
  induction n with
  | zero => simp
  | succ n ih =>
    rw [List.range_succ, List.flatMap_append, ih, Nat.succ_mul, List.take_add]
    simp

/-- Where every step succeeds, all do. -/
theorem mapM_eq_ok {ε α β : Type} (f : α → Except ε β) (g : α → β) (as : List α)
    (h : ∀ a ∈ as, f a = .ok (g a)) : as.mapM f = .ok (as.map g) := by
  induction as with
  | nil => rfl
  | cons a as ih =>
    rw [List.mapM_cons, h a List.mem_cons_self, ih fun b hb => h b (List.mem_cons_of_mem _ hb)]
    rfl

/-! ## Queries -/

/-- The limit in effect is ten if nobody asks for some, and never more than 100. -/
theorem toNat_effectiveLimit (limit : Option UInt32) :
    (effectiveLimit 10 limit).toNat =
      match limit with
      | none => 10
      | some n => if n = 0 then 10 else min n.toNat 100 := by
  unfold effectiveLimit
  cases limit with
  | none => rfl
  | some n =>
    show (if n = 0 then (10 : UInt32) else min n maxPageLimit).toNat =
      if n = 0 then 10 else min n.toNat 100
    split
    · rfl
    · exact UInt32.toNat_min _ _

namespace ListQuery

/-- There is at least one order on a page, and at most 100. -/
theorem pageSize_bounds (q : ListQuery) : 1 ≤ q.pageSize.toNat ∧ q.pageSize.toNat ≤ 100 := by
  unfold pageSize effectiveLimit
  split
  · decide
  · next n _ =>
    split
    · decide
    · next hne =>
      have hpos : n.toNat ≠ 0 := fun h => hne (UInt32.toNat_inj.1 h)
      rw [UInt32.toNat_min, show maxPageLimit.toNat = 100 from rfl]
      omega

theorem toNat_effectivePage (q : ListQuery) :
    q.effectivePage.toNat = max (q.page.getD 1).toNat 1 :=
  UInt32.toNat_max _ _

theorem le_effectivePage (page : UInt32) (limit : Option UInt32) (status : Option OrderStatus) :
    page.toNat ≤ (ListQuery.mk (some page) limit status).effectivePage.toNat := by
  rw [toNat_effectivePage]
  exact le_max_left _ _

theorem effectivePage_ofNat (k : Nat) (hpos : 1 ≤ k) (hlt : k < 2 ^ 32) (limit : Option UInt32)
    (status : Option OrderStatus) :
    (ListQuery.mk (some (.ofNat k)) limit status).effectivePage.toNat = k := by
  rw [toNat_effectivePage, Option.getD_some, UInt32.toNat_ofNat_of_lt' hlt, max_eq_left hpos]

/-- The offset has room in 64 bits. -/
theorem offset_lt (q : ListQuery) : q.offset < 2 ^ 64 := by
  have hpage := q.effectivePage.toNat_lt
  have hsize := q.pageSize_bounds.2
  unfold offset
  calc (q.effectivePage.toNat - 1) * q.pageSize.toNat ≤ 2 ^ 32 * 100 :=
        Nat.mul_le_mul (by omega) hsize
    _ < 2 ^ 64 := by norm_num

/-- The part of a list that is on the page in effect. -/
def part {α : Type} (q : ListQuery) (l : List α) : List α :=
  (l.drop ((q.effectivePage.toNat - 1) * q.pageSize.toNat)).take q.pageSize.toNat

section Parts

variable {α : Type} (l : List α) (limit : Option UInt32) (status : Option OrderStatus)

theorem length_le_pages :
    l.length ≤ l.length ⌈/⌉ (effectiveLimit 10 limit).toNat * (effectiveLimit 10 limit).toNat := by
  have hpos : 0 < (effectiveLimit 10 limit).toNat :=
    (ListQuery.mk none limit none).pageSize_bounds.1
  rw [Nat.mul_comm]
  exact (ceilDiv_le_iff_le_mul hpos).1 le_rfl

/-- All pages together are the list, if their numbers have 32 bits. -/
theorem flatMap_part (hfew : l.length ⌈/⌉ (effectiveLimit 10 limit).toNat < 2 ^ 32) :
    ((List.range (l.length ⌈/⌉ (effectiveLimit 10 limit).toNat)).flatMap fun k =>
      (ListQuery.mk (some (.ofNat (k + 1))) limit status).part l) = l := by
  have hwhole := length_le_pages l limit
  have hpart : ∀ k ∈ List.range (l.length ⌈/⌉ (effectiveLimit 10 limit).toNat),
      (ListQuery.mk (some (.ofNat (k + 1))) limit status).part l =
        (l.drop (k * (effectiveLimit 10 limit).toNat)).take (effectiveLimit 10 limit).toNat := by
    intro k hk
    have hlt := List.mem_range.1 hk
    unfold part
    rw [effectivePage_ofNat (k + 1) (by omega) (by omega), Nat.add_sub_cancel]
    rfl
  rw [List.flatMap_congr hpart, flatMap_parts, List.take_of_length_le hwhole]

/-- Behind them there is nothing. -/
theorem part_eq_nil (page : UInt32)
    (hlate : l.length ⌈/⌉ (effectiveLimit 10 limit).toNat < page.toNat) :
    (ListQuery.mk (some page) limit status).part l = [] := by
  have hnumber := le_effectivePage page limit status
  have hbehind : l.length ≤ ((ListQuery.mk (some page) limit status).effectivePage.toNat - 1) *
      (ListQuery.mk (some page) limit status).pageSize.toNat :=
    (length_le_pages l limit).trans (Nat.mul_le_mul_right _ (by omega))
  unfold part
  rw [List.drop_eq_nil_of_le hbehind, List.take_nil]

end Parts

end ListQuery

/-! ## Pages -/

namespace Desk

/-- One page of the orders under a key of an index. -/
def listUnder (d : Desk) : OrderIndex → String → ListQuery → Except Failure Listing
  | .user => d.listByUser
  | .provider => d.listByProvider

theorem listUnder_eq (d : Desk) (x : OrderIndex) (key : String) (hkey : Text.isBlank key = false)
    (q : ListQuery) : d.listUnder x key q = d.list x key q := by
  cases x with
  | user =>
    show d.listByUser key q = _
    unfold listByUser
    rw [(requireText_eq_ok_iff "user ID" key).2 hkey]
    rfl
  | provider =>
    show d.listByProvider key q = _
    unfold listByProvider
    rw [(requireText_eq_ok_iff "provider ID" key).2 hkey]
    rfl

/-- After every run, the pages of one size are the parts of one list: the stored orders of a user,
or those that a provider has, of one status or of any, the newest first, and of two as old as each
other the one with the smaller identifier. Each page counts all of them. -/
theorem pages_partition (capacity : Nat) (steps : List DeskStep) (x : OrderIndex) (key : String)
    (hkey : Text.isBlank key = false) (status : Option OrderStatus) (limit : Option UInt32) :
    let d := run capacity steps
    let size : Nat :=
      match limit with
      | none => 10
      | some n => if n = 0 then 10 else min n.toNat 100
    let total := (d.store.matching x key status).length
    d.store.all.map (·.id) = d.store.orders.keys ∧ 1 ≤ size ∧ size ≤ 100 ∧
    ∃ listing : List Order, listing.Perm (d.store.matching x key status) ∧
      (listing.Pairwise fun a b =>
        b.createdAt < a.createdAt ∨ a.createdAt = b.createdAt ∧ a.id < b.id) ∧
      (∀ page, let q : ListQuery := ⟨page, limit, status⟩
        let number := max (page.getD 1).toNat 1
        q.effectivePage.toNat = number ∧ q.pageSize.toNat = size ∧ q.offset < 2 ^ 64 ∧
        d.listUnder x key q = .ok ⟨(listing.drop ((number - 1) * size)).take size, total,
          q.effectivePage, q.pageSize⟩) ∧
      (total ⌈/⌉ size < 2 ^ 32 → ∃ answers,
        ((List.range (total ⌈/⌉ size)).mapM fun k =>
          d.listUnder x key ⟨some (.ofNat (k + 1)), limit, status⟩) = .ok answers ∧
        answers.flatMap (·.orders) = listing) ∧
      ∀ page answer, total ⌈/⌉ size < page.toNat →
        d.listUnder x key ⟨some page, limit, status⟩ = .ok answer → answer.orders = [] := by
  intro d size total
  have hs : d.store.Indexed := indexed_run capacity steps
  have hread : d.store.Readable := readable_run capacity steps
  obtain ⟨listing, hperm, hsorted, hlist⟩ := OrderStore.list_eq d.store hs hread x key status
  have hsize : (effectiveLimit 10 limit).toNat = size := toNat_effectiveLimit limit
  have hbounds : 1 ≤ size ∧ size ≤ 100 :=
    hsize ▸ (ListQuery.mk none limit status).pageSize_bounds
  have htotal : listing.length = total := hperm.length_eq
  have hpage : ∀ page, let q : ListQuery := ⟨page, limit, status⟩
      d.listUnder x key q = .ok ⟨q.part listing, total, q.effectivePage, q.pageSize⟩ := by
    intro page q
    rw [listUnder_eq d x key hkey]
    unfold Desk.list
    rw [hlist]
    rfl
  refine ⟨OrderStore.map_id_all d.store hs hread, hbounds.1, hbounds.2, listing, hperm, hsorted,
    ?_, ?_, ?_⟩
  · intro page q number
    have hnumber : q.effectivePage.toNat = number := q.toNat_effectivePage
    have hcount : q.pageSize.toNat = size := hsize
    refine ⟨hnumber, hcount, q.offset_lt, ?_⟩
    rw [← hnumber, ← hcount]
    exact hpage page
  · intro hfew
    refine ⟨_, mapM_eq_ok _ _ _ fun k _ => hpage (some (.ofNat (k + 1))), ?_⟩
    rw [← htotal, ← hsize] at hfew ⊢
    rw [List.flatMap_map]
    exact ListQuery.flatMap_part listing limit status hfew
  · intro page answer hlate hanswer
    rw [← htotal, ← hsize] at hlate
    cases (hpage (some page)).symm.trans hanswer
    exact ListQuery.part_eq_nil listing limit status page hlate

/-! ## Two pages -/

/-- An order is opened at some time, under some identifier. -/
def openingAt (t : Timestamp) (i : String) : DeskStep :=
  ⟨{ quiet with now := t, later := t, newId := fun _ => i }, .request (.create costly)⟩

/-- What is found of it. -/
def openedAt (t : Timestamp) (i : String) : Order :=
  (costly.order i t t (.ofPoint ⟨1, 2⟩) (.ofPoint ⟨3, 4⟩) costlyTotals).withFigures costlyReread

theorem get_openingAt (d : Desk) (t : Timestamp) (i : String)
    (hfresh : d.store.orders.contains i = false) :
    (d.after (openingAt t i)).store.get i = .ok (some (openedAt t i)) ∧
      ∀ j, j ≠ i → (d.after (openingAt t i)).store.orders.find? j = d.store.orders.find? j := by
  have htotals : Totals.ofItems costly.items = .ok costlyTotals := by decide +kernel
  let o := costly.order i t t (.ofPoint ⟨1, 2⟩) (.ofPoint ⟨3, 4⟩) costlyTotals
  have hread : Rereads.reread? o = some (openedAt t i) := by
    rw [show o = o.withFigures costlyOrder from rfl, reread?_withFigures, reread?_costlyOrder]
    rfl
  obtain ⟨store, hinsert⟩ : ∃ store, d.store.insert o = .ok store := by
    unfold OrderStore.insert
    rw [if_neg (by rw [show o.id = i from rfl, hfresh]; decide)]
    exact ⟨_, rfl⟩
  have hbooks := toBooks_create d (openingAt t i).moment costly _ _ costlyTotals store rfl htotals
    hinsert
  obtain ⟨hstored, hothers⟩ :=
    OrderStore.row_write d.store store i o (OrderStore.insert_eq_ok _ _ _ hinsert).2
  have hstore : (d.after (openingAt t i)).store = store := congrArg Books.store hbooks
  rw [hstore]
  exact ⟨OrderStore.get_of_reread? store i o _ hstored hread, hothers⟩

/-- Two orders are opened at once, and a third one later. -/
def threeOpenings : List DeskStep := [openingAt 0 "o-1", openingAt 0 "o-2", openingAt 1 "o-3"]

theorem get_threeOpenings :
    (run 1 threeOpenings).store.get "o-1" = .ok (some (openedAt 0 "o-1")) ∧
      (run 1 threeOpenings).store.get "o-2" = .ok (some (openedAt 0 "o-2")) ∧
      (run 1 threeOpenings).store.get "o-3" = .ok (some (openedAt 1 "o-3")) := by
  obtain ⟨hfirst, hone⟩ := get_openingAt (ofCapacity 1) 0 "o-1" rfl
  obtain ⟨hsecond, htwo⟩ := get_openingAt ((ofCapacity 1).after (openingAt 0 "o-1")) 0 "o-2"
    (OrderStore.contains_eq_of_find? _ _ _ (hone "o-2" (by decide)))
  have hfresh := (htwo "o-3" (by decide)).trans (hone "o-3" (by decide))
  obtain ⟨hthird, hthree⟩ := get_openingAt _ 1 "o-3" (OrderStore.contains_eq_of_find? _ _ _ hfresh)
  refine ⟨?_, ?_, hthird⟩
  · rw [← hfirst]
    exact OrderStore.get_congr _ _ _
      ((hthree "o-1" (by decide)).trans (htwo "o-1" (by decide)))
  · rw [← hsecond]
    exact OrderStore.get_congr _ _ _ (hthree "o-2" (by decide))

theorem matching_threeOpenings : (run 1 threeOpenings).store.matching .user "u-1" none =
    [openedAt 0 "o-1", openedAt 0 "o-2", openedAt 1 "o-3"] := by
  have hkeys : (run 1 threeOpenings).store.orders.keys = ["o-1", "o-2", "o-3"] := by
    decide +kernel
  obtain ⟨hfirst, hsecond, hthird⟩ := get_threeOpenings
  rw [← OrderStore.found?_eq_some_iff] at hfirst hsecond hthird
  unfold OrderStore.matching OrderStore.all
  rw [hkeys, List.filterMap_cons_some hfirst, List.filterMap_cons_some hsecond,
    List.filterMap_cons_some hthird]
  rfl

/-- The first page has the latest order, and of the others the one with the smaller identifier. The
second page has the one that is left. -/
theorem pages_partition_threeOpenings :
    Text.isBlank "u-1" = false ∧ ∃ first second,
      (run 1 threeOpenings).listUnder .user "u-1" ⟨none, some 2, none⟩ = .ok first ∧
        (run 1 threeOpenings).listUnder .user "u-1" ⟨some 2, some 2, none⟩ = .ok second ∧
        first.total = 3 ∧ first.orders = [openedAt 1 "o-3", openedAt 0 "o-1"] ∧
        second.total = 3 ∧ second.orders = [openedAt 0 "o-2"] := by
  have hkey : Text.isBlank "u-1" = false := by decide
  obtain ⟨-, -, -, listing, hperm, hsorted, hpage, -⟩ :=
    pages_partition 1 threeOpenings .user "u-1" hkey none (some 2)
  rw [matching_threeOpenings] at hperm hpage
  have hlisting : listing = [openedAt 1 "o-3", openedAt 0 "o-1", openedAt 0 "o-2"] := by
    refine (hperm.trans ?_).eq_of_pairwise ?_ hsorted ?_
    · decide
    · intro a b _ _ hab hba
      rw [← OrderStore.newerFirst_eq_lt_iff] at hab hba
      rw [Std.OrientedCmp.gt_iff_lt.2 hab] at hba
      cases hba
    · decide
  subst hlisting
  exact ⟨hkey, _, _, (hpage none).2.2.2, (hpage (some 2)).2.2.2, rfl, rfl, rfl, rfl⟩

end Desk

end OrderDispatch
