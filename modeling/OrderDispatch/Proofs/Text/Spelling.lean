import Mathlib.Data.List.DropRight
import Mathlib.Data.List.Forall2
import OrderDispatch.Text.Blank

/-!
# Spellings of a name

A text spells a name if the name stands in it between white space, up to the case of ASCII letters.
Trimming takes the white space off at the two ends, and none from between:

    trimChars (before ++ cs ++ after) = trimChars cs      where before and after are white space
    trimChars (xs ++ gap ++ ys) = xs' ++ gap ++ ys'       where neither xs nor ys is

Two characters are alike if they are equal or a capital and its small letter, out of twenty-six
pairs, and capitals tell characters apart just as far:

    c.toUpper = d.toUpper ↔ Alike c d

So a text spells a name without white space exactly if what trimming leaves is like the name.
-/

namespace OrderDispatch.Text

/-! ## White space at the ends -/

theorem isBlank_iff (s : String) : isBlank s = true ↔ ∀ c ∈ s.toList, isBlankChar c = true :=
  List.all_eq_true

theorem isBlank_eq_false_iff (s : String) :
    isBlank s = false ↔ ∃ c ∈ s.toList, isBlankChar c = false :=
  List.all_eq_false.trans (by simp only [Bool.not_eq_true])

theorem trimChars_eq (cs : List Char) :
    trimChars cs = (cs.dropWhile isBlankChar).rdropWhile isBlankChar := rfl

/-- What trimming takes off is white space. -/
theorem exists_trimChars (cs : List Char) :
    ∃ before after, cs = before ++ trimChars cs ++ after ∧
      (∀ c ∈ before, isBlankChar c = true) ∧ ∀ c ∈ after, isBlankChar c = true := by
  refine ⟨cs.takeWhile isBlankChar, (cs.dropWhile isBlankChar).rtakeWhile isBlankChar, ?_,
    fun c hc => List.mem_takeWhile_imp hc, fun c hc => List.mem_rtakeWhile_imp hc⟩
  rw [trimChars_eq, List.append_assoc, List.rdropWhile_append_rtakeWhile,
    List.takeWhile_append_dropWhile]

theorem mem_trimChars (cs : List Char) (c : Char) (hc : c ∈ cs) (h : isBlankChar c = false) :
    c ∈ trimChars cs := by
  obtain ⟨before, after, hcs, hbefore, hafter⟩ := exists_trimChars cs
  have hnot (hblank : isBlankChar c = true) : False := Bool.false_ne_true (h.symm.trans hblank)
  rw [hcs, List.mem_append, List.mem_append] at hc
  rcases hc with (hc | hc) | hc
  · exact (hnot (hbefore c hc)).elim
  · exact hc
  · exact (hnot (hafter c hc)).elim

section
variable {α : Type} (p : α → Bool) (xs ys : List α)

theorem dropWhile_append_of_neg (h : ∃ c ∈ xs, p c = false) :
    (xs ++ ys).dropWhile p = xs.dropWhile p ++ ys := by
  obtain ⟨c, hc, hpc⟩ := h
  rw [List.dropWhile_append, if_neg]
  rw [List.isEmpty_iff, List.dropWhile_eq_nil_iff]
  exact fun hall => Bool.false_ne_true (hpc.symm.trans (hall c hc))

theorem rdropWhile_append_of_pos (h : ∀ c ∈ ys, p c = true) :
    (xs ++ ys).rdropWhile p = xs.rdropWhile p := by
  unfold List.rdropWhile
  rw [List.reverse_append, List.dropWhile_append_of_pos]
  exact fun c hc => h c (List.mem_reverse.1 hc)

theorem rdropWhile_append_of_neg (h : ∃ c ∈ ys, p c = false) :
    (xs ++ ys).rdropWhile p = xs ++ ys.rdropWhile p := by
  unfold List.rdropWhile
  rw [List.reverse_append, dropWhile_append_of_neg, List.reverse_append, List.reverse_reverse]
  simpa only [List.mem_reverse] using h

end

/-- White space around a text does not show in what trimming leaves. -/
theorem trimChars_append (before cs after : List Char)
    (hbefore : ∀ c ∈ before, isBlankChar c = true) (hafter : ∀ c ∈ after, isBlankChar c = true) :
    trimChars (before ++ cs ++ after) = trimChars cs := by
  rw [trimChars_eq, trimChars_eq, List.append_assoc, List.dropWhile_append_of_pos hbefore,
    List.dropWhile_append]
  -- Without anything but white space in `cs`, trimming from the front goes on behind it.
  split
  · next hnil =>
    have hblank : after.dropWhile isBlankChar = [] := List.dropWhile_eq_nil_iff.2 hafter
    rw [hblank, List.isEmpty_iff.1 hnil]
  · exact rdropWhile_append_of_pos _ _ _ hafter

theorem trimChars_eq_self (cs : List Char) (h : ∀ c ∈ cs, isBlankChar c = false) :
    trimChars cs = cs := by
  have hfront : cs.dropWhile isBlankChar = cs :=
    List.dropWhile_eq_self_iff.2 fun hl => by simp [h]
  rw [trimChars_eq, hfront]
  exact List.rdropWhile_eq_self_iff.2 fun hl => by simp [h]

/-- A gap between two texts that are not just white space is not trimmed. -/
theorem trimChars_gap (xs gap ys : List Char) (hxs : ∃ c ∈ xs, isBlankChar c = false)
    (hys : ∃ c ∈ ys, isBlankChar c = false) :
    trimChars (xs ++ gap ++ ys) =
      xs.dropWhile isBlankChar ++ gap ++ ys.rdropWhile isBlankChar := by
  rw [trimChars_eq, List.append_assoc, dropWhile_append_of_neg _ _ _ hxs, ← List.append_assoc,
    rdropWhile_append_of_neg _ _ _ hys]

/-! ## Case -/

/-- The capital and the small form of each ASCII letter. -/
def letters : List (Char × Char) :=
  "ABCDEFGHIJKLMNOPQRSTUVWXYZ".toList.zip "abcdefghijklmnopqrstuvwxyz".toList

/-- The characters are the same up to the case of ASCII letters. -/
def Alike (c d : Char) : Prop := c = d ∨ (c, d) ∈ letters ∨ (d, c) ∈ letters

/-- What does not tell a capital from its small letter does not tell characters that are alike. -/
theorem Alike.congr {α : Type} {f : Char → α} (hf : ∀ p ∈ letters, f p.1 = f p.2) {c d : Char}
    (h : Alike c d) : f c = f d := by
  rcases h with rfl | h | h
  · rfl
  · exact hf _ h
  · exact (hf _ h).symm

theorem Alike.isBlankChar_eq {c d : Char} (h : Alike c d) : isBlankChar c = isBlankChar d :=
  h.congr (by decide +kernel)

theorem Alike.lt_iff {c d : Char} (h : Alike c d) : c.toNat < 128 ↔ d.toNat < 128 :=
  Iff.of_eq (h.congr (f := fun c => c.toNat < 128) (by decide))

theorem toUpper_ascii : ∀ n < 128, (Char.ofNat n).toUpper = Char.ofNat n ∨
    ((Char.ofNat n).toUpper, Char.ofNat n) ∈ letters := by
  decide +kernel

/-- A character is its own capital, or one of the twenty-six small letters. -/
theorem toUpper_eq_self_or (c : Char) : c.toUpper = c ∨ (c.toUpper, c) ∈ letters := by
  by_cases h : c.toNat < 128
  · simpa only [Char.ofNat_toNat] using toUpper_ascii c.toNat h
  · refine .inl (dif_neg fun hsmall => h ?_)
    have hlast := UInt32.le_iff_toNat_le.1 hsmall.2
    exact Nat.lt_of_le_of_lt hlast (by decide)

theorem toUpper_eq_iff (c d : Char) : c.toUpper = d.toUpper ↔ Alike c d := by
  constructor
  · intro h
    -- A capital is that of itself and of one small letter, so these are all the ways to share one.
    rcases toUpper_eq_self_or c with hc | hc <;> rcases toUpper_eq_self_or d with hd | hd
    · exact .inl (hc.symm.trans (h.trans hd))
    · exact .inr (.inl (by rwa [← h, hc] at hd))
    · exact .inr (.inr (by rwa [h, hd] at hc))
    · have hsmall : ∀ p ∈ letters, ∀ q ∈ letters, p.1 = q.1 → p.2 = q.2 := by decide +kernel
      exact .inl (hsmall _ hc _ hd h)
  · exact fun h => h.congr (by decide)

theorem map_toUpper_eq_iff (cs ds : List Char) :
    cs.map Char.toUpper = ds.map Char.toUpper ↔ List.Forall₂ Alike cs ds := by
  rw [← List.forall₂_eq_eq_eq, List.forall₂_map_left_iff, List.forall₂_map_right_iff]
  simp only [toUpper_eq_iff]

/-- What all characters of a text have, those of a text like it have. -/
theorem forall_mem_of_alike {P : Char → Prop} (hP : ∀ c d, Alike c d → P d → P c)
    {cs ds : List Char} (h : List.Forall₂ Alike cs ds) (hds : ∀ d ∈ ds, P d) : ∀ c ∈ cs, P c := by
  induction h with
  | nil => exact hds
  | cons hcd _ ih =>
    obtain ⟨hd, hds⟩ := List.forall_mem_cons.1 hds
    exact List.forall_mem_cons.2 ⟨hP _ _ hcd hd, ih hds⟩

/-! ## Foldings -/

/-- A way to forget case that goes as far as ASCII does, and maybe further: an ASCII character
becomes one character, the same for characters that are alike and for no others, whereas any other
character may become any text. -/
structure FoldsAscii (fold : Char → List Char) : Prop where
  single : ∀ c, c.toNat < 128 → ∃ d, fold c = [d]
  alike : ∀ c d, c.toNat < 128 → d.toNat < 128 → (fold c = fold d ↔ Alike c d)

/-- Between ASCII texts such a folding finds nothing more. -/
theorem FoldsAscii.flatMap_eq_iff {fold : Char → List Char} (h : FoldsAscii fold)
    (cs ds : List Char) (hcs : ∀ c ∈ cs, c.toNat < 128) (hds : ∀ d ∈ ds, d.toNat < 128) :
    cs.flatMap fold = ds.flatMap fold ↔ List.Forall₂ Alike cs ds := by
  induction cs generalizing ds with
  | nil =>
    rw [List.forall₂_nil_left_iff]
    cases ds with
    | nil => simp
    | cons d ds =>
      obtain ⟨y, hy⟩ := h.single d (hds d List.mem_cons_self)
      simp [hy]
  | cons c cs ih =>
    obtain ⟨hc, hcs⟩ := List.forall_mem_cons.1 hcs
    obtain ⟨x, hx⟩ := h.single c hc
    cases ds with
    | nil => simp [hx]
    | cons d ds =>
      obtain ⟨hd, hds⟩ := List.forall_mem_cons.1 hds
      obtain ⟨y, hy⟩ := h.single d hd
      rw [List.forall₂_cons, ← h.alike c d hc hd, ← ih ds hcs hds, List.flatMap_cons,
        List.flatMap_cons, hx, hy, List.singleton_append, List.singleton_append, List.cons.injEq,
        List.cons.injEq, and_iff_left rfl]

/-! ## Spellings -/

/-- White space, the name up to the case of ASCII letters, white space. -/
def Spells (s name : String) : Prop :=
  ∃ before core after : String, s = before ++ core ++ after ∧ isBlank before = true ∧
    List.Forall₂ Alike core.toList name.toList ∧ isBlank after = true

section
variable (s : String) {name : String} (hname : ∀ c ∈ name.toList, isBlankChar c = false)
include hname

theorem not_blank_of_alike {cs : List Char} (h : List.Forall₂ Alike cs name.toList) :
    ∀ c ∈ cs, isBlankChar c = false :=
  forall_mem_of_alike (fun _ _ hcd hd => hcd.isBlankChar_eq.trans hd) h hname

/-- Only one part of a text can spell the name: what trimming leaves. -/
theorem spells_iff : Spells s name ↔ List.Forall₂ Alike (trimChars s.toList) name.toList := by
  constructor
  · rintro ⟨before, core, after, rfl, hbefore, hcore, hafter⟩
    rw [String.toList_append, String.toList_append,
      trimChars_append _ _ _ ((isBlank_iff _).1 hbefore) ((isBlank_iff _).1 hafter),
      trimChars_eq_self _ (not_blank_of_alike hname hcore)]
    exact hcore
  · intro h
    obtain ⟨before, after, hs, hbefore, hafter⟩ := exists_trimChars s.toList
    refine ⟨.ofList before, .ofList (trimChars s.toList), .ofList after, ?_, ?_, ?_, ?_⟩
    · rw [← String.ofList_append, ← String.ofList_append, ← hs, String.ofList_toList]
    · rwa [isBlank_iff, String.toList_ofList]
    · rwa [String.toList_ofList]
    · rwa [isBlank_iff, String.toList_ofList]

/-- White space in between spoils a spelling. -/
theorem not_spells_of_gap (xs gap ys : String) (hxs : isBlank xs = false)
    (hgap : ∃ c ∈ gap.toList, isBlankChar c = true) (hys : isBlank ys = false) :
    ¬ Spells (xs ++ gap ++ ys) name := by
  intro h
  obtain ⟨c, hc, hblank⟩ := hgap
  rw [spells_iff _ hname, String.toList_append, String.toList_append,
    trimChars_gap _ _ _ ((isBlank_eq_false_iff _).1 hxs) ((isBlank_eq_false_iff _).1 hys)] at h
  have hsolid := not_blank_of_alike hname h c (by simp [hc])
  exact Bool.false_ne_true (hsolid.symm.trans hblank)

end

end OrderDispatch.Text
