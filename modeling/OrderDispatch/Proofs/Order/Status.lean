import OrderDispatch.Order.Status
import OrderDispatch.Proofs.Text.Spelling

/-!
# Statuses given by hand

The texts that are read as a status are the spellings of its name, and any other text is handed
back in the error.

    parse s = .ok t     ↔  Spells s t.name
    parse s = .error e  ↔  (∀ t, ¬ Spells s t.name) ∧ e = ⟨s⟩

What makes it so is that the names differ, are their own capitals, and have neither white space nor
anything outside ASCII in them.
-/

namespace OrderDispatch.OrderStatus

open Text (Alike FoldsAscii Spells isBlank isBlankChar trimChars)

/-! ## Names -/

theorem ofName?_name (t : OrderStatus) : ofName? t.name = some t := by
  cases t <;> decide

theorem name_inj (t u : OrderStatus) (h : t.name = u.name) : t = u := by
  have hnamed := ofName?_name u
  rw [← h, ofName?_name t] at hnamed
  exact Option.some.inj hnamed

theorem ofName?_eq_some_iff (s : String) (t : OrderStatus) : ofName? s = some t ↔ s = t.name := by
  constructor
  · intro h
    unfold ofName? at h
    have hnamed := List.find?_some h
    exact (beq_iff_eq.1 hnamed).symm
  · rintro rfl
    exact ofName?_name t

theorem map_toUpper_name (t : OrderStatus) : t.name.toList.map Char.toUpper = t.name.toList := by
  cases t <;> decide

theorem not_blank_of_mem_name (t : OrderStatus) : ∀ c ∈ t.name.toList, isBlankChar c = false := by
  -- A statement on members would be decided by going through all characters there are.
  have hall : t.name.toList.all (!isBlankChar ·) = true := by cases t <;> decide
  simpa only [List.all_eq_true, Bool.not_eq_true'] using hall

theorem lt_of_mem_name (t : OrderStatus) : ∀ c ∈ t.name.toList, c.toNat < 128 := by
  have hall : t.name.toList.all (·.toNat < 128) = true := by cases t <;> decide
  simpa only [List.all_eq_true, decide_eq_true_eq] using hall

theorem spells_name_iff (s : String) (t : OrderStatus) :
    Spells s t.name ↔ List.Forall₂ Alike (trimChars s.toList) t.name.toList :=
  Text.spells_iff s t.not_blank_of_mem_name

/-- A text spells no more than one name. -/
theorem spells_unique (s : String) (t u : OrderStatus) (ht : Spells s t.name)
    (hu : Spells s u.name) : t = u := by
  rw [spells_name_iff, ← Text.map_toUpper_eq_iff, map_toUpper_name] at ht hu
  exact name_inj t u (String.toList_inj.1 (ht.symm.trans hu))

/-! ## Reading -/

theorem parse?_eq_some_iff (s : String) (t : OrderStatus) :
    parse? s = some t ↔ Spells s t.name := by
  unfold parse?
  rw [ofName?_eq_some_iff, spells_name_iff, ← Text.map_toUpper_eq_iff, map_toUpper_name,
    ← String.toList_inj, String.toList_ofList]

theorem parse_eq_ok_iff (s : String) (t : OrderStatus) : parse s = .ok t ↔ Spells s t.name := by
  rw [← parse?_eq_some_iff]
  unfold parse
  cases parse? s <;> simp

theorem parse_eq_error_iff (s : String) (e : UnknownStatus) :
    parse s = .error e ↔ (∀ t : OrderStatus, ¬ Spells s t.name) ∧ e = ⟨s⟩ := by
  simp only [← parse?_eq_some_iff]
  unfold parse
  cases parse? s <;> simp [eq_comm]

/-- A text with anything outside ASCII in it, white space at its ends aside, names no status. -/
theorem parse_of_foreign (s : String) (h : ∃ c ∈ trimChars s.toList, 128 ≤ c.toNat) :
    parse s = .error ⟨s⟩ := by
  refine (parse_eq_error_iff _ _).2 ⟨fun t hspells => ?_, rfl⟩
  obtain ⟨c, hc, hforeign⟩ := h
  have hascii := Text.forall_mem_of_alike (fun c d hcd => hcd.lt_iff.2)
    ((spells_name_iff s t).1 hspells) t.lt_of_mem_name
  exact absurd (hascii c hc) (Nat.not_lt.2 hforeign)

/-- A text that is a name up to a folding that goes beyond ASCII is read as that name exactly if it
is of ASCII itself, white space at its ends aside. -/
theorem parse_of_folded (fold : Char → List Char) (hfold : FoldsAscii fold) (s : String)
    (t : OrderStatus) (h : (trimChars s.toList).flatMap fold = t.name.toList.flatMap fold) :
    parse s = if (trimChars s.toList).all (·.toNat < 128) then .ok t else .error ⟨s⟩ := by
  split
  · next hall =>
    have hascii : ∀ c ∈ trimChars s.toList, c.toNat < 128 := by
      simpa only [List.all_eq_true, decide_eq_true_eq] using hall
    rw [parse_eq_ok_iff, spells_name_iff]
    exact (hfold.flatMap_eq_iff _ _ hascii t.lt_of_mem_name).1 h
  · next hforeign =>
    apply parse_of_foreign
    simpa only [List.all_eq_true, decide_eq_true_eq, not_forall, Nat.not_lt, exists_prop] using
      hforeign

/-- Capitals as Unicode has them, for ASCII and for three small letters outside it. -/
def unicodeCapital (c : Char) : List Char :=
  if c = 'ß' then ['S', 'S'] else if c = 'ſ' then ['S'] else if c = 'ı' then ['I']
  else [c.toUpper]

theorem unicodeCapital_of_ascii (c : Char) (h : c.toNat < 128) :
    unicodeCapital c = [c.toUpper] := by
  have hne (d : Char) (hd : 128 ≤ d.toNat) : c ≠ d := fun hcd => Nat.not_lt.2 hd (hcd ▸ h)
  rw [unicodeCapital, if_neg (hne _ (by decide)), if_neg (hne _ (by decide)),
    if_neg (hne _ (by decide))]

theorem foldsAscii_unicodeCapital : FoldsAscii unicodeCapital where
  single c hc := ⟨c.toUpper, unicodeCapital_of_ascii c hc⟩
  alike c d hc hd := by
    rw [unicodeCapital_of_ascii c hc, unicodeCapital_of_ascii d hd, List.singleton_inj,
      Text.toUpper_eq_iff]

/-- Reading a status accepts exactly its grammar: white space, the name of the status up to the case
of ASCII letters, white space. No text spells two names, and one that spells none comes back as it
is in the error: so does a text that is a name only up to a folding of case beyond ASCII, one with
any character outside ASCII that is not white space, and one with white space in between. -/
theorem parse_grammar :
    (∀ s t, parse s = .ok t ↔ Spells s t.name) ∧
    (∀ s (t u : OrderStatus), Spells s t.name → Spells s u.name → t = u) ∧
    (∀ s e, parse s = .error e ↔ (∀ t : OrderStatus, ¬ Spells s t.name) ∧ e = ⟨s⟩) ∧
    (∀ fold, FoldsAscii fold → ∀ s (t : OrderStatus),
      (trimChars s.toList).flatMap fold = t.name.toList.flatMap fold →
        parse s = if (trimChars s.toList).all (·.toNat < 128) then .ok t else .error ⟨s⟩) ∧
    (∀ s : String, (∃ c ∈ s.toList, isBlankChar c = false ∧ 128 ≤ c.toNat) →
      parse s = .error ⟨s⟩) ∧
    ∀ xs gap ys : String, isBlank xs = false → (∃ c ∈ gap.toList, isBlankChar c = true) →
      isBlank ys = false → parse (xs ++ gap ++ ys) = .error ⟨xs ++ gap ++ ys⟩ := by
  refine ⟨parse_eq_ok_iff, spells_unique, parse_eq_error_iff, parse_of_folded, ?_, ?_⟩
  · rintro s ⟨c, hc, hsolid, hforeign⟩
    exact parse_of_foreign s ⟨c, Text.mem_trimChars _ c hc hsolid, hforeign⟩
  · intro xs gap ys hxs hgap hys
    refine (parse_eq_error_iff _ _).2 ⟨fun t => ?_, rfl⟩
    exact Text.not_spells_of_gap t.not_blank_of_mem_name xs gap ys hxs hgap hys

theorem parse_grammar_inProgress :
    (Spells "\u3000In_Progress\n" inProgress.name ∧
      parse "\u3000In_Progress\n" = .ok inProgress ∧
      ∀ t : OrderStatus, Spells "\u3000In_Progress\n" t.name → t = inProgress) ∧
    (FoldsAscii unicodeCapital ∧
      (trimChars "in_progreß ".toList).flatMap unicodeCapital =
        inProgress.name.toList.flatMap unicodeCapital ∧
      parse "in_progreß " = .error ⟨"in_progreß "⟩) ∧
    ((∃ c ∈ "ın_progreſs".toList, isBlankChar c = false ∧ 128 ≤ c.toNat) ∧
      parse "ın_progreſs" = .error ⟨"ın_progreſs"⟩) ∧
    isBlank "in" = false ∧ (∃ c ∈ "\u00A0".toList, isBlankChar c = true) ∧
      isBlank "progress" = false ∧ parse "in\u00A0progress" = .error ⟨"in\u00A0progress"⟩ := by
  obtain ⟨hok, hunique, -, hfold, hforeign, hgap⟩ := parse_grammar
  have hspells : Spells "\u3000In_Progress\n" inProgress.name :=
    ⟨"\u3000", "In_Progress", "\n", by decide, by decide,
      (Text.map_toUpper_eq_iff _ _).1 (by decide), by decide⟩
  have hfolded : (trimChars "in_progreß ".toList).flatMap unicodeCapital =
      inProgress.name.toList.flatMap unicodeCapital := by decide
  have hletters : ∃ c ∈ "ın_progreſs".toList, isBlankChar c = false ∧ 128 ≤ c.toNat :=
    ⟨'ı', by decide⟩
  have hspace : ∃ c ∈ "\u00A0".toList, isBlankChar c = true := ⟨'\u00A0', by decide⟩
  have hends : isBlank "in" = false ∧ isBlank "progress" = false := by decide
  refine ⟨⟨hspells, (hok _ _).2 hspells, fun t ht => hunique _ _ _ ht hspells⟩,
    ⟨foldsAscii_unicodeCapital, hfolded, ?_⟩, ⟨hletters, hforeign _ hletters⟩,
    hends.1, hspace, hends.2, ?_⟩
  · rw [hfold _ foldsAscii_unicodeCapital _ _ hfolded]
    exact if_neg (by decide)
  · have hjoined : "in" ++ "\u00A0" ++ "progress" = "in\u00A0progress" := by decide
    rw [← hjoined]
    exact hgap _ _ _ hends.1 hspace hends.2

end OrderDispatch.OrderStatus
