import OrderDispatch.Proofs.Json.Echo

/-!
# Whatever is read can be passed over

Passing over a value looks at less than any reading of it, and ends at the same place. So where a
value ends, and hence how a list is made up of its items, is a matter of the text alone: all
readings of a text that succeed agree on it.

    skipWithin, literal, ...  leave less text than there was             (shrinks_skipWithin)
    read cs = .ok (j, rest) → skipWithin fuel cs = .ok ((), rest)        (passed_read)

The fuel of `skipWithin` bounds how deep it goes, and the length of the text is always enough.
-/

namespace OrderDispatch.Json

/-! ## Lengths of what is left -/

/-- A reader that takes something off every text it accepts. -/
def Shrinks {α : Type} (read : Reader α) : Prop :=
  ∀ cs a rest, read cs = .ok (a, rest) → rest.length < cs.length

theorem length_skipSpace_le (cs : List Char) : (skipSpace cs).length ≤ cs.length :=
  (List.dropWhile_sublist isSpace).length_le

theorem length_of_skipSpace (cs : List Char) (c : Char) (rest : List Char)
    (h : skipSpace cs = c :: rest) : rest.length < cs.length := by
  have hle := length_skipSpace_le cs
  rw [h, List.length_cons] at hle
  omega

theorem length_word (w cs rest : List Char) (h : word w cs = .ok rest) :
    rest.length ≤ cs.length := by
  unfold word at h
  split at h
  · cases h
    simp
  · cases h

theorem length_spanDigits (cs : List Char) :
    (Binary64.spanDigits cs).1.length + (Binary64.spanDigits cs).2.length = cs.length := by
  unfold Binary64.spanDigits
  rw [← List.length_append, List.takeWhile_append_dropWhile]

theorem length_skipTextTail (cs rest : List Char) :
    skipTextTail cs = .ok rest → rest.length < cs.length := by
  fun_induction skipTextTail cs with
  | case1 | case4 | case6 | case7 => nofun
  | case2 rest' =>
    rintro ⟨⟩
    simp
  | case3 a b c d rest' _ ih | case5 c rest' _ _ ih | case8 c rest' _ _ _ _ ih =>
    intro h
    have hlt := ih h
    simp only [List.length_cons]
    omega

theorem length_exponent? (cs : List Char) (power : Int) (rest : List Char)
    (h : Binary64.exponent? cs = some (power, rest)) : rest.length ≤ cs.length := by
  unfold Binary64.exponent? at h
  split at h
  · next c cs =>
    split at h
    · split at h
      next negative digits hsigned =>
      have hle : digits.length ≤ cs.length := by
        split at hsigned <;> cases hsigned <;> simp
      have hspan := length_spanDigits digits
      simp only [Option.ite_none_left_eq_some, Option.some.injEq, Prod.mk.injEq] at h
      obtain ⟨-, -, rfl⟩ := h
      rw [List.length_cons]
      omega
    · cases h
      exact le_rfl
  · cases h
    exact le_rfl

theorem length_fraction (cs part rest : List Char) (h : fraction cs = .ok (part, rest)) :
    rest.length ≤ cs.length := by
  unfold fraction at h
  split at h
  · next cs =>
    have hspan := length_spanDigits cs
    simp only at h
    split at h
    · cases h
    · cases h
      rw [List.length_cons]
      omega
  · cases h
    exact le_rfl

theorem shrinks_literal : Shrinks literal := by
  intro cs l rest h
  unfold literal at h
  split at h
  next negative digits hsigned =>
  have hle : digits.length ≤ cs.length := by
    split at hsigned <;> cases hsigned <;> simp
  have hspan := length_spanDigits digits
  generalize Binary64.spanDigits digits = spanned at h hspan
  obtain ⟨whole, afterWhole⟩ := spanned
  simp only at h hspan
  split at h
  · cases h
  next hdigits =>
  have hwhole : 0 < whole.length := by
    rw [List.length_pos_iff]
    rintro rfl
    simp at hdigits
  split at h
  · cases h
  next part afterPart hfraction =>
  have hpart := length_fraction _ _ _ hfraction
  split at h
  · cases h
  next power rest' hexponent =>
  have hrest := length_exponent? _ _ _ hexponent
  cases h
  omega

theorem length_next_close (closing : Char) (first : Bool) (cs rest : List Char)
    (h : next closing first cs = .ok (.close rest)) : rest.length < cs.length := by
  unfold next at h
  split at h
  · cases h
  next c rest' hspace =>
  have hlt := length_of_skipSpace cs c rest' hspace
  split at h
  · cases h
    exact hlt
  split at h
  · cases h
  split at h
  · split at h
    · cases h
    · split at h <;> cases h
  · cases h

theorem length_next_item (closing : Char) (first : Bool) (cs rest : List Char)
    (h : next closing first cs = .ok (.item rest)) : rest.length ≤ cs.length := by
  unfold next at h
  split at h
  · cases h
  next c rest' hspace =>
  have hlt := length_of_skipSpace cs c rest' hspace
  split at h
  · cases h
  split at h
  · cases h
    exact hlt
  split at h
  · split at h
    · cases h
    next d rest'' hspace' =>
    have hlt' := length_of_skipSpace rest' d rest'' hspace'
    split at h
    · cases h
    · cases h
      rw [List.length_cons]
      omega
  · cases h

theorem length_colon (cs rest : List Char) (h : colon cs = .ok rest) :
    rest.length < cs.length := by
  unfold colon at h
  split at h
  · next rest' hspace =>
    cases h
    exact length_of_skipSpace cs _ _ hspace
  · cases h

/-! ## Items and entries -/

theorem shrinks_itemsWithin {α : Type} (item : Reader α) (hitem : Shrinks item) (n : Nat)
    (first : Bool) : Shrinks (itemsWithin item n first) := by
  induction n generalizing first with
  | zero => nofun
  | succ n ih =>
    intro cs as rest h
    unfold itemsWithin at h
    obtain ⟨what, hnext, h⟩ := bind_eq_ok h
    cases what with
    | close rest' =>
      cases h
      exact length_next_close _ _ _ _ hnext
    | item cs' =>
      obtain ⟨⟨a, cs''⟩, ha, h⟩ := bind_eq_ok h
      obtain ⟨⟨as', rest'⟩, has, h⟩ := bind_eq_ok h
      cases h
      have hle := length_next_item _ _ _ _ hnext
      have hlt := hitem _ _ _ ha
      have hlt' := ih false _ _ _ has
      omega

theorem length_skipEntries (value : Reader Unit) (hvalue : Shrinks value) (n : Nat) (first : Bool)
    (cs rest : List Char) (h : skipWithin.skipEntries value n first cs = .ok rest) :
    rest.length < cs.length := by
  induction n generalizing first cs with
  | zero => cases h
  | succ n ih =>
    unfold skipWithin.skipEntries at h
    obtain ⟨what, hnext, h⟩ := bind_eq_ok h
    cases what with
    | close rest' =>
      cases h
      exact length_next_close _ _ _ _ hnext
    | item cs' =>
      simp only at h
      split at h
      · next cs'' =>
        obtain ⟨behindName, hname, h⟩ := bind_eq_ok h
        obtain ⟨behindColon, hcolon, h⟩ := bind_eq_ok h
        obtain ⟨⟨_, behindValue⟩, hv, h⟩ := bind_eq_ok h
        have hle := length_next_item _ _ _ _ hnext
        have h1 := length_skipTextTail _ _ hname
        have h2 := length_colon _ _ hcolon
        have h3 := hvalue _ _ _ hv
        have h4 := ih false behindValue h
        rw [List.length_cons] at hle
        omega
      · cases h

theorem map_eq_ok {ε α β : Type} {x : Except ε α} {f : α → β} {b : β} (h : x.map f = .ok b) :
    ∃ a, x = .ok a ∧ f a = b := by
  cases x with
  | error e => cases h
  | ok a => exact ⟨a, rfl, Except.ok.inj h⟩

/-- What passes over a value leaves less text than there was. -/
theorem shrinks_skipWithin (fuel : Nat) : Shrinks (skipWithin fuel) := by
  induction fuel with
  | zero => nofun
  | succ fuel ih =>
    intro cs u rest h
    unfold skipWithin at h
    split at h
    · cases h
    case h_8 c cs' _ _ _ _ _ _ hspace =>
      have hlt := length_skipSpace_le cs
      rw [hspace] at hlt
      split at h
      · obtain ⟨⟨l, rest'⟩, hliteral, h⟩ := map_eq_ok h
        cases h
        exact (shrinks_literal _ _ _ hliteral).trans_le hlt
      · cases h
    all_goals
      rename_i cs' hspace
      have hlt := length_of_skipSpace cs _ cs' hspace
      obtain ⟨found, hfound, h⟩ := map_eq_ok h
      cases h
    case h_2 | h_3 | h_4 => exact (length_word _ _ _ hfound).trans_lt hlt
    case h_5 => exact (length_skipTextTail _ _ hfound).trans hlt
    case h_6 => exact (shrinks_itemsWithin _ ih _ _ _ _ _ hfound).trans hlt
    case h_7 => exact (length_skipEntries _ ih _ _ _ _ hfound).trans hlt

theorem push_eq_ok (c : Char) (found : Except Problem (List Char × List Char)) (s rest : List Char)
    (h : push c found = .ok (s, rest)) : ∃ s', found = .ok (s', rest) := by
  unfold push at h
  split at h
  · cases h
    exact ⟨_, rfl⟩
  · cases h

/-- The end of a text does not depend on which characters its escapes stand for. -/
theorem skipTextTail_of_textTail (cs s rest : List Char) :
    textTail cs = .ok (s, rest) → skipTextTail cs = .ok rest := by
  fun_induction textTail cs generalizing s rest with
  | case2 rest' =>
    rintro ⟨⟩
    rfl
  | case6 a b c d high hhigh _ _ a' b' c' d' rest' low hlow _ ih =>
    intro h
    obtain ⟨s', h⟩ := push_eq_ok _ _ _ _ h
    simp only [skipTextTail, hhigh, hlow, Option.isSome_some, if_true]
    exact ih _ _ h
  | case9 a b c d rest' high hhigh _ _ ih =>
    intro h
    obtain ⟨s', h⟩ := push_eq_ok _ _ _ _ h
    simp only [skipTextTail, hhigh, Option.isSome_some, if_true]
    exact ih _ _ h
  | case10 c rest' hno c' hescape ih =>
    intro h
    obtain ⟨s', h⟩ := push_eq_ok _ _ _ _ h
    rw [skipTextTail, hescape]
    · exact ih _ _ h
    · exact hno
  | case13 c rest' hquote hhex hescape hplain ih =>
    intro h
    obtain ⟨s', h⟩ := push_eq_ok _ _ _ _ h
    rw [skipTextTail, if_neg hplain]
    · exact ih _ _ h
    · exact hquote
    · exact hhex
    · exact hescape
  | _ => nofun

theorem skipTextTail_of_textBody (cs : List Char) (s : String) (rest : List Char)
    (h : textBody cs = .ok (s, rest)) : skipTextTail cs = .ok rest := by
  unfold textBody at h
  split at h
  · next htail =>
    cases h
    exact skipTextTail_of_textTail _ _ _ htail
  · cases h

/-! ## Passing over, by the first character -/

section Skip

variable (fuel : Nat) (cs behind : List Char)

theorem skipWithin_skipSpace : skipWithin fuel (skipSpace cs) = skipWithin fuel cs := by
  cases fuel with
  | zero => rfl
  | succ fuel =>
    have hidem : skipSpace (skipSpace cs) = skipSpace cs := List.dropWhile_idempotent _ _
    unfold skipWithin
    rw [hidem]

theorem skipWithin_null (h : skipSpace cs = 'n' :: behind) :
    skipWithin (fuel + 1) cs = (word "ull".toList behind).map ((), ·) := by
  rw [← skipWithin_skipSpace, h]
  rfl

theorem skipWithin_true (h : skipSpace cs = 't' :: behind) :
    skipWithin (fuel + 1) cs = (word "rue".toList behind).map ((), ·) := by
  rw [← skipWithin_skipSpace, h]
  rfl

theorem skipWithin_false (h : skipSpace cs = 'f' :: behind) :
    skipWithin (fuel + 1) cs = (word "alse".toList behind).map ((), ·) := by
  rw [← skipWithin_skipSpace, h]
  rfl

theorem skipWithin_text (h : skipSpace cs = '"' :: behind) :
    skipWithin (fuel + 1) cs = (skipTextTail behind).map ((), ·) := by
  rw [← skipWithin_skipSpace, h]
  rfl

theorem skipWithin_list (h : skipSpace cs = '[' :: behind) :
    skipWithin (fuel + 1) cs =
      (items (skipWithin fuel) behind).map fun (_, rest) => ((), rest) := by
  rw [← skipWithin_skipSpace, h]
  rfl

theorem skipWithin_record (h : skipSpace cs = '{' :: behind) :
    skipWithin (fuel + 1) cs =
      (skipWithin.skipEntries (skipWithin fuel) (behind.length + 1) true behind).map ((), ·) := by
  rw [← skipWithin_skipSpace, h]
  rfl

theorem skipWithin_number (c : Char) (h : skipSpace cs = c :: behind)
    (hc : startsNumber c = true) :
    skipWithin (fuel + 1) cs = (literal (c :: behind)).map fun (_, rest) => ((), rest) := by
  unfold skipWithin
  rw [h]
  split
  case h_8 heq =>
    cases heq
    rw [if_pos hc]
  all_goals
    rename_i heq
    cases heq
  all_goals exact absurd hc (by decide)

end Skip

/-! ## The same items and entries -/

/-- Where one reader finds items, another that follows it finds as many, up to the same place. -/
theorem itemsWithin_follow {α β : Type} (item : Reader α) (other : Reader β) (bound : Nat)
    (hother : Shrinks other)
    (hfollow : ∀ cs a rest, cs.length ≤ bound → item cs = .ok (a, rest) →
      ∃ b, other cs = .ok (b, rest))
    (n : Nat) (first : Bool) (cs : List Char) (as : List α) (rest : List Char)
    (hcs : cs.length ≤ bound) (h : itemsWithin item n first cs = .ok (as, rest)) :
    ∃ bs, itemsWithin other n first cs = .ok (bs, rest) := by
  induction n generalizing first cs as with
  | zero => cases h
  | succ n ih =>
    unfold itemsWithin at h ⊢
    obtain ⟨what, hnext, h⟩ := bind_eq_ok h
    rw [hnext, ok_bind]
    cases what with
    | close rest' =>
      cases h
      exact ⟨[], rfl⟩
    | item cs' =>
      obtain ⟨⟨a, cs''⟩, ha, h⟩ := bind_eq_ok h
      obtain ⟨⟨as', rest'⟩, has, h⟩ := bind_eq_ok h
      cases h
      have hle := length_next_item _ _ _ _ hnext
      obtain ⟨b, hb⟩ := hfollow cs' a cs'' (by omega) ha
      have hlt := hother _ _ _ hb
      obtain ⟨bs, hbs⟩ := ih false cs'' as' (by omega) has
      refine ⟨b :: bs, ?_⟩
      simp only [hb, ok_bind, hbs]
      rfl

theorem fieldName_eq_ok (cs : List Char) (name : String) (rest : List Char)
    (h : fieldName cs = .ok (name, rest)) :
    ∃ behind, cs = '"' :: behind ∧ skipTextTail behind = .ok rest := by
  unfold fieldName at h
  split at h
  · exact ⟨_, rfl, skipTextTail_of_textBody _ _ _ h⟩
  · cases h

/-- The value of an entry is behind its name and colon. -/
theorem length_behindColon_lt (first : Bool) (cs behindQuote behindName behindColon : List Char)
    (hnext : next '}' first cs = .ok (.item ('"' :: behindQuote)))
    (hname : skipTextTail behindQuote = .ok behindName)
    (hcolon : colon behindName = .ok behindColon) : behindColon.length < cs.length := by
  have hitem := length_next_item _ _ _ _ hnext
  have htail := length_skipTextTail _ _ hname
  have hbehind := length_colon _ _ hcolon
  rw [List.length_cons] at hitem
  omega

/-- Passing over one entry more. -/
theorem skipEntries_item (skip : Reader Unit) (n : Nat) (first : Bool)
    (cs behindQuote behindName behindColon behindValue : List Char)
    (hnext : next '}' first cs = .ok (.item ('"' :: behindQuote)))
    (hname : skipTextTail behindQuote = .ok behindName)
    (hcolon : colon behindName = .ok behindColon)
    (hvalue : skip behindColon = .ok ((), behindValue)) :
    skipWithin.skipEntries skip (n + 1) first cs =
      skipWithin.skipEntries skip n false behindValue := by
  conv => lhs; unfold skipWithin.skipEntries
  rw [hnext, ok_bind]
  simp only [hname, ok_bind, hcolon, hvalue]

theorem skipEntries_close (skip : Reader Unit) (n : Nat) (first : Bool) (cs rest : List Char)
    (hnext : next '}' first cs = .ok (.close rest)) :
    skipWithin.skipEntries skip (n + 1) first cs = .ok rest := by
  unfold skipWithin.skipEntries
  rw [hnext]
  rfl

theorem skipEntries_follow (value other : Reader Unit) (bound : Nat) (hother : Shrinks other)
    (hfollow : ∀ cs u rest, cs.length ≤ bound → value cs = .ok (u, rest) →
      other cs = .ok ((), rest))
    (n : Nat) (first : Bool) (cs rest : List Char) (hcs : cs.length ≤ bound)
    (h : skipWithin.skipEntries value n first cs = .ok rest) :
    skipWithin.skipEntries other n first cs = .ok rest := by
  induction n generalizing first cs with
  | zero => cases h
  | succ n ih =>
    unfold skipWithin.skipEntries at h
    obtain ⟨what, hnext, h⟩ := bind_eq_ok h
    cases what with
    | close rest' =>
      cases h
      exact skipEntries_close other n first cs rest hnext
    | item cs' =>
      simp only at h
      split at h
      · next behindQuote =>
        obtain ⟨behindName, hname, h⟩ := bind_eq_ok h
        obtain ⟨behindColon, hcolon, h⟩ := bind_eq_ok h
        obtain ⟨⟨u, behindValue⟩, hvalue, h⟩ := bind_eq_ok h
        have hlt := length_behindColon_lt first cs _ _ _ hnext hname hcolon
        have hfollowed := hfollow _ _ _ (by omega) hvalue
        have hshrunk := hother _ _ _ hfollowed
        rw [skipEntries_item other n first cs _ _ _ _ hnext hname hcolon hfollowed]
        exact ih false behindValue (by omega) h
      · cases h

/-- More fuel does no harm. -/
theorem skipWithin_mono (fuel fuel' : Nat) (cs rest : List Char) (hle : fuel ≤ fuel')
    (h : skipWithin fuel cs = .ok ((), rest)) : skipWithin fuel' cs = .ok ((), rest) := by
  induction fuel generalizing fuel' cs rest with
  | zero => cases h
  | succ fuel ih =>
    obtain ⟨fuel', rfl⟩ : ∃ k, fuel' = k + 1 := ⟨fuel' - 1, by omega⟩
    have hfollow (cs : List Char) (u : Unit) (rest : List Char)
        (h : skipWithin fuel cs = .ok (u, rest)) : skipWithin fuel' cs = .ok ((), rest) :=
      ih fuel' cs rest (by omega) h
    unfold skipWithin at h
    split at h
    · cases h
    case h_2 hspace => rw [skipWithin_null _ _ _ hspace, h]
    case h_3 hspace => rw [skipWithin_true _ _ _ hspace, h]
    case h_4 hspace => rw [skipWithin_false _ _ _ hspace, h]
    case h_5 hspace => rw [skipWithin_text _ _ _ hspace, h]
    case h_6 cs' hspace =>
      obtain ⟨⟨us, rest'⟩, hitems, h⟩ := map_eq_ok h
      cases h
      obtain ⟨us', hitems'⟩ := itemsWithin_follow (skipWithin fuel) (skipWithin fuel') cs'.length
        (shrinks_skipWithin fuel') (fun cs u rest _ h => ⟨(), hfollow cs u rest h⟩) _ true cs' us
        rest le_rfl hitems
      rw [skipWithin_list _ _ _ hspace, items, hitems']
      rfl
    case h_7 cs' hspace =>
      obtain ⟨rest', hentries, h⟩ := map_eq_ok h
      cases h
      have hentries' := skipEntries_follow (skipWithin fuel) (skipWithin fuel') cs'.length
        (shrinks_skipWithin fuel') (fun cs u rest _ h => hfollow cs u rest h) _ true cs' rest
        le_rfl hentries
      rw [skipWithin_record _ _ _ hspace, hentries']
      rfl
    case h_8 c cs' _ _ _ _ _ _ hspace =>
      split at h
      · next hc => rw [skipWithin_number _ _ _ c hspace hc, h]
      · cases h

theorem skipWithin_of_skipValue (fuel : Nat) (cs : List Char) (u : Unit) (rest : List Char)
    (hfuel : cs.length < fuel) (h : skipValue cs = .ok (u, rest)) :
    skipWithin fuel cs = .ok ((), rest) :=
  skipWithin_mono _ fuel cs rest hfuel h

/-! ## Kinds without parts -/

/-- Whatever the reader accepts can be passed over. -/
def PassedOver {α : Type} (read : Reader α) : Prop :=
  ∀ fuel cs a rest, cs.length < fuel → read cs = .ok (a, rest) → skipWithin fuel cs = .ok ((), rest)

theorem PassedOver.shrinks {α : Type} (read : Reader α) (h : PassedOver read) : Shrinks read :=
  fun cs a rest hread =>
    shrinks_skipWithin (cs.length + 1) cs () rest (h _ cs a rest (Nat.lt_succ_self _) hread)

theorem number_eq_ok (cs : List Char) (j : Json) (rest : List Char)
    (h : number cs = .ok (j, rest)) : ∃ l, literal cs = .ok (l, rest) := by
  unfold number at h
  split at h
  · cases h
  next l rest' hliteral =>
  split at h
  · cases h
  · cases h
    exact ⟨l, hliteral⟩

theorem passed_readFlag : PassedOver Shape.readFlag := by
  rintro (_ | fuel) cs j rest hfuel h
  · cases hfuel
  unfold Shape.readFlag at h
  split at h
  · next behind hspace =>
    obtain ⟨rest', hword, h⟩ := map_eq_ok h
    cases h
    rw [skipWithin_true _ _ _ hspace, hword]
    rfl
  · next behind hspace =>
    obtain ⟨rest', hword, h⟩ := map_eq_ok h
    cases h
    rw [skipWithin_false _ _ _ hspace, hword]
    rfl
  · cases h

theorem passed_readNumber (convert? : Json → Option Json) :
    PassedOver (Shape.readNumber convert?) := by
  rintro (_ | fuel) cs j rest hfuel h
  · cases hfuel
  unfold Shape.readNumber at h
  split at h
  · next c behind hspace =>
    split at h
    · next hc =>
      split at h
      · cases h
      next j' rest' hnumber =>
      split at h
      · cases h
        obtain ⟨l, hliteral⟩ := number_eq_ok _ _ _ hnumber
        rw [skipWithin_number _ _ _ c hspace hc, hliteral]
        rfl
      · cases h
    · cases h
  · cases h

theorem passed_readText : PassedOver Shape.readText := by
  rintro (_ | fuel) cs s rest hfuel h
  · cases hfuel
  unfold Shape.readText at h
  split at h
  · next behind hspace =>
    rw [skipWithin_text _ _ _ hspace, skipTextTail_of_textBody _ _ _ h]
    rfl
  · cases h

/-! ## Kinds with parts -/

theorem passed_readOptional (read : Reader Json) (hread : PassedOver read) :
    PassedOver (Shape.readOptional read) := by
  rintro (_ | fuel) cs j rest hfuel h
  · cases hfuel
  unfold Shape.readOptional at h
  split at h
  · next behind hspace =>
    obtain ⟨rest', hword, h⟩ := map_eq_ok h
    cases h
    rw [skipWithin_null _ _ _ hspace, hword]
    rfl
  · rw [← skipWithin_skipSpace]
    exact hread _ _ _ _ ((length_skipSpace_le cs).trans_lt hfuel) h

theorem passed_readList (read : Reader Json) (hread : PassedOver read) :
    PassedOver (Shape.readList read) := by
  rintro (_ | fuel) cs j rest hfuel h
  · cases hfuel
  unfold Shape.readList at h
  split at h
  · next behind hspace =>
    obtain ⟨⟨js, rest'⟩, hitems, h⟩ := map_eq_ok h
    cases h
    have hlt := length_of_skipSpace cs _ behind hspace
    obtain ⟨us, hskip⟩ := itemsWithin_follow read (skipWithin fuel) behind.length
      (shrinks_skipWithin fuel)
      (fun cs a rest hcs ha => ⟨(), hread fuel cs a rest (by omega) ha⟩) _ true behind js rest
      le_rfl hitems
    rw [skipWithin_list _ _ _ hspace, items, hskip]
    rfl
  · cases h

theorem next_close_of_skipSpace (closing : Char) (first : Bool) (cs rest : List Char)
    (h : skipSpace cs = closing :: rest) : next closing first cs = .ok (.close rest) := by
  unfold next
  rw [h]
  exact if_pos rfl

theorem next_first_of_skipSpace (closing c : Char) (cs rest : List Char)
    (h : skipSpace cs = c :: rest) (hc : c ≠ closing) :
    next closing true cs = .ok (.item (c :: rest)) := by
  unfold next
  rw [h]
  exact (if_neg hc).trans (if_pos rfl)

/-- A record of one entry with a null. -/
theorem skipEntries_null (fuel : Nat)
    (cs behindQuote behindName behindColon behindN behindNull rest : List Char)
    (hquote : skipSpace cs = '"' :: behindQuote) (hname : skipTextTail behindQuote = .ok behindName)
    (hcolon : colon behindName = .ok behindColon) (hn : skipSpace behindColon = 'n' :: behindN)
    (hnull : word "ull".toList behindN = .ok behindNull)
    (hclose : skipSpace behindNull = '}' :: rest) :
    skipWithin.skipEntries (skipWithin (fuel + 1)) (cs.length + 1) true cs = .ok rest := by
  have hnext := next_first_of_skipSpace '}' '"' cs behindQuote hquote (by decide)
  have hvalue : skipWithin (fuel + 1) behindColon = .ok ((), behindNull) := by
    rw [skipWithin_null fuel behindColon behindN hn, hnull]
    rfl
  obtain ⟨n, hlength⟩ : ∃ n, cs.length = n + 1 :=
    ⟨cs.length - 1, by have := length_of_skipSpace cs _ _ hquote; omega⟩
  rw [hlength, skipEntries_item _ (n + 1) true cs _ _ _ _ hnext hname hcolon hvalue]
  exact skipEntries_close _ n false behindNull rest
    (next_close_of_skipSpace '}' false behindNull rest hclose)

theorem passed_readChoice (names : List String) : PassedOver (Shape.readChoice names) := by
  rintro (_ | fuel) cs j rest hfuel h
  · cases hfuel
  unfold Shape.readChoice at h
  split at h
  · next behind hspace =>
    obtain ⟨⟨name, rest'⟩, hname, h⟩ := bind_eq_ok h
    simp only at h
    split at h
    · cases h
      rw [skipWithin_text _ _ _ hspace, skipTextTail_of_textBody _ _ _ hname]
      rfl
    · cases h
  · next behind hspace =>
    obtain ⟨⟨name, behindName⟩, hname, h⟩ := bind_eq_ok h
    simp only at h
    split at h
    · cases h
    obtain ⟨behindColon, hcolon, h⟩ := bind_eq_ok h
    split at h
    · next behindN hn =>
      obtain ⟨behindNull, hnull, h⟩ := bind_eq_ok h
      split at h
      · next rest' hclose =>
        cases h
        unfold Shape.readText at hname
        split at hname
        · next behindQuote hquote =>
          have hlt := length_of_skipSpace cs _ _ hspace
          have hlt' := length_of_skipSpace behind _ _ hquote
          obtain ⟨k, rfl⟩ : ∃ k, fuel = k + 1 := ⟨fuel - 1, by omega⟩
          rw [skipWithin_record _ _ _ hspace, skipEntries_null k behind _ _ _ _ _ rest hquote
            (skipTextTail_of_textBody _ _ _ hname) hcolon hn hnull hclose]
          rfl
        · cases hname
      · cases h
    · cases h
  · cases h

theorem passed_entriesWithin {α : Type} (value : Reader α) (hvalue : PassedOver value) (fuel n : Nat)
    (first : Bool) (cs : List Char) (es : List (String × α)) (rest : List Char)
    (hfuel : cs.length < fuel) (h : entriesWithin value n first cs = .ok (es, rest)) :
    skipWithin.skipEntries (skipWithin fuel) n first cs = .ok rest := by
  induction n generalizing first cs es with
  | zero => cases h
  | succ n ih =>
    unfold entriesWithin at h
    obtain ⟨what, hnext, h⟩ := bind_eq_ok h
    cases what with
    | close rest' =>
      cases h
      exact skipEntries_close _ n first cs rest hnext
    | item cs' =>
      obtain ⟨⟨name, behindName⟩, hname, h⟩ := bind_eq_ok h
      obtain ⟨behindColon, hcolon, h⟩ := bind_eq_ok h
      obtain ⟨⟨a, behindValue⟩, ha, h⟩ := bind_eq_ok h
      obtain ⟨⟨es', rest'⟩, hes, h⟩ := bind_eq_ok h
      cases h
      obtain ⟨behindQuote, rfl, htail⟩ := fieldName_eq_ok _ _ _ hname
      have hlt := length_behindColon_lt first cs _ _ _ hnext htail hcolon
      have hshrunk := hvalue.shrinks _ _ _ _ ha
      rw [skipEntries_item _ n first cs _ _ _ _ hnext htail hcolon
        (hvalue fuel _ a _ (by omega) ha)]
      exact ih false behindValue es' (by omega) hes

theorem passed_readTable : PassedOver Shape.readTable := by
  rintro (_ | fuel) cs j rest hfuel h
  · cases hfuel
  unfold Shape.readTable at h
  split at h
  · next behind hspace =>
    obtain ⟨⟨es, rest'⟩, hentries, h⟩ := map_eq_ok h
    cases h
    have hlt := length_of_skipSpace cs _ behind hspace
    rw [skipWithin_record _ _ _ hspace, passed_entriesWithin Shape.readText passed_readText fuel _
      true behind es rest (by omega) hentries]
    rfl
  · cases h

theorem passed_foundWithin (slots : List (Field (Reader Json)))
    (hslots : ∀ slot ∈ slots, PassedOver slot.shape) (fuel n : Nat) (first : Bool)
    (found : List (String × Json)) (cs : List Char) (found' : List (String × Json))
    (rest : List Char) (hfuel : cs.length < fuel)
    (h : Shape.foundWithin slots n first found cs = .ok (found', rest)) :
    skipWithin.skipEntries (skipWithin fuel) n first cs = .ok rest := by
  induction n generalizing first found cs with
  | zero => cases h
  | succ n ih =>
    unfold Shape.foundWithin at h
    obtain ⟨what, hnext, h⟩ := bind_eq_ok h
    cases what with
    | close rest' =>
      cases h
      exact skipEntries_close _ n first cs rest hnext
    | item cs' =>
      obtain ⟨⟨name, behindName⟩, hname, h⟩ := bind_eq_ok h
      obtain ⟨behindQuote, hquote, htail⟩ := fieldName_eq_ok _ _ _ hname
      rw [hquote] at hnext
      simp only at h
      split at h
      · next slot hslot =>
        have hmem := List.mem_of_find?_eq_some hslot
        split at h
        · cases h
        obtain ⟨behindColon, hcolon, h⟩ := bind_eq_ok h
        obtain ⟨⟨j, behindValue⟩, hj, h⟩ := bind_eq_ok h
        have hlt := length_behindColon_lt first cs _ _ _ hnext htail hcolon
        have hshrunk := (hslots slot hmem).shrinks _ _ _ _ hj
        rw [skipEntries_item _ n first cs _ _ _ _ hnext htail hcolon
          (hslots slot hmem fuel _ j _ (by omega) hj)]
        exact ih false _ behindValue (by omega) h
      · obtain ⟨behindColon, hcolon, h⟩ := bind_eq_ok h
        obtain ⟨⟨u, behindValue⟩, hu, h⟩ := bind_eq_ok h
        have hlt := length_behindColon_lt first cs _ _ _ hnext htail hcolon
        have hskip := skipWithin_of_skipValue fuel _ u _ (by omega) hu
        have hshrunk := shrinks_skipWithin _ _ _ _ hskip
        rw [skipEntries_item _ n first cs _ _ _ _ hnext htail hcolon hskip]
        exact ih false _ behindValue (by omega) h

/-- Where a list of the values of a record is closed, it ends. -/
theorem positional_close (slots : List (Field (Reader Json))) (first : Bool) (cs : List Char)
    (fields : List (String × Json)) (rest rest' : List Char)
    (hnext : next ']' first cs = .ok (.close rest'))
    (h : Shape.positional slots first cs = .ok (fields, rest)) : rest = rest' := by
  induction slots generalizing cs fields with
  | nil =>
    unfold Shape.positional at h
    split at h
    · next rest'' hspace =>
      cases h
      rw [next_close_of_skipSpace ']' first cs rest hspace] at hnext
      cases hnext
      rfl
    · cases h
  | cons slot slots ih =>
    unfold Shape.positional at h
    rw [hnext, ok_bind] at h
    simp only at h
    split at h
    · split at h
      · obtain ⟨⟨fields', rest''⟩, hfields, h⟩ := bind_eq_ok h
        cases h
        exact ih (']' :: rest') fields' (next_close_of_skipSpace ']' first _ rest' rfl) hfields
      · cases h
    · cases h

/-- A list of the values of a record is passed over as a list, even if it ends early. -/
theorem passed_positional (slots : List (Field (Reader Json)))
    (hslots : ∀ slot ∈ slots, PassedOver slot.shape) (fuel n : Nat) (first : Bool) (cs : List Char)
    (fields : List (String × Json)) (rest : List Char) (hfuel : cs.length < fuel)
    (hn : cs.length < n) (h : Shape.positional slots first cs = .ok (fields, rest)) :
    ∃ us, itemsWithin (skipWithin fuel) n first cs = .ok (us, rest) := by
  induction slots generalizing n first cs fields with
  | nil =>
    obtain ⟨n, rfl⟩ : ∃ k, n = k + 1 := ⟨n - 1, by omega⟩
    unfold Shape.positional at h
    split at h
    · next rest' hspace =>
      cases h
      unfold itemsWithin
      rw [next_close_of_skipSpace ']' first cs rest hspace]
      exact ⟨[], rfl⟩
    · cases h
  | cons slot slots ih =>
    obtain ⟨n, rfl⟩ : ∃ k, n = k + 1 := ⟨n - 1, by omega⟩
    unfold itemsWithin
    have hwhole := h
    unfold Shape.positional at h
    obtain ⟨what, hnext, h⟩ := bind_eq_ok h
    rw [hnext, ok_bind]
    cases what with
    | close rest' =>
      rw [positional_close _ first cs fields rest rest' hnext hwhole]
      exact ⟨[], rfl⟩
    | item cs' =>
      obtain ⟨⟨j, cs''⟩, hj, h⟩ := bind_eq_ok h
      obtain ⟨⟨fields', rest'⟩, hfields, h⟩ := bind_eq_ok h
      cases h
      have hslot := hslots slot List.mem_cons_self
      have hle := length_next_item _ _ _ _ hnext
      have hlt := hslot.shrinks _ _ _ _ hj
      have hskip := hslot fuel cs' j cs'' (by omega) hj
      obtain ⟨us, hus⟩ := ih (fun slot hmem => hslots slot (List.mem_cons_of_mem _ hmem)) n false cs''
        fields' (by omega) (by omega) hfields
      refine ⟨() :: us, ?_⟩
      simp only [hskip, ok_bind, hus]
      rfl

theorem passed_readRecord (slots : List (Field (Reader Json)))
    (hslots : ∀ slot ∈ slots, PassedOver slot.shape) : PassedOver (Shape.readRecord slots) := by
  rintro (_ | fuel) cs j rest hfuel h
  · cases hfuel
  unfold Shape.readRecord at h
  split at h
  · next behind hspace =>
    obtain ⟨⟨found, rest'⟩, hfound, h⟩ := bind_eq_ok h
    obtain ⟨fields, -, h⟩ := bind_eq_ok h
    cases h
    have hlt := length_of_skipSpace cs _ behind hspace
    rw [skipWithin_record _ _ _ hspace,
      passed_foundWithin slots hslots fuel _ true [] behind found rest (by omega) hfound]
    rfl
  · next behind hspace =>
    obtain ⟨⟨fields, rest'⟩, hfields, h⟩ := map_eq_ok h
    cases h
    have hlt := length_of_skipSpace cs _ behind hspace
    obtain ⟨us, hus⟩ := passed_positional slots hslots fuel (behind.length + 1) true behind fields
      rest (by omega) (Nat.lt_succ_self _) hfields
    rw [skipWithin_list _ _ _ hspace, items, hus]
    rfl
  · cases h

/-! ## Every shape -/

mutual

/-- Whatever is read by a shape can be passed over. -/
theorem passed_read : (s : Shape) → PassedOver s.read
  | .flag => by
    unfold Shape.read
    exact passed_readFlag
  | .whole low high => by
    unfold Shape.read
    exact passed_readNumber _
  | .real => by
    unfold Shape.read
    exact passed_readNumber _
  | .text => by
    unfold Shape.read
    intro fuel cs j rest hfuel h
    obtain ⟨⟨s, rest'⟩, hs, h⟩ := map_eq_ok h
    cases h
    exact passed_readText fuel cs s rest hfuel hs
  | .choice names => by
    unfold Shape.read
    exact passed_readChoice names
  | .optional shape => by
    unfold Shape.read
    exact passed_readOptional _ (passed_read shape)
  | .list shape => by
    unfold Shape.read
    exact passed_readList _ (passed_read shape)
  | .table => by
    unfold Shape.read
    exact passed_readTable
  | .record fields => by
    unfold Shape.read
    exact passed_readRecord _ (passed_slots fields)

theorem passed_slots : (fields : List (Field Shape)) →
    ∀ slot ∈ Shape.slots fields, PassedOver slot.shape
  | [] => by simp [Shape.slots]
  | field :: fields => by
    unfold Shape.slots
    intro slot hmem
    rcases List.mem_cons.1 hmem with rfl | hmem
    · exact passed_read field.shape
    · exact passed_slots fields slot hmem

end

end OrderDispatch.Json
