import Mathlib
import OrderDispatch.Json.Reader
import OrderDispatch.Proofs.Number.Bits

/-!
# Numbers, read back

What reading makes of a written number. An integer comes back as it is. A double comes back as what
the scaled digits of its text give, which is not always the double that was written; `reread?` is
that double.

    number (intChars n ++ rest) = .ok (.int n, rest)                       (number_intChars)
    number (dataChars x ++ rest) gives .real y exactly if reread? x = some y  (number_dataChars)

Both need that the text behind the number does not go on like a number; behind a value in a list or
a record stands a comma or a bracket.
-/

namespace OrderDispatch

namespace Json

/-- What may stand behind a value: nothing, a comma, or a closing bracket. -/
def Delimited (rest : List Char) : Prop :=
  ∀ c, rest.head? = some c → c = ',' ∨ c = ']' ∨ c = '}'

theorem delimited_nil : Delimited [] := by
  intro c h
  cases h

theorem delimited_cons {c : Char} (rest : List Char) (h : c = ',' ∨ c = ']' ∨ c = '}') :
    Delimited (c :: rest) := by
  intro d hd
  cases hd
  exact h

end Json

namespace Binary64

open Json

/-! ## Runs of digits -/

theorem spanDigits_append (ds rest : List Char) (hds : ∀ c ∈ ds, c.isDigit = true)
    (hrest : ∀ c, rest.head? = some c → c.isDigit = false) :
    spanDigits (ds ++ rest) = (ds, rest) := by
  have hnil : rest.takeWhile Char.isDigit = [] ∧ rest.dropWhile Char.isDigit = rest := by
    cases rest with
    | nil => exact ⟨rfl, rfl⟩
    | cons c cs => simp [hrest c rfl]
  unfold spanDigits
  rw [List.takeWhile_append_of_pos hds, List.dropWhile_append_of_pos hds, hnil.1, hnil.2,
    List.append_nil]

theorem delimited_not_digit (rest : List Char) (h : Delimited rest) :
    ∀ c, rest.head? = some c → c.isDigit = false := by
  intro c hc
  rcases h c hc with rfl | rfl | rfl <;> rfl

theorem isDigit_toDigits (n : Nat) : ∀ c ∈ Nat.toDigits 10 n, c.isDigit = true :=
  fun _ h => Nat.isDigit_of_mem_toDigits (by decide) (by decide) h

/-- The first digit of a positive number is not a zero. -/
theorem head?_toDigits (n : Nat) (h : 0 < n) : (Nat.toDigits 10 n).head? ≠ some '0' := by
  induction n using Nat.strongRecOn with
  | ind n ih =>
    rw [Nat.toDigits_eq_if (by decide)]
    split
    · next hlt =>
      intro hc
      have hall : ∀ k, k < 10 → 0 < k → Nat.digitChar k ≠ '0' := by decide
      exact hall n hlt h (by simpa using hc)
    · next hge =>
      have hne : Nat.toDigits 10 (n / 10) ≠ [] := Nat.toDigits_ne_nil
      rw [List.head?_append_of_ne_nil _ hne]
      exact ih (n / 10) (by omega) (by omega)

/-! ## The digits of a double -/

theorem readsBack_zero (x : Float) (grid : Int) (hfin : isFinite x = true) (hx : mantissa x ≠ 0) :
    readsBack x 0 grid = false := by
  have hbits : (abs x).toBits.toNat ≠ 0 := by
    rw [toBits_abs x hfin]
    exact fun h => hx ((magnitudeBits_eq_zero_iff x).1 h)
  have hzero : (ofParts false 0).toBits.toNat = 0 := toBits_ofParts false 0 (by decide)
  unfold readsBack ofDecimal
  rw [if_pos rfl]
  apply beq_false_of_ne
  intro h
  rw [← h] at hbits
  exact hbits hzero

theorem carried_pos (count digits : Nat) (grid : Int) (hc : 0 < count) (hd : 0 < digits) :
    0 < (carried count digits grid).1 := by
  unfold carried
  split
  · exact hd
  · next h =>
    have hten : 10 ^ 1 ≤ 10 ^ count := Nat.pow_le_pow_right (by decide) hc
    have hge : 10 ≤ digits := by
      have : 10 ^ count ≤ digits := Nat.le_of_not_lt h
      omega
    show 0 < digits / 10
    omega

theorem shortestOf?_pos (rule : Halfway) (x : Float) (count : Nat) (p : Nat × Int)
    (hfin : isFinite x = true) (hx : mantissa x ≠ 0) (hc : 0 < count)
    (h : shortestOf? rule x count = some p) : 0 < p.1 := by
  unfold shortestOf? at h
  obtain ⟨d, hd, rfl⟩ := Option.map_eq_some_iff.1 h
  have hback := List.find?_some hd
  apply carried_pos _ _ _ hc
  apply Nat.pos_of_ne_zero
  rintro rfl
  rw [readsBack_zero x _ hfin hx] at hback
  cases hback

theorem exactDecimal_pos (x : Float) (hx : mantissa x ≠ 0) : 0 < (exactDecimal x).1 := by
  unfold exactDecimal
  split
  · exact Nat.mul_pos (Nat.pos_of_ne_zero hx) (Nat.pow_pos (by decide))
  · exact Nat.mul_pos (Nat.pos_of_ne_zero hx) (Nat.pow_pos (by decide))

/-- The digits of a double other than zero are no zero either. -/
theorem shortest_pos (rule : Halfway) (x : Float) (hfin : isFinite x = true)
    (hx : mantissa x ≠ 0) : 0 < (shortest rule x).1 := by
  unfold shortest
  cases hs : (List.range 17).findSome? fun n => shortestOf? rule x (n + 1) with
  | none => exact exactDecimal_pos x hx
  | some p =>
    obtain ⟨n, _, hn⟩ := List.exists_of_findSome?_eq_some hs
    exact shortestOf?_pos rule x (n + 1) p hfin hx (Nat.succ_pos n) hn

end Binary64

/-! ## Literals -/

namespace Json

open Binary64

/-- A minus sign for a negative number. -/
def signChars (negative : Bool) : List Char := if negative then ['-'] else []

/-- Digits as they may stand before a point: at least one, and a leading zero only alone. -/
structure WholePart (digits : List Char) : Prop where
  digit : ∀ c ∈ digits, c.isDigit = true
  nonempty : digits ≠ []
  leading : digits.head? = some '0' → digits.length = 1

/-- The parts of a number come off in their order. -/
theorem literal_of_parts (negative : Bool) (digits part : List Char) (power : Int)
    (rest afterPart behind : List Char) (h : WholePart digits)
    (hrest : ∀ c, rest.head? = some c → c.isDigit = false)
    (hpart : fraction rest = .ok (part, afterPart))
    (hpower : exponent? afterPart = some (power, behind)) :
    literal (signChars negative ++ (digits ++ rest)) =
      .ok (⟨negative, digits, part, power, behind.length == rest.length⟩, behind) := by
  obtain ⟨d, ds, rfl⟩ := List.exists_cons_of_ne_nil h.nonempty
  have hminus : d ≠ '-' := by
    rintro rfl
    have := h.digit '-' (by simp)
    cases this
  have hspan := spanDigits_append (d :: ds) rest h.digit hrest
  have hzero : ¬ (d = '0' ∧ ¬ ds = []) := by
    rintro ⟨rfl, hds⟩
    have hlen := h.leading rfl
    exact hds (List.length_eq_zero_iff.1 (by simpa using hlen))
  simp only [List.cons_append] at hspan
  cases negative with
  | true => simp [signChars, literal, hspan, hzero, hpart, hpower]
  | false => simp [signChars, literal, hminus, hspan, hzero, hpart, hpower]

theorem fraction_point (part rest : List Char) (hd : ∀ c ∈ part, c.isDigit = true)
    (hne : part ≠ []) (hrest : ∀ c, rest.head? = some c → c.isDigit = false) :
    fraction ('.' :: (part ++ rest)) = .ok (part, rest) := by
  unfold fraction
  simp only [spanDigits_append part rest hd hrest]
  rw [if_neg (by simpa using hne)]

theorem fraction_none (rest : List Char) (h : rest.head? ≠ some '.') :
    fraction rest = .ok ([], rest) := by
  unfold fraction
  split
  · simp at h
  · rfl

theorem exponent?_delimited (rest : List Char) (h : Delimited rest) :
    exponent? rest = some (0, rest) := by
  cases rest with
  | nil => rfl
  | cons c cs =>
    unfold exponent?
    rcases h c rfl with rfl | rfl | rfl <;> rfl

/-- A power of ten is read back with its sign. -/
theorem exponent?_intChars (n : Int) (rest : List Char) (h : Delimited rest) :
    exponent? ('e' :: ((if n < 0 then [] else ['+']) ++ (intChars n ++ rest))) =
      some (n, rest) := by
  have hspan := spanDigits_append (Nat.toDigits 10 n.natAbs) rest (isDigit_toDigits n.natAbs)
    (delimited_not_digit rest h)
  have hne : (Nat.toDigits 10 n.natAbs).isEmpty = false := by
    simp [List.isEmpty_eq_false_iff, Nat.toDigits_ne_nil]
  unfold exponent? intChars
  by_cases hneg : n < 0
  · simp [hneg, hspan, abs_of_neg]
  · simp [hneg, hspan]
    omega

/-! ## Integers -/

theorem wholePart_toDigits (n : Nat) : WholePart (Nat.toDigits 10 n) where
  digit := isDigit_toDigits n
  nonempty := Nat.toDigits_ne_nil
  leading := by
    intro h
    rcases Nat.eq_zero_or_pos n with rfl | hpos
    · rfl
    · exact absurd h (head?_toDigits n hpos)

theorem intChars_eq (n : Int) :
    intChars n = signChars (decide (n < 0)) ++ Nat.toDigits 10 n.natAbs := by
  unfold intChars signChars
  by_cases h : n < 0 <;> simp [h]

theorem literal_intChars (n : Int) (rest : List Char) (h : Delimited rest) :
    literal (intChars n ++ rest) =
      .ok (⟨decide (n < 0), Nat.toDigits 10 n.natAbs, [], 0, true⟩, rest) := by
  have hdot : rest.head? ≠ some '.' := by
    intro hc
    rcases h '.' hc with h | h | h <;> cases h
  rw [intChars_eq, List.append_assoc,
    literal_of_parts _ _ [] 0 rest rest rest (wholePart_toDigits n.natAbs)
      (delimited_not_digit rest h) (fraction_none rest hdot) (exponent?_delimited rest h)]
  simp

/-- The integers that a word of 64 bits has room for, signed or not. -/
def IsWord (n : Int) : Prop := Int64.minValue.toInt ≤ n ∧ n < UInt64.size

/-- An integer is read back as it is. -/
theorem number_intChars (n : Int) (rest : List Char) (hn : IsWord n) (h : Delimited rest) :
    number (intChars n ++ rest) = .ok (.int n, rest) := by
  obtain ⟨hlow, hhigh⟩ := hn
  unfold number
  rw [literal_intChars n rest h]
  unfold Literal.value
  simp only [Nat.ofDigitChars_ten_toDigits]
  by_cases hneg : n < 0
  · have hpos : 0 < n.natAbs := by omega
    have habs : -(n.natAbs : Int) = n := by omega
    rw [if_neg (by simp [hneg]), if_pos ⟨trivial, by simpa using hneg, hpos,
      by rw [habs]; exact hlow⟩, habs]
  · have habs : (n.natAbs : Int) = n := by omega
    have hsize : n.natAbs < UInt64.size := by omega
    simp [hneg, hsize, habs]

/-! ## Doubles -/

/-- The digits of a double, as `shortestDigits` lists them: none is missing, and the first one is no
zero unless the double is. -/
structure Significant (digits : List Char) (point : Int) : Prop where
  digit : ∀ c ∈ digits, c.isDigit = true
  nonempty : digits ≠ []
  leading : digits.head? = some '0' → digits = ['0'] ∧ point = 1

theorem isDigit_zero : ∀ c ∈ ['0'], c.isDigit = true := by
  intro c hc
  rw [List.mem_singleton.1 hc]
  rfl

theorem significant_shortestDigits (rule : Halfway) (x : Float) (h : isFinite x = true) :
    Significant (shortestDigits rule x).1 (shortestDigits rule x).2 := by
  unfold shortestDigits
  split
  · exact ⟨isDigit_zero, List.cons_ne_nil _ _, fun _ => ⟨rfl, rfl⟩⟩
  · next hx =>
    have hpos := shortest_pos rule x h hx
    exact ⟨isDigit_toDigits _, Nat.toDigits_ne_nil, fun hz => absurd hz (head?_toDigits _ hpos)⟩

theorem wholePart_positional (digits : List Char) (point : Int) (h : Significant digits point) :
    WholePart (positional digits point).1 := by
  unfold positional
  split
  · exact ⟨isDigit_zero, List.cons_ne_nil _ _, fun _ => rfl⟩
  · next hpoint =>
    obtain ⟨d, ds, rfl⟩ := List.exists_cons_of_ne_nil h.nonempty
    obtain ⟨k, hk⟩ : ∃ k, point.toNat = k + 1 := ⟨point.toNat - 1, by omega⟩
    refine ⟨?_, ?_, ?_⟩
    · intro c hc
      rcases List.mem_append.1 hc with hc | hc
      · exact h.digit c (List.mem_of_mem_take hc)
      · rw [List.eq_of_mem_replicate hc]
        rfl
    · simp [hk]
    · intro hz
      have hd : (d :: ds).head? = some '0' := by simpa [hk] using hz
      obtain ⟨heq, hone⟩ := h.leading hd
      rw [heq, hone]
      rfl

theorem isDigit_positional (digits : List Char) (point : Int) (h : Significant digits point) :
    ∀ c ∈ (positional digits point).2, c.isDigit = true := by
  unfold positional
  split
  · intro c hc
    rcases List.mem_append.1 hc with hc | hc
    · rw [List.eq_of_mem_replicate hc]
      rfl
    · exact h.digit c hc
  · intro c hc
    exact h.digit c (List.mem_of_mem_drop hc)

theorem wholePart_take_one (digits : List Char) (point : Int) (h : Significant digits point) :
    WholePart (digits.take 1) := by
  obtain ⟨d, ds, rfl⟩ := List.exists_cons_of_ne_nil h.nonempty
  exact ⟨fun c hc => h.digit c (List.mem_of_mem_take hc), by simp, fun _ => rfl⟩

/-- The parts of a double in the data form. -/
def spelling (x : Float) : Literal :=
  let (digits, point) := shortestDigits .toEven x
  if -5 < point ∧ point ≤ 16 then
    let (whole, rest) := positional digits point
    ⟨isNegative x, whole, if rest.isEmpty then ['0'] else rest, 0, false⟩
  else ⟨isNegative x, digits.take 1, digits.drop 1, point - 1, false⟩

theorem signText_eq (x : Float) : signText x = signChars (isNegative x) := rfl

theorem length_beq_append_false (front rest : List Char) (h : front ≠ []) :
    (rest.length == (front ++ rest).length) = false := by
  apply beq_false_of_ne
  have := List.length_pos_iff.2 h
  rw [List.length_append]
  omega

theorem literal_positional (negative : Bool) (whole part rest : List Char) (hw : WholePart whole)
    (hp : ∀ c ∈ part, c.isDigit = true) (h : Delimited rest) :
    literal (signChars negative ++
        (whole ++ '.' :: ((if part.isEmpty then ['0'] else part) ++ rest))) =
      .ok (⟨negative, whole, if part.isEmpty then ['0'] else part, 0, false⟩, rest) := by
  have hdigit : ∀ c ∈ (if part.isEmpty then ['0'] else part), c.isDigit = true := by
    split
    · exact isDigit_zero
    · exact hp
  have hne : (if part.isEmpty then ['0'] else part) ≠ [] := by
    split
    · exact List.cons_ne_nil _ _
    · next hp => simpa using hp
  generalize (if part.isEmpty then ['0'] else part) = shown at hdigit hne
  have hfrac := fraction_point shown rest hdigit hne (delimited_not_digit rest h)
  rw [literal_of_parts negative whole shown 0 _ rest rest hw (by intro c hc; cases hc; rfl) hfrac
    (exponent?_delimited rest h)]
  rw [show '.' :: (shown ++ rest) = ('.' :: shown) ++ rest from rfl,
    length_beq_append_false _ rest (List.cons_ne_nil _ _)]

theorem literal_scientific (negative : Bool) (digits rest : List Char) (point power : Int)
    (hsig : Significant digits point) (h : Delimited rest) :
    literal (signChars negative ++ (digits.take 1 ++
        ((if digits.length ≤ 1 then [] else '.' :: digits.drop 1) ++
          'e' :: ((if power < 0 then [] else ['+']) ++ (intChars power ++ rest))))) =
      .ok (⟨negative, digits.take 1, digits.drop 1, power, false⟩, rest) := by
  have hwhole := wholePart_take_one digits point hsig
  have hpower := exponent?_intChars power rest h
  have hlen : ∀ front, (rest.length == (front ++ 'e' :: ((if power < 0 then [] else ['+']) ++
      (intChars power ++ rest))).length) = false := by
    intro front
    have := length_beq_append_false
      (front ++ 'e' :: ((if power < 0 then [] else ['+']) ++ intChars power)) rest (by simp)
    simpa only [List.append_assoc, List.cons_append] using this
  by_cases hone : digits.length ≤ 1
  · have hfrac := fraction_none ('e' :: ((if power < 0 then [] else ['+']) ++
      (intChars power ++ rest))) (by simp)
    rw [if_pos hone, List.drop_eq_nil_of_le hone, List.nil_append,
      literal_of_parts negative _ [] power _ _ rest hwhole (by intro c hc; cases hc; rfl) hfrac
        hpower]
    have hfalse := hlen []
    rw [List.nil_append] at hfalse
    rw [hfalse]
  · have hdigit : ∀ c ∈ digits.drop 1, c.isDigit = true :=
      fun c hc => hsig.digit c (List.mem_of_mem_drop hc)
    have hne : digits.drop 1 ≠ [] := by
      rw [ne_eq, List.drop_eq_nil_iff]
      exact hone
    have hfrac := fraction_point (digits.drop 1) ('e' :: ((if power < 0 then [] else ['+']) ++
      (intChars power ++ rest))) hdigit hne (by intro c hc; cases hc; rfl)
    rw [if_neg hone, List.cons_append,
      literal_of_parts negative _ (digits.drop 1) power _ _ rest hwhole
        (by intro c hc; cases hc; rfl) hfrac hpower]
    have hfalse := hlen ('.' :: digits.drop 1)
    rw [List.cons_append] at hfalse
    rw [hfalse]

/-- The parts of a written double come off as they were written. -/
theorem literal_dataChars (x : Float) (rest : List Char) (hfin : isFinite x = true)
    (h : Delimited rest) : literal (dataChars x ++ rest) = .ok (spelling x, rest) := by
  have hsig := significant_shortestDigits .toEven x hfin
  unfold dataChars spelling
  generalize shortestDigits .toEven x = p at hsig
  obtain ⟨digits, point⟩ := p
  simp only [signText_eq] at hsig ⊢
  split
  · have hwhole := wholePart_positional digits point hsig
    have hpart := isDigit_positional digits point hsig
    simp only [List.append_assoc, List.cons_append]
    exact literal_positional _ _ _ rest hwhole hpart h
  · simp only [List.append_assoc, List.cons_append]
    exact literal_scientific _ digits rest point (point - 1) hsig h

end Json

namespace Binary64

open Json

/-- The double that is read where a double was written, if its text is read at all. -/
def reread? (x : Float) : Option Float :=
  if isFinite x then
    ofDigits? (spelling x).negative (spelling x).whole (spelling x).part (spelling x).power
  else none

theorem spelling_isWhole (x : Float) : (spelling x).isWhole = false := by
  unfold spelling
  simp only
  split <;> rfl

/-- A finite double is read back as `reread?` says. -/
theorem number_dataChars (x : Float) (rest : List Char) (hfin : isFinite x = true)
    (h : Delimited rest) :
    (number (dataChars x ++ rest)).toOption = (reread? x).map fun y => (.real y, rest) := by
  unfold number reread?
  rw [literal_dataChars x rest hfin h, if_pos hfin]
  unfold Literal.value
  simp only [spelling_isWhole]
  cases ofDigits? (spelling x).negative (spelling x).whole (spelling x).part (spelling x).power with
  | none => rfl
  | some y => rfl

end Binary64

end OrderDispatch
