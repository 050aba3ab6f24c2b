import Mathlib.Algebra.Group.Nat.Defs
import OrderDispatch.Text.Bytes

/-!
# Bytes that tell their parts

What is put together from texts that end with a zero byte, and from words of a fixed width, comes
apart in one way.

    p ++ 0 :: xs = q ++ 0 :: ys → p = q and xs = ys, where neither p nor q has a zero
    littleEndian w m = littleEndian w n → m and n agree modulo 256 ^ w
    hex xs = hex ys → xs = ys

The bytes of a text have a zero among them only if the text has the zero character.
-/

namespace OrderDispatch.Text

theorem append_zero_inj (p q xs ys : List UInt8) (hp : 0 ∉ p) (hq : 0 ∉ q)
    (h : p ++ 0 :: xs = q ++ 0 :: ys) : p = q ∧ xs = ys := by
  induction p generalizing q with
  | nil =>
    cases q with
    | nil => exact ⟨rfl, (List.cons.inj h).2⟩
    | cons b q => exact absurd List.mem_cons_self ((List.cons.inj h).1 ▸ hq)
  | cons a p ih =>
    cases q with
    | nil => exact absurd List.mem_cons_self ((List.cons.inj h).1 ▸ hp)
    | cons b q =>
      obtain ⟨hhead, htail⟩ := List.cons.inj h
      obtain ⟨hp', hrest⟩ := ih q (List.not_mem_of_not_mem_cons hp)
        (List.not_mem_of_not_mem_cons hq) htail
      exact ⟨by rw [hhead, hp'], hrest⟩

/-! ## Words -/

theorem length_littleEndian (width n : Nat) : (littleEndian width n).length = width := by
  induction width generalizing n with
  | zero => rfl
  | succ width ih => rw [littleEndian, List.length_cons, ih]

/-- The bytes of a number tell the number as far as they reach. -/
theorem littleEndian_inj (width m n : Nat) (h : littleEndian width m = littleEndian width n) :
    m % 256 ^ width = n % 256 ^ width := by
  induction width generalizing m n with
  | zero => rw [Nat.pow_zero, Nat.mod_one, Nat.mod_one]
  | succ width ih =>
    obtain ⟨hlow, hrest⟩ := List.cons.inj h
    have hdigit : m % 256 = n % 256 := by
      have := congrArg UInt8.toNat hlow
      rwa [UInt8.toNat_ofNat', UInt8.toNat_ofNat'] at this
    rw [Nat.pow_succ', Nat.mod_mul, Nat.mod_mul, hdigit, ih _ _ hrest]

/-- A word in front tells itself and what stands behind it. -/
theorem littleEndian_append_inj (width m n : Nat) (xs ys : List UInt8) (hm : m < 256 ^ width)
    (hn : n < 256 ^ width) (h : littleEndian width m ++ xs = littleEndian width n ++ ys) :
    m = n ∧ xs = ys := by
  have hlength : (littleEndian width m).length = (littleEndian width n).length := by
    rw [length_littleEndian, length_littleEndian]
  obtain ⟨hword, hrest⟩ := List.append_inj h hlength
  have hmod := littleEndian_inj width m n hword
  rw [Nat.mod_eq_of_lt hm, Nat.mod_eq_of_lt hn] at hmod
  exact ⟨hmod, hrest⟩

/-! ## Hexadecimal digits -/

theorem hexDigit_inj : ∀ a < 16, ∀ b < 16, hexDigit a = hexDigit b → a = b := by decide

theorem hexDigit_mod (n : Nat) : hexDigit n = hexDigit (n % 16) := by
  unfold hexDigit
  rw [Nat.mod_mod]

/-- Two digits tell a byte. -/
theorem hexDigits_inj (a b : UInt8) (hhigh : hexDigit (a.toNat / 16) = hexDigit (b.toNat / 16))
    (hlow : hexDigit a.toNat = hexDigit b.toNat) : a = b := by
  have ha := a.toNat_lt
  have hb := b.toNat_lt
  rw [hexDigit_mod a.toNat, hexDigit_mod b.toNat] at hlow
  have hdiv := hexDigit_inj _ (by omega) _ (by omega) hhigh
  have hmod := hexDigit_inj _ (by omega) _ (by omega) hlow
  apply UInt8.toNat_inj.1
  omega

theorem hex_inj (xs ys : List UInt8) (h : hex xs = hex ys) : xs = ys := by
  have hdigits := String.ofList_injective h
  clear h
  induction xs generalizing ys with
  | nil =>
    cases ys with
    | nil => rfl
    | cons b ys => cases hdigits
  | cons a xs ih =>
    cases ys with
    | nil => cases hdigits
    | cons b ys =>
      simp only [List.flatMap_cons, List.cons_append, List.nil_append, List.cons.injEq] at hdigits
      obtain ⟨hhigh, hlow, hrest⟩ := hdigits
      rw [hexDigits_inj a b hhigh hlow, ih ys hrest]

theorem length_hex (bytes : List UInt8) : (hex bytes).length = 2 * bytes.length := by
  unfold hex
  rw [String.length_ofList]
  induction bytes with
  | nil => rfl
  | cons b bs ih =>
    rw [List.flatMap_cons, List.length_append, ih, List.length_cons, List.length_cons]
    simp only [List.length_cons, List.length_nil]
    omega

/-! ## The bytes of a text -/

theorem utf8_inj (s t : String) (h : utf8 s = utf8 t) : s = t := by
  apply String.toByteArray_inj.1
  apply ByteArray.ext
  exact Array.toList_inj.1 h

/-- The text of the bytes of a text is that text. -/
theorem ofUtf8?_utf8 (s : String) : ofUtf8? (utf8 s) = some s := by
  unfold ofUtf8? utf8 String.fromUTF8?
  exact dif_pos s.isValidUTF8

theorem utf8_append (s t : String) : utf8 (s ++ t) = utf8 s ++ utf8 t := by
  unfold utf8
  simp only [String.toUTF8_eq_toByteArray, String.toByteArray_append, ByteArray.data_append,
    Array.toList_append]

theorem utf8_ofList (cs : List Char) :
    utf8 (String.ofList cs) = cs.flatMap String.utf8EncodeChar := by
  unfold utf8
  rw [String.toUTF8_eq_toByteArray, String.toByteArray_ofList]
  exact List.toList_data_toByteArray

/-- No character but the zero has a zero byte. -/
theorem zero_not_mem_utf8EncodeChar (c : Char) (h : c ≠ '\x00') : 0 ∉ String.utf8EncodeChar c := by
  have hpos : c.val.toNat ≠ 0 := by
    intro hzero
    exact h (Char.ext (UInt32.toNat_inj.1 hzero))
  have hbyte : ∀ n, n % 256 ≠ 0 → (0 : UInt8) ≠ UInt8.ofNat n := by
    intro n hn heq
    have hnat := congrArg UInt8.toNat heq
    rw [UInt8.toNat_ofNat'] at hnat
    exact hn hnat.symm
  unfold String.utf8EncodeChar
  simp only
  -- A single byte is the character itself, and longer codes mark all their bytes.
  split
  · simp only [List.mem_singleton]
    exact hbyte _ (by omega)
  split
  · simp only [List.mem_cons, List.not_mem_nil, or_false, not_or]
    exact ⟨hbyte _ (by omega), hbyte _ (by omega)⟩
  split
  · simp only [List.mem_cons, List.not_mem_nil, or_false, not_or]
    exact ⟨hbyte _ (by omega), hbyte _ (by omega), hbyte _ (by omega)⟩
  · simp only [List.mem_cons, List.not_mem_nil, or_false, not_or]
    exact ⟨hbyte _ (by omega), hbyte _ (by omega), hbyte _ (by omega), hbyte _ (by omega)⟩

theorem zero_not_mem_utf8 (s : String) (h : '\x00' ∉ s.toList) : 0 ∉ utf8 s := by
  intro hzero
  rw [← String.ofList_toList (s := s), utf8_ofList] at hzero
  obtain ⟨c, hc, hbyte⟩ := List.mem_flatMap.1 hzero
  have hne : c ≠ '\x00' := by
    rintro rfl
    exact h hc
  exact zero_not_mem_utf8EncodeChar c hne hbyte

theorem utf8EncodeChar_hexDigit : ∀ n < 16, 0 ∉ String.utf8EncodeChar (hexDigit n) := by decide

/-- Hexadecimal digits have no zero byte among them. -/
theorem zero_not_mem_utf8_hex (bytes : List UInt8) : 0 ∉ utf8 (hex bytes) := by
  unfold hex
  rw [utf8_ofList]
  intro h
  obtain ⟨c, hc, hzero⟩ := List.mem_flatMap.1 h
  obtain ⟨b, -, hdigit⟩ := List.mem_flatMap.1 hc
  have hall : ∀ n, 0 ∉ String.utf8EncodeChar (hexDigit n) := by
    intro n
    rw [hexDigit_mod]
    exact utf8EncodeChar_hexDigit _ (Nat.mod_lt _ (by decide))
  simp only [List.mem_cons, List.not_mem_nil, or_false] at hdigit
  rcases hdigit with rfl | rfl
  · exact hall _ hzero
  · exact hall _ hzero

end OrderDispatch.Text
