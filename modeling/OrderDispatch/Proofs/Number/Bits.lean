import Mathlib
import OrderDispatch.Number.Shortest

/-!
# The bits of doubles

How the parts that are read off the bits of a double belong to the number it is: a finite double is
`mantissa * 2 ^ exponent`, and what is assembled from bits below those of infinity has these bits.

    (Float.ofBits b).toBits = b                                     (toBits_ofBits)
    isFinite x → x is zero, or mantissa x * 2 ^ exponent x         (unpack_of_isFinite)
    e ≤ 971 → m * 2 ^ e, packed, is finite                          (isFinite_pack)
-/

namespace OrderDispatch.Binary64

open Float.Model Float.Model.UnpackedFloat

/-! ## Words of three fields -/

theorem toNat_packComponents (s : Sign) (e : BitVec 11) (m : BitVec 52) :
    (packComponents Format.binary64 s e m).toNat =
      s.toBitVec.toNat * 2 ^ 63 + e.toNat * 2 ^ 52 + m.toNat := by
  show (s.toBitVec ++ e ++ m).toNat = _
  rw [BitVec.toNat_append, BitVec.toNat_append, ← Nat.shiftLeft_add_eq_or_of_lt m.isLt,
    ← Nat.shiftLeft_add_eq_or_of_lt e.isLt, Nat.shiftLeft_eq, Nat.shiftLeft_eq]
  omega

theorem toNat_unpackExponent (b : BitVec 64) :
    (@unpackExponent Format.binary64 b).toNat = b.toNat / 2 ^ 52 % 2 ^ 11 := by
  simp [unpackExponent, Nat.shiftRight_eq_div_pow]

theorem toNat_unpackMantissa (b : BitVec 64) :
    (@unpackMantissa Format.binary64 b).toNat = b.toNat % 2 ^ 52 := by
  simp [unpackMantissa]

theorem toNat_unpackSign (b : BitVec 64) :
    (@unpackSign Format.binary64 b).toNat = b.toNat / 2 ^ 63 := by
  have := b.isLt
  simp [unpackSign, Nat.shiftRight_eq_div_pow]
  omega

theorem toBitVec_ofBitVec (b : BitVec 1) : (Sign.ofBitVec b).toBitVec = b := by
  revert b; decide

theorem packComponents_unpacked (b : BitVec 64) :
    packComponents Format.binary64 (Sign.ofBitVec (@unpackSign Format.binary64 b))
      (@unpackExponent Format.binary64 b) (@unpackMantissa Format.binary64 b) =
      b := by
  apply BitVec.eq_of_toNat_eq
  rw [toNat_packComponents, toBitVec_ofBitVec, toNat_unpackSign, toNat_unpackExponent,
    toNat_unpackMantissa]
  omega

/-! ## Packing what was unpacked -/

theorem pack_normal (s : Sign) (e : BitVec 11) (m : BitVec 52) (h1 : e.toNat ≠ 2047)
    (hpos : 0 < (1#1 ++ m).toNat) :
    UnpackedFloat.pack Format.binary64
      (.finite s (1#1 ++ m).toNat ((e.toNat : Int) - 1075) hpos) =
      packComponents Format.binary64 s e m := by
  have hm := m.isLt
  have he := e.isLt
  have hcat : (1#1 ++ m).toNat = 2 ^ 52 + m.toNat := by
    rw [BitVec.toNat_append, ← Nat.shiftLeft_add_eq_or_of_lt hm, Nat.shiftLeft_eq]
    simp
  have hlog : (1#1 ++ m).toNat.log2 = 52 := by
    rw [hcat]
    apply (Nat.log2_eq_iff (by omega)).2
    omega
  have hbias : ((e.toNat : Int) - 1075 + (Format.exponentBias Format.binary64 : Nat) +
      (52 : Nat)).toNat = e.toNat := by
    simp only [Format.exponentBias]
    omega
  simp only [UnpackedFloat.pack, hbias, hlog]
  rw [if_neg (by show ¬ 2 ^ 11 ≤ e.toNat + 1; omega), if_pos (by rfl)]
  congr 1
  · simp
  · apply BitVec.eq_of_toNat_eq
    rw [BitVec.toNat_ofNat, hcat]
    show (2 ^ 52 + m.toNat) % 2 ^ 52 = m.toNat
    omega

theorem pack_subnormal (s : Sign) (m : BitVec 52) (hpos : 0 < m.toNat) :
    UnpackedFloat.pack Format.binary64 (.finite s m.toNat (-1074) hpos) =
      packComponents Format.binary64 s 0 m := by
  have hm := m.isLt
  have hlog : m.toNat.log2 < 52 := (Nat.log2_lt (by omega)).2 hm
  have hbias : ((-1074 : Int) + (Format.exponentBias Format.binary64 : Nat) +
      (52 : Nat)).toNat = 1 := by
    simp only [Format.exponentBias]
    omega
  simp only [UnpackedFloat.pack, hbias]
  rw [if_neg (by decide), if_neg (by show ¬ m.toNat.log2 + 1 = 53; omega)]
  simp

theorem pack_unpack (b : BitVec 64) (h : b.toNat / 2 ^ 52 % 2 ^ 11 ≠ 2047) :
    UnpackedFloat.pack Format.binary64 (UnpackedFloat.unpack Format.binary64 b) = b := by
  have hpacked := packComponents_unpacked b
  have hexp := toNat_unpackExponent b
  have hman := toNat_unpackMantissa b
  have hne : @unpackExponent Format.binary64 b ≠ -1#_ := fun hc => by
    apply h
    rw [← hexp, hc]
    decide
  unfold UnpackedFloat.unpack
  simp only [hne, if_false]
  split
  · next h0 =>
    split
    · next hm =>
      rw [h0, hm] at hpacked
      exact hpacked
    · next hm =>
      have hpos : 0 < (@unpackMantissa Format.binary64 b).toNat :=
        Nat.pos_of_ne_zero fun h => hm (BitVec.eq_of_toNat_eq h)
      rw [h0] at hpacked
      refine Eq.trans ?_ ((pack_subnormal _ _ hpos).trans hpacked)
      simp [h0, Format.exponentBias]
  · exact Eq.trans rfl ((pack_normal _ _ _ (by omega) _).trans hpacked)

/-- A double made of bits that are not those of an infinity or a NaN has these bits. -/
theorem toBits_ofBits (b : UInt64) (h : b.toNat / 2 ^ 52 % 2 ^ 11 ≠ 2047) :
    (Float.ofBits b).toBits = b := by
  show UInt64.ofBitVec (UnpackedFloat.pack Format.binary64
    (UnpackedFloat.unpack Format.binary64 b.toBitVec)) = b
  rw [pack_unpack b.toBitVec h]

/-! ## Assembled doubles -/

theorem toNat_ofParts_aux (negative : Bool) (bits : Nat) (h : bits < infinityBits) :
    (UInt64.ofNat (bits + if negative then signBit else 0)).toNat =
      bits + if negative then signBit else 0 := by
  rw [UInt64.toNat_ofNat']
  apply Nat.mod_eq_of_lt
  have hinf : infinityBits = 9218868437227405312 := rfl
  have hsign : signBit = 9223372036854775808 := rfl
  split <;> omega

/-- A double assembled from bits below those of infinity has these bits, and the sign before
them. -/
theorem toBits_ofParts (negative : Bool) (bits : Nat) (h : bits < infinityBits) :
    (ofParts negative bits).toBits.toNat = bits + if negative then signBit else 0 := by
  have haux := toNat_ofParts_aux negative bits h
  have hinf : infinityBits = 9218868437227405312 := rfl
  have hsign : signBit = 9223372036854775808 := rfl
  unfold ofParts
  rw [toBits_ofBits, haux]
  rw [haux, hsign]
  split <;> omega

theorem biasedExponent_ofParts (negative : Bool) (bits : Nat) (h : bits < infinityBits) :
    biasedExponent (ofParts negative bits) = bits / hiddenBit := by
  have hinf : infinityBits = 9218868437227405312 := rfl
  have hsign : signBit = 9223372036854775808 := rfl
  have hhid : hiddenBit = 4503599627370496 := rfl
  unfold biasedExponent
  rw [toBits_ofParts negative bits h, hsign, hhid]
  show _ % 2048 = _
  split <;> omega

theorem fraction_ofParts (negative : Bool) (bits : Nat) (h : bits < infinityBits) :
    fraction (ofParts negative bits) = bits % hiddenBit := by
  have hsign : signBit = 9223372036854775808 := rfl
  have hhid : hiddenBit = 4503599627370496 := rfl
  unfold fraction
  rw [toBits_ofParts negative bits h, hsign, hhid]
  split <;> omega

theorem isFinite_ofParts (negative : Bool) (bits : Nat) (h : bits < infinityBits) :
    isFinite (ofParts negative bits) = true := by
  have hinf : infinityBits = 9218868437227405312 := rfl
  have hhid : hiddenBit = 4503599627370496 := rfl
  unfold isFinite
  rw [biasedExponent_ofParts negative bits h, hhid]
  simp only [bne_iff_ne, ne_eq]
  omega

/-- The bits of a finite double without its sign are below those of infinity. -/
theorem magnitudeBits_lt (x : Float) (h : isFinite x = true) :
    x.toBits.toNat % signBit < infinityBits := by
  have hinf : infinityBits = 9218868437227405312 := rfl
  have hsign : signBit = 9223372036854775808 := rfl
  have hhid : hiddenBit = 4503599627370496 := rfl
  have hexp : x.toBits.toNat / hiddenBit % 2048 ≠ 2047 := by
    simpa [isFinite, biasedExponent, exponentBits] using h
  have hlt := x.toBits.toNat_lt
  rw [hhid] at hexp
  rw [hsign, hinf]
  omega

theorem toBits_abs (x : Float) (h : isFinite x = true) :
    (abs x).toBits.toNat = x.toBits.toNat % signBit := by
  unfold abs
  rw [toBits_ofParts false _ (magnitudeBits_lt x h)]
  rfl

theorem eq_of_toBits (x y : Float) (h : x.toBits.toNat = y.toBits.toNat) : x = y := by
  obtain ⟨b, hb⟩ := x
  obtain ⟨c, hc⟩ := y
  have hbits : b = c := UInt64.toNat_inj.1 h
  subst hbits
  rfl

/-- A finite double is assembled from its sign and its other bits. -/
theorem ofParts_self (x : Float) (h : isFinite x = true) :
    ofParts (isNegative x) (x.toBits.toNat % signBit) = x := by
  apply eq_of_toBits
  have hlt := x.toBits.toNat_lt
  have hsign : signBit = 9223372036854775808 := rfl
  rw [toBits_ofParts _ _ (magnitudeBits_lt x h)]
  unfold isNegative
  rw [hsign]
  split
  · next hneg =>
    have := eq_of_beq hneg
    omega
  · next hpos =>
    have hne : x.toBits.toNat / 9223372036854775808 ≠ 1 := fun heq => hpos (beq_iff_eq.2 heq)
    omega

theorem mantissa_eq_zero_iff (x : Float) :
    mantissa x = 0 ↔ biasedExponent x = 0 ∧ fraction x = 0 := by
  have hhid : hiddenBit = 4503599627370496 := rfl
  unfold mantissa
  split <;> omega

/-- Only the two zeros have a significand of zero. -/
theorem magnitudeBits_eq_zero_iff (x : Float) :
    x.toBits.toNat % signBit = 0 ↔ mantissa x = 0 := by
  have hsign : signBit = 9223372036854775808 := rfl
  have hhid : hiddenBit = 4503599627370496 := rfl
  have hlt := x.toBits.toNat_lt
  rw [mantissa_eq_zero_iff]
  unfold biasedExponent fraction
  rw [hsign, hhid]
  show _ ↔ _ % 2048 = 0 ∧ _
  omega

/-! ## Finite doubles as numbers -/

/-- A finite double is a zero or the number that its significand and exponent say. -/
theorem unpack_of_isFinite (x : Float) (h : isFinite x = true) :
    (mantissa x = 0 ∧ ∃ s, x.toModel.unpack = .zero s) ∨
      ∃ s hpos, x.toModel.unpack = .finite s (mantissa x) (exponent x) hpos := by
  have hexp := toNat_unpackExponent x.toBits.toBitVec
  have hman := toNat_unpackMantissa x.toBits.toBitVec
  have hE : (@unpackExponent Format.binary64 x.toBits.toBitVec).toNat =
      biasedExponent x := hexp
  have hM : (@unpackMantissa Format.binary64 x.toBits.toBitVec).toNat = fraction x := hman
  have hne : @unpackExponent Format.binary64 x.toBits.toBitVec ≠ -1#_ := fun hc => by
    have hfin : biasedExponent x ≠ 2047 := by simpa [isFinite] using h
    apply hfin
    rw [← hE, hc]
    decide
  unfold Float.Model.unpack UnpackedFloat.unpack
  change _ ∨ ∃ s hpos, _ = finite s (mantissa x) (exponent x) hpos
  simp only [show x.toModel.toBits = x.toBits from rfl, hne, if_false]
  split
  · next h0 =>
    have hb : biasedExponent x = 0 := by rw [← hE, h0]; rfl
    split
    · next hm =>
      left
      have hf : fraction x = 0 := by rw [← hM, hm]; rfl
      exact ⟨(mantissa_eq_zero_iff x).2 ⟨hb, hf⟩, _, rfl⟩
    · next hm =>
      right
      have hmant : mantissa x = fraction x := by unfold mantissa; rw [if_pos hb]
      have hexpo : exponent x = -1074 := by unfold exponent; rw [hb]; rfl
      have hpos : 0 < mantissa x := by
        rw [hmant, ← hM]
        exact Nat.pos_of_ne_zero fun hz => hm (BitVec.eq_of_toNat_eq hz)
      refine ⟨Sign.ofBitVec (@unpackSign Format.binary64 x.toBits.toBitVec), hpos, ?_⟩
      simp only [hmant, hexpo, hM, hE, hb]
      rfl
  · next h0 =>
    right
    have hb : biasedExponent x ≠ 0 := fun hz => h0 (BitVec.eq_of_toNat_eq (hE.trans hz))
    have hmant : mantissa x = hiddenBit + fraction x := by unfold mantissa; rw [if_neg hb]
    have hcat : (1#1 ++ @unpackMantissa Format.binary64 x.toBits.toBitVec).toNat =
        hiddenBit + fraction x := by
      have hlt := (@unpackMantissa Format.binary64 x.toBits.toBitVec).isLt
      rw [BitVec.toNat_append, ← Nat.shiftLeft_add_eq_or_of_lt hlt, Nat.shiftLeft_eq, hM]
      rfl
    have hexpo : exponent x = (biasedExponent x : Int) - 1075 := by
      unfold exponent
      rw [Nat.max_eq_left (by omega)]
    have hpos : 0 < mantissa x := by
      have hhid : hiddenBit = 4503599627370496 := rfl
      omega
    refine ⟨Sign.ofBitVec (@unpackSign Format.binary64 x.toBits.toBitVec), hpos, ?_⟩
    simp only [hmant, hexpo, hcat, hE]
    rfl

/-! ## Packed doubles -/

theorem biasedExponent_ofModel (b : BitVec 64) (v : Format.binary64.Valid b) :
    biasedExponent (.ofModel ⟨.ofBitVec b, v⟩) =
      (@unpackExponent Format.binary64 b).toNat :=
  (toNat_unpackExponent b).symm

/-- A number is packed into a finite double unless its exponent is too great. -/
theorem isFinite_pack (s : Sign) (m : Nat) (e : Int) (hpos : 0 < m) (he : e ≤ 971) :
    isFinite (.ofModel (Float.Model.pack (.finite s m e hpos))) = true := by
  have hbias : (Format.exponentBias Format.binary64 : Int) = 1023 := rfl
  unfold isFinite Float.Model.pack
  rw [biasedExponent_ofModel]
  simp only [UnpackedFloat.pack, hbias]
  rw [if_neg (by show ¬ 2048 ≤ (e + 1023 + (52 : Nat)).toNat + 1; omega)]
  split
  · rw [unpackExponent_packComponents, BitVec.toNat_ofNat]
    simp only [bne_iff_ne, ne_eq]
    show ¬ (e + 1023 + (52 : Nat)).toNat % 2048 = 2047
    omega
  · rw [unpackExponent_packComponents]
    rfl

theorem isFinite_pack_zero (s : Sign) :
    isFinite (.ofModel (Float.Model.pack (.zero s))) = true := by
  cases s <;> decide

/-- The exponent of a finite double is between the least and the greatest one there is. -/
theorem exponent_bounds (x : Float) (h : isFinite x = true) :
    -1074 ≤ exponent x ∧ exponent x ≤ 971 := by
  have hlt : biasedExponent x < 2048 := Nat.mod_lt _ (by decide)
  have hne : biasedExponent x ≠ 2047 := by simpa [isFinite] using h
  unfold exponent
  omega

/-- The negative of a finite double is finite. -/
theorem isFinite_neg (x : Float) (h : isFinite x = true) : isFinite (-x) = true := by
  show isFinite (.ofModel (Float.Model.pack x.toModel.unpack.neg)) = true
  rcases unpack_of_isFinite x h with ⟨-, s, hz⟩ | ⟨s, hpos, hf⟩
  · rw [hz]
    exact isFinite_pack_zero _
  · rw [hf]
    exact isFinite_pack _ _ _ hpos (exponent_bounds x h).2

end OrderDispatch.Binary64
