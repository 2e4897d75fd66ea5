import ReactiveScript.Proofs.Number.Order
import ReactiveScript.Value

/-!
# Whole numbers

A number has fifty-three binary digits at most.  A whole number below the cut-off for integers is a
natural number with a sign that has no more than that, so that no digit is rounded away when the
integer is read back.

* `Number.shape_eq`, `Number.normal_or_subnormal` — the shape of a number, and how many digits its
  mantissa has.
* `Number.unpack_ofInt` — an integer with at most fifty-three digits is shifted until it has that
  many.
* `Number.ofInt_toInt64` — a whole number below the cut-off reads back from its integer.
-/

set_option autoImplicit false

namespace ReactiveScript

open Float.Model Float.Model.UnpackedFloat

namespace Number

/-! ## Exact results are not rounded -/

theorem shiftRight_mul_pow (m k : ℕ) :
    (⟨m * 2 ^ k, false, false⟩ : ExtendedMantissa) >>> k = ⟨m, false, false⟩ := by
  show Nat.repeat ExtendedMantissa.shiftRightOne k ⟨m * 2 ^ k, false, false⟩ = _
  induction k generalizing m with
  | zero => rw [Nat.repeat, Nat.pow_zero, Nat.mul_one]
  | succ k ih =>
    rw [Nat.repeat, Nat.pow_succ', ← Nat.mul_assoc, ih, ExtendedMantissa.shiftRightOne]
    simp

theorem log2_mul_pow {m : ℕ} (hm : m ≠ 0) (k : ℕ) : (m * 2 ^ k).log2 = m.log2 + k := by
  obtain ⟨hle, hlt⟩ := (Nat.log2_eq_iff hm).1 rfl
  refine (Nat.log2_eq_iff (Nat.mul_ne_zero hm (Nat.two_pow_pos k).ne')).2 ⟨?_, ?_⟩
  · rw [Nat.pow_add]
    exact Nat.mul_le_mul_right _ hle
  · rw [Nat.add_right_comm, Nat.pow_add]
    exact Nat.mul_lt_mul_of_pos_right hlt (Nat.two_pow_pos k)

variable {m : ℕ} {e : ℤ}

theorem shiftToTargetExponent_eq (k : ℕ) (hlog : m.log2 = 52) (he : -1074 ≤ e) :
    shiftToTargetExponent .binary64 (m * 2 ^ k) (e - k) .exact = (⟨m, false, false⟩, e) := by
  have hm : m ≠ 0 := by rintro rfl; cases hlog
  have htarget : Format.binary64.targetExponent (totalExponent (m * 2 ^ k) (e - k)) = e := by
    rw [totalExponent, log2_mul_pow hm, hlog, Format.targetExponent]
    have hbits : Format.binary64.mantissaBits = 53 := rfl
    have hmin : Format.binary64.minExponent = -1074 := rfl
    omega
  rw [shiftToTargetExponent, htarget, shiftToExponent, ExtendedMantissa.ofMantissaAndAccuracy]
  have hshift : (e - (e - k)).toNat = k := by omega
  rw [hshift, shiftRight_mul_pow, sub_add_cancel]

theorem roundWithAccuracy_eq (s : Sign) (k : ℕ) (hm : 0 < m) (hlog : m.log2 = 52)
    (he : -1074 ≤ e) :
    roundWithAccuracy .binary64 s (m * 2 ^ k) (e - k) .exact = .finite s m e hm := by
  have hagain := shiftToTargetExponent_eq 0 hlog he
  rw [Nat.pow_zero, Nat.mul_one, Nat.cast_zero, sub_zero] at hagain
  rw [roundWithAccuracy, shiftToTargetExponent_eq k hlog he]
  have hrounded : (⟨m, false, false⟩ : ExtendedMantissa).roundedMantissa = m := rfl
  simp only [hrounded, hagain]
  rw [dif_neg hm.ne']

theorem toNat_one_append {w : ℕ} (v : BitVec w) : (1#1 ++ v).toNat = 2 ^ w + v.toNat := by
  rw [BitVec.toNat_append, ← Nat.shiftLeft_add_eq_or_of_lt v.isLt, Nat.shiftLeft_eq]
  simp

/-- A number with fifty-three binary digits is kept as it is. -/
theorem unpack_pack_of_normal (s : Sign) (hm : 0 < m) (hlog : m.log2 = 52) (hlo : -1074 ≤ e)
    (hhi : e ≤ 971) : (Float.Model.pack (.finite s m e hm)).unpack = .finite s m e hm := by
  obtain ⟨hle, hlt⟩ := (Nat.log2_eq_iff hm.ne').1 hlog
  -- the exponent field is neither that of a subnormal number nor that of an infinity
  obtain ⟨n, rfl, hn, hn'⟩ : ∃ n : ℕ, e = n - 1075 ∧ 0 < n ∧ n < 2047 :=
    ⟨(e + 1075).toNat, by omega, by omega, by omega⟩
  have hfield : (BitVec.ofNat 11 n).toNat = n := by
    rw [BitVec.toNat_ofNat, Nat.mod_eq_of_lt (by omega)]
  have hmantissa : (1#1 ++ BitVec.ofNat 52 m).toNat = m := by
    rw [toNat_one_append, BitVec.toNat_ofNat]
    omega
  have hpack : UnpackedFloat.pack .binary64 (.finite s m (n - 1075) hm)
      = packComponents .binary64 s (BitVec.ofNat 11 n) (BitVec.ofNat 52 m) := by
    have hbias : ((n : ℤ) - 1075 + Format.binary64.exponentBias
        + Format.binary64.mantissaBitsWithoutImplicit).toNat = n := by
      have hbias : (Format.binary64.exponentBias : ℤ) = 1023 := rfl
      have hbits : (Format.binary64.mantissaBitsWithoutImplicit : ℤ) = 52 := rfl
      omega
    rw [UnpackedFloat.pack]
    simp only [hbias, hlog]
    have hbits : 52 + 1 = Format.binary64.mantissaBits := rfl
    rw [if_neg (by omega), if_pos hbits]
  have hzero : BitVec.ofNat 11 n ≠ 0#11 := fun h => by
    rw [← BitVec.toNat_inj, hfield] at h
    exact hn.ne' h
  have hones : BitVec.ofNat 11 n ≠ -1#11 := fun h => by
    rw [← BitVec.toNat_inj, hfield] at h
    exact hn'.ne h
  show UnpackedFloat.unpack .binary64 (UnpackedFloat.pack .binary64 _) = _
  rw [hpack, UnpackedFloat.unpack]
  simp only [unpackMantissa_packComponents, unpackExponent_packComponents,
    unpackSign_packComponents, Sign.ofBitVec_toBitVec]
  rw [if_neg hones, if_neg hzero]
  simp only [hmantissa, hfield]
  rfl

/-! ## Natural numbers -/

variable {n k : ℕ}

theorem lt_and_log2_add (hm : 0 < n * 2 ^ k) (hlog : (n * 2 ^ k).log2 = 52) :
    n < 2 ^ 53 ∧ n.log2 + k = 52 := by
  obtain ⟨-, hlt⟩ := (Nat.log2_eq_iff hm.ne').1 hlog
  have hn : n ≠ 0 := (Nat.pos_of_mul_pos_right hm).ne'
  exact ⟨lt_of_le_of_lt (Nat.le_mul_of_pos_right n (Nat.two_pow_pos k)) hlt,
    (log2_mul_pow hn k).symm.trans hlog⟩

/-- A natural number with at most fifty-three binary digits is shifted until it has that many. -/
theorem unpack_ofUInt64 (hm : 0 < n * 2 ^ k) (hlog : (n * 2 ^ k).log2 = 52) :
    (Float.Model.ofUInt64 n.toUInt64).unpack = .finite .positive (n * 2 ^ k) (-k) hm := by
  obtain ⟨hsmall, hk⟩ := lt_and_log2_add hm hlog
  have hround : round .binary64 .positive n 0 = .finite .positive (n * 2 ^ k) (-k) hm := by
    have htarget : Format.binary64.targetExponent (totalExponent n 0) = -k := by
      rw [totalExponent, Format.targetExponent]
      have hbits : Format.binary64.mantissaBits = 53 := rfl
      have hmin : Format.binary64.minExponent = -1074 := rfl
      omega
    have hshift : (0 - -(k : ℤ)).toNat = k := by omega
    have hexact := roundWithAccuracy_eq .positive 0 hm hlog (e := -k) (by omega)
    rw [Nat.pow_zero, Nat.mul_one, Nat.cast_zero, sub_zero] at hexact
    rw [UnpackedFloat.round, htarget, decreaseExponent, hshift]
    simp only [Nat.shiftLeft_eq, zero_sub]
    exact hexact
  have hnat : n.toUInt64.toNat = n := Nat.mod_eq_of_lt (by omega)
  have hpack : Float.Model.ofUInt64 n.toUInt64
      = Float.Model.pack (.finite .positive (n * 2 ^ k) (-k) hm) := by
    have hcompare : compare (n : ℤ) 0 = .gt :=
      compare_gt_iff_gt.2 (Int.natCast_pos.2 (Nat.pos_of_mul_pos_right hm))
    rw [Float.Model.ofUInt64, UnpackedFloat.ofUInt64, hnat, UnpackedFloat.ofNat,
      UnpackedFloat.ofInt, UnpackedFloat.normalize]
    simp only [hcompare, Int.toNat_natCast, hround]
  rw [hpack]
  exact unpack_pack_of_normal _ hm hlog (by omega) (by omega)

theorem unpack_ofNat (hm : 0 < n * 2 ^ k) (hlog : (n * 2 ^ k).log2 = 52) :
    (Float.ofNat n).toModel.unpack = .finite .positive (n * 2 ^ k) (-k) hm := by
  obtain ⟨hsmall, hk⟩ := lt_and_log2_add hm hlog
  have hone : (Float.ofBits 4607182418800017408).toModel.unpack
      = .finite .positive (2 ^ 52) (-52) (by decide) := rfl
  have hof : (Float.ofNat n).toModel
      = Float.Model.mul (Float.Model.ofUInt64 n.toUInt64)
        (Float.ofBits 4607182418800017408).toModel := by
    show (Float.ofScientific n false 0).toModel = _
    rw [Float.ofScientific, dif_pos ⟨hsmall, by decide⟩]
    rfl
  have hexact := roundWithAccuracy_eq .positive 52 hm hlog (e := -k) (by omega)
  rw [hof, Float.Model.mul, unpack_ofUInt64 hm hlog, hone, UnpackedFloat.mul]
  exact (congrArg (fun u => (Float.Model.pack u).unpack) hexact).trans
    (unpack_pack_of_normal _ hm hlog (by omega) (by omega))

/-! ## Shapes -/

section Fields

variable (b : BitVec Format.binary64.numBits)

theorem toNat_unpackMantissa : (unpackMantissa b).toNat = b.toNat % 2 ^ 52 := by
  rw [unpackMantissa, BitVec.toNat_cast, BitVec.extractLsb_toNat, Nat.shiftRight_zero]
  rfl

theorem toNat_unpackExponent : (unpackExponent b).toNat = b.toNat / 2 ^ 52 % 2 ^ 11 := by
  rw [unpackExponent, BitVec.toNat_cast, BitVec.extractLsb_toNat, Nat.shiftRight_eq_div_pow]
  rfl

theorem ofBitVec_unpackSign :
    (Sign.ofBitVec (unpackSign b) == .negative) = (b.toNat / 2 ^ 63 % 2 == 1) := by
  have hsign : (unpackSign b).toNat = b.toNat / 2 ^ 63 % 2 := by
    rw [unpackSign, BitVec.toNat_cast, BitVec.extractLsb_toNat, Nat.shiftRight_eq_div_pow]
    rfl
  rw [← hsign]
  generalize unpackSign b = v
  revert v
  decide

end Fields

/-- The shape that a number stands for when it is taken apart. -/
def shapeOf : UnpackedFloat → Shape
  | .notANumber => .nan
  | .infinity s => .infinite (s == .negative)
  | .zero s => .finite (s == .negative) 0 (-1074)
  | .finite s m e _ => .finite (s == .negative) m e

/-- The shape of a number is what its bits are unpacked to. -/
theorem shape_eq (x : Float) : shape x = shapeOf x.toModel.unpack := by
  obtain ⟨b, hb⟩ : ∃ b : BitVec Format.binary64.numBits, x.toModel.toBits.toBitVec = b := ⟨_, rfl⟩
  obtain ⟨field, hfield⟩ : ∃ field : BitVec 11, unpackExponent b = field := ⟨_, rfl⟩
  obtain ⟨fraction, hfraction⟩ : ∃ fraction : BitVec 52, unpackMantissa b = fraction := ⟨_, rfl⟩
  have hshape : shape x = Shape.ofFields (b.toNat / 2 ^ 63 % 2 == 1) (b.toNat / 2 ^ 52 % 2 ^ 11)
      (b.toNat % 2 ^ 52) := by
    rw [← hb]
    rfl
  rw [hshape, ← ofBitVec_unpackSign b, ← toNat_unpackExponent b, ← toNat_unpackMantissa b,
    Float.Model.unpack, hb, UnpackedFloat.unpack, Shape.ofFields]
  have hones : field.toNat = 2047 ↔ field = -1#11 := BitVec.toNat_inj (y := -1#11)
  have hzero : field.toNat = 0 ↔ field = 0#11 := BitVec.toNat_inj (y := 0#11)
  have hnone : fraction.toNat = 0 ↔ fraction = 0#52 := BitVec.toNat_inj (y := 0#52)
  simp only [hfield, hfraction, hones, hzero, hnone]
  by_cases hfinite : field = -1#11
  · rw [if_pos hfinite, if_pos hfinite]
    split <;> rfl
  · rw [if_neg hfinite, if_neg hfinite]
    by_cases hnormal : field = 0#11
    · rw [if_pos hnormal, if_pos hnormal]
      split
      · rename_i h
        rw [hnone.2 h]
        rfl
      · rw [shapeOf, hzero.2 hnormal]
        rfl
    · rw [if_neg hnormal, if_neg hnormal, shapeOf, toNat_one_append, Nat.add_comm]
      rfl

/-- A finite number has fifty-three binary digits, unless it is one of the very small ones. -/
theorem normal_or_subnormal {x : Float} {negative : Bool} (h : shape x = .finite negative m e) :
    m.log2 = 52 ∧ -1074 ≤ e ∧ e ≤ 971 ∨ m < 2 ^ 52 ∧ e = -1074 := by
  have hfield : x.toBits.toNat / Nat.pow 2 52 % Nat.pow 2 11 < 2 ^ 11 := Nat.mod_lt _ (by decide)
  have hfraction : x.toBits.toNat % Nat.pow 2 52 < 2 ^ 52 := Nat.mod_lt _ (by decide)
  rw [shape, Shape.ofBits, Shape.ofFields] at h
  split at h
  · split at h <;> cases h
  · split at h
    · cases h
      exact Or.inr ⟨hfraction, rfl⟩
    · cases h
      refine Or.inl ⟨(Nat.log2_eq_iff (Nat.add_pos_right _ (by decide)).ne').2 ⟨?_, ?_⟩,
        by omega, by omega⟩
      · exact Nat.le_add_left _ _
      · exact Nat.add_lt_add_right hfraction _

theorem eq_of_unpack_eq {x y : Float} (h : x.toModel.unpack = y.toModel.unpack) : x = y := by
  have hpack : ∀ z : Float, UnpackedFloat.pack .binary64 z.toModel.unpack = z.toBits.toBitVec :=
    fun z => pack_unpack_of_valid z.toModel.valid
  have hbits : x.toBits.toBitVec = y.toBits.toBitVec := by rw [← hpack x, ← hpack y, h]
  exact Float.toBits_inj.1 (UInt64.toBitVec_inj.1 hbits)

/-! ## Integers -/

theorem unpack_neg {x : Float} {s : Sign} {hm : 0 < m}
    (h : x.toModel.unpack = .finite s m e hm) (hlog : m.log2 = 52) (hlo : -1074 ≤ e)
    (hhi : e ≤ 971) : x.neg.toModel.unpack = .finite (-s) m e hm := by
  have hneg : x.neg.toModel = Float.Model.pack x.toModel.unpack.neg := rfl
  rw [hneg, h, UnpackedFloat.neg]
  exact unpack_pack_of_normal _ hm hlog hlo hhi

theorem unpack_abs {x : Float} {s : Sign} {hm : 0 < m}
    (h : x.toModel.unpack = .finite s m e hm) (hlog : m.log2 = 52) (hlo : -1074 ≤ e)
    (hhi : e ≤ 971) : x.abs.toModel.unpack = .finite .positive m e hm := by
  have habs : x.abs.toModel = Float.Model.pack x.toModel.unpack.abs := rfl
  rw [habs, h, UnpackedFloat.abs]
  exact unpack_pack_of_normal _ hm hlog hlo hhi

/-- The integer that a natural number with a sign stands for reads back as that number. -/
theorem unpack_ofInt (s : Sign) (hm : 0 < n * 2 ^ k) (hlog : (n * 2 ^ k).log2 = 52) :
    (Float.ofInt (s.apply n)).toModel.unpack = .finite s (n * 2 ^ k) (-k) hm := by
  cases s with
  | positive => exact unpack_ofNat hm hlog
  | negative =>
    obtain ⟨-, hk⟩ := lt_and_log2_add hm hlog
    obtain ⟨n, rfl⟩ := Nat.exists_eq_succ_of_ne_zero (Nat.pos_of_mul_pos_right hm).ne'
    exact unpack_neg (unpack_ofNat hm hlog) hlog (by omega) (by omega)

theorem leftOver_neg (m k : ℕ) : leftOver m (-k) = m % 2 ^ k := by
  rw [leftOver]
  split
  · obtain rfl : k = 0 := by omega
    rw [Nat.pow_zero, Nat.mod_one]
  · rw [neg_neg, Int.toNat_natCast]
    rfl

theorem wholePart_neg (m k : ℕ) : wholePart m (-k) = m / 2 ^ k := by
  rw [wholePart]
  split
  · obtain rfl : k = 0 := by omega
    rw [Nat.pow_zero, Nat.div_one]
    exact Nat.mul_one m
  · rw [neg_neg, Int.toNat_natCast]
    rfl

/-- A whole number below the cut-off is a natural number with a sign. -/
theorem exists_eq_mul_pow {x : Float} {s : Sign} {hm : 0 < m}
    (h : x.toModel.unpack = .finite s m e hm) (hwhole : isWhole x = true) (hlt : x.abs < 9e15) :
    ∃ n k : ℕ, m = n * 2 ^ k ∧ e = -k ∧ m.log2 = 52 ∧ wholePart m e = n := by
  have hshape : shape x = .finite (s == .negative) m e := by rw [shape_eq, h, shapeOf]
  rw [isWhole, hshape] at hwhole
  have hleft : leftOver m e = 0 := eq_of_beq hwhole
  rcases normal_or_subnormal hshape with ⟨hlog, hlo, hhi⟩ | ⟨hsmall, rfl⟩
  · have he : e ≤ 0 := by
      have habs : rank? x.abs = some (toLex (1, toLex (e, (m : ℤ)))) := by
        rw [rank?, unpack_abs h hlog hlo hhi]
      have hcut : rank? 9e15 = some (toLex (1, toLex (0, 9000000000000000))) := rfl
      obtain ⟨r, q, hr, hq, hrq⟩ := lt_iff.1 hlt
      cases habs.symm.trans hr
      cases hcut.symm.trans hq
      simp only [Prod.Lex.toLex_lt_toLex] at hrq
      omega
    obtain ⟨k, rfl⟩ : ∃ k : ℕ, e = -k := ⟨(-e).toNat, by omega⟩
    rw [leftOver_neg] at hleft
    exact ⟨m / 2 ^ k, k, (Nat.div_mul_cancel (Nat.dvd_of_mod_eq_zero hleft)).symm, rfl, hlog,
      wholePart_neg m k⟩
  · -- a very small number is not whole
    obtain ⟨k, hk, hle⟩ : ∃ k : ℕ, (-1074 : ℤ) = -k ∧ 52 ≤ k := ⟨1074, rfl, by decide⟩
    have hlarge : m < 2 ^ k := hsmall.trans_le (Nat.pow_le_pow_right (by decide) hle)
    rw [hk, leftOver_neg, Nat.mod_eq_of_lt hlarge] at hleft
    exact absurd hleft hm.ne'

/-- **A whole number below the cut-off reads back from its integer**, except that the integer has no
sign if it is zero. -/
theorem ofInt_toInt64 {x : Float} (hwhole : isWhole x = true) (hlt : x.abs < 9e15) :
    (x == 0) = true ∧ toInt64 x = 0 ∨ Float.ofInt (toInt64 x) = x := by
  cases h : x.toModel.unpack with
  | notANumber | infinity =>
    rw [isWhole, shape_eq, h] at hwhole
    cases hwhole
  | zero s =>
    refine Or.inl ⟨beq_iff.2 ⟨toLex (0, toLex (0, 0)), by rw [rank?, h], rfl⟩, ?_⟩
    obtain ⟨k, hk⟩ : ∃ k : ℕ, (-1074 : ℤ) = -k := ⟨1074, rfl⟩
    have hpart : wholePart 0 (-1074) = 0 := by rw [hk, wholePart_neg, Nat.zero_div]
    rw [toInt64, toIntWithin, shape_eq, h, shapeOf]
    dsimp only
    rw [hpart]
    cases s <;> rfl
  | finite s m e hm =>
    obtain ⟨n, k, rfl, rfl, hlog, hpart⟩ := exists_eq_mul_pow h hwhole hlt
    have hint : toInt64 x = s.apply n := by
      obtain ⟨hsmall, -⟩ := lt_and_log2_add hm hlog
      have hpow : Int.pow 2 63 = 9223372036854775808 := rfl
      rw [toInt64, toIntWithin, shape_eq, h, shapeOf, hpow]
      dsimp only
      rw [hpart]
      cases s <;> simp [Sign.apply] <;> omega
    right
    rw [hint]
    exact eq_of_unpack_eq ((unpack_ofInt s hm hlog).trans h.symm)

end Number

end ReactiveScript
