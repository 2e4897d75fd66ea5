import ReactiveScript.Number.Reading
import ReactiveScript.Proofs.Identity
import ReactiveScript.Proofs.Number.Rounding

/-!
# The text of a number

The decimal that a number is written as lies in the neighbourhood of the number, so that reading it
gives the number back.

* `Decimal.value` — the exact value of a decimal.
* `Number.roundsBack_iff` — the test that the printer makes, in exact values.
* `Number.roundsTo_shortest` — the shortest decimal lies in the neighbourhood of its number.
* `Number.ofDecimal_of_roundsTo` — a decimal is read as the number whose neighbourhood it lies in.
* `Number.exists_numeral_text`, `Number.exists_numeral_toInt64` — the text of a finite number without
  a sign reads back.
* `Number.unsigned_readMagnitude` — a number that is read without a sign has none.
-/

set_option autoImplicit false

namespace ReactiveScript

namespace Decimal

/-- The exact value of a decimal. -/
def value (d : Decimal) : ℚ := d.digits * 10 ^ d.exponent

theorem value_strip (n : ℕ) (d : Decimal) : (strip n d).value = d.value := by
  induction n generalizing d with
  | zero => rfl
  | succ n ih =>
    rw [strip]
    split
    · rename_i h
      have hdigits : ((d.digits / 10 : ℕ) : ℚ) * 10 = d.digits := by
        exact_mod_cast Nat.div_mul_cancel (Nat.dvd_of_mod_eq_zero h.2)
      rw [ih, value, value, zpow_add_one₀ (by norm_num), ← hdigits]
      ring
    · rfl

theorem exponent_le_strip (n : ℕ) (d : Decimal) : d.exponent ≤ (strip n d).exponent := by
  induction n generalizing d with
  | zero => exact le_rfl
  | succ n ih =>
    rw [strip]
    split
    · exact le_trans (Int.le_add_one le_rfl) (ih _)
    · exact le_rfl

end Decimal

open Float.Model Float.Model.UnpackedFloat

namespace Number

/-! ## The test of the printer -/

theorem zpow_mul_pow_toNat {b : ℚ} (hb : b ≠ 0) (i : ℤ) : b ^ i * b ^ (-i).toNat = b ^ i.toNat := by
  rcases Int.le_total 0 i with hi | hi
  · obtain ⟨n, rfl⟩ := Int.eq_ofNat_of_zero_le hi
    simp
  · obtain ⟨n, hn⟩ := Int.eq_ofNat_of_zero_le (Int.neg_nonneg.2 hi)
    obtain rfl : i = -n := by omega
    simp [hb]

/-- Both sides of a comparison are multiplied by the same positive number. -/
theorem exists_scaled (a : ℕ) (i : ℤ) (b : ℕ) (j : ℤ) : ∃ c : ℚ, 0 < c ∧
    ((scaled a i b j).1 : ℚ) = a * 2 ^ i * c ∧ ((scaled a i b j).2 : ℚ) = b * 10 ^ j * c := by
  refine ⟨2 ^ (-i).toNat * 10 ^ (-j).toNat, by positivity, ?_, ?_⟩
  · have hscaled : (scaled a i b j).1 = a * 2 ^ i.toNat * 10 ^ (-j).toNat := rfl
    rw [hscaled]
    push_cast
    rw [← zpow_mul_pow_toNat two_ne_zero i]
    ring
  · have hscaled : (scaled a i b j).2 = b * 10 ^ j.toNat * 2 ^ (-i).toNat := rfl
    rw [hscaled]
    push_cast
    rw [← zpow_mul_pow_toNat (by norm_num) j]
    ring

theorem four_mul_div_zpow (v : ℚ) (e : ℤ) : 4 * (v / 2 ^ e) = v / 2 ^ (e - 2) := by
  rw [zpow_sub₀ two_ne_zero, div_div_eq_mul_div]
  norm_num
  ring

/-- **A decimal passes the test exactly if it lies in the neighbourhood of the number.** -/
theorem roundsBack_iff {m : ℕ} {e : ℤ} {d : Decimal} :
    roundsBack m e d = true ↔ RoundsTo m e d.value := by
  have hpos := two_zpow_pos (e - 2)
  obtain ⟨c, hc, hl, hx⟩ := exists_scaled (lowQuarters m e) (e - 2) d.digits d.exponent
  obtain ⟨c', hc', hh, hy⟩ := exists_scaled (4 * m + 2) (e - 2) d.digits d.exponent
  have hdef : roundsBack m e d =
      if m % 2 = 0 then
        decide ((scaled (lowQuarters m e) (e - 2) d.digits d.exponent).1 ≤
          (scaled (lowQuarters m e) (e - 2) d.digits d.exponent).2) &&
        decide ((scaled (4 * m + 2) (e - 2) d.digits d.exponent).2 ≤
          (scaled (4 * m + 2) (e - 2) d.digits d.exponent).1)
      else
        decide ((scaled (lowQuarters m e) (e - 2) d.digits d.exponent).1 <
          (scaled (lowQuarters m e) (e - 2) d.digits d.exponent).2) &&
        decide ((scaled (4 * m + 2) (e - 2) d.digits d.exponent).2 <
          (scaled (4 * m + 2) (e - 2) d.digits d.exponent).1) := rfl
  rw [hdef, RoundsTo, four_mul_div_zpow, Decimal.value]
  split
  · rw [Bool.and_eq_true, decide_eq_true_eq, decide_eq_true_eq, ← Nat.cast_le (α := ℚ), hl, hx,
      ← Nat.cast_le (α := ℚ), hh, hy, mul_le_mul_iff_left₀ hc, mul_le_mul_iff_left₀ hc',
      le_div_iff₀ hpos, div_le_iff₀ hpos]
  · rw [Bool.and_eq_true, decide_eq_true_eq, decide_eq_true_eq, ← Nat.cast_lt (α := ℚ), hl, hx,
      ← Nat.cast_lt (α := ℚ), hh, hy, mul_lt_mul_iff_left₀ hc, mul_lt_mul_iff_left₀ hc',
      lt_div_iff₀ hpos, div_lt_iff₀ hpos]

/-! ## The shortest decimal -/

section Shortest

variable {m : ℕ} {e : ℤ}

/-- A number lies in its own neighbourhood. -/
theorem roundsTo_self (hm : 0 < m) (e : ℤ) : RoundsTo m e (m * 2 ^ e) := by
  have hlow : lowQuarters m e < 4 * m := by
    rw [lowQuarters]
    split <;> omega
  have hlow' : (lowQuarters m e : ℚ) < 4 * m := by exact_mod_cast hlow
  rw [RoundsTo, mul_div_cancel_right₀ _ (two_zpow_pos e).ne']
  push_cast
  split
  · exact ⟨hlow'.le, by linarith⟩
  · exact ⟨hlow', by linarith⟩

theorem onGrid_eq_some {tie : Tie} {unit : ℤ} {d : Decimal} (h : onGrid tie m e unit = some d) :
    roundsBack m e d = true ∧ d.exponent = unit := by
  obtain ⟨l, hl⟩ : ∃ l : List ℕ, onGrid tie m e unit = l.findSome? fun d =>
    if roundsBack m e ⟨d, unit⟩ then some ⟨d, unit⟩ else none := ⟨_, rfl⟩
  rw [hl] at h
  obtain ⟨n, -, hn⟩ := List.exists_of_findSome?_eq_some h
  split at hn
  · rename_i hback
    cases hn
    exact ⟨hback, rfl⟩
  · cases hn

/-- All digits of a number are a decimal of the same value. -/
theorem value_exact (m : ℕ) (e : ℤ) :
    Decimal.value ⟨m * Nat.pow 2 e.toNat * Nat.pow 5 (-e).toNat, min e 0⟩ = m * 2 ^ e := by
  rcases Int.le_total 0 e with he | he
  · obtain ⟨n, rfl⟩ := Int.eq_ofNat_of_zero_le he
    simp [Decimal.value]
  · obtain ⟨n, hn⟩ := Int.eq_ofNat_of_zero_le (Int.neg_nonneg.2 he)
    obtain rfl : e = -n := by omega
    have hten : (5 : ℚ) ^ n * (10 ^ n)⁻¹ = (2 ^ n)⁻¹ := by
      rw [show (10 : ℚ) = 5 * 2 by norm_num, mul_pow, mul_inv, mul_inv_cancel_left₀ (by positivity)]
    simp [Decimal.value, mul_assoc, hten]

theorem neg_le_leadingExponent (m : ℕ) (e : ℤ) : -330 ≤ leadingExponent m e := by
  obtain ⟨n, hn⟩ : ∃ n : ℕ, leadingExponent m e = ((toString n).length : ℤ) - 331 := ⟨_, rfl⟩
  have hpos : 0 < (toString n).length := by
    rw [← String.length_toList, toList_toString]
    exact Nat.length_toDigits_pos
  omega

/-- **The shortest decimal lies in the neighbourhood of its number**, and has not more places than
the number with the most. -/
theorem roundsTo_shortest (tie : Tie) (hm : 0 < m) (he : -1074 ≤ e) :
    RoundsTo m e (shortest tie m e).value ∧ -1074 ≤ (shortest tie m e).exponent := by
  obtain ⟨found, hfound⟩ : ∃ found, ((List.range 17).findSome? fun (n : ℕ) =>
    onGrid tie m e (leadingExponent m e - n)) = found := ⟨_, rfl⟩
  have hshortest : shortest tie m e = Decimal.strip 20 (found.getD
      ⟨m * Nat.pow 2 e.toNat * Nat.pow 5 (-e).toNat, min e 0⟩) := by rw [← hfound]; rfl
  rw [hshortest, Decimal.value_strip]
  cases found with
  | none =>
    rw [Option.getD_none, value_exact]
    exact ⟨roundsTo_self hm e, le_trans (by dsimp only; omega) (Decimal.exponent_le_strip _ _)⟩
  | some d =>
    obtain ⟨n, hn, hd⟩ := List.exists_of_findSome?_eq_some hfound
    obtain ⟨hback, hexponent⟩ := onGrid_eq_some hd
    have hlead := neg_le_leadingExponent m e
    have hlt := List.mem_range.1 hn
    exact ⟨roundsBack_iff.1 hback, le_trans (by rw [Option.getD_some]; omega)
      (Decimal.exponent_le_strip _ _)⟩

end Shortest

/-! ## Reading a decimal -/

theorem pack_unpack (x : Float) : Float.Model.pack x.toModel.unpack = x.toModel := by
  have hbits : UnpackedFloat.pack .binary64 x.toModel.unpack = x.toBits.toBitVec :=
    pack_unpack_of_valid x.toModel.valid
  obtain ⟨⟨bits, valid⟩⟩ := x
  rw [Float.Model.pack]
  congr 1
  exact UInt64.toBitVec_inj.1 hbits

theorem eq_of_pack {x y : Float} {u : UnpackedFloat} (hx : x.toModel.unpack = u)
    (hy : y.toModel = Float.Model.pack u) : y = x := by
  obtain ⟨model⟩ := y
  obtain rfl : model = x.toModel := by rw [← pack_unpack x, hx]; exact hy
  rfl

section Read

variable {x : Float} {m : ℕ} {e : ℤ} {negative : Bool}

theorem unpack_of_shape (h : shape x = .finite false m e) (hm : 0 < m) :
    x.toModel.unpack = .finite .positive m e hm := by
  rw [shape_eq] at h
  cases hx : x.toModel.unpack with
  | notANumber => rw [hx] at h; cases h
  | infinity s => rw [hx] at h; cases h
  | zero s =>
    rw [hx] at h
    obtain ⟨-, rfl, -⟩ := Shape.finite.inj h
    exact absurd hm (Nat.lt_irrefl 0)
  | finite s m' e' hm' =>
    rw [hx] at h
    obtain ⟨hs, rfl, rfl⟩ := Shape.finite.inj h
    cases s with
    | positive => rfl
    | negative => cases hs

theorem unpack_of_shape_zero (h : shape x = .finite false 0 e) :
    x.toModel.unpack = .zero .positive := by
  rw [shape_eq] at h
  cases hx : x.toModel.unpack with
  | notANumber => rw [hx] at h; cases h
  | infinity s => rw [hx] at h; cases h
  | zero s =>
    rw [hx] at h
    obtain ⟨hs, -, -⟩ := Shape.finite.inj h
    cases s with
    | positive => rfl
    | negative => cases hs
  | finite s m' e' hm' =>
    rw [hx] at h
    obtain ⟨-, rfl, -⟩ := Shape.finite.inj h
    exact absurd hm' (Nat.lt_irrefl 0)

/-- The shape of a number is one that it can have. -/
theorem fits_of_shape (h : shape x = .finite negative m e) (hm : 0 < m) : Fits m e ∧ e ≤ 971 := by
  rcases normal_or_subnormal h with ⟨hlog, hlo, hhi⟩ | ⟨hsmall, rfl⟩
  · obtain ⟨hle, hlt⟩ := (Nat.log2_eq_iff hm.ne').1 hlog
    exact ⟨⟨hm, hlt, Or.inl hle, hlo⟩, hhi⟩
  · exact ⟨⟨hm, hsmall.trans (by decide), Or.inr rfl, le_rfl⟩, by decide⟩

/-- The powers of ten up to the twenty-second. -/
def powerOfTen (p : Fin 23) : Float := getElem Float.exactlyRepresentablePowersOfTen p.val p.isLt

/-- Whether a shape is that of a power of ten. -/
def isPowerOfTen (p : ℕ) : Shape → Bool
  | .finite false m e => m != 0 && m * Nat.pow 2 e.toNat == Nat.pow 10 p * Nat.pow 2 (-e).toNat
  | _ => false

theorem isPowerOfTen_shape : ∀ p : Fin 23, isPowerOfTen p (shape (powerOfTen p)) = true := by
  decide +kernel

/-- The powers of ten in the table are exact. -/
theorem exists_powerOfTen (p : Fin 23) : ∃ (m : ℕ) (e : ℤ) (hm : 0 < m),
    (powerOfTen p).toModel.unpack = .finite .positive m e hm ∧
      (m * 2 ^ e : ℚ) = 10 ^ (p : ℕ) := by
  have h := isPowerOfTen_shape p
  generalize hshape : shape (powerOfTen p) = s at h
  rw [isPowerOfTen.eq_def] at h
  split at h
  · rename_i m e
    obtain ⟨hne, heq⟩ := (Bool.and_eq_true _ _).mp h
    have hm : 0 < m := Nat.pos_of_ne_zero (bne_iff_ne.1 hne)
    have heq : (m * 2 ^ e.toNat : ℚ) = 10 ^ (p : ℕ) * 2 ^ (-e).toNat := by
      exact_mod_cast eq_of_beq heq
    refine ⟨m, e, hm, unpack_of_shape hshape hm, ?_⟩
    rw [← zpow_mul_pow_toNat two_ne_zero e, ← mul_assoc] at heq
    exact mul_right_cancel₀ (by positivity) heq
  · cases h

/-- A natural number that is not too long is exact. -/
theorem exists_toFloat {D : ℕ} (hD : 0 < D) (hlt : D < 2 ^ 53) : ∃ (n : ℕ) (e : ℤ) (hn : 0 < n),
    D.toUInt64.toFloat.toModel.unpack = .finite .positive n e hn ∧ 2 ^ 52 ≤ n ∧
      (n * 2 ^ e : ℚ) = D := by
  have hlog : D.log2 < 53 := (Nat.log2_lt hD.ne').2 hlt
  have hpos : 0 < D * 2 ^ (52 - D.log2) := Nat.mul_pos hD (Nat.two_pow_pos _)
  have hlog' : (D * 2 ^ (52 - D.log2)).log2 = 52 := by
    rw [log2_mul_pow hD.ne']
    omega
  refine ⟨_, _, hpos, unpack_ofUInt64 hpos hlog', ((Nat.log2_eq_iff hpos.ne').1 hlog').1, ?_⟩
  push_cast
  rw [zpow_neg, zpow_natCast, mul_assoc, mul_inv_cancel₀ (by positivity), mul_one]

/-- **A quotient by a power of ten is read as the number whose neighbourhood it lies in.** -/
theorem ofScientific_true (hx : shape x = .finite false m e) (hm : 0 < m) {D p : ℕ} (hD : 0 < D)
    (hp : 0 < p) (hp' : p ≤ 1074) (h : RoundsTo m e (D / 10 ^ p)) :
    Float.ofScientific D true p = x := by
  obtain ⟨hfits, -⟩ := fits_of_shape hx hm
  refine eq_of_pack (unpack_of_shape hx hm) ?_
  rw [Float.ofScientific]
  split
  · rename_i hfast
    obtain ⟨n, i, hn, hunpack, -, hvalue⟩ := exists_toFloat hD hfast.1
    obtain ⟨k, j, hk, hunpack', hvalue'⟩ := exists_powerOfTen ⟨p, Nat.lt_succ_of_le hfast.2⟩
    have hdiv : (D.toUInt64.toFloat / powerOfTen ⟨p, Nat.lt_succ_of_le hfast.2⟩).toModel =
        Float.Model.pack (UnpackedFloat.div .binary64 (.finite .positive n i hn)
          (.finite .positive k j hk)) := by
      rw [← hunpack, ← hunpack']
      rfl
    rw [← hvalue, ← hvalue'] at h
    rw [div_of_roundsTo hn hk hfits h] at hdiv
    exact hdiv
  · have hexponent : (Int.negOfNat p : ℤ) = -p := Int.negOfNat_eq
    have hpos : 0 < 10 ^ p := by positivity
    have hdiv : UnpackedFloat.ofScientific .binary64 D (-p) =
        UnpackedFloat.div .binary64 (.finite .positive D 0 hD)
          (.finite .positive (10 ^ p) 0 hpos) := by
      have hbits : Format.binary64.exponentBits = 11 := rfl
      rw [UnpackedFloat.ofScientific, dif_neg hD.ne', if_neg (by rw [hbits]; omega),
        if_neg (by rw [hbits]; omega), if_neg (by omega)]
      simp
    have hquotient : RoundsTo m e (D * 2 ^ (0 : ℤ) / ((10 ^ p : ℕ) * 2 ^ (0 : ℤ))) := by
      simpa using h
    have hround := div_of_roundsTo (s := .positive) (t := .positive) hD hpos hfits hquotient
    simp only [if_true]
    rw [Float.Model.ofScientific, hexponent, hdiv, hround]
    rfl

/-- **A natural number is read as the number whose neighbourhood it lies in.** -/
theorem ofScientific_false (hx : shape x = .finite false m e) (hm : 0 < m) {D : ℕ} (hD : 0 < D)
    (h : RoundsTo m e D) : Float.ofScientific D false 0 = x := by
  obtain ⟨hfits, -⟩ := fits_of_shape hx hm
  refine eq_of_pack (unpack_of_shape hx hm) ?_
  rw [Float.ofScientific]
  split
  · rename_i hfast
    obtain ⟨n, i, hn, hunpack, hlong, hvalue⟩ := exists_toFloat hD hfast.1
    obtain ⟨k, j, hk, hunpack', hvalue'⟩ := exists_powerOfTen 0
    have hmul : (D.toUInt64.toFloat * powerOfTen 0).toModel =
        Float.Model.pack (UnpackedFloat.mul .binary64 (.finite .positive n i hn)
          (.finite .positive k j hk)) := by
      rw [← hunpack, ← hunpack']
      rfl
    have hone : (D : ℚ) = n * 2 ^ i * (k * 2 ^ j) := by rw [hvalue, hvalue']; simp
    rw [hone] at h
    rw [mul_of_roundsTo hn hk hfits (hlong.trans (Nat.le_mul_of_pos_right n hk)) h] at hmul
    exact hmul
  · have hpos : 0 < D <<< 53 := by rw [Nat.shiftLeft_eq]; positivity
    have hmul : UnpackedFloat.ofScientific .binary64 D 0 =
        UnpackedFloat.mul .binary64 (.finite .positive (D <<< 53) (-53) hpos)
          (.finite .positive 1 0 Nat.one_pos) := by
      have hbits : Format.binary64.exponentBits = 11 := rfl
      rw [UnpackedFloat.ofScientific, dif_neg hD.ne', if_neg (by rw [hbits]; omega),
        if_neg (by rw [hbits]; omega), if_pos le_rfl]
      rfl
    have hvalue : (D : ℚ) = (D <<< 53 : ℕ) * 2 ^ (-53 : ℤ) * ((1 : ℕ) * 2 ^ (0 : ℤ)) := by
      rw [Nat.shiftLeft_eq]
      push_cast
      norm_num [mul_assoc]
    rw [hvalue] at h
    have hlong : 2 ^ 52 ≤ D <<< 53 * 1 := by
      rw [Nat.shiftLeft_eq]
      omega
    have hround := mul_of_roundsTo (s := .positive) (t := .positive) hpos Nat.one_pos hfits hlong h
    have hexponent : Int.ofNat 0 = 0 := rfl
    simp only [Bool.false_eq_true, if_false]
    rw [Float.Model.ofScientific, hexponent, hmul, hround]
    rfl

/-- How large a decimal near a number is, which decides whether it is read at all. -/
theorem log2_bounds (hfits : Fits m e) (he : e ≤ 971) {D p : ℕ} (hD : 0 < D)
    (h : RoundsTo m e (D / 10 ^ p)) :
    3 * D.log2 < 3072 + 10 * p ∧ 83 * p < 25 * (D.log2 + 1076) := by
  obtain ⟨hlo, hhi, -⟩ := h.near
  have hpow := two_zpow_pos e
  have hten : (0 : ℚ) < 10 ^ p := by positivity
  obtain ⟨v, hv⟩ : ∃ v : ℚ, v = D / 10 ^ p := ⟨_, rfl⟩
  have hDv : (D : ℚ) = v * 10 ^ p := by rw [hv, div_mul_cancel₀ _ hten.ne']
  rw [← hv] at hlo hhi
  have hmul : v = v / 2 ^ e * 2 ^ e := (div_mul_cancel₀ v hpow.ne').symm
  constructor
  · -- the largest numbers are below `2 ^ 1024`
    have hm : (m : ℚ) + 1 ≤ 2 ^ 53 := by exact_mod_cast hfits.lt
    have hlarge : v < 2 ^ 1024 := calc
      v = v / 2 ^ e * 2 ^ e := hmul
      _ < 2 ^ 53 * 2 ^ e := mul_lt_mul_of_pos_right (by norm_num at hm ⊢; linarith) hpow
      _ ≤ 2 ^ 53 * 2 ^ (971 : ℤ) :=
        mul_le_mul_of_nonneg_left (zpow_le_zpow_right₀ one_le_two he) (by positivity)
      _ = 2 ^ 1024 := by rw [show (971 : ℤ) = (971 : ℕ) from rfl, zpow_natCast, ← pow_add]
    have hlt : D < 2 ^ 1024 * 10 ^ p := by
      have : (D : ℚ) < 2 ^ 1024 * 10 ^ p := hDv ▸ mul_lt_mul_of_pos_right hlarge hten
      exact_mod_cast this
    have hcube : (2 ^ D.log2) ^ 3 < (2 : ℕ) ^ (3072 + 10 * p) := calc
      (2 ^ D.log2) ^ 3 ≤ D ^ 3 := Nat.pow_le_pow_left (Nat.log2_self_le hD.ne') 3
      _ < (2 ^ 1024 * 10 ^ p) ^ 3 := Nat.pow_lt_pow_left hlt (by decide)
      _ = 2 ^ 3072 * (10 ^ 3) ^ p := by rw [mul_pow, ← pow_mul, pow_right_comm]
      _ ≤ 2 ^ 3072 * (2 ^ 10) ^ p := Nat.mul_le_mul_left _ (Nat.pow_le_pow_left (by decide) p)
      _ = 2 ^ (3072 + 10 * p) := by rw [← pow_mul, ← pow_add]
    rw [← pow_mul] at hcube
    have := (Nat.pow_lt_pow_iff_right (by decide)).1 hcube
    omega
  · -- the smallest numbers are not below `2 ^ -1075`
    have hm : (1 : ℚ) ≤ m := by exact_mod_cast hfits.pos
    have hsmall : (2 : ℚ) ^ (-1075 : ℤ) ≤ v := calc
      (2 : ℚ) ^ (-1075 : ℤ) = 1 / 2 * 2 ^ (-1074 : ℤ) := by
        rw [show (-1075 : ℤ) = -1 + -1074 by norm_num, zpow_add₀ two_ne_zero]
        norm_num
      _ ≤ 1 / 2 * 2 ^ e :=
        mul_le_mul_of_nonneg_left (zpow_le_zpow_right₀ one_le_two hfits.le) (by norm_num)
      _ ≤ v / 2 ^ e * 2 ^ e := mul_le_mul_of_nonneg_right (by linarith) hpow.le
      _ = v := hmul.symm
    have hle : 10 ^ p ≤ D * 2 ^ 1075 := by
      have : (2 : ℚ) ^ (-1075 : ℤ) * 10 ^ p ≤ D := hDv ▸ mul_le_mul_of_nonneg_right hsmall hten.le
      rw [zpow_neg, inv_mul_le_iff₀ (by positivity), mul_comm] at this
      exact_mod_cast this
    have hpower : (2 : ℕ) ^ (83 * p) < 2 ^ (25 * (D.log2 + 1076)) := calc
      (2 : ℕ) ^ (83 * p) = (2 ^ 83) ^ p := pow_mul ..
      _ ≤ (10 ^ 25) ^ p := Nat.pow_le_pow_left (by decide) p
      _ = (10 ^ p) ^ 25 := pow_right_comm ..
      _ ≤ (D * 2 ^ 1075) ^ 25 := Nat.pow_le_pow_left hle 25
      _ < (2 ^ (D.log2 + 1) * 2 ^ 1075) ^ 25 :=
        Nat.pow_lt_pow_left (Nat.mul_lt_mul_of_pos_right Nat.lt_log2_self (by positivity))
          (by decide)
      _ = 2 ^ (25 * (D.log2 + 1076)) := by rw [← pow_add, ← pow_mul, mul_comm]
    exact (Nat.pow_lt_pow_iff_right (by decide)).1 hpower

/-- **A decimal is read as the number whose neighbourhood it lies in.** -/
theorem ofDecimal_of_roundsTo (hx : shape x = .finite false m e) (hm : 0 < m) {D p : ℕ}
    (hp : p ≤ 1074) (h : RoundsTo m e (D / 10 ^ p)) : ofDecimal D (-p) = x := by
  obtain ⟨hfits, he⟩ := fits_of_shape hx hm
  have hD : 0 < D := by
    rw [Nat.pos_iff_ne_zero]
    rintro rfl
    obtain ⟨hlo, -, -⟩ := h.near
    have hm' : (1 : ℚ) ≤ m := by exact_mod_cast hm
    norm_num at hlo
    linarith
  obtain ⟨hlarge, hsmall⟩ := log2_bounds hfits he hD h
  rw [ofDecimal, if_neg hD.ne']
  dsimp only
  rw [if_neg (by omega), if_neg (by omega)]
  split
  · rw [neg_neg, Int.toNat_natCast]
    exact ofScientific_true hx hm hD (by omega) hp h
  · obtain rfl : p = 0 := by omega
    rw [pow_zero, div_one] at h
    exact ofScientific_false hx hm hD h

end Read

/-! ## Digits with a point -/

/-- Digits, and others behind a point if there are any. -/
def numeral (ws fs : List Char) : List Char := if fs = [] then ws else ws ++ '.' :: fs

/-- Digits that make a number: at least one in front of the point. -/
structure Numeral (ws fs : List Char) : Prop where
  /-- There are digits in front of the point. -/
  ne_nil : ws ≠ []
  /-- They are digits. -/
  whole : ∀ c ∈ ws, c.isDigit = true
  /-- So are those behind the point. -/
  fraction : ∀ c ∈ fs, c.isDigit = true

theorem span_digits {ds : List Char} (h : ∀ c ∈ ds, c.isDigit = true) (rest : List Char)
    (hrest : ∀ c ∈ rest.head?, c.isDigit = false) :
    (ds ++ rest).takeWhile Char.isDigit = ds ∧ (ds ++ rest).dropWhile Char.isDigit = rest := by
  rw [List.takeWhile_append_of_pos h, List.dropWhile_append_of_pos h]
  cases rest with
  | nil => simp
  | cons c rest => simp [hrest c rfl]

/-- A numeral is read as the decimal of its digits. -/
theorem Numeral.readMagnitude {ws fs : List Char} (h : Numeral ws fs) :
    readMagnitude (numeral ws fs) = some (ofDecimal (ofDigits (ws ++ fs)) (-fs.length)) := by
  rw [Number.readMagnitude]
  by_cases hfs : fs = []
  · subst hfs
    obtain ⟨htake, hdrop⟩ := span_digits h.whole [] nofun
    rw [List.append_nil] at htake hdrop
    rw [numeral, if_pos rfl, htake, hdrop]
    simp [h.ne_nil, readExponent]
  · obtain ⟨htake, hdrop⟩ := span_digits h.whole ('.' :: fs) (by simp)
    obtain ⟨htake', hdrop'⟩ := span_digits h.fraction [] nofun
    rw [List.append_nil] at htake' hdrop'
    rw [numeral, if_neg hfs, htake, hdrop]
    simp [h.ne_nil, htake', hdrop', readExponent]

theorem ofDigits_toDigits (n : ℕ) : ofDigits (Nat.toDigits 10 n) = n :=
  Nat.ofDigitChars_ten_toDigits

theorem isDigit_toDigits {n : ℕ} {c : Char} (h : c ∈ Nat.toDigits 10 n) : c.isDigit = true :=
  Nat.isDigit_of_mem_toDigits (by decide) (by decide) h

theorem ofDigits_append_zeros (ds : List Char) (n : ℕ) :
    ofDigits (ds ++ List.replicate n '0') = ofDigits ds * 10 ^ n := by
  induction n with
  | zero => simp
  | succ n ih =>
    have hlast : ofDigits (ds ++ List.replicate n '0' ++ ['0']) =
        10 * ofDigits (ds ++ List.replicate n '0') := by
      rw [ofDigits, List.foldl_append]
      rfl
    rw [List.replicate_succ', ← List.append_assoc, hlast, ih, pow_succ]
    ring

theorem toList_zeros (n : ℕ) : (zeros n).toList = List.replicate n '0' := String.toList_ofList

/-- Digits with a point before the last of them, zeros in front as far as needed. -/
theorem exists_numeral_withPoint (D : ℕ) {places : ℕ} (hplaces : 0 < places) :
    ∃ ws fs, Numeral ws fs ∧ (withPoint (toString D) places).toList = numeral ws fs ∧
      fs.length = places ∧ ofDigits (ws ++ fs) = D := by
  obtain ⟨padded, hpadded⟩ : ∃ padded,
    zeros (places + 1 - (toString D).length) ++ toString D = padded := ⟨_, rfl⟩
  have hlist : padded.toList =
      List.replicate (places + 1 - (toString D).length) '0' ++ Nat.toDigits 10 D := by
    rw [← hpadded, String.toList_append, toList_zeros, toList_toString]
  have hlength : places < padded.toList.length := by
    rw [hlist, List.length_append, List.length_replicate, ← String.length_toList, toList_toString]
    omega
  have hdigits : ∀ c ∈ padded.toList, c.isDigit = true := by
    intro c hc
    rw [hlist, List.mem_append] at hc
    rcases hc with hc | hc
    · rw [List.eq_of_mem_replicate hc]
      rfl
    · exact isDigit_toDigits hc
  have hfraction : (padded.toList.drop (padded.length - places)).length = places := by
    rw [List.length_drop, ← String.length_toList]
    omega
  refine ⟨padded.toList.take (padded.length - places), padded.toList.drop (padded.length - places),
    ⟨?_, fun c hc => hdigits c (List.mem_of_mem_take hc),
      fun c hc => hdigits c (List.mem_of_mem_drop hc)⟩, ?_, hfraction, ?_⟩
  · intro h
    have := congrArg List.length h
    rw [List.length_take, ← String.length_toList, List.length_nil] at this
    omega
  · have hne : padded.toList.drop (padded.length - places) ≠ [] := fun h => by
      rw [h, List.length_nil] at hfraction
      omega
    rw [withPoint, hpadded, if_neg hplaces.ne', numeral, if_neg hne]
    simp
  · rw [List.take_append_drop, hlist]
    exact (ofDigitChars_replicate_append _ _).trans (ofDigits_toDigits D)

/-- **A decimal with all its digits written out is a numeral of its value.** -/
theorem exists_numeral_positional (d : Decimal) : ∃ ws fs, Numeral ws fs ∧
    (positional d).toList = numeral ws fs ∧ fs.length = (-d.exponent).toNat ∧
      (ofDigits (ws ++ fs) / 10 ^ fs.length : ℚ) = d.value := by
  obtain ⟨D, E⟩ := d
  rw [positional, Decimal.value]
  dsimp only
  split
  · rename_i hE
    obtain ⟨n, rfl⟩ := Int.eq_ofNat_of_zero_le hE
    refine ⟨Nat.toDigits 10 D ++ List.replicate n '0', [], ⟨?_, ?_, nofun⟩, ?_, by simp, ?_⟩
    · intro h
      exact Nat.length_toDigits_pos.ne' (List.length_eq_zero_iff.2 (List.append_eq_nil_iff.1 h).1)
    · intro c hc
      rcases List.mem_append.1 hc with hc | hc
      · exact isDigit_toDigits hc
      · rw [List.eq_of_mem_replicate hc]
        rfl
    · rw [String.toList_append, toList_toString, toList_zeros]
      simp [numeral]
    · rw [List.append_nil, ofDigits_append_zeros, ofDigits_toDigits]
      simp
  · rename_i hE
    obtain ⟨places, hplaces⟩ : ∃ n : ℕ, -E = n := ⟨(-E).toNat, by omega⟩
    obtain rfl : E = -places := by omega
    rw [neg_neg, Int.toNat_natCast]
    have hpos : 0 < places := by omega
    obtain ⟨ws, fs, hnumeral, htext, hlength, hvalue⟩ := exists_numeral_withPoint D hpos
    refine ⟨ws, fs, hnumeral, htext, hlength, ?_⟩
    rw [hlength, hvalue, zpow_neg, zpow_natCast, div_eq_mul_inv]

/-- **The text of a finite number without a sign is a numeral, and reads back as the number.** -/
theorem exists_numeral_text (nan : String) {x : Float} {m : ℕ} {e : ℤ}
    (hx : shape x = .finite false m e) : ∃ ws fs, Numeral ws fs ∧
      (text nan x).toList = numeral ws fs ∧ readMagnitude (numeral ws fs) = some x := by
  have htext : text nan x = magnitudeText m e := by
    rw [text, hx]
    exact String.empty_append
  rw [htext, magnitudeText]
  split
  · rename_i hm
    subst hm
    refine ⟨['0'], [], ⟨by simp, by simp, by simp⟩, rfl, ?_⟩
    have hzero : (0 : Float).toModel.unpack = .zero .positive := rfl
    exact congrArg some (eq_of_unpack_eq (hzero.trans (unpack_of_shape_zero hx).symm))
  · rename_i hm
    have hm : 0 < m := Nat.pos_of_ne_zero hm
    obtain ⟨hfits, -⟩ := fits_of_shape hx hm
    obtain ⟨hround, hexponent⟩ := roundsTo_shortest .up hm hfits.le
    obtain ⟨ws, fs, hnumeral, hlist, hlength, hvalue⟩ :=
      exists_numeral_positional (shortest .up m e)
    rw [← hvalue] at hround
    refine ⟨ws, fs, hnumeral, hlist, ?_⟩
    rw [hnumeral.readMagnitude, ofDecimal_of_roundsTo hx hm (by omega) hround]

/-! ## Whole numbers -/

theorem wholePart_of_leftOver {m : ℕ} {e : ℤ} (h : leftOver m e = 0) :
    (wholePart m e : ℚ) = m * 2 ^ e := by
  rcases le_or_gt 0 e with he | he
  · obtain ⟨k, rfl⟩ := Int.eq_ofNat_of_zero_le he
    rw [wholePart, if_pos he, Int.toNat_natCast, zpow_natCast]
    exact_mod_cast rfl
  · obtain ⟨k, rfl⟩ : ∃ k : ℕ, e = -k := ⟨(-e).toNat, by omega⟩
    rw [leftOver_neg] at h
    have hdiv : (m : ℚ) = (m / 2 ^ k : ℕ) * 2 ^ k := by
      exact_mod_cast (Nat.div_mul_cancel (Nat.dvd_of_mod_eq_zero h)).symm
    rw [wholePart_neg, zpow_neg, zpow_natCast, ← div_eq_mul_inv, eq_div_iff (by positivity), ← hdiv]

/-- The whole part of a number below the cut-off fits sixty-four bits. -/
theorem wholePart_lt {x : Float} {m : ℕ} {e : ℤ} (hx : shape x = .finite false m e) (hm : 0 < m)
    (hlt : x.abs < 1e16) : wholePart m e < 2 ^ 54 := by
  have hunpack := unpack_of_shape hx hm
  have hbounds : m < 2 ^ 53 ∧ e ≤ 1 := by
    rcases normal_or_subnormal hx with ⟨hlog, hlo, hhi⟩ | ⟨hsmall, rfl⟩
    · have habs : rank? x.abs = some (toLex (1, toLex (e, (m : ℤ)))) := by
        rw [rank?, unpack_abs hunpack hlog hlo hhi]
      have hcut : rank? 1e16 = some (toLex (1, toLex (1, 5000000000000000))) := rfl
      obtain ⟨r, q, hr, hq, hrq⟩ := lt_iff.1 hlt
      cases habs.symm.trans hr
      cases hcut.symm.trans hq
      simp only [Prod.Lex.toLex_lt_toLex] at hrq
      exact ⟨(Nat.log2_lt hm.ne').1 (by omega), by omega⟩
    · exact ⟨hsmall.trans (by decide), by decide⟩
  obtain ⟨hm53, he⟩ := hbounds
  rcases le_or_gt 0 e with he0 | he0
  · have hpow : Nat.pow 2 e.toNat ≤ 2 :=
      Nat.pow_le_pow_right (by decide : 0 < 2) (by omega : e.toNat ≤ 1)
    rw [wholePart, if_pos he0]
    calc m * Nat.pow 2 e.toNat ≤ m * 2 := Nat.mul_le_mul_left m hpow
      _ < 2 ^ 54 := by omega
  · rw [wholePart, if_neg (by omega)]
    exact (Nat.div_le_self _ _).trans_lt (hm53.trans (by decide))

/-- **The integer of a whole number below the cut-off is a numeral, and reads back as the
number.** -/
theorem exists_numeral_toInt64 {x : Float} {m : ℕ} {e : ℤ} (hx : shape x = .finite false m e)
    (hwhole : isWhole x = true) (hlt : x.abs < 1e16) : ∃ ws fs, Numeral ws fs ∧
      (toString (toInt64 x)).toList = numeral ws fs ∧ readMagnitude (numeral ws fs) = some x := by
  have hdigits : ∀ n : ℕ, Numeral (Nat.toDigits 10 n) [] := fun n =>
    ⟨fun h => Nat.length_toDigits_pos.ne' (List.length_eq_zero_iff.2 h),
      fun c hc => isDigit_toDigits hc, nofun⟩
  have htext : ∀ n : ℕ, (toString (n : ℤ)).toList = numeral (Nat.toDigits 10 n) [] :=
    fun n => toList_toString n
  rcases Nat.eq_zero_or_pos m with rfl | hm
  · have hzero : (0 : Float).toModel.unpack = .zero .positive := rfl
    obtain rfl : x = 0 := (eq_of_unpack_eq (hzero.trans (unpack_of_shape_zero hx).symm)).symm
    exact ⟨_, _, hdigits 0, by decide +kernel, rfl⟩
  · have hleft : leftOver m e = 0 := by
      rw [isWhole, hx] at hwhole
      exact eq_of_beq hwhole
    have hvalue := wholePart_of_leftOver hleft
    have hsmall := wholePart_lt hx hm hlt
    have hint : toInt64 x = (wholePart m e : ℤ) := by
      have hpow : Int.pow 2 63 = 9223372036854775808 := rfl
      rw [toInt64, toIntWithin, hx, hpow]
      dsimp only
      rw [if_neg Bool.false_ne_true]
      omega
    refine ⟨_, _, hdigits (wholePart m e), by rw [hint]; exact htext _, ?_⟩
    have hround : RoundsTo m e ((wholePart m e : ℕ) / 10 ^ 0 : ℚ) := by
      rw [pow_zero, div_one, hvalue]
      exact roundsTo_exact hm e
    rw [(hdigits _).readMagnitude, List.append_nil, ofDigits_toDigits]
    exact congrArg some (ofDecimal_of_roundsTo hx hm (by decide) hround)

/-! ## What can be read -/

/-- A number has no sign and is not NaN. -/
def Unsigned (x : Float) : Prop :=
  shape x = .infinite false ∨ ∃ m e, shape x = .finite false m e

/-- What has been computed has no sign and is not NaN. -/
def Positive : UnpackedFloat → Prop
  | .notANumber => False
  | .infinity s => s = .positive
  | .zero s => s = .positive
  | .finite s .. => s = .positive

theorem positive_roundWithAccuracy (M : ℕ) (X : ℤ) (acc : Accuracy) :
    Positive (roundWithAccuracy .binary64 .positive M X acc) := by
  rw [roundWithAccuracy]
  dsimp only
  split <;> rfl

theorem unsigned_of_unpack {x : Float} (h : Positive x.toModel.unpack) : Unsigned x := by
  rw [Unsigned, shape_eq]
  cases hx : x.toModel.unpack with
  | notANumber => rw [hx] at h; exact h.elim
  | infinity s => rw [hx] at h; obtain rfl : s = .positive := h; exact Or.inl rfl
  | zero s => rw [hx] at h; obtain rfl : s = .positive := h; exact Or.inr ⟨_, _, rfl⟩
  | finite s m e hm => rw [hx] at h; obtain rfl : s = .positive := h; exact Or.inr ⟨_, _, rfl⟩

/-- The fields of a positive number, if the exponent is not that of the infinities. -/
theorem positive_unpack_packComponents {field : BitVec Format.binary64.exponentBits}
    (hfield : field ≠ -BitVec.ofNat _ 1) (fraction : BitVec Format.binary64.mantissaBitsWithoutImplicit) :
    Positive (UnpackedFloat.unpack .binary64
      (packComponents .binary64 .positive field fraction)) := by
  rw [UnpackedFloat.unpack]
  simp only [unpackMantissa_packComponents, unpackExponent_packComponents,
    unpackSign_packComponents, Sign.ofBitVec_toBitVec]
  rw [if_neg hfield]
  split
  · split <;> rfl
  · rfl

theorem positive_unpack_pack {u : UnpackedFloat} (h : Positive u) :
    Positive (Float.Model.pack u).unpack := by
  cases u with
  | notANumber => exact h.elim
  | infinity s => obtain rfl : s = .positive := h; exact rfl
  | zero s => obtain rfl : s = .positive := h; exact rfl
  | finite s m e hm =>
    obtain rfl : s = .positive := h
    show Positive (UnpackedFloat.unpack .binary64 (UnpackedFloat.pack .binary64 _))
    rw [UnpackedFloat.pack]
    dsimp only
    split
    · exact rfl
    · rename_i hlarge
      split
      · refine positive_unpack_packComponents (fun hones => ?_) _
        have hfield := congrArg BitVec.toNat hones
        rw [BitVec.toNat_ofNat] at hfield
        have hmax : (-BitVec.ofNat Format.binary64.exponentBits 1).toNat = 2047 := rfl
        rw [hmax] at hfield
        omega
      · exact positive_unpack_packComponents (by decide) _

theorem unsigned_of_pack {x : Float} {u : UnpackedFloat} (hx : x.toModel = Float.Model.pack u)
    (h : Positive u) : Unsigned x :=
  unsigned_of_unpack (by rw [hx]; exact positive_unpack_pack h)

theorem positive_ofScientific {D : ℕ} (hD : 0 < D) (E : ℤ) :
    Positive (UnpackedFloat.ofScientific .binary64 D E) := by
  rw [UnpackedFloat.ofScientific, dif_neg hD.ne']
  split
  · exact rfl
  split
  · exact rfl
  split <;> exact positive_roundWithAccuracy _ _ _

theorem unsigned_ofScientific {D : ℕ} (hD : 0 < D) (negative : Bool) (p : ℕ) :
    Unsigned (Float.ofScientific D negative p) := by
  rw [Float.ofScientific]
  split
  · rename_i hfast
    obtain ⟨n, i, hn, hunpack, -, -⟩ := exists_toFloat hD hfast.1
    obtain ⟨k, j, hk, hunpack', -⟩ := exists_powerOfTen ⟨p, Nat.lt_succ_of_le hfast.2⟩
    dsimp only
    split
    · refine unsigned_of_pack (u := UnpackedFloat.div .binary64 (.finite .positive n i hn)
        (.finite .positive k j hk)) (by rw [← hunpack, ← hunpack']; rfl) ?_
      exact positive_roundWithAccuracy _ _ _
    · refine unsigned_of_pack (u := UnpackedFloat.mul .binary64 (.finite .positive n i hn)
        (.finite .positive k j hk)) (by rw [← hunpack, ← hunpack']; rfl) ?_
      exact positive_roundWithAccuracy _ _ _
  · exact unsigned_of_pack rfl (positive_ofScientific hD _)

/-- **A number that is read without a sign has none**, and is not NaN. -/
theorem unsigned_readMagnitude {cs : List Char} {x : Float} (h : readMagnitude cs = some x) :
    Unsigned x := by
  have hinfinite : Unsigned (1 / 0) := Or.inl rfl
  have hzero : Unsigned 0 := Or.inr ⟨_, _, rfl⟩
  have hdecimal : ∀ D E, Unsigned (ofDecimal D E) := by
    intro D E
    rw [ofDecimal]
    split
    · exact hzero
    rename_i hD
    have hD : 0 < D := Nat.pos_of_ne_zero hD
    dsimp only
    split
    · exact hinfinite
    split
    · exact hzero
    split <;> exact unsigned_ofScientific hD _ _
  have hdigits : ∀ ws fs rest : List Char, (if ws = [] ∧ fs = [] then none
      else (readExponent rest).map fun E => ofDecimal (ofDigits (ws ++ fs)) (E - fs.length)) =
        some x → Unsigned x := by
    intro ws fs rest h
    split at h
    · cases h
    · obtain ⟨E, -, rfl⟩ := Option.map_eq_some_iff.1 h
      exact hdecimal _ _
  exact hdigits _ _ _ h

end Number

end ReactiveScript
