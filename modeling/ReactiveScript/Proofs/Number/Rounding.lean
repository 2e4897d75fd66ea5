import ReactiveScript.Proofs.Number.Whole

/-!
# Rounding

A product or quotient of numbers is rounded once: its exact value is cut off behind the last place
that a number can have, and a round bit and a sticky bit say what has been cut off.  So it comes out
as the number whose neighbourhood the exact value lies in, up to the midpoints to its neighbours,
and the midpoints themselves belong to the number with the even mantissa.

* `Number.Describes` — what the two bits say about an exact value.
* `Number.RoundsTo` — the neighbourhood of a number.
* `Number.roundWithAccuracy_of_roundsTo` — an exact value is rounded to the number whose
  neighbourhood it lies in.
* `Number.mul_of_roundsTo`, `Number.div_of_roundsTo` — products and quotients.
-/

set_option autoImplicit false

namespace ReactiveScript

open Float.Model Float.Model.UnpackedFloat

namespace Number

/-! ## What is cut off -/

/-- A mantissa with the round bit behind it. -/
def withRoundBit (em : ExtendedMantissa) : ℕ := 2 * em.mantissa + em.roundBit.toNat

/-- A mantissa and its two bits describe a value: the round bit is its first digit behind the point,
and the sticky bit says whether there are any others. -/
def Describes (em : ExtendedMantissa) (y : ℚ) : Prop :=
  if em.stickyBit then (withRoundBit em : ℚ) < 2 * y ∧ 2 * y < withRoundBit em + 1
  else 2 * y = withRoundBit em

namespace Describes

variable {em : ExtendedMantissa} {y : ℚ}

theorem withRoundBit_le (h : Describes em y) :
    (withRoundBit em : ℚ) ≤ 2 * y ∧ 2 * y < withRoundBit em + 1 := by
  rw [Describes] at h
  split at h
  · exact ⟨h.1.le, h.2⟩
  · exact ⟨h.ge, by linarith⟩

/-- The mantissa is the integer part. -/
theorem mantissa_le (h : Describes em y) : (em.mantissa : ℚ) ≤ y ∧ y < em.mantissa + 1 := by
  obtain ⟨hle, hlt⟩ := h.withRoundBit_le
  have hbit : (em.roundBit.toNat : ℚ) ≤ 1 := by exact_mod_cast Bool.toNat_le em.roundBit
  have hpos : (0 : ℚ) ≤ em.roundBit.toNat := Nat.cast_nonneg _
  simp only [withRoundBit, Nat.cast_add, Nat.cast_mul, Nat.cast_ofNat] at hle hlt
  exact ⟨by linarith, by linarith⟩

theorem shiftRightOne (h : Describes em y) : Describes em.shiftRightOne (y / 2) := by
  have hshift : withRoundBit em.shiftRightOne = em.mantissa := by
    have hbit : (em.mantissa % 2 != 0).toNat = em.mantissa % 2 := by
      rcases Nat.mod_two_eq_zero_or_one em.mantissa with h | h <;> rw [h] <;> rfl
    rw [withRoundBit, ExtendedMantissa.shiftRightOne, hbit]
    exact Nat.div_add_mod em.mantissa 2
  obtain ⟨m, r, s⟩ := em
  rw [Describes, hshift, mul_div_cancel₀ y two_ne_zero]
  cases r <;> cases s <;>
    simp [Describes, withRoundBit, ExtendedMantissa.shiftRightOne] at h ⊢
  · exact h
  · exact ⟨by linarith [h.1], by linarith [h.2]⟩
  · exact ⟨by linarith, by linarith⟩
  · exact ⟨by linarith [h.1], by linarith [h.2]⟩

theorem shiftRight (h : Describes em y) (k : ℕ) : Describes (em >>> k) (y / 2 ^ k) := by
  show Describes (Nat.repeat ExtendedMantissa.shiftRightOne k em) _
  induction k with
  | zero => simpa [Nat.repeat] using h
  | succ k ih =>
    rw [Nat.repeat, pow_succ, ← div_div]
    exact ih.shiftRightOne

/-- A value is rounded to a mantissa that is not more than a half away, or less than that if the
mantissa is odd. -/
theorem roundedMantissa (h : Describes em y) {t : ℕ} (hle : 2 * (t : ℚ) ≤ 2 * y + 1)
    (hge : 2 * y ≤ 2 * t + 1) (hodd : t % 2 = 1 → 2 * (t : ℚ) < 2 * y + 1 ∧ 2 * y < 2 * t + 1) :
    em.roundedMantissa = t := by
  obtain ⟨m, r, s⟩ := em
  have hcast : ∀ {a b : ℕ}, (a : ℚ) < b → a < b := fun h => Nat.cast_lt.1 h
  cases r <;> cases s <;> simp [Describes, withRoundBit] at h
  · have hlo : 2 * t < 2 * m + 2 := hcast (by push_cast; linarith)
    have hhi : 2 * m < 2 * t + 2 := hcast (by push_cast; linarith)
    show m = t
    omega
  · have hlo : 2 * t < 2 * m + 2 := hcast (by push_cast; linarith [h.2])
    have hhi : 2 * m < 2 * t + 1 := hcast (by push_cast; linarith [h.1])
    show m = t
    omega
  · -- halfway between two mantissas: only an even one is as near as this
    have hlo : 2 * t < 2 * m + 3 := hcast (by push_cast; linarith)
    have hhi : 2 * m < 2 * t + 1 := hcast (by push_cast; linarith)
    have heven : ¬t % 2 = 1 := by
      intro ht
      have hlo' : 2 * t < 2 * m + 2 := hcast (by push_cast; linarith [hodd ht])
      have hhi' : 2 * m < 2 * t := hcast (by push_cast; linarith [hodd ht])
      omega
    show m + m % 2 = t
    omega
  · have hlo : 2 * t < 2 * m + 3 := hcast (by push_cast; linarith [h.2])
    have hhi : 2 * m < 2 * t := hcast (by push_cast; linarith [h.1])
    show m + 1 = t
    omega

end Describes

theorem describes_exact (m : ℕ) : Describes (.ofMantissaAndAccuracy m .exact) m := by
  simp [Describes, withRoundBit, ExtendedMantissa.ofMantissaAndAccuracy]

/-- A quotient is described by its integer part and the remainder. -/
theorem describes_fraction (q : ℕ) {r d : ℕ} (hr : r < d) :
    Describes (.ofMantissaAndAccuracy q (accuracyOfFraction r d)) (q + r / d) := by
  have hd : (0 : ℚ) < d := Nat.cast_pos.2 (Nat.zero_lt_of_lt hr)
  have hlt : (r : ℚ) / d < 1 := (div_lt_one hd).2 (Nat.cast_lt.2 hr)
  rw [accuracyOfFraction]
  split
  · rename_i hzero
    subst hzero
    rw [Nat.cast_zero, zero_div, add_zero]
    exact describes_exact q
  · rename_i hzero
    have hpos : (0 : ℚ) < r / d := div_pos (Nat.cast_pos.2 (Nat.pos_of_ne_zero hzero)) hd
    have htwice : 2 * ((r : ℚ) / d) = (2 * r : ℕ) / d := by push_cast; ring
    cases hcompare : compare (2 * r) d with
    | lt =>
      have hhalf : 2 * ((r : ℚ) / d) < 1 := by
        rw [htwice, div_lt_one hd]
        exact Nat.cast_lt.2 (Nat.compare_eq_lt.1 hcompare)
      simp [Describes, withRoundBit, ExtendedMantissa.ofMantissaAndAccuracy]
      exact ⟨hpos, by linarith⟩
    | eq =>
      have hhalf : 2 * ((r : ℚ) / d) = 1 := by
        rw [htwice, Nat.compare_eq_eq.1 hcompare, div_self hd.ne']
      simp [Describes, withRoundBit, ExtendedMantissa.ofMantissaAndAccuracy]
      linarith
    | gt =>
      have hhalf : 1 < 2 * ((r : ℚ) / d) := by
        rw [htwice, one_lt_div hd]
        exact Nat.cast_lt.2 (Nat.compare_eq_gt.1 hcompare)
      simp [Describes, withRoundBit, ExtendedMantissa.ofMantissaAndAccuracy]
      exact ⟨by linarith, by linarith⟩

/-! ## The neighbourhood of a number -/

/-- The midpoint between a number and the one below it, in quarters of its last place.  Below a
power of two the next number is only half as far away. -/
def lowQuarters (m : ℕ) (e : ℤ) : ℕ :=
  if m = 2 ^ 52 ∧ e ≠ -1074 then 4 * m - 1 else 4 * m - 2

/-- A value lies between the midpoints from `m · 2 ^ e` to its neighbours; on a midpoint it may lie
if the mantissa is even. -/
def RoundsTo (m : ℕ) (e : ℤ) (v : ℚ) : Prop :=
  if m % 2 = 0 then lowQuarters m e ≤ 4 * (v / 2 ^ e) ∧ 4 * (v / 2 ^ e) ≤ (4 * m + 2 : ℕ)
  else lowQuarters m e < 4 * (v / 2 ^ e) ∧ 4 * (v / 2 ^ e) < (4 * m + 2 : ℕ)

section Round

variable {m : ℕ} {e : ℤ} {v : ℚ}

theorem four_mul_le_lowQuarters (m : ℕ) (e : ℤ) : 4 * m ≤ lowQuarters m e + 2 := by
  rw [lowQuarters]
  split <;> omega

namespace RoundsTo

/-- In units of its last place, a value is not more than a half away from the mantissa. -/
theorem near (h : RoundsTo m e v) :
    2 * (m : ℚ) ≤ 2 * (v / 2 ^ e) + 1 ∧ 2 * (v / 2 ^ e) ≤ 2 * m + 1 ∧
      (m % 2 = 1 → 2 * (m : ℚ) < 2 * (v / 2 ^ e) + 1 ∧ 2 * (v / 2 ^ e) < 2 * m + 1) := by
  have hlow : 4 * (m : ℚ) ≤ lowQuarters m e + 2 := by exact_mod_cast four_mul_le_lowQuarters m e
  rw [RoundsTo] at h
  push_cast at h
  split at h
  · exact ⟨by linarith [h.1], by linarith [h.2], fun hodd => by omega⟩
  · exact ⟨by linarith [h.1], by linarith [h.2], fun _ => ⟨by linarith [h.1], by linarith [h.2]⟩⟩

/-- Below a power of two a value is not more than a quarter away. -/
theorem near_of_eq (h : RoundsTo (2 ^ 52) e v) (he : e ≠ -1074) :
    (2 ^ 54 - 1 : ℚ) ≤ 4 * (v / 2 ^ e) := by
  rw [RoundsTo, if_pos (by decide), lowQuarters, if_pos ⟨rfl, he⟩] at h
  norm_num at h ⊢
  exact h.1

end RoundsTo

/-- A number lies in its own neighbourhood. -/
theorem roundsTo_exact (hm : 0 < m) (e : ℤ) : RoundsTo m e (m * 2 ^ e) := by
  have hpow : (2 : ℚ) ^ e ≠ 0 := zpow_ne_zero e two_ne_zero
  have hlow : lowQuarters m e < 4 * m := by
    rw [lowQuarters]
    split <;> omega
  have hlow : (lowQuarters m e : ℚ) < 4 * m := by exact_mod_cast hlow
  rw [RoundsTo, mul_div_cancel_right₀ _ hpow]
  push_cast
  split
  · exact ⟨hlow.le, by linarith⟩
  · exact ⟨hlow, by linarith⟩

/-- The exponent of the last place that a number can have. -/
theorem targetExponent_eq (M : ℕ) (X : ℤ) :
    Format.binary64.targetExponent (totalExponent M X) = max (M.log2 + X - 52) (-1074) := by
  have hbits : Format.binary64.mantissaBits = 53 := rfl
  have hmin : Format.binary64.minExponent = -1074 := rfl
  rw [Format.targetExponent, totalExponent, hbits, hmin]
  omega

theorem two_zpow_pos (i : ℤ) : (0 : ℚ) < 2 ^ i := zpow_pos two_pos i

/-- A value that is shifted into the place of a number with that mantissa. -/
theorem two_zpow_le {M : ℕ} {X : ℤ} (hM : M ≠ 0) (hle : (M : ℚ) ≤ v / 2 ^ X) :
    (2 : ℚ) ^ (M.log2 + X) ≤ v := by
  rw [zpow_add₀ two_ne_zero, zpow_natCast]
  refine le_trans (mul_le_mul_of_nonneg_right ?_ (two_zpow_pos X).le)
    ((le_div_iff₀ (two_zpow_pos X)).1 hle)
  exact_mod_cast Nat.log2_self_le hM

theorem lt_two_zpow {M : ℕ} {X : ℤ} (hlt : v / 2 ^ X < M + 1) :
    v < (2 : ℚ) ^ (M.log2 + 1 + X) := by
  rw [zpow_add₀ two_ne_zero]
  refine lt_of_lt_of_le ((div_lt_iff₀ (two_zpow_pos X)).1 hlt)
    (mul_le_mul_of_nonneg_right ?_ (two_zpow_pos X).le)
  exact_mod_cast Nat.lt_log2_self

/-- A mantissa and an exponent are those of a number: fifty-three binary digits, or less in the last
place that there is. -/
structure Fits (m : ℕ) (e : ℤ) : Prop where
  /-- The mantissa is positive. -/
  pos : 0 < m
  /-- It has not more than fifty-three digits. -/
  lt : m < 2 ^ 53
  /-- It has that many, unless the exponent is the least one. -/
  normal : 2 ^ 52 ≤ m ∨ e = -1074
  /-- No exponent is less. -/
  le : -1074 ≤ e

/-- A mantissa with fifty-three digits keeps its place. -/
theorem Fits.target (h : Fits m e) : max ((m.log2 : ℤ) + e - 52) (-1074) = e := by
  have hle := h.le
  have hlt : m.log2 < 53 := (Nat.log2_lt h.pos.ne').2 h.lt
  rcases h.normal with hnormal | he
  · have hge : 52 ≤ m.log2 := (Nat.le_log2 h.pos.ne').2 hnormal
    omega
  · omega

/-- The place that a value near a number is cut off at: that of the number, or the one below if
the number is a power of two. -/
theorem target_cases {M : ℕ} {X : ℤ} (hfits : Fits m e)
    (hM : (M : ℚ) ≤ v / 2 ^ X ∧ v / 2 ^ X < M + 1) (hX : X ≤ max ((M.log2 : ℤ) + X - 52) (-1074))
    (h : RoundsTo m e v) :
    max ((M.log2 : ℤ) + X - 52) (-1074) = e ∨
      max ((M.log2 : ℤ) + X - 52) (-1074) = e - 1 ∧ m = 2 ^ 52 ∧ e ≠ -1074 ∧
        v < (2 : ℚ) ^ (e + 52) := by
  obtain ⟨T, hT⟩ : ∃ T, max ((M.log2 : ℤ) + X - 52) (-1074) = T := ⟨_, rfl⟩
  obtain ⟨hlo, hhi, -⟩ := h.near
  have hle := hfits.le
  have hmul : v = v / 2 ^ e * 2 ^ e := (div_mul_cancel₀ v (two_zpow_pos e).ne').symm
  have hTe : T ≤ e := by
    by_contra hlt
    have hM0 : M ≠ 0 := by
      rintro rfl
      rw [Nat.log2_zero, Nat.cast_zero] at hT hX
      omega
    have hbig := two_zpow_le hM0 hM.1
    have hm : (m : ℚ) + 1 ≤ 2 ^ 53 := by exact_mod_cast hfits.lt
    have hv : v < 2 ^ (e + 53) := by
      rw [zpow_add₀ two_ne_zero, hmul, mul_comm]
      refine mul_lt_mul_of_pos_left ?_ (two_zpow_pos e)
      norm_num at hm ⊢
      linarith
    have hexp : (M.log2 : ℤ) + X < e + 53 :=
      (zpow_lt_zpow_iff_right₀ one_lt_two).1 (hbig.trans_lt hv)
    omega
  rw [hT] at hX ⊢
  rcases hTe.eq_or_lt with heq | hlt
  · exact Or.inl heq
  · right
    have hnormal : 2 ^ 52 ≤ m := hfits.normal.resolve_right (by omega)
    have he : e ≠ -1074 := by omega
    have hup : v < (2 : ℚ) ^ (T + 53) :=
      (lt_two_zpow hM.2).trans_le (zpow_le_zpow_right₀ one_le_two (by omega))
    have hv : v < (2 : ℚ) ^ (e + 52) := hup.trans_le (zpow_le_zpow_right₀ one_le_two (by omega))
    have hw : v / 2 ^ e < 2 ^ 52 := by
      rw [div_lt_iff₀ (two_zpow_pos e), mul_comm]
      rw [zpow_add₀ two_ne_zero] at hv
      exact_mod_cast hv
    obtain rfl : m = 2 ^ 52 := by
      have : 2 * (m : ℚ) < 2 * (2 ^ 52 : ℕ) + 1 := by push_cast; linarith
      have : 2 * m < 2 * 2 ^ 52 + 1 := by exact_mod_cast this
      omega
    refine ⟨?_, rfl, he, hv⟩
    have hquarter := h.near_of_eq he
    have hlow : (2 : ℚ) ^ (e + 51) < v := by
      rw [zpow_add₀ two_ne_zero, hmul, mul_comm]
      refine mul_lt_mul_of_pos_right ?_ (two_zpow_pos e)
      norm_num at hquarter ⊢
      linarith
    have hexp : e + 51 < T + 53 := (zpow_lt_zpow_iff_right₀ one_lt_two).1 (hlow.trans hup)
    omega

/-- A mantissa that fits is shifted nowhere. -/
theorem Fits.shiftToTargetExponent_eq (h : Fits m e) :
    shiftToTargetExponent .binary64 m e .exact = (⟨m, false, false⟩, e) := by
  rw [shiftToTargetExponent, targetExponent_eq, h.target, shiftToExponent, sub_self]
  simp [ExtendedMantissa.ofMantissaAndAccuracy]
  rfl

/-- What is left of a described value at the place where it is cut off. -/
theorem describes_shiftToTargetExponent {M : ℕ} {X T : ℤ} {acc : Accuracy}
    (hM : Describes (.ofMantissaAndAccuracy M acc) (v / 2 ^ X))
    (hT : max ((M.log2 : ℤ) + X - 52) (-1074) = T) (hX : X ≤ T) :
    ∃ em, shiftToTargetExponent .binary64 M X acc = (em, T) ∧ Describes em (v / 2 ^ T) := by
  obtain ⟨t, rfl⟩ : ∃ t : ℕ, T = X + t := ⟨(T - X).toNat, by omega⟩
  refine ⟨ExtendedMantissa.ofMantissaAndAccuracy M acc >>> t, ?_, ?_⟩
  · rw [shiftToTargetExponent, targetExponent_eq, hT, shiftToExponent, add_sub_cancel_left,
      Int.toNat_natCast]
  · rw [zpow_add₀ two_ne_zero, ← div_div, zpow_natCast]
    exact hM.shiftRight t

/-- **An exact value is rounded to the number whose neighbourhood it lies in.** -/
theorem roundWithAccuracy_of_roundsTo (s : Sign) {M : ℕ} {X : ℤ} {acc : Accuracy}
    (hfits : Fits m e) (hM : Describes (.ofMantissaAndAccuracy M acc) (v / 2 ^ X))
    (hX : X ≤ max ((M.log2 : ℤ) + X - 52) (-1074)) (h : RoundsTo m e v) :
    roundWithAccuracy .binary64 s M X acc = .finite s m e hfits.pos := by
  have hmantissa : (ExtendedMantissa.ofMantissaAndAccuracy M acc).mantissa = M := by
    cases acc with
    | exact => rfl
    | inexact order => cases order <;> rfl
  have hbounds := hM.mantissa_le
  rw [hmantissa] at hbounds
  rcases target_cases hfits hbounds hX h with hT | ⟨hT, rfl, he, hv⟩
  · obtain ⟨em, hshift, hem⟩ := describes_shiftToTargetExponent hM hT (hT ▸ hX)
    obtain ⟨hlo, hhi, hodd⟩ := h.near
    rw [roundWithAccuracy, hshift]
    dsimp only
    rw [hem.roundedMantissa hlo hhi hodd]
    simp only [hfits.shiftToTargetExponent_eq, dif_neg hfits.pos.ne']
  · -- the value is rounded up to the power of two, which has one place less
    obtain ⟨em, hshift, hem⟩ := describes_shiftToTargetExponent hM hT (hT ▸ hX)
    have hdouble : v / 2 ^ (e - 1) = 2 * (v / 2 ^ e) := by
      rw [zpow_sub₀ two_ne_zero, zpow_one, div_div_eq_mul_div, mul_comm, mul_div_assoc]
    have hquarter := h.near_of_eq he
    have hbelow : v / 2 ^ e < 2 ^ 52 := by
      rw [div_lt_iff₀ (two_zpow_pos e), mul_comm]
      rw [zpow_add₀ two_ne_zero] at hv
      exact_mod_cast hv
    have hround : em.roundedMantissa = 2 ^ 52 * 2 ^ 1 := by
      refine hem.roundedMantissa ?_ ?_ fun hodd => absurd hodd (by decide)
      · rw [hdouble]
        norm_num at hquarter ⊢
        linarith
      · rw [hdouble]
        norm_num at hbelow ⊢
        linarith
    have hagain := shiftToTargetExponent_eq (m := 2 ^ 52) 1 (Nat.log2_two_pow) hfits.le
    rw [roundWithAccuracy, hshift]
    dsimp only
    rw [hround]
    rw [Nat.cast_one] at hagain
    simp only [hagain]
    rfl

/-- **A product is rounded once**, whatever is left of its exact value. -/
theorem mul_of_roundsTo {s t : Sign} {m₁ m₂ : ℕ} {e₁ e₂ : ℤ} (h₁ : 0 < m₁) (h₂ : 0 < m₂)
    (hfits : Fits m e) (hlong : 2 ^ 52 ≤ m₁ * m₂)
    (h : RoundsTo m e (m₁ * 2 ^ e₁ * (m₂ * 2 ^ e₂))) :
    UnpackedFloat.mul .binary64 (.finite s m₁ e₁ h₁) (.finite t m₂ e₂ h₂) =
      .finite (s * t) m e hfits.pos := by
  have hlog : 52 ≤ (m₁ * m₂).log2 := (Nat.le_log2 (Nat.mul_pos h₁ h₂).ne').2 hlong
  have hvalue : (m₁ * 2 ^ e₁ * (m₂ * 2 ^ e₂) : ℚ) / 2 ^ (e₁ + e₂) = (m₁ * m₂ : ℕ) := by
    rw [zpow_add₀ two_ne_zero, div_eq_iff (mul_pos (two_zpow_pos e₁) (two_zpow_pos e₂)).ne']
    push_cast
    ring
  rw [UnpackedFloat.mul]
  exact roundWithAccuracy_of_roundsTo _ hfits (by rw [hvalue]; exact describes_exact _)
    (by omega) h

/-- A quotient is cut off behind the last place that a number of its size can have. -/
theorem le_log2_div {m₁ m₂ : ℕ} (h₁ : 0 < m₁) (h₂ : 0 < m₂) {k : ℕ}
    (hk : m₂.log2 + 53 ≤ m₁.log2 + k) : 52 ≤ (m₁ * 2 ^ k / m₂).log2 := by
  have hle : 2 ^ 52 * m₂ ≤ m₁ * 2 ^ k := calc
    2 ^ 52 * m₂ ≤ 2 ^ 52 * 2 ^ (m₂.log2 + 1) := Nat.mul_le_mul_left _ Nat.lt_log2_self.le
    _ = 2 ^ (m₂.log2 + 53) := by rw [← pow_add]; congr 1; omega
    _ ≤ 2 ^ (m₁.log2 + k) := Nat.pow_le_pow_right two_pos hk
    _ = 2 ^ m₁.log2 * 2 ^ k := pow_add ..
    _ ≤ m₁ * 2 ^ k := Nat.mul_le_mul_right _ (Nat.log2_self_le h₁.ne')
  have hdiv : 2 ^ 52 ≤ m₁ * 2 ^ k / m₂ := (Nat.le_div_iff_mul_le h₂).2 hle
  exact (Nat.le_log2 (Nat.ne_of_gt (lt_of_lt_of_le (by decide) hdiv))).2 hdiv

/-- **A quotient is rounded once.** -/
theorem div_of_roundsTo {s t : Sign} {m₁ m₂ : ℕ} {e₁ e₂ : ℤ} (h₁ : 0 < m₁) (h₂ : 0 < m₂)
    (hfits : Fits m e) (h : RoundsTo m e (m₁ * 2 ^ e₁ / (m₂ * 2 ^ e₂))) :
    UnpackedFloat.div .binary64 (.finite s m₁ e₁ h₁) (.finite t m₂ e₂ h₂) =
      .finite (s / t) m e hfits.pos := by
  obtain ⟨X, hX⟩ : ∃ X, min (e₁ - e₂) (Format.binary64.targetExponent
    (totalExponent m₁ e₁ - totalExponent m₂ e₂)) = X := ⟨_, rfl⟩
  obtain ⟨k, hk⟩ : ∃ k : ℕ, e₁ - e₂ - X = k := ⟨(e₁ - e₂ - X).toNat, by omega⟩
  have hm₂ : (m₂ : ℚ) ≠ 0 := Nat.cast_ne_zero.2 h₂.ne'
  have hvalue : (m₁ * 2 ^ e₁ / (m₂ * 2 ^ e₂) : ℚ) / 2 ^ X =
      (m₁ * 2 ^ k / m₂ : ℕ) + ((m₁ * 2 ^ k % m₂ : ℕ) : ℚ) / m₂ := by
    obtain rfl : e₁ = e₂ + X + k := by omega
    have hdiv : ((m₁ * 2 ^ k / m₂ : ℕ) : ℚ) * m₂ + (m₁ * 2 ^ k % m₂ : ℕ) = m₁ * 2 ^ k := by
      exact_mod_cast Nat.div_add_mod' (m₁ * 2 ^ k) m₂
    have he₂ := (two_zpow_pos e₂).ne'
    have hX₂ := (two_zpow_pos X).ne'
    rw [zpow_add₀ two_ne_zero, zpow_add₀ two_ne_zero, zpow_natCast]
    field_simp
    linarith
  have htarget : Format.binary64.targetExponent (totalExponent m₁ e₁ - totalExponent m₂ e₂) =
      max ((m₁.log2 : ℤ) + e₁ - (m₂.log2 + e₂) - 53) (-1074) := by
    have hbits : Format.binary64.mantissaBits = 53 := rfl
    have hmin : Format.binary64.minExponent = -1074 := rfl
    rw [Format.targetExponent, totalExponent, totalExponent, hbits, hmin]
    omega
  have hplace : X ≤ max (((m₁ * 2 ^ k / m₂).log2 : ℤ) + X - 52) (-1074) := by
    by_cases hsmall : X ≤ -1074
    · omega
    · have := le_log2_div h₁ h₂ (k := k) (by omega)
      omega
  rw [UnpackedFloat.div, divCore]
  dsimp only
  rw [hX, hk, Int.toNat_natCast, Nat.shiftLeft_eq]
  exact roundWithAccuracy_of_roundsTo _ hfits
    (by rw [hvalue]; exact describes_fraction _ (Nat.mod_lt _ h₂)) hplace h

end Round

end Number

end ReactiveScript
