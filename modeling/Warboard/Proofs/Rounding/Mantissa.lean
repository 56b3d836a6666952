import Mathlib
import Warboard.Rounding

namespace Warboard.Single

open Float.Model (Format UnpackedFloat totalExponent)
open Float.Model.UnpackedFloat

/-- The least whole number that is not below what the mantissa stands for. -/
def ceil (em : ExtendedMantissa) : Nat :=
  em.mantissa + if em.roundBit || em.stickyBit then 1 else 0

/-- How many digits of the mantissa do not fit. -/
def excess (m : Nat) (e : Int) : Nat := (place m e - e).toNat

/-- The mantissa without the digits that do not fit. -/
def rounded (m : Nat) (e : Int) (acc : Accuracy) : Nat :=
  (ExtendedMantissa.ofMantissaAndAccuracy m acc >>> excess m e).roundedMantissa

variable {em : ExtendedMantissa} {acc : Accuracy} {m n k : Nat} {e : Int}

theorem log2_le_of_lt (h : m < 2 ^ (k + 1)) : m.log2 ≤ k := by
  rcases Nat.eq_zero_or_pos m with rfl | hm
  · simp
  · exact Nat.lt_succ_iff.1 ((Nat.log2_lt hm.ne').2 h)

theorem log2_shiftLeft (hm : 0 < m) (k : Nat) : (m <<< k).log2 = m.log2 + k := by
  rw [Nat.shiftLeft_eq]
  refine (Nat.log2_eq_iff (Nat.mul_pos hm (Nat.two_pow_pos k)).ne').2 ⟨?_, ?_⟩
  · rw [Nat.pow_add]
    exact Nat.mul_le_mul_right _ (Nat.log2_self_le hm.ne')
  · rw [Nat.add_right_comm, Nat.pow_add]
    exact Nat.mul_lt_mul_of_pos_right Nat.lt_log2_self (Nat.two_pow_pos k)

theorem shiftRight_succ (em : ExtendedMantissa) (n : Nat) :
    em >>> (n + 1) = (em >>> n).shiftRightOne := rfl

theorem mantissa_shiftRight (em : ExtendedMantissa) (n : Nat) :
    (em >>> n).mantissa = em.mantissa / 2 ^ n := by
  induction n with
  | zero => exact (Nat.div_one _).symm
  | succ n ih =>
      rw [shiftRight_succ, ExtendedMantissa.shiftRightOne, ih, Nat.div_div_eq_div_mul, Nat.pow_succ]

theorem mantissa_ofMantissaAndAccuracy (m : Nat) (acc : Accuracy) :
    (ExtendedMantissa.ofMantissaAndAccuracy m acc).mantissa = m := by
  rcases acc with _ | _ | _ | _ <;> rfl

theorem ceil_shiftRightOne (em : ExtendedMantissa) :
    ceil em.shiftRightOne = (ceil em + 1) / 2 := by
  obtain ⟨m, r, s⟩ := em
  rcases Nat.mod_two_eq_zero_or_one m with hm | hm <;> cases r <;> cases s <;>
    simp [ceil, ExtendedMantissa.shiftRightOne, hm] <;> omega

theorem ceil_shiftRight_le {c : Nat} (h : ceil em ≤ c * 2 ^ n) : ceil (em >>> n) ≤ c := by
  induction n generalizing c with
  | zero => exact h.trans_eq (Nat.mul_one c)
  | succ n ih =>
      have htwice : ceil (em >>> n) ≤ 2 * c := by
        refine ih (h.trans_eq ?_)
        ring
      rw [shiftRight_succ, ceil_shiftRightOne]
      omega

theorem mantissa_le_roundedMantissa (em : ExtendedMantissa) : em.mantissa ≤ em.roundedMantissa := by
  obtain ⟨m, r, s⟩ := em
  cases r <;> cases s <;>
    simp [ExtendedMantissa.roundedMantissa, ExtendedMantissa.accuracy, Accuracy.roundToNearestEven]

theorem roundedMantissa_le_ceil (em : ExtendedMantissa) : em.roundedMantissa ≤ ceil em := by
  obtain ⟨m, r, s⟩ := em
  cases r <;> cases s <;>
    simp [ceil, ExtendedMantissa.roundedMantissa, ExtendedMantissa.accuracy,
      Accuracy.roundToNearestEven]
  omega

theorem roundedMantissa_le_succ (em : ExtendedMantissa) : em.roundedMantissa ≤ em.mantissa + 1 := by
  refine (roundedMantissa_le_ceil em).trans ?_
  rw [ceil]
  split <;> omega

theorem roundedMantissa_of_roundBit (h : em.roundBit = false) :
    em.roundedMantissa = em.mantissa := by
  obtain ⟨m, r, s⟩ := em
  cases h
  cases s <;> rfl

/-- Rounding moves an exact mantissa up by no more than half of a unit. -/
theorem two_mul_roundedMantissa_le (m n : Nat) :
    2 * (ExtendedMantissa.ofMantissaAndAccuracy m .exact >>> n).roundedMantissa * 2 ^ n ≤
      2 * m + 2 ^ n := by
  set em := ExtendedMantissa.ofMantissaAndAccuracy m .exact
  have hmantissa (n : Nat) : (em >>> n).mantissa = m / 2 ^ n := mantissa_shiftRight em n
  cases hbit : (em >>> n).roundBit with
  | false =>
      rw [roundedMantissa_of_roundBit hbit, hmantissa, Nat.mul_assoc]
      exact Nat.le_add_right_of_le (Nat.mul_le_mul_left 2 (Nat.div_mul_le_self m _))
  | true =>
      cases n with
      | zero => cases hbit
      | succ n =>
          -- The round bit is the digit that was cut off last, which is worth half of a unit.
          have hodd : m / 2 ^ n % 2 ≠ 0 := by
            rw [shiftRight_succ, ExtendedMantissa.shiftRightOne, hmantissa] at hbit
            exact bne_iff_ne.1 hbit
          have hhalf : (2 * (m / 2 ^ (n + 1)) + 1) * 2 ^ n ≤ m := by
            have hsplit : m / 2 ^ (n + 1) = m / 2 ^ n / 2 := by
              rw [Nat.div_div_eq_div_mul, Nat.pow_succ]
            have hdigits : 2 * (m / 2 ^ (n + 1)) + 1 = m / 2 ^ n := by omega
            rw [hdigits]
            exact Nat.div_mul_le_self m _
          have hsucc := hmantissa (n + 1) ▸ roundedMantissa_le_succ (em >>> (n + 1))
          calc 2 * (em >>> (n + 1)).roundedMantissa * 2 ^ (n + 1)
              ≤ 2 * (m / 2 ^ (n + 1) + 1) * 2 ^ (n + 1) := by gcongr
            _ = 2 * ((2 * (m / 2 ^ (n + 1)) + 1) * 2 ^ n) + 2 ^ (n + 1) := by ring
            _ ≤ 2 * m + 2 ^ (n + 1) := by omega

theorem targetExponent_eq (m : Nat) (e : Int) :
    Format.binary32.targetExponent (totalExponent m e) = place m e := by
  change max ((m.log2 : Int) + 1 + e - 24) (-149) = _
  rw [place]
  omega

theorem excess_eq (hlow : -149 ≤ m.log2 + e - 23) : excess m e = m.log2 - 23 := by
  rw [excess, place]
  omega

theorem excess_add (hlow : -149 ≤ e) :
    (e + excess m e + 149).toNat = excess m e + (e + 149).toNat := by
  omega

theorem rounded_bounds (m : Nat) (e : Int) (acc : Accuracy) :
    m / 2 ^ excess m e ≤ rounded m e acc ∧ rounded m e acc ≤ m / 2 ^ excess m e + 1 := by
  have hleft := mantissa_le_roundedMantissa
    (ExtendedMantissa.ofMantissaAndAccuracy m acc >>> excess m e)
  have hright := roundedMantissa_le_succ
    (ExtendedMantissa.ofMantissaAndAccuracy m acc >>> excess m e)
  rw [mantissa_shiftRight, mantissa_ofMantissaAndAccuracy] at hleft hright
  exact ⟨hleft, hright⟩

theorem rounded_le {a : Nat} {E : Int} (hE : e + excess m e ≤ E)
    (h : ceil (.ofMantissaAndAccuracy m acc) ≤ a * 2 ^ (E - e).toNat) :
    rounded m e acc ≤ a * 2 ^ (E - (e + excess m e)).toNat := by
  refine (roundedMantissa_le_ceil _).trans (ceil_shiftRight_le (h.trans_eq ?_))
  rw [Nat.mul_assoc, ← Nat.pow_add]
  congr 2
  omega

theorem log2_add_le (hk : 25 ≤ k) (hm : 0 < m)
    (h : m * 2 ^ (e + 149).toNat ≤ 2 ^ k + 2 ^ (k - 25)) : m.log2 + (e + 149).toNat ≤ k := by
  have hself : 2 ^ (m.log2 + (e + 149).toNat) ≤ m * 2 ^ (e + 149).toNat := by
    rw [Nat.pow_add]
    exact Nat.mul_le_mul_right _ (Nat.log2_self_le hm.ne')
  have hlt : 2 ^ k + 2 ^ (k - 25) < 2 ^ (k + 1) := by
    have := Nat.pow_lt_pow_right (a := 2) (by decide) (show k - 25 < k by omega)
    rw [Nat.pow_succ]
    omega
  exact Nat.lt_succ_iff.1
    ((Nat.pow_lt_pow_iff_right (by decide)).1 (hself.trans_lt (h.trans_lt hlt)))

theorem two_mul_rounded_le (m : Nat) (e : Int) :
    2 * (rounded m e .exact * (2 ^ excess m e * 2 ^ (e + 149).toNat)) ≤
      2 * (m * 2 ^ (e + 149).toNat) + 2 ^ excess m e * 2 ^ (e + 149).toNat := by
  have hhalf := Nat.mul_le_mul_right (2 ^ (e + 149).toNat)
    (two_mul_roundedMantissa_le m (excess m e))
  calc 2 * (rounded m e .exact * (2 ^ excess m e * 2 ^ (e + 149).toNat))
      = 2 * rounded m e .exact * 2 ^ excess m e * 2 ^ (e + 149).toNat := by ring
    _ ≤ (2 * m + 2 ^ excess m e) * 2 ^ (e + 149).toNat := hhalf
    _ = 2 * (m * 2 ^ (e + 149).toNat) + 2 ^ excess m e * 2 ^ (e + 149).toNat := by ring

theorem two_pow_lt_unit (hk : 25 ≤ k) (hlow : -149 ≤ e)
    (hover : 2 ^ k < m * 2 ^ (e + 149).toNat) :
    2 * 2 ^ (k - 25) < 2 ^ excess m e * 2 ^ (e + 149).toNat := by
  have hself : m * 2 ^ (e + 149).toNat < 2 ^ (m.log2 + 1 + (e + 149).toNat) := by
    rw [Nat.pow_add]
    exact Nat.mul_lt_mul_of_pos_right Nat.lt_log2_self (Nat.two_pow_pos _)
  have htop : k < m.log2 + 1 + (e + 149).toNat :=
    (Nat.pow_lt_pow_iff_right (by decide)).1 (hover.trans hself)
  have hdigits : k - 24 < excess m e + (e + 149).toNat := by
    rw [excess, place]
    omega
  rw [← Nat.pow_add, ← Nat.pow_succ']
  exact Nat.pow_lt_pow_right (by decide) (by omega)

/-- What is above a power of two by less than half of a unit is rounded to the power. -/
theorem rounded_exact_le (hk : 25 ≤ k) (hm : 0 < m) (hlow : -149 ≤ e)
    (h : m * 2 ^ (e + 149).toNat ≤ 2 ^ k + 2 ^ (k - 25)) :
    rounded m e .exact ≤ 2 ^ (k - (e + excess m e + 149).toNat) := by
  have hlog := log2_add_le hk hm h
  have hsum : (e + excess m e + 149).toNat ≤ k := by
    rw [excess, place]
    omega
  rw [excess_add hlow] at hsum ⊢
  obtain ⟨d, hd⟩ := Nat.exists_eq_add_of_le' hsum
  have hpow : 2 ^ k = 2 ^ d * 2 ^ excess m e * 2 ^ (e + 149).toNat := by
    rw [hd, Nat.pow_add, Nat.pow_add, Nat.mul_assoc]
  have hdiff : k - (excess m e + (e + 149).toNat) = d := by omega
  rw [hdiff]
  rcases Nat.lt_or_ge (2 ^ k) (m * 2 ^ (e + 149).toNat) with hover | hle
  · have hsmall := two_pow_lt_unit hk hlow hover
    have hunit : 0 < 2 ^ excess m e * 2 ^ (e + 149).toNat := by positivity
    refine Nat.lt_succ_iff.1 (lt_of_mul_lt_mul_right ?_ hunit.le)
    refine lt_of_mul_lt_mul_left ?_ (Nat.zero_le 2)
    calc 2 * (rounded m e .exact * (2 ^ excess m e * 2 ^ (e + 149).toNat))
        ≤ 2 * (m * 2 ^ (e + 149).toNat) + 2 ^ excess m e * 2 ^ (e + 149).toNat :=
          two_mul_rounded_le m e
      _ ≤ 2 * (2 ^ k + 2 ^ (k - 25)) + 2 ^ excess m e * 2 ^ (e + 149).toNat := by gcongr
      _ < 2 * 2 ^ k + 2 * (2 ^ excess m e * 2 ^ (e + 149).toNat) := by omega
      _ = 2 * ((2 ^ d + 1) * (2 ^ excess m e * 2 ^ (e + 149).toNat)) := by rw [hpow]; ring
  · rw [hpow] at hle
    refine (roundedMantissa_le_ceil _).trans (ceil_shiftRight_le ?_)
    exact Nat.le_of_mul_le_mul_right hle (Nat.two_pow_pos _)

theorem ceil_quotient_le {a d c : Nat} (h : a ≤ c * d) :
    ceil (.ofMantissaAndAccuracy (a / d) (accuracyOfFraction (a % d) d)) ≤ c := by
  have hle : a / d ≤ c := Nat.div_le_of_le_mul (h.trans_eq (Nat.mul_comm c d))
  rw [accuracyOfFraction]
  split
  · exact hle
  · rename_i hmod
    have hlt : a / d < c := by
      refine hle.lt_of_ne fun heq => hmod ?_
      have hsplit := Nat.div_add_mod' a d
      rw [heq] at hsplit
      omega
    rw [ceil, mantissa_ofMantissaAndAccuracy]
    split <;> omega

theorem decreaseExponent_value (m : Nat) {e t : Int} (ht : -149 ≤ t) (he : -149 ≤ e) :
    (decreaseExponent m e t).1 * 2 ^ ((decreaseExponent m e t).2 + 149).toNat =
      m * 2 ^ (e + 149).toNat := by
  simp only [decreaseExponent]
  rw [Nat.shiftLeft_eq, Nat.mul_assoc, ← Nat.pow_add]
  congr 2
  omega

theorem decreaseExponent_aligned (m : Nat) {e t : Int} (ht : -149 ≤ t) (he : t ≤ e) :
    (decreaseExponent m e t).1 * 2 ^ (t + 149).toNat = m * 2 ^ (e + 149).toNat := by
  have hexponent : (decreaseExponent m e t).2 = t := by
    change e - ((e - t).toNat : Int) = t
    omega
  have hvalue := decreaseExponent_value m ht (ht.trans he)
  rwa [hexponent] at hvalue

/-- After the rounding the mantissa may have one digit too many, a zero. -/
theorem roundWithAccuracy_eq (s : Sign) (m : Nat) (e : Int) (acc : Accuracy) :
    roundWithAccuracy Format.binary32 s m e acc =
      let r := rounded m e acc
      let t := e + excess m e
      if h : r / 2 ^ excess r t = 0 then .zero s
      else .finite s (r / 2 ^ excess r t) (t + excess r t) (Nat.pos_of_ne_zero h) := by
  simp only [roundWithAccuracy, shiftToTargetExponent, shiftToExponent, targetExponent_eq,
    mantissa_shiftRight, mantissa_ofMantissaAndAccuracy]
  rfl

/-- With enough digits for a mantissa the result has a full one. -/
theorem roundWithAccuracy_full (s : Sign) (acc : Accuracy) (hlog : 23 ≤ m.log2)
    (hlow : -149 ≤ m.log2 + e - 23) : ∃ m' e', ∃ hm : 0 < m',
      roundWithAccuracy Format.binary32 s m e acc = .finite s m' e' hm ∧ m'.log2 = 23 ∧
        m.log2 + e - 23 ≤ e' := by
  have hm : m ≠ 0 := by
    rintro rfl
    simp at hlog
  have hfloor : 2 ^ 23 ≤ m / 2 ^ excess m e := by
    rw [excess_eq hlow, Nat.le_div_iff_mul_le (Nat.two_pow_pos _), ← Nat.pow_add,
      Nat.add_sub_cancel' hlog]
    exact Nat.log2_self_le hm
  have hceil : m / 2 ^ excess m e < 2 ^ 24 := by
    rw [excess_eq hlow, Nat.div_lt_iff_lt_mul (Nat.two_pow_pos _), ← Nat.pow_add]
    exact Nat.lt_log2_self.trans_eq (by congr 1; omega)
  have hexponent : e + excess m e = m.log2 + e - 23 := by
    rw [excess_eq hlow]
    omega
  obtain ⟨hleft, hright⟩ := rounded_bounds m e acc
  rw [roundWithAccuracy_eq, hexponent]
  generalize rounded m e acc = r at *
  dsimp only
  rcases Nat.lt_or_ge r (2 ^ 24) with hr | hr
  · have hlog' : r.log2 = 23 := (Nat.log2_eq_iff (by omega)).2 ⟨by omega, hr⟩
    have hfits : excess r (m.log2 + e - 23) = 0 := by
      rw [excess_eq (by omega), hlog']
    simp only [hfits, Nat.pow_zero, Nat.div_one]
    rw [dif_neg (by omega)]
    exact ⟨r, _, by omega, rfl, hlog', by omega⟩
  · obtain rfl : r = 2 ^ 24 := by omega
    have hfits : excess (2 ^ 24) (m.log2 + e - 23) = 1 := by
      rw [excess, place, Nat.log2_two_pow]
      omega
    simp only [hfits]
    exact ⟨2 ^ 23, _, by decide, rfl, Nat.log2_two_pow, by omega⟩

end Warboard.Single
