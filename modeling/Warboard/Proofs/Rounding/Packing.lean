import Warboard.Proofs.Rounding.Mantissa

namespace Warboard.Single

open Float.Model (Format UnpackedFloat totalExponent)
open Float.Model.UnpackedFloat

/-- What is left of a number that is packed and taken apart again. -/
def repacked (u : UnpackedFloat) : UnpackedFloat :=
  UnpackedFloat.unpack Format.binary32 (UnpackedFloat.pack Format.binary32 u)

/-- A finite number of magnitude at most `n * 2 ^ (-149)`, with an exponent that can be packed. -/
inductive Bounded (n : Nat) : UnpackedFloat → Prop
  | zero (s : Sign) : Bounded n (.zero s)
  | finite (s : Sign) {m : Nat} {e : Int} (hm : 0 < m) (hlow : -149 ≤ e) (hhigh : e ≤ 104)
      (hn : m * 2 ^ (e + 149).toNat ≤ n) : Bounded n (.finite s m e hm)

/-- A number that is not less than one, with a full mantissa. -/
inductive AtLeastOne : UnpackedFloat → Prop
  | infinity (s : Sign) : AtLeastOne (.infinity s)
  | finite (s : Sign) {m : Nat} {e : Int} (hm : 0 < m) (hlog : m.log2 = 23) (hlow : -23 ≤ e) :
      AtLeastOne (.finite s m e hm)

variable {u v : UnpackedFloat} {s s' : Sign} {acc : Accuracy} {m m' n k : Nat} {e e' : Int}

theorem Bounded.mono (h : Bounded m u) (hn : m ≤ n) : Bounded n u := by
  cases h with
  | zero s => exact .zero s
  | finite s hm hlow hhigh h => exact .finite s hm hlow hhigh (h.trans hn)

theorem Bounded.isFinite (h : Bounded n u) : u.isFinite = true := by
  cases h <;> rfl

theorem bounded_roundWithAccuracy (hlow : -149 ≤ e + excess m e) (hhigh : e + excess m e ≤ 104)
    (hlog : (rounded m e acc).log2 + (e + excess m e) ≤ 127)
    (hn : rounded m e acc * 2 ^ (e + excess m e + 149).toNat ≤ n) :
    Bounded n (roundWithAccuracy Format.binary32 s m e acc) := by
  rw [roundWithAccuracy_eq]
  generalize rounded m e acc = r at *
  generalize e + excess m e = t at *
  dsimp only
  split
  · exact .zero s
  · have hexcess : t + excess r t ≤ 104 := by
      rw [excess, place]
      omega
    refine .finite s _ (by omega) hexcess (le_trans ?_ hn)
    have hsplit : (t + excess r t + 149).toNat = excess r t + (t + 149).toNat := by omega
    rw [hsplit, Nat.pow_add, ← Nat.mul_assoc]
    exact Nat.mul_le_mul_right _ (Nat.div_mul_le_self _ _)

theorem bounded_exact (hk : 25 ≤ k) (hk' : k ≤ 276) (hm : 0 < m) (hlow : -149 ≤ e)
    (hhigh : e ≤ 104) (h : m * 2 ^ (e + 149).toNat ≤ 2 ^ k + 2 ^ (k - 25)) :
    Bounded (2 ^ k) (roundWithAccuracy Format.binary32 s m e .exact) := by
  have hlog := log2_add_le hk hm h
  have hplace : place m e ≤ 104 ∧ -149 ≤ place m e ∧ place m e + 149 ≤ k := by
    rw [place]
    omega
  have hrounded := rounded_exact_le hk hm hlow h
  have hsum : (e + excess m e + 149).toNat ≤ k := by
    rw [excess]
    omega
  refine bounded_roundWithAccuracy ?_ ?_ ?_ ?_
  · rw [excess]
    omega
  · rw [excess]
    omega
  · have hlt := hrounded.trans_lt (Nat.pow_lt_pow_right (by decide) (Nat.lt_succ_self _))
    have := log2_le_of_lt hlt
    omega
  · calc _ ≤ 2 ^ (k - (e + excess m e + 149).toNat) * 2 ^ (e + excess m e + 149).toNat :=
          Nat.mul_le_mul_right _ hrounded
      _ = 2 ^ k := by rw [← Nat.pow_add, Nat.sub_add_cancel hsum]

theorem bounded_round (hk : 25 ≤ k) (hk' : k ≤ 276) (hm : 0 < m) (hlow : -149 ≤ e)
    (hhigh : e ≤ 104) (h : m * 2 ^ (e + 149).toNat ≤ 2 ^ k + 2 ^ (k - 25)) :
    Bounded (2 ^ k) (UnpackedFloat.round Format.binary32 s m e) := by
  have hplace : -149 ≤ place m e := by
    rw [place]
    omega
  rw [← decreaseExponent_value m hplace hlow] at h
  rw [UnpackedFloat.round, targetExponent_eq]
  refine bounded_exact hk hk' ?_ ?_ ?_ h
  · rw [Nat.shiftLeft_eq]
    exact Nat.mul_pos hm (Nat.two_pow_pos _)
  · omega
  · omega

theorem bounded_normalize {i : Int} (hk : 25 ≤ k) (hk' : k ≤ 276) (hlow : -149 ≤ e)
    (hhigh : e ≤ 104) (h : i.natAbs * 2 ^ (e + 149).toNat ≤ 2 ^ k + 2 ^ (k - 25)) :
    Bounded (2 ^ k) (UnpackedFloat.normalize Format.binary32 i e s) := by
  rw [UnpackedFloat.normalize]
  split
  · rename_i hlt
    have hneg := Int.compare_eq_lt.1 hlt
    have habs : (-i).toNat = i.natAbs := by omega
    exact bounded_round hk hk' (by omega) hlow hhigh (habs ▸ h)
  · exact .zero _
  · rename_i hgt
    have hpos := Int.compare_eq_gt.1 hgt
    have habs : i.toNat = i.natAbs := by omega
    exact bounded_round hk hk' (by omega) hlow hhigh (habs ▸ h)

theorem natAbs_apply (s : Sign) (i : Int) : (s.apply i).natAbs = i.natAbs := by
  cases s
  · exact Int.natAbs_neg i
  · rfl

/-- A number far below the last digit of the bound does not take the sum over it. -/
theorem Bounded.add (hk : 25 ≤ k) (hk' : k ≤ 276) (hu : Bounded (2 ^ k) u)
    (hv : Bounded (2 ^ (k - 25)) v) : Bounded (2 ^ k) (add Format.binary32 u v) := by
  have hmono : 2 ^ (k - 25) ≤ 2 ^ k := Nat.pow_le_pow_right (by decide) (by omega)
  cases hu with
  | zero s =>
      cases hv with
      | zero s' =>
          rw [UnpackedFloat.add]
          split
          · exact .zero _
          · exact .zero _
      | finite s' hm' hlow' hhigh' hv => exact .finite s' hm' hlow' hhigh' (hv.trans hmono)
  | @finite s m e hm hlow hhigh hu =>
      cases hv with
      | zero s' => exact .finite s hm hlow hhigh hu
      | @finite s' m' e' hm' hlow' hhigh' hv =>
          -- Both mantissas are brought to one exponent, where they are added as whole numbers.
          rw [← decreaseExponent_aligned m (t := min e e') (by omega) (by omega)] at hu
          rw [← decreaseExponent_aligned m' (t := min e e') (by omega) (by omega)] at hv
          rw [UnpackedFloat.add]
          refine bounded_normalize hk hk' (by omega) (by omega) ?_
          calc _ ≤ ((decreaseExponent m e (min e e')).1 + (decreaseExponent m' e' (min e e')).1) *
                2 ^ (min e e' + 149).toNat := by
                refine Nat.mul_le_mul_right _ ((Int.natAbs_add_le _ _).trans_eq ?_)
                rw [natAbs_apply, natAbs_apply]
                rfl
            _ ≤ 2 ^ k + 2 ^ (k - 25) := by
                rw [Nat.add_mul]
                exact Nat.add_le_add hu hv

/-- A finite number does not get too large by a division by one or by more. -/
theorem bounded_div {hm : 0 < m} {hm' : 0 < m'} (hdigits : m < 2 ^ 24) (hhigh : e ≤ 104)
    (hlog : m'.log2 = 23) (hone : -23 ≤ e') :
    ∃ n, Bounded n (div Format.binary32 (.finite s m e hm) (.finite s' m' e' hm')) := by
  have hlog₁ : m.log2 ≤ 23 := log2_le_of_lt hdigits
  have hfull : 2 ^ 23 ≤ m' := hlog ▸ Nat.log2_self_le hm'.ne'
  have htarget :
      Format.binary32.targetExponent (totalExponent m e - totalExponent m' e') ≤ 104 := by
    change max ((m.log2 + 1 + e - (m'.log2 + 1 + e') : Int) - 24) (-149) ≤ 104
    omega
  simp only [UnpackedFloat.div, divCore]
  generalize Format.binary32.targetExponent _ = target at *
  -- Whatever exponent the quotient gets, it is at most the largest finite number.
  obtain ⟨t, ht⟩ : ∃ t, min (e - e') target = t := ⟨_, rfl⟩
  rw [ht]
  have hceil := ceil_quotient_le (a := m <<< (e - e' - t).toNat) (d := m')
    (c := (2 ^ 24 - 1) * 2 ^ (104 - t).toNat) <| by
      calc m <<< (e - e' - t).toNat = m * 2 ^ (e - e' - t).toNat := Nat.shiftLeft_eq ..
        _ ≤ (2 ^ 24 - 1) * 2 ^ ((104 - t).toNat + 23) :=
          Nat.mul_le_mul (by omega) (Nat.pow_le_pow_right (by decide) (by omega))
        _ = (2 ^ 24 - 1) * 2 ^ (104 - t).toNat * 2 ^ 23 := by rw [Nat.pow_add, Nat.mul_assoc]
        _ ≤ (2 ^ 24 - 1) * 2 ^ (104 - t).toNat * m' := Nat.mul_le_mul_left _ hfull
  generalize accuracyOfFraction _ _ = acc at *
  generalize m <<< (e - e' - t).toNat / m' = q at *
  have hdigits' {r k : Nat} (hr : r ≤ (2 ^ 24 - 1) * 2 ^ k) : r.log2 ≤ 23 + k := by
    refine log2_le_of_lt (hr.trans_lt ?_)
    rw [Nat.add_right_comm, Nat.pow_add]
    exact Nat.mul_lt_mul_of_pos_right (by decide) (Nat.two_pow_pos k)
  have hq : q.log2 ≤ 23 + (104 - t).toNat := by
    refine hdigits' (le_trans ?_ hceil)
    rw [ceil, mantissa_ofMantissaAndAccuracy]
    exact Nat.le_add_right ..
  have hexcess : t + excess q t ≤ 104 := by
    rw [excess, place]
    omega
  have hrounded := hdigits' (rounded_le hexcess hceil)
  refine ⟨_, bounded_roundWithAccuracy ?_ hexcess ?_ le_rfl⟩
  · rw [excess, place]
    omega
  · omega

theorem toNat_one_append (M : BitVec 23) : (1#1 ++ M).toNat = 2 ^ 23 + M.toNat := by
  rw [BitVec.toNat_append, ← Nat.shiftLeft_add_eq_or_of_lt M.isLt]
  rfl

theorem unpack_normal (s : Sign) {E : BitVec 8} (M : BitVec 23) (hE : E ≠ -1#8) (hE' : E ≠ 0#8) :
    UnpackedFloat.unpack Format.binary32 (packComponents Format.binary32 s E M) =
      .finite s (2 ^ 23 + M.toNat) (E.toNat - 150) (by omega) := by
  simp only [UnpackedFloat.unpack, unpackMantissa_packComponents, unpackExponent_packComponents,
    unpackSign_packComponents, Sign.ofBitVec_toBitVec, if_neg hE, if_neg hE', toNat_one_append]
  rfl

theorem unpack_subnormal (s : Sign) (M : BitVec 23) :
    UnpackedFloat.unpack Format.binary32 (packComponents Format.binary32 s 0#8 M) =
      if h : M = 0#23 then .zero s
      else .finite s M.toNat (-149) (Nat.pos_of_ne_zero
        fun h' => h (BitVec.eq_of_toNat_eq h')) := by
  simp only [UnpackedFloat.unpack, unpackMantissa_packComponents, unpackExponent_packComponents,
    unpackSign_packComponents, Sign.ofBitVec_toBitVec, if_neg (show 0#8 ≠ -1#8 by decide), if_true]
  rfl

theorem pack_finite (s : Sign) (hm : 0 < m) (hlow : -149 ≤ e) :
    UnpackedFloat.pack Format.binary32 (.finite s m e hm) =
      if 104 < e then packedInfinity Format.binary32 s
      else if m.log2 = 23 then
        packComponents Format.binary32 s (BitVec.ofNat 8 (e + 150).toNat) (BitVec.ofNat 23 m)
      else packComponents Format.binary32 s 0#8 (BitVec.ofNat 23 m) := by
  have hexponent : (e + (Format.binary32.exponentBias : Int) +
      (Format.binary32.mantissaBitsWithoutImplicit : Int)).toNat = (e + 150).toNat := by
    change (e + (127 : Nat) + (23 : Nat)).toNat = _
    omega
  have hdigits : m.log2 + 1 = Format.binary32.mantissaBits ↔ m.log2 = 23 := by
    change m.log2 + 1 = 24 ↔ _
    omega
  have hlarge : 2 ^ Format.binary32.exponentBits ≤ (e + 150).toNat + 1 ↔ 104 < e := by
    change 2 ^ 8 ≤ _ ↔ _
    omega
  simp only [UnpackedFloat.pack, hexponent, hdigits, hlarge]

theorem repacked_normal (s : Sign) (hm : 0 < m) (hlog : m.log2 = 23) (hlow : -149 ≤ e)
    (hhigh : e ≤ 104) : repacked (.finite s m e hm) = .finite s m e hm := by
  have hexponent : (BitVec.ofNat 8 (e + 150).toNat).toNat = (e + 150).toNat := by
    rw [BitVec.toNat_ofNat]
    omega
  have hmantissa : 2 ^ 23 + (BitVec.ofNat 23 m).toNat = m := by
    have hbounds := (Nat.log2_eq_iff hm.ne').1 hlog
    rw [BitVec.toNat_ofNat]
    omega
  rw [repacked, pack_finite s hm hlow, if_neg (by omega), if_pos hlog, unpack_normal]
  · simp only [hmantissa, hexponent]
    congr 1
    omega
  · intro h
    have h' := hexponent.symm.trans (congrArg BitVec.toNat h)
    change (e + 150).toNat = 255 at h'
    omega
  · intro h
    have h' := hexponent.symm.trans (congrArg BitVec.toNat h)
    change (e + 150).toNat = 0 at h'
    omega

theorem Bounded.repacked (h : Bounded n u) (hn : 2 ^ 23 ≤ n) : Bounded n (repacked u) := by
  cases h with
  | zero s => cases s <;> exact .zero _
  | @finite s m e hm hlow hhigh hvalue =>
      by_cases hlog : m.log2 = 23
      · rw [repacked_normal s hm hlog hlow hhigh]
        exact .finite s hm hlow hhigh hvalue
      · rw [Single.repacked, pack_finite s hm hlow, if_neg (by omega), if_neg hlog,
          unpack_subnormal]
        split
        · exact .zero s
        · refine .finite s _ (by decide) (by decide) (le_trans ?_ hn)
          simpa using (BitVec.ofNat 23 m).isLt.le

theorem isFinite_repacked (h : u.isFinite = false) : (repacked u).isFinite = false := by
  cases u with
  | notANumber => rfl
  | infinity s => cases s <;> rfl
  | zero s => cases h
  | finite s m e hm => cases h

theorem AtLeastOne.repacked_round (s : Sign) (acc : Accuracy) (hlog : 23 ≤ m.log2)
    (hone : 0 ≤ m.log2 + e) :
    AtLeastOne (repacked (roundWithAccuracy Format.binary32 s m e acc)) := by
  obtain ⟨m', e', hm, hround, hlog', hlow⟩ := roundWithAccuracy_full s acc hlog (e := e) (by omega)
  rw [hround]
  by_cases hhigh : e' ≤ 104
  · rw [repacked_normal s hm hlog' (by omega) hhigh]
    exact .finite s hm hlog' (by omega)
  · rw [repacked, pack_finite s hm (by omega), if_pos (by omega)]
    cases s <;> exact .infinity _

theorem toNat_unpackExponent (b : BitVec 32) :
    (@unpackExponent Format.binary32 b).toNat = b.toNat / 2 ^ 23 % 2 ^ 8 := by
  simp [unpackExponent, BitVec.extractLsb, Nat.shiftRight_eq_div_pow]

theorem unpackMantissa_lt (b : BitVec 32) : (@unpackMantissa Format.binary32 b).toNat < 2 ^ 23 :=
  (@unpackMantissa Format.binary32 b).isLt

theorem exponentBias_eq : Format.binary32.exponentBias = 127 := rfl

/-- What bits stand for: by their exponent no finite number, zero or a small number, or one with all
24 digits. -/
theorem unpack_cases (b : BitVec 32) {E : Nat}
    (hE : (@unpackExponent Format.binary32 b).toNat = E) :
    E = 255 ∧ (UnpackedFloat.unpack Format.binary32 b).isFinite = false ∨
      (∃ s, UnpackedFloat.unpack Format.binary32 b = .zero s) ∨
      ∃ s m e, ∃ hm : 0 < m, UnpackedFloat.unpack Format.binary32 b = .finite s m e hm ∧
        (e = -149 ∧ m < 2 ^ 23 ∨ e = E - 150 ∧ m < 2 ^ 24 ∧ 0 < E ∧ E < 255) := by
  have hmantissa := unpackMantissa_lt b
  have hexponent : (@unpackExponent Format.binary32 b).toNat < 2 ^ 8 :=
    (@unpackExponent Format.binary32 b).isLt
  have hbias := exponentBias_eq
  simp only [UnpackedFloat.unpack]
  split
  · rename_i hinf
    refine Or.inl ⟨by rw [← hE, hinf]; rfl, ?_⟩
    split <;> rfl
  · rename_i hinf
    have hinf' : (@unpackExponent Format.binary32 b).toNat ≠ 255 := fun h' =>
      hinf (BitVec.eq_of_toNat_eq h')
    split
    · rename_i hzero
      split
      · exact Or.inr (Or.inl ⟨_, rfl⟩)
      · rename_i hne
        have hpos : 0 < (@unpackMantissa Format.binary32 b).toNat :=
          Nat.pos_of_ne_zero fun h' => hne (BitVec.eq_of_toNat_eq h')
        refine Or.inr (Or.inr ⟨_, _, _, hpos, rfl, Or.inl ⟨?_, hmantissa⟩⟩)
        rw [hzero]
        rfl
    · rename_i hzero
      have hpos : (@unpackExponent Format.binary32 b).toNat ≠ 0 := fun h' =>
        hzero (BitVec.eq_of_toNat_eq h')
      have hone := toNat_one_append (@unpackMantissa Format.binary32 b)
      refine Or.inr (Or.inr ⟨_, _, _, by omega, rfl, Or.inr ⟨?_, by omega, by omega, by omega⟩⟩)
      omega

theorem unpack_finite {b : BitVec 32} {hm : 0 < m}
    (h : UnpackedFloat.unpack Format.binary32 b = .finite s m e hm) : m < 2 ^ 24 ∧ e ≤ 104 := by
  obtain ⟨-, hinf⟩ | ⟨s', hzero⟩ | ⟨s', m', e', hm', hfinite, hsize⟩ := unpack_cases b rfl
  · rw [h] at hinf
    cases hinf
  · rw [h] at hzero
    cases hzero
  · rw [h] at hfinite
    cases hfinite
    omega

theorem bounded_unpack {b : BitVec 32} {c : Nat} (hc : c < 255)
    (h : b.toNat % 2 ^ 31 < (c + 1) * 2 ^ 23) :
    Bounded (2 ^ (c + 23)) (UnpackedFloat.unpack Format.binary32 b) := by
  have hexponent : (@unpackExponent Format.binary32 b).toNat ≤ c := by
    rw [toNat_unpackExponent]
    omega
  obtain ⟨hinf, -⟩ | ⟨s, hzero⟩ | ⟨s, m, e, hm, hfinite, ⟨rfl, hdigits⟩ | ⟨rfl, hdigits, hpos, -⟩⟩ :=
    unpack_cases b rfl
  · omega
  · rw [hzero]
    exact .zero s
  · rw [hfinite]
    refine .finite s hm le_rfl (by decide) ?_
    calc m * 2 ^ ((-149 : Int) + 149).toNat ≤ 2 ^ 23 * 1 := Nat.mul_le_mul_right 1 hdigits.le
      _ ≤ 2 ^ (c + 23) := by
        rw [Nat.mul_one]
        exact Nat.pow_le_pow_right (by decide) (by omega)
  · rw [hfinite]
    refine .finite s hm (by omega) (by omega) ?_
    calc m * 2 ^ _ ≤ 2 ^ 24 * 2 ^ (c - 1) :=
          Nat.mul_le_mul hdigits.le (Nat.pow_le_pow_right (by decide) (by omega))
      _ = 2 ^ (c + 23) := by
        rw [← Nat.pow_add]
        congr 1
        omega

end Warboard.Single
