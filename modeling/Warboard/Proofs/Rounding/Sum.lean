import Warboard.Proofs.Rounding.Packing

namespace Warboard.Single

open Float.Model (Format UnpackedFloat)
open Float.Model.UnpackedFloat

/-- A finite number of magnitude at most `n * 2 ^ (-149)`. -/
def AtMost (n : Nat) (x : Float32) : Prop := Bounded n x.toModel.unpack

variable {u v : UnpackedFloat} {x y : Float32} {m n k : Nat} {values : List Float32}

theorem isFinite_eq (x : Float32) : x.isFinite = x.toModel.unpack.isFinite := rfl

theorem unpack_add (x y : Float32) :
    (x + y).toModel.unpack = repacked (add Format.binary32 x.toModel.unpack y.toModel.unpack) := rfl

theorem unpack_mul (x y : Float32) :
    (x * y).toModel.unpack = repacked (mul Format.binary32 x.toModel.unpack y.toModel.unpack) := rfl

theorem unpack_div (x y : Float32) :
    (x / y).toModel.unpack = repacked (div Format.binary32 x.toModel.unpack y.toModel.unpack) := rfl

theorem AtMost.mono (h : AtMost m x) (hn : m ≤ n) : AtMost n x := Bounded.mono h hn

theorem AtMost.isFinite (h : AtMost n x) : x.isFinite = true := Bounded.isFinite h

theorem AtMost.add (hk : 25 ≤ k) (hk' : k ≤ 276) (hx : AtMost (2 ^ k) x)
    (hy : AtMost (2 ^ (k - 25)) y) : AtMost (2 ^ k) (x + y) := by
  rw [AtMost, unpack_add]
  exact (Bounded.add hk hk' hx hy).repacked (Nat.pow_le_pow_right (by decide) (by omega))

/-- However many numbers there are, they do not add up to infinity if each is far from it. -/
theorem AtMost.foldl_add (hk : 25 ≤ k) (hk' : k ≤ 276) (hx : AtMost (2 ^ k) x)
    (h : ∀ y ∈ values, AtMost (2 ^ (k - 25)) y) : AtMost (2 ^ k) (values.foldl (· + ·) x) := by
  induction values generalizing x with
  | nil => exact hx
  | cons y values ih =>
      exact ih (hx.add hk hk' (h y List.mem_cons_self)) fun z hz => h z (List.mem_cons_of_mem y hz)

theorem isFinite_add_eq_false (h : u.isFinite = false ∨ v.isFinite = false) :
    (UnpackedFloat.add Format.binary32 u v).isFinite = false := by
  cases u <;> cases v <;>
    simp only [UnpackedFloat.isFinite, Bool.true_eq_false, or_self, or_true, true_or] at h <;>
    simp only [UnpackedFloat.add, UnpackedFloat.isFinite]
  rename_i s s'
  cases s <;> cases s' <;> rfl

theorem isFinite_of_add (h : (x + y).isFinite = true) : x.isFinite = true ∧ y.isFinite = true := by
  by_contra hxy
  have hor : x.isFinite = false ∨ y.isFinite = false := by
    rwa [not_and_or, Bool.not_eq_true, Bool.not_eq_true] at hxy
  rw [isFinite_eq, unpack_add, isFinite_repacked (isFinite_add_eq_false hor)] at h
  cases h

theorem isFinite_of_foldl_add (h : (values.foldl (· + ·) x).isFinite = true) :
    x.isFinite = true ∧ ∀ y ∈ values, y.isFinite = true := by
  induction values generalizing x with
  | nil => exact ⟨h, fun _ hy => absurd hy List.not_mem_nil⟩
  | cons y values ih =>
      obtain ⟨hsum, hrest⟩ := ih h
      obtain ⟨hx, hy⟩ := isFinite_of_add hsum
      exact ⟨hx, List.forall_mem_cons.2 ⟨hy, hrest⟩⟩

theorem ofNat_eq (n : Nat) : Float32.ofNat n =
    if n < 2 ^ 23 then n.toUInt64.toFloat32 * Float32.ofBits 0x3F800000
    else .ofModel (.ofScientific n 0) := by
  -- Small numbers take the short way through the integer types.
  change Float32.ofScientific n false 0 = _
  rw [Float32.ofScientific]
  by_cases hn : n < 2 ^ 23
  · rw [dif_pos ⟨hn, by decide⟩, if_pos hn, if_neg (by decide)]
    rfl
  · rw [dif_neg fun h => hn h.1, if_neg hn]
    rfl

theorem unpack_one : (Float32.ofBits 0x3F800000).toModel.unpack =
    .finite .positive (2 ^ 23) (-23) (by decide) := rfl

theorem AtLeastOne.mul_one (h : AtLeastOne u) : AtLeastOne (repacked
    (mul Format.binary32 u (.finite .positive (2 ^ 23) (-23) (by decide)))) := by
  cases h with
  | infinity s => cases s <;> exact .infinity _
  | @finite s m e hm hlog hlow =>
      have hlog' : (m * 2 ^ 23).log2 = 46 := by
        have hbounds := (Nat.log2_eq_iff hm.ne').1 hlog
        exact (Nat.log2_eq_iff (by omega)).2 ⟨by omega, by omega⟩
      exact .repacked_round _ _ (by omega) (by omega)

theorem place_zero (n : Nat) : place n 0 = n.log2 - 23 := by
  rw [place]
  omega

theorem atLeastOne_whole (hn : 0 < n) :
    AtLeastOne (repacked (UnpackedFloat.ofNat Format.binary32 n)) := by
  have hcompare : compare (n : Int) 0 = .gt := Int.compare_eq_gt.2 (by omega)
  rw [UnpackedFloat.ofNat, UnpackedFloat.ofInt, UnpackedFloat.normalize, hcompare]
  dsimp only
  rw [Int.toNat_natCast, UnpackedFloat.round, targetExponent_eq]
  have hlog := log2_shiftLeft hn (0 - place n 0).toNat
  have hplace := place_zero n
  refine .repacked_round _ _ ?_ ?_
  · rw [hlog]
    omega
  · rw [hlog]
    omega

theorem atLeastOne_ofScientific (hn : 0 < n) :
    AtLeastOne (repacked (UnpackedFloat.ofScientific Format.binary32 n 0)) := by
  have hsmall : ¬(0 : Int) < -(2 ^ Format.binary32.exponentBits + (n.log2 : Int)) := by
    change ¬(0 : Int) < -(256 + (n.log2 : Int))
    omega
  rw [UnpackedFloat.ofScientific, dif_neg hn.ne', if_neg (by decide), if_neg hsmall, if_pos le_rfl,
    UnpackedFloat.mul]
  have hlog : (n <<< 24 * 10 ^ (0 : Int).toNat).log2 = n.log2 + 24 := by
    rw [← log2_shiftLeft hn]
    exact congrArg Nat.log2 (Nat.mul_one _)
  refine .repacked_round _ _ ?_ ?_
  · change 23 ≤ (n <<< 24 * 10 ^ (0 : Int).toNat).log2
    omega
  · change 0 ≤ ((n <<< 24 * 10 ^ (0 : Int).toNat).log2 : Int) + (-24 + 0)
    omega

theorem atLeastOne_ofNat (hn : 0 < n) : AtLeastOne (Float32.ofNat n).toModel.unpack := by
  rw [ofNat_eq]
  split
  · rename_i hsmall
    have hcast : n.toUInt64.toFloat32.toModel.unpack =
        repacked (UnpackedFloat.ofNat Format.binary32 n.toUInt64.toNat) := rfl
    have hsame : n.toUInt64.toNat = n := Nat.mod_eq_of_lt (by omega)
    rw [unpack_mul, unpack_one, hcast, hsame]
    exact (atLeastOne_whole hn).mul_one
  · exact atLeastOne_ofScientific hn

/-- Division by a number of things makes nothing infinite, and nothing finite. -/
theorem isFinite_div_ofNat (hn : 0 < n) (x : Float32) :
    (x / Float32.ofNat n).isFinite = x.isFinite := by
  rw [isFinite_eq, isFinite_eq, unpack_div]
  have hone := atLeastOne_ofNat hn
  generalize (Float32.ofNat n).toModel.unpack = v at *
  cases hx : x.toModel.unpack with
  | notANumber => exact isFinite_repacked rfl
  | infinity s =>
      refine isFinite_repacked ?_
      cases hone <;> rfl
  | zero s =>
      refine (Bounded.repacked (n := 2 ^ 23) ?_ le_rfl).isFinite
      cases hone <;> exact .zero _
  | finite s m e hm =>
      obtain ⟨hdigits, hhigh⟩ := unpack_finite hx
      obtain ⟨c, hc⟩ : ∃ c, Bounded c (div Format.binary32 (.finite s m e hm) v) := by
        cases hone with
        | infinity s' => exact ⟨0, .zero _⟩
        | finite s' hm' hlog hlow => exact bounded_div hdigits hhigh hlog hlow
      exact ((hc.mono (Nat.le_add_right c _)).repacked (Nat.le_add_left ..)).isFinite

theorem atMost_ofBits {w : UInt32} {c : Nat} (hc : c < 255)
    (h : w.toNat % 2 ^ 31 < (c + 1) * 2 ^ 23) : AtMost (2 ^ (c + 23)) (Float32.ofBits w) :=
  (bounded_unpack (b := w.toBitVec) hc h).repacked (Nat.pow_le_pow_right (by decide) (by omega))

theorem roundDiv_le_succ (n d : Nat) : roundDiv n d ≤ n / d + 1 := by
  simp only [roundDiv]
  split <;> omega

theorem units_le (n : Nat) : units n 0 ≤ 2 ^ 24 := by
  rw [units, place_zero, Int.sub_zero]
  have hlog : n < 2 ^ (n.log2 + 1) := Nat.lt_log2_self
  split
  · rw [Nat.shiftLeft_eq]
    calc n * 2 ^ (-((n.log2 : Int) - 23)).toNat
        ≤ 2 ^ (n.log2 + 1) * 2 ^ (-((n.log2 : Int) - 23)).toNat := Nat.mul_le_mul_right _ hlog.le
      _ = 2 ^ 24 := by
        rw [← Nat.pow_add]
        congr 1
        omega
  · refine (roundDiv_le_succ _ _).trans (Nat.succ_le_of_lt ?_)
    rw [Nat.shiftLeft_eq, Nat.one_mul, Nat.div_lt_iff_lt_mul (Nat.two_pow_pos _), ← Nat.pow_add]
    refine hlog.trans_eq ?_
    congr 1
    omega

theorem bits_le (hn : n < 2 ^ 33) : bits n 0 ≤ 160 * 2 ^ 23 := by
  have hlog : n.log2 ≤ 32 := log2_le_of_lt hn
  have hunits := units_le n
  rw [bits]
  split
  · exact Nat.zero_le _
  · rw [place_zero]
    refine (Nat.min_le_left ..).trans ?_
    omega

theorem atMost_ofInt {i : Int} (hi : i.natAbs < 2 ^ 33) : AtMost (2 ^ 183) (ofInt i) := by
  have hbits := bits_le hi
  refine atMost_ofBits (c := 160) (by decide) ?_
  have hsign : (if decide (i < 0) = true then 0x80000000 else 0) % 2 ^ 31 = 0 := by
    split <;> rfl
  rw [UInt32.toNat_ofNat']
  omega

end Warboard.Single
