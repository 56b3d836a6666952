import Mathlib.Tactic.IntervalCases
import Warboard.Text.Octets

namespace Warboard.Text

theorem decodeFrom_cons (state : OctetState) (b : UInt8) (bs : List UInt8) :
    decodeFrom state (b :: bs) = (stepOctet state b).2 ++ decodeFrom (stepOctet state b).1 bs := by
  cases state <;> rfl

theorem lead_one {v : Nat} (h : v < 0x80) :
    stepOctet .boundary (UInt8.ofNat v) = (.boundary, [some (Char.ofNat v)]) := by
  interval_cases v <;> rfl

theorem lead_two {k : Nat} (hlo : 2 ≤ k) (hhi : k < 32) :
    stepOctet .boundary (UInt8.ofNat (k + 0xC0)) = (.within k 1 0x80 0xBF, []) := by
  interval_cases k <;> rfl

theorem lead_three {k : Nat} (h : k < 16) : stepOctet .boundary (UInt8.ofNat (k + 0xE0)) =
    (.within k 2 (if k = 0 then 0xA0 else 0x80) (if k = 13 then 0x9F else 0xBF), []) := by
  interval_cases k <;> rfl

theorem lead_four {k : Nat} (h : k < 5) : stepOctet .boundary (UInt8.ofNat (k + 0xF0)) =
    (.within k 3 (if k = 0 then 0x90 else 0x80) (if k = 4 then 0x8F else 0xBF), []) := by
  interval_cases k <;> rfl

/-- A trail octet within the range adds its six bits. -/
theorem trail {k : Nat} (hk : k < 64) {lo hi : UInt8} (hlo : lo.toNat ≤ k + 0x80)
    (hhi : k + 0x80 ≤ hi.toNat) (value left : Nat) :
    stepOctet (.within value left lo hi) (UInt8.ofNat (k + 0x80)) =
      if left ≤ 1 then (.boundary, [some (Char.ofNat (value * 64 + k))])
      else (.within (value * 64 + k) (left - 1) 0x80 0xBF, []) := by
  have htail : (UInt8.ofNat (k + 0x80)).toNat = k + 0x80 := by
    rw [UInt8.toNat_ofNat']
    omega
  have hrange : (lo ≤ UInt8.ofNat (k + 0x80) && UInt8.ofNat (k + 0x80) ≤ hi) = true := by
    simp only [Bool.and_eq_true, decide_eq_true_eq, UInt8.le_iff_toNat_le, htail]
    exact ⟨hlo, hhi⟩
  rw [stepOctet, if_pos hrange, htail, Nat.add_sub_cancel]

theorem trail_more {k : Nat} (hk : k < 64) {lo hi : UInt8} (hlo : lo.toNat ≤ k + 0x80)
    (hhi : k + 0x80 ≤ hi.toNat) (value left : Nat) :
    stepOctet (.within value (left + 2) lo hi) (UInt8.ofNat (k + 0x80)) =
      (.within (value * 64 + k) (left + 1) 0x80 0xBF, []) := by
  rw [trail hk hlo hhi, if_neg (by omega)]
  rfl

theorem trail_more_any {k : Nat} (hk : k < 64) (value left : Nat) :
    stepOctet (.within value (left + 2) 0x80 0xBF) (UInt8.ofNat (k + 0x80)) =
      (.within (value * 64 + k) (left + 1) 0x80 0xBF, []) := by
  have hlo : (0x80 : UInt8).toNat = 0x80 := rfl
  have hhi : (0xBF : UInt8).toNat = 0xBF := rfl
  exact trail_more hk (by omega) (by omega) value left

theorem trail_last {k : Nat} (hk : k < 64) (value : Nat) :
    stepOctet (.within value 1 0x80 0xBF) (UInt8.ofNat (k + 0x80)) =
      (.boundary, [some (Char.ofNat (value * 64 + k))]) := by
  have hlo : (0x80 : UInt8).toNat = 0x80 := rfl
  have hhi : (0xBF : UInt8).toNat = 0xBF := rfl
  rw [trail hk (by omega) (by omega), if_pos (le_refl 1)]

variable {v : Nat} (bs : List UInt8)

theorem decode_two (hlo : 0x80 ≤ v) (hhi : v < 0x800) :
    decodeFrom .boundary
        (UInt8.ofNat (v / 64 % 32 + 0xC0) :: UInt8.ofNat (v % 64 + 0x80) :: bs) =
      some (Char.ofNat v) :: decodeFrom .boundary bs := by
  have hlead := lead_two (k := v / 64 % 32) (by omega) (by omega)
  have hv : v / 64 % 32 * 64 + v % 64 = v := by omega
  rw [decodeFrom_cons, hlead, decodeFrom_cons, trail_last (Nat.mod_lt v (by decide)), hv]
  rfl

theorem decode_three (hlo : 0x800 ≤ v) (hhi : v < 0x10000) (hvalid : v < 0xD800 ∨ 0xDFFF < v) :
    decodeFrom .boundary
        (UInt8.ofNat (v / 4096 % 16 + 0xE0) :: UInt8.ofNat (v / 64 % 64 + 0x80) ::
          UInt8.ofNat (v % 64 + 0x80) :: bs) =
      some (Char.ofNat v) :: decodeFrom .boundary bs := by
  have hlead := lead_three (k := v / 4096 % 16) (by omega)
  have hlow : (if v / 4096 % 16 = 0 then (0xA0 : UInt8) else 0x80).toNat ≤ v / 64 % 64 + 0x80 := by
    split
    · change 0xA0 ≤ _
      omega
    · change 0x80 ≤ _
      omega
  have hhigh : v / 64 % 64 + 0x80 ≤ (if v / 4096 % 16 = 13 then (0x9F : UInt8) else 0xBF).toNat := by
    split
    · change _ ≤ 0x9F
      omega
    · change _ ≤ 0xBF
      omega
  have hv : (v / 4096 % 16 * 64 + v / 64 % 64) * 64 + v % 64 = v := by omega
  rw [decodeFrom_cons, hlead, decodeFrom_cons, trail_more (Nat.mod_lt _ (by decide)) hlow hhigh,
    decodeFrom_cons, trail_last (Nat.mod_lt v (by decide)), hv]
  rfl

theorem decode_four (hlo : 0x10000 ≤ v) (hhi : v < 0x110000) :
    decodeFrom .boundary
        (UInt8.ofNat (v / 262144 % 8 + 0xF0) :: UInt8.ofNat (v / 4096 % 64 + 0x80) ::
          UInt8.ofNat (v / 64 % 64 + 0x80) :: UInt8.ofNat (v % 64 + 0x80) :: bs) =
      some (Char.ofNat v) :: decodeFrom .boundary bs := by
  have hlead := lead_four (k := v / 262144 % 8) (by omega)
  have hlow : (if v / 262144 % 8 = 0 then (0x90 : UInt8) else 0x80).toNat ≤
      v / 4096 % 64 + 0x80 := by
    split
    · change 0x90 ≤ _
      omega
    · change 0x80 ≤ _
      omega
  have hhigh : v / 4096 % 64 + 0x80 ≤
      (if v / 262144 % 8 = 4 then (0x8F : UInt8) else 0xBF).toNat := by
    split
    · change _ ≤ 0x8F
      omega
    · change _ ≤ 0xBF
      omega
  have hv : ((v / 262144 % 8 * 64 + v / 4096 % 64) * 64 + v / 64 % 64) * 64 + v % 64 = v := by
    omega
  rw [decodeFrom_cons, hlead, decodeFrom_cons, trail_more (Nat.mod_lt _ (by decide)) hlow hhigh,
    decodeFrom_cons, trail_more_any (Nat.mod_lt _ (by decide)), decodeFrom_cons,
    trail_last (Nat.mod_lt v (by decide)), hv]
  rfl

/-- What a character is written as reads back as the character, whatever follows. -/
theorem decodeFrom_utf8EncodeChar (c : Char) :
    decodeFrom .boundary (String.utf8EncodeChar c ++ bs) = some c :: decodeFrom .boundary bs := by
  have hvalid : c.val.toNat < 0xD800 ∨ 0xDFFF < c.val.toNat ∧ c.val.toNat < 0x110000 := c.valid
  have hc : Char.ofNat c.val.toNat = c := Char.ofNat_toNat c
  rw [String.utf8EncodeChar]
  generalize c.val.toNat = v at hvalid hc ⊢
  subst hc
  by_cases hone : v ≤ 0x7F
  · rw [if_pos hone, List.singleton_append, decodeFrom_cons, lead_one (by omega)]
    rfl
  rw [if_neg hone]
  by_cases htwo : v ≤ 0x7FF
  · rw [if_pos htwo]
    exact decode_two bs (by omega) (by omega)
  rw [if_neg htwo]
  by_cases hthree : v ≤ 0xFFFF
  · rw [if_pos hthree]
    exact decode_three bs (by omega) (by omega) (by omega)
  · rw [if_neg hthree]
    exact decode_four bs (by omega) (by omega)

theorem decodeOctets_toOctets (t : Text) : decodeOctets (toOctets t) = t.map some := by
  rw [decodeOctets, toOctets]
  induction t with
  | nil => rfl
  | cons c t ih => rw [List.flatMap_cons, decodeFrom_utf8EncodeChar, ih, List.map_cons]

theorem ofOctets_toOctets (t : Text) : ofOctets (toOctets t) = some t := by
  rw [ofOctets, decodeOctets_toOctets]
  induction t with
  | nil => rfl
  | cons c t ih =>
      rw [List.map_cons, List.mapM_cons, ih]
      rfl

theorem ofNat_eq_newline_iff {n : Nat} (hn : n < 0x100) : UInt8.ofNat n = 10 ↔ n = 10 := by
  constructor
  · intro h
    have h' : n % 2 ^ 8 = 10 := by rw [← UInt8.toNat_ofNat', h]; rfl
    omega
  · rintro rfl
    rfl

/-- Only a newline is written with the octet of a newline. -/
theorem count_newline_utf8EncodeChar (c : Char) :
    (String.utf8EncodeChar c).count 10 = if c = '\n' then 1 else 0 := by
  have hvalid : c.val.toNat < 0xD800 ∨ 0xDFFF < c.val.toNat ∧ c.val.toNat < 0x110000 := c.valid
  have hc : c = '\n' ↔ c.val.toNat = 10 := by
    rw [← Char.toNat_inj]
    rfl
  have hhigh {n : Nat} (hlo : 0x80 ≤ n) (hhi : n < 0x100) : ¬ 10 = UInt8.ofNat n := fun h => by
    have := (ofNat_eq_newline_iff hhi).1 h.symm
    omega
  simp only [hc, String.utf8EncodeChar]
  generalize c.val.toNat = v at hvalid ⊢
  by_cases hone : v ≤ 0x7F
  · simp [hone, List.count_singleton, ofNat_eq_newline_iff (n := v) (by omega)]
  rw [if_neg hone, if_neg (by omega : v ≠ 10), List.count_eq_zero]
  split
  · simp only [List.mem_cons, List.not_mem_nil, or_false, not_or]
    exact ⟨hhigh (by omega) (by omega), hhigh (by omega) (by omega)⟩
  · split <;> simp only [List.mem_cons, List.not_mem_nil, or_false, not_or]
    · exact ⟨hhigh (by omega) (by omega), hhigh (by omega) (by omega), hhigh (by omega) (by omega)⟩
    · exact ⟨hhigh (by omega) (by omega), hhigh (by omega) (by omega), hhigh (by omega) (by omega),
        hhigh (by omega) (by omega)⟩

theorem count_newline_toOctets (t : Text) : (toOctets t).count 10 = t.count '\n' := by
  rw [toOctets]
  induction t with
  | nil => rfl
  | cons c t ih =>
      rw [List.flatMap_cons, List.count_append, ih, count_newline_utf8EncodeChar, List.count_cons,
        Nat.add_comm]
      simp

end Warboard.Text
