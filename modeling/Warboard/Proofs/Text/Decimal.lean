import Mathlib.Tactic.IntervalCases
import Warboard.Text.Decimal
import Warboard.Text.Word

namespace Warboard.Text

theorem digitChar_isDigit {n : Nat} (h : n < 10) : (digitChar n).isDigit = true := by
  interval_cases n <;> rfl

theorem digitValue_digitChar {n : Nat} (h : n < 10) : digitValue (digitChar n) = n := by
  interval_cases n <;> rfl

theorem digits_ne_nil (n : Nat) : digits n ≠ [] := by
  rw [digits]
  split <;> simp

theorem isDigit_of_mem_digits {n : Nat} : ∀ c ∈ digits n, c.isDigit = true := by
  induction n using digits.induct with
  | case1 n h =>
      rw [digits, if_pos h]
      simpa using digitChar_isDigit h
  | case2 n h ih =>
      rw [digits, if_neg h]
      intro c hc
      rcases List.mem_append.mp hc with hc | hc
      · exact ih c hc
      · obtain rfl := List.mem_singleton.mp hc
        exact digitChar_isDigit (Nat.mod_lt n (by decide))

theorem valueOf_digits (n : Nat) : valueOf (digits n) = n := by
  induction n using digits.induct with
  | case1 n h => simp [digits, h, valueOf, digitValue_digitChar h]
  | case2 n h ih =>
      have hlast := digitValue_digitChar (Nat.mod_lt n (by decide : 10 > 0))
      rw [valueOf] at ih
      rw [digits, if_neg h, valueOf, List.foldl_append, ih]
      simp only [List.foldl_cons, List.foldl_nil, hlast]
      exact Nat.div_add_mod' n 10

theorem digits_injective : Function.Injective digits := fun m n h => by
  rw [← valueOf_digits m, h, valueOf_digits]

/-- A number ends where another character follows, so it can be read off a text. -/
theorem digits_append_cons_inj {m n : Nat} {c d : Char} {u v : Text} (hc : c.isDigit = false)
    (hd : d.isDigit = false) (h : digits m ++ c :: u = digits n ++ d :: v) : m = n ∧ c = d := by
  have htake (k : Nat) {e : Char} (w : Text) (he : e.isDigit = false) :
      (digits k ++ e :: w).takeWhile Char.isDigit = digits k := by
    rw [List.takeWhile_append_of_pos isDigit_of_mem_digits, List.takeWhile_cons_of_neg (by simp [he]),
      List.append_nil]
  have hmn : digits m = digits n := by rw [← htake m u hc, h, htake n v hd]
  obtain rfl := digits_injective hmn
  exact ⟨rfl, by simpa using (List.cons.inj (List.append_cancel_left h)).1⟩

theorem readNat_digits (n : Nat) : readNat (digits n) = some n := by
  rw [readNat, if_pos ⟨digits_ne_nil n, List.all_eq_true.mpr isDigit_of_mem_digits⟩,
    valueOf_digits]

theorem digits_head_ne_minus (n : Nat) (t : Text) : digits n ≠ '-' :: t := by
  intro h
  exact absurd (isDigit_of_mem_digits '-' (h ▸ List.mem_cons_self)) (by decide)

theorem digits_head_ne_zero {n : Nat} (h : 0 < n) (t : Text) : digits n ≠ '0' :: t := by
  induction n using digits.induct generalizing t with
  | case1 n hn =>
      rw [digits, if_pos hn]
      intro he
      have hvalue := digitValue_digitChar hn
      rw [(List.cons.inj he).1] at hvalue
      exact absurd hvalue (Nat.ne_of_lt h)
  | case2 n hn ih =>
      rw [digits, if_neg hn]
      obtain ⟨c, ds, hd⟩ := List.exists_cons_of_ne_nil (digits_ne_nil (n / 10))
      have hne := ih (by omega) ds
      rw [hd] at hne ⊢
      intro he
      exact hne (by rw [(List.cons.inj he).1])

theorem readInt_signedDigits (n : Int) : readInt (signedDigits n) = some n := by
  rw [signedDigits]
  split
  · rw [readInt, readNat_digits]
    simp only [Option.bind_eq_bind, Option.bind_some, Option.pure_def, Option.map_some,
      Option.some.injEq]
    omega
  · rw [readInt, readNat_digits]
    · simp only [Option.map_some, Option.some.injEq, Int.ofNat_eq_natCast]
      omega
    · exact digits_head_ne_minus _

theorem readInt64_signedDigits (n : Int64) : readInt64 (signedDigits n.toInt) = some n := by
  have hlow : Int64.minValue.toInt ≤ n.toInt := n.minValue_le_toInt
  have hhigh : n.toInt ≤ Int64.maxValue.toInt := n.toInt_le
  simp only [readInt64, readInt_signedDigits, Option.bind_eq_bind, Option.bind_some,
    if_pos (And.intro hlow hhigh), Int64.ofInt_toInt]

theorem isWordDigit_of_isDigit {c : Char} (h : c.isDigit = true) : isWordDigit c = true := by
  have hc : c.val ≤ 57 := by simp_all [Char.isDigit]
  have hascii : c.val < 128 := UInt32.lt_of_le_of_lt hc (by decide)
  have hold : c.toNat < 0x88F := Nat.lt_of_le_of_lt (UInt32.le_iff_toNat_le.mp hc) (by decide)
  simp [isWordDigit, isDigit, h, hascii, isRecent, recentRanges, within, hold]

end Warboard.Text
