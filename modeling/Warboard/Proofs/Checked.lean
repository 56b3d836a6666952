import Mathlib.Algebra.Ring.Nat
import Mathlib.Data.List.Forall2
import Warboard.Overflow

namespace Warboard.Checked

variable {α β γ δ : Type}

theorem bind_eq_ok_iff {x : Checked α} {f : α → Checked β} {b : β} :
    x >>= f = .ok b ↔ ∃ a, x = .ok a ∧ f a = .ok b := by
  cases x with
  | error e => simp [bind, Except.bind]
  | ok a => simp [bind, Except.bind]

theorem bind_eq_error_iff {x : Checked α} {f : α → Checked β} {e : Overflow} :
    x >>= f = .error e ↔ x = .error e ∨ ∃ a, x = .ok a ∧ f a = .error e := by
  cases x with
  | error e' => simp [bind, Except.bind]
  | ok a => simp [bind, Except.bind]

theorem exists_bind_eq_ok_iff {x : Checked α} {f : α → Checked β} :
    (∃ b, x >>= f = .ok b) ↔ ∃ a, x = .ok a ∧ ∃ b, f a = .ok b := by
  simp only [bind_eq_ok_iff]
  rw [exists_comm]
  simp only [exists_and_left]

theorem exists_bind_iff_of_forall {x : Checked α} {f : α → Checked β}
    (hf : ∀ a, ∃ b, f a = .ok b) : (∃ b, x >>= f = .ok b) ↔ ∃ a, x = .ok a := by
  rw [exists_bind_eq_ok_iff]
  exact exists_congr fun a => and_iff_left (hf a)

/-- What has one way to fail has a result otherwise. -/
theorem exists_ok_iff_not {x : Checked α} {o : Overflow} {P : Prop}
    (h : ∀ e, x = .error e ↔ e = o ∧ P) : (∃ a, x = .ok a) ↔ ¬ P := by
  cases x with
  | error e => simp [((h e).1 rfl).2]
  | ok a => simpa using (not_congr (h o)).1 (fun he => nomatch he)

/-- A computation of which some part of the result was evaluated has a result. -/
theorem exists_ok_of_map {x : Checked α} {f : α → β} {b : β}
    (h : (x.map f).toOption = some b) : ∃ a, x = .ok a ∧ f a = b := by
  cases x with
  | error e => cases h
  | ok a => exact ⟨a, rfl, Option.some.inj h⟩

/-- What every step of a loop keeps, the whole loop keeps. -/
theorem foldlM_keeps_of_mem {P : β → Prop} {f : β → α → Checked β} {xs : List α}
    (hf : ∀ b, ∀ a ∈ xs, ∀ c, P b → f b a = .ok c → P c) {b c : β} (hb : P b)
    (h : xs.foldlM f b = .ok c) : P c := by
  induction xs generalizing b with
  | nil => cases h; exact hb
  | cons a xs ih =>
      rw [List.foldlM_cons, bind_eq_ok_iff] at h
      obtain ⟨d, hd, h⟩ := h
      exact ih (fun b x hx => hf b x (List.mem_cons_of_mem a hx))
        (hf b a List.mem_cons_self d hb hd) h

theorem foldlM_keeps {P : β → Prop} {f : β → α → Checked β}
    (hf : ∀ b a c, P b → f b a = .ok c → P c) {xs : List α} {b c : β} (hb : P b)
    (h : xs.foldlM f b = .ok c) : P c :=
  foldlM_keeps_of_mem (fun b a _ => hf b a) hb h

/-- A loop with a result takes each of its steps, from where the steps before it lead. -/
theorem exists_step_of_foldlM {P : β → Prop} {f : β → α → Checked β}
    (hf : ∀ b a c, P b → f b a = .ok c → P c) {xs : List α} {b c : β} (hb : P b)
    (h : xs.foldlM f b = .ok c) {a : α} (ha : a ∈ xs) : ∃ d e, P d ∧ f d a = .ok e := by
  induction xs generalizing b with
  | nil => exact absurd ha List.not_mem_nil
  | cons x xs ih =>
      rw [List.foldlM_cons, bind_eq_ok_iff] at h
      obtain ⟨d, hd, h⟩ := h
      obtain rfl | ha := List.mem_cons.1 ha
      · exact ⟨b, d, hb, hd⟩
      · exact ih (hf b x d hb hd) h ha

/-- A loop fails in the first step that does. -/
theorem foldlM_eq_error_iff {f : β → α → Checked β} {xs : List α} {b : β} {e : Overflow} :
    xs.foldlM f b = .error e ↔ ∃ before a after c,
      xs = before ++ a :: after ∧ before.foldlM f b = .ok c ∧ f c a = .error e := by
  constructor
  · intro h
    induction xs generalizing b with
    | nil => cases h
    | cons a xs ih =>
        rw [List.foldlM_cons, bind_eq_error_iff] at h
        obtain h | ⟨c, hc, h⟩ := h
        · exact ⟨[], a, xs, b, rfl, rfl, h⟩
        · obtain ⟨before, a', after, d, rfl, hd, he⟩ := ih h
          exact ⟨a :: before, a', after, d, rfl, by rw [List.foldlM_cons, hc]; exact hd, he⟩
  · rintro ⟨before, a, after, c, rfl, hc, he⟩
    rw [List.foldlM_append, hc]
    change (a :: after).foldlM f c = _
    rw [List.foldlM_cons, he]
    rfl

theorem mapM_eq_ok_iff {f : α → Checked β} {xs : List α} {bs : List β} :
    xs.mapM f = .ok bs ↔ List.Forall₂ (fun a b => f a = .ok b) xs bs := by
  induction xs generalizing bs with
  | nil => cases bs <;> simp [pure, Except.pure]
  | cons a xs ih =>
      rw [List.mapM_cons, List.forall₂_cons_left_iff, bind_eq_ok_iff]
      refine exists_congr fun b => ?_
      rw [exists_and_left, bind_eq_ok_iff]
      simp only [ih, pure, Except.pure, Except.ok.injEq, eq_comm (b := bs)]

theorem mapM_eq_ok {f : α → Checked β} {g : α → β} {xs : List α}
    (h : ∀ a ∈ xs, f a = .ok (g a)) : xs.mapM f = .ok (xs.map g) := by
  rw [mapM_eq_ok_iff, List.forall₂_map_right_iff, List.forall₂_same]
  exact h

theorem getElem?_of_mapM {f : α → Checked β} {xs : List α} {bs : List β} (h : xs.mapM f = .ok bs)
    {i : Nat} {a : α} (ha : xs[i]? = some a) : ∃ b, bs[i]? = some b ∧ f a = .ok b := by
  obtain ⟨hi, rfl⟩ := List.getElem?_eq_some_iff.1 ha
  have hrel := mapM_eq_ok_iff.1 h
  have hi' : i < bs.length := hrel.length_eq ▸ hi
  exact ⟨bs[i], List.getElem?_eq_getElem hi', hrel.get hi hi'⟩

theorem exists_ok_of_mapM {f : α → Checked β} {xs : List α} {bs : List β}
    (h : xs.mapM f = .ok bs) {a : α} (ha : a ∈ xs) : ∃ b, f a = .ok b := by
  obtain ⟨i, hi⟩ := List.mem_iff_getElem?.1 ha
  obtain ⟨b, -, hb⟩ := getElem?_of_mapM h hi
  exact ⟨b, hb⟩

/-- A loop commutes with a map that each of its steps commutes with. -/
theorem foldlM_map {f : β → α → Checked β} {f' : γ → α → Checked γ} {h : β → γ}
    (hf : ∀ b a, f' (h b) a = (f b a).map h) (xs : List α) (b : β) :
    xs.foldlM f' (h b) = (xs.foldlM f b).map h := by
  induction xs generalizing b with
  | nil => rfl
  | cons a xs ih =>
      rw [List.foldlM_cons, List.foldlM_cons, hf]
      cases f b a with
      | error e => rfl
      | ok c => exact ih c

/-- Both computations overflow in the same way, or both give results that are related. -/
inductive Alike (R : α → β → Prop) : Checked α → Checked β → Prop
  | error (e : Overflow) : Alike R (.error e) (.error e)
  | ok {a : α} {b : β} (h : R a b) : Alike R (.ok a) (.ok b)

namespace Alike

variable {R : α → β → Prop} {S : γ → δ → Prop}

theorem bind {x : Checked α} {y : Checked β} {f : α → Checked γ} {g : β → Checked δ}
    (h : Alike R x y) (hf : ∀ a b, R a b → Alike S (f a) (g b)) : Alike S (x >>= f) (y >>= g) := by
  cases h with
  | error e => exact .error e
  | ok h => exact hf _ _ h

theorem imp {R' : α → β → Prop} {x : Checked α} {y : Checked β} (h : Alike R x y)
    (hR : ∀ a b, R a b → R' a b) : Alike R' x y := by
  cases h with
  | error e => exact .error e
  | ok h => exact .ok (hR _ _ h)

theorem map_eq {x : Checked α} {y : Checked β} {f : α → γ} {g : β → γ} (h : Alike R x y)
    (hf : ∀ a b, R a b → f a = g b) : x.map f = y.map g := by
  cases h with
  | error e => rfl
  | ok h => simp [Except.map, hf _ _ h]

theorem of_map_eq {x y : Checked α} {f : α → γ} (h : x.map f = y.map f) :
    Alike (fun a b => f a = f b) x y := by
  cases x with
  | error e =>
      cases y with
      | error e' => cases h; exact .error e
      | ok b => cases h
  | ok a =>
      cases y with
      | error e => cases h
      | ok b => exact .ok (Except.ok.inj h)

theorem foldlM {f : β → α → Checked β} {g : γ → α → Checked γ} {R : β → γ → Prop}
    (hf : ∀ b c a, R b c → Alike R (f b a) (g c a)) (xs : List α) {b : β} {c : γ} (h : R b c) :
    Alike R (xs.foldlM f b) (xs.foldlM g c) := by
  induction xs generalizing b c with
  | nil => exact .ok h
  | cons a xs ih => exact (hf b c a h).bind fun _ _ h' => ih h'

theorem refl {R : α → α → Prop} (hR : ∀ a, R a a) (x : Checked α) : Alike R x x := by
  cases x with
  | error e => exact .error e
  | ok a => exact .ok (hR a)

theorem bind_self {x : Checked α} {f : α → Checked γ} {g : α → Checked δ}
    (h : ∀ a, Alike S (f a) (g a)) : Alike S (x >>= f) (x >>= g) := by
  cases x with
  | error e => exact .error e
  | ok a => exact h a

theorem map_self {x : Checked α} {f : α → γ} {g : α → δ} (h : ∀ a, S (f a) (g a)) :
    Alike S (x.map f) (x.map g) := by
  cases x with
  | error e => exact .error e
  | ok a => exact .ok (h a)

end Alike

end Warboard.Checked

namespace Warboard

theorem addQuantity_eq_ok_iff {a b c : UInt32} :
    addQuantity a b = .ok c ↔ c.toNat = a.toNat + b.toNat := by
  have hc := c.toNat_lt_size
  rw [addQuantity]
  by_cases h : a.toNat + b.toNat < UInt32.size
  · have hsum : (a + b).toNat = a.toNat + b.toNat := by
      rw [UInt32.toNat_add, Nat.mod_eq_of_lt h]
    rw [if_pos h, Except.ok.injEq, ← hsum, eq_comm, UInt32.toNat_inj]
  · rw [if_neg h]
    constructor
    · intro he
      cases he
    · intro he
      omega

theorem addQuantity_eq_error_iff {a b : UInt32} {e : Overflow} :
    addQuantity a b = .error e ↔ e = .add ∧ UInt32.size ≤ a.toNat + b.toNat := by
  rw [addQuantity]
  split <;> simp_all [eq_comm]

theorem fitsAmount_toInt (a : Int64) : FitsAmount a.toInt :=
  ⟨Int64.minValue_le_toInt a, Int64.toInt_le a⟩

theorem bmod_size_of_fitsAmount {n : Int} (h : FitsAmount n) : n.bmod Int64.size = n := by
  have hmin : Int64.minValue.toInt = -2 ^ 63 := by decide
  have hmax : Int64.maxValue.toInt = 2 ^ 63 - 1 := by decide
  have hsize : Int64.size = 2 ^ 64 := rfl
  rw [FitsAmount, hmin, hmax] at h
  exact Int.bmod_eq_of_le (by omega) (by omega)

theorem toInt_add_of_fitsAmount {a b : Int64} (h : FitsAmount (a.toInt + b.toInt)) :
    (a + b).toInt = a.toInt + b.toInt := by
  exact (Int64.toInt_add a b).trans (bmod_size_of_fitsAmount h)

theorem addAmount_eq_ok_iff {a b c : Int64} :
    addAmount a b = .ok c ↔ c.toInt = a.toInt + b.toInt := by
  rw [addAmount]
  by_cases h : FitsAmount (a.toInt + b.toInt)
  · rw [if_pos h, Except.ok.injEq, ← toInt_add_of_fitsAmount h, eq_comm, Int64.toInt_inj]
  · rw [if_neg h]
    constructor
    · intro he
      cases he
    · intro he
      exact absurd (he ▸ fitsAmount_toInt c) h

theorem addAmount_eq_error_iff {a b : Int64} {e : Overflow} :
    addAmount a b = .error e ↔ e = .add ∧ ¬ FitsAmount (a.toInt + b.toInt) := by
  rw [addAmount]
  split <;> simp_all [eq_comm]

theorem toInt_mul_of_fitsAmount {a b : Int64} (h : FitsAmount (a.toInt * b.toInt)) :
    (a * b).toInt = a.toInt * b.toInt := by
  exact (Int64.toInt_mul a b).trans (bmod_size_of_fitsAmount h)

theorem multiplyAmount_eq_ok_iff {a b c : Int64} :
    multiplyAmount a b = .ok c ↔ c.toInt = a.toInt * b.toInt := by
  rw [multiplyAmount]
  by_cases h : FitsAmount (a.toInt * b.toInt)
  · rw [if_pos h, Except.ok.injEq, ← toInt_mul_of_fitsAmount h, eq_comm, Int64.toInt_inj]
  · rw [if_neg h]
    constructor
    · intro he
      cases he
    · intro he
      exact absurd (he ▸ fitsAmount_toInt c) h

theorem exists_toInt_eq_iff {n : Int} : (∃ a : Int64, a.toInt = n) ↔ FitsAmount n := by
  constructor
  · rintro ⟨a, rfl⟩
    exact fitsAmount_toInt a
  · intro h
    exact ⟨Int64.ofInt n, Int64.toInt_ofInt.trans (bmod_size_of_fitsAmount h)⟩

theorem toInt_toInt64 (n : UInt32) : n.toUInt64.toInt64.toInt = n.toNat := by
  have hn := n.toNat_lt_size
  change n.toUInt64.toBitVec.toInt = n.toNat
  rw [BitVec.toInt_eq_toNat_of_lt, UInt64.toNat_toBitVec, UInt32.toNat_toUInt64]
  rw [UInt64.toNat_toBitVec, UInt32.toNat_toUInt64]
  simp only [UInt32.size] at hn
  omega

/-- A loop that adds to a count with each item fails only if the items of a kind add too much. -/
theorem Checked.foldlM_weigh_eq_error_iff {σ α κ : Type} [DecidableEq κ]
    {step : σ → α → Checked σ} (P : σ → Prop) (count : σ → κ → Nat) (kind : α → κ)
    (weight : α → Nat) (hlt : ∀ s k, count s k < UInt32.size)
    (hfull : ∀ s a e, P s →
      (step s a = .error e ↔ e = .add ∧ UInt32.size ≤ count s (kind a) + weight a))
    (hnext : ∀ s a s', P s → step s a = .ok s' →
      P s' ∧ ∀ k, count s' k = count s k + if kind a = k then weight a else 0)
    {s : σ} (hs : P s) (xs : List α) (e : Overflow) :
    xs.foldlM step s = .error e ↔ e = .add ∧
      ∃ k, UInt32.size ≤ count s k + (xs.map fun a => if kind a = k then weight a else 0).sum := by
  induction xs generalizing s with
  | nil =>
      constructor
      · intro h
        cases h
      · rintro ⟨-, k, hk⟩
        exact absurd hk (Nat.not_le.2 (hlt s k))
  | cons a xs ih =>
      simp only [List.foldlM_cons, bind_eq_error_iff, hfull s a e hs, List.map_cons, List.sum_cons,
        ← Nat.add_assoc]
      cases hstep : step s a with
      | error e' =>
          obtain ⟨-, hover⟩ := (hfull s a e' hs).1 hstep
          constructor
          · rintro (⟨rfl, -⟩ | ⟨c, hc, -⟩)
            · refine ⟨rfl, kind a, ?_⟩
              rw [if_pos rfl]
              omega
            · cases hc
          · rintro ⟨rfl, -⟩
            exact Or.inl ⟨rfl, hover⟩
      | ok s' =>
          obtain ⟨hs', hcount⟩ := hnext s a s' hs hstep
          constructor
          · rintro (hover | ⟨c, hc, h⟩)
            · cases hstep.symm.trans ((hfull s a e hs).2 hover)
            · cases hc
              simpa only [hcount] using (ih hs').1 h
          · intro h
            simp only [← hcount] at h
            exact Or.inr ⟨s', rfl, (ih hs').2 h⟩

end Warboard
