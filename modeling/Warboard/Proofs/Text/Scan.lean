import Mathlib.Data.List.TakeWhile
import Warboard.Text.Scan

namespace Warboard.Text

variable {α : Type}

/-- What holds of each character of a text is decided along the text, not over all characters. -/
instance decidableForallMem (p : Char → Prop) [DecidablePred p] (t : Text) :
    Decidable (∀ c ∈ t, p c) :=
  List.decidableBAll p t

/-- The same for a character that need not be there. -/
instance decidableForallMemOption (p : Char → Prop) [DecidablePred p] (o : Option Char) :
    Decidable (∀ c ∈ o, p c) :=
  decidable_of_iff (∀ c ∈ o.toList, p c) (by simp)

theorem rest?_eq_some_iff {w t rest : Text} : rest? w t = some rest ↔ t = w ++ rest := by
  fun_induction rest? w t with
  | case1 t => simp [eq_comm]
  | case2 => simp
  | case3 c w t ih => simp [ih]
  | case4 c w d t h => simp [Ne.symm h]

theorem after_eq_some_iff {w : String} {t rest : Text} :
    after w t = some rest ↔ t = w.toList ++ rest :=
  rest?_eq_some_iff

theorem after_append (w : String) (rest : Text) : after w (w.toList ++ rest) = some rest :=
  after_eq_some_iff.mpr rfl

theorem startsWith_iff {w : String} {t : Text} : startsWith w t = true ↔ w.toList <+: t := by
  simp only [startsWith, Option.isSome_iff_exists, after_eq_some_iff,
    List.prefix_iff_exists_eq_append]

theorem after_eq_none {w : String} {s t : Text} (h : ¬ w.toList <:+: t) (hs : s <:+ t) :
    after w s = none := by
  rw [Option.eq_none_iff_forall_ne_some]
  intro rest hrest
  rw [after_eq_some_iff] at hrest
  exact h (List.infix_iff_prefix_suffix.mpr ⟨s, hrest ▸ List.prefix_append _ _, hs⟩)

/-- A search without a result fails at every place of the text. -/
theorem firstMatch_eq_none_iff {p : Text → Option α} {t : Text} :
    firstMatch p t = none ↔ ∀ s, s <:+ t → p s = none := by
  induction t with
  | nil => simp [firstMatch]
  | cons c t ih =>
      simp only [firstMatch, List.suffix_cons_iff, or_imp, forall_and, forall_eq]
      cases hp : p (c :: t) <;> simp [ih]

theorem from?_eq_none_iff {w : String} {t : Text} : from? w t = none ↔ ¬ w.toList <:+: t := by
  rw [from?, firstMatch_eq_none_iff, List.infix_iff_prefix_suffix]
  constructor
  · rintro h ⟨s, hw, hs⟩
    simpa [startsWith_iff.mpr hw] using h s hs
  · intro h s hs
    by_cases hw : startsWith w s = true
    · exact absurd ⟨s, startsWith_iff.mp hw, hs⟩ h
    · simp [hw]

theorem mentions_iff {w : String} {t : Text} : mentions w t = true ↔ w.toList <:+: t := by
  rw [mentions, Option.isSome_iff_ne_none, Ne, from?_eq_none_iff, Classical.not_not]

theorem cutAt_append_self (w : String) (rest : Text) :
    cutAt w (w.toList ++ rest) = some ([], rest) := by
  have h := after_append w rest
  cases ht : w.toList ++ rest with
  | nil => simp_all [cutAt]
  | cons c t => simp_all [cutAt]

/-- The search passes over a stretch that the first character of the pattern does not stand in. -/
theorem cutAt_append_of_not_mem {w : String} {c : Char} {u a : Text} (hw : w.toList = c :: u)
    (ha : c ∉ a) (t : Text) :
    cutAt w (a ++ t) = (cutAt w t).map fun (before, rest) => (a ++ before, rest) := by
  induction a with
  | nil => simp
  | cons d a ih =>
      have hd : after w (d :: (a ++ t)) = none := by
        rw [Option.eq_none_iff_forall_ne_some]
        intro rest h
        rw [after_eq_some_iff, hw] at h
        simp_all
      rw [List.cons_append, cutAt, hd, ih (by simp_all), Option.map_map]
      rfl

theorem cutAt_eq_none_iff {w : String} {t : Text} : cutAt w t = none ↔ ¬ w.toList <:+: t := by
  induction t with
  | nil =>
      rw [cutAt, Option.map_eq_none_iff, List.infix_nil, Option.eq_none_iff_forall_ne_some]
      simp [after_eq_some_iff]
  | cons c t ih =>
      rw [cutAt, List.infix_cons_iff, ← startsWith_iff, startsWith]
      cases after w (c :: t) <;> simp [ih]

/-- Before the first occurrence there is none. -/
theorem cutAt_eq_some {w : String} (hw : w.toList ≠ []) {t before rest : Text}
    (h : cutAt w t = some (before, rest)) :
    t = before ++ (w.toList ++ rest) ∧ ¬ w.toList <:+: before := by
  have hnil : ¬ w.toList <:+: [] := fun h => hw (List.infix_nil.mp h)
  induction t generalizing before with
  | nil =>
      obtain ⟨rest', hrest, h⟩ := Option.map_eq_some_iff.mp h
      obtain ⟨rfl, rfl⟩ := Prod.mk.inj h
      exact ⟨after_eq_some_iff.mp hrest, hnil⟩
  | cons c t ih =>
      rw [cutAt] at h
      cases ha : after w (c :: t) with
      | some rest' =>
          rw [ha, Option.some.injEq] at h
          obtain ⟨rfl, rfl⟩ := Prod.mk.inj h
          exact ⟨after_eq_some_iff.mp ha, hnil⟩
      | none =>
          rw [ha] at h
          obtain ⟨⟨before', rest'⟩, hcut, h⟩ := Option.map_eq_some_iff.mp h
          obtain ⟨rfl, rfl⟩ := Prod.mk.inj h
          obtain ⟨rfl, hbefore⟩ := ih hcut
          refine ⟨rfl, fun hin => ?_⟩
          rcases List.infix_cons_iff.mp hin with hhead | hin
          · have hstart : startsWith w (c :: (before' ++ (w.toList ++ rest'))) = true :=
              startsWith_iff.mpr (hhead.trans (List.prefix_append (c :: before') _))
            simp [startsWith, ha] at hstart
          · exact hbefore hin

theorem run_eq_none_iff {p : Char → Bool} {t : Text} :
    run p t = none ↔ ∀ c ∈ t.head?, p c = false := by
  cases t with
  | nil => simp [run]
  | cons c t => cases hc : p c <;> simp [run, hc]

theorem takeWhile_append_of_head {p : Char → Bool} {rest : Text}
    (h : ∀ c ∈ rest.head?, p c = false) (t : Text) :
    (t ++ rest).takeWhile p = t.takeWhile p := by
  induction t with
  | nil => cases rest <;> simp_all
  | cons c t ih => cases hc : p c <;> simp [hc, ih]

theorem dropWhile_append_of_head {p : Char → Bool} {rest : Text}
    (h : ∀ c ∈ rest.head?, p c = false) (t : Text) :
    (t ++ rest).dropWhile p = t.dropWhile p ++ rest := by
  induction t with
  | nil => cases rest <;> simp_all
  | cons c t ih => cases hc : p c <;> simp [hc, ih]

/-- A pattern that a character cannot stand in lies on one side of it. -/
theorem infix_append_cons_of_not_mem {w a b : Text} {d : Char} (hd : d ∉ w)
    (h : w <:+: a ++ d :: b) : w <:+: a ∨ w <:+: b := by
  rcases List.infix_append_iff_ne_nil.mp h with h | h | ⟨u, v, -, hv, rfl, -, hp⟩
  · exact Or.inl h
  · rcases List.infix_cons_iff.mp h with h | h
    · rcases List.prefix_cons_iff.mp h with rfl | ⟨u, rfl, -⟩
      · exact Or.inl (List.nil_infix)
      · simp at hd
    · exact Or.inr h
  · rcases List.prefix_cons_iff.mp hp with rfl | ⟨u, rfl, -⟩
    · exact absurd rfl hv
    · simp at hd

/-- A run of characters ends where its text does, if the next character is of another kind. -/
theorem run_append {p : Char → Bool} {w rest : Text} (hne : w ≠ []) (hw : ∀ c ∈ w, p c = true)
    (hrest : ∀ c ∈ rest.head?, p c = false) : run p (w ++ rest) = some (w, rest) := by
  have htake : rest.takeWhile p = [] := by simpa using takeWhile_append_of_head hrest []
  have hdrop : rest.dropWhile p = rest := by simpa using dropWhile_append_of_head hrest []
  rw [run, List.takeWhile_append_of_pos hw, List.dropWhile_append_of_pos hw, htake, hdrop,
    List.append_nil]
  cases w with
  | nil => exact absurd rfl hne
  | cons c w => rfl

theorem run_eq_some {p : Char → Bool} {t w rest : Text} (h : run p t = some (w, rest)) :
    t = w ++ rest ∧ w ≠ [] ∧ ∀ c ∈ w, p c = true := by
  rw [run] at h
  cases ht : t.takeWhile p with
  | nil => simp [ht] at h
  | cons c u =>
      simp only [ht, Option.some.injEq, Prod.mk.injEq] at h
      obtain ⟨rfl, rfl⟩ := h
      refine ⟨by rw [← ht, List.takeWhile_append_dropWhile], by simp, fun d hd => ?_⟩
      exact List.mem_takeWhile_imp (ht ▸ hd)

theorem from?_append_self (w : String) (rest : Text) :
    from? w (w.toList ++ rest) = some (w.toList ++ rest) := by
  have h : startsWith w (w.toList ++ rest) = true := startsWith_iff.mpr (List.prefix_append ..)
  rw [from?]
  cases ht : w.toList ++ rest <;> simp [firstMatch, ← ht, h]

theorem firstMatch_of_eq_some {p : Text → Option α} {t : Text} {a : α} (h : p t = some a) :
    firstMatch p t = some a := by
  cases t <;> simp [firstMatch, h]

/-- The search passes over characters with which no match begins. -/
theorem firstMatch_append {p : Text → Option α} {l : Text}
    (h : ∀ c ∈ l, ∀ u, p (c :: u) = none) (t : Text) :
    firstMatch p (l ++ t) = firstMatch p t := by
  induction l with
  | nil => rfl
  | cons c l ih =>
      rw [List.cons_append, firstMatch, h c List.mem_cons_self,
        ih fun d hd => h d (List.mem_cons_of_mem c hd)]
      rfl

theorem firstOnLine_of_eq_some {p : Text → Option α} {t : Text} {a : α} (h : p t = some a) :
    firstOnLine p t = some a := by
  cases t <;> simp [firstOnLine, h]

/-- The search goes on behind a stretch of the line in which no match begins. -/
theorem firstOnLine_append {p : Text → Option α} {l t : Text} (hl : '\n' ∉ l)
    (h : ∀ s, s <:+ l → s ≠ [] → p (s ++ t) = none) : firstOnLine p (l ++ t) = firstOnLine p t := by
  induction l with
  | nil => rfl
  | cons c l ih =>
      have hc : c ≠ '\n' := fun hc => hl (by simp [hc])
      have hnone := h _ (List.suffix_refl _) (List.cons_ne_nil c l)
      rw [List.cons_append] at hnone
      rw [List.cons_append, firstOnLine, hnone, if_neg hc,
        ih (fun hm => hl (by simp [hm])) fun s hs hne => h s (hs.trans (List.suffix_cons c l)) hne]
      rfl

theorem lastOnLine_eq_none {p : Text → Option α} {t : Text} (h : ∀ s, s <:+ t → p s = none) :
    lastOnLine p t = none := by
  induction t with
  | nil => exact h [] (List.suffix_refl [])
  | cons c t ih =>
      rw [lastOnLine, ih fun s hs => h s (hs.trans (List.suffix_cons c t)),
        h _ (List.suffix_refl _)]
      simp

/-- The last place is searched for behind anything that stands on the same line. -/
theorem lastOnLine_append {p : Text → Option α} {l t : Text} {a : α} (hl : '\n' ∉ l)
    (h : lastOnLine p t = some a) : lastOnLine p (l ++ t) = some a := by
  induction l with
  | nil => exact h
  | cons c l ih =>
      have hc : c ≠ '\n' := fun hc => hl (by simp [hc])
      rw [List.cons_append, lastOnLine, if_neg hc, ih fun hm => hl (by simp [hm])]
      rfl

/-- The search for all matches passes over a stretch in which none begins. -/
theorem allMatches_append_of_forall {p : Text → Option (α × Text)} {l t : Text}
    (h : ∀ s, s <:+ l → s ≠ [] → p (s ++ t) = none) : allMatches p (l ++ t) = allMatches p t := by
  induction l with
  | nil => rfl
  | cons c l ih =>
      have hc := h _ (List.suffix_refl _) (List.cons_ne_nil c l)
      rw [List.cons_append] at hc
      rw [List.cons_append, allMatches, matchesFrom, hc]
      exact ih fun s hs hne => h s (hs.trans (List.suffix_cons c l)) hne

theorem matchesFrom_skip (p : Text → Option (α × Text)) (w t : Text) :
    matchesFrom p w.length (w ++ t) = matchesFrom p 0 t := by
  induction w with
  | nil => rfl
  | cons c w ih => rw [List.length_cons, List.cons_append, matchesFrom, ih]

/-- A match is the first of all, and the search goes on behind it. -/
theorem allMatches_append_of_eq_some {p : Text → Option (α × Text)} {w t : Text} {a : α}
    (hne : w ≠ []) (h : p (w ++ t) = some (a, t)) : allMatches p (w ++ t) = a :: allMatches p t := by
  cases w with
  | nil => exact absurd rfl hne
  | cons c w =>
      have hskip : (w ++ t).length - t.length = w.length := by simp
      rw [List.cons_append] at h
      rw [List.cons_append, allMatches, matchesFrom, h]
      simp only [hskip, matchesFrom_skip, allMatches]

theorem dropEndWhile_eq_self {p : Char → Bool} {t : Text} (h : ∀ c ∈ t.getLast?, p c = false) :
    dropEndWhile p t = t := by
  rw [← List.head?_reverse] at h
  rw [dropEndWhile]
  cases hr : t.reverse with
  | nil => simpa using hr.symm
  | cons c u => rw [List.dropWhile_cons_of_neg (by simp [h c (by simp [hr])]), ← hr,
      List.reverse_reverse]

theorem trim_eq_self {t : Text} (hhead : ∀ c ∈ t.head?, isBlank c = false)
    (hlast : ∀ c ∈ t.getLast?, isBlank c = false) : trim t = t := by
  have hstart : trimStart t = t := by
    cases t with
    | nil => rfl
    | cons c t => simp [trimStart, hhead c (by simp)]
  rw [trim, hstart, trimEnd, dropEndWhile_eq_self hlast]

theorem trimStart_append {before t : Text} (h : ∀ c ∈ before, isBlank c = true) :
    trimStart (before ++ t) = trimStart t :=
  List.dropWhile_append_of_pos h

theorem trimEnd_append {t after : Text} (h : ∀ c ∈ after, isBlank c = true) :
    trimEnd (t ++ after) = trimEnd t := by
  rw [trimEnd, dropEndWhile, List.reverse_append,
    List.dropWhile_append_of_pos fun c hc => h c (List.mem_reverse.mp hc)]
  rfl

/-- Only white space is trimmed off. -/
theorem exists_eq_trim (t : Text) : ∃ before later, t = before ++ (trim t ++ later) ∧
    (∀ c ∈ before, isBlank c = true) ∧ ∀ c ∈ later, isBlank c = true := by
  have hstart := List.takeWhile_append_dropWhile (p := isBlank) (l := t)
  have hend := List.takeWhile_append_dropWhile (p := isBlank) (l := (trimStart t).reverse)
  refine ⟨t.takeWhile isBlank, ((trimStart t).reverse.takeWhile isBlank).reverse, ?_,
    fun c hc => List.mem_takeWhile_imp hc,
    fun c hc => List.mem_takeWhile_imp (List.mem_reverse.mp hc)⟩
  rw [trim, trimEnd, dropEndWhile, ← List.reverse_append, hend, List.reverse_reverse]
  exact hstart.symm

/-- The text begins with a character that is no white space. -/
def Starts (t : Text) : Prop := ∃ c u, t = c :: u ∧ isBlank c = false

/-- The text ends with a character that is no white space. -/
def Stops (t : Text) : Prop := ∃ u c, t = u ++ [c] ∧ isBlank c = false

theorem Starts.append {t : Text} (h : Starts t) (u : Text) : Starts (t ++ u) := by
  obtain ⟨c, v, rfl, hc⟩ := h
  exact ⟨c, v ++ u, rfl, hc⟩

theorem Stops.append (t : Text) {u : Text} (h : Stops u) : Stops (t ++ u) := by
  obtain ⟨v, c, rfl, hc⟩ := h
  exact ⟨t ++ v, c, by simp, hc⟩

theorem Starts.trim_eq {t : Text} (hstart : Starts t) (hstop : Stops t) : trim t = t := by
  obtain ⟨c, u, hu, hc⟩ := hstart
  obtain ⟨v, d, hv, hd⟩ := hstop
  exact trim_eq_self (by simpa [hu] using hc) (by simpa [hv] using hd)

theorem stops_trim {t : Text} (h : trim t ≠ []) : Stops (trim t) := by
  have hlast := List.head?_dropWhile_not isBlank (trimStart t).reverse
  have hrev : trim t = ((trimStart t).reverse.dropWhile isBlank).reverse := rfl
  rw [hrev] at h ⊢
  cases hd : (trimStart t).reverse.dropWhile isBlank with
  | nil => simp [hd] at h
  | cons c u =>
      rw [hd] at hlast
      exact ⟨u.reverse, c, List.reverse_cons, hlast⟩

/-- A head without white space at its ends is left as it is. -/
theorem trim_append {t : Text} (hstart : Starts t) (hstop : Stops t) (rest : Text) :
    trim (t ++ rest) = t ++ trimEnd rest := by
  obtain ⟨c, u, hu, hc⟩ := hstart
  obtain ⟨v, d, hv, hd⟩ := hstop
  have hfront : trimStart (t ++ rest) = t ++ rest := by simp [hu, trimStart, hc]
  have hback : t.reverse.dropWhile isBlank = t.reverse := by simp [hv, hd]
  rw [trim, hfront, trimEnd, trimEnd, dropEndWhile, dropEndWhile, List.reverse_append,
    List.dropWhile_append, hback]
  split
  · rename_i hblank
    rw [List.isEmpty_iff.mp hblank, List.reverse_reverse, List.reverse_nil, List.append_nil]
  · rw [List.reverse_append, List.reverse_reverse]

/-- White space around a text that has none at its ends is trimmed off. -/
theorem trim_padded {before t after : Text} (hstart : Starts t) (hstop : Stops t)
    (hbefore : ∀ c ∈ before, isBlank c = true) (hafter : ∀ c ∈ after, isBlank c = true) :
    trim (before ++ t ++ after) = t := by
  have htrim : trim t = t := hstart.trim_eq hstop
  obtain ⟨c, u, hu, hc⟩ := hstart
  have hfront : trimStart (t ++ after) = trimStart t ++ after := by simp [hu, trimStart, hc]
  rw [trim, List.append_assoc, trimStart_append hbefore, hfront, trimEnd_append hafter, ← trim,
    htrim]

end Warboard.Text
