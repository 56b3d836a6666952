import Warboard.Proofs.Text.Token

namespace Warboard.Text

/-- Something to see, and no white space in it. -/
def Unbroken (t : Text) : Prop := t ≠ [] ∧ (t.all fun c => !isBlank c) = true

instance (t : Text) : Decidable (Unbroken t) := inferInstanceAs (Decidable (_ ∧ _))

/-- A word as a line has it: anything but white space can be part of it. -/
abbrev Word := Token fun c => !isBlank c

abbrev Gap := Token isBlank

namespace Unbroken

variable {t : Text}

theorem isBlank_eq_false (h : Unbroken t) : ∀ c ∈ t, isBlank c = false := fun c hc => by
  simpa using List.all_eq_true.1 h.2 c hc

theorem append_right (h : Unbroken t) {u : Text} (hu : (u.all fun c => !isBlank c) = true) :
    Unbroken (t ++ u) :=
  ⟨List.append_ne_nil_of_left_ne_nil h.1 u, by rw [List.all_append, h.2, hu]; rfl⟩

def word (h : Unbroken t) : Word := ⟨t, h.1, List.all_eq_true.1 h.2⟩

theorem starts (h : Unbroken t) : Starts t := h.word.starts fun c hc => by simpa using hc

theorem stops (h : Unbroken t) : Stops t := h.word.stops fun c hc => by simpa using hc

theorem trim_eq (h : Unbroken t) : trim t = t := h.starts.trim_eq h.stops

end Unbroken

theorem Word.unbroken (w : Word) : Unbroken w.text := ⟨w.ne_nil, List.all_eq_true.2 w.chars⟩

theorem words_append_blank {before : Text} (h : ∀ c ∈ before, isBlank c = true) (t : Text) :
    words (before ++ t) = words t := by
  induction before with
  | nil => rfl
  | cons c before ih =>
      obtain ⟨hc, hbefore⟩ := List.forall_mem_cons.1 h
      rw [List.cons_append, words, List.splitOnP_cons_eq_if_modifyHead, if_pos hc,
        List.filter_cons_of_neg (by simp)]
      exact ih hbefore

theorem words_unbroken_append {w rest : Text} (hw : Unbroken w)
    (hrest : ∀ c ∈ rest.head?, isBlank c = true) : words (w ++ rest) = w :: words rest := by
  have hkept (ws : List Text) :
      (w :: ws).filter (fun u => !u.isEmpty) = w :: ws.filter fun u => !u.isEmpty :=
    List.filter_cons_of_pos (by simpa using hw.1)
  cases rest with
  | nil =>
      rw [words, List.append_nil, List.splitOnP_eq_singleton hw.isBlank_eq_false, hkept]
      rfl
  | cons c rest =>
      have hc : isBlank c = true := hrest c rfl
      rw [words, List.splitOnP_append_cons_of_forall_mem hw.isBlank_eq_false c hc, hkept]
      exact congrArg _ (words_append_blank (List.forall_mem_singleton.2 hc) rest).symm

namespace Gap

variable (gap : Gap)

/-- The texts one after another, with white space before each. -/
def spread (ws : List Text) : Text := ws.flatMap fun w => gap.text ++ w

theorem spread_cons (w : Text) (ws : List Text) :
    gap.spread (w :: ws) = gap.text ++ (w ++ gap.spread ws) := by
  rw [spread, List.flatMap_cons, List.append_assoc]
  rfl

theorem head_spread (ws : List Text) : ∀ c ∈ (gap.spread ws).head?, isBlank c = true := by
  intro c hc
  cases ws with
  | nil => cases hc
  | cons w ws =>
      obtain ⟨d, t, ht⟩ := List.exists_cons_of_ne_nil gap.ne_nil
      rw [spread_cons, ht] at hc
      cases hc
      exact gap.chars c (ht ▸ List.mem_cons_self)

theorem words_spread {ws : List Text} (h : ∀ w ∈ ws, Unbroken w) : words (gap.spread ws) = ws := by
  induction ws with
  | nil => rfl
  | cons w ws ih =>
      obtain ⟨hw, hws⟩ := List.forall_mem_cons.1 h
      rw [spread_cons, words_append_blank gap.chars, words_unbroken_append hw (gap.head_spread ws),
        ih hws]

theorem words_line {w : Text} {ws : List Text} (hw : Unbroken w) (hws : ∀ v ∈ ws, Unbroken v) :
    words (w ++ gap.spread ws) = w :: ws := by
  rw [words_unbroken_append hw (gap.head_spread ws), gap.words_spread hws]

theorem trim_spread (t : Text) : trim (gap.spread [t]) = trim t := by
  rw [spread_cons, trim, trimStart_append gap.chars, ← trim]
  exact congrArg trim (List.append_nil t)

variable {w : Text} (hw : Unbroken w) (ws : List Text)
include hw

theorem trimStart_spread : trimStart (gap.spread (w :: ws)) = w ++ gap.spread ws := by
  obtain ⟨c, u, rfl, hc⟩ := hw.starts
  rw [spread_cons, trimStart_append gap.chars]
  exact List.dropWhile_cons_of_neg (by simp [hc])

theorem takeWhile_spread : (w ++ gap.spread ws).takeWhile (fun c => !isBlank c) = w := by
  rw [takeWhile_append_of_head fun c hc => by simp [gap.head_spread ws c hc]]
  exact List.takeWhile_eq_self_iff.2 (List.all_eq_true.1 hw.2)

theorem dropWhile_spread :
    (w ++ gap.spread ws).dropWhile (fun c => !isBlank c) = gap.spread ws := by
  rw [dropWhile_append_of_head fun c hc => by simp [gap.head_spread ws c hc],
    List.dropWhile_eq_nil_iff.2 (List.all_eq_true.1 hw.2), List.nil_append]

end Gap

theorem firstWord_unbroken {w : Text} (hw : Unbroken w) : firstWord w = w := by
  have hwords : words (w ++ []) = w :: words [] := words_unbroken_append hw (by simp)
  rw [firstWord, ← List.append_nil w, hwords, List.append_nil]
  rfl

end Warboard.Text
