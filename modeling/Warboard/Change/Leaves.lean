import Warboard.Change.Reader

namespace Warboard.Change

open Text

/-- Bounds the texts that a list of texts can still expand to. -/
def weight : List Text → Nat
  | [] => 0
  | t :: ts => t.length + 2 + weight ts

theorem weight_append (ts us : List Text) : weight (ts ++ us) = weight ts + weight us := by
  induction ts with
  | nil => simp [weight]
  | cons t ts ih => simp only [List.cons_append, weight, ih]; omega

theorem length_trim_le (t : Text) : (trim t).length ≤ t.length := by
  have h := (List.dropWhile_sublist (l := (trimStart t).reverse) isBlank).length_le
  have h' := (List.dropWhile_sublist (l := t) isBlank).length_le
  simp only [trim, trimEnd, dropEndWhile, trimStart, List.length_reverse] at *
  omega

theorem weight_cut (n : Nat) (t : Text) : weight ((cut n t).1 :: (cut n t).2) = t.length + 2 := by
  fun_induction cut n t with
  | case4 t _ later ih =>
    change weight ([] :: (cut 0 t).1 :: (cut 0 t).2) = _
    simp only [weight, List.length_cons, List.length_nil] at ih ⊢
    omega
  | _ => simp_all [weight, cut.grow] <;> omega

theorem weight_siblings_le (inner : Text) : weight (siblings inner) ≤ inner.length + 2 := by
  have trimmed (ts : List Text) : weight (ts.map trim) ≤ weight ts := by
    induction ts with
    | nil => simp
    | cons t ts ih => have := length_trim_le t; simp only [List.map_cons, weight]; omega
  have filtered (ts : List Text) : weight (ts.filter fun t => !t.isEmpty) ≤ weight ts := by
    induction ts with
    | nil => simp
    | cons t ts ih => rw [List.filter_cons]; split <;> simp only [weight] <;> omega
  calc weight (siblings inner) ≤ weight ((pieces inner).map trim) := filtered _
    _ ≤ weight (pieces inner) := trimmed _
    _ = inner.length + 2 := weight_cut 0 inner

theorem length_after {w : String} {t rest : Text} (h : after w t = some rest) :
    t.length = w.toList.length + rest.length := by
  simp only [after] at h
  generalize w.toList = u at h ⊢
  fun_induction rest? u t with
  | case1 t => simp_all
  | case2 => simp at h
  | case3 c w t ih => simp only [List.length_cons, ih h]; omega
  | case4 => simp at h

theorem length_cutAt {w : String} {t left rest : Text} (h : cutAt w t = some (left, rest)) :
    t.length = left.length + w.toList.length + rest.length := by
  induction t generalizing left with
  | nil =>
    simp only [cutAt, Option.map_eq_some_iff, Prod.mk.injEq] at h
    obtain ⟨_, hr, rfl, rfl⟩ := h
    simpa using length_after hr
  | cons c t ih =>
    simp only [cutAt] at h
    split at h
    · rename_i hr
      simp only [Option.some.injEq, Prod.mk.injEq] at h
      obtain ⟨rfl, rfl⟩ := h
      simpa using length_after hr
    · simp only [Option.map_eq_some_iff, Prod.exists, Prod.mk.injEq] at h
      obtain ⟨_, _, hc, rfl, rfl⟩ := h
      simp [ih hc]; omega

theorem length_upTo_le (n : Nat) (t : Text) : (Block.upTo n t).inner.length ≤ t.length := by
  fun_induction Block.upTo n t <;> simp_all [Block.cons]

theorem length_extract_lt {line : Text} {block : Block} (h : Block.extract line = some block) :
    block.inner.length < line.length := by
  simp only [Block.extract, Option.map_eq_some_iff, Prod.exists] at h
  obtain ⟨_, t, hc, rfl⟩ := h
  have := length_cutAt hc
  have := length_upTo_le 0 t
  have : "<[".toList.length = 2 := rfl
  omega

/-- The fragments of a batch are together shorter than its text. -/
theorem weight_fragments_lt {line : Text} {fragments : List Text} {closed : Bool}
    (h : read line = .ok (.composite fragments closed)) : weight fragments < line.length + 2 := by
  simp only [read, readTrimmed] at h
  split at h
  · simp at h
  split at h
  · simp at h
  split at h
  · split at h
    · rename_i block hb
      simp only [Except.ok.injEq, Notice.composite.injEq] at h
      have := length_extract_lt hb
      have := length_trim_le line
      have := weight_siblings_le block.inner
      rw [← h.1]; omega
    · simp at h
  · simp [Except.map] at h
    split at h <;> simp at h

/-- The events of the texts, in order. A batch gives way to its fragments, which are read before the
texts after it; a text without a known form is passed over. -/
def events : List Text → List Event
  | [] => []
  | t :: ts => match _h : read t with
    | .ok (.composite fragments _) => events (fragments ++ ts)
    | .ok (.single event) => event :: events ts
    | .error _ => events ts
termination_by ts => weight ts
decreasing_by
  · have := weight_fragments_lt _h; simp only [weight_append, weight]; omega
  · simp only [weight]; omega
  · simp only [weight]; omega

/-- The events of a line. -/
def leaves (line : Text) : List Event := events [line]

end Warboard.Change
