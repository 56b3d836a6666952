import Warboard.Proofs.Change.Boundary

namespace Warboard.Change

open Text Change.Tree

/-- Between the two texts a batch is cut: all inner blocks are closed there, and a change follows. -/
structure Boundary (front rest : Text) : Prop where
  outside : depth 0 front = 0
  change : startsChange rest = true

/-- The two texts are what the pieces before and behind one of their separators are joined to. -/
def Parted (ps : List Text) (front rest : Text) : Prop :=
  ∃ us vs, us ≠ [] ∧ vs ≠ [] ∧ ps = us ++ vs ∧
    separator.intercalate us = front ∧ separator.intercalate vs = rest

/-- The pieces are what is left of the text without the separators at its boundaries. A text without
a boundary is one piece, even if it is empty. -/
structure CutInto (inner : Text) (ps : List Text) : Prop where
  nonempty : ps ≠ []
  joined : separator.intercalate ps = inner
  parted_iff : ∀ front rest, inner = front ++ (separator ++ rest) →
    (Parted ps front rest ↔ Boundary front rest)

theorem joined_append {us vs : List Text} (hus : us ≠ []) (hvs : vs ≠ []) :
    separator.intercalate (us ++ vs) =
      separator.intercalate us ++ (separator ++ separator.intercalate vs) := by
  induction us with
  | nil => exact absurd rfl hus
  | cons u us ih =>
      cases us with
      | nil => simpa using joined_cons hvs u
      | cons u' us =>
          have hnext : u' :: us ≠ [] := List.cons_ne_nil u' us
          rw [List.cons_append, joined_cons (List.append_ne_nil_of_left_ne_nil hnext vs), ih hnext,
            joined_cons hnext, List.append_assoc, List.append_assoc]

theorem joined_grow (w p : Text) (ps : List Text) :
    separator.intercalate ((w ++ p) :: ps) = w ++ separator.intercalate (p :: ps) := by
  cases ps with
  | nil => simp
  | cons q ps => simp only [List.intercalate_cons_cons, List.append_assoc]

section Parted

variable {p : Text} {ps : List Text} {front rest : Text}

theorem Parted.joined (h : Parted ps front rest) :
    separator.intercalate ps = front ++ (separator ++ rest) := by
  obtain ⟨us, vs, hus, hvs, rfl, rfl, rfl⟩ := h
  exact joined_append hus hvs

theorem not_parted_singleton : ¬ Parted [p] front rest := by
  rintro ⟨us, vs, hus, hvs, hp, -, -⟩
  rcases List.singleton_eq_append_iff.mp hp with ⟨rfl, -⟩ | ⟨-, rfl⟩
  · exact hus rfl
  · exact hvs rfl

theorem parted_cons (hps : ps ≠ []) : Parted (p :: ps) front rest ↔
    front = p ∧ rest = separator.intercalate ps ∨
      ∃ front', front = p ++ (separator ++ front') ∧ Parted ps front' rest := by
  constructor
  · rintro ⟨us, vs, hus, hvs, hp, rfl, rfl⟩
    obtain ⟨rfl, rfl⟩ | ⟨us, rfl, rfl⟩ := List.cons_eq_append_iff.mp hp
    · exact absurd rfl hus
    cases us with
    | nil => exact Or.inl ⟨by simp, rfl⟩
    | cons u us => exact Or.inr ⟨_, joined_cons (by simp) p, u :: us, vs, by simp, hvs, rfl, rfl, rfl⟩
  · rintro (⟨rfl, rfl⟩ | ⟨front', rfl, us, vs, hus, hvs, rfl, rfl, rfl⟩)
    · exact ⟨[front], ps, by simp, hps, rfl, by simp, rfl⟩
    · exact ⟨p :: us, vs, by simp, hvs, rfl, joined_cons hus p, rfl⟩

theorem parted_cons_head (hps : ps ≠ []) : Parted (p :: ps) p (separator.intercalate ps) :=
  (parted_cons hps).mpr (Or.inl ⟨rfl, rfl⟩)

theorem parted_cons_append (hps : ps ≠ []) :
    Parted (p :: ps) (p ++ (separator ++ front)) rest ↔ Parted ps front rest := by
  rw [parted_cons hps]
  simp [separator]

theorem parted_grow (w : Text) : Parted ((w ++ p) :: ps) front rest ↔
    ∃ front', front = w ++ front' ∧ Parted (p :: ps) front' rest := by
  cases ps with
  | nil => simp [not_parted_singleton]
  | cons q ps =>
      rw [parted_cons (by simp)]
      simp only [parted_cons (List.cons_ne_nil q ps)]
      constructor
      · rintro (⟨rfl, rfl⟩ | ⟨front', rfl, h⟩)
        · exact ⟨p, rfl, Or.inl ⟨rfl, rfl⟩⟩
        · exact ⟨p ++ (separator ++ front'), by simp, Or.inr ⟨front', rfl, h⟩⟩
      · rintro ⟨front', rfl, ⟨rfl, rfl⟩ | ⟨front'', rfl, h⟩⟩
        · exact Or.inl ⟨rfl, rfl⟩
        · exact Or.inr ⟨front'', by simp, h⟩

theorem Parted.length_le (h : Parted (p :: ps) front rest) : p.length ≤ front.length := by
  by_cases hps : ps = []
  · subst hps
    exact absurd h not_parted_singleton
  · rcases (parted_cons hps).mp h with ⟨rfl, -⟩ | ⟨front', rfl, -⟩
    · exact le_refl _
    · simp

end Parted

/-- The separators between the pieces decide the pieces. -/
theorem eq_of_parted_iff {ps qs : List Text} (hps : ps ≠ []) (hqs : qs ≠ [])
    (hjoined : separator.intercalate ps = separator.intercalate qs)
    (hparted : ∀ front rest, Parted ps front rest ↔ Parted qs front rest) : ps = qs := by
  induction ps generalizing qs with
  | nil => exact absurd rfl hps
  | cons p ps ih =>
      obtain ⟨q, qs, rfl⟩ := List.exists_cons_of_ne_nil hqs
      by_cases hp : ps = []
      · by_cases hq : qs = []
        · subst hp hq
          simpa using hjoined
        · subst hp
          exact absurd ((hparted q _).mpr (parted_cons_head hq)) not_parted_singleton
      by_cases hq : qs = []
      · subst hq
        exact absurd ((hparted p _).mp (parted_cons_head hp)) not_parted_singleton
      have hlength : p.length = q.length := le_antisymm
        ((hparted q _).mpr (parted_cons_head hq)).length_le
        ((hparted p _).mp (parted_cons_head hp)).length_le
      rw [joined_cons hp, joined_cons hq] at hjoined
      obtain ⟨rfl, htails⟩ := List.append_inj hjoined hlength
      congr 1
      refine ih hp hq (List.append_cancel_left htails) fun front rest => ?_
      rw [← parted_cons_append hp, hparted, parted_cons_append hq]

theorem joined_cut (n : Nat) (t : Text) :
    separator.intercalate ((cut n t).1 :: (cut n t).2) = t := by
  fun_induction cut n t with
  | case1 n => simp
  | case4 t hs later ih =>
      rw [joined_cons (List.cons_ne_nil _ _), ih]
      rfl
  | case2 n t ih | case3 n t ih | case5 t hs ih | case6 n c t _ _ _ ih =>
      rw [cut.grow, joined_grow, ih]
      rfl

theorem cons_eq_separated {c : Char} {t front rest : Text}
    (h : c :: t = front ++ (separator ++ rest)) :
    (front = [] ∧ c = ',' ∧ t = ' ' :: rest) ∨
      ∃ u, front = c :: u ∧ t = u ++ (separator ++ rest) := by
  cases front with
  | nil => exact Or.inl ⟨rfl, List.cons.inj h⟩
  | cons d u =>
      obtain ⟨rfl, ht⟩ := List.cons.inj h
      exact Or.inr ⟨u, rfl, ht⟩

/-- A separator does not begin in the second half of a marker. -/
theorem cons_cons_eq_separated {c d : Char} {t front rest : Text} (hd : d ≠ ',')
    (h : c :: d :: t = front ++ (separator ++ rest)) :
    (front = [] ∧ c = ',' ∧ d = ' ' ∧ t = rest) ∨
      ∃ u, front = c :: d :: u ∧ t = u ++ (separator ++ rest) := by
  rcases cons_eq_separated h with ⟨rfl, rfl, hrest⟩ | ⟨v, rfl, hv⟩
  · exact Or.inl ⟨rfl, rfl, List.cons.inj hrest⟩
  · rcases cons_eq_separated hv with ⟨-, rfl, -⟩ | ⟨u, rfl, hu⟩
    · exact absurd rfl hd
    · exact Or.inr ⟨u, rfl, hu⟩

theorem parted_cut (n : Nat) {t front rest : Text} (ht : t = front ++ (separator ++ rest)) :
    Parted ((cut n t).1 :: (cut n t).2) front rest ↔
      depth n front = 0 ∧ startsChange rest = true := by
  fun_induction cut n t generalizing front with
  | case1 n => simp [separator] at ht
  | case2 n t ih | case3 n t ih =>
      obtain ⟨-, hc, -⟩ | ⟨u, rfl, hu⟩ := cons_cons_eq_separated (by decide) ht
      · exact absurd hc (by decide)
      · rw [cut.grow, parted_grow, depth]
        simp [ih hu]
  | case4 t hs later =>
      rename_i ih
      obtain ⟨rfl, -, -, rfl⟩ | ⟨u, rfl, hu⟩ := cons_cons_eq_separated (by decide) ht
      · have hparted := parted_cons_head (p := []) (List.cons_ne_nil (cut 0 t).1 (cut 0 t).2)
        rw [joined_cut] at hparted
        exact iff_of_true hparted ⟨rfl, hs⟩
      · rw [depth_comma_blank, ← ih hu]
        exact parted_cons_append (p := []) (List.cons_ne_nil _ _)
  | case5 t hs ih =>
      rw [cut.grow, parted_grow]
      obtain ⟨rfl, -, hrest⟩ | ⟨u, rfl, hu⟩ := cons_eq_separated ht
      · obtain rfl := (List.cons.inj hrest).2
        simp [hs]
      · rw [depth_cons (by simp) (by simp)]
        simp [ih hu]
  | case6 n c t hopen hclose hbreak ih =>
      rw [cut.grow, parted_grow]
      obtain ⟨rfl, rfl, rfl⟩ | ⟨u, rfl, rfl⟩ := cons_eq_separated ht
      · -- a separator that the text begins with is not passed over unless an inner block is open
        have hn : n ≠ 0 := fun hn => hbreak rest hn rfl rfl
        simp [depth, hn]
      · have hdepth : depth n (c :: u) = depth n u :=
          depth_cons (fun v hc hv => hopen (v ++ (separator ++ rest)) hc (by simp [hv]))
            (fun v hc hv => hclose (v ++ (separator ++ rest)) hc (by simp [hv])) n
        rw [hdepth]
        simp [ih rfl]

theorem cutInto_pieces (inner : Text) : CutInto inner (pieces inner) where
  nonempty := by simp [pieces]
  joined := joined_cut 0 inner
  parted_iff front rest h := (parted_cut 0 h).trans
    ⟨fun ⟨hout, hchange⟩ => ⟨hout, hchange⟩, fun ⟨hout, hchange⟩ => ⟨hout, hchange⟩⟩

theorem CutInto.eq {inner : Text} {ps qs : List Text} (hps : CutInto inner ps)
    (hqs : CutInto inner qs) : ps = qs := by
  refine eq_of_parted_iff hps.nonempty hqs.nonempty (hps.joined.trans hqs.joined.symm) ?_
  intro front rest
  constructor
  · intro h
    have hinner := hps.joined.symm.trans h.joined
    exact (hqs.parted_iff front rest hinner).mpr ((hps.parted_iff front rest hinner).mp h)
  · intro h
    have hinner := hqs.joined.symm.trans h.joined
    exact (hps.parted_iff front rest hinner).mpr ((hqs.parted_iff front rest hinner).mp h)

/-- There is one way to cut the inner text of a batch at its boundaries and nowhere else, and the
changes of the batch are the pieces, trimmed and without the empty ones, in order. -/
theorem existsUnique_cutInto (inner : Text) :
    (∃! ps, CutInto inner ps) ∧
    ∀ ps, CutInto inner ps → siblings inner = (ps.map trim).filter fun t => !t.isEmpty := by
  refine ⟨⟨pieces inner, cutInto_pieces inner, fun ps h => h.eq (cutInto_pieces inner)⟩, ?_⟩
  intro ps h
  rw [h.eq (cutInto_pieces inner), siblings]

end Warboard.Change
