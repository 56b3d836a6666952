import Warboard.Change.Leaves
import Warboard.Proofs.Change.Nesting

namespace Warboard.Change

open Text

/-- The marks around the text of a batch. -/
inductive Marker
  | opening
  | closing
  deriving DecidableEq

/-- The markers of a text, from left to right. -/
def markers : Text → List Marker
  | [] => []
  | '<' :: '[' :: t => .opening :: markers t
  | ']' :: '>' :: t => .closing :: markers t
  | _ :: t => markers t

def openings (t : Text) : Nat := (markers t).count .opening

def closings (t : Text) : Nat := (markers t).count .closing

/-- Every block that is opened in the text is closed in it, and no other. -/
structure Balanced (t : Text) : Prop where
  covered : ∀ u, u <+: t → closings u ≤ openings u
  closed : closings t = openings t

/-- The first block of the line stands between its markers around the inner text. -/
def Encloses (line inner : Text) : Prop :=
  ∃ before rest, line = before ++ ("<[".toList ++ (inner ++ ("]>".toList ++ rest))) ∧
    ¬ "<[".toList <:+: before ∧ Balanced inner

section Markers

variable (t : Text)

theorem openings_opening : openings ('<' :: '[' :: t) = openings t + 1 := by
  simp [openings, markers]

theorem closings_opening : closings ('<' :: '[' :: t) = closings t := by
  simp [closings, markers]

theorem openings_closing : openings (']' :: '>' :: t) = openings t := by
  simp [openings, markers]

theorem closings_closing : closings (']' :: '>' :: t) = closings t + 1 := by
  simp [closings, markers]

end Markers

theorem markers_singleton (c : Char) : markers [c] = [] := by
  simp [markers]

theorem markers_cons {c : Char} {t : Text} (hopen : ∀ u, c = '<' → t ≠ '[' :: u)
    (hclose : ∀ u, c = ']' → t ≠ '>' :: u) : markers (c :: t) = markers t := by
  rw [markers]
  · exact hopen
  · exact hclose

/-- With `n` blocks open before it, the text closes no more than are open. -/
def Covered (n : Nat) (t : Text) : Prop := ∀ u, u <+: t → closings u ≤ openings u + n

theorem covered_nil (n : Nat) : Covered n [] := by
  intro u hu
  rw [List.prefix_nil.mp hu]
  exact Nat.zero_le _

theorem covered_cons_cons {n : Nat} {c d : Char} {t : Text} : Covered n (c :: d :: t) ↔
    ∀ u, u <+: t → closings (c :: d :: u) ≤ openings (c :: d :: u) + n := by
  constructor
  · intro h u hu
    exact h (c :: d :: u) (by simpa using hu)
  · rintro h (- | ⟨e, - | ⟨f, u⟩⟩) hu
    · exact Nat.zero_le _
    · -- half a marker is none
      rw [closings, markers_singleton]
      exact Nat.zero_le _
    · simp only [List.cons_prefix_cons] at hu
      obtain ⟨rfl, rfl, hhead⟩ := hu
      exact h u hhead

theorem covered_opening {n : Nat} {t : Text} :
    Covered n ('<' :: '[' :: t) ↔ Covered (n + 1) t := by
  rw [covered_cons_cons]
  refine forall₂_congr fun u _ => ?_
  rw [closings_opening, openings_opening]
  omega

theorem covered_closing {n : Nat} {t : Text} :
    Covered (n + 1) (']' :: '>' :: t) ↔ Covered n t := by
  rw [covered_cons_cons]
  refine forall₂_congr fun u _ => ?_
  rw [closings_closing, openings_closing]
  omega

theorem not_covered_zero_closing (t : Text) : ¬ Covered 0 (']' :: '>' :: t) := fun h =>
  absurd (h [']', '>'] (List.prefix_append [']', '>'] t)) (by decide)

theorem covered_cons {n : Nat} {c : Char} {t : Text} (hopen : ∀ u, c = '<' → t ≠ '[' :: u)
    (hclose : ∀ u, c = ']' → t ≠ '>' :: u) : Covered n (c :: t) ↔ Covered n t := by
  have hmarkers {u : Text} (hu : u <+: t) : markers (c :: u) = markers u := by
    obtain ⟨v, rfl⟩ := hu
    apply markers_cons
    · rintro w hc rfl
      exact hopen (w ++ v) hc rfl
    · rintro w hc rfl
      exact hclose (w ++ v) hc rfl
  constructor
  · intro h u hu
    have hle := h (c :: u) (by simpa using hu)
    rwa [closings, openings, hmarkers hu] at hle
  · rintro h (- | ⟨d, u⟩) hu
    · exact Nat.zero_le _
    · obtain ⟨rfl, hhead⟩ := List.cons_prefix_cons.mp hu
      rw [closings, openings, hmarkers hhead]
      exact h u hhead

/-- A block ends behind a text that closes what it opens and what is open before it. -/
theorem upTo_of_covered {n : Nat} {inner : Text} (h : Covered n inner)
    (hclosed : closings inner = openings inner + n) (rest : Text) :
    Block.upTo n (inner ++ ("]>".toList ++ rest)) = ⟨inner, true⟩ := by
  induction inner using markers.induct generalizing n with
  | case1 =>
      obtain rfl : n = 0 := by simpa [closings, openings, markers] using hclosed.symm
      simp [Block.upTo]
  | case2 t ih =>
      rw [closings_opening, openings_opening] at hclosed
      rw [List.cons_append, List.cons_append, Block.upTo,
        ih (covered_opening.mp h) (by omega)]
      rfl
  | case3 t ih =>
      cases n with
      | zero => exact absurd h (not_covered_zero_closing t)
      | succ n =>
          rw [closings_closing, openings_closing] at hclosed
          rw [List.cons_append, List.cons_append, Block.upTo,
            ih (covered_closing.mp h) (by omega)]
          rfl
  | case4 c t hopen hclose ih =>
      rw [closings, openings, markers_cons hopen hclose] at hclosed
      rw [List.cons_append, upTo_cons, ih ((covered_cons hopen hclose).mp h) hclosed]
      · rfl
      · -- no marker goes over the end of the text, since a `]` follows it
        intro d u hu
        cases t with
        | nil =>
            obtain ⟨rfl, -⟩ : ']' = d ∧ _ := by simpa using hu
            constructor <;> rintro ⟨-, h⟩ <;> simp at h
        | cons e t =>
            obtain ⟨rfl, -⟩ : e = d ∧ _ := by simpa using hu
            constructor <;> rintro ⟨rfl, rfl⟩
            · exact hopen t rfl rfl
            · exact hclose t rfl rfl

/-- A block that is closed leaves a marker behind it, and one that is not leaves nothing. -/
theorem upTo_spec (n : Nat) (t : Text) :
    (∃ inner rest, Block.upTo n t = ⟨inner, true⟩ ∧ t = inner ++ ("]>".toList ++ rest) ∧
        Covered n inner ∧ closings inner = openings inner + n) ∨
      Block.upTo n t = ⟨t, false⟩ ∧ Covered n t := by
  fun_induction Block.upTo n t with
  | case1 n => exact Or.inr ⟨rfl, covered_nil n⟩
  | case2 n t ih =>
      rcases ih with ⟨inner, rest, hblock, rfl, hcovered, hclosed⟩ | ⟨hblock, hcovered⟩
      · refine Or.inl ⟨'<' :: '[' :: inner, rest, by rw [hblock]; rfl, rfl,
          covered_opening.mpr hcovered, ?_⟩
        rw [closings_opening, openings_opening]
        omega
      · exact Or.inr ⟨by rw [hblock]; rfl, covered_opening.mpr hcovered⟩
  | case3 t => exact Or.inl ⟨[], t, rfl, rfl, covered_nil 0, rfl⟩
  | case4 n t ih =>
      rcases ih with ⟨inner, rest, hblock, rfl, hcovered, hclosed⟩ | ⟨hblock, hcovered⟩
      · refine Or.inl ⟨']' :: '>' :: inner, rest, by rw [hblock]; rfl, rfl,
          covered_closing.mpr hcovered, ?_⟩
        rw [closings_closing, openings_closing]
        omega
      · exact Or.inr ⟨by rw [hblock]; rfl, covered_closing.mpr hcovered⟩
  | case5 n c t hopen hend hclose ih =>
      have hmark : ∀ u, c = ']' → t ≠ '>' :: u := by
        intro u hc ht
        cases n with
        | zero => exact hend u rfl hc ht
        | succ n => exact hclose n u rfl hc ht
      rcases ih with ⟨inner, rest, hblock, rfl, hcovered, hclosed⟩ | ⟨hblock, hcovered⟩
      · have hopen' : ∀ u, c = '<' → inner ≠ '[' :: u := by
          rintro u hc rfl
          exact hopen _ hc rfl
        have hmark' : ∀ u, c = ']' → inner ≠ '>' :: u := by
          rintro u hc rfl
          exact hmark _ hc rfl
        refine Or.inl ⟨c :: inner, rest, by rw [hblock]; rfl, rfl,
          (covered_cons hopen' hmark').mpr hcovered, ?_⟩
        rw [closings, openings, markers_cons hopen' hmark']
        exact hclosed
      · exact Or.inr ⟨by rw [hblock]; rfl, (covered_cons hopen hmark).mpr hcovered⟩

theorem cutAt_opening {before : Text} (h : ¬ "<[".toList <:+: before) (rest : Text) :
    cutAt "<[" (before ++ ("<[".toList ++ rest)) = some (before, rest) := by
  induction before with
  | nil => exact cutAt_append_self "<[" rest
  | cons c before ih =>
      have hnone : after "<[" (c :: (before ++ ("<[".toList ++ rest))) = none := by
        rw [Option.eq_none_iff_forall_ne_some]
        intro u hu
        rw [after_eq_some_iff] at hu
        cases before with
        | nil => simp at hu
        | cons d before =>
            obtain ⟨rfl, rfl, -⟩ : c = '<' ∧ d = '[' ∧ _ := by simpa using hu
            exact h (List.prefix_append ['<', '['] before).isInfix
      rw [List.cons_append, cutAt, hnone,
        ih fun hin => h (hin.trans (List.suffix_cons c before).isInfix)]
      rfl

theorem extract_eq_none_iff {line : Text} :
    Block.extract line = none ↔ ¬ "<[".toList <:+: line := by
  rw [Block.extract, Option.map_eq_none_iff, cutAt_eq_none_iff]

theorem extract_eq_some {before : Text} (h : ¬ "<[".toList <:+: before) (rest : Text) :
    Block.extract (before ++ ("<[".toList ++ rest)) = some (Block.upTo 0 rest) := by
  rw [Block.extract, cutAt_opening h]
  rfl

theorem exists_opening {line : Text} (h : "<[".toList <:+: line) :
    ∃ before rest, line = before ++ ("<[".toList ++ rest) ∧ ¬ "<[".toList <:+: before := by
  cases hcut : cutAt "<[" line with
  | none => exact absurd h (cutAt_eq_none_iff.mp hcut)
  | some found => exact ⟨found.1, found.2, cutAt_eq_some (by decide) hcut⟩

theorem exists_of_extract {line : Text} {block : Block} (h : Block.extract line = some block) :
    ∃ before rest, line = before ++ ("<[".toList ++ rest) ∧ ¬ "<[".toList <:+: before ∧
      Block.upTo 0 rest = block := by
  have hopen : "<[".toList <:+: line := by
    by_contra hopen
    rw [extract_eq_none_iff.mpr hopen] at h
    cases h
  obtain ⟨before, rest, rfl, hbefore⟩ := exists_opening hopen
  rw [extract_eq_some hbefore, Option.some.injEq] at h
  exact ⟨before, rest, rfl, hbefore, h⟩

theorem extract_eq_closed_iff {line inner : Text} :
    Block.extract line = some ⟨inner, true⟩ ↔ Encloses line inner := by
  constructor
  · intro h
    obtain ⟨before, rest, rfl, hbefore, h⟩ := exists_of_extract h
    rcases upTo_spec 0 rest with ⟨inner', rest', hblock, rfl, hcovered, hclosed⟩ | ⟨hblock, -⟩
    · rw [hblock, Block.mk.injEq] at h
      obtain rfl := h.1
      exact ⟨before, rest', rfl, hbefore, hcovered, hclosed⟩
    · simp [hblock] at h
  · rintro ⟨before, rest, rfl, hbefore, hinner⟩
    rw [extract_eq_some hbefore, upTo_of_covered (n := 0) hinner.covered hinner.closed]

/-- A line has no block exactly if nothing opens one. Its block is closed exactly if the markers of the
inner text pair off, and the inner text ends where a closing one is left over. In all other lines the
block runs to the end, and there too no more is closed than is open. -/
theorem extract_balanced (line : Text) :
    (Block.extract line = none ↔ ¬ "<[".toList <:+: line) ∧
    (∀ inner, Block.extract line = some ⟨inner, true⟩ ↔ Encloses line inner) ∧
    ("<[".toList <:+: line → (∀ inner, ¬ Encloses line inner) →
      ∃ before rest, line = before ++ ("<[".toList ++ rest) ∧ ¬ "<[".toList <:+: before ∧
        Block.extract line = some ⟨rest, false⟩ ∧ ∀ u, u <+: rest → closings u ≤ openings u) := by
  refine ⟨extract_eq_none_iff, fun inner => extract_eq_closed_iff, fun hopen hnone => ?_⟩
  obtain ⟨before, rest, rfl, hbefore⟩ := exists_opening hopen
  rcases upTo_spec 0 rest with ⟨inner, rest', hblock, -, -, -⟩ | ⟨hblock, hcovered⟩
  · have hextract := extract_eq_some hbefore rest
    rw [hblock] at hextract
    exact absurd (extract_eq_closed_iff.mp hextract) (hnone inner)
  · exact ⟨before, rest, rfl, hbefore, by rw [extract_eq_some hbefore, hblock], hcovered⟩

/-- The marker that closes the inner block does not close the outer one. -/
def unclosed : Text := "[> a]> <<[b <[c]>]".toList

theorem extract_balanced_unclosed :
    ("<[".toList <:+: unclosed ∧ ∀ inner, ¬ Encloses unclosed inner) ∧
    ∃ before rest, unclosed = before ++ ("<[".toList ++ rest) ∧ ¬ "<[".toList <:+: before ∧
      Block.extract unclosed = some ⟨rest, false⟩ ∧ ∀ u, u <+: rest → closings u ≤ openings u := by
  have hopen : "<[".toList <:+: unclosed := by decide
  have hextract : Block.extract unclosed = some ⟨"b <[c]>]".toList, false⟩ := by decide
  have hnone (inner : Text) : ¬ Encloses unclosed inner := fun h => by
    rw [← extract_eq_closed_iff, hextract] at h
    simp at h
  exact ⟨⟨hopen, hnone⟩, (extract_balanced unclosed).2.2 hopen hnone⟩

end Warboard.Change
