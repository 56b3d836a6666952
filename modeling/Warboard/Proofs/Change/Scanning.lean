import Warboard.Proofs.Change.Balance
import Warboard.Proofs.Change.Pieces

namespace Warboard.Change

open Text

/-- With `n` blocks open before it, the text closes these and its own, and nothing else. -/
structure Closes (n : Nat) (t : Text) : Prop where
  covered : Covered n t
  count : closings t = openings t + n

section Closes

variable {n : Nat} {t : Text}

theorem balanced_iff_closes : Balanced t ↔ Closes 0 t :=
  ⟨fun h => ⟨h.covered, h.closed⟩, fun h => ⟨h.covered, h.count⟩⟩

theorem closes_zero_nil : Closes 0 [] := ⟨covered_nil 0, rfl⟩

theorem closes_opening : Closes n ('<' :: '[' :: t) ↔ Closes (n + 1) t := by
  constructor
  · rintro ⟨hcovered, hcount⟩
    rw [closings_opening, openings_opening] at hcount
    exact ⟨covered_opening.mp hcovered, by omega⟩
  · rintro ⟨hcovered, hcount⟩
    refine ⟨covered_opening.mpr hcovered, ?_⟩
    rw [closings_opening, openings_opening]
    omega

theorem closes_closing : Closes (n + 1) (']' :: '>' :: t) ↔ Closes n t := by
  constructor
  · rintro ⟨hcovered, hcount⟩
    rw [closings_closing, openings_closing] at hcount
    exact ⟨covered_closing.mp hcovered, by omega⟩
  · rintro ⟨hcovered, hcount⟩
    refine ⟨covered_closing.mpr hcovered, ?_⟩
    rw [closings_closing, openings_closing]
    omega

theorem closes_cons {c : Char} (hopen : ∀ u, c = '<' → t ≠ '[' :: u)
    (hclose : ∀ u, c = ']' → t ≠ '>' :: u) : Closes n (c :: t) ↔ Closes n t := by
  have hmarkers := markers_cons hopen hclose
  constructor
  · rintro ⟨hcovered, hcount⟩
    rw [closings, openings, hmarkers] at hcount
    exact ⟨(covered_cons hopen hclose).mp hcovered, hcount⟩
  · rintro ⟨hcovered, hcount⟩
    refine ⟨(covered_cons hopen hclose).mpr hcovered, ?_⟩
    rw [closings, openings, hmarkers]
    exact hcount

end Closes

/-- Of pieces in a row, with `n` blocks open before the first, each closes what is open before the
next one begins, and the last one does so if `P`. -/
def CloseInTurn (P : Prop) : Nat → List Text → Prop
  | _, [] => True
  | n, [p] => P → Closes n p
  | n, p :: q :: ps => Closes n p ∧ CloseInTurn P 0 (q :: ps)

namespace CloseInTurn

variable {P P' : Prop} {n m : Nat} {p p' : Text} {ps : List Text}

theorem head (h : CloseInTurn P m (p :: ps)) (hP : P' → P) (hp : Closes m p → Closes n p') :
    CloseInTurn P' n (p' :: ps) := by
  cases ps with
  | nil => exact fun hP' => hp (h (hP hP'))
  | cons q ps =>
      obtain ⟨hfirst, hlater⟩ := h
      refine ⟨hp hfirst, ?_⟩
      clear hfirst
      induction ps generalizing q with
      | nil => exact fun hP' => hlater (hP hP')
      | cons q' ps ih => exact ⟨hlater.1, ih q' hlater.2⟩

theorem balanced_of_mem_dropLast (h : CloseInTurn P 0 ps) : ∀ q ∈ ps.dropLast, Balanced q := by
  induction ps with
  | nil => simp
  | cons p ps ih =>
      cases ps with
      | nil => simp
      | cons q ps =>
          rw [List.dropLast_cons_cons, List.forall_mem_cons]
          exact ⟨balanced_iff_closes.mpr h.1, ih h.2⟩

theorem balanced_of_mem (h : CloseInTurn P 0 ps) (hP : P) : ∀ q ∈ ps, Balanced q := by
  induction ps with
  | nil => simp
  | cons p ps ih =>
      rw [List.forall_mem_cons]
      cases ps with
      | nil => exact ⟨balanced_iff_closes.mpr (h hP), by simp⟩
      | cons q ps => exact ⟨balanced_iff_closes.mpr h.1, ih h.2⟩

end CloseInTurn

theorem cut_fst_prefix (n : Nat) (t : Text) : (cut n t).1 <+: t := by
  have hjoined := joined_cut n t
  cases hps : (cut n t).2 with
  | nil => rw [hps, List.intercalate_singleton] at hjoined; rw [hjoined]
  | cons q ps =>
      rw [hps, joined_cons (by simp)] at hjoined
      exact ⟨_, hjoined⟩

/-- A text that closes no more than is open is cut where all is closed. -/
theorem closeInTurn_cut {n : Nat} {t : Text} (h : Covered n t) :
    CloseInTurn (Closes n t) n ((cut n t).1 :: (cut n t).2) := by
  fun_induction cut n t with
  | case1 n => exact id
  | case2 n t ih =>
      exact (ih (covered_opening.mp h)).head closes_opening.mp closes_opening.mpr
  | case3 n t ih =>
      cases n with
      | zero => exact absurd h (not_covered_zero_closing t)
      | succ n => exact (ih (covered_closing.mp h)).head closes_closing.mp closes_closing.mpr
  | case4 t hs later ih =>
      have hcomma : Closes 0 (',' :: ' ' :: t) ↔ Closes 0 t := by
        rw [closes_cons (by simp) (by simp), closes_cons (by simp) (by simp)]
      have hcovered : Covered 0 t := by
        rwa [covered_cons (by simp) (by simp), covered_cons (by simp) (by simp)] at h
      exact ⟨closes_zero_nil, (ih hcovered).head hcomma.mp id⟩
  | case5 t hs ih =>
      have hcovered := (covered_cons (by simp) (by simp)).mp h
      refine (ih hcovered).head (closes_cons (by simp) (by simp)).mp ?_
      exact (closes_cons (by simp) (by simp)).mpr
  | case6 n c t hopen hclose hbreak ih =>
      have hfirst := cut_fst_prefix n t
      refine (ih ((covered_cons hopen hclose).mp h)).head (closes_cons hopen hclose).mp ?_
      refine (closes_cons ?_ ?_).mpr
      · rintro u hc hu
        obtain ⟨v, hv⟩ := hu ▸ hfirst
        exact hopen (u ++ v) hc hv.symm
      · rintro u hc hu
        obtain ⟨v, hv⟩ := hu ▸ hfirst
        exact hclose (u ++ v) hc hv.symm

/-- No marker goes over the seam. -/
theorem markers_append {u : Text} (h : ∀ c ∈ u.head?, c ≠ '[' ∧ c ≠ '>') (t : Text) :
    markers (t ++ u) = markers t ++ markers u := by
  induction t using markers.induct with
  | case1 => rfl
  | case2 t ih | case3 t ih => simp [markers, ih]
  | case4 c t hopen hclose ih =>
      have hseam : ∀ d v, (d = '[' ∨ d = '>') → t ++ u = d :: v → ∃ w, t = d :: w := by
        intro d v hd ht
        cases t with
        | nil =>
            subst ht
            exact absurd (h d rfl) (by tauto)
        | cons e t => exact ⟨t, by rw [(List.cons.inj ht).1]⟩
      rw [List.cons_append, markers_cons, markers_cons hopen hclose, ih]
      · intro v hc ht
        obtain ⟨w, hw⟩ := hseam '[' v (Or.inl rfl) ht
        exact hopen w hc hw
      · intro v hc ht
        obtain ⟨w, hw⟩ := hseam '>' v (Or.inr rfl) ht
        exact hclose w hc hw

section Blank

variable {ws : Text} (hws : ∀ c ∈ ws, isBlank c = true)
include hws

theorem markers_blank_append (t : Text) : markers (ws ++ t) = markers t := by
  induction ws with
  | nil => rfl
  | cons c ws ih =>
      rw [List.forall_mem_cons] at hws
      rw [List.cons_append, markers_cons, ih hws.2]
      · rintro u rfl
        exact absurd hws.1 (by decide)
      · rintro u rfl
        exact absurd hws.1 (by decide)

theorem markers_append_blank (t : Text) : markers (t ++ ws) = markers t := by
  have hnone := markers_blank_append hws []
  rw [List.append_nil] at hnone
  rw [markers_append, hnone, markers, List.append_nil]
  intro c hc
  have hblank := hws c (List.mem_of_mem_head? hc)
  constructor <;> rintro rfl <;> exact absurd hblank (by decide)

end Blank

/-- No marker is lost or made where white space is taken off the ends. -/
theorem Balanced.trim {t : Text} (h : Balanced t) : Balanced (trim t) := by
  obtain ⟨before, later, ht, hbefore, hlater⟩ := exists_eq_trim t
  generalize Text.trim t = u at ht ⊢
  subst ht
  have hmarkers : markers (before ++ (u ++ later)) = markers u := by
    rw [markers_blank_append hbefore, markers_append_blank hlater]
  constructor
  · rintro v ⟨w, rfl⟩
    have hcovered := h.covered (before ++ v) (by simp)
    rwa [closings, openings, markers_blank_append hbefore] at hcovered
  · have hclosed := h.closed
    rwa [closings, openings, hmarkers] at hclosed

theorem exists_of_mem_tidied {ps : List Text} {t : Text} (h : t ∈ tidied ps) :
    ∃ p ∈ ps, trim p = t :=
  List.mem_map.mp (List.mem_filter.mp h).1

/-- If the last piece is blank, the last fragment is what is left of an earlier piece. -/
theorem exists_of_mem_dropLast_tidied {ps : List Text} {t : Text} (h : t ∈ (tidied ps).dropLast) :
    ∃ p ∈ ps.dropLast, trim p = t := by
  rcases ps.eq_nil_or_concat' with rfl | ⟨init, last, rfl⟩
  · exact absurd h List.not_mem_nil
  have hlast : tidied [last] = [] ∨ tidied [last] = [trim last] := by
    by_cases hblank : trim last = []
    · exact Or.inl (by simp [tidied, hblank])
    · exact Or.inr (by simp [tidied, hblank])
  rw [List.dropLast_concat]
  rw [tidied_append] at h
  rcases hlast with hlast | hlast
  · rw [hlast, List.append_nil] at h
    exact exists_of_mem_tidied (List.mem_of_mem_dropLast h)
  · rw [hlast, List.dropLast_concat] at h
    exact exists_of_mem_tidied h

theorem balanced_of_mem_dropLast_siblings {inner t : Text} (h : Covered 0 inner)
    (ht : t ∈ (siblings inner).dropLast) : Balanced t := by
  obtain ⟨p, hp, rfl⟩ := exists_of_mem_dropLast_tidied ht
  exact ((closeInTurn_cut h).balanced_of_mem_dropLast p hp).trim

theorem balanced_of_mem_siblings {inner t : Text} (h : Closes 0 inner) (ht : t ∈ siblings inner) :
    Balanced t := by
  obtain ⟨p, hp, rfl⟩ := exists_of_mem_tidied ht
  exact ((closeInTurn_cut h.covered).balanced_of_mem h p hp).trim

theorem not_marker {c : Char} {t : Text} (hopen : ∀ u, c = '<' → t ≠ '[' :: u)
    (hclose : ∀ u, c = ']' → t ≠ '>' :: u) (d : Char) (u : Text) (ht : t = d :: u) :
    ¬ (c = '<' ∧ d = '[') ∧ ¬ (c = ']' ∧ d = '>') := by
  constructor
  · rintro ⟨hc, rfl⟩
    exact hopen u hc ht
  · rintro ⟨hc, rfl⟩
    exact hclose u hc ht

/-- The search for the end of a block between two steps: the number of inner blocks open, and the
text that is left. -/
structure Search where
  depth : Nat
  rest : Text

namespace Search

/-- One turn of the loop. There is none where the block ends. -/
inductive Turn : Search → Search → Prop
  | opening (n : Nat) (t : Text) : Turn ⟨n, '<' :: '[' :: t⟩ ⟨n + 1, t⟩
  | closing (n : Nat) (t : Text) : Turn ⟨n + 1, ']' :: '>' :: t⟩ ⟨n, t⟩
  | other (n : Nat) {c : Char} {t : Text} (hopen : ∀ u, c = '<' → t ≠ '[' :: u)
    (hclose : ∀ u, c = ']' → t ≠ '>' :: u) : Turn ⟨n, c :: t⟩ ⟨n, t⟩

abbrev Reaches : Search → Search → Prop := Relation.ReflTransGen Turn

/-- The block that the search ends with. -/
def block (s : Search) : Block := .upTo s.depth s.rest

/-- What a stretch of the search passes over belongs to the block. -/
theorem Reaches.block_eq {s s' : Search} (h : Reaches s s') :
    ∃ front, s.rest = front ++ s'.rest ∧ s.block = s'.block.cons front := by
  induction h with
  | refl => exact ⟨[], rfl, rfl⟩
  | tail _ hturn ih =>
      obtain ⟨front, hrest, hblock⟩ := ih
      cases hturn with
      | opening n t =>
          refine ⟨front ++ ['<', '['], by simp [hrest], ?_⟩
          rw [hblock, ← Block.cons_cons]
          rfl
      | closing n t =>
          refine ⟨front ++ [']', '>'], by simp [hrest], ?_⟩
          rw [hblock, ← Block.cons_cons]
          rfl
      | @other n c t hopen hclose =>
          refine ⟨front ++ [c], by simp [hrest], ?_⟩
          rw [hblock, ← Block.cons_cons, block, upTo_cons (not_marker hopen hclose)]
          rfl

end Search

/-- The cutting of a batch between two steps: the number of inner blocks open, the pieces that are
done, the one begun, and the text that is left. -/
structure Cutting where
  depth : Nat
  done : List Text
  piece : Text
  rest : Text

namespace Cutting

def start (inner : Text) : Cutting := ⟨0, [], [], inner⟩

/-- One turn of the loop. The number stays at zero where a marker closes more than is open. -/
inductive Turn : Cutting → Cutting → Prop
  | opening (n : Nat) (done : List Text) (piece t : Text) :
    Turn ⟨n, done, piece, '<' :: '[' :: t⟩ ⟨n + 1, done, piece ++ ['<', '['], t⟩
  | closing (n : Nat) (done : List Text) (piece t : Text) :
    Turn ⟨n, done, piece, ']' :: '>' :: t⟩ ⟨n - 1, done, piece ++ [']', '>'], t⟩
  | separator (done : List Text) (piece : Text) {t : Text} (hnext : startsChange t = true) :
    Turn ⟨0, done, piece, ',' :: ' ' :: t⟩ ⟨0, done ++ [piece], [], t⟩
  | other (n : Nat) (done : List Text) (piece : Text) {c : Char} {t : Text}
    (hopen : ∀ u, c = '<' → t ≠ '[' :: u) (hclose : ∀ u, c = ']' → t ≠ '>' :: u)
    (hnext : ∀ u, n = 0 → c = ',' → t = ' ' :: u → startsChange u = false) :
    Turn ⟨n, done, piece, c :: t⟩ ⟨n, done, piece ++ [c], t⟩

abbrev Reaches : Cutting → Cutting → Prop := Relation.ReflTransGen Turn

/-- The pieces that the loop ends with. -/
def pieces (s : Cutting) : List Text :=
  s.done ++ (s.piece ++ (cut s.depth s.rest).1) :: (cut s.depth s.rest).2

theorem Turn.pieces_eq {s s' : Cutting} (h : Turn s s') : s'.pieces = s.pieces := by
  cases h with
  | opening n done piece t | closing n done piece t => simp [pieces, cut, cut.grow]
  | separator done piece hnext => simp [pieces, cut, hnext]
  | @other n done piece c t hopen hclose hnext =>
      simp [pieces, cut_cons (not_marker hopen hclose) hnext, cut.grow]

theorem Reaches.pieces_eq {s s' : Cutting} (h : Reaches s s') : s'.pieces = s.pieces := by
  induction h with
  | refl => rfl
  | tail _ hturn ih => exact hturn.pieces_eq.trans ih

theorem pieces_start (inner : Text) : (start inner).pieces = Change.pieces inner := rfl

theorem pieces_of_rest {s : Cutting} (h : s.rest = []) : s.pieces = s.done ++ [s.piece] := by
  simp [pieces, h, cut]

theorem Turn.length_lt {s s' : Cutting} (h : Turn s s') : s'.rest.length < s.rest.length := by
  cases h <;> simp only [List.length_cons] <;> omega

theorem exists_turn {s : Cutting} (h : s.rest ≠ []) : ∃ s', Turn s s' := by
  obtain ⟨n, done, piece, rest⟩ := s
  obtain ⟨c, t, rfl⟩ := List.exists_cons_of_ne_nil h
  by_cases hopen : ∃ u, c = '<' ∧ t = '[' :: u
  · obtain ⟨u, rfl, rfl⟩ := hopen
    exact ⟨_, .opening n done piece u⟩
  by_cases hclose : ∃ u, c = ']' ∧ t = '>' :: u
  · obtain ⟨u, rfl, rfl⟩ := hclose
    exact ⟨_, .closing n done piece u⟩
  by_cases hnext : ∃ u, n = 0 ∧ c = ',' ∧ t = ' ' :: u ∧ startsChange u = true
  · obtain ⟨u, rfl, rfl, rfl, hnext⟩ := hnext
    exact ⟨_, .separator done piece hnext⟩
  refine ⟨_, .other n done piece (fun u hc ht => hopen ⟨u, hc, ht⟩)
    (fun u hc ht => hclose ⟨u, hc, ht⟩) fun u hn hc ht => ?_⟩
  exact Bool.eq_false_of_not_eq_true fun hu => hnext ⟨u, hn, hc, ht, hu⟩

theorem exists_reaches_end (s : Cutting) : ∃ s', Reaches s s' ∧ s'.rest = [] := by
  induction hn : s.rest.length using Nat.strong_induction_on generalizing s with
  | _ n ih =>
      by_cases hrest : s.rest = []
      · exact ⟨s, .refl, hrest⟩
      · obtain ⟨s', hturn⟩ := exists_turn hrest
        obtain ⟨t, hreaches, ht⟩ := ih _ (hn ▸ hturn.length_lt) s' rfl
        exact ⟨t, .head hturn hreaches, ht⟩

theorem depth_eq_zero_of_upTo {n : Nat} {t : Text} (h : Block.upTo n t = ⟨[], true⟩) : n = 0 := by
  fun_cases Block.upTo n t with
  | case3 => rfl
  | _ => simp [Block.upTo, Block.cons] at h

section Block

variable {inner tail : Text} {closed : Bool} {s s' : Cutting}

/-- The search for the end of the block comes to the same place with as many inner blocks open. -/
def InStep (inner tail : Text) (s : Cutting) : Prop :=
  Search.Reaches ⟨0, inner ++ tail⟩ ⟨s.depth, s.rest ++ tail⟩

theorem inStep_start (inner tail : Text) : InStep inner tail (start inner) := .refl

variable (hblock : Block.upTo 0 (inner ++ tail) = ⟨inner, closed⟩)
include hblock

/-- What is left of the inner text is what the search still puts into the block. -/
theorem InStep.upTo_eq (h : InStep inner tail s) :
    Block.upTo s.depth (s.rest ++ tail) = ⟨s.rest, closed⟩ := by
  obtain ⟨front, hpassed, hfound⟩ := h.block_eq
  rw [Search.block, hblock] at hfound
  have hfront : inner = front ++ s.rest :=
    List.append_cancel_right (hpassed.trans (List.append_assoc front s.rest tail).symm)
  have hinner : inner = front ++ (Block.upTo s.depth (s.rest ++ tail)).inner :=
    congrArg Block.inner hfound
  have hclosed : closed = (Block.upTo s.depth (s.rest ++ tail)).closed :=
    congrArg Block.closed hfound
  have hrest : (Block.upTo s.depth (s.rest ++ tail)).inner = s.rest :=
    List.append_cancel_left (hinner.symm.trans hfront)
  calc Block.upTo s.depth (s.rest ++ tail)
    _ = ⟨(Block.upTo s.depth (s.rest ++ tail)).inner,
        (Block.upTo s.depth (s.rest ++ tail)).closed⟩ := rfl
    _ = ⟨s.rest, closed⟩ := by rw [hrest, ← hclosed]

theorem InStep.depth_ne_zero (h : InStep inner tail s) {t : Text} (ht : s.rest = ']' :: '>' :: t) :
    s.depth ≠ 0 := by
  intro hzero
  have hfound := h.upTo_eq hblock
  rw [ht, hzero] at hfound
  simp [Block.upTo] at hfound

theorem InStep.turn (htail : Sealed tail) (h : InStep inner tail s) (hturn : Turn s s') :
    InStep inner tail s' := by
  have hseam {d : Char} (hd : d ≠ ',' ∧ d ≠ ']') {t u : Text} (ht : t ++ tail = d :: u) :
      ∃ v, t = d :: v := htail.exists_eq_cons ht hd
  cases hturn with
  | opening n done piece t => exact h.tail (.opening n (t ++ tail))
  | closing n done piece t =>
      cases n with
      | zero => exact absurd rfl (h.depth_ne_zero hblock rfl)
      | succ n => exact h.tail (.closing n (t ++ tail))
  | separator done piece hnext =>
      exact (h.tail (.other 0 (by simp) (by simp))).tail (.other 0 (by simp) (by simp))
  | other n done piece hopen hclose hnext =>
      refine h.tail (.other n ?_ ?_)
      · intro u hc ht
        obtain ⟨v, hv⟩ := hseam (by decide) ht
        exact hopen v hc hv
      · intro u hc ht
        obtain ⟨v, hv⟩ := hseam (by decide) ht
        exact hclose v hc hv

theorem Reaches.inStep (htail : Sealed tail) (h : Reaches (start inner) s) :
    InStep inner tail s := by
  induction h with
  | refl => exact inStep_start inner tail
  | tail _ hturn ih => exact ih.turn hblock htail hturn

end Block

end Cutting

/-- The block of a line stands behind its first opening marker, and what comes behind the block is
nothing, or the marker that closes it. -/
theorem exists_tail_of_extract {line : Text} {block : Block} (h : Block.extract line = some block) :
    ∃ before tail, line = before ++ ("<[".toList ++ (block.inner ++ tail)) ∧
      ¬ "<[".toList <:+: before ∧ Block.upTo 0 (block.inner ++ tail) = block ∧ Sealed tail ∧
      Covered 0 block.inner ∧ (block.closed = true → Closes 0 block.inner) := by
  obtain ⟨before, rest, rfl, hbefore, hblock⟩ := exists_of_extract h
  rcases upTo_spec 0 rest with ⟨inner, after, hspec, rfl, hcovered, hcount⟩ | ⟨hspec, hcovered⟩
  · rw [hspec] at hblock
    subst hblock
    exact ⟨before, _, rfl, hbefore, hspec, sealed_closing after, hcovered,
      fun _ => ⟨hcovered, hcount⟩⟩
  · rw [hspec] at hblock
    subst hblock
    exact ⟨before, [], by simp, hbefore, by simpa using hspec, sealed_nil, hcovered, by simp⟩

/-- While a block is cut into its changes, at each place as many inner blocks are open as there were
when its end was looked for. So the loop, which ends, never closes a block where none is open, and
if the block is closed, none is open in the end. In all changes but the last the markers pair off,
and in the last one too if the block is closed. -/
theorem cutting_inStep {line : Text} {block : Block} (h : Block.extract line = some block) :
    ∃ before tail, line = before ++ ("<[".toList ++ (block.inner ++ tail)) ∧
      ¬ "<[".toList <:+: before ∧ Block.upTo 0 (block.inner ++ tail) = block ∧
      (∀ s, Cutting.Reaches (.start block.inner) s →
        Search.Reaches ⟨0, block.inner ++ tail⟩ ⟨s.depth, s.rest ++ tail⟩ ∧
        (∀ t, s.rest = "]>".toList ++ t → s.depth ≠ 0) ∧
        (s.rest = [] → tidied (s.done ++ [s.piece]) = siblings block.inner ∧
          (block.closed = true → s.depth = 0))) ∧
      (∃ s, Cutting.Reaches (.start block.inner) s ∧ s.rest = []) ∧
      (∀ t ∈ (siblings block.inner).dropLast, Balanced t) ∧
      (block.closed = true → ∀ t ∈ siblings block.inner, Balanced t) := by
  obtain ⟨before, tail, hline, hbefore, hblock, htail, hcovered, hcloses⟩ :=
    exists_tail_of_extract h
  refine ⟨before, tail, hline, hbefore, hblock, fun s hs => ?_, Cutting.exists_reaches_end _,
    fun t => balanced_of_mem_dropLast_siblings hcovered,
    fun hclosed t => balanced_of_mem_siblings (hcloses hclosed)⟩
  have hstep := hs.inStep hblock htail
  refine ⟨hstep, fun t ht => hstep.depth_ne_zero hblock ht, fun hrest => ⟨?_, fun hclosed => ?_⟩⟩
  · rw [← Cutting.pieces_of_rest hrest, hs.pieces_eq, Cutting.pieces_start, siblings_eq_tidied]
  · have hend := hstep.upTo_eq hblock
    rw [hrest, hclosed] at hend
    exact Cutting.depth_eq_zero_of_upTo hend

/-- Brackets run into the markers, and a marker that closes nothing comes behind the block. -/
def ragged : Text := "CompositeChange <[a [b], takes <[[c, takes d]]>]>, takes e]>".toList

theorem cutting_inStep_ragged :
    let inner := "a [b], takes <[[c, takes d]]>".toList
    Block.extract ragged = some ⟨inner, true⟩ ∧
      siblings inner = ["a [b]".toList, "takes <[[c, takes d]]>".toList] ∧
      (∃ s, Cutting.Reaches (.start inner) s ∧ s.rest = [] ∧ s.depth = 0) ∧
      ∀ t ∈ siblings inner, Balanced t := by
  intro inner
  have hblock : Block.extract ragged = some ⟨inner, true⟩ := by decide
  have hsiblings : siblings inner = ["a [b]".toList, "takes <[[c, takes d]]>".toList] := by
    decide +kernel
  obtain ⟨_, _, -, -, -, hreaches, ⟨s, hs, hrest⟩, -, hbalanced⟩ := cutting_inStep hblock
  exact ⟨hblock, hsiblings, ⟨s, hs, hrest, ((hreaches s hs).2.2 hrest).2 rfl⟩, hbalanced rfl⟩

end Warboard.Change
