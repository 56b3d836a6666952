import Warboard.Change.Leaves
import Warboard.Proofs.Change.Nesting
import Warboard.Proofs.Change.Reading

namespace Warboard.Change

open Text

/-- How many inner blocks are open behind the text if `n` are open before it. -/
def depth : Nat → Text → Nat
  | n, [] => n
  | n, '<' :: '[' :: t => depth (n + 1) t
  | n, ']' :: '>' :: t => depth (n - 1) t
  | n, _ :: t => depth n t

/-- The pieces of two texts in a row: the last piece of the first runs on into the second. -/
def runOn : Text × List Text → Text × List Text → Text × List Text
  | (p, []), q => cut.grow p q
  | (p, p' :: ps), q => (p, (runOn (p', ps) q).1 :: (runOn (p', ps) q).2)

theorem runOn_grow (w : Text) (p q : Text × List Text) :
    runOn (cut.grow w p) q = cut.grow w (runOn p q) := by
  obtain ⟨p, ps⟩ := p
  cases ps with
  | nil => simp [runOn, cut.grow]
  | cons p' ps => simp [runOn, cut.grow]

theorem depth_cons {c : Char} {t : Text} (hopen : ∀ u, c = '<' → t ≠ '[' :: u)
    (hclose : ∀ u, c = ']' → t ≠ '>' :: u) (n : Nat) : depth n (c :: t) = depth n t := by
  rw [depth]
  · exact hopen
  · exact hclose

theorem depth_comma_blank (n : Nat) (t : Text) : depth n (',' :: ' ' :: t) = depth n t := by
  rw [depth_cons (by simp) (by simp), depth_cons (by simp) (by simp)]

theorem Sealed.exists_eq_cons {t rest u : Text} {d : Char} (hr : Sealed rest)
    (h : t ++ rest = d :: u) (hd : d ≠ ',' ∧ d ≠ ']') : ∃ v, t = d :: v := by
  cases t with
  | nil => rcases hr d (by simp_all) with rfl | rfl <;> simp at hd
  | cons e v =>
      obtain rfl : e = d := by simp_all
      exact ⟨v, rfl⟩

/-- No marker or separator goes over the seam, so that the second text is cut by itself, at the depth
that the first one leaves. -/
theorem cut_append {rest : Text} (hr : Sealed rest) (n : Nat) (front : Text) :
    cut n (front ++ rest) = runOn (cut n front) (cut (depth n front) rest) := by
  fun_induction cut n front with
  | case1 n => simp [runOn, depth, cut.grow]
  | case2 n t ih => simp only [List.cons_append, cut, depth, runOn_grow, ih]
  | case3 n t ih => simp only [List.cons_append, cut, depth, runOn_grow, ih]
  | case4 t hs later ih =>
      have hs' := startsChange_append hs rest
      rw [depth_comma_blank]
      simp only [List.cons_append, cut, hs', if_true, ih, later, runOn]
  | case5 t hs ih =>
      have hs' := startsChange_append_of_sealed (by simpa using hs) hr
      rw [List.cons_append, depth_cons (by simp) (by simp)] at ih
      rw [depth_comma_blank]
      simp only [List.cons_append, cut, hs', Bool.false_eq_true, if_false, runOn_grow, ih]
  | case6 n c t hopen hclose hbreak ih =>
      rw [depth_cons hopen hclose, List.cons_append, cut_cons, ih, runOn_grow]
      · rintro d u ht
        constructor <;> rintro ⟨rfl, rfl⟩
        · obtain ⟨v, hv⟩ := hr.exists_eq_cons ht (by decide)
          exact hopen v rfl hv
        · obtain ⟨v, hv⟩ := hr.exists_eq_cons ht (by decide)
          exact hclose v rfl hv
      · rintro u rfl rfl ht
        obtain ⟨v, hv⟩ := hr.exists_eq_cons ht (by decide)
        exact absurd hv (hbreak v rfl rfl)

theorem runOn_pieces (p : Text × List Text) :
    ∃ (ps : List Text) (last : Text), p.1 :: p.2 = ps ++ [last] ∧
      ∀ q, (runOn p q).1 :: (runOn p q).2 = ps ++ (last ++ q.1) :: q.2 := by
  obtain ⟨t, ts⟩ := p
  induction ts generalizing t with
  | nil => exact ⟨[], t, rfl, fun q => by simp [runOn, cut.grow]⟩
  | cons u us ih =>
      obtain ⟨ps, last, hp, hq⟩ := ih u
      exact ⟨t :: ps, last, by simp [hp], fun q => by simp [runOn, hq]⟩

/-- Behind a text in which every inner block is closed, the cutting starts anew. -/
theorem pieces_append {front rest : Text} (hfront : depth 0 front = 0) (hr : Sealed rest) :
    ∃ (ps : List Text) (last : Text), pieces front = ps ++ [last] ∧
      pieces (front ++ rest) = ps ++ (last ++ (cut 0 rest).1) :: (cut 0 rest).2 := by
  obtain ⟨ps, last, hp, hq⟩ := runOn_pieces (cut 0 front)
  refine ⟨ps, last, hp, ?_⟩
  rw [← hq, pieces, cut_append hr, hfront]

theorem cut_separator_of_not_startsChange {t : Text} (h : startsChange t = false) :
    cut 0 (Tree.separator ++ t) = cut.grow Tree.separator (cut 0 t) := by
  simp [Tree.separator, cut, cut.grow, h]

/-- A fragment with the text behind it ends where the text begins: at the end of the batch, or at the
separator before the next change. -/
def EndsFragment (rest : Text) : Prop :=
  rest = [] ∨ ∃ next, startsChange next = true ∧ rest = Tree.separator ++ next

theorem EndsFragment.isSealed {rest : Text} (h : EndsFragment rest) : Sealed rest := by
  rcases h with rfl | ⟨next, -, rfl⟩
  · exact sealed_nil
  · exact sealed_separator next

theorem EndsFragment.cut_eq {rest : Text} (h : EndsFragment rest) : (cut 0 rest).1 = [] := by
  rcases h with rfl | ⟨next, hnext, rfl⟩
  · rfl
  · rw [cut_separator_zero hnext]

/-- The report that a territory changes hands, for any names of word characters. -/
def transition (player territory previous : Token isWord) : Text :=
  player.text ++ (" takes ".toList ++ (territory.text ++ (" from ".toList ++ previous.text)))

section Transition

variable (player territory previous : Token isWord)

theorem ordinary_of_mem_transition : ∀ c ∈ transition player territory previous, Ordinary c := by
  have hword : ∀ c, isWord c = true → Ordinary c := by
    rintro c hc
    refine ⟨?_, ?_, ?_⟩ <;> rintro rfl <;> exact absurd hc (by decide)
  simp only [transition, List.forall_mem_append]
  exact ⟨fun c hc => hword c (player.chars c hc), by simp [Ordinary],
    fun c hc => hword c (territory.chars c hc), by simp [Ordinary],
    fun c hc => hword c (previous.chars c hc)⟩

theorem trim_transition : trim (transition player territory previous) =
    transition player territory previous := by
  have hstart := player.starts fun _ => isBlank_of_isWord
  have hstop := previous.stops fun _ => isBlank_of_isWord
  exact (hstart.append _).trim_eq
    ((((hstop.append " from ".toList).append territory.text).append " takes ".toList).append
      player.text)

/-- The first word of every header is one of letters. -/
theorem headers_first_word : ∀ w ∈ headers,
    (w.toList.takeWhile (· ≠ ' ')).length ≠ w.toList.length ∧
      ∀ c ∈ w.toList.takeWhile (· ≠ ' '), startsChange.isAlphanumericOr_ c = true := by
  decide

theorem startsChange_transition : startsChange (transition player territory previous) = true ↔
    ∀ c ∈ player.text, startsChange.isAlphanumericOr_ c = true := by
  have hblank : ' ' ∉ player.text := player.not_mem (by decide)
  set rest := "takes ".toList ++ (territory.text ++ (" from ".toList ++ previous.text))
  have hline : transition player territory previous = player.text ++ ' ' :: rest := rfl
  have hend : ∀ c ∈ (' ' :: rest).head?, startsChange.isAlphanumericOr_ c = false := by
    rintro c ⟨rfl⟩
    decide
  rw [startsChange_iff, hline, takeWhile_append_of_head hend, dropWhile_append_of_head hend]
  constructor
  · rintro (⟨w, hw, u, hu⟩ | ⟨-, u, hu⟩)
    · -- a header at the head of the line has the player's name as its first word
      obtain ⟨hlen, hplain⟩ := headers_first_word w hw
      have hname := takeWhile_append_cons hblank rest
      rw [← hu, List.takeWhile_append, if_neg hlen] at hname
      exact hname ▸ hplain
    · rw [← List.dropWhile_eq_nil_iff]
      cases hd : player.text.dropWhile startsChange.isAlphanumericOr_ with
      | nil => rfl
      | cons c v =>
          rw [hd] at hu
          obtain rfl : ' ' = c := (List.cons.inj hu).1
          have hmem : ' ' ∈ player.text.dropWhile startsChange.isAlphanumericOr_ := by simp [hd]
          exact absurd ((List.dropWhile_sublist _).subset hmem) hblank
  · intro h
    rw [List.takeWhile_eq_self_iff.mpr h, List.dropWhile_eq_nil_iff.mpr h]
    exact Or.inr ⟨player.ne_nil, List.prefix_append " takes ".toList _⟩

end Transition

theorem mem_trim {c : Char} {t : Text} (h : c ∈ t) (hc : isBlank c = false) : c ∈ trim t := by
  have hmem {u : Text} (h : c ∈ u) : c ∈ u.dropWhile isBlank := by
    rw [← List.takeWhile_append_dropWhile (p := isBlank) (l := u), List.mem_append] at h
    exact h.resolve_left fun h => by simp [List.mem_takeWhile_imp h] at hc
  rw [trim, trimEnd, dropEndWhile, List.mem_reverse]
  exact hmem (List.mem_reverse.mpr (hmem h))

/-- What is left of the pieces of a batch. -/
def tidied (ts : List Text) : List Text := (ts.map trim).filter fun t => !t.isEmpty

theorem siblings_eq_tidied (t : Text) : siblings t = tidied (pieces t) := rfl

theorem tidied_append (ts us : List Text) : tidied (ts ++ us) = tidied ts ++ tidied us := by
  rw [tidied, List.map_append, List.filter_append]
  rfl

theorem tidied_cons (t : Text) (ts : List Text) : tidied (t :: ts) = tidied [t] ++ tidied ts :=
  tidied_append [t] ts

theorem tidied_singleton {t : Text} (htrim : trim t = t) (hne : t ≠ []) : tidied [t] = [t] := by
  simp [tidied, htrim, hne]

theorem eq_trim_of_mem_tidied {t u : Text} (h : u ∈ tidied [t]) : u = trim t := by
  have hmem := (List.mem_filter.mp h).1
  simpa using hmem

theorem EndsFragment.siblings_eq {rest : Text} (h : EndsFragment rest) :
    siblings rest = tidied (cut 0 rest).2 := by
  rw [siblings_eq_tidied, pieces, tidied_cons, h.cut_eq]
  rfl

/-- A report that a territory changes hands begins as changes do, and outside inner blocks is a
fragment by itself, exactly if the player's name has no characters but letters, numbers and `_`. -/
theorem siblings_transition_iff (player territory previous : Token isWord) {front rest : Text}
    (hfront : depth 0 front = 0) (hrest : EndsFragment rest) :
    (startsChange (transition player territory previous) = true ↔
      ∀ c ∈ player.text, isAlphanumeric c = true ∨ c = '_') ∧
    (siblings (front ++ (", ".toList ++ (transition player territory previous ++ rest))) =
        siblings front ++ transition player territory previous :: siblings rest ↔
      ∀ c ∈ player.text, isAlphanumeric c = true ∨ c = '_') := by
  have hiff := startsChange_transition player territory previous
  simp only [startsChange.isAlphanumericOr_, Bool.or_eq_true, decide_eq_true_eq] at hiff
  refine ⟨hiff, ?_⟩
  rw [← hiff]
  have hordinary := ordinary_of_mem_transition player territory previous
  have halone := tidied_singleton (trim_transition player territory previous)
    (by simp [transition, player.ne_nil])
  set line := transition player territory previous
  have hline : cut 0 (line ++ rest) = (line, (cut 0 rest).2) := by
    rw [cut_append_of_ordinary hordinary, cut.grow, hrest.cut_eq, List.append_nil]
  obtain ⟨ps, last, hp, hcut⟩ := pieces_append hfront (sealed_separator (line ++ rest))
  rw [← Tree.separator, siblings_eq_tidied front, hp, hrest.siblings_eq, siblings_eq_tidied, hcut]
  constructor
  · intro h
    by_contra hs
    -- the fragment is glued to the sibling before it, with the separator between them
    have hs' := startsChange_append_of_sealed (by simpa using hs) hrest.isSealed
    have hglued : cut 0 (Tree.separator ++ (line ++ rest)) =
        (Tree.separator ++ line, (cut 0 rest).2) := by
      rw [cut_separator_of_not_startsChange hs', hline, cut.grow]
    rw [hglued, tidied_append, tidied_append, List.append_assoc, List.append_cancel_left_eq,
      tidied_cons, List.append_cons, List.append_cancel_right_eq] at h
    have hmem : line ∈ tidied [last ++ (Tree.separator ++ line)] := by simp [h]
    have hcomma : ',' ∈ line := by
      rw [eq_trim_of_mem_tidied hmem]
      exact mem_trim (by simp [Tree.separator]) (by decide)
    exact (hordinary ',' hcomma).2.2 rfl
  · intro hs
    rw [cut_separator_zero (startsChange_append hs rest), hline, List.append_nil, tidied_append,
      tidied_append, tidied_cons last, tidied_cons line, halone, List.append_assoc,
      List.singleton_append]

def red : Token isWord := ⟨"Red".toList, by decide, by decide⟩

def ural : Token isWord := ⟨"Ural".toList, by decide, by decide⟩

theorem siblings_transition_red :
    (depth 0 "CompositeChange <[Blue takes Kongo from Red]>".toList = 0 ∧
      EndsFragment ", Blue takes Egypt from Red".toList) ∧
    startsChange (transition red ural red) = true ∧
    siblings ("CompositeChange <[Blue takes Kongo from Red]>".toList ++ (", ".toList ++
        (transition red ural red ++ ", Blue takes Egypt from Red".toList))) =
      siblings "CompositeChange <[Blue takes Kongo from Red]>".toList ++
        transition red ural red :: siblings ", Blue takes Egypt from Red".toList :=
  have hfront : depth 0 "CompositeChange <[Blue takes Kongo from Red]>".toList = 0 := by decide
  have hrest : EndsFragment ", Blue takes Egypt from Red".toList :=
    Or.inr ⟨"Blue takes Egypt from Red".toList, by decide, rfl⟩
  have hplain : ∀ c ∈ red.text, isAlphanumeric c = true ∨ c = '_' := by decide
  have h := siblings_transition_iff red ural red hfront hrest
  ⟨⟨hfront, hrest⟩, h.1.mpr hplain, h.2.mpr hplain⟩

/-- A name with an accent that is a character of its own. -/
def accented : Token isWord := ⟨"Sa\u0303o".toList, by decide, by decide +kernel⟩

/-- By itself the report is read for what it is, but no batch is cut before it, and read together
with its sibling it is lost. -/
theorem not_startsChange_transition :
    read (transition accented ural red) =
        .ok (.single (.ownership accented.string "Ural" "Red")) ∧
      siblings ("Red takes Kongo from Blue, ".toList ++ transition accented ural red) =
        ["Red takes Kongo from Blue, ".toList ++ transition accented ural red] ∧
      read ("Red takes Kongo from Blue, ".toList ++ transition accented ural red) =
        .ok (.single (.ownership "Red" "Kongo" "Blue")) ∧
      ¬ ∀ player territory previous : Token isWord,
        startsChange (transition player territory previous) = true := by
  have hglued : startsChange (transition accented ural red) = false := by decide +kernel
  refine ⟨by decide +kernel, by decide +kernel, by decide +kernel, fun h => ?_⟩
  simp [h accented ural red] at hglued

end Warboard.Change
