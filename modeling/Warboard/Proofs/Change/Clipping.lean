import Warboard.Proofs.Change.Expansion
import Warboard.Proofs.Change.Pieces

namespace Warboard.Change

open Text Change.Tree

/-- So many closing markers in a row. -/
def Tree.closers (n : Nat) : Text := (List.replicate n closing).flatten

/-- What is left of the line of a change without so many of the closing markers at its end. The last
of them closes the change, and those before it close the last change in it. -/
inductive Clipped : Tree → Nat → Text → Prop
  | whole (t : Tree) : Clipped t 0 t.render
  | empty : Clipped (.node []) 1 opening
  | last {cs : List Tree} {c : Tree} {n : Nat} {u : Text} (h : Clipped c n u) :
      Clipped (.node (cs ++ [c])) (n + 1)
        (opening ++ separator.intercalate (cs.map Tree.render ++ [u]))

theorem closers_succ (n : Nat) : closers (n + 1) = closers n ++ closing := by
  simp [closers, List.replicate_succ']

theorem mem_closers {n : Nat} {c : Char} (h : c ∈ closers n) : c ∈ closing := by
  obtain ⟨t, ht, hc⟩ := List.mem_flatten.mp h
  rwa [List.eq_of_mem_replicate ht] at hc

/-- Closing markers do not reach back over any other character. -/
theorem append_eq_append_closers {front t u : Text} {n : Nat}
    (hfront : ∀ c ∈ front.getLast?, c ∉ closing) (h : front ++ t = u ++ closers n) :
    ∃ v, u = front ++ v ∧ t = v ++ closers n := by
  rcases List.append_eq_append_iff.mp h with ⟨v, rfl, ht⟩ | ⟨v, rfl, hv⟩
  · exact ⟨v, rfl, ht⟩
  · rcases List.eq_nil_or_concat v with rfl | ⟨w, c, rfl⟩
    · exact ⟨[], by simp, by simpa using hv.symm⟩
    · exact absurd (mem_closers (n := n) (by simp [hv])) (hfront c (by simp))

theorem joined_last (ts : List Text) (u : Text) :
    separator.intercalate (ts ++ [u]) = separator.intercalate (ts ++ [[]]) ++ u := by
  induction ts with
  | nil => simp
  | cons t ts ih =>
      rw [List.cons_append, List.cons_append, joined_cons (by simp), joined_cons (by simp), ih]
      simp only [List.append_assoc]

/-- In front of the last change of a batch stands a separator or the marker that opens the batch. -/
theorem before_last (ts : List Text) :
    ∀ c ∈ (opening ++ separator.intercalate (ts ++ [[]])).getLast?, c ∉ closing := by
  cases ts with
  | nil => decide
  | cons t ts =>
      have hend : separator.intercalate ((t :: ts) ++ [[]]) =
          separator.intercalate (t :: ts) ++ separator := by
        rw [joined_append (by simp) (by simp), List.intercalate_singleton, List.append_nil]
      rw [hend, ← List.append_assoc, List.getLast?_append_of_ne_nil _ (by decide)]
      decide

theorem Clipped.render_eq {t : Tree} {n : Nat} {u : Text} (h : Clipped t n u) :
    t.render = u ++ closers n := by
  induction h with
  | whole t => simp [closers]
  | empty => rfl
  | @last cs c n u _ ih =>
      rw [Tree.render_node, List.map_append, List.map_singleton, ih, closers_succ,
        joined_last _ (u ++ closers n), joined_last _ u]
      simp only [List.append_assoc]

theorem Readable.clipped {t : Tree} (h : Readable t) {n : Nat} {u : Text}
    (hu : t.render = u ++ closers n) : Clipped t n u := by
  induction h generalizing n u with
  | @leaf t ht =>
      cases n with
      | zero =>
          obtain rfl : t = u := by simpa [closers, Tree.render] using hu
          exact .whole (.leaf t)
      | succ n =>
          rw [Tree.render, closers_succ, ← List.append_assoc] at hu
          exact absurd ⟨u ++ closers n, [], by rw [List.append_nil, hu]; rfl⟩ ht.unmarked.2
  | @node cs each later ih =>
      cases n with
      | zero =>
          obtain rfl : (Tree.node cs).render = u := by simpa [closers] using hu
          exact .whole (.node cs)
      | succ n =>
          rw [Tree.render_node, closers_succ, ← List.append_assoc, ← List.append_assoc,
            List.append_left_inj] at hu
          rcases List.eq_nil_or_concat cs with rfl | ⟨cs, c, rfl⟩
          · obtain ⟨v, rfl, hv⟩ := append_eq_append_closers (by decide) hu
            obtain ⟨rfl, hn⟩ : v = [] ∧ closers n = [] := by simpa using hv.symm
            obtain rfl : n = 0 := by simpa [closers, closing] using hn
            rw [List.append_nil]
            exact .empty
          · rw [List.concat_eq_append] at ih hu ⊢
            rw [List.map_append, List.map_singleton, joined_last, ← List.append_assoc] at hu
            obtain ⟨v, rfl, hv⟩ := append_eq_append_closers (before_last _) hu
            rw [List.append_assoc, ← joined_last]
            exact .last (ih c (by simp) hv)

namespace Clipped

variable {t : Tree} {n : Nat} {u : Text}

theorem running (h : Clipped t n u) (ht : Readable t) : Running u := by
  induction h with
  | whole t => exact ht.whole.running
  | empty => exact running_opening
  | @last cs c n u _ ih =>
      exact Running.node ht.whole_of_mem_front (ih (ht.of_mem (by simp)))

theorem stops (h : Clipped t n u) (ht : Readable t) : Stops u := by
  induction h with
  | whole t =>
      rw [← ht.trim_render]
      exact stops_trim (ht.trim_render.symm ▸ ht.render_ne_nil)
  | empty => exact ⟨"CompositeChange <".toList, '[', rfl, by decide⟩
  | @last cs c n u _ ih =>
      rw [joined_last]
      exact ((ih (ht.of_mem (by simp))).append _).append _

theorem opens {cs : List Tree} (h : Clipped (.node cs) n u) : opening <+: u := by
  cases h with
  | whole => exact ⟨_, (Tree.render_node cs).symm⟩
  | empty => exact List.prefix_rfl
  | last => exact List.prefix_append _ _

theorem startsChange_of_follows (h : Clipped t n u) (ht : t.follows = true) :
    startsChange u = true := by
  cases t with
  | leaf s =>
      cases h with
      | whole => exact ht
  | node cs =>
      obtain ⟨v, rfl⟩ := h.opens
      exact startsChange_append (by decide) v

theorem trim_eq (h : Clipped t n u) (ht : Readable t) : trim u = u := by
  cases t with
  | leaf s =>
      cases h with
      | whole => exact ht.trim_render
  | node cs =>
      obtain ⟨w, e, hw, he⟩ := h.stops ht
      obtain ⟨v, rfl⟩ := h.opens
      apply trim_eq_self
      · rintro d ⟨⟩
        decide
      · simpa [hw] using he

end Clipped

section Last

variable {cs : List Tree} {c : Tree} {n : Nat} {u : Text}

theorem startsChange_clipped (h : Readable (.node (cs ++ [c]))) (hu : Clipped c n u) :
    ∀ v ∈ (cs.map Tree.render ++ [u]).tail, startsChange v = true := by
  cases cs with
  | nil => simp
  | cons d cs =>
      intro v hv
      rw [List.map_cons, List.cons_append, List.tail_cons, List.mem_append,
        List.mem_singleton] at hv
      rcases hv with hv | rfl
      · obtain ⟨e, he, rfl⟩ := List.mem_map.mp hv
        exact h.startsChange_later (by simp [he])
      · cases h with
        | node each later => exact hu.startsChange_of_follows (later c (by simp))

theorem siblings_clipped (h : Readable (.node (cs ++ [c]))) (hu : Clipped c n u) :
    siblings (separator.intercalate (cs.map Tree.render ++ [u])) = cs.map Tree.render ++ [u] := by
  have hc : Readable c := h.of_mem (by simp)
  refine siblings_joined h.whole_of_mem_front (hu.running hc) (startsChange_clipped h hu) ?_
  intro t ht
  rcases List.mem_append.mp ht with ht | ht
  · obtain ⟨d, hd, rfl⟩ := List.mem_map.mp ht
    have hd : Readable d := h.of_mem (by simp [hd])
    exact ⟨hd.trim_render, hd.render_ne_nil⟩
  · rw [List.mem_singleton.mp ht]
    obtain ⟨v, e, hv, -⟩ := hu.stops hc
    exact ⟨hu.trim_eq hc, by simp [hv]⟩

/-- Without its own marker, a batch has the same changes, and the other markers that are missing are
missing from the last. -/
theorem read_clipped (h : Readable (.node (cs ++ [c]))) (hu : Clipped c n u) :
    read (opening ++ separator.intercalate (cs.map Tree.render ++ [u])) =
      .ok (.composite (cs.map Tree.render ++ [u]) false) := by
  have hline : Clipped (.node (cs ++ [c])) (n + 1) _ := .last hu
  have hblock : Block.extract (opening ++ separator.intercalate (cs.map Tree.render ++ [u])) =
      some ⟨separator.intercalate (cs.map Tree.render ++ [u]), false⟩ := by
    rw [extract_opening,
      upTo_joined_last h.whole_of_mem_front (hu.running (h.of_mem (by simp)))]
  rw [read, hline.trim_eq h, h.readTrimmed_of_opens hline.opens ⟨_, hline.render_eq.symm⟩ hblock,
    siblings_clipped h hu]

end Last

theorem leaves_clipped {t : Tree} {n : Nat} {u : Text} (ht : Readable t) (h : Clipped t n u) :
    leaves u = t.texts.flatMap leaves := by
  induction h with
  | whole t => exact leaves_render ht
  | empty =>
      have hread : read opening = .ok (.composite [] false) := by decide +kernel
      rw [leaves, events_cons, hread, Tree.texts_node]
      simp [events]
  | @last cs c n u hu ih =>
      have hcs : cs.flatMap (fun d => leaves d.render) =
          cs.flatMap fun d => d.texts.flatMap leaves :=
        List.flatMap_congr fun d hd => leaves_render (ht.of_mem (by simp [hd]))
      rw [leaves, events_cons, read_clipped ht hu]
      simp only [List.append_nil, events_eq_flatMap, List.flatMap_append, List.flatMap_map, hcs,
        List.flatMap_singleton, ih (ht.of_mem (by simp)), Tree.texts_node, List.flatMap_assoc]

end Warboard.Change

namespace Warboard.Game

open Change

/-- A batch that is cut off applies as a whole: however many of the markers at the end of its line
are missing, the game is the same, or the overflow. -/
theorem apply_clipped (g : Game) {cs : List Change.Tree} (h : Readable (.node cs)) {line : Text}
    {n : Nat} (hline : (Change.Tree.node cs).render = line ++ Change.Tree.closers n) :
    g.apply line = g.apply (Change.Tree.node cs).render := by
  rw [apply, apply, leaves_clipped h (h.clipped hline), leaves_render h]

/-- Three batches, one in the other, that end together behind the bracket of a unit list. -/
def offensive : Change.Tree :=
  .node [.leaf "Change resource.  Resource:PUs quantity:-6 Player:Germans".toList,
    .node [.leaf "Germans takes Ukraine from Neutral".toList,
      .node [.leaf "Add unit change.  Add to: Ukraine units: [armour owned by Germans]".toList]]]

theorem readable_offensive : Readable offensive := by
  refine .node ?_ (by decide +kernel)
  simp only [List.forall_mem_cons]
  refine ⟨.leaf (by decide +kernel), .node ?_ (by decide +kernel), by simp⟩
  simp only [List.forall_mem_cons]
  refine ⟨.leaf (by decide +kernel), .node ?_ (by decide +kernel), by simp⟩
  simp only [List.forall_mem_cons]
  exact ⟨.leaf (by decide +kernel), by simp⟩

/-- Its line without the last two of the three markers. -/
def brokenOff : Text :=
  ("CompositeChange <[Change resource.  Resource:PUs quantity:-6 Player:Germans, " ++
    "CompositeChange <[Germans takes Ukraine from Neutral, " ++
    "CompositeChange <[Add unit change.  Add to: Ukraine units: [armour owned by Germans]]>").toList

theorem apply_clipped_offensive :
    (Readable offensive ∧ offensive.render = brokenOff ++ Change.Tree.closers 2) ∧
    (ofWorld ⟨∅, ukraine, ukraine, none, 1⟩).apply brokenOff =
      (ofWorld ⟨∅, ukraine, ukraine, none, 1⟩).apply offensive.render := by
  have hline : offensive.render = brokenOff ++ Change.Tree.closers 2 := by decide +kernel
  exact ⟨⟨readable_offensive, hline⟩, apply_clipped _ readable_offensive hline⟩

end Warboard.Game
