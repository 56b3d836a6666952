import Warboard.Game
import Warboard.Proofs.Change.Nesting

namespace Warboard.Change

open Text

namespace Readable

theorem whole {t : Tree} (h : Readable t) : Whole t.render := by
  induction h with
  | leaf h => exact h.whole
  | node each later ih =>
      rw [Tree.render_node]
      exact Whole.node (by simpa using ih)

theorem trim_render {t : Tree} (h : Readable t) : trim t.render = t.render := by
  cases h with
  | leaf h => exact h.trimmed
  | node each later =>
      rw [Tree.render_node, Tree.opening_eq]
      apply trim_eq_self
      · rintro d ⟨⟩
        decide
      · intro d hd
        have hd' : '>' = d := by
          simpa [Tree.closing, List.getLast?_append, List.getLast?_cons] using hd
        subst d
        decide

theorem render_ne_nil {t : Tree} (h : Readable t) : t.render ≠ [] := by
  cases h with
  | leaf h => exact h.nonempty
  | node each later => simp [Tree.render_node, Tree.opening_eq]

theorem of_mem {cs : List Tree} (h : Readable (.node cs)) {c : Tree} (hc : c ∈ cs) :
    Readable c := by
  cases h with
  | node each later => exact each c hc

theorem whole_of_mem_map {cs : List Tree} (h : Readable (.node cs)) :
    ∀ t ∈ cs.map Tree.render, Whole t := by
  intro t ht
  obtain ⟨c, hc, rfl⟩ := List.mem_map.mp ht
  exact (h.of_mem hc).whole

theorem whole_of_mem_front {cs : List Tree} {c : Tree} (h : Readable (.node (cs ++ [c]))) :
    ∀ t ∈ cs.map Tree.render, Whole t := by
  intro t ht
  exact h.whole_of_mem_map t (List.map_append ▸ List.mem_append_left _ ht)

theorem startsChange_later {cs : List Tree} (h : Readable (.node cs)) {c : Tree}
    (hc : c ∈ cs.tail) : startsChange c.render = true := by
  cases h with
  | node each later =>
      cases c with
      | leaf t => exact later _ hc
      | node ds =>
          have htitle : startsChange "CompositeChange ".toList = true := by decide
          rw [Tree.render_node, Tree.opening_eq, List.append_assoc]
          exact startsChange_append htitle _

end Readable

theorem siblings_render {cs : List Tree} (h : Readable (.node cs)) :
    siblings (Tree.separator.intercalate (cs.map Tree.render)) = cs.map Tree.render := by
  have hlater : ∀ t ∈ (cs.map Tree.render).tail, startsChange t = true := by
    intro t ht
    rw [← List.map_tail] at ht
    obtain ⟨c, hc, rfl⟩ := List.mem_map.mp ht
    exact h.startsChange_later hc
  have htidy : ∀ t ∈ cs.map Tree.render, trim t = t ∧ t ≠ [] := by
    intro t ht
    obtain ⟨c, hc, rfl⟩ := List.mem_map.mp ht
    exact ⟨(h.of_mem hc).trim_render, (h.of_mem hc).render_ne_nil⟩
  rcases List.eq_nil_or_concat cs with rfl | ⟨cs, c, rfl⟩
  · rfl
  · rw [List.concat_eq_append] at h ⊢
    simp only [List.concat_eq_append, List.map_append, List.map_singleton] at hlater htidy ⊢
    exact siblings_joined h.whole_of_mem_front (h.of_mem (by simp)).whole.running hlater htidy

theorem extract_opening (t : Text) : Block.extract (Tree.opening ++ t) = some (Block.upTo 0 t) := by
  have hskip := cutAt_append_of_not_mem (w := "<[") (c := '<') (u := ['['])
    (a := "CompositeChange ".toList) rfl (by decide)
  rw [Block.extract, Tree.opening_eq, List.append_assoc, hskip, cutAt_append_self]
  rfl

theorem extract_render_node {cs : List Tree} (h : Readable (.node cs)) :
    Block.extract (Tree.node cs).render =
      some ⟨Tree.separator.intercalate (cs.map Tree.render), true⟩ := by
  have hclosing : Block.upTo 0 Tree.closing = ⟨[], true⟩ := by simp [Tree.closing, Block.upTo]
  rw [Tree.render_node, extract_opening,
    upTo_joined h.whole_of_mem_map 0 (by simpa using sealed_closing []), hclosing, Block.cons,
    List.append_nil]

/-- The patterns that make a line one of another form than a batch. -/
structure Marking (w : Text) : Prop where
  colon : ':' ∈ w
  head : ∀ c ∈ w.head?, c ≠ ' '
  chars : ∀ c ∈ w, c ∉ [',', '<', '[', ']', '>']

theorem Marking.ne_nil {w : Text} (h : Marking w) : w ≠ [] := List.ne_nil_of_mem h.colon

theorem Marking.infix_cases {w a b : Text} {d : Char} (h : Marking w)
    (hd : d ∈ [',', '<', '[', ']', '>']) (hw : w <:+: a ++ d :: b) : w <:+: a ∨ w <:+: b :=
  infix_append_cons_of_not_mem (fun hdw => h.chars d hdw hd) hw

theorem Marking.infix_joined {w : Text} (h : Marking w) {ts : List Text}
    (hw : w <:+: Tree.separator.intercalate ts) : ∃ t ∈ ts, w <:+: t :=
  Tree.infix_separated h.ne_nil (fun hc => h.chars _ hc (by simp)) h.head hw

/-- Such a pattern is in a batch only if it is in one of its texts. -/
theorem Marking.infix_render {w : Text} (h : Marking w) {t : Tree} (ht : Readable t)
    (hw : w <:+: t.render) : ∃ s ∈ t.texts, w <:+: s := by
  induction ht with
  | @leaf t _ => exact ⟨t, by simp [Tree.texts], hw⟩
  | @node cs each later ih =>
      rw [Tree.render_node, Tree.opening_eq, List.append_assoc] at hw
      have hjoined : w <:+: Tree.separator.intercalate (cs.map Tree.render) := by
        rcases h.infix_cases (d := '<') (by simp) hw with hw | hw
        · exact absurd (hw.subset h.colon) (by decide)
        rcases h.infix_cases (a := []) (d := '[') (by simp) hw with hw | hw
        · exact absurd (List.infix_nil.mp hw) h.ne_nil
        rcases h.infix_cases (d := ']') (by simp) hw with hw | hw
        · exact hw
        · rcases h.infix_cases (a := []) (d := '>') (by simp) hw with hw | hw <;>
            exact absurd (List.infix_nil.mp hw) h.ne_nil
      obtain ⟨u, hu, hw⟩ := h.infix_joined hjoined
      obtain ⟨c, hc, rfl⟩ := List.mem_map.mp hu
      obtain ⟨s, hs, hw⟩ := ih c hc hw
      exact ⟨s, by rw [Tree.texts_node]; exact List.mem_flatMap.mpr ⟨c, hc, hs⟩, hw⟩

theorem Readable.plain {t : Tree} (h : Readable t) : ∀ s ∈ t.texts, Plain s := by
  induction h with
  | leaf h => simpa [Tree.texts] using h
  | node each later ih =>
      intro s hs
      rw [Tree.texts_node] at hs
      obtain ⟨c, hc, hs⟩ := List.mem_flatMap.mp hs
      exact ih c hc s hs

theorem role_eq_none_of_not_infix {t : Text}
    (h : ∀ c, isWord c = true → ¬ ("Role: ".toList ++ [c]) <:+: t) : firstMatch role t = none := by
  rw [firstMatch_eq_none_iff]
  intro s hs
  rw [role]
  cases ha : after "Role: " s with
  | none => rfl
  | some u =>
      have hu : word u = none := by
        rw [word, run_eq_none_iff]
        intro c hc
        obtain ⟨v, rfl⟩ := List.head?_eq_some_iff.mp hc
        by_contra hw
        refine h c (by simpa using hw) (List.infix_iff_prefix_suffix.mpr ⟨s, ?_, hs⟩)
        rw [after_eq_some_iff.mp ha]
        exact ⟨v, by simp⟩
      simp [name, hu]

theorem Plain.no_role {t : Text} (h : Plain t) (c : Char) (hc : isWord c = true) :
    ¬ ("Role: ".toList ++ [c]) <:+: t := by
  intro hw
  obtain ⟨s, ⟨u, hu⟩, hs⟩ := List.infix_iff_prefix_suffix.mp hw
  have ha : after "Role: " s = some (c :: u) := after_eq_some_iff.mpr (by simp [← hu])
  have := h.noRole s ((List.mem_tails s t).mpr hs) _ ha
  simp [hc] at this

theorem marking_role {c : Char} (hc : isWord c = true) : Marking ("Role: ".toList ++ [c]) := by
  have hlabel : ∀ d ∈ "Role: ".toList, d ∉ [',', '<', '[', ']', '>'] := by simp
  have hword : ∀ d ∈ [',', '<', '[', ']', '>'], isWord d = false := by
    simp only [List.forall_mem_cons, List.not_mem_nil, false_imp_iff, implies_true, and_true]
    decide
  refine ⟨by simp, by simp, ?_⟩
  intro d hd
  rcases List.mem_append.mp hd with hd | hd
  · exact hlabel d hd
  · obtain rfl := List.mem_singleton.mp hd
    intro hd
    simp [hword d hd] at hc

/-- A line that begins as a batch is read as one, even if the end of the batch is missing. -/
theorem Readable.readTrimmed_of_opens {cs : List Tree} (h : Readable (.node cs)) {line : Text}
    (hopening : Tree.opening <+: line) (hline : line <+: (Tree.node cs).render) {block : Block}
    (hblock : Block.extract line = some block) :
    readTrimmed line = .ok (.composite (siblings block.inner) block.closed) := by
  have hrole : firstMatch role line = none := by
    apply role_eq_none_of_not_infix
    intro c hc hw
    obtain ⟨s, hs, hw⟩ := (marking_role hc).infix_render h (hw.trans hline.isInfix)
    exact (h.plain s hs).no_role c hc hw
  have hbattles : from? "Adding Battle Records:" line = none := by
    rw [from?_eq_none_iff]
    intro hw
    have hm : Marking "Adding Battle Records:".toList := ⟨by simp, by simp, by simp⟩
    obtain ⟨s, hs, hw⟩ := hm.infix_render h (hw.trans hline.isInfix)
    exact (h.plain s hs).noBattles hw
  have htitle : mentions "CompositeChange" line = true := by
    have hopens : "CompositeChange".toList <+: Tree.opening := ⟨" <[".toList, rfl⟩
    exact mentions_iff.mpr (hopens.trans hopening).isInfix
  rw [readTrimmed, hrole, hbattles]
  simp only [htitle, if_true, hblock]

theorem read_render_node {cs : List Tree} (h : Readable (.node cs)) :
    read (Tree.node cs).render = .ok (.composite (cs.map Tree.render) true) := by
  have hopening : Tree.opening <+: (Tree.node cs).render := ⟨_, (Tree.render_node cs).symm⟩
  rw [read, h.trim_render,
    h.readTrimmed_of_opens hopening List.prefix_rfl (extract_render_node h), siblings_render h]

theorem events_cons (t : Text) (ts : List Text) :
    events (t :: ts) = match read t with
      | .ok (.composite fragments _) => events (fragments ++ ts)
      | .ok (.single event) => event :: events ts
      | .error _ => events ts := by
  rw [events]
  split <;> simp_all

/-- The texts of a list are read each on its own. -/
theorem events_append (ts us : List Text) : events (ts ++ us) = events ts ++ events us := by
  fun_induction events ts with
  | case1 => rfl
  | case2 t ts fragments closed h ih =>
      rw [List.cons_append, events_cons, h]
      simpa only [List.append_assoc] using ih
  | case3 t ts event h ih =>
      rw [List.cons_append, events_cons, h]
      simp only [ih, List.cons_append]
  | case4 t ts e h ih =>
      rw [List.cons_append, events_cons, h]
      exact ih

theorem events_eq_flatMap (ts : List Text) : events ts = ts.flatMap leaves := by
  induction ts with
  | nil => rw [events, List.flatMap_nil]
  | cons t ts ih =>
      have h := events_append [t] ts
      rwa [ih] at h

theorem leaves_render {t : Tree} (h : Readable t) : leaves t.render = t.texts.flatMap leaves := by
  induction h with
  | leaf h => simp [Tree.render, Tree.texts]
  | @node cs each later ih =>
      rw [leaves, events_cons, read_render_node (.node each later)]
      simp only [List.append_nil, events_eq_flatMap, Tree.texts_node, List.flatMap_map,
        List.flatMap_assoc]
      exact List.flatMap_congr ih

end Warboard.Change

namespace Warboard.Game

open Change

theorem foldlM_flatMap_leaves (g : Game) (ts : List Text) :
    (ts.flatMap leaves).foldlM applyEvent g = ts.foldlM apply g := by
  induction ts generalizing g with
  | nil => rfl
  | cons t ts ih => simp only [List.flatMap_cons, List.foldlM_append, List.foldlM_cons, ih, apply]

/-- A batch has the effect of its single changes, one after another: the same game, or the same
overflow. -/
theorem apply_batch (g : Game) {cs : List Change.Tree} (h : Readable (.node cs)) :
    g.apply (Change.Tree.node cs).render = (Change.Tree.node cs).texts.foldlM apply g := by
  rw [apply, leaves_render h, foldlM_flatMap_leaves]

/-- A conquest whose losses come as a batch of their own, with an empty batch inside. -/
def conquest : Change.Tree :=
  .node [.leaf "Germans takes Ukraine from Neutral".toList,
    .node [.leaf "Remove unit change.  Remove from: Poland units: [armour owned by Germans]".toList,
      .node [],
      .leaf "Change resource.  Resource:PUs quantity:-6 Player:Germans".toList],
    .leaf "Add unit change.  Add to: Ukraine units: [aaGun owned by Germans, x owned by y]".toList]

theorem readable_conquest : Readable conquest := by
  refine .node ?_ (by decide +kernel)
  simp only [List.forall_mem_cons]
  refine ⟨.leaf (by decide +kernel), .node ?_ (by decide +kernel), .leaf (by decide +kernel),
    by simp⟩
  simp only [List.forall_mem_cons]
  exact ⟨.leaf (by decide +kernel), .node (by simp) (by simp), .leaf (by decide +kernel), by simp⟩

def ukraine : Board := ⟨[⟨"Ukraine", neutral, [], false, false, ∅⟩], ∅⟩

theorem apply_batch_conquest :
    Readable conquest ∧ (ofWorld ⟨∅, ukraine, ukraine, none, 1⟩).apply conquest.render =
      conquest.texts.foldlM apply (ofWorld ⟨∅, ukraine, ukraine, none, 1⟩) :=
  ⟨readable_conquest, apply_batch _ readable_conquest⟩

end Warboard.Game
