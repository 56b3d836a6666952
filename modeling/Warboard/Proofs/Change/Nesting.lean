import Warboard.Proofs.Change.Tree

namespace Warboard.Change

open Text

theorem Block.cons_cons (t u : Text) (b : Block) : (b.cons u).cons t = b.cons (t ++ u) := by
  simp [Block.cons]

theorem cut.grow_grow (t u : Text) (p : Text × List Text) :
    grow t (grow u p) = grow (t ++ u) p := by
  simp [cut.grow]

/-- What follows a change in a batch: a separator, the marker that closes the batch, or nothing. -/
def Sealed (rest : Text) : Prop := ∀ c ∈ rest.head?, c = ',' ∨ c = ']'

theorem sealed_nil : Sealed [] := by simp [Sealed]

theorem sealed_separator (t : Text) : Sealed (Tree.separator ++ t) := by
  simp [Sealed, Tree.separator]

theorem sealed_closing (t : Text) : Sealed (Tree.closing ++ t) := by
  simp [Sealed, Tree.closing]

theorem Unmarked.of_cons {c : Char} {t : Text} (h : Unmarked (c :: t)) : Unmarked t :=
  ⟨fun ht => h.1 (ht.trans (List.suffix_cons c t).isInfix),
    fun ht => h.2 (ht.trans (List.suffix_cons c t).isInfix)⟩

/-- The first character of an unmarked text does not begin a marker, whatever follows the text. -/
theorem Unmarked.head_not_marker {c d : Char} {t rest u : Text} (h : Unmarked (c :: t))
    (hr : Sealed rest) (ht : t ++ rest = d :: u) :
    ¬ (c = '<' ∧ d = '[') ∧ ¬ (c = ']' ∧ d = '>') := by
  cases t with
  | nil =>
      have hd := hr d (by simp_all)
      constructor <;> rintro ⟨-, rfl⟩ <;> simp at hd
  | cons e t =>
      obtain rfl : e = d := by simp_all
      constructor <;> rintro ⟨rfl, rfl⟩
      · exact h.1 (List.prefix_append ['<', '['] t).isInfix
      · exact h.2 (List.prefix_append [']', '>'] t).isInfix

theorem upTo_cons {n : Nat} {c : Char} {t : Text}
    (h : ∀ d u, t = d :: u → ¬ (c = '<' ∧ d = '[') ∧ ¬ (c = ']' ∧ d = '>')) :
    Block.upTo n (c :: t) = (Block.upTo n t).cons [c] := by
  rw [Block.upTo]
  · rintro u rfl rfl
    exact (h '[' u rfl).1 ⟨rfl, rfl⟩
  · rintro u - rfl rfl
    exact (h '>' u rfl).2 ⟨rfl, rfl⟩
  · rintro - u - rfl rfl
    exact (h '>' u rfl).2 ⟨rfl, rfl⟩

theorem cut_cons {n : Nat} {c : Char} {t : Text}
    (h : ∀ d u, t = d :: u → ¬ (c = '<' ∧ d = '[') ∧ ¬ (c = ']' ∧ d = '>'))
    (hb : ∀ u, n = 0 → c = ',' → t = ' ' :: u → startsChange u = false) :
    cut n (c :: t) = cut.grow [c] (cut n t) := by
  by_cases hs : n = 0 ∧ c = ',' ∧ ∃ u, t = ' ' :: u
  · obtain ⟨rfl, rfl, u, rfl⟩ := hs
    simp [cut, hb u rfl rfl rfl]
  · rw [cut]
    · rintro u rfl rfl
      exact (h '[' u rfl).1 ⟨rfl, rfl⟩
    · rintro u rfl rfl
      exact (h '>' u rfl).2 ⟨rfl, rfl⟩
    · rintro u rfl rfl rfl
      exact hs ⟨rfl, rfl, u, rfl⟩

/-- A character that no marker or separator begins with. -/
def Ordinary (c : Char) : Prop := c ≠ '<' ∧ c ≠ ']' ∧ c ≠ ','

theorem upTo_append_of_ordinary {t : Text} (ht : ∀ c ∈ t, Ordinary c) (n : Nat) (rest : Text) :
    Block.upTo n (t ++ rest) = (Block.upTo n rest).cons t := by
  induction t with
  | nil => rfl
  | cons c t ih =>
      have hc : Ordinary c := ht c (by simp)
      rw [List.cons_append, upTo_cons fun d u _ => ⟨fun h => hc.1 h.1, fun h => hc.2.1 h.1⟩,
        ih fun d hd => ht d (by simp [hd]), Block.cons_cons, List.singleton_append]

theorem cut_append_of_ordinary {t : Text} (ht : ∀ c ∈ t, Ordinary c) (n : Nat) (rest : Text) :
    cut n (t ++ rest) = cut.grow t (cut n rest) := by
  induction t with
  | nil => rfl
  | cons c t ih =>
      have hc : Ordinary c := ht c (by simp)
      rw [List.cons_append, cut_cons (fun d u _ => ⟨fun h => hc.1 h.1, fun h => hc.2.1 h.1⟩)
        (fun u _ h => absurd h hc.2.2), ih fun d hd => ht d (by simp [hd]), cut.grow_grow,
        List.singleton_append]

theorem upTo_append_of_unmarked {t rest : Text} (ht : Unmarked t) (hr : Sealed rest) (n : Nat) :
    Block.upTo n (t ++ rest) = (Block.upTo n rest).cons t := by
  induction t with
  | nil => rfl
  | cons c t ih =>
      rw [List.cons_append, upTo_cons fun d u hu => ht.head_not_marker hr hu, ih ht.of_cons,
        Block.cons_cons, List.singleton_append]

theorem cut_append_of_unmarked {t rest : Text} (ht : Unmarked t) (hr : Sealed rest) {n : Nat}
    (hb : ∀ s ∈ t.tails, ∀ u ∈ after ", " s, startsChange (u ++ rest) = false) :
    cut n (t ++ rest) = cut.grow t (cut n rest) := by
  induction t with
  | nil => rfl
  | cons c t ih =>
      rw [List.cons_append, cut_cons (fun d u hu => ht.head_not_marker hr hu), ih ht.of_cons,
        cut.grow_grow, List.singleton_append]
      · exact fun s hs => hb s (List.mem_cons_of_mem _ hs)
      · rintro u - rfl hu
        -- a separator cannot reach over the end of the text, since `rest` begins with no blank
        cases t with
        | nil => rcases hr ' ' (by simp_all) with h | h <;> simp at h
        | cons d t =>
            obtain ⟨rfl, rfl⟩ : d = ' ' ∧ t ++ rest = u := by simpa using hu
            exact hb _ (List.mem_cons_self ..) t (after_append ", " t)

/-- A header that is not at the head of the text is not there either once the text is sealed. -/
theorem prefix_of_prefix_append {w t rest : Text} (hr : Sealed rest) (hw : ',' ∉ w ∧ ']' ∉ w)
    (h : w <+: t ++ rest) : w <+: t := by
  obtain ⟨s, hs⟩ := h
  rcases List.append_eq_append_iff.mp hs with ⟨u, rfl, -⟩ | ⟨u, rfl, hu⟩
  · exact List.prefix_append w u
  · cases u with
    | nil => simp
    | cons c u => rcases hr c (by simp [hu]) with rfl | rfl <;> simp at hw

theorem startsChange_iff {t : Text} :
    startsChange t = true ↔ (∃ w ∈ headers, w.toList <+: t) ∨
      t.takeWhile startsChange.isAlphanumericOr_ ≠ [] ∧
        " takes ".toList <+: t.dropWhile startsChange.isAlphanumericOr_ := by
  rw [startsChange, Bool.or_eq_true, List.any_eq_true]
  refine or_congr (by simp only [startsWith_iff]) ?_
  cases h : t.takeWhile startsChange.isAlphanumericOr_ <;> simp [run, h, startsWith_iff]

theorem startsChange_append {t : Text} (h : startsChange t = true) (rest : Text) :
    startsChange (t ++ rest) = true := by
  rw [startsChange_iff] at h ⊢
  rcases h with ⟨w, hw, ht⟩ | ⟨hne, ht⟩
  · exact Or.inl ⟨w, hw, ht.trans (List.prefix_append t rest)⟩
  · right
    have hd : t.dropWhile startsChange.isAlphanumericOr_ ≠ [] := by
      intro h
      simp [h] at ht
    have hl : (t.takeWhile startsChange.isAlphanumericOr_).length ≠ t.length := by
      intro hl
      have h := congrArg List.length (List.takeWhile_append_dropWhile
        (p := startsChange.isAlphanumericOr_) (l := t))
      rw [List.length_append, hl] at h
      exact hd (List.length_eq_zero_iff.mp (by omega))
    rw [List.takeWhile_append, if_neg hl, List.dropWhile_append, if_neg (by simpa using hd)]
    exact ⟨hne, ht.trans (List.prefix_append _ _)⟩

theorem startsChange_append_of_sealed {t rest : Text} (h : startsChange t = false)
    (hr : Sealed rest) : startsChange (t ++ rest) = false := by
  rw [← Bool.not_eq_true] at h ⊢
  refine mt (fun ha => ?_) h
  have hend : ∀ c ∈ rest.head?, startsChange.isAlphanumericOr_ c = false := by
    intro c hc
    rcases hr c hc with rfl | rfl <;> decide
  rw [startsChange_iff] at ha ⊢
  rcases ha with ⟨w, hw, ht⟩ | ⟨hne, ht⟩
  · have hplain : ∀ w ∈ headers, ',' ∉ w.toList ∧ ']' ∉ w.toList := by decide
    exact Or.inl ⟨w, hw, prefix_of_prefix_append hr (hplain w hw) ht⟩
  · rw [takeWhile_append_of_head hend] at hne
    rw [dropWhile_append_of_head hend] at ht
    exact Or.inr ⟨hne, prefix_of_prefix_append hr (by decide) ht⟩

/-- Both scanners go over the text as a whole, at every depth. -/
structure Whole (t : Text) : Prop where
  upTo_append {n : Nat} {rest : Text} (hr : Sealed rest) :
    Block.upTo n (t ++ rest) = (Block.upTo n rest).cons t
  cut_append {n : Nat} {rest : Text} (hr : Sealed rest) :
    cut n (t ++ rest) = cut.grow t (cut n rest)

theorem Plain.whole {t : Text} (h : Plain t) : Whole t where
  upTo_append hr := upTo_append_of_unmarked h.unmarked hr _
  cut_append hr := cut_append_of_unmarked h.unmarked hr fun s hs u hu =>
    startsChange_append_of_sealed (h.noBoundary s hs u hu) hr

theorem upTo_separator (n : Nat) (t : Text) :
    Block.upTo n (Tree.separator ++ t) = (Block.upTo n t).cons Tree.separator := by
  simp [Tree.separator, Block.upTo, Block.cons]

theorem cut_separator_succ (n : Nat) (t : Text) :
    cut (n + 1) (Tree.separator ++ t) = cut.grow Tree.separator (cut (n + 1) t) := by
  simp [Tree.separator, cut, cut.grow]

theorem cut_separator_zero {t : Text} (h : startsChange t = true) :
    cut 0 (Tree.separator ++ t) = ([], (cut 0 t).1 :: (cut 0 t).2) := by
  simp [Tree.separator, cut, h]

theorem upTo_opening (n : Nat) (t : Text) :
    Block.upTo n (Tree.opening ++ t) = (Block.upTo (n + 1) t).cons Tree.opening := by
  rw [Tree.opening_eq, List.append_assoc, upTo_append_of_ordinary (by simp [Ordinary])]
  simp [Block.upTo, Block.cons]

theorem cut_opening (n : Nat) (t : Text) :
    cut n (Tree.opening ++ t) = cut.grow Tree.opening (cut (n + 1) t) := by
  rw [Tree.opening_eq, List.append_assoc, cut_append_of_ordinary (by simp [Ordinary])]
  simp [cut, cut.grow]

theorem upTo_closing (n : Nat) (t : Text) :
    Block.upTo (n + 1) (Tree.closing ++ t) = (Block.upTo n t).cons Tree.closing := by
  simp [Tree.closing, Block.upTo, Block.cons]

theorem cut_closing (n : Nat) (t : Text) :
    cut (n + 1) (Tree.closing ++ t) = cut.grow Tree.closing (cut n t) := by
  simp [Tree.closing, cut, cut.grow]

theorem joined_cons {ps : List Text} (h : ps ≠ []) (p : Text) :
    Tree.separator.intercalate (p :: ps) =
      p ++ (Tree.separator ++ Tree.separator.intercalate ps) := by
  rw [List.intercalate_cons_of_ne_nil h, List.append_assoc]

theorem upTo_joined {ts : List Text} (h : ∀ t ∈ ts, Whole t) (n : Nat) {rest : Text}
    (hr : Sealed rest) : Block.upTo n (Tree.separator.intercalate ts ++ rest) =
      (Block.upTo n rest).cons (Tree.separator.intercalate ts) := by
  induction ts with
  | nil => rfl
  | cons t ts ih =>
      cases ts with
      | nil => simpa using (h t (by simp)).upTo_append hr
      | cons u us =>
          rw [List.intercalate_cons_cons, List.append_assoc, List.append_assoc,
            (h t (by simp)).upTo_append (sealed_separator _), upTo_separator,
            ih fun v hv => h v (by simp [hv]), Block.cons_cons, Block.cons_cons, List.append_assoc]

theorem cut_joined_succ {ts : List Text} (h : ∀ t ∈ ts, Whole t) (n : Nat) {rest : Text}
    (hr : Sealed rest) : cut (n + 1) (Tree.separator.intercalate ts ++ rest) =
      cut.grow (Tree.separator.intercalate ts) (cut (n + 1) rest) := by
  induction ts with
  | nil => rfl
  | cons t ts ih =>
      cases ts with
      | nil => simpa using (h t (by simp)).cut_append hr
      | cons u us =>
          rw [List.intercalate_cons_cons, List.append_assoc, List.append_assoc,
            (h t (by simp)).cut_append (sealed_separator _), cut_separator_succ,
            ih fun v hv => h v (by simp [hv]), cut.grow_grow, cut.grow_grow, List.append_assoc]

theorem startsChange_joined {t : Text} (h : startsChange t = true) (ts : List Text) :
    startsChange (Tree.separator.intercalate (t :: ts)) = true := by
  cases ts with
  | nil => simpa using h
  | cons u us =>
      rw [List.intercalate_cons_cons, List.append_assoc]
      exact startsChange_append h _

/-- Both scanners run over the text to its end, at every depth. -/
structure Running (t : Text) : Prop where
  upTo_eq (n : Nat) : Block.upTo n t = ⟨t, false⟩
  cut_eq (n : Nat) : cut n t = (t, [])

theorem Whole.running {t : Text} (h : Whole t) : Running t where
  upTo_eq n := by simpa [Block.upTo, Block.cons] using h.upTo_append (n := n) sealed_nil
  cut_eq n := by simpa [cut, cut.grow] using h.cut_append (n := n) sealed_nil

theorem running_opening : Running Tree.opening where
  upTo_eq n := by simpa [Block.upTo, Block.cons] using upTo_opening n []
  cut_eq n := by simpa [cut, cut.grow] using cut_opening n []

section Last

variable {ts : List Text} (hts : ∀ t ∈ ts, Whole t) {u : Text} (hu : Running u)
include hts hu

theorem upTo_joined_last (n : Nat) :
    Block.upTo n (Tree.separator.intercalate (ts ++ [u])) =
      ⟨Tree.separator.intercalate (ts ++ [u]), false⟩ := by
  induction ts with
  | nil => simpa using hu.upTo_eq n
  | cons t ts ih =>
      rw [List.cons_append, joined_cons (by simp),
        (hts t (by simp)).upTo_append (sealed_separator _), upTo_separator,
        ih fun v hv => hts v (by simp [hv])]
      simp [Block.cons]

theorem cut_joined_last (n : Nat) :
    cut (n + 1) (Tree.separator.intercalate (ts ++ [u])) =
      (Tree.separator.intercalate (ts ++ [u]), []) := by
  induction ts with
  | nil => simpa using hu.cut_eq (n + 1)
  | cons t ts ih =>
      rw [List.cons_append, joined_cons (by simp),
        (hts t (by simp)).cut_append (sealed_separator _), cut_separator_succ,
        ih fun v hv => hts v (by simp [hv])]
      simp [cut.grow]

/-- A batch runs on to the end of the text if the last change in it does. -/
theorem Running.node : Running (Tree.opening ++ Tree.separator.intercalate (ts ++ [u])) where
  upTo_eq n := by
    rw [upTo_opening, upTo_joined_last hts hu]
    rfl
  cut_eq n := by
    rw [cut_opening, cut_joined_last hts hu]
    rfl

/-- Outside inner blocks, the text is cut exactly at the separators that changes follow. -/
theorem pieces_joined (hs : ∀ v ∈ (ts ++ [u]).tail, startsChange v = true) :
    pieces (Tree.separator.intercalate (ts ++ [u])) = ts ++ [u] := by
  induction ts with
  | nil => simp [pieces, hu.cut_eq]
  | cons t ts ih =>
      have hlater := ih (fun v hv => hts v (by simp [hv]))
        fun v hv => hs v (List.mem_of_mem_tail hv)
      have hnext : startsChange (Tree.separator.intercalate (ts ++ [u])) = true := by
        obtain ⟨v, vs, hv⟩ := List.exists_cons_of_ne_nil (l := ts ++ [u]) (by simp)
        rw [hv]
        exact startsChange_joined (hs v (by simp [hv])) vs
      rw [pieces] at hlater
      rw [List.cons_append, joined_cons (by simp), pieces,
        (hts t (by simp)).cut_append (sealed_separator _), cut_separator_zero hnext, hlater]
      simp [cut.grow]

theorem siblings_joined (hs : ∀ v ∈ (ts ++ [u]).tail, startsChange v = true)
    (htidy : ∀ v ∈ ts ++ [u], trim v = v ∧ v ≠ []) :
    siblings (Tree.separator.intercalate (ts ++ [u])) = ts ++ [u] := by
  have htrim : (ts ++ [u]).map trim = ts ++ [u] :=
    (List.map_congr_left fun v hv => (htidy v hv).1).trans (List.map_id _)
  rw [siblings, pieces_joined hts hu hs, htrim, List.filter_eq_self]
  intro v hv
  simp [(htidy v hv).2]

end Last

theorem Whole.node {ts : List Text} (h : ∀ t ∈ ts, Whole t) :
    Whole (Tree.opening ++ (Tree.separator.intercalate ts ++ Tree.closing)) where
  upTo_append hr := by
    rw [List.append_assoc, List.append_assoc, upTo_opening, upTo_joined h _ (sealed_closing _),
      upTo_closing, Block.cons_cons, Block.cons_cons, List.append_assoc]
  cut_append hr := by
    rw [List.append_assoc, List.append_assoc, cut_opening, cut_joined_succ h _ (sealed_closing _),
      cut_closing, cut.grow_grow, cut.grow_grow, List.append_assoc]

end Warboard.Change
