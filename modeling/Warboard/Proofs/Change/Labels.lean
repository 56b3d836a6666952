import Warboard.Proofs.Change.Report

namespace Warboard.Change

open Text

/-- Every colon of the text stands right behind a label. -/
inductive Labelled (label : Text → Prop) : Text → Prop
  | last {t : Text} (h : ':' ∉ t) : Labelled label t
  | colon {a l t : Text} (hl : label l) (hcolon : ':' ∉ a ++ l) (ht : Labelled label t) :
      Labelled label (a ++ l ++ ':' :: t)

theorem takeWhile_append_cons {u : Text} {d : Char} (h : d ∉ u) (v : Text) :
    (u ++ d :: v).takeWhile (· ≠ d) = u := by
  rw [takeWhile_append_of_head (by simp), List.takeWhile_eq_self_iff]
  exact fun c hc => decide_eq_true (ne_of_mem_of_not_mem hc h)

/-- The first mark of a pattern is the first one of the text, or the pattern stands behind that. -/
theorem infix_mark_cases {u v a b : Text} {d : Char} (hu : d ∉ u) (ha : d ∉ a)
    (h : u ++ d :: v <:+: a ++ d :: b) : (u <:+ a ∧ v <+: b) ∨ u ++ d :: v <:+: b := by
  rcases List.infix_append_iff_ne_nil.mp h with h | h | ⟨x, y, -, hy, hxy, hx, hp⟩
  · exact absurd (h.subset (by simp)) ha
  · rcases List.infix_cons_iff.mp h with h | h
    · cases u with
      | nil => exact Or.inl ⟨List.nil_suffix, (List.cons_prefix_cons.mp h).2⟩
      | cons c u => exact absurd (List.cons_prefix_cons.mp h).1 (by rintro rfl; simp at hu)
    · exact Or.inr h
  · rcases List.prefix_cons_iff.mp hp with rfl | ⟨y, rfl, hyb⟩
    · exact absurd rfl hy
    · have hx' : d ∉ x := fun hm => ha (hx.subset hm)
      obtain rfl : u = x := by
        rw [← takeWhile_append_cons hu v, ← takeWhile_append_cons hx' y, hxy]
      obtain rfl : v = y := by simpa using hxy
      exact Or.inl ⟨hx, hyb⟩

/-- A pattern with a colon is not in a text whose labels do not end as the pattern's own does. -/
theorem Labelled.absent {label : Text → Prop} {t : Text} (ht : Labelled label t) {u : Text}
    (v : Text) (hu : ':' ∉ u) (h : ∀ l, label l → ¬ l <:+ u ∧ ¬ u <:+ l) :
    ¬ u ++ ':' :: v <:+: t := by
  induction ht with
  | last ht => exact fun hw => ht (hw.subset (by simp))
  | @colon a l t hl hcolon _ ih =>
      intro hw
      rcases infix_mark_cases hu hcolon hw with ⟨hw, -⟩ | hw
      · rcases List.suffix_or_suffix_of_suffix hw (List.suffix_append a l) with hw | hw
        · exact (h l hl).2 hw
        · exact (h l hl).1 hw
      · exact ih hw

theorem listed_cons_cons (e f : Text) (es : List Text) :
    listed (e :: f :: es) = e ++ ',' :: ' ' :: listed (f :: es) := by
  rw [listed, List.intercalate_cons_cons, List.append_assoc]
  rfl

theorem mem_listed {es : List Text} {c : Char} (h : c ∈ listed es) :
    c = ',' ∨ c = ' ' ∨ ∃ e ∈ es, c ∈ e := by
  induction es with
  | nil => simp [listed] at h
  | cons e es ih =>
      cases es with
      | nil => exact Or.inr (Or.inr ⟨e, by simp, by simpa [listed] using h⟩)
      | cons f es =>
          rw [listed_cons_cons] at h
          simp only [List.mem_append, List.mem_cons] at h
          rcases h with h | h | h | h
          · exact Or.inr (Or.inr ⟨e, by simp, h⟩)
          · exact Or.inl h
          · exact Or.inr (Or.inl h)
          · rcases ih h with h | h | ⟨d, hd, h⟩
            · exact Or.inl h
            · exact Or.inr (Or.inl h)
            · exact Or.inr (Or.inr ⟨d, List.mem_cons_of_mem e hd, h⟩)

theorem Name.not_mem (w : Name) {c : Char} (h : isWord c = false) : c ∉ w.text :=
  w.toToken.not_mem h

theorem Name.starts (w : Name) : Starts w.text := w.toToken.starts fun _ => isBlank_of_isWord

theorem Name.stops (w : Name) : Stops w.text := w.toToken.stops fun _ => isBlank_of_isWord

theorem Holding.mem_render {h : Holding} {c : Char} (hc : c ∈ h.render) :
    isWord c = true ∨ c = ' ' := by
  have hlabel : ∀ c ∈ " owned by ".toList, isWord c = true ∨ c = ' ' := by decide
  simp only [render, List.mem_append] at hc
  rcases hc with hc | hc | hc
  · exact Or.inl (h.unit.chars c hc)
  · exact hlabel c hc
  · exact Or.inl (h.owner.chars c hc)

theorem Holding.not_mem_render {h : Holding} {c : Char} (hword : isWord c = false) (hc : c ≠ ' ') :
    c ∉ h.render :=
  not_mem_of_words (fun _ => mem_render) hword hc

/-- Of the marks only commas are in a list of units. -/
theorem not_mem_units {c : Char} (hword : isWord c = false) (hc : c ≠ ' ' ∧ c ≠ ',')
    (units : List Holding) : c ∉ listed (units.map Holding.render) := by
  intro h
  rcases mem_listed h with rfl | rfl | ⟨e, he, h⟩
  · exact hc.2 rfl
  · exact hc.1 rfl
  · obtain ⟨u, -, rfl⟩ := List.mem_map.mp he
    exact Holding.not_mem_render hword hc.1 h

theorem labelled_ownership (player territory previous : Name) :
    Labelled (· ∈ []) (Line.ownership player territory previous) := by
  refine .last ?_
  simp only [Line.ownership, List.mem_append, not_or]
  exact ⟨player.not_mem (by decide), by decide, territory.not_mem (by decide), by decide,
    previous.not_mem (by decide)⟩

theorem labelled_transfer {lead : String} {l : Text} (hlead : lead.toList = l ++ [':', ' '])
    (hl : ':' ∉ l) (target : Name) (units : List Holding) :
    Labelled (· ∈ [l, " units".toList]) (Line.transfer lead target units) := by
  have hline : Line.transfer lead target units = [] ++ l ++ ':' :: (' ' :: target.text ++
      " units".toList ++ ':' :: (" [".toList ++ (listed (units.map Holding.render) ++
        "]".toList))) := by
    simp [Line.transfer, hlead]
  rw [hline]
  refine .colon (by simp) hl (.colon (by simp) ?_ (.last ?_))
  · simp [target.not_mem isWord_colon]
  · simp [not_mem_units isWord_colon (by decide) units]

theorem labelled_addUnits (target : Name) (units : List Holding) :
    Labelled (· ∈ ["Add unit change.  Add to".toList, " units".toList])
      (Line.transfer "Add unit change.  Add to: " target units) :=
  labelled_transfer rfl (by decide) target units

theorem labelled_removeUnits (target : Name) (units : List Holding) :
    Labelled (· ∈ ["Remove unit change.  Remove from".toList, " units".toList])
      (Line.transfer "Remove unit change.  Remove from: " target units) :=
  labelled_transfer rfl (by decide) target units

theorem not_mem_signedDigits {c : Char} (hc : c.isDigit = false) (hminus : c ≠ '-') (n : Int) :
    c ∉ signedDigits n := by
  have hdigits (m : Nat) : c ∉ digits m := fun h => by simp [isDigit_of_mem_digits c h] at hc
  rw [signedDigits]
  split
  · simp [hminus, hdigits]
  · exact hdigits _

theorem labelled_resource (quantity : Int64) (player : Name) :
    Labelled (· ∈ ["Change resource.  Resource".toList, "PUs quantity".toList, " Player".toList])
      (Line.resource quantity player) := by
  have hline : Line.resource quantity player = [] ++ "Change resource.  Resource".toList ++
      ':' :: ([] ++ "PUs quantity".toList ++ ':' :: (signedDigits quantity.toInt ++
        " Player".toList ++ ':' :: player.text)) := by
    rw [Line.resource_def]
    simp
  rw [hline]
  refine .colon (by simp) (by decide) (.colon (by simp) (by decide)
    (.colon (by simp) ?_ (.last (player.not_mem (by decide)))))
  simp [not_mem_signedDigits (by decide : (':').isDigit = false) (by decide)]

theorem labelled_property (of : Holding) (field : Name) (newValue oldValue : Value) :
    Labelled (· ∈ ["Property change, unit".toList, " property".toList, " newValue".toList,
      " oldValue".toList]) (Line.property of field newValue oldValue) := by
  have hline : Line.property of field newValue oldValue =
      [] ++ "Property change, unit".toList ++ ':' :: (of.render ++ " property".toList ++
        ':' :: (field.text ++ " newValue".toList ++ ':' :: (newValue.text ++
          " oldValue".toList ++ ':' :: oldValue.text))) := by
    rw [Line.property_def]
    simp
  rw [hline]
  refine .colon (by simp) (by decide) (.colon (by simp) ?_ (.colon (by simp) ?_
    (.colon (by simp) ?_ (.last (oldValue.not_mem (by decide))))))
  · simp [Holding.not_mem_render isWord_colon (by decide)]
  · simp [field.not_mem isWord_colon]
  · simp [newValue.not_mem (by decide : isValue ':' = false)]

/-- What the colons of battle records stand behind: the title, or the number of a battle with the
character before it. -/
inductive BattleLabel : Text → Prop
  | title : BattleLabel "Adding Battle Records".toList
  | id (c : Char) (hc : c ∈ ['[', ' ']) (id : Token isHex) : BattleLabel (c :: id.text)

/-- What stands between the number of a battle and the next battle. -/
def Skirmish.sides (s : Skirmish) : Text :=
  s.attacker.text ++ (" attack ".toList ++ (s.defender.text ++ (" battle in ".toList ++
    s.territory.text)))

theorem Skirmish.render_eq (s : Skirmish) : s.render = s.id.text ++ ':' :: s.sides := rfl

theorem Skirmish.not_mem_sides (s : Skirmish) {c : Char} (hword : isWord c = false)
    (hc : c ≠ ' ') : c ∉ s.sides := by
  simp only [sides, List.mem_append, not_or]
  exact ⟨s.attacker.not_mem hword, not_mem_of_words (by decide) hword hc, s.defender.not_mem hword,
    not_mem_of_words (by decide) hword hc, s.territory.not_mem hword⟩

theorem labelled_skirmishes {a : Text} (ha : ':' ∉ a) {c : Char} (hc : c ∈ ['[', ' '])
    (skirmishes : List Skirmish) :
    Labelled BattleLabel (a ++ c :: (listed (skirmishes.map Skirmish.render) ++ "]]".toList)) := by
  have hcolon : ':' ≠ c := by rintro rfl; simp at hc
  induction skirmishes generalizing a c with
  | nil => exact .last (by simp [listed, ha, hcolon])
  | cons s ss ih =>
      have hsides := s.not_mem_sides isWord_colon (by decide)
      have hid : ':' ∉ a ++ c :: s.id.text := by
        simp [ha, hcolon, s.id.not_mem (by decide : isHex ':' = false)]
      cases ss with
      | nil =>
          have hline : a ++ c :: (listed [s.render] ++ "]]".toList) =
              a ++ (c :: s.id.text) ++ ':' :: (s.sides ++ "]]".toList) := by
            simp [listed, Skirmish.render_eq]
          rw [List.map_singleton, hline]
          exact .colon (.id c hc s.id) hid (.last (by simp [hsides]))
      | cons s' ss =>
          have hline : a ++ c :: (listed (s.render :: s'.render :: ss.map Skirmish.render) ++
              "]]".toList) = a ++ (c :: s.id.text) ++ ':' :: (s.sides ++ [','] ++
                ' ' :: (listed (s'.render :: ss.map Skirmish.render) ++ "]]".toList)) := by
            simp [listed_cons_cons, Skirmish.render_eq]
          rw [List.map_cons, List.map_cons, hline]
          exact .colon (.id c hc s.id) hid (ih (by simp [hsides]) (by simp) (by simp))

theorem labelled_battles (player : Name) (skirmishes : List Skirmish) :
    Labelled BattleLabel (Line.battles player skirmishes) := by
  have hline : Line.battles player skirmishes = [] ++ "Adding Battle Records".toList ++
      ':' :: (" [".toList ++ player.text ++ ['='] ++
        '[' :: (listed (skirmishes.map Skirmish.render) ++ "]]".toList)) := by
    rw [Line.battles_def]
    simp
  rw [hline]
  refine .colon .title (by decide) (labelled_skirmishes ?_ (by simp) skirmishes)
  simp [player.not_mem isWord_colon]

/-- No line but that of a role has a role in it. -/
theorem not_role_of_battleLabel {l : Text} (h : BattleLabel l) :
    ¬ l <:+ "Role".toList ∧ ¬ "Role".toList <:+ l := by
  cases h with
  | title => decide
  | id c hc id =>
      have hid : 'R' ∉ id.text := id.not_mem (by decide)
      constructor
      · intro h
        have := h.subset (List.mem_cons_self)
        rcases List.mem_cons.mp hc with rfl | hc
        · simp at this
        · simp_all
      · intro h
        have := h.subset (by simp : 'R' ∈ "Role".toList)
        rcases List.mem_cons.mp this with rfl | hid'
        · simp at hc
        · exact hid hid'

end Warboard.Change
