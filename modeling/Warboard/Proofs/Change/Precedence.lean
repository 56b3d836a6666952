import Warboard.Proofs.Change.Labels

namespace Warboard.Change

open Text

theorem firstMatch_role_eq_none {t : Text} (h : ¬ "Role: ".toList <:+: t) :
    firstMatch role t = none := by
  rw [firstMatch_eq_none_iff]
  intro s hs
  rw [role, after_eq_none h hs]
  rfl

theorem firstMatch_resource_eq_none {t : Text} (h : ¬ "Resource:PUs quantity:".toList <:+: t) :
    firstMatch resource t = none := by
  rw [firstMatch_eq_none_iff]
  intro s hs
  rw [resource, after_eq_none h hs]
  rfl

theorem transfer_eq_none {lead : String} {t : Text} (h : ¬ lead.toList <:+: t) :
    transfer lead t = none := by
  apply lastOnLine_eq_none
  intro s hs
  rw [after_eq_none h hs]
  rfl

/-- Neither of the two forms that move units is in a line without the words that lead to the
target. -/
theorem firstMatch_transfer_eq_none {α : Type} {head lead : String}
    {result : String × List UnitKey → Option α} {t : Text} (h : ¬ lead.toList <:+: t) :
    firstMatch (fun s => do result (← transfer lead (← after head s))) t = none := by
  rw [firstMatch_eq_none_iff]
  intro s hs
  cases ha : after head s with
  | none => rfl
  | some u =>
      have hu : u <:+ s := after_eq_some_iff.mp ha ▸ List.suffix_append _ u
      simp only [Option.bind_eq_bind, Option.bind_some,
        transfer_eq_none fun hw => h (hw.trans (hu.trans hs).isInfix), Option.bind_none]

theorem firstMatch_addUnits_eq_none {t : Text} (h : ¬ "Add to: ".toList <:+: t) :
    firstMatch addUnits t = none :=
  firstMatch_transfer_eq_none h

theorem firstMatch_removeUnits_eq_none {t : Text} (h : ¬ "Remove from: ".toList <:+: t) :
    firstMatch removeUnits t = none :=
  firstMatch_transfer_eq_none h

theorem name_eq_some {t rest : Text} {w : String} (h : name t = some (w, rest)) :
    t = w.toList ++ rest ∧ w.toList ≠ [] ∧ ∀ c ∈ w.toList, isWord c = true := by
  rw [name, Option.map_eq_some_iff] at h
  obtain ⟨⟨u, rest⟩, hrun, h⟩ := h
  obtain ⟨rfl, rfl⟩ := Prod.mk.inj h
  simpa using run_eq_some hrun

/-- A line that reports the conquest of `x` has this in it; `c` is the last letter of the new owner's
name. -/
def conquest (c : Char) (x : Text) : Text := c :: (" takes ".toList ++ (x ++ " from ".toList))

theorem conquest_def (c : Char) (x : Text) :
    conquest c x = c :: (" takes ".toList ++ (x ++ " from ".toList)) := rfl

theorem firstMatch_ownership_eq_none {t : Text}
    (h : ∀ c x, (∀ d ∈ c :: x, isWord d = true) → ¬ conquest c x <:+: t) :
    firstMatch ownership t = none := by
  rw [firstMatch_eq_none_iff]
  intro s hs
  rw [Option.eq_none_iff_forall_ne_some]
  intro e he
  simp only [ownership, Option.bind_eq_bind, Option.bind_eq_some_iff, Prod.exists] at he
  obtain ⟨player, u, hu, v, hv, territory, w, hw, z, hz, -⟩ := he
  obtain ⟨rfl, hne, hplayer⟩ := name_eq_some hu
  obtain ⟨rfl, -, hterritory⟩ := name_eq_some hw
  obtain rfl := after_eq_some_iff.mp hv
  obtain rfl := after_eq_some_iff.mp hz
  obtain ⟨init, c, hinit⟩ := (List.eq_nil_or_concat player.toList).resolve_left hne
  refine h c territory.toList ?_ (List.IsInfix.trans ⟨init, z, ?_⟩ hs.isInfix)
  · intro d hd
    rcases List.mem_cons.mp hd with rfl | hd
    · exact hplayer d (by simp [hinit])
    · exact hterritory d hd
  · rw [hinit, conquest_def]
    simp only [List.append_assoc, List.cons_append, List.concat_eq_append, List.nil_append]

/-- A pattern that is cut by a character it does not have. -/
theorem not_infix_cut {w a b : Text} {d : Char} (hd : d ∉ w) (ha : ¬ w <:+: a)
    (hb : ¬ w <:+: b) : ¬ w <:+: a ++ d :: b :=
  fun h => (infix_append_cons_of_not_mem hd h).elim ha hb

/-- The word that makes a line one of a batch. -/
def batch : Text := "CompositeChange".toList

theorem not_mem_batch {c : Char} (h : isWord c = false) : c ∉ batch := fun hc => by
  have hbatch : ∀ c ∈ batch, isWord c = true := by decide
  simp [hbatch c hc] at h

theorem batch_not_infix_ownership (player territory previous : Name) :
    ¬ batch <:+: Line.ownership player territory previous := by
  have hblank : ' ' ∉ batch := not_mem_batch (by decide)
  have hline : Line.ownership player territory previous = player.text ++ ' ' :: ("takes".toList ++
      ' ' :: (territory.text ++ ' ' :: ("from".toList ++ ' ' :: previous.text))) := by
    simp [Line.ownership]
  rw [hline]
  exact not_infix_cut hblank player.simple (not_infix_cut hblank (by decide)
    (not_infix_cut hblank territory.simple (not_infix_cut hblank (by decide) previous.simple)))

theorem Holding.batch_absent (h : Holding) {rest : Text} (hrest : ¬ batch <:+: rest) :
    ¬ batch <:+: h.render ++ ' ' :: rest := by
  have hblank : ' ' ∉ batch := not_mem_batch (by decide)
  have hline : h.render ++ ' ' :: rest =
      h.unit.text ++ ' ' :: ("owned by".toList ++ ' ' :: (h.owner.text ++ ' ' :: rest)) := by
    simp [Holding.render]
  rw [hline]
  exact not_infix_cut hblank h.unit.simple (not_infix_cut hblank (by decide)
    (not_infix_cut hblank h.owner.simple hrest))

theorem batch_not_infix_transfer {lead : String} {l : Text} (hlead : lead.toList = l ++ [' '])
    (hl : ¬ batch <:+: l) (target : Name) (units : List Holding) :
    ¬ batch <:+: Line.transfer lead target units := by
  have hblank : ' ' ∉ batch := not_mem_batch (by decide)
  have hline : Line.transfer lead target units = l ++ ' ' :: (target.text ++ ' ' ::
      ("units: ".toList ++ '[' :: (listed (units.map Holding.render) ++ ']' :: []))) := by
    simp [Line.transfer, hlead]
  have hunits : ¬ batch <:+: listed (units.map Holding.render) := by
    intro hw
    obtain ⟨e, he, hw⟩ :=
      Tree.infix_separated (by decide) (not_mem_batch (by decide)) (by decide) hw
    obtain ⟨u, -, rfl⟩ := List.mem_map.mp he
    exact u.batch_absent (by decide : ¬ batch <:+: [])
      (hw.trans (List.prefix_append _ _).isInfix)
  rw [hline]
  exact not_infix_cut hblank hl (not_infix_cut hblank target.simple
    (not_infix_cut (not_mem_batch (by decide)) (by decide)
      (not_infix_cut (not_mem_batch (by decide)) hunits (by decide))))

theorem batch_not_infix_resource (quantity : Int64) (player : Name) :
    ¬ batch <:+: Line.resource quantity player := by
  have hcolon : ':' ∉ batch := not_mem_batch (by decide)
  have hline : Line.resource quantity player = "Change resource.  Resource:PUs quantity".toList ++
      ':' :: (signedDigits quantity.toInt ++ ' ' :: ("Player".toList ++ ':' :: player.text)) := by
    rw [Line.resource_def]
    simp
  have hquantity : ¬ batch <:+: signedDigits quantity.toInt := fun hw =>
    not_mem_signedDigits (by decide : ('C').isDigit = false) (by decide) _
      (hw.subset (by decide))
  rw [hline]
  exact not_infix_cut hcolon (by decide) (not_infix_cut (not_mem_batch (by decide)) hquantity
    (not_infix_cut hcolon (by decide) player.simple))

theorem batch_not_infix_property (of : Holding) (field : Name) {newValue oldValue : Value}
    (hnew : ¬ batch <:+: newValue.text) (hold : ¬ batch <:+: oldValue.text) :
    ¬ batch <:+: Line.property of field newValue oldValue := by
  have hblank : ' ' ∉ batch := not_mem_batch (by decide)
  have hcolon : ':' ∉ batch := not_mem_batch (by decide)
  have hline : Line.property of field newValue oldValue = "Property change, unit".toList ++
      ':' :: (of.render ++ ' ' :: ("property".toList ++ ':' :: (field.text ++
        ' ' :: ("newValue".toList ++ ':' :: (newValue.text ++
          ' ' :: ("oldValue".toList ++ ':' :: oldValue.text)))))) := by
    rw [Line.property_def]
    simp
  rw [hline]
  exact not_infix_cut hcolon (by decide) (of.batch_absent
    (not_infix_cut hcolon (by decide) (not_infix_cut hblank field.simple
      (not_infix_cut hcolon (by decide) (not_infix_cut hblank hnew
        (not_infix_cut hcolon (by decide) hold))))))

section

variable {c : Char} {x : Text} (hx : ∀ d ∈ c :: x, isWord d = true)

theorem conquest_not_infix_of_count {t : Text} (h : t.count ' ' < 4) :
    ¬ conquest c x <:+: t := by
  intro hw
  have hcount := hw.count_le ' '
  rw [conquest_def] at hcount
  simp [List.count_append, List.count_cons] at hcount
  omega

include hx in
theorem not_mem_conquest {d : Char} (hword : isWord d = false) (hd : d ≠ ' ') :
    d ∉ conquest c x := by
  have hchars (e : Char) (he : e ∈ c :: x) : e ≠ d := by
    rintro rfl
    simp [hx e he] at hword
  simp only [conquest_def, List.mem_cons, List.mem_append, not_or]
  exact ⟨(hchars c (by simp)).symm, not_mem_of_words (by decide) hword hd,
    fun h => hchars d (by simp [h]) rfl, not_mem_of_words (by decide) hword hd⟩

include hx in
theorem head_ne_blank : c ≠ ' ' := by
  rintro rfl
  exact absurd (hx ' ' (by simp)) (by decide)

theorem Name.count_blank (w : Name) : w.text.count ' ' = 0 :=
  List.count_eq_zero_of_not_mem (w.not_mem (by decide))

theorem Holding.count_blank (h : Holding) : h.render.count ' ' = 3 := by
  simp [Holding.render, List.count_append, Name.count_blank]

include hx in
theorem conquest_not_infix_transfer {lead : String} {l : Text}
    (hlead : lead.toList = l ++ [':', ' ']) (hl : ¬ conquest c x <:+: l) (target : Name)
    (units : List Holding) : ¬ conquest c x <:+: Line.transfer lead target units := by
  have hcolon := not_mem_conquest hx isWord_colon (by decide)
  have hline : Line.transfer lead target units = l ++ ':' :: (' ' :: target.text ++
      " units".toList ++ ':' :: ([' '] ++ '[' :: (listed (units.map Holding.render) ++
        ']' :: []))) := by
    simp [Line.transfer, hlead]
  have hunits : ¬ conquest c x <:+: listed (units.map Holding.render) := by
    intro hw
    have hhead : ∀ d ∈ (conquest c x).head?, d ≠ ' ' := by
      rintro d hd rfl
      exact head_ne_blank hx (by simpa [conquest_def] using hd)
    obtain ⟨e, he, hw⟩ := Tree.infix_separated (by simp [conquest_def])
      (not_mem_conquest hx (by decide) (by decide)) hhead hw
    obtain ⟨u, -, rfl⟩ := List.mem_map.mp he
    exact conquest_not_infix_of_count (by simp [u.count_blank]) hw
  rw [hline]
  refine not_infix_cut hcolon hl (not_infix_cut hcolon (conquest_not_infix_of_count ?_)
    (not_infix_cut (not_mem_conquest hx (by decide) (by decide))
      (conquest_not_infix_of_count (by decide))
      (not_infix_cut (not_mem_conquest hx (by decide) (by decide)) hunits
        (conquest_not_infix_of_count (by decide)))))
  simp [List.count_append, target.count_blank]

include hx in
theorem conquest_not_infix_addUnits :
    ¬ conquest c x <:+: "Add unit change.  Add to".toList :=
  not_infix_cut (a := "Add unit change".toList) (b := "  Add to".toList)
    (not_mem_conquest hx (by decide : isWord '.' = false) (by decide))
    (conquest_not_infix_of_count (by decide)) (conquest_not_infix_of_count (by decide))

include hx in
theorem conquest_not_infix_removeUnits :
    ¬ conquest c x <:+: "Remove unit change.  Remove from".toList :=
  not_infix_cut (a := "Remove unit change".toList) (b := "  Remove from".toList)
    (not_mem_conquest hx (by decide : isWord '.' = false) (by decide))
    (conquest_not_infix_of_count (by decide)) (conquest_not_infix_of_count (by decide))

include hx in
theorem conquest_not_infix_resource (quantity : Int64) (player : Name) :
    ¬ conquest c x <:+: Line.resource quantity player := by
  have hcolon := not_mem_conquest hx isWord_colon (by decide)
  have hline : Line.resource quantity player = "Change resource.  Resource".toList ++ ':' ::
      ("PUs quantity".toList ++ ':' :: (signedDigits quantity.toInt ++ " Player".toList ++
        ':' :: player.text)) := by
    rw [Line.resource_def]
    simp
  have hquantity : (signedDigits quantity.toInt).count ' ' = 0 :=
    List.count_eq_zero_of_not_mem (not_mem_signedDigits (by decide) (by decide) _)
  rw [hline]
  refine not_infix_cut hcolon (conquest_not_infix_of_count (by decide)) (not_infix_cut hcolon
    (conquest_not_infix_of_count (by decide)) (not_infix_cut hcolon
      (conquest_not_infix_of_count ?_) (conquest_not_infix_of_count ?_)))
  · simp [List.count_append, hquantity]
  · simp [player.count_blank]

include hx in
/-- The words around the owner of a changed unit are the only place with room for a conquest, but
there the second word is `owned`. -/
theorem conquest_not_infix_owner (of : Holding) :
    ¬ conquest c x <:+: of.render ++ " property".toList := by
  have hline : of.render ++ " property".toList =
      of.unit.text ++ ' ' :: ("owned by ".toList ++ (of.owner.text ++ " property".toList)) := by
    simp [Holding.render]
  have hpattern : conquest c x = [c] ++ ' ' :: ("takes ".toList ++ (x ++ " from ".toList)) := rfl
  have hc : ' ' ∉ [c] := by simpa using (head_ne_blank hx).symm
  rw [hline]
  intro hw
  rw [hpattern] at hw
  rcases infix_mark_cases hc (of.unit.not_mem (by decide)) hw with ⟨-, hw⟩ | hw
  · simp at hw
  · rw [← hpattern] at hw
    exact conquest_not_infix_of_count (by simp [List.count_append, Name.count_blank]) hw

include hx in
theorem conquest_not_infix_property (of : Holding) (field : Name) (newValue oldValue : Value) :
    ¬ conquest c x <:+: Line.property of field newValue oldValue := by
  have hcolon := not_mem_conquest hx isWord_colon (by decide)
  have hline : Line.property of field newValue oldValue = "Property change, unit".toList ++
      ':' :: (of.render ++ " property".toList ++ ':' :: (field.text ++ " newValue".toList ++
        ':' :: (newValue.text ++ " oldValue".toList ++ ':' :: oldValue.text))) := by
    rw [Line.property_def]
    simp
  have hvalue (v : Value) : v.text.count ' ' = 0 :=
    List.count_eq_zero_of_not_mem (v.not_mem (by decide))
  rw [hline]
  refine not_infix_cut hcolon (conquest_not_infix_of_count (by decide)) (not_infix_cut hcolon
    (conquest_not_infix_owner hx of) (not_infix_cut hcolon (conquest_not_infix_of_count ?_)
      (not_infix_cut hcolon (conquest_not_infix_of_count ?_) (conquest_not_infix_of_count ?_))))
  · simp [List.count_append, field.count_blank]
  · simp [List.count_append, hvalue]
  · simp [hvalue]

end

end Warboard.Change
