import Warboard.Proofs.Change.Forms
import Warboard.Proofs.Change.Precedence

namespace Warboard.Change

open Text

theorem readTrimmed_battles (player : Name) (skirmishes : List Skirmish) :
    readTrimmed (Line.battles player skirmishes) =
      .ok (.single (.battles (skirmishes.map Skirmish.battle))) := by
  have hrole : ¬ "Role: ".toList <:+: Line.battles player skirmishes :=
    (labelled_battles player skirmishes).absent (u := "Role".toList) [' '] (by decide)
      fun _ => not_role_of_battleLabel
  have htitle : from? "Adding Battle Records:" (Line.battles player skirmishes) =
      some (Line.battles player skirmishes) := by
    rw [Line.battles_def, from?_append_self]
  simp only [readTrimmed, firstMatch_role_eq_none hrole, htitle, allMatches_battles]

/-- A line that none of the forms with precedence claims is read as a single change. -/
theorem readTrimmed_of_labelled {labels : List Text} {t : Text} (ht : Labelled (· ∈ labels) t)
    (hlabels : ∀ l ∈ labels, (¬ l <:+ "Role".toList ∧ ¬ "Role".toList <:+ l) ∧
      ¬ l <:+ "Adding Battle Records".toList ∧ ¬ "Adding Battle Records".toList <:+ l)
    (hbatch : ¬ batch <:+: t) : readTrimmed t = (readSingle t).map .single := by
  have hrole : ¬ "Role: ".toList <:+: t :=
    ht.absent (u := "Role".toList) [' '] (by decide) fun l hl => (hlabels l hl).1
  have hbattles : ¬ "Adding Battle Records:".toList <:+: t :=
    ht.absent (u := "Adding Battle Records".toList) [] (by decide) fun l hl => (hlabels l hl).2
  have htitle : mentions "CompositeChange" t = false := by
    rw [← Bool.not_eq_true, mentions_iff]
    exact hbatch
  simp [readTrimmed, firstMatch_role_eq_none hrole, from?_eq_none_iff.mpr hbattles, htitle]

theorem readSingle_ownership (player territory previous : Name) :
    readSingle (Line.ownership player territory previous) =
      .ok (.ownership player.string territory.string previous.string) := by
  have hmatch := firstMatch_of_eq_some (ownership_line player territory previous)
  simp [readSingle, hmatch]

theorem readSingle_addUnits (target : Name) {units : List Holding} (hne : units ≠ []) :
    readSingle (Line.transfer "Add unit change.  Add to: " target units) =
      .ok (.addUnits target.string (units.map Holding.key)) := by
  have hownership : firstMatch ownership
      (Line.transfer "Add unit change.  Add to: " target units) = none :=
    firstMatch_ownership_eq_none fun _ _ hx =>
      conquest_not_infix_transfer hx rfl (conquest_not_infix_addUnits hx) target units
  have hmatch := firstMatch_of_eq_some (addUnits_line target hne)
  simp [readSingle, hownership, hmatch]

theorem readSingle_removeUnits (target : Name) {units : List Holding} (hne : units ≠ []) :
    readSingle (Line.transfer "Remove unit change.  Remove from: " target units) =
      .ok (.removeUnits target.string (units.map Holding.key)) := by
  have hownership : firstMatch ownership
      (Line.transfer "Remove unit change.  Remove from: " target units) = none :=
    firstMatch_ownership_eq_none fun _ _ hx =>
      conquest_not_infix_transfer hx rfl (conquest_not_infix_removeUnits hx) target units
  have hadd := firstMatch_addUnits_eq_none ((labelled_removeUnits target units).absent
    (u := "Add to".toList) [' '] (by decide) (by decide))
  have hmatch := firstMatch_of_eq_some (removeUnits_line target hne)
  simp [readSingle, hownership, hadd, hmatch]

theorem readSingle_resource (quantity : Int64) (player : Name) :
    readSingle (Line.resource quantity player) = .ok (.resource player.string quantity) := by
  have hlabelled := labelled_resource quantity player
  have hownership := firstMatch_ownership_eq_none fun _ _ hx =>
    conquest_not_infix_resource hx quantity player
  have hadd := firstMatch_addUnits_eq_none
    (hlabelled.absent (u := "Add to".toList) [' '] (by decide) (by decide))
  have hremove := firstMatch_removeUnits_eq_none
    (hlabelled.absent (u := "Remove from".toList) [' '] (by decide) (by decide))
  simp [readSingle, hownership, hadd, hremove, resource_line, readInt64_signedDigits]

theorem readSingle_property (of : Holding) (field : Name) (newValue oldValue : Value) :
    readSingle (Line.property of field newValue oldValue) =
      .ok (.property of.key field.string newValue.string oldValue.string) := by
  have hlabelled := labelled_property of field newValue oldValue
  have hownership := firstMatch_ownership_eq_none fun _ _ hx =>
    conquest_not_infix_property hx of field newValue oldValue
  have hadd := firstMatch_addUnits_eq_none
    (hlabelled.absent (u := "Add to".toList) [' '] (by decide) (by decide))
  have hremove := firstMatch_removeUnits_eq_none
    (hlabelled.absent (u := "Remove from".toList) [' '] (by decide) (by decide))
  have hresource := firstMatch_resource_eq_none
    (hlabelled.absent (u := "Resource".toList) "PUs quantity:".toList (by decide) (by decide))
  have hmatch := firstMatch_of_eq_some (property_line of field newValue oldValue)
  simp [readSingle, hownership, hadd, hremove, hresource, hmatch]

theorem readTrimmed_render (r : Report) (h : ∀ v ∈ r.values, ¬ "CompositeChange".toList <:+: v.text) :
    readTrimmed r.render = .ok (.single r.event) := by
  cases r with
  | role player =>
      have hmatch := firstMatch_of_eq_some (role_line player)
      simp [Report.render, readTrimmed, hmatch, Report.event]
  | battles player skirmishes => exact readTrimmed_battles player skirmishes
  | ownership player territory previous =>
      rw [Report.render, readTrimmed_of_labelled (labelled_ownership player territory previous)
        (by simp) (batch_not_infix_ownership player territory previous), readSingle_ownership]
      rfl
  | addUnits target units hne =>
      rw [Report.render, readTrimmed_of_labelled (labelled_addUnits target units) (by decide)
        (batch_not_infix_transfer (l := "Add unit change.  Add to:".toList) rfl (by decide)
          target units), readSingle_addUnits target hne]
      rfl
  | removeUnits target units hne =>
      rw [Report.render, readTrimmed_of_labelled (labelled_removeUnits target units) (by decide)
        (batch_not_infix_transfer (l := "Remove unit change.  Remove from:".toList) rfl (by decide)
          target units), readSingle_removeUnits target hne]
      rfl
  | resource quantity player =>
      rw [Report.render, readTrimmed_of_labelled (labelled_resource quantity player) (by decide)
        (batch_not_infix_resource quantity player), readSingle_resource]
      rfl
  | property of field newValue oldValue =>
      have hnew := h newValue (by simp [Report.values])
      have hold := h oldValue (by simp [Report.values])
      rw [Report.render, readTrimmed_of_labelled (labelled_property of field newValue oldValue)
        (by decide) (batch_not_infix_property of field hnew hold), readSingle_property]
      rfl

theorem isBlank_of_isValue {c : Char} (h : isValue c = true) : isBlank c = false := by
  simp only [isValue, Bool.or_eq_true, decide_eq_true_eq] at h
  rcases h with (h | rfl) | rfl
  · exact isBlank_of_isWord h
  · decide
  · decide

theorem Report.render_starts (r : Report) : Starts r.render := by
  cases r with
  | role player => exact ⟨'R', _, rfl, by decide⟩
  | battles player skirmishes => exact ⟨'A', _, rfl, by decide⟩
  | ownership player territory previous => exact player.starts.append _
  | addUnits target units => exact ⟨'A', _, rfl, by decide⟩
  | removeUnits target units => exact ⟨'R', _, rfl, by decide⟩
  | resource quantity player => exact ⟨'C', _, rfl, by decide⟩
  | property of field newValue oldValue => exact ⟨'P', _, rfl, by decide⟩

theorem Report.render_stops (r : Report) : Stops r.render := by
  cases r with
  | role player => exact player.stops.append _
  | battles player skirmishes =>
      have hend : Stops "]]".toList := ⟨[']'], ']', rfl, by decide⟩
      exact ((((hend.append _).append _).append _).append _).append _
  | ownership player territory previous => exact (((previous.stops.append _).append _).append _).append _
  | addUnits target units | removeUnits target units =>
      have hend : Stops "]".toList := ⟨[], ']', rfl, by decide⟩
      exact (((hend.append _).append _).append _).append _
  | resource quantity player => exact (((player.stops.append _).append _).append _).append _
  | property of field newValue oldValue =>
      have hend : Stops oldValue.text := oldValue.stops fun _ => isBlank_of_isValue
      exact ((((((hend.append _).append _).append _).append _).append _).append _).append _

/-- Reading undoes the rendering of every single change, with white space around it or without, if
no value of a property takes the line for a batch. -/
theorem read_render (r : Report) (hvalues : ∀ v ∈ r.values, ¬ "CompositeChange".toList <:+: v.text)
    {before after : Text} (hbefore : ∀ c ∈ before, isBlank c = true)
    (hafter : ∀ c ∈ after, isBlank c = true) :
    read (before ++ r.render ++ after) = .ok (.single r.event) := by
  rw [read, trim_padded r.render_starts r.render_stops hbefore hafter]
  exact readTrimmed_render r hvalues

/-- A report full of words that other forms are made of. -/
def retreat : Report :=
  .property
    ⟨⟨⟨"takes".toList, by decide, by decide⟩, by decide⟩,
      ⟨⟨"from".toList, by decide, by decide⟩, by decide⟩⟩
    ⟨⟨"Role".toList, by decide, by decide⟩, by decide⟩
    ⟨"-0.5".toList, by decide, by decide⟩ ⟨"battle".toList, by decide, by decide⟩

theorem read_render_retreat :
    ((∀ v ∈ retreat.values, ¬ "CompositeChange".toList <:+: v.text) ∧
      (∀ c ∈ " \t".toList, isBlank c = true) ∧ ∀ c ∈ "\n".toList, isBlank c = true) ∧
    read (" \t".toList ++ retreat.render ++ "\n".toList) = .ok (.single retreat.event) :=
  have hvalues : ∀ v ∈ retreat.values, ¬ "CompositeChange".toList <:+: v.text := by
    simp only [retreat, Report.values, List.forall_mem_cons]
    decide
  have hbefore : ∀ c ∈ " \t".toList, isBlank c = true := by decide
  have hafter : ∀ c ∈ "\n".toList, isBlank c = true := by decide
  ⟨⟨hvalues, hbefore, hafter⟩, read_render retreat hvalues hbefore hafter⟩

/-- A note whose new value is the title of a batch. -/
def titled : Report :=
  .property
    ⟨⟨⟨"armour".toList, by decide, by decide⟩, by decide⟩,
      ⟨⟨"Russians".toList, by decide, by decide⟩, by decide⟩⟩
    ⟨⟨"note".toList, by decide, by decide⟩, by decide⟩
    ⟨"CompositeChange".toList, by decide, by decide⟩ ⟨"0".toList, by decide, by decide⟩

/-- Such a value makes the line one of a batch, which is read before a property is. -/
theorem not_read_render_titled :
    read titled.render = .error .missingBlock ∧
      ¬ ∀ (r : Report) (before after : Text), (∀ c ∈ before, isBlank c = true) →
        (∀ c ∈ after, isBlank c = true) →
        read (before ++ r.render ++ after) = .ok (.single r.event) := by
  have hread : read titled.render = .error .missingBlock := by decide +kernel
  refine ⟨hread, fun h => ?_⟩
  have htitled := h titled [] [] (by simp) (by simp)
  rw [List.nil_append, List.append_nil, hread] at htitled
  simp at htitled

end Warboard.Change
