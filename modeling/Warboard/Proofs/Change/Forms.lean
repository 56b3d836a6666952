import Warboard.Proofs.Change.Precedence

namespace Warboard.Change

open Text

theorem unitEntry_render (h : Holding) (before : Text)
    (hbefore : ∀ c ∈ before, isBlank c = true) : unitEntry (before ++ h.render) = some h.key := by
  have hstart : Starts h.render := h.unit.starts.append _
  have hstop : Stops h.render := (h.owner.stops.append _).append _
  have htrim : trim (before ++ h.render ++ []) = h.render :=
    trim_padded hstart hstop hbefore (by simp)
  rw [List.append_nil] at htrim
  rw [unitEntry, htrim]
  simp only [Holding.render, h.unit.name_append (l := " owned by ") (by decide), after_append,
    h.owner.name_text, Option.bind_eq_bind, Option.bind_some, Option.pure_def, Holding.key]

/-- A list cut at its commas. All entries but the first keep the blank before them. -/
theorem splitOn_listed {e : Text} {es : List Text} (h : ∀ d ∈ e :: es, ',' ∉ d) :
    (listed (e :: es)).splitOn ',' = e :: es.map (' ' :: ·) := by
  have hjoined : listed (e :: es) = [','].intercalate (e :: es.map (' ' :: ·)) := by
    induction es generalizing e with
    | nil => simp [listed]
    | cons f es ih =>
        rw [listed_cons_cons, ih fun d hd => h d (List.mem_cons_of_mem e hd)]
        cases es <;> simp
  rw [hjoined, List.splitOn_intercalate ',' _ (by simp)]
  simpa using h

/-- The brackets are no part of the list, and every entry is read in its place. -/
theorem unitList_listed {units : List Holding} (hne : units ≠ []) :
    unitList (listed (units.map Holding.render)) = units.map Holding.key := by
  have hend : ∀ c ∈ (listed (units.map Holding.render)).getLast?,
      (decide (c = ']') || decide (c = '>')) = false := by
    intro c hc
    have hmem := List.mem_of_mem_getLast? hc
    have hsquare : c ≠ ']' := fun h => not_mem_units (by decide) (by decide) units (h ▸ hmem)
    have hangle : c ≠ '>' := fun h => not_mem_units (by decide) (by decide) units (h ▸ hmem)
    simp [hsquare, hangle]
  have hcomma : ∀ e ∈ units.map Holding.render, ',' ∉ e := by
    intro e he
    obtain ⟨u, -, rfl⟩ := List.mem_map.mp he
    exact Holding.not_mem_render (by decide) (by decide)
  have hblank (u : Holding) : unitEntry (' ' :: u.render) = some u.key :=
    unitEntry_render u [' '] (by decide)
  have hplain (u : Holding) : unitEntry u.render = some u.key :=
    unitEntry_render u [] (by simp)
  rw [unitList, dropEndWhile_eq_self hend]
  cases units with
  | nil => exact absurd rfl hne
  | cons u us =>
      rw [List.map_cons, splitOn_listed (by simpa using hcomma)]
      simp [hplain, hblank, List.filterMap_map, Function.comp_def]

theorem bracketed_append {t : Text} (hne : t ≠ []) (h : '\n' ∉ t) :
    bracketed (t ++ "]".toList) = some t := by
  have hline : (t ++ [']']).takeWhile (· ≠ '\n') = t ++ [']'] := by
    rw [List.takeWhile_eq_self_iff]
    intro c hc
    rcases List.mem_append.mp hc with hc | hc
    · exact decide_eq_true (ne_of_mem_of_not_mem hc h)
    · simp [List.mem_singleton.mp hc]
  have hlabel : "]".toList = [']'] := rfl
  rw [bracketed, hlabel, hline, List.reverse_append]
  obtain ⟨init, c, rfl⟩ := (List.eq_nil_or_concat t).resolve_left hne
  simp

/-- No second lead stands behind the first. -/
theorem lead_not_in_tail {lead : String} {d : Char} {l : Text} (hlead : lead.toList = d :: l ++ [':', ' '])
    (hl : ':' ∉ d :: l) (hunits : ¬ " units".toList <:+ d :: l ∧ ¬ d :: l <:+ " units".toList)
    (target : Name) (units : List Holding) :
    ¬ lead.toList <:+: (Line.transfer lead target units).tail := by
  have htail : (Line.transfer lead target units).tail = l ++ ':' :: (' ' :: target.text ++
      " units".toList ++ ':' :: (" [".toList ++ (listed (units.map Holding.render) ++
        "]".toList))) := by
    simp [Line.transfer, hlead]
  have hlabelled : Labelled (· = " units".toList) (' ' :: target.text ++ " units".toList ++
      ':' :: (" [".toList ++ (listed (units.map Holding.render) ++ "]".toList))) := by
    refine .colon rfl ?_ (.last ?_)
    · simp [target.not_mem isWord_colon]
    · simp [not_mem_units isWord_colon (by decide) units]
  have hpattern : lead.toList = (d :: l) ++ ':' :: [' '] := hlead
  rw [htail, hpattern]
  intro hw
  rcases infix_mark_cases hl (fun h => hl (List.mem_cons_of_mem d h)) hw with ⟨hw, -⟩ | hw
  · exact absurd hw.length_le (by simp)
  · refine hlabelled.absent [' '] hl ?_ hw
    rintro - rfl
    exact hunits

theorem transfer_line {lead : String} {d : Char} {l : Text} (hlead : lead.toList = d :: l ++ [':', ' '])
    (hl : ':' ∉ d :: l) (hunits : ¬ " units".toList <:+ d :: l ∧ ¬ d :: l <:+ " units".toList)
    (target : Name) {units : List Holding} (hne : units ≠ []) :
    transfer lead (Line.transfer lead target units) =
      some (target.string, units.map Holding.key) := by
  obtain ⟨tail, htail⟩ : ∃ tail, Line.transfer lead target units = d :: tail :=
    ⟨_, by simp [Line.transfer, hlead]; rfl⟩
  have hnone : transfer lead tail = none := by
    have h := lead_not_in_tail hlead hl hunits target units
    rw [htail] at h
    exact transfer_eq_none h
  have hlist : listed (units.map Holding.render) ≠ [] := fun h => by
    have hunits := unitList_listed hne
    rw [h, show unitList [] = [] by decide] at hunits
    exact hne (List.map_eq_nil_iff.mp hunits.symm)
  have hlines := not_mem_units (by decide : isWord '\n' = false) (by decide) units
  rw [transfer] at hnone
  rw [htail, transfer, lastOnLine, hnone, ite_self, ← htail]
  simp only [Line.transfer, after_append, target.name_append (l := " units: [") (by decide),
    bracketed_append hlist hlines, unitList_listed hne, Option.bind_eq_bind, Option.bind_some,
    Option.pure_def]
  rfl

theorem addUnits_line (target : Name) {units : List Holding} (hne : units ≠ []) :
    addUnits (Line.transfer "Add unit change.  Add to: " target units) =
      some (.addUnits target.string (units.map Holding.key)) := by
  have hsplit : Line.transfer "Add unit change.  Add to: " target units =
      "Add unit change".toList ++ (".  ".toList ++ Line.transfer "Add to: " target units) := by
    simp [Line.transfer]
  have hline : transfer "Add to: " (".  ".toList ++ Line.transfer "Add to: " target units) =
      some (target.string, units.map Holding.key) :=
    lastOnLine_append (by decide)
      (transfer_line (d := 'A') (l := "dd to".toList) rfl (by decide) (by decide) target hne)
  rw [hsplit]
  simp only [addUnits, after_append, hline, Option.bind_eq_bind, Option.bind_some, Option.pure_def]

theorem removeUnits_line (target : Name) {units : List Holding} (hne : units ≠ []) :
    removeUnits (Line.transfer "Remove unit change.  Remove from: " target units) =
      some (.removeUnits target.string (units.map Holding.key)) := by
  have hsplit : Line.transfer "Remove unit change.  Remove from: " target units =
      "Remove unit change".toList ++ (".  ".toList ++
        Line.transfer "Remove from: " target units) := by
    simp [Line.transfer]
  have hline : transfer "Remove from: "
      (".  ".toList ++ Line.transfer "Remove from: " target units) =
      some (target.string, units.map Holding.key) :=
    lastOnLine_append (by decide)
      (transfer_line (d := 'R') (l := "emove from".toList) rfl (by decide) (by decide) target hne)
  rw [hsplit]
  simp only [removeUnits, after_append, hline, Option.bind_eq_bind, Option.bind_some,
    Option.pure_def]

theorem resource_line (quantity : Int64) (player : Name) :
    firstMatch resource (Line.resource quantity player) =
      some (signedDigits quantity.toInt, player.string) := by
  have hskip : ∀ c ∈ "Change resource.  ".toList, ∀ u, resource (c :: u) = none := by
    have hfirst : ∀ c ∈ "Change resource.  ".toList, 'R' ≠ c := by decide
    intro c hc u
    have hafter : after "Resource:PUs quantity:" (c :: u) = none := by
      rw [Option.eq_none_iff_forall_ne_some]
      intro rest hrest
      rw [after_eq_some_iff] at hrest
      exact hfirst c hc (by simp_all)
    rw [resource, hafter]
    rfl
  have hrun (n : Nat) : run isWordDigit (digits n ++ (" Player:".toList ++ player.text)) =
      some (digits n, " Player:".toList ++ player.text) :=
    run_append_label (l := " Player:")
      ⟨digits n, digits_ne_nil n, fun c hc => isWordDigit_of_isDigit (isDigit_of_mem_digits c hc)⟩
      (by decide) player.text
  rw [Line.resource_def, firstMatch_append hskip]
  apply firstMatch_of_eq_some
  rw [signedDigits]
  split
  · simp only [resource, after_append, List.cons_append, hrun, player.name_text,
      Option.bind_eq_bind, Option.bind_some, Option.pure_def, List.nil_append]
  · obtain ⟨c, u, hdigits⟩ := List.exists_cons_of_ne_nil (digits_ne_nil quantity.toInt.natAbs)
    have hminus : c ≠ '-' := by
      rintro rfl
      exact digits_head_ne_minus _ _ hdigits
    have hrun := hrun quantity.toInt.natAbs
    rw [hdigits, List.cons_append] at hrun ⊢
    simp only [resource, after_append, Option.bind_eq_bind, Option.bind_some, Option.pure_def]
    split
    · simp_all
    · simp only [hrun, after_append, player.name_text, Option.bind_some, List.nil_append]

theorem property_line (of : Holding) (field : Name) (newValue oldValue : Value) :
    property (Line.property of field newValue oldValue) =
      some (.property of.key field.string newValue.string oldValue.string) := by
  have hof : of.render ++ (" property:".toList ++ (field.text ++ (" newValue:".toList ++
      (newValue.text ++ (" oldValue:".toList ++ oldValue.text))))) =
      of.unit.text ++ (" owned by ".toList ++ (of.owner.text ++ (" property:".toList ++
        (field.text ++ (" newValue:".toList ++ (newValue.text ++ (" oldValue:".toList ++
          oldValue.text))))))) := by
    simp only [Holding.render, List.append_assoc]
  rw [Line.property_def, hof]
  simp only [property, after_append, of.unit.name_append (l := " owned by ") (by decide),
    of.owner.name_append (l := " property:") (by decide),
    field.name_append (l := " newValue:") (by decide),
    value_append newValue (l := " oldValue:") (by decide), value_text, Option.bind_eq_bind,
    Option.bind_some, Option.pure_def, Holding.key]

/-- The name behind `battle in`, if the text begins with that. -/
def place (t : Text) : Option (String × Text) := (after "battle in " t).bind name

/-- The search for the place of a battle passes over characters other than the first of `battle`. -/
theorem firstOnLine_place_pass {l : Text} (hl : ∀ c ∈ l, c ≠ 'b' ∧ c ≠ '\n') (t : Text) :
    firstOnLine place (l ++ t) = firstOnLine place t := by
  refine firstOnLine_append (fun h => (hl _ h).2 rfl) fun s hs hne => ?_
  obtain ⟨c, u, rfl⟩ := List.exists_cons_of_ne_nil hne
  have hafter : after "battle in " (c :: u ++ t) = none := by
    rw [Option.eq_none_iff_forall_ne_some]
    intro rest hrest
    rw [after_eq_some_iff] at hrest
    exact (hl c (hs.subset List.mem_cons_self)).1 (by simp_all)
  rw [place, hafter, Option.bind_none]

/-- A name is not taken for the word `battle` where no ` in ` follows it. -/
theorem firstOnLine_place_skip (w : Name) {t : Text} (ht : ∀ c ∈ t.head?, isWord c = false)
    (hin : after " in " t = none) : firstOnLine place (w.text ++ t) = firstOnLine place t := by
  refine firstOnLine_append (w.not_mem (by decide)) fun s hs _ => ?_
  have hword : ∀ c ∈ s, isWord c = true := fun c hc => w.chars c (hs.subset hc)
  have hbattle : ∀ c ∈ "battle".toList, isWord c = true := by decide
  have hafter : after "battle in " (s ++ t) = none := by
    rw [Option.eq_none_iff_forall_ne_some]
    intro rest hrest
    rw [after_eq_some_iff] at hrest
    -- what is left of both sides without the first word
    have hsplit : "battle in ".toList ++ rest = "battle".toList ++ ' ' :: ("in ".toList ++ rest) :=
      rfl
    have htail := congrArg (List.dropWhile isWord) hrest
    rw [hsplit, dropWhile_append_of_head ht, dropWhile_append_of_head (by simp; decide),
      List.dropWhile_eq_nil_iff.mpr hword, List.dropWhile_eq_nil_iff.mpr hbattle] at htail
    have hin' : after " in " t = some rest := after_eq_some_iff.mpr htail
    simp [hin] at hin'
  rw [place, hafter, Option.bind_none]

theorem firstOnLine_sides (s : Skirmish) {rest : Text}
    (hrest : ∀ c ∈ rest.head?, isWord c = false) :
    firstOnLine place (s.sides ++ rest) = some (s.territory.string, rest) := by
  have hline : s.sides ++ rest = s.attacker.text ++ (" attack ".toList ++ (s.defender.text ++
      ([' '] ++ ("battle in ".toList ++ (s.territory.text ++ rest))))) := by
    simp [Skirmish.sides]
  have hblank : isWord ' ' = false := by decide
  have hplace : place ("battle in ".toList ++ (s.territory.text ++ rest)) =
      some (s.territory.string, rest) := by
    rw [place, after_append, Option.bind_some, name, word, s.territory.run_append hrest]
    rfl
  rw [hline, firstOnLine_place_skip _ (by simpa using hblank) (by simp [after, rest?]),
    firstOnLine_place_pass (by decide),
    firstOnLine_place_skip _ (by simpa using hblank) (by simp [after, rest?]),
    firstOnLine_place_pass (by decide)]
  exact firstOnLine_of_eq_some hplace

theorem battle_render (s : Skirmish) {rest : Text} (hrest : ∀ c ∈ rest.head?, isWord c = false) :
    battle (s.render ++ rest) = some (s.battle, rest) := by
  have hid : run isHex (s.id.text ++ (":".toList ++ (s.sides ++ rest))) =
      some (s.id.text, ":".toList ++ (s.sides ++ rest)) :=
    run_append_label s.id (by decide) _
  have hline : s.render ++ rest = s.id.text ++ (":".toList ++ (s.sides ++ rest)) := by
    simp only [Skirmish.render, Skirmish.sides, List.append_assoc]
  have hplace := firstOnLine_sides s hrest
  unfold place at hplace
  rw [hline]
  simp only [battle, hid, after_append, hplace, Option.bind_eq_bind, Option.bind_some,
    Option.pure_def, Skirmish.battle, Token.string]

/-- No battle begins in a stretch without a colon that ends in no digit of a number. -/
theorem battle_eq_none {s : Text} (hne : s ≠ []) (hcolon : ':' ∉ s)
    (hlast : ∀ c ∈ s.getLast?, isHex c = false) (t : Text) : battle (s ++ t) = none := by
  rw [Option.eq_none_iff_forall_ne_some]
  intro b hb
  simp only [battle, Option.bind_eq_bind, Option.bind_eq_some_iff, Prod.exists] at hb
  obtain ⟨w, u, hrun, v, hv, -⟩ := hb
  obtain ⟨hst, -, hw⟩ := run_eq_some hrun
  rw [after_eq_some_iff.mp hv] at hst
  have hsw : s <+: w := by
    rcases List.append_eq_append_iff.mp hst with ⟨a, rfl, -⟩ | ⟨a, rfl, ha⟩
    · exact List.prefix_append s a
    · cases a with
      | nil => simp
      | cons d a =>
          obtain rfl : ':' = d := (List.cons.inj ha).1
          simp at hcolon
  have hhex := hw _ (hsw.subset (List.getLast_mem hne))
  rw [hlast _ (List.getLast_mem_getLast? hne)] at hhex
  simp at hhex

theorem allMatches_battle_skip {l : Text} (hcolon : ':' ∉ l)
    (hlast : ∀ c ∈ l.getLast?, isHex c = false) (t : Text) :
    allMatches battle (l ++ t) = allMatches battle t := by
  apply allMatches_append_of_forall
  intro s hs hne
  refine battle_eq_none hne (fun h => hcolon (hs.subset h)) ?_ t
  obtain ⟨u, rfl⟩ := hs
  rwa [List.getLast?_append_of_ne_nil _ hne] at hlast

theorem allMatches_skirmishes (skirmishes : List Skirmish) :
    allMatches battle (listed (skirmishes.map Skirmish.render) ++ "]]".toList) =
      skirmishes.map Skirmish.battle := by
  have hrender (s : Skirmish) : s.render ≠ [] := by simp [Skirmish.render, s.id.ne_nil]
  induction skirmishes with
  | nil => decide
  | cons s ss ih =>
      cases ss with
      | nil =>
          have hend : battle (s.render ++ "]]".toList) = some (s.battle, "]]".toList) :=
            battle_render s (by decide)
          simp only [List.map_singleton, listed, List.intercalate_singleton]
          rw [allMatches_append_of_eq_some (hrender s) hend]
          exact congrArg _ ih
      | cons s' ss =>
          have hline : listed ((s :: s' :: ss).map Skirmish.render) ++ "]]".toList = s.render ++
              ([',', ' '] ++ (listed ((s' :: ss).map Skirmish.render) ++ "]]".toList)) := by
            simp [listed_cons_cons]
          have hcomma : isWord ',' = false := by decide
          rw [hline, allMatches_append_of_eq_some (hrender s)
            (battle_render s (by simpa using hcomma)), allMatches_battle_skip (by decide)
            (by decide), ih]
          rfl

theorem allMatches_battles (player : Name) (skirmishes : List Skirmish) :
    allMatches battle (Line.battles player skirmishes) = skirmishes.map Skirmish.battle := by
  have hline : Line.battles player skirmishes = "Adding Battle Records".toList ++ ([':'] ++
      ((" [".toList ++ player.text ++ "=[".toList) ++
        (listed (skirmishes.map Skirmish.render) ++ "]]".toList))) := by
    rw [Line.battles_def]
    simp
  have hcolon (t : Text) : battle (':' :: t) = none := by
    simp [battle, run, isHex]
  have hskip (s t : Text) (hs : s <:+ [':']) (hne : s ≠ []) : battle (s ++ t) = none := by
    rcases List.suffix_cons_iff.mp hs with rfl | hs
    · exact hcolon t
    · exact absurd (List.suffix_nil.mp hs) hne
  have hlast : ∀ c ∈ (" [".toList ++ player.text ++ "=[".toList).getLast?, isHex c = false := by
    rw [List.getLast?_append_of_ne_nil _ (by decide)]
    decide
  rw [hline, allMatches_battle_skip (by decide) (by decide),
    allMatches_append_of_forall (hskip · _), allMatches_battle_skip ?_ hlast,
    allMatches_skirmishes]
  simp [player.not_mem isWord_colon]

end Warboard.Change
