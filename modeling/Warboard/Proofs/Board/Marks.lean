import Mathlib.Data.List.Induction
import Warboard.Board.Basic
import Warboard.Proofs.Table

namespace Warboard

/-- What waits after the settings: of each property the value given last. -/
def collect (settings : List (String × String)) : Table String :=
  settings.foldl (fun t p => t.insert p.1 p.2) ∅

/-- All values that the settings give to the property, in order. -/
def valuesOf (property : String) (settings : List (String × String)) : List String :=
  settings.filterMap fun p => if p.1 = property then some p.2 else none

theorem valuesOf_cons (property : String) (p : String × String)
    (settings : List (String × String)) : valuesOf property (p :: settings) =
      if p.1 = property then p.2 :: valuesOf property settings else valuesOf property settings := by
  rw [valuesOf, List.filterMap_cons]
  split <;> simp_all [valuesOf]

theorem valuesOf_append (property : String) (before after : List (String × String)) :
    valuesOf property (before ++ after) = valuesOf property before ++ valuesOf property after :=
  List.filterMap_append

/-- What only the settings of one property change, and only some of these, is in the end as the last
of them set it. -/
theorem foldl_eq_lastSet {σ γ : Type} {step : σ → String × String → σ} {f : σ → γ}
    {property : String} {g : String → Option γ}
    (h : ∀ s p, f (step s p) = (if p.1 = property then g p.2 else none).getD (f s))
    (settings : List (String × String)) (s : σ) : f (settings.foldl step s) =
      ((valuesOf property settings).filterMap g).getLast?.getD (f s) := by
  -- From the end, since it is the last setting of the property that decides.
  induction settings using List.reverseRecOn with
  | nil => rfl
  | append_singleton settings p ih =>
      rw [List.foldl_concat, h, ih, valuesOf_append, List.filterMap_append, valuesOf_cons]
      split
      · cases hp : g p.2 <;> simp [hp, valuesOf]
      · simp [valuesOf]

theorem getElem?_collect (property : String) (settings : List (String × String)) :
    (collect settings)[property]? = (valuesOf property settings).getLast? := by
  have hinsert (t : Table String) (p : String × String) : (t.insert p.1 p.2)[property]? =
      (if p.1 = property then (some ∘ some) p.2 else none).getD t[property]? := by
    rw [Table.getElem?_insert]
    split <;> rfl
  have hlast := foldl_eq_lastSet (f := fun t : Table String => t[property]?) hinsert settings ∅
  rw [List.filterMap_eq_map, List.getLast?_map] at hlast
  refine hlast.trans ?_
  cases (valuesOf property settings).getLast? <;> simp

theorem valuesOf_toList (property : String) (t : Table String) :
    valuesOf property t.toList = t[property]?.toList := by
  have hnone {t : Table String} (h : t[property]? = none) : valuesOf property t.toList = [] := by
    refine List.filterMap_eq_nil_iff.2 fun p hp => if_neg ?_
    rintro rfl
    rw [Std.ExtTreeMap.mem_toList_iff_getElem?_eq_some.1 hp] at h
    cases h
  cases h : t[property]? with
  | none => exact hnone h
  | some value =>
      have hrest : valuesOf property (t.erase property).toList = [] := by
        refine hnone ?_
        rw [Table.getElem?_erase, if_pos rfl]
      have hperm : (valuesOf property t.toList).Perm
          (valuesOf property ((property, value) :: (t.erase property).toList)) :=
        (Table.toList_perm_erase h).filterMap _
      rw [valuesOf_cons, if_pos rfl, hrest] at hperm
      exact List.perm_singleton.1 hperm

namespace Marks

def setEach (m : Marks) (settings : List (String × String)) : Marks :=
  settings.foldl (fun m p => m.set p.1 p.2) m

theorem setAll_eq (m : Marks) (t : Table String) : m.setAll t = m.setEach t.toList := by
  rw [setAll, Std.ExtTreeMap.foldl_eq_foldl_toList, setEach]

theorem setAll_empty (m : Marks) : m.setAll ∅ = m := by
  rw [setAll_eq, Std.ExtTreeMap.toList_eq_nil_iff.2 rfl]
  rfl

/-- The second marks differ from the first at most in the text that is kept for a movement. -/
structure Agree (m n : Marks) : Prop where
  wasInCombat : n.wasInCombat = m.wasInCombat
  alreadyMoved : n.alreadyMoved = m.alreadyMoved
  other : ∀ name : String, name ≠ "alreadyMoved" → n.other[name]? = m.other[name]?

theorem Agree.eq_iff {m n : Marks} (h : Agree m n) :
    m = n ↔ n.other["alreadyMoved"]? = m.other["alreadyMoved"]? := by
  refine ⟨fun he => he ▸ rfl, fun hkept => ?_⟩
  obtain ⟨combat, moved, other⟩ := m
  obtain ⟨combat', moved', other'⟩ := n
  obtain ⟨rfl, rfl, hother⟩ := h
  have hsame : other = other' := by
    ext1 name
    by_cases hname : name = "alreadyMoved"
    · exact hname ▸ hkept.symm
    · exact (hother name hname).symm
  rw [hsame]

def isNumber (value : String) : Bool := (Text.readReal value.toList).isSome

/-- The last text for a movement that was no number, if a number came after it. -/
def overtaken (settings : List (String × String)) : Option String :=
  let values := valuesOf "alreadyMoved" settings
  if values.getLast?.any isNumber then (values.filter fun v => !isNumber v).getLast? else none

/-- Is a value of the property kept as it was given? -/
def keeps (property value : String) : Bool :=
  property ≠ "wasInCombat" && (property ≠ "alreadyMoved" || !isNumber value)

theorem wasInCombat_set (m : Marks) (property value : String) :
    (m.set property value).wasInCombat = (if property = "wasInCombat" then
      some (decide (value.toList.map Char.toLower = "true".toList)) else none).getD
        m.wasInCombat := by
  rw [set]
  split
  · rfl
  · split
    · split <;> rfl
    · rfl

theorem alreadyMoved_set (m : Marks) (property value : String) :
    (m.set property value).alreadyMoved = (if property = "alreadyMoved" then
      some ((Text.readReal value.toList).getD 0) else none).getD m.alreadyMoved := by
  rw [set]
  split
  · rename_i h
    rw [if_neg (by simp [h])]
    rfl
  · split
    · cases Text.readReal value.toList <;> rfl
    · rfl

theorem other_set (m : Marks) (property value : String) : (m.set property value).other =
    if keeps property value then m.other.insert property value else m.other := by
  rw [set, keeps, isNumber]
  by_cases hcombat : property = "wasInCombat"
  · simp [hcombat]
  · by_cases hmoved : property = "alreadyMoved"
    · cases Text.readReal value.toList <;> simp [hmoved]
    · simp [hcombat, hmoved]

theorem getElem?_other_set (m : Marks) (property value name : String) :
    (m.set property value).other[name]? = (if property = name then
      (if keeps name value then some (some value) else none) else none).getD m.other[name]? := by
  rw [other_set]
  by_cases hname : property = name
  · subst hname
    by_cases hkeeps : keeps property value = true <;> simp [hkeeps]
  · by_cases hkeeps : keeps property value = true <;>
      simp [hkeeps, hname, Table.getElem?_insert]

section

variable {γ : Type} {f : Marks → γ} {property : String} (m : Marks)
  (settings : List (String × String))

theorem part_setAll {g : String → Option γ} (h : ∀ (m : Marks) (p : String × String),
      f (m.set p.1 p.2) = (if p.1 = property then g p.2 else none).getD (f m))
    (t : Table String) : f (m.setAll t) = (t[property]?.bind g).getD (f m) := by
  rw [setAll_eq, setEach, foldl_eq_lastSet h, valuesOf_toList]
  cases t[property]? with
  | none => rfl
  | some value => cases hvalue : g value <;> simp [hvalue]

/-- Where each value replaces the one before, only the last matters. -/
theorem part_setAll_collect {g : String → γ} (h : ∀ (m : Marks) (p : String × String),
      f (m.set p.1 p.2) = (if p.1 = property then (some ∘ g) p.2 else none).getD (f m)) :
    f (m.setAll (collect settings)) = f (m.setEach settings) := by
  rw [part_setAll m h, setEach, foldl_eq_lastSet h, getElem?_collect, List.filterMap_eq_map,
    List.getLast?_map]
  cases (valuesOf property settings).getLast? <;> rfl

theorem getElem?_other_setAll_collect {name : String} (hname : name ≠ "alreadyMoved") :
    (m.setAll (collect settings)).other[name]? = (m.setEach settings).other[name]? := by
  have hset (m : Marks) (p : String × String) := m.getElem?_other_set p.1 p.2 name
  by_cases hcombat : name = "wasInCombat"
  · have hkeeps (value : String) : keeps name value = false := by simp [keeps, hcombat]
    simp only [hkeeps] at hset
    rw [part_setAll m (f := fun m => m.other[name]?) (g := fun _ => none) hset, setEach,
      foldl_eq_lastSet (f := fun m : Marks => m.other[name]?) (g := fun _ => none) hset]
    simp
  · have hkeeps (value : String) : keeps name value = true := by simp [keeps, hcombat, hname]
    simp only [hkeeps] at hset
    exact part_setAll_collect m settings (f := fun m => m.other[name]?) (g := some) hset

theorem setAll_collect_agree : Agree (m.setAll (collect settings)) (m.setEach settings) where
  wasInCombat := (part_setAll_collect m settings
    (g := fun value => decide (value.toList.map Char.toLower = "true".toList))
    fun m p => m.wasInCombat_set p.1 p.2).symm
  alreadyMoved := (part_setAll_collect m settings
    (g := fun value => (Text.readReal value.toList).getD 0)
    fun m p => m.alreadyMoved_set p.1 p.2).symm
  other := fun _ hname => (getElem?_other_setAll_collect m settings hname).symm

/-- Handing out the last values is the same as setting all of them, unless a text for a movement
that is no number is followed by a number. -/
theorem setAll_collect_eq_iff : m.setAll (collect settings) = m.setEach settings ↔
    ∀ text ∈ overtaken settings, m.other["alreadyMoved"]? = some text := by
  have hset (m : Marks) (p : String × String) := m.getElem?_other_set p.1 p.2 "alreadyMoved"
  have hkeeps (value : String) : keeps "alreadyMoved" value = !isNumber value := by simp [keeps]
  simp only [hkeeps] at hset
  have hfilter (values : List String) :
      values.filterMap (fun v => if (!isNumber v) = true then some (some v) else none) =
        (values.filter fun v => !isNumber v).map some := by
    rw [← List.filterMap_eq_filter, List.map_filterMap]
    congr 1
    funext v
    cases hv : isNumber v <;> simp [hv, Option.guard]
  rw [(setAll_collect_agree m settings).eq_iff,
    part_setAll m (f := fun m => m.other["alreadyMoved"]?)
      (g := fun v => if (!isNumber v) = true then some (some v) else none) hset, setEach,
    foldl_eq_lastSet (f := fun m : Marks => m.other["alreadyMoved"]?)
      (g := fun v => if (!isNumber v) = true then some (some v) else none) hset,
    hfilter, List.getLast?_map, getElem?_collect, overtaken]
  -- Both sides differ only if the last value is a number: then nothing waits, but what was kept stays.
  generalize valuesOf "alreadyMoved" settings = values
  obtain rfl | ⟨values, last, rfl⟩ := values.eq_nil_or_concat
  · simp
  · cases hlast : isNumber last with
    | false => simp [hlast]
    | true =>
        have hkept : (values.concat last).filter (fun v => !isNumber v) =
            values.filter fun v => !isNumber v := by simp [hlast]
        have hnumber : (values.concat last).getLast?.any isNumber = true := by simp [hlast]
        have hwaits : (values.concat last).getLast?.bind
            (fun v => if (!isNumber v) = true then some (some v) else none) = none := by
          simp [hlast]
        rw [hkept, hwaits, if_pos hnumber]
        cases (values.filter fun v => !isNumber v).getLast? with
        | none => simp
        | some text => simpa using eq_comm

end

end Marks

end Warboard
