import Warboard.Map.Builder
import Warboard.Proofs.Board.Marks
import Warboard.Proofs.Game.Confinement
import Warboard.Proofs.Game.Operation

namespace Warboard

open Checked

namespace Stack

variable {key : UnitKey} {units units' : List Stack}

theorem find?_cons (s : Stack) (units : List Stack) :
    find? key (s :: units) = if s.key = key then some s else find? key units := by
  by_cases hs : s.key = key <;> simp [find?, hs]

/-- The marks of the units of the key, if there are any. -/
def marksOf (key : UnitKey) (units : List Stack) : Option Marks := (find? key units).map Stack.marks

theorem marksOf_cons (s : Stack) (units : List Stack) :
    marksOf key (s :: units) = if s.key = key then some s.marks else marksOf key units := by
  rw [marksOf, find?_cons]
  split <;> rfl

theorem markIn_eq_none_iff {f : Marks → Marks} :
    markIn key f units = none ↔ marksOf key units = none := by
  induction units with
  | nil => simp [markIn, marksOf, find?]
  | cons s rest ih =>
      rw [markIn, marksOf_cons]
      by_cases hs : s.key = key <;> simp [hs, ih]

theorem marksOf_marked (f : Marks → Marks) (units : List Stack) :
    marksOf key (marked key f units) = (marksOf key units).map f := by
  induction units with
  | nil => rfl
  | cons s rest ih =>
      rw [marked_cons, marksOf_cons]
      by_cases hs : s.key = key
      · rw [if_pos hs, if_pos hs, marksOf_cons, if_pos hs]
        rfl
      · rw [if_neg hs, if_neg hs, marksOf_cons, if_neg hs, ih]

theorem marked_congr {f g : Marks → Marks} (h : ∀ m ∈ marksOf key units, f m = g m) :
    marked key f units = marked key g units := by
  induction units with
  | nil => rfl
  | cons s rest ih =>
      rw [marksOf_cons] at h
      rw [marked_cons, marked_cons]
      by_cases hs : s.key = key
      · rw [if_pos hs] at h ⊢
        rw [if_pos hs, h s.marks rfl]
      · rw [if_neg hs] at h ⊢
        rw [if_neg hs, ih h]

/-- Units that join a stack take its marks, and others are as good as new. -/
theorem marksOf_addTo {n : UInt32} (h : addTo key n units = .ok units') :
    marksOf key units' = some ((marksOf key units).getD .fresh) := by
  induction units generalizing units' with
  | nil =>
      cases h
      rw [marksOf_cons, if_pos rfl]
      rfl
  | cons s rest ih =>
      rw [addTo] at h
      by_cases hs : s.key = key
      · rw [if_pos hs] at h
        obtain ⟨q, -, h⟩ := bind_eq_ok_iff.mp h
        cases h
        rw [marksOf_cons, marksOf_cons, if_pos hs]
        rfl
      · rw [if_neg hs] at h
        obtain ⟨later, hlater, h⟩ := bind_eq_ok_iff.mp h
        cases h
        rw [marksOf_cons, marksOf_cons, if_neg hs, if_neg hs, ih hlater]

end Stack

namespace Board

variable {b b' : Board} {i : TerritoryId} {key : UnitKey}

/-- The marks of the units of the key in the territory, if there are any. -/
def marksAt (b : Board) (i : TerritoryId) (key : UnitKey) : Option Marks :=
  b.territories[i]?.bind fun t => Stack.marksOf key t.units

/-- Changes the marks, if there are units of the key. -/
def remark (b : Board) (i : TerritoryId) (key : UnitKey) (f : Marks → Marks) : Board :=
  (b.mark i key f).getD b

theorem mark_eq_none_iff {f : Marks → Marks} : b.mark i key f = none ↔ b.marksAt i key = none := by
  rw [mark, marksAt]
  cases b.territories[i]? with
  | none => simp
  | some t =>
      rw [Option.bind_some, ← Stack.markIn_eq_none_iff (f := f)]
      cases h : Stack.markIn key f t.units <;> simp [h]

theorem mark_eq_some {f : Marks → Marks} {m : Marks} (h : b.marksAt i key = some m) :
    b.mark i key f = some (b.remark i key f) := by
  rw [remark]
  cases hmark : b.mark i key f with
  | none =>
      rw [mark_eq_none_iff, h] at hmark
      cases hmark
  | some b' => rfl

theorem marksAt_remark (f : Marks → Marks) :
    (b.remark i key f).marksAt i key = (b.marksAt i key).map f := by
  rw [remark, mark_getD, marksAt, marksAt, getElem?_updateTerritory]
  cases b.territories[i]? with
  | none => rfl
  | some t => simp [Stack.marksOf_marked]

theorem owners_remark (b : Board) (i : TerritoryId) (key : UnitKey) (f : Marks → Marks) :
    (b.remark i key f).owners = b.owners := by
  rw [remark, mark_getD]
  rfl

theorem remark_congr {f g : Marks → Marks} (h : ∀ m ∈ b.marksAt i key, f m = g m) :
    b.remark i key f = b.remark i key g := by
  rw [remark, remark, mark_getD, mark_getD]
  refine updateTerritory_congr fun t ht => ?_
  rw [marksAt, ht] at h
  rw [Stack.marked_congr h]

theorem remark_id (b : Board) (i : TerritoryId) (key : UnitKey) : b.remark i key id = b := by
  simp only [remark, mark_getD, Stack.marked_id]
  exact updateTerritory_id b i

theorem remark_remark (f g : Marks → Marks) :
    (b.remark i key f).remark i key g = b.remark i key (g ∘ f) := by
  simp only [remark, mark_getD, updateTerritory_comp]
  congr 1
  funext t
  simp only [Function.comp, Stack.marked_marked]

theorem marksAt_addUnits {n : UInt32} (hi : i < b.territories.length)
    (h : b.addUnits i key n = .ok b') :
    b'.marksAt i key = some ((b.marksAt i key).getD .fresh) := by
  rw [addUnits, List.getElem?_eq_getElem hi] at h
  obtain ⟨units, hunits, h⟩ := bind_eq_ok_iff.mp h
  cases h
  rw [marksAt, marksAt, getElem?_updateTerritory, List.getElem?_eq_getElem hi]
  simpa using Stack.marksOf_addTo hunits

def setProperties (b : Board) (i : TerritoryId) (key : UnitKey)
    (settings : List (String × String)) : Board :=
  settings.foldl (fun b p => (b.setProperty i key p.1 p.2).getD b) b

theorem setProperties_eq (b : Board) (i : TerritoryId) (key : UnitKey)
    (settings : List (String × String)) :
    b.setProperties i key settings = b.remark i key fun m => m.setEach settings := by
  have hall := foldlM_setProperty i key settings b
  rw [List.foldlM_map] at hall
  exact Except.ok.inj (List.foldlM_pure.symm.trans hall)

end Board

namespace Game

open Change

variable {g : Game} {i : TerritoryId} {key : UnitKey} {settings : List (String × String)}

theorem erase_of_none {p : Pending} (h : p[key]? = none) : p.erase key = p := by
  ext1 k
  rw [Std.ExtTreeMap.getElem?_erase]
  split
  · rename_i hk
    rw [Std.LawfulEqCmp.compare_eq_iff_eq] at hk
    exact hk ▸ h.symm
  · rfl

/-- The properties that wait for units of the key. -/
def waitingFor (g : Game) (key : UnitKey) : Table String := g.pending[key]?.getD ∅

/-- No property of the key's units can be set: there are none where their owner was last. -/
def Awaits (g : Game) (key : UnitKey) : Prop :=
  ∀ i ∈ g.world.board.owners[key.owner]? >>= Owner.latest, g.world.board.marksAt i key = none

theorem setProperty_of_awaits (h : g.Awaits key) (property value : String) :
    g.setProperty key property value = g.defer key property value := by
  have hnone : (g.world.board.owners[key.owner]? >>= Owner.latest >>= fun i =>
      g.world.board.setProperty i key property value) = none := by
    cases hlatest : g.world.board.owners[key.owner]? >>= Owner.latest with
    | none => rfl
    | some i => exact Board.mark_eq_none_iff.2 (h i hlatest)
  rw [setProperty, hnone]

def deferAll (g : Game) (key : UnitKey) (settings : List (String × String)) : Game :=
  settings.foldl (fun g p => g.defer key p.1 p.2) g

theorem world_deferAll (g : Game) (key : UnitKey) (settings : List (String × String)) :
    (g.deferAll key settings).world = g.world := by
  induction settings generalizing g with
  | nil => rfl
  | cons p settings ih => exact ih (g.defer key p.1 p.2)

theorem erase_pending_deferAll (g : Game) (key : UnitKey) (settings : List (String × String)) :
    (g.deferAll key settings).pending.erase key = g.pending.erase key := by
  induction settings generalizing g with
  | nil => rfl
  | cons p settings ih => exact (ih (g.defer key p.1 p.2)).trans (erase_alter_self g.pending key _)

theorem waitingFor_defer (g : Game) (key : UnitKey) (property value : String) :
    (g.defer key property value).waitingFor key = (g.waitingFor key).insert property value := by
  rw [waitingFor, defer, Std.ExtTreeMap.getElem?_alter_self]
  rfl

theorem waitingFor_deferAll (g : Game) (key : UnitKey) (settings : List (String × String)) :
    (g.deferAll key settings).waitingFor key =
      settings.foldl (fun t p => t.insert p.1 p.2) (g.waitingFor key) := by
  induction settings generalizing g with
  | nil => rfl
  | cons p settings ih =>
      rw [List.foldl_cons, ← waitingFor_defer]
      exact ih (g.defer key p.1 p.2)

/-- Lines that set properties of units that are nowhere to be found. -/
theorem applyAll_of_awaits {lines : List Text} (h : g.Awaits key)
    (hlines : List.Forall₂ (fun line p =>
      ∃ old, read line = .ok (.single (.property key p.1 p.2 old))) lines settings) :
    g.applyAll lines = .ok (g.deferAll key settings) := by
  induction hlines generalizing g with
  | nil => rfl
  | @cons line p lines settings hline _ ih =>
      obtain ⟨old, hline⟩ := hline
      have hstep : g.apply line = .ok (g.defer key p.1 p.2) := by
        rw [apply_of_read hline, applyEvent, setProperty_of_awaits h]
      rw [applyAll, List.foldlM_cons, hstep]
      exact ih h

/-- Lines that set properties of units which are where their owner was last. -/
theorem applyAll_of_present {lines : List Text} {m : Marks}
    (hlatest : g.world.board.owners[key.owner]? >>= Owner.latest = some i)
    (hm : g.world.board.marksAt i key = some m)
    (hlines : List.Forall₂ (fun line p =>
      ∃ old, read line = .ok (.single (.property key p.1 p.2 old))) lines settings) :
    g.applyAll lines = .ok (g.withBoard (g.world.board.setProperties i key settings)) := by
  induction hlines generalizing g m with
  | nil => rfl
  | @cons line p lines settings hline _ ih =>
      obtain ⟨old, hline⟩ := hline
      have hset : g.world.board.setProperty i key p.1 p.2 =
          some (g.world.board.remark i key fun m => m.set p.1 p.2) := Board.mark_eq_some hm
      have hstep : g.apply line =
          .ok (g.withBoard (g.world.board.remark i key fun m => m.set p.1 p.2)) := by
        rw [apply_of_read hline, applyEvent, setProperty]
        simp only [hlatest, Option.bind_some, Option.bind_eq_bind, hset]
      rw [applyAll, List.foldlM_cons, hstep]
      have howners := Board.owners_remark g.world.board i key fun m => m.set p.1 p.2
      refine ih (m := m.set p.1 p.2) ?_ ?_
      · have hsame := congrArg (fun o : Table Owner => o[key.owner]? >>= Owner.latest) howners
        exact hsame.trans hlatest
      · exact (Board.marksAt_remark _).trans (congrArg _ hm)

/-- What waits for the units, be it nothing, goes to the stack that they join. -/
theorem addUnit_eq (g : Game) (i : TerritoryId) (key : UnitKey) :
    g.addUnit i key = (g.world.board.addUnits i key 1).map fun b =>
      { g.withBoard (b.remark i key fun m => m.setAll (g.waitingFor key)) with
        pending := g.pending.erase key } := by
  rw [addUnit]
  cases g.world.board.addUnits i key 1 with
  | error e => rfl
  | ok b =>
      simp only [Except.map, bind, Except.bind, pure, Except.pure, waitingFor]
      cases hkey : g.pending[key]? with
      | some properties => rfl
      | none =>
          have hnothing : (fun m : Marks => m.setAll ∅) = id := funext Marks.setAll_empty
          simp only [Option.getD_none, hnothing, Board.remark_id, erase_of_none hkey]
          rfl

theorem apply_addUnits {line : Text} {target : String}
    (hline : read line = .ok (.single (.addUnits target [key])))
    (hi : g.world.board.locate target = some i) : g.apply line = g.addUnit i key := by
  rw [apply_of_read hline, applyEvent, addUnits, hi]
  exact bind_pure _

/-- The second game differs from the first at most in the text that is kept for a movement of one
stack. -/
def AgreeAt (i : TerritoryId) (key : UnitKey) (x y : Game) : Prop :=
  ∃ m n, x.world.board.marksAt i key = some m ∧ y.world.board.marksAt i key = some n ∧
    Marks.Agree m n ∧ y = x.withBoard (x.world.board.remark i key fun _ => n)

/-- The text that is kept for a movement of the units, if there are any. -/
def keptMovement (g : Game) (i : TerritoryId) (key : UnitKey) : Option String :=
  g.world.board.marksAt i key >>= fun m => m.other["alreadyMoved"]?

theorem withBoard_remark_inj {m : Marks} {f f' : Marks → Marks}
    (hm : g.world.board.marksAt i key = some m) :
    g.withBoard (g.world.board.remark i key f) = g.withBoard (g.world.board.remark i key f') ↔
      f m = f' m := by
  constructor
  · intro h
    have hmarks := congrArg (fun x : Game => x.world.board.marksAt i key) h
    simpa only [withBoard, Board.marksAt_remark, hm, Option.map_some,
      Option.some.injEq] using hmarks
  · intro h
    refine congrArg g.withBoard (Board.remark_congr fun n hn => ?_)
    obtain rfl := Option.some.inj (hm.symm.trans hn)
    exact h

theorem agreeAt_remark {m : Marks} {f f' : Marks → Marks}
    (hm : g.world.board.marksAt i key = some m) (h : Marks.Agree (f m) (f' m)) :
    AgreeAt i key (g.withBoard (g.world.board.remark i key f))
      (g.withBoard (g.world.board.remark i key f')) := by
  refine ⟨f m, f' m, ?_, ?_, h, ?_⟩
  · exact (Board.marksAt_remark f).trans (congrArg (Option.map f) hm)
  · exact (Board.marksAt_remark f').trans (congrArg (Option.map f') hm)
  · have hlast : (g.world.board.remark i key f).remark i key (fun _ => f' m) =
        g.world.board.remark i key fun _ => f' m := Board.remark_remark f _
    have hsame : g.withBoard (g.world.board.remark i key f') =
        g.withBoard (g.world.board.remark i key fun _ => f' m) := (withBoard_remark_inj hm).2 rfl
    rw [hsame, ← hlast]
    rfl

/-- Properties that waited for a unit until it came are, all but one, those that it has if it comes
first and the properties are set in the order of the lines. A text for a movement that is no number
does not wait once a number has come; set at once, it stays. -/
theorem applyAll_deferred {lines : List Text} {adding : Text} {target : String}
    (hlines : List.Forall₂ (fun line p =>
      ∃ old, read line = .ok (.single (.property key p.1 p.2 old))) lines settings)
    (hadding : read adding = .ok (.single (.addUnits target [key])))
    (htarget : g.world.board.locate target = some i) (hawaits : g.Awaits key)
    (hnone : g.pending[key]? = none) :
    Alike (fun x y => AgreeAt i key x y ∧
        (x = y ↔ ∀ text ∈ Marks.overtaken settings, g.keptMovement i key = some text))
      (g.applyAll (lines ++ [adding]))
      ((g.apply adding).map fun x =>
        x.withBoard (x.world.board.setProperties i key settings)) := by
  have hworld : (g.deferAll key settings).world = g.world := world_deferAll g key settings
  have hwaiting : (g.deferAll key settings).waitingFor key = collect settings := by
    rw [waitingFor_deferAll, waitingFor, hnone]
    rfl
  have hempty : (fun m : Marks => m.setAll (g.waitingFor key)) = id := by
    funext m
    rw [waitingFor, hnone]
    exact m.setAll_empty
  have hwait : g.applyAll (lines ++ [adding]) = (g.deferAll key settings).addUnit i key := by
    rw [applyAll, List.foldlM_append, ← applyAll, applyAll_of_awaits hawaits hlines]
    change (g.deferAll key settings).apply adding >>= pure = _
    rw [bind_pure, apply_addUnits hadding (hworld ▸ htarget)]
  rw [hwait, apply_addUnits hadding htarget, addUnit_eq, addUnit_eq, hworld, hwaiting, hempty,
    erase_pending_deferAll]
  simp only [withBoard, hworld]
  cases hadd : g.world.board.addUnits i key 1 with
  | error e => exact .error e
  | ok b =>
      -- Either way the unit joins the stack first; from there on only its marks can differ.
      let joined : Game := { g.withBoard b with pending := g.pending.erase key }
      have hmarks : joined.world.board.marksAt i key =
          some ((g.world.board.marksAt i key).getD .fresh) :=
        Board.marksAt_addUnits (Board.lt_length_of_locate htarget) hadd
      refine .ok ?_
      simp only [Board.remark_id, Board.setProperties_eq]
      refine ⟨agreeAt_remark hmarks (Marks.setAll_collect_agree _ settings), ?_⟩
      refine (withBoard_remark_inj hmarks).trans ?_
      rw [Marks.setAll_collect_eq_iff, keptMovement]
      cases g.world.board.marksAt i key <;> simp [Marks.fresh]

/-- If the owner was there last, the lines that set the properties may themselves come later. -/
theorem applyAll_adding_first {lines : List Text} {adding : Text} {target : String}
    (hlines : List.Forall₂ (fun line p =>
      ∃ old, read line = .ok (.single (.property key p.1 p.2 old))) lines settings)
    (hadding : read adding = .ok (.single (.addUnits target [key])))
    (htarget : g.world.board.locate target = some i)
    (hlatest : g.world.board.owners[key.owner]? >>= Owner.latest = some i) :
    g.applyAll (adding :: lines) = (g.apply adding).map fun x =>
      x.withBoard (x.world.board.setProperties i key settings) := by
  rw [applyAll, List.foldlM_cons, apply_addUnits hadding htarget, addUnit_eq]
  cases hadd : g.world.board.addUnits i key 1 with
  | error e => rfl
  | ok b =>
      have hmarks := Board.marksAt_addUnits (Board.lt_length_of_locate htarget) hadd
      have howners := (Board.owners_remark b i key fun m => m.setAll (g.waitingFor key)).trans
        (Board.owners_addUnits hadd)
      have hthere := (Board.marksAt_remark fun m => m.setAll (g.waitingFor key)).trans
        (congrArg _ hmarks)
      refine applyAll_of_present ?_ hthere hlines
      exact (congrArg (fun o : Table Owner => o[key.owner]? >>= Owner.latest) howners).trans hlatest

def outpost : MapRecord :=
  MapRecord.empty
    |>.addTerritory "Ural" neutral
    |>.addPlayer "Red" 1

def armour : UnitKey := ⟨"armour", "Red"⟩

def moving (value : String) : Text :=
  "Property change, unit:armour owned by Red property:alreadyMoved newValue:".toList ++
    value.toList ++ " oldValue:0".toList

def arriving : Text := "Add unit change.  Add to: Ural units: [armour owned by Red]".toList

def securing : Text := "Red takes Ural from Neutral".toList

/-- The last movement is no number, so the armour gets all there is to know. -/
theorem applyAll_deferred_arriving : ∃ w, World.ofRecord outpost = .ok w ∧
    (ofWorld w).Awaits armour ∧
    Alike (fun x y => x = y) ((ofWorld w).applyAll [moving "2", moving "lots", arriving])
      (((ofWorld w).apply arriving).map fun x => x.withBoard (x.world.board.setProperties 0 armour
        [("alreadyMoved", "2"), ("alreadyMoved", "lots")])) := by
  have hlines : List.Forall₂ (fun line (p : String × String) =>
      ∃ old, read line = .ok (.single (.property armour p.1 p.2 old)))
      [moving "2", moving "lots"] [("alreadyMoved", "2"), ("alreadyMoved", "lots")] :=
    .cons ⟨"0", by decide +kernel⟩ (.cons ⟨"0", by decide +kernel⟩ .nil)
  have hadding : read arriving = .ok (.single (.addUnits "Ural" [armour])) := by decide +kernel
  have hwhere : ((World.ofRecord outpost).map fun w => (w.board.locate "Ural",
      w.board.owners["Red"]? >>= Owner.latest)).toOption = some (some 0, none) := by decide +kernel
  have hovertaken : Marks.overtaken [("alreadyMoved", "2"), ("alreadyMoved", "lots")] = none := by
    decide +kernel
  obtain ⟨w, hw, hwhere⟩ := exists_ok_of_map hwhere
  obtain ⟨htarget, hlatest⟩ := Prod.mk.inj hwhere
  have hawaits : (ofWorld w).Awaits armour := by
    intro i hi
    exact absurd hi (by simp [ofWorld, armour, hlatest])
  refine ⟨w, hw, hawaits, ?_⟩
  refine (applyAll_deferred hlines hadding htarget hawaits (by simp [ofWorld])).imp ?_
  rintro x y ⟨-, heq⟩
  rw [heq, hovertaken]
  simp

/-- A text that a number follows is kept if the armour is there before it, and not if it comes
later. -/
theorem not_deferred_overtaken : ∃ w g x y, World.ofRecord outpost = .ok w ∧
    (ofWorld w).apply securing = .ok g ∧ g.Awaits armour ∧ g.pending[armour]? = none ∧
    g.applyAll [moving "lots", moving "2", arriving] = .ok x ∧
    g.applyAll [arriving, moving "lots", moving "2"] = .ok y ∧
    x.keptMovement 0 armour = none ∧ y.keptMovement 0 armour = some "lots" := by
  have hrun : ((World.ofRecord outpost >>= fun w => (ofWorld w).apply securing >>= fun g =>
      g.applyAll [moving "lots", moving "2", arriving] >>= fun x =>
      g.applyAll [arriving, moving "lots", moving "2"] >>= fun y =>
        (.ok (w, g, x, y) : Checked (World × Game × Game × Game))).map fun (_, g, x, y) =>
          (g.world.board.owners["Red"]? >>= Owner.latest, (g.world.board.marksAt 0 armour).isNone,
            g.pending[armour]?.isNone, x.keptMovement 0 armour, y.keptMovement 0 armour)).toOption =
      some (some 0, true, true, none, some "lots") := by decide +kernel
  obtain ⟨⟨w, g, x, y⟩, hrun, hresult⟩ := exists_ok_of_map hrun
  obtain ⟨w, hw, hrun⟩ := bind_eq_ok_iff.mp hrun
  obtain ⟨g, hg, hrun⟩ := bind_eq_ok_iff.mp hrun
  obtain ⟨x, hx, hrun⟩ := bind_eq_ok_iff.mp hrun
  obtain ⟨y, hy, hrun⟩ := bind_eq_ok_iff.mp hrun
  cases hrun
  simp only [Prod.mk.injEq] at hresult
  obtain ⟨hlatest, hawaits, hpending, hkept⟩ := hresult
  refine ⟨w, g, x, y, hw, hg, fun i hi => ?_, Option.isNone_iff_eq_none.1 hpending, hx, hy, hkept⟩
  obtain rfl : 0 = i := Option.some.inj (hlatest.symm.trans hi)
  exact Option.isNone_iff_eq_none.1 hawaits

end Game

end Warboard
