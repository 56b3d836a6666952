import Warboard.Game
import Warboard.Proofs.Board.Effect

namespace Warboard

open Checked

namespace Stack

variable {key : UnitKey}

/-- The stacks with the marks of one changed, if it is there. -/
def marked (key : UnitKey) (f : Marks → Marks) (units : List Stack) : List Stack :=
  (markIn key f units).getD units

theorem marked_cons (f : Marks → Marks) (s : Stack) (units : List Stack) :
    marked key f (s :: units) =
      if s.key = key then { s with marks := f s.marks } :: units else s :: marked key f units := by
  rw [marked, marked, markIn]
  by_cases hs : s.key = key
  · simp [hs]
  · rw [if_neg hs, if_neg hs]
    cases markIn key f units <;> rfl

theorem marked_marked (f g : Marks → Marks) (units : List Stack) :
    marked key g (marked key f units) = marked key (g ∘ f) units := by
  induction units with
  | nil => rfl
  | cons s rest ih =>
      rw [marked_cons, marked_cons]
      by_cases hs : s.key = key
      · simp [hs, marked_cons]
      · simp [hs, marked_cons, ih]

theorem marked_id (units : List Stack) : marked key id units = units := by
  induction units with
  | nil => rfl
  | cons s rest ih => rw [marked_cons, ih]; split <;> rfl

end Stack

namespace Board

variable {b : Board} {i : TerritoryId} {key : UnitKey}

theorem updateTerritory_congr {f g : Territory → Territory}
    (h : ∀ t, b.territories[i]? = some t → f t = g t) :
    b.updateTerritory i f = b.updateTerritory i g := by
  rw [updateTerritory, updateTerritory, Board.mk.injEq]
  refine ⟨List.ext_getElem? fun l => ?_, rfl⟩
  rw [List.getElem?_modify, List.getElem?_modify]
  cases hl : b.territories[l]? with
  | none => rfl
  | some t =>
      by_cases hi : i = l
      · simp [hi, h t (hi ▸ hl)]
      · simp [hi]

theorem updateTerritory_id (b : Board) (i : TerritoryId) : b.updateTerritory i id = b := by
  rw [updateTerritory, List.modify_id]

theorem updateTerritory_comp (b : Board) (i : TerritoryId) (f g : Territory → Territory) :
    (b.updateTerritory i f).updateTerritory i g = b.updateTerritory i (g ∘ f) := by
  rw [updateTerritory, updateTerritory, updateTerritory, List.modify_modify_eq]

/-- A change of stacks that may find nothing to change. -/
theorem updateUnits_getD (b : Board) (i : TerritoryId) (f : List Stack → Option (List Stack)) :
    ((do
      let units ← f (← b.territories[i]?).units
      return b.updateTerritory i fun t => { t with units := units }) : Option Board).getD b =
      b.updateTerritory i fun t => { t with units := (f t.units).getD t.units } := by
  cases ht : b.territories[i]? with
  | none =>
      refine ((updateTerritory_congr fun t h => ?_).trans (updateTerritory_id b i)).symm
      simp [ht] at h
  | some t =>
      cases hunits : f t.units with
      | none =>
          refine Eq.trans ?_ ((updateTerritory_congr fun u hu => ?_).trans
            (updateTerritory_id b i)).symm
          · simp [hunits]
          · obtain rfl := Option.some.inj (ht.symm.trans hu)
            simp [hunits]
      | some units =>
          refine Eq.trans ?_ (updateTerritory_congr (f := fun t => { t with units := units })
            fun u hu => ?_)
          · simp [hunits]
          · obtain rfl := Option.some.inj (ht.symm.trans hu)
            simp [hunits]

theorem mark_getD (b : Board) (i : TerritoryId) (key : UnitKey) (f : Marks → Marks) :
    (b.mark i key f).getD b =
      b.updateTerritory i fun t => { t with units := Stack.marked key f t.units } :=
  updateUnits_getD b i (Stack.markIn key f)

theorem foldlM_setProperty (i : TerritoryId) (key : UnitKey) (properties : List (String × String))
    (b : Board) :
    (properties.map fun p => Operation.setProperty i key p.1 p.2).foldlM perform b =
      .ok ((b.mark i key fun m => properties.foldl (fun m p => m.set p.1 p.2) m).getD b) := by
  induction properties generalizing b with
  | nil =>
      have hid : (b.mark i key id).getD b = b := by
        simp only [mark_getD, Stack.marked_id]
        exact updateTerritory_id b i
      exact congrArg Except.ok hid.symm
  | cons p properties ih =>
      have hstep : b.perform (.setProperty i key p.1 p.2) =
          .ok ((b.mark i key fun m => m.set p.1 p.2).getD b) := rfl
      rw [List.map_cons, List.foldlM_cons, hstep]
      refine (ih _).trans (congrArg Except.ok ?_)
      rw [mark_getD, mark_getD, mark_getD, updateTerritory_comp]
      congr 1
      funext t
      simp only [Function.comp, Stack.marked_marked]
      rfl

/-- Operations for units in a territory or, if the target is none, in the pool of a player with a
record. -/
def toward (b : Board) (target : String) (units : List UnitKey)
    (there : TerritoryId → UnitKey → Operation) (pooled : UnitKey → Operation) : List Operation :=
  match b.locate target with
  | some i => units.map (there i)
  | none => if b.owners.contains target then units.map pooled else []

theorem mem_toward {b : Board} {target : String} {units : List UnitKey}
    {there : TerritoryId → UnitKey → Operation} {pooled : UnitKey → Operation} {op : Operation}
    (h : op ∈ b.toward target units there pooled) :
    ∃ key, (∃ i, b.locate target = some i ∧ op = there i key) ∨
      b.locate target = none ∧ op = pooled key := by
  rw [toward] at h
  cases hl : b.locate target with
  | some i =>
      rw [hl] at h
      obtain ⟨key, -, rfl⟩ := List.mem_map.1 h
      exact ⟨key, Or.inl ⟨i, rfl, rfl⟩⟩
  | none =>
      rw [hl] at h
      dsimp only at h
      split at h
      · obtain ⟨key, -, rfl⟩ := List.mem_map.1 h
        exact ⟨key, Or.inr ⟨rfl, rfl⟩⟩
      · cases h

end Board

namespace Change.Event

open Board

/-- What the event does to the board, setting of properties apart. -/
def operations (b : Board) : Event → List Board.Operation
  | .role _ | .property .. => []
  | .battles records => records.filterMap fun r => (b.locate r.territory).map .startBattle
  | .ownership player territory _ => [.setOwner territory player]
  | .addUnits target units =>
    b.toward target units (fun i key => .addUnits i key 1) fun key => .addUnplaced target key.unit 1
  | .removeUnits target units =>
    b.toward target units (fun i key => .removeUnits i key 1)
      fun key => .removeUnplaced target key.unit 1
  | .resource player quantity => [.adjustBalance player quantity]

end Change.Event

namespace Game

open Change

variable {g g' : Game} {b b' : Board} {event : Event} {i : TerritoryId}

/-- Operations take one board to the other; those that do not set properties are the given ones. -/
def Performs (b b' : Board) (ops : List Board.Operation) : Prop :=
  ∃ all : List Board.Operation,
    all.foldlM Board.perform b = .ok b' ∧ all.filter (fun op => !op.isMark) = ops

theorem Performs.refl (b : Board) : Performs b b [] := ⟨[], rfl, rfl⟩

theorem Performs.of_foldlM {ops : List Board.Operation} (h : ops.foldlM Board.perform b = .ok b')
    (hops : ∀ op ∈ ops, op.isMark = false) : Performs b b' ops := by
  refine ⟨ops, h, List.filter_eq_self.2 fun op hop => ?_⟩
  rw [hops op hop]
  rfl

theorem Performs.single (op : Board.Operation) (h : b.perform op = .ok b')
    (hop : op.isMark = false) : Performs b b' [op] := by
  refine .of_foldlM ?_ (List.forall_mem_singleton.2 hop)
  rw [List.foldlM_cons, h]
  rfl

theorem Performs.of_marks {ops : List Board.Operation} (h : ops.foldlM Board.perform b = .ok b')
    (hops : ∀ op ∈ ops, op.isMark = true) : Performs b b' [] := by
  refine ⟨ops, h, List.filter_eq_nil_iff.2 fun op hop => ?_⟩
  simp [hops op hop]

theorem Performs.append {b'' : Board} {ops ops' : List Board.Operation} (h : Performs b b' ops)
    (h' : Performs b' b'' ops') : Performs b b'' (ops ++ ops') := by
  obtain ⟨all, hall, rfl⟩ := h
  obtain ⟨all', hall', rfl⟩ := h'
  refine ⟨all ++ all', ?_, List.filter_append ..⟩
  rw [List.foldlM_append, hall]
  exact hall'

theorem Performs.sound {names : List String} {ops : List Board.Operation} (h : Performs b b' ops)
    (hb : b.Sound names) : b'.Sound names := by
  obtain ⟨all, hall, -⟩ := h
  exact foldlM_keeps (fun _ _ _ hc hd => hc.perform hd) hb hall

theorem Performs.turnAll {names : List String} {ops : List Board.Operation} {t : Territory}
    (h : Performs b b' ops) (hb : b.Sound names) (ht : b.territories[i]? = some t) :
    ∃ t', b'.territories[i]? = some t' ∧ Board.Operation.TurnAll ops (b.leadsTo i) i t t' := by
  obtain ⟨all, hall, rfl⟩ := h
  obtain ⟨t', ht', hturn⟩ := Board.turnAll_of_foldlM hb hall ht
  exact ⟨t', ht', hturn.filter⟩

theorem Performs.balanceOf {ops : List Board.Operation} (h : Performs b b' ops) (player : String) :
    (b'.balanceOf player).toInt =
      ops.foldl (Board.Operation.balanceAfter player) (b.balanceOf player).toInt := by
  obtain ⟨all, hall, rfl⟩ := h
  rw [Board.balanceOf_foldlM hall, List.foldl_filter]
  congr 1
  funext balance op
  cases op <;> rfl

theorem performs_setAll (b : Board) (i : TerritoryId) (key : UnitKey) (properties : Table String) :
    Performs b ((b.mark i key fun m => m.setAll properties).getD b) [] := by
  have hall := Board.foldlM_setProperty i key properties.toList b
  simp only [← Std.ExtTreeMap.foldl_eq_foldl_toList] at hall
  exact .of_marks hall (List.forall_mem_map.2 fun _ _ => rfl)

theorem addUnit_performs {key : UnitKey} (h : g.addUnit i key = .ok g') :
    Performs g.world.board g'.world.board [.addUnits i key 1] := by
  obtain ⟨b, hb, h⟩ := bind_eq_ok_iff.mp h
  have hadd : Performs g.world.board b [.addUnits i key 1] := .single (.addUnits i key 1) hb rfl
  split at h
  · rename_i properties _
    cases h
    exact hadd.append (performs_setAll b i key properties)
  · cases h
    exact hadd

theorem addUnits_performs {target : String} {units : List UnitKey}
    (h : g.addUnits target units = .ok g') : Performs g.world.board g'.world.board
      ((Event.addUnits target units).operations g.world.board) := by
  rw [addUnits] at h
  rw [Event.operations, Board.toward]
  cases hl : g.world.board.locate target with
  | some i =>
      simp only [hl] at h
      dsimp only
      clear hl
      induction units generalizing g with
      | nil => cases h; exact .refl _
      | cons key units ih =>
          rw [List.foldlM_cons, bind_eq_ok_iff] at h
          obtain ⟨g₁, hg₁, h⟩ := h
          exact (addUnit_performs hg₁).append (ih h)
  | none =>
      simp only [hl] at h
      dsimp only
      split at h
      · rename_i howner
        rw [if_pos howner]
        obtain ⟨b, hb, h⟩ := bind_eq_ok_iff.mp h
        cases h
        refine .of_foldlM ?_ (List.forall_mem_map.2 fun _ _ => rfl)
        rw [List.foldlM_map]
        exact hb
      · rename_i howner
        rw [if_neg howner]
        cases h
        exact .refl _

theorem removeUnits_performs (g : Game) (target : String) (units : List UnitKey) :
    Performs g.world.board (g.removeUnits target units).world.board
      ((Event.removeUnits target units).operations g.world.board) := by
  rw [removeUnits, Event.operations, Board.toward]
  cases g.world.board.locate target with
  | some i =>
      refine .of_foldlM ?_ (List.forall_mem_map.2 fun _ _ => rfl)
      rw [List.foldlM_map]
      exact List.foldlM_pure
  | none =>
      dsimp only
      split
      · refine .of_foldlM ?_ (List.forall_mem_map.2 fun _ _ => rfl)
        rw [List.foldlM_map]
        exact List.foldlM_pure
      · exact .refl _

theorem markBattles_performs (g : Game) (records : List Battle) :
    Performs g.world.board (g.markBattles records).world.board
      ((Event.battles records).operations g.world.board) := by
  rw [markBattles, Event.operations]
  change Performs _ (records.foldl _ g.world.board) _
  generalize g.world.board = b
  induction records generalizing b with
  | nil => exact .refl _
  | cons r records ih =>
      rw [List.foldl_cons, List.filterMap_cons]
      cases b.locate r.territory with
      | none => exact ih b
      | some i =>
          -- A battle renames nothing: the later records find what they would have found before it.
          have hlocate (name : String) : (b.startBattle i).locate name = b.locate name := by
            refine Board.locate_updateTerritory ?_ name
            exact fun _ => rfl
          have hstart := Performs.single (b := b) (.startBattle i) rfl rfl
          have hrest := ih (b.startBattle i)
          simp only [hlocate] at hrest
          exact hstart.append hrest

theorem setProperty_performs (g : Game) (key : UnitKey) (property value : String) :
    Performs g.world.board (g.setProperty key property value).world.board [] := by
  rw [setProperty]
  split
  · rename_i b h
    obtain ⟨i, -, hb⟩ := Option.bind_eq_some_iff.1 h
    have hmark : [Board.Operation.setProperty i key property value].foldlM Board.perform
        g.world.board = .ok b := by
      rw [List.foldlM_cons, Board.perform, hb]
      rfl
    exact .of_marks hmark (List.forall_mem_singleton.2 rfl)
  · exact .refl _

/-- An event changes the board by its operations, and by marks besides. -/
theorem applyEvent_performs (h : g.applyEvent event = .ok g') :
    Performs g.world.board g'.world.board (event.operations g.world.board) := by
  cases event with
  | role player => cases h; exact .refl _
  | battles records => cases h; exact markBattles_performs g records
  | ownership player territory previous =>
      cases h
      refine .single (.setOwner territory player) ?_ rfl
      rw [Board.perform]
      cases g.world.board.setOwner territory player <;> rfl
  | addUnits target units => exact addUnits_performs h
  | removeUnits target units => cases h; exact removeUnits_performs g target units
  | resource player quantity =>
      obtain ⟨b, hb, h⟩ := bind_eq_ok_iff.mp h
      cases h
      exact .single (.adjustBalance player quantity) hb rfl
  | property key property value old => cases h; exact setProperty_performs g key property value

theorem applyEvent_sound {names : List String} (hg : g.world.board.Sound names)
    (h : g.applyEvent event = .ok g') : g'.world.board.Sound names :=
  (applyEvent_performs h).sound hg

theorem applyEvents_sound {names : List String} {es : List Event} (hg : g.world.board.Sound names)
    (h : es.foldlM applyEvent g = .ok g') : g'.world.board.Sound names :=
  foldlM_keeps (fun _ _ _ hg hg' => applyEvent_sound hg hg') hg h

end Game

end Warboard
