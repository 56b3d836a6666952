import Warboard.Proofs.Board.Invariant
import Warboard.Proofs.Change.Expansion
import Warboard.Proofs.Game.Confinement
import Warboard.Proofs.Game.Operation

namespace Warboard

open Checked Change

/-- One unit comes to a stack or goes from it. -/
inductive Tick
  | comes
  | goes

/-- There are never fewer than no units. -/
def Tick.count (n : Nat) : Tick → Nat
  | .comes => n + 1
  | .goes => n - 1

namespace Change.Event

/-- A tick for each of the units that is of the key, if the target is the territory. -/
def ticksOf (here : String → Bool) (key : UnitKey) (target : String) (units : List UnitKey)
    (tick : Tick) : List Tick :=
  if here target then (units.filter fun k => k = key).map fun _ => tick else []

/-- What the event says about the units of the key in a territory; `here` says which names lead to
it. -/
def ticks (here : String → Bool) (key : UnitKey) : Event → List Tick
  | .addUnits target units => ticksOf here key target units .comes
  | .removeUnits target units => ticksOf here key target units .goes
  | _ => []

def taker? (here : String → Bool) : Event → Option String
  | .ownership player territory _ => if here territory then some player else none
  | _ => none

def battleAt (here : String → Bool) : Event → Bool
  | .battles records => records.any fun r => here r.territory
  | _ => false

/-- What the player receives, or pays if it is negative. -/
def payment (player : String) : Event → Int
  | .resource p quantity => if p = player then quantity.toInt else 0
  | _ => 0

end Change.Event

/-- The second state of a territory is what the events have made of the first, each stack, the owner
and the battle on its own. In the first state there is no battle. -/
structure Territory.Follows (here : String → Bool) (events : List Event) (t₀ t : Territory) :
    Prop where
  quantity : ∀ key, Stack.quantityIn key t.units =
    (events.flatMap (Event.ticks here key)).foldl Tick.count (Stack.quantityIn key t₀.units)
  owner : t.owner = (events.filterMap (Event.taker? here)).getLast?.getD t₀.owner
  battle : t.battle = true ↔ ∃ event ∈ events, event.battleAt here = true

/-- The second board is what the events have made of the first, one territory and one player at a
time. An event speaks of a territory if it names it; one that shares its name with a later one
cannot be named. -/
structure Board.Follows (events : List Event) (b₀ b : Board) : Prop where
  named : ∀ name i, b₀.locate name = some i → b.locate name = some i ∧
    ∃ t₀ t, b₀.territories[i]? = some t₀ ∧ b.territories[i]? = some t ∧
      t₀.Follows (fun n => n = name) events t
  unnamed : ∀ i t₀, b₀.territories[i]? = some t₀ → (∀ name, b₀.locate name ≠ some i) →
    ∃ t, b.territories[i]? = some t ∧ t₀.Follows (fun _ => false) events t
  balance : ∀ player, (b.balanceOf player).toInt =
    (b₀.balanceOf player).toInt + (events.map (Event.payment player)).sum

namespace Board

variable {b b' : Board} {i : TerritoryId} {event : Event}

theorem leadsTo_of_locate {name : String} (h : b.locate name = some i) :
    b.leadsTo i = fun n => decide (n = name) := by
  funext n
  rw [leadsTo, decide_eq_decide]
  constructor
  · intro hn
    obtain ⟨t, ht, rfl⟩ := locateIn_eq_some h
    obtain ⟨u, hu, rfl⟩ := locateIn_eq_some hn
    rw [Option.some.inj (hu.symm.trans ht)]
  · rintro rfl
    exact h

theorem leadsTo_of_forall_ne (h : ∀ name, b.locate name ≠ some i) :
    b.leadsTo i = fun _ => false := by
  funext n
  exact decide_eq_false (h n)

theorem foldl_eq_self {α β : Type} {f : β → α → β} {l : List α} (h : ∀ a ∈ l, ∀ x, f x a = x)
    (x : β) : l.foldl f x = x :=
  (List.foldl_ext f (fun x _ => x) x fun x a ha => h a ha x).trans (List.foldl_fixed l)

theorem mem_operations_battles {records : List Battle} {op : Operation}
    (h : op ∈ (Event.battles records).operations b) : ∃ i, op = .startBattle i := by
  obtain ⟨r, -, h⟩ := List.mem_filterMap.1 h
  obtain ⟨i, -, rfl⟩ := Option.map_eq_some_iff.1 h
  exact ⟨i, rfl⟩

theorem foldl_toward {there : TerritoryId → UnitKey → Operation} {pooled : UnitKey → Operation}
    {key : UnitKey} {tick : Tick}
    (hthere : ∀ j k n, (there j k).quantityAfter i key n =
      if j = i ∧ k = key then tick.count n else n)
    (hpooled : ∀ k n, (pooled k).quantityAfter i key n = n) (b : Board) (target : String)
    (units : List UnitKey) (n : Nat) :
    (b.toward target units there pooled).foldl (Operation.quantityAfter i key) n =
      (Event.ticksOf (b.leadsTo i) key target units tick).foldl Tick.count n := by
  rw [Event.ticksOf, leadsTo]
  by_cases hl : b.locate target = some i
  · rw [if_pos (by simpa using hl), toward, hl, List.foldl_map, List.foldl_map, List.foldl_filter]
    congr 1
    funext m k
    simp [hthere]
  · rw [if_neg (by simpa using hl)]
    refine foldl_eq_self (fun op hop m => ?_) n
    obtain ⟨k, ⟨j, hj, rfl⟩ | ⟨-, rfl⟩⟩ := mem_toward hop
    · rw [hthere, if_neg]
      rintro ⟨rfl, -⟩
      exact hl hj
    · exact hpooled k m

theorem foldl_quantityAfter (b : Board) (i : TerritoryId) (event : Event) (key : UnitKey)
    (n : Nat) :
    (event.operations b).foldl (Operation.quantityAfter i key) n =
      (event.ticks (b.leadsTo i) key).foldl Tick.count n := by
  cases event with
  | role | property | ownership | resource => rfl
  | battles records =>
      refine foldl_eq_self (fun op hop m => ?_) n
      obtain ⟨j, rfl⟩ := mem_operations_battles hop
      rfl
  | addUnits target units =>
      exact foldl_toward (fun _ _ _ => rfl) (fun _ _ => rfl) b target units n
  | removeUnits target units =>
      exact foldl_toward (fun _ _ _ => rfl) (fun _ _ => rfl) b target units n

theorem foldl_ownerAfter (b : Board) (here : String → Bool) (event : Event) (owner : String) :
    (event.operations b).foldl (Operation.ownerAfter here) owner =
      (event.taker? here).getD owner := by
  cases event with
  | role | property | resource => rfl
  | ownership player territory previous =>
      rw [Event.operations, Event.taker?, List.foldl_cons, List.foldl_nil, Operation.ownerAfter]
      split <;> rfl
  | battles records =>
      refine foldl_eq_self (fun op hop m => ?_) owner
      obtain ⟨j, rfl⟩ := mem_operations_battles hop
      rfl
  | addUnits | removeUnits =>
      refine foldl_eq_self (fun op hop m => ?_) owner
      obtain ⟨k, ⟨j, -, rfl⟩ | ⟨-, rfl⟩⟩ := mem_toward hop <;> rfl

theorem foldl_battleAfter (b : Board) (i : TerritoryId) (event : Event) (battle : Bool) :
    (event.operations b).foldl (Operation.battleAfter i) battle =
      (battle || event.battleAt (b.leadsTo i)) := by
  cases event with
  | role | property | resource | ownership => exact (Bool.or_false battle).symm
  | battles records =>
      rw [Event.operations, Event.battleAt]
      induction records generalizing battle with
      | nil => simp
      | cons r records ih =>
          rw [List.filterMap_cons, List.any_cons, leadsTo]
          cases hl : b.locate r.territory with
          | none => simp [ih]
          | some j => simp [ih, Operation.battleAfter, Bool.or_assoc]
  | addUnits | removeUnits =>
      refine (foldl_eq_self (fun op hop m => ?_) battle).trans (Bool.or_false battle).symm
      obtain ⟨k, ⟨j, -, rfl⟩ | ⟨-, rfl⟩⟩ := mem_toward hop <;> rfl

theorem foldl_balanceAfter (b : Board) (player : String) (event : Event) (balance : Int) :
    (event.operations b).foldl (Operation.balanceAfter player) balance =
      balance + event.payment player := by
  cases event with
  | role | property | ownership => exact (Int.add_zero balance).symm
  | resource p quantity =>
      rw [Event.operations, Event.payment, List.foldl_cons, List.foldl_nil, Operation.balanceAfter]
      split
      · rfl
      · exact (Int.add_zero balance).symm
  | battles records =>
      refine (foldl_eq_self (fun op hop m => ?_) balance).trans (Int.add_zero balance).symm
      obtain ⟨j, rfl⟩ := mem_operations_battles hop
      rfl
  | addUnits | removeUnits =>
      refine (foldl_eq_self (fun op hop m => ?_) balance).trans (Int.add_zero balance).symm
      obtain ⟨k, ⟨j, -, rfl⟩ | ⟨-, rfl⟩⟩ := mem_toward hop <;> rfl

/-- No battle has begun when the game starts. -/
theorem ofRecord_peaceful {r : MapRecord} (h : ofRecord r = .ok b) :
    ∀ t ∈ b.territories, t.battle = false := by
  have hupdate {b : Board} {i : TerritoryId} {f : Territory → Territory}
      (hf : ∀ t, (f t).battle = t.battle) (hb : ∀ t ∈ b.territories, t.battle = false) :
      ∀ t ∈ (b.updateTerritory i f).territories, t.battle = false := by
    intro t ht
    obtain ht | ⟨u, hu, rfl⟩ := mem_updateTerritory ht
    · exact hb t ht
    · exact (hf u).trans (hb u (List.mem_of_getElem? hu))
  refine ofRecord_keeps (P := fun b => ∀ t ∈ b.territories, t.battle = false) ?_ ?_ ?_ ?_ h
  · intro t ht
    obtain ⟨name, -, rfl⟩ := List.mem_map.1 ht
    rfl
  · intro b u _ i b' hb hb'
    obtain ⟨t, units, -, -, rfl⟩ | ⟨-, rfl⟩ := addUnits_eq_ok_iff.1 hb'
    · exact hupdate (fun _ => rfl) hb
    · exact hb
  · intro b origin target b' hb hb'
    obtain ⟨i, j, -, -, rfl⟩ := connect_eq_some_iff.1 hb'
    exact hupdate (fun _ => rfl) (hupdate (fun _ => rfl) hb)
  · exact fun b i hb => hupdate (fun _ => rfl) hb

end Board

namespace Territory.Follows

variable {here : String → Bool} {events : List Event} {event : Event} {b : Board} {i : TerritoryId}
  {t₀ t t' : Territory}

theorem start (h : t.battle = false) : t.Follows here [] t := ⟨fun _ => rfl, rfl, by simp [h]⟩

theorem step (h : t₀.Follows (b.leadsTo i) events t)
    (hturn : Board.Operation.TurnAll (event.operations b) (b.leadsTo i) i t t') :
    t₀.Follows (b.leadsTo i) (events ++ [event]) t' where
  quantity key := by
    rw [hturn.quantity, Board.foldl_quantityAfter, h.quantity, List.flatMap_append,
      List.foldl_append, List.flatMap_singleton]
  owner := by
    rw [hturn.owner, Board.foldl_ownerAfter, h.owner, List.filterMap_append]
    cases htaker : event.taker? (b.leadsTo i) <;> simp [htaker]
  battle := by
    rw [hturn.battle, Board.foldl_battleAfter, Bool.or_eq_true, h.battle]
    simp [or_and_right, exists_or]

end Territory.Follows

namespace Game

variable {g g' : Game} {names : List String} {i : TerritoryId} {event : Event}
  {es : List Event} {t₀ t : Territory}

theorem applyEvent_follows (hg : g.world.board.Sound names)
    (ht : g.world.board.territories[i]? = some t)
    (hf : t₀.Follows (g.world.board.leadsTo i) es t) (h : g.applyEvent event = .ok g') :
    ∃ t', g'.world.board.territories[i]? = some t' ∧
      t₀.Follows (g'.world.board.leadsTo i) (es ++ [event]) t' := by
  obtain ⟨t', ht', hturn⟩ := (applyEvent_performs h).turnAll hg ht
  rw [hg.leadsTo_eq (applyEvent_sound hg h)]
  exact ⟨t', ht', hf.step hturn⟩

theorem applyEvents_follows {later : List Event} (hg : g.world.board.Sound names)
    (ht : g.world.board.territories[i]? = some t)
    (hf : t₀.Follows (g.world.board.leadsTo i) es t) (h : later.foldlM applyEvent g = .ok g') :
    ∃ t', g'.world.board.territories[i]? = some t' ∧
      t₀.Follows (g'.world.board.leadsTo i) (es ++ later) t' := by
  -- The events so far move into the index, and the board they lead to is where the rest begins.
  induction later generalizing g es t with
  | nil =>
      cases h
      exact ⟨t, ht, (List.append_nil es).symm ▸ hf⟩
  | cons event later ih =>
      rw [List.foldlM_cons, bind_eq_ok_iff] at h
      obtain ⟨g₁, hg₁, h⟩ := h
      obtain ⟨u, hu, hstep⟩ := applyEvent_follows hg ht hf hg₁
      rw [List.append_cons]
      exact ih (applyEvent_sound hg hg₁) hu hstep h

theorem applyEvents_balance {later : List Event} (h : later.foldlM applyEvent g = .ok g')
    (player : String) : (g'.world.board.balanceOf player).toInt =
      (g.world.board.balanceOf player).toInt + (later.map (Event.payment player)).sum := by
  induction later generalizing g with
  | nil => cases h; exact (Int.add_zero _).symm
  | cons event later ih =>
      rw [List.foldlM_cons, bind_eq_ok_iff] at h
      obtain ⟨g₁, hg₁, h⟩ := h
      rw [ih h, (applyEvent_performs hg₁).balanceOf, Board.foldl_balanceAfter, List.map_cons,
        List.sum_cons, Int.add_assoc]

/-- Whatever the lines interleave and nest, each stack, owner, battle and balance follows the events
that name it alone. -/
theorem applyAll_follows {r : MapRecord} {w : World} {lines : List Text}
    (hw : World.ofRecord r = .ok w) (h : (ofWorld w).applyAll lines = .ok g) :
    (∀ name ∈ r.territories, ∃ i, w.board.locate name = some i) ∧
      w.board.Follows (lines.flatMap leaves) g.world.board := by
  obtain ⟨hb, -⟩ := World.ofRecord_both (fun _ hb => hb) hw
  have hsound := Board.ofRecord_sound hb
  rw [applyAll, ← foldlM_flatMap_leaves] at h
  have hfollows {i : TerritoryId} {t₀ : Territory} (ht₀ : w.board.territories[i]? = some t₀) :
      ∃ t, g.world.board.territories[i]? = some t ∧
        t₀.Follows (w.board.leadsTo i) (lines.flatMap leaves) t := by
    have hpeace := Board.ofRecord_peaceful hb t₀ (List.mem_of_getElem? ht₀)
    obtain ⟨t, ht, hf⟩ := applyEvents_follows hsound ht₀ (.start hpeace) h
    rw [hsound.leadsTo_eq (applyEvents_sound hsound h), List.nil_append] at hf
    exact ⟨t, ht, hf⟩
  have hbalance := applyEvents_balance h
  refine ⟨fun name hname => Option.isSome_iff_exists.1 (hsound.isSome_locate_iff.2 hname), ?_, ?_,
    hbalance⟩
  · intro name i hi
    obtain ⟨t₀, ht₀, -⟩ := Board.locateIn_eq_some hi
    obtain ⟨t, ht, hf⟩ := hfollows ht₀
    rw [Board.leadsTo_of_locate hi] at hf
    refine ⟨?_, t₀, t, ht₀, ht, hf⟩
    rw [hsound.locate_eq (applyEvents_sound hsound h)]
    exact hi
  · intro i t₀ ht₀ hi
    obtain ⟨t, ht, hf⟩ := hfollows ht₀
    rw [Board.leadsTo_of_forall_ne hi] at hf
    exact ⟨t, ht, hf⟩

/-- A batch in a batch, more losses than there are units, a battle, and payments to a player with a
record and to one without. -/
def campaign : List Text :=
  [(Change.Tree.node [.leaf "Red takes Cape from Neutral".toList,
      .node [.leaf "Add unit change.  Add to: Cape units: [infantry owned by Red]".toList,
        .leaf ("Remove unit change.  Remove from: Sound units: ".toList ++
          "[infantry owned by Red, infantry owned by Red, infantry owned by Red]".toList)],
      .leaf "Change resource.  Resource:PUs quantity:-5 Player:Red".toList]).render,
    "Add unit change.  Add to: Sound units: [infantry owned by Red, armour owned by Blue]".toList,
    "Adding Battle Records: [Blue=[0a:Blue attack Red battle in Cape]]".toList,
    "Change resource.  Resource:PUs quantity:7 Player:Green".toList]

structure Holding where
  owner : String
  units : List (UnitKey × UInt32)
  battle : Bool
  deriving DecidableEq

def holdings (g : Game) : List Holding :=
  g.world.board.territories.map fun t =>
    ⟨t.owner, t.units.map fun s => (s.key, s.quantity), t.battle⟩

def balances (g : Game) (players : List String) : List Int64 :=
  players.map g.world.board.balanceOf

/-- One unit is left in the strait, though three of its two were lost before it came. -/
theorem applyAll_follows_campaign : ∃ w g, World.ofRecord World.twins = .ok w ∧
    (ofWorld w).applyAll campaign = .ok g ∧
    holdings g = [⟨"Red", [], false⟩, ⟨"Red", [(⟨"infantry", "Red"⟩, 1)], true⟩,
      ⟨"Red", [(⟨"infantry", "Red"⟩, 1), (⟨"armour", "Blue"⟩, 1)], false⟩] ∧
    balances g ["Red", "Green", "Blue"] = [-2, 7, 0] ∧
    w.board.Follows (campaign.flatMap leaves) g.world.board := by
  have hrun : ((World.ofRecord World.twins >>= fun w => (ofWorld w).applyAll campaign).map
      fun g => (holdings g, balances g ["Red", "Green", "Blue"])).toOption =
        some ([⟨"Red", [], false⟩, ⟨"Red", [(⟨"infantry", "Red"⟩, 1)], true⟩,
          ⟨"Red", [(⟨"infantry", "Red"⟩, 1), (⟨"armour", "Blue"⟩, 1)], false⟩], [-2, 7, 0]) := by
    decide +kernel
  obtain ⟨g, hrun, hg⟩ := exists_ok_of_map hrun
  obtain ⟨w, hw, hrun⟩ := bind_eq_ok_iff.mp hrun
  obtain ⟨hholdings, hbalances⟩ := Prod.mk.inj hg
  exact ⟨w, g, hw, hrun, hholdings, hbalances, (applyAll_follows hw hrun).2⟩

end Game

end Warboard
