import Warboard.Map.Builder
import Warboard.Proofs.Game.Operation
import Warboard.Proofs.Moves.Orders
import Warboard.Proofs.Session.Run

namespace Warboard

open Checked

namespace Picker

/-- The picker takes one of the moves that it is given, or none. -/
def Chooses {σ : Type} (p : Picker σ) : Prop :=
  ∀ k w moves m, (p.pick k w moves).1 = some m → m ∈ moves

theorem random_chooses : random.Chooses := by
  intro seed w moves m h
  cases moves with
  | nil => cases h
  | cons m' rest => exact List.mem_of_getElem? h

end Picker

namespace Session

variable {σ : Type} {p q : Picker σ} {s t : Session σ} {names : List String}

theorem board_readied (s : Session σ) (player : String) (phase : Phase) :
    (s.readied player phase).world.board =
      if phase = .purchase then s.world.board.clearUnplaced player else s.world.board := by
  rw [readied]
  split <;> rfl

theorem readied_sound (hs : s.world.board.Sound names) (player : String) (phase : Phase) :
    (s.readied player phase).world.board.Sound names := by
  rw [board_readied]
  split
  · exact hs.clearUnplaced player
  · exact hs

theorem answer_sound {message : Inbound} {r : Response}
    (hs : s.world.Both (Board.Sound names)) (h : s.answer p message = .ok (r, t)) :
    t.world.board.Sound names := by
  cases message with
  | prompt phase =>
      rcases prompt_eq_ok h with rfl | ⟨player, phase, k, rfl⟩
      · exact hs.1
      · exact readied_sound hs.1 player phase
  | round token => cases h; exact hs.1
  | gameStopped winner =>
      -- The next game begins on the board the map gives, so that one has to be sound as well.
      obtain ⟨u, hu, h⟩ := bind_eq_ok_iff.mp h
      obtain ⟨episode, -, hu⟩ := bind_eq_ok_iff.mp hu
      cases h
      cases hu
      exact hs.2
  | info | note => cases h; exact hs.1
  | purchaseAhead player =>
      obtain ⟨u, hu, h⟩ := bind_eq_ok_iff.mp h
      cases h
      rw [world, expectPurchase_game hu]
      exact hs.1
  | purchaseMade player text =>
      obtain ⟨u, hu, h⟩ := bind_eq_ok_iff.mp h
      cases h
      rw [world, purchaseMade_game hu]
      exact hs.1
  | change line =>
      obtain ⟨g, hg, h⟩ := bind_eq_ok_iff.mp h
      cases h
      exact Game.applyEvents_sound hs.1 hg

theorem handle_sound {line : Text} {r : Option Response}
    (hs : s.world.Both (Board.Sound names)) (h : s.handle p line = .ok (r, t)) :
    t.world.Both (Board.Sound names) := by
  refine ⟨?_, (handle_sameSetting h).2 ▸ hs.2⟩
  rcases handle_eq_ok h with ⟨-, rfl⟩ | ⟨response, h⟩
  · exact hs.1
  · exact answer_sound hs h

theorem run_sound {r : MapRecord} {w : World} {d : Dictionary} {dir : Directory} {k : σ}
    {lines : List Text} {rs : List (Option Response)} (hw : World.ofRecord r = .ok w)
    (h : run p lines (.new w d dir k) = .ok (rs, t)) : t.world.board.Sound r.territories := by
  have hstart : (Session.new w d dir k).world.Both (Board.Sound r.territories) :=
    World.ofRecord_both (fun _ => Board.ofRecord_sound) hw
  exact (run_keeps (P := fun u => u.world.Both (Board.Sound r.territories))
    (fun hs hu => handle_sound hs hu) hstart h).1

/-- Clearing the pool changes nothing that a purchase depends on. -/
theorem buys_of_readied {player : String} {orders : List Action}
    (h : (s.readied player .purchase).world.Buys player orders) : s.world.Buys player orders := by
  have hbalance := Board.balanceOf_clearUnplaced (b := s.world.board) player player
  exact ⟨h.target, h.priced, hbalance ▸ h.affordable⟩

theorem permits_of_readied {player : String} {phase : Phase} {orders : List Action}
    (h : (s.readied player phase).world.Permits player phase orders) :
    s.world.Permits player phase orders := by
  cases phase with
  | purchase =>
      rcases h with h | h
      · exact Or.inl h
      · exact Or.inr (buys_of_readied h)
  | combat | noncombat | place => exact h

theorem choose_permitted {player : String} {phase : Phase} {moves : List LegalMove}
    (hs : s.world.board.Sound names) (hq : q.Chooses)
    (hmoves : LegalMove.all s.world player phase = .ok moves) :
    ∃ orders, (choose q s moves).1 = .actions orders ∧ s.world.Permits player phase orders := by
  cases hpick : (q.pick s.picker s.world moves).1 with
  | none => exact ⟨[], by simp [choose, hpick, Response.pass], .pass s.world player phase⟩
  | some move =>
      refine ⟨move.actions, by simp [choose, hpick], ?_⟩
      exact World.permits_of_mem hs hmoves (hq _ _ _ _ hpick)

theorem prompt_permitted {text : Text} {player : String} {response : Response}
    (hs : s.world.board.Sound names) (hplayer : s.world.controlled = some player)
    (hq : q.Chooses) (h : s.prompt q text = .ok (response, t)) :
    ∃ orders, response = .actions orders ∧ match Phase.ofName? (String.ofList text) with
      | some phase => s.world.Permits player phase orders
      | none => orders = [] := by
  cases hphase : Phase.ofName? (String.ofList text) with
  | none =>
      rw [prompt_of_none (Or.inl hphase)] at h
      cases h
      exact ⟨[], rfl, rfl⟩
  | some phase =>
      rw [prompt_of_some hphase hplayer] at h
      cases hmoves : LegalMove.all (s.readied player phase).world player phase with
      | error e =>
          rw [hmoves] at h
          cases h
      | ok moves =>
          rw [hmoves, Except.map, Except.ok.injEq] at h
          obtain ⟨orders, horders, hpermitted⟩ :=
            choose_permitted (readied_sound hs player phase) hq hmoves
          refine ⟨orders, ?_, permits_of_readied hpermitted⟩
          rw [← horders, h]

/-- Every prompt for a move is answered with orders that the player may give on the board as it is,
however the board has come about and whatever the picker prefers. -/
theorem handle_prompt_permitted {r : MapRecord} {w : World} {d : Dictionary} {dir : Directory}
    {k : σ} {lines : List Text} {rs : List (Option Response)} {player : String}
    {line rest : Text} {response : Option Response} (hw : World.ofRecord r = .ok w)
    (hrun : run p lines (.new w d dir k) = .ok (rs, s))
    (hplayer : s.world.controlled = some player) (hq : q.Chooses)
    (hline : Text.after "[MY_MOVE]" (Text.trim line) = some rest)
    (h : s.handle q line = .ok (response, t)) :
    ∃ orders, response = some (.actions orders) ∧
      match Phase.ofName? (String.ofList (Text.firstWord rest)) with
      | some phase => s.world.Permits player phase orders
      | none => orders = [] := by
  have hread : Inbound.read (Text.trim line) = .prompt (Text.firstWord rest) := by
    rw [Inbound.read, hline]
  rw [handle] at h
  split at h
  · rename_i hblank
    rw [hblank] at hline
    cases hline
  · rename_i c l htrim
    rw [← htrim, hread] at h
    obtain ⟨⟨response, u⟩, hu, h⟩ := bind_eq_ok_iff.mp h
    cases h
    obtain ⟨orders, rfl, horders⟩ := prompt_permitted (run_sound hw hrun) hplayer hq hu
    exact ⟨orders, rfl, horders⟩

def barracks : MapRecord :=
  MapRecord.empty
    |>.addTerritory "Ural" "Red"
    |>.addTerritory "Amur" "Red"
    |>.addPlayer "Red" 4
    |>.placeFactory "Ural" "Red"
    |>.placeFactory "Amur" "Red"

def recruits : List Text :=
  ["Role: Red".toList, "Add unit change.  Add to: Red units: ".toList ++
    "[infantry owned by Red, armour owned by Red, infantry owned by Red]".toList]

def placing : Text := "[MY_MOVE] place".toList

/-- Both infantry go to one territory, and the armour waits. -/
theorem handle_prompt_permitted_placing : ∃ w rs s response t orders,
    World.ofRecord barracks = .ok w ∧
    run .random recruits (.new w ⟨none, ∅, 0, false⟩ .empty 0) = .ok (rs, s) ∧
    s.world.controlled = some "Red" ∧ Picker.random.Chooses ∧
    Text.after "[MY_MOVE]" (Text.trim placing) = some " place".toList ∧
    s.handle .random placing = .ok (response, t) ∧
    response = some (.actions orders) ∧
    orders = [⟨.place, "", "Amur", "infantry"⟩, ⟨.place, "", "Amur", "infantry"⟩] ∧
    s.world.Permits "Red" .place orders := by
  have hline : Text.after "[MY_MOVE]" (Text.trim placing) = some " place".toList := by
    decide +kernel
  have hphase : Phase.ofName? (String.ofList (Text.firstWord " place".toList)) = some .place := by
    decide +kernel
  have hrun : ((World.ofRecord barracks >>= fun w =>
      run .random recruits (.new w ⟨none, ∅, 0, false⟩ .empty 0) >>= fun x =>
        x.2.handle .random placing >>= fun y => (.ok (x, y) : Checked _)).map
          fun x => (x.1.2.world.controlled, x.2.1)).toOption =
      some (some "Red", some (.actions
        [⟨.place, "", "Amur", "infantry"⟩, ⟨.place, "", "Amur", "infantry"⟩])) := by
    decide +kernel
  obtain ⟨⟨⟨rs, s⟩, response, t⟩, hrun, hresult⟩ := exists_ok_of_map hrun
  obtain ⟨w, hw, hrun⟩ := bind_eq_ok_iff.mp hrun
  obtain ⟨⟨rs, s⟩, hbefore, hrun⟩ := bind_eq_ok_iff.mp hrun
  obtain ⟨⟨response, t⟩, hhandle, hrun⟩ := bind_eq_ok_iff.mp hrun
  cases hrun
  obtain ⟨hplayer, hresponse⟩ := Prod.mk.inj hresult
  obtain ⟨orders, horders, hpermitted⟩ := handle_prompt_permitted hw hbefore hplayer
    Picker.random_chooses hline hhandle
  rw [hphase] at hpermitted
  have hlist := Response.actions.inj (Option.some.inj (horders.symm.trans hresponse))
  exact ⟨w, rs, s, response, t, orders, hw, hbefore, hplayer, Picker.random_chooses, hline, hhandle,
    horders, hlist, hpermitted⟩

end Session

end Warboard
