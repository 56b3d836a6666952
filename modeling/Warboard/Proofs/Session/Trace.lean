import Warboard.Map.Builder
import Warboard.Proofs.Session.Run

namespace Warboard.Session

open Checked

variable {σ : Type} {p : Picker σ}

/-- The session with another balance as the one before the last purchase decision. -/
def recalling (s : Session σ) (balance : Int64) : Session σ := { s with balanceBefore := balance }

/-- The sessions differ at most in a balance that no expected purchase goes with. -/
def Indistinct (s t : Session σ) : Prop := t = s ∨ s.purchases = [] ∧ ∃ b, t = s.recalling b

theorem Indistinct.refl (s : Session σ) : Indistinct s s := Or.inl rfl

/-- What anybody can see of a session besides its answers. -/
def visible (s : Session σ) : Game × String × UInt32 × Dictionary × Directory :=
  (s.game, s.round, s.episode, s.dictionary, s.directory)

theorem Indistinct.visible_eq {s t : Session σ} (h : Indistinct s t) : t.visible = s.visible := by
  obtain rfl | ⟨-, b, rfl⟩ := h <;> rfl

theorem readied_recalling (s : Session σ) (b : Int64) (player : String) (phase : Phase) :
    (s.recalling b).readied player phase = (s.readied player phase).recalling b := by
  cases phase <;> rfl

theorem readied_purchases (s : Session σ) (player : String) (phase : Phase) :
    (s.readied player phase).purchases = s.purchases := by
  cases phase <;> rfl

/-- A prompt neither reads nor changes what is remembered of the last purchase decision. -/
theorem prompt_recalling {s : Session σ} (h : s.purchases = []) (b : Int64) (text : Text) :
    Alike (fun x y => x.1 = y.1 ∧ Indistinct x.2 y.2) (s.prompt p text)
      ((s.recalling b).prompt p text) := by
  cases hphase : Phase.ofName? (String.ofList text) with
  | none =>
      rw [prompt_of_none (Or.inl hphase), prompt_of_none (Or.inl hphase)]
      exact .ok ⟨rfl, Or.inr ⟨h, b, rfl⟩⟩
  | some phase =>
      cases hplayer : s.world.controlled with
      | none =>
          rw [prompt_of_none (Or.inr hplayer), prompt_of_none (s := s.recalling b) (Or.inr hplayer)]
          exact .ok ⟨rfl, Or.inr ⟨h, b, rfl⟩⟩
      | some player =>
          rw [prompt_of_some hphase hplayer, prompt_of_some (s := s.recalling b) hphase hplayer,
            readied_recalling]
          exact .map_self fun moves =>
            ⟨rfl, Or.inr ⟨(readied_purchases s player phase).trans h, b, rfl⟩⟩

/-- The arithmetic that a report of a purchase calls for, be the purchase expected or not. -/
def pricing (w : World) (player text : Text) : Checked Unit := do
  match ← Purchase.ofText text with
  | some purchase =>
    let _ ← PurchaseMove.ofPurchase w (String.ofList player) purchase
  | none => return

theorem purchaseMade_of_no_purchases {s : Session σ} (h : s.purchases = []) (player text : Text) :
    s.purchaseMade player text = (pricing s.world player text).map fun _ => s := by
  rw [purchaseMade, decision, pricing]
  cases Purchase.ofText text with
  | error e => rfl
  | ok choice =>
      cases choice with
      | none => rfl
      | some purchase =>
          simp only [recordOf, h, List.any_nil, bind, Except.bind, pure, Except.pure, Except.map]
          cases PurchaseMove.ofPurchase s.world (String.ofList player) purchase <;> rfl

/-- Without expected purchases no report of one is kept. -/
theorem purchaseMade_recalling {s : Session σ} (h : s.purchases = []) (b : Int64)
    (player text : Text) : Alike Indistinct (s.purchaseMade player text)
      ((s.recalling b).purchaseMade player text) := by
  rw [purchaseMade_of_no_purchases h, purchaseMade_of_no_purchases (s := s.recalling b) h]
  exact .map_self fun _ => Or.inr ⟨h, b, rfl⟩

theorem endEpisode_recalling (s : Session σ) (b : Int64) (winner : Text) :
    Alike Indistinct (s.endEpisode winner) ((s.recalling b).endEpisode winner) :=
  .bind_self fun _ => .ok (Or.inr ⟨rfl, b, rfl⟩)

theorem answer_indistinct {s t : Session σ} (h : Indistinct s t) (message : Inbound) :
    Alike (fun x y => x.1 = y.1 ∧ Indistinct x.2 y.2) (s.answer p message)
      (t.answer p message) := by
  obtain rfl | ⟨h, b, rfl⟩ := h
  · exact .refl (fun x => ⟨rfl, .refl x.2⟩) _
  have lift {x y : Checked (Session σ)} (hxy : Alike Indistinct x y) :
      Alike (fun x y => x.1 = y.1 ∧ Indistinct x.2 y.2)
        (do return (Response.acknowledged, ← x)) (do return (Response.acknowledged, ← y)) :=
    hxy.bind fun u v huv => .ok ⟨rfl, huv⟩
  cases message with
  | prompt phase => exact prompt_recalling h b phase
  | round token => exact .ok ⟨rfl, Or.inr ⟨h, b, rfl⟩⟩
  | gameStopped winner => exact lift (endEpisode_recalling s b winner)
  | info | note => exact .ok ⟨rfl, Or.inr ⟨h, b, rfl⟩⟩
  | purchaseAhead player => exact lift (.refl .refl (s.expectPurchase (String.ofList player)))
  | purchaseMade player text => exact lift (purchaseMade_recalling h b player text)
  | change line => exact .bind_self fun _ => .ok ⟨rfl, Or.inr ⟨h, b, rfl⟩⟩

theorem handle_indistinct {s t : Session σ} (h : Indistinct s t) (line : Text) :
    Alike (fun x y => x.1 = y.1 ∧ Indistinct x.2 y.2) (s.handle p line) (t.handle p line) := by
  rw [handle, handle]
  split
  · exact .ok ⟨rfl, h⟩
  · exact (answer_indistinct h _).bind fun x y hxy => .ok ⟨congrArg some hxy.1, hxy.2⟩

theorem run_indistinct {s t : Session σ} (h : Indistinct s t) (lines : List Text) :
    Alike (fun x y => x.1 = y.1 ∧ Indistinct x.2 y.2) (run p lines s) (run p lines t) := by
  induction lines generalizing s t with
  | nil => exact .ok ⟨rfl, h⟩
  | cons line lines ih =>
      rw [run_cons, run_cons]
      refine (handle_indistinct h line).bind fun x y hxy => ?_
      exact (ih hxy.2).bind fun u v huv => .ok ⟨by rw [hxy.1, huv.1], huv.2⟩

/-- A new session on the map, but as the given episode and for the given player. -/
def fresh (w : World) (episode : UInt32) (controlled : Option String) (d : Dictionary)
    (dir : Directory) (k : σ) : Session σ :=
  { Session.new { w with controlled := controlled } d dir k with episode := episode }

theorem endEpisode_indistinct {r : MapRecord} {w : World} (hw : World.ofRecord r = .ok w)
    {s t : Session σ} {winner : Text} (hs : s.world.SameSetting w)
    (h : s.endEpisode winner = .ok t) :
    Indistinct (fresh w t.episode t.world.controlled t.dictionary t.directory t.picker) t := by
  obtain ⟨episode, -, h⟩ := bind_eq_ok_iff.mp h
  cases h
  refine Or.inr ⟨rfl, s.balanceBefore, ?_⟩
  rw [World.reset_eq hw hs]
  rfl

theorem handle_gameStopped {s t : Session σ} {line winner : Text} {r : Option Response}
    (hline : Inbound.read (Text.trim line) = .gameStopped winner)
    (h : s.handle p line = .ok (r, t)) : s.endEpisode winner = .ok t := by
  rw [handle] at h
  split at h
  · rename_i hl
    rw [hl] at hline
    cases hline
  · rename_i c l hl
    rw [hl] at hline
    rw [hline] at h
    obtain ⟨⟨r', u⟩, hu, h⟩ := bind_eq_ok_iff.mp h
    obtain ⟨v, hv, hu⟩ := bind_eq_ok_iff.mp hu
    cases h
    cases hu
    exact hv

/-- A finished episode leaves no trace: what follows it goes as in a session that is new but for
the number of the episode and the player. -/
theorem run_after_gameStopped {r : MapRecord} {w : World} (hw : World.ofRecord r = .ok w)
    {d : Dictionary} {dir : Directory} {k : σ} {lines : List Text} {last winner : Text}
    (hlast : Inbound.read (Text.trim last) = .gameStopped winner)
    {rs : List (Option Response)} {s : Session σ}
    (h : run p (lines ++ [last]) (.new w d dir k) = .ok (rs, s)) (more : List Text) :
    (run p more s).map (fun x => (x.1, x.2.visible)) =
      (run p more (fresh w s.episode s.world.controlled s.dictionary s.directory s.picker)).map
        (fun x => (x.1, x.2.visible)) := by
  obtain ⟨qs, u, qs', hbefore, hafter⟩ := run_append h
  rw [run_cons, bind_eq_ok_iff] at hafter
  obtain ⟨⟨q, s'⟩, hq, hafter⟩ := hafter
  cases hafter
  have hstop := handle_gameStopped hlast hq
  have hu : u.world.SameSetting w := run_sameSetting hbefore
  have hrun := run_indistinct (p := p) (endEpisode_indistinct hw hu hstop) more
  refine (hrun.map_eq fun x y hxy => ?_).symm
  rw [hxy.1, hxy.2.visible_eq]

def red : MapRecord := MapRecord.empty.addPlayer "Red" 7

def redAhead : Text := "[FOR_DB] purchase Red".toList

def redWins : Text := "[INFO] Game stopped [PlayerId named: Red]".toList

/-- The balance that the first game leaves behind is not the one of a new session. -/
theorem run_after_gameStopped_red :
    ∃ w rs s, World.ofRecord red = .ok w ∧
      Inbound.read (Text.trim redWins) = .gameStopped "Red".toList ∧
      run .random ([redAhead] ++ [redWins]) (.new w .inMemory .empty 0) = .ok (rs, s) ∧
      s.balanceBefore = 7 ∧
      (run .random [redWins, redAhead] s).map (fun x => (x.1, x.2.visible)) =
        (run .random [redWins, redAhead]
          (fresh w s.episode s.world.controlled s.dictionary s.directory s.picker)).map
          (fun x => (x.1, x.2.visible)) := by
  have hlast : Inbound.read (Text.trim redWins) = .gameStopped "Red".toList := by decide +kernel
  have hrun : ((World.ofRecord red >>= fun w => run .random ([redAhead] ++ [redWins])
      (.new w .inMemory .empty 0)).map fun x => x.2.balanceBefore).toOption = some 7 := by
    decide +kernel
  cases hw : World.ofRecord red with
  | error e => rw [hw] at hrun; cases hrun
  | ok w =>
      rw [hw] at hrun
      change ((run .random ([redAhead] ++ [redWins])
        (.new w .inMemory .empty 0)).map _).toOption = _
        at hrun
      cases hs : run .random ([redAhead] ++ [redWins]) (.new w .inMemory .empty 0) with
      | error e => rw [hs] at hrun; cases hrun
      | ok x =>
          rw [hs] at hrun
          exact ⟨w, x.1, x.2, rfl, hlast, hs, Option.some.inj hrun,
            run_after_gameStopped hw hlast hs _⟩

end Warboard.Session
