import Warboard.Proofs.Game.Ground
import Warboard.Proofs.Session.Prompting
import Warboard.Proofs.Session.Resolving

namespace Warboard

open Checked Directory

namespace Board

/-- The player's pool has been emptied, and nothing else has changed. -/
structure Emptied (player : String) (b b' : Board) : Prop where
  territories : b'.territories = b.territories
  record : b'.owners[player]? = b.owners[player]?.map fun o => { o with unplaced := ∅ }
  others : ∀ name : String, name ≠ player → b'.owners[name]? = b.owners[name]?

theorem emptied_clearUnplaced (b : Board) (player : String) :
    b.Emptied player (b.clearUnplaced player) where
  territories := rfl
  record := by rw [clearUnplaced, Std.ExtTreeMap.getElem?_modify, if_pos Std.ReflCmp.compare_self]
  others := fun name hname => by
    rw [clearUnplaced, Std.ExtTreeMap.getElem?_modify, if_neg]
    rw [Std.LawfulEqCmp.compare_eq_iff_eq]
    exact hname.symm

theorem Emptied.unplacedOf_eq {player : String} {b b' : Board} (h : b.Emptied player b') :
    b'.unplacedOf player = ∅ := by
  rw [unplacedOf, h.record]
  cases b.owners[player]? <;> rfl

end Board

namespace Session

variable {σ : Type} {p : Picker σ} {s t : Session σ}

/-- What of the session the message may change, and what remains the same in what it changes. -/
def Touches (s t : Session σ) : Inbound → Prop
  | .prompt word =>
      t = { s.withBoard t.world.board with picker := t.picker } ∧
      match Phase.ofName? (String.ofList word), s.world.controlled with
      | some .purchase, some player => s.world.board.Emptied player t.world.board
      | _, _ => t.world.board = s.world.board
  | .round _ => t = { s with round := t.round, game.world.turn := t.world.turn }
  | .gameStopped winner =>
      t = { s with
        game := .ofWorld s.world.reset
        directory := t.directory
        episode := t.episode
        round := t.round
        purchases := t.purchases } ∧
      ∀ name, datasetName s.episode ≠ name → archiveName s.episode winner ≠ name →
        AgreeOn name s.directory t.directory
  | .info | .note .. => t = s
  | .purchaseAhead _ =>
      t = { s with
        balanceBefore := t.balanceBefore
        purchases := t.purchases
        dictionary := t.dictionary
        directory := t.directory } ∧
      t.dictionary.home = s.dictionary.home ∧
      ∀ name, name ∉ s.dictionary.home → AgreeOn name s.directory t.directory
  | .purchaseMade _ text =>
      t = { s with dictionary := t.dictionary, directory := t.directory } ∧
      t.dictionary.home = s.dictionary.home ∧
      (∀ name, name ∉ s.dictionary.home → datasetName s.episode ≠ name →
        AgreeOn name s.directory t.directory) ∧
      ((∀ purchase, Purchase.ofText text = .ok (some purchase) →
        ∀ m ∈ s.purchases, m.purchase ≠ purchase) → t = s)
  | .change _ =>
      t = { s with game := t.game } ∧
      t.world = { s.world with board := t.world.board, controlled := t.world.controlled } ∧
      s.world.board.SameGround t.world.board

theorem prompt_touches {word : Text} {r : Response} (h : s.prompt p word = .ok (r, t)) :
    Touches s t (.prompt word) := by
  cases hphase : Phase.ofName? (String.ofList word) with
  | none =>
      rw [prompt_of_none (Or.inl hphase)] at h
      cases h
      exact ⟨rfl, by rw [hphase]⟩
  | some phase =>
      cases hplayer : s.world.controlled with
      | none =>
          rw [prompt_of_none (Or.inr hplayer)] at h
          cases h
          refine ⟨rfl, ?_⟩
          rw [hphase, hplayer]
          cases phase <;> rfl
      | some player =>
          obtain ⟨k, rfl⟩ := prompt_leaves hphase hplayer h
          rw [Touches, hphase, hplayer]
          cases phase with
          | purchase => exact ⟨rfl, s.world.board.emptied_clearUnplaced player⟩
          | _ => exact ⟨rfl, rfl⟩

theorem saveDictionary_agreeOn (s : Session σ) {name : String} (hname : name ∉ s.dictionary.home) :
    AgreeOn name s.directory s.saveDictionary.directory := by
  rw [saveDictionary]
  cases h : s.dictionary.save s.directory with
  | none => exact .refl s.directory
  | some x =>
      obtain ⟨d, dir⟩ := x
      rcases Dictionary.save_writes h with hdir | ⟨home, hhome, hwrite⟩
      · subst hdir
        exact .refl _
      · exact .write (fun he => hname (he ▸ hhome)) hwrite

theorem exists_saveDictionary_eq (s : Session σ) :
    ∃ d dir, s.saveDictionary = { s with dictionary := d, directory := dir } := by
  rw [saveDictionary]
  split
  · exact ⟨_, _, rfl⟩
  · exact ⟨s.dictionary, s.directory, rfl⟩

theorem expectPurchase_touches {player : Text}
    (h : s.expectPurchase (String.ofList player) = .ok t) : Touches s t (.purchaseAhead player) := by
  obtain ⟨purchases, new, d, -, hd, rfl⟩ := expectPurchase_eq_ok h
  have hhome : d.home = s.dictionary.home := (Dictionary.register_adds hd).home
  cases new with
  | false => exact ⟨rfl, hhome, fun _ _ => .refl _⟩
  | true =>
      rw [if_pos rfl]
      refine ⟨?_, ?_, fun name hname => ?_⟩
      · obtain ⟨d', dir, hsave⟩ :=
          exists_saveDictionary_eq (s.recalled (String.ofList player) purchases d)
        rw [hsave]
        rfl
      · exact (saveDictionary_adds (s.recalled _ purchases d)).home.trans hhome
      · exact saveDictionary_agreeOn (s.recalled _ purchases d) (hhome ▸ hname)

theorem purchaseMade_touches {player text : Text} (h : s.purchaseMade player text = .ok t) :
    Touches s t (.purchaseMade player text) := by
  rcases purchaseMade_eq_ok h with ⟨-, rfl⟩ | ⟨record, u, hdecision, rfl⟩
  · exact ⟨rfl, rfl, fun _ _ _ => .refl _, fun _ => rfl⟩
  · obtain ⟨purchase, htext, hrecord⟩ := decision_eq_some hdecision
    obtain ⟨⟨m, hm, hpurchase⟩, -, d, d', hd, hd', rfl⟩ := recordOf_eq_some hrecord
    have hhome : d'.home = s.dictionary.home :=
      ((Dictionary.idsFor_adds hd).trans (Dictionary.idFor_adds hd')).home
    refine ⟨?_, ?_, fun name hname hdataset => ?_, fun hother => ?_⟩
    · obtain ⟨d'', dir, hsave⟩ := exists_saveDictionary_eq { s with dictionary := d' }
      rw [keep, hsave]
    · exact (saveDictionary_adds { s with dictionary := d' }).home.trans hhome
    · have hsave := saveDictionary_agreeOn { s with dictionary := d' } (hhome ▸ hname)
      refine hsave.trans (.append_of_ne ?_)
      rw [saveDictionary_episode]
      exact hdataset
    · exact absurd hpurchase (hother purchase htext m hm)

theorem answer_touches {message : Inbound} {r : Response} (h : s.answer p message = .ok (r, t)) :
    Touches s t message := by
  cases message with
  | prompt word => exact prompt_touches h
  | round token =>
      cases h
      rfl
  | gameStopped winner =>
      obtain ⟨u, hu, h⟩ := bind_eq_ok_iff.mp h
      obtain ⟨episode, -, hu⟩ := bind_eq_ok_iff.mp hu
      cases h
      cases hu
      exact ⟨rfl, fun name hdataset harchive => .archive_of_ne hdataset harchive⟩
  | info | note =>
      cases h
      rfl
  | purchaseAhead player =>
      obtain ⟨u, hu, h⟩ := bind_eq_ok_iff.mp h
      cases h
      exact expectPurchase_touches hu
  | purchaseMade player text =>
      obtain ⟨u, hu, h⟩ := bind_eq_ok_iff.mp h
      cases h
      exact purchaseMade_touches hu
  | change line =>
      obtain ⟨g, hg, h⟩ := bind_eq_ok_iff.mp h
      cases h
      exact ⟨rfl, (Game.apply_sameCourse hg).eq, Game.apply_sameGround hg⟩

/-- No line changes the map: at most it brings back the board of the start. -/
theorem answer_sameGround {message : Inbound} {r : Response}
    (h : s.answer p message = .ok (r, t)) (hs : s.world.start.SameGround s.world.board) :
    s.world.start.SameGround t.world.board := by
  have htouches := answer_touches h
  cases message with
  | prompt word =>
      refine hs.trans (.of_territories ?_)
      obtain ⟨-, hboard⟩ := htouches
      split at hboard
      · exact hboard.territories
      · exact congrArg Board.territories hboard
  | round => exact htouches ▸ hs
  | info | note => exact htouches ▸ hs
  | gameStopped => exact htouches.1 ▸ .refl s.world.start
  | purchaseAhead => exact htouches.1 ▸ hs
  | purchaseMade => exact htouches.1 ▸ hs
  | change => exact hs.trans htouches.2.2

/-- However the board has come about, its territories and their connections are those of the map. -/
theorem run_sameGround {m : MapRecord} {w : World} {d : Dictionary} {dir : Directory} {k : σ}
    {lines : List Text} {rs : List (Option Response)} (hw : World.ofRecord m = .ok w)
    (h : run p lines (.new w d dir k) = .ok (rs, s)) : w.board.SameGround s.world.board := by
  have hstart : w.start = w.board := by rw [World.ofRecord_eq hw]
  -- The end of a game puts the board of the start back, so that this one has to be carried along.
  have hkeeps : s.world.start = w.start ∧ w.start.SameGround s.world.board := by
    refine run_keeps (P := fun u => u.world.start = w.start ∧ w.start.SameGround u.world.board)
      (fun {u line r v} hu hv => ?_) ⟨rfl, hstart ▸ .refl w.start⟩ h
    obtain ⟨hustart, hground⟩ := hu
    refine ⟨(handle_sameSetting hv).2.trans hustart, ?_⟩
    rcases handle_eq_ok hv with ⟨-, rfl⟩ | ⟨response, hv⟩
    · exact hground
    · rw [← hustart] at hground ⊢
      exact answer_sameGround hv hground
  exact hstart ▸ hkeeps.2

/-- Each kind of line touches only its own part of the session. -/
theorem handle_touches {line : Text} {r : Option Response} (h : s.handle p line = .ok (r, t)) :
    if Text.trim line = [] then t = s else Touches s t (.read (Text.trim line)) := by
  rw [handle] at h
  split at h
  · rename_i hline
    cases h
    rw [if_pos hline]
  · rename_i c l hline
    obtain ⟨⟨response, u⟩, hu, h⟩ := bind_eq_ok_iff.mp h
    cases h
    rw [if_neg (by simp [hline]), hline]
    exact answer_touches hu

def calling : Text := "[MY_MOVE] purchase".toList

/-- Infantry and armour that were bought before are gone, and all else is as it was. -/
theorem handle_touches_calling : ∃ w rs s r t, World.ofRecord barracks = .ok w ∧
    run .random recruits (.new w ⟨none, ∅, 0, false⟩ .empty 0) = .ok (rs, s) ∧
    s.handle .random calling = .ok (r, t) ∧
    s.world.board.unplacedOf "Red" ≠ ∅ ∧ t.world.board.unplacedOf "Red" = ∅ ∧
    t.world.board.territories = s.world.board.territories ∧
    t = { s.withBoard t.world.board with picker := t.picker } := by
  have hread : Inbound.read (Text.trim calling) = .prompt "purchase".toList := by decide +kernel
  have hphase : Phase.ofName? (String.ofList "purchase".toList) = some .purchase := by
    decide +kernel
  obtain ⟨w, rs, s, hw, hrun, hs⟩ := exists_run .random barracks recruits ⟨none, ∅, 0, false⟩ 0
    (fun _ s => (decide (s.world.board.unplacedOf "Red" ≠ ∅), s.world.controlled,
      (s.handle .random calling).toOption.isSome)) (true, some "Red", true) (by decide +kernel)
  obtain ⟨hpool, hs⟩ := Prod.mk.inj hs
  obtain ⟨hplayer, hsome⟩ := Prod.mk.inj hs
  cases hhandle : s.handle .random calling with
  | error e =>
      rw [hhandle] at hsome
      cases hsome
  | ok x =>
      obtain ⟨r, t⟩ := x
      have htouches := handle_touches hhandle
      rw [if_neg (by decide +kernel), hread, Touches, hphase, hplayer] at htouches
      obtain ⟨hframe, hemptied⟩ := htouches
      exact ⟨w, rs, s, r, t, hw, hrun, hhandle, of_decide_eq_true hpool, hemptied.unplacedOf_eq,
        hemptied.territories, hframe⟩

end Session

end Warboard
