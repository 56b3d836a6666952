import Warboard.Proofs.Checked
import Warboard.Session.Basic

namespace Warboard.Session

open Checked

variable {σ : Type} {p : Picker σ} {s t : Session σ}

/-- The session whose moves a prompt is answered with. -/
def readied (s : Session σ) (player : String) (phase : Phase) : Session σ :=
  if phase = .purchase then s.withBoard (s.world.board.clearUnplaced player) else s

def choose (p : Picker σ) (s : Session σ) (moves : List LegalMove) : Response × Session σ :=
  let (choice, picker) := p.pick s.picker s.world moves
  (choice.elim .pass fun move => .actions move.actions, { s with picker := picker })

theorem prompt_of_some {s : Session σ} {text : Text} {phase : Phase} {player : String}
    (hphase : Phase.ofName? (String.ofList text) = some phase)
    (hplayer : s.world.controlled = some player) :
    s.prompt p text = (LegalMove.all (s.readied player phase).world player phase).map
      (choose p (s.readied player phase)) := by
  generalize hu : s.readied player phase = u
  rw [readied] at hu
  simp only [prompt, hphase, hplayer, hu]
  cases LegalMove.all u.world player phase with
  | error e => rfl
  | ok moves =>
      simp only [Except.map, choose]
      cases h : (p.pick u.picker u.world moves).1 <;> simp [bind, Except.bind, pure, Except.pure, h]

theorem prompt_of_none {s : Session σ} {text : Text}
    (h : Phase.ofName? (String.ofList text) = none ∨ s.world.controlled = none) :
    s.prompt p text = .ok (.pass, s) := by
  rw [prompt]
  split
  · simp_all
  · rfl

theorem prompt_leaves {text : Text} {phase : Phase} {player : String} {r : Response}
    (hphase : Phase.ofName? (String.ofList text) = some phase)
    (hplayer : s.world.controlled = some player) (h : s.prompt p text = .ok (r, t)) :
    ∃ k, t = { s.readied player phase with picker := k } := by
  rw [prompt_of_some hphase hplayer] at h
  cases hm : LegalMove.all (s.readied player phase).world player phase with
  | error e => simp [hm, Except.map] at h
  | ok moves =>
      simp only [hm, Except.map] at h
      cases h
      exact ⟨_, rfl⟩

/-- A prompt leaves nothing behind but the picker's state, and a pool cleared for a purchase. -/
theorem prompt_eq_ok {text : Text} {r : Response} (h : s.prompt p text = .ok (r, t)) :
    t = s ∨ ∃ player phase k, t = { s.readied player phase with picker := k } := by
  cases hphase : Phase.ofName? (String.ofList text) with
  | none =>
      rw [prompt_of_none (Or.inl hphase)] at h
      cases h
      exact Or.inl rfl
  | some phase =>
      cases hplayer : s.world.controlled with
      | none =>
          rw [prompt_of_none (Or.inr hplayer)] at h
          cases h
          exact Or.inl rfl
      | some player =>
          obtain ⟨k, hk⟩ := prompt_leaves hphase hplayer h
          exact Or.inr ⟨player, phase, k, hk⟩

theorem saveDictionary_game (s : Session σ) : s.saveDictionary.game = s.game := by
  rw [saveDictionary]
  split <;> rfl

theorem saveDictionary_remembers (s : Session σ) : s.saveDictionary.purchases = s.purchases ∧
    s.saveDictionary.balanceBefore = s.balanceBefore := by
  rw [saveDictionary]
  split <;> exact ⟨rfl, rfl⟩

theorem saveDictionary_episode (s : Session σ) : s.saveDictionary.episode = s.episode := by
  rw [saveDictionary]
  split <;> rfl

/-- The session that has gone through the purchases of a player. -/
def recalled (s : Session σ) (player : String) (purchases : List PurchaseMove) (d : Dictionary) :
    Session σ :=
  { s with
    balanceBefore := s.world.board.balanceOf player
    purchases := purchases
    dictionary := d }

theorem expectPurchase_eq_ok {player : String} (h : s.expectPurchase player = .ok t) :
    ∃ purchases new d, PurchaseMove.legal s.world player = .ok purchases ∧
      s.dictionary.register (purchases.map fun m => m.purchase.key) = .ok (new, d) ∧
      t = if new then (s.recalled player purchases d).saveDictionary
        else s.recalled player purchases d := by
  obtain ⟨purchases, hpurchases, h⟩ := bind_eq_ok_iff.mp h
  obtain ⟨⟨new, d⟩, hd, h⟩ := bind_eq_ok_iff.mp h
  cases h
  exact ⟨purchases, new, d, hpurchases, hd, rfl⟩

theorem expectPurchase_remembers {player : String} (h : s.expectPurchase player = .ok t) :
    PurchaseMove.legal s.world player = .ok t.purchases ∧
      t.balanceBefore = s.world.board.balanceOf player := by
  obtain ⟨purchases, new, d, hlegal, -, rfl⟩ := expectPurchase_eq_ok h
  cases new with
  | false => exact ⟨hlegal, rfl⟩
  | true =>
      obtain ⟨hpurchases, hbalance⟩ := saveDictionary_remembers (s.recalled player purchases d)
      exact ⟨hpurchases ▸ hlegal, hbalance⟩

/-- A record is made of a purchase that was expected. -/
theorem recordOf_eq_some {player : String} {purchase : Purchase} {record : PurchaseRecord}
    (h : s.recordOf player purchase = .ok (some (record, t))) :
    (∃ m ∈ s.purchases, m.purchase = purchase) ∧ record.balanceBefore = s.balanceBefore ∧
      ∃ d d', s.dictionary.idsFor (s.purchases.map fun m => m.purchase.key) =
          .ok (record.legalMoves, d) ∧
        d.idFor purchase.key = .ok (record.chosenMove, d') ∧
        t = { s with dictionary := d' }.saveDictionary := by
  obtain ⟨chosen, hchosen, h⟩ := bind_eq_ok_iff.mp h
  obtain ⟨cost, -, hchosen⟩ := bind_eq_ok_iff.mp hchosen
  cases hchosen
  split at h
  · rename_i hany
    obtain ⟨⟨legal, d⟩, hd, h⟩ := bind_eq_ok_iff.mp h
    obtain ⟨⟨move, d'⟩, hd', h⟩ := bind_eq_ok_iff.mp h
    obtain ⟨features, -, h⟩ := bind_eq_ok_iff.mp h
    cases h
    exact ⟨by simpa using hany, (saveDictionary_remembers _).2, d, d', hd, hd', rfl⟩
  · cases h

theorem recordOf_player {player : String} {purchase : Purchase} {record : PurchaseRecord}
    (h : s.recordOf player purchase = .ok (some (record, t))) : record.player = player := by
  obtain ⟨chosen, -, h⟩ := bind_eq_ok_iff.mp h
  split at h
  · obtain ⟨legal, -, h⟩ := bind_eq_ok_iff.mp h
    obtain ⟨move, -, h⟩ := bind_eq_ok_iff.mp h
    obtain ⟨features, -, h⟩ := bind_eq_ok_iff.mp h
    cases h
    rfl
  · cases h

theorem decision_eq_some {player text : Text} {record : PurchaseRecord}
    (h : s.decision player text = .ok (some (record, t))) :
    ∃ purchase, Purchase.ofText text = .ok (some purchase) ∧
      s.recordOf (String.ofList player) purchase = .ok (some (record, t)) := by
  obtain ⟨purchase, hpurchase, h⟩ := bind_eq_ok_iff.mp h
  cases purchase with
  | none => cases h
  | some purchase => exact ⟨purchase, hpurchase, h⟩

theorem purchaseMade_eq_ok {player text : Text} (h : s.purchaseMade player text = .ok t) :
    (s.decision player text = .ok none ∧ t = s) ∨ ∃ record u,
      s.decision player text = .ok (some (record, u)) ∧ t = u.keep record := by
  obtain ⟨made, hmade, h⟩ := bind_eq_ok_iff.mp h
  cases made with
  | none =>
      cases h
      exact Or.inl ⟨hmade, rfl⟩
  | some made =>
      cases h
      exact Or.inr ⟨made.1, made.2, hmade, rfl⟩

/-- A report leaves standing what was remembered of the decision. -/
theorem purchaseMade_remembers {player text : Text} (h : s.purchaseMade player text = .ok t) :
    t.purchases = s.purchases ∧ t.balanceBefore = s.balanceBefore := by
  rcases purchaseMade_eq_ok h with ⟨-, rfl⟩ | ⟨record, u, hu, rfl⟩
  · exact ⟨rfl, rfl⟩
  · obtain ⟨purchase, -, hu⟩ := decision_eq_some hu
    obtain ⟨-, -, d, d', -, -, rfl⟩ := recordOf_eq_some hu
    exact saveDictionary_remembers { s with dictionary := d' }

theorem expectPurchase_game {player : String} (h : s.expectPurchase player = .ok t) :
    t.game = s.game := by
  obtain ⟨purchases, new, d, -, -, rfl⟩ := expectPurchase_eq_ok h
  split
  · exact saveDictionary_game (s.recalled player purchases d)
  · rfl

theorem purchaseMade_game {player text : Text} (h : s.purchaseMade player text = .ok t) :
    t.game = s.game := by
  rcases purchaseMade_eq_ok h with ⟨-, rfl⟩ | ⟨record, u, hu, rfl⟩
  · rfl
  · obtain ⟨purchase, -, hu⟩ := decision_eq_some hu
    obtain ⟨-, -, d, d', -, -, rfl⟩ := recordOf_eq_some hu
    exact saveDictionary_game { s with dictionary := d' }

/-- A blank line does nothing, any other what its message asks for. -/
theorem handle_eq_ok {line : Text} {r : Option Response} (h : s.handle p line = .ok (r, t)) :
    (Text.trim line = [] ∧ t = s) ∨
      ∃ response, s.answer p (.read (Text.trim line)) = .ok (response, t) := by
  rw [handle] at h
  split at h
  · rename_i hline
    cases h
    exact Or.inl ⟨hline, rfl⟩
  · rename_i c l hline
    obtain ⟨⟨response, u⟩, hu, h⟩ := bind_eq_ok_iff.mp h
    cases h
    rw [hline]
    exact Or.inr ⟨response, hu⟩

end Warboard.Session
