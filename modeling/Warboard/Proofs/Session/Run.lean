import Warboard.Proofs.Session.Outcome
import Warboard.Proofs.Session.Setting

namespace Warboard.Session

open Checked

variable {σ : Type} {p : Picker σ}

/-- Handles the lines one after another and gives all answers. -/
def run (p : Picker σ) : List Text → Session σ → Checked (List (Option Response) × Session σ)
  | [], s => .ok ([], s)
  | line :: lines, s => do
    let (response, s) ← s.handle p line
    let (responses, s) ← run p lines s
    return (response :: responses, s)

theorem run_cons (line : Text) (lines : List Text) (s : Session σ) :
    run p (line :: lines) s = s.handle p line >>= fun x => run p lines x.2 >>= fun y =>
      return (x.1 :: y.1, y.2) := rfl

theorem run_append_eq (before after : List Text) (s : Session σ) :
    run p (before ++ after) s = run p before s >>= fun x => run p after x.2 >>= fun y =>
      return (x.1 ++ y.1, y.2) := by
  induction before generalizing s with
  | nil =>
      rw [List.nil_append, run]
      cases h : run p after s <;> simp [bind, Except.bind, pure, Except.pure, h]
  | cons line before ih =>
      rw [List.cons_append, run_cons, run_cons]
      cases s.handle p line with
      | error e => rfl
      | ok x =>
          change (run p (before ++ after) x.2 >>= _) = ((run p before x.2 >>= _) >>= _ : Checked _)
          rw [ih]
          cases run p before x.2 with
          | error e => rfl
          | ok y =>
              change ((run p after y.2 >>= _) >>= _ : Checked _) = (run p after y.2 >>= _)
              cases run p after y.2 <;> rfl

theorem run_append {before after : List Text} {s t : Session σ} {rs : List (Option Response)}
    (h : run p (before ++ after) s = .ok (rs, t)) :
    ∃ qs u qs', run p before s = .ok (qs, u) ∧ run p after u = .ok (qs', t) := by
  rw [run_append_eq, bind_eq_ok_iff] at h
  obtain ⟨⟨qs, u⟩, hbefore, h⟩ := h
  obtain ⟨⟨qs', t'⟩, hafter, h⟩ := bind_eq_ok_iff.mp h
  cases h
  exact ⟨qs, u, qs', hbefore, hafter⟩

/-- What every line keeps, all lines keep. -/
theorem run_keeps {P : Session σ → Prop}
    (hP : ∀ {s line r t}, P s → s.handle p line = .ok (r, t) → P t) {lines : List Text}
    {rs : List (Option Response)} {s t : Session σ} (hs : P s)
    (h : run p lines s = .ok (rs, t)) : P t := by
  induction lines generalizing s rs with
  | nil =>
      cases h
      exact hs
  | cons line lines ih =>
      rw [run_cons, bind_eq_ok_iff] at h
      obtain ⟨⟨r, u⟩, hu, h⟩ := h
      obtain ⟨⟨rs', t'⟩, hrun, h⟩ := bind_eq_ok_iff.mp h
      cases h
      exact ih (hP hs hu) hrun

theorem prompt_sameSetting {s t : Session σ} {text : Text} {r : Response}
    (h : s.prompt p text = .ok (r, t)) : t.world.SameSetting s.world := by
  rcases prompt_eq_ok h with rfl | ⟨player, phase, k, rfl⟩
  · exact .refl t.world
  · change (s.readied player phase).world.SameSetting s.world
    rw [readied]
    split <;> exact .refl s.world

theorem sameSetting_of_game {s t : Session σ} (h : t.game = s.game) :
    t.world.SameSetting s.world := by
  rw [world, h]
  exact .refl s.world

theorem answer_sameSetting {s t : Session σ} {message : Inbound} {r : Response}
    (h : s.answer p message = .ok (r, t)) : t.world.SameSetting s.world := by
  cases message with
  | prompt phase => exact prompt_sameSetting h
  | round token => cases h; exact .refl s.world
  | gameStopped winner =>
      obtain ⟨u, hu, h⟩ := bind_eq_ok_iff.mp h
      obtain ⟨episode, -, hu⟩ := bind_eq_ok_iff.mp hu
      cases h
      cases hu
      exact .refl s.world
  | info | note => cases h; exact .refl s.world
  | purchaseAhead player =>
      obtain ⟨u, hu, h⟩ := bind_eq_ok_iff.mp h
      cases h
      exact sameSetting_of_game (expectPurchase_game hu)
  | purchaseMade player text =>
      obtain ⟨u, hu, h⟩ := bind_eq_ok_iff.mp h
      cases h
      exact sameSetting_of_game (purchaseMade_game hu)
  | change line =>
      obtain ⟨g, hg, h⟩ := bind_eq_ok_iff.mp h
      cases h
      exact Game.apply_sameSetting hg

theorem handle_sameSetting {s t : Session σ} {line : Text} {r : Option Response}
    (h : s.handle p line = .ok (r, t)) : t.world.SameSetting s.world := by
  rcases handle_eq_ok h with ⟨-, rfl⟩ | ⟨response, h⟩
  · exact .refl t.world
  · exact answer_sameSetting h

theorem run_sameSetting {s t : Session σ} {lines : List Text} {rs : List (Option Response)}
    (h : run p lines s = .ok (rs, t)) : t.world.SameSetting s.world :=
  run_keeps (P := fun u => u.world.SameSetting s.world)
    (fun hs ht => (handle_sameSetting ht).trans hs) (.refl s.world) h

/-- A run from an empty directory that was evaluated, taken apart. -/
theorem exists_run {α : Type} (p : Picker σ) (r : MapRecord) (lines : List Text) (d : Dictionary)
    (k : σ) (f : Session σ → Session σ → α) (a : α)
    (h : (World.ofRecord r >>= fun w => (run p lines (.new w d .empty k)).map fun x =>
      f (.new w d .empty k) x.2).toOption = some a) :
    ∃ w rs t, World.ofRecord r = .ok w ∧ run p lines (.new w d .empty k) = .ok (rs, t) ∧
      f (.new w d .empty k) t = a := by
  cases hw : World.ofRecord r with
  | error e => rw [hw] at h; cases h
  | ok w =>
      rw [hw] at h
      change ((run p lines (.new w d .empty k)).map _).toOption = some a at h
      cases hrun : run p lines (.new w d .empty k) with
      | error e => rw [hrun] at h; cases h
      | ok x =>
          rw [hrun] at h
          exact ⟨w, x.1, x.2, rfl, hrun, Option.some.inj h⟩

end Warboard.Session
