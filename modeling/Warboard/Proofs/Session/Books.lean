import Warboard.Proofs.Session.Outcome

namespace Warboard.Session

open Checked

variable {σ : Type} {p : Picker σ} {s t : Session σ}

/-- The episode, the dictionary, the files and what is remembered of the last purchase decision are the
same. -/
structure SameBooks (s t : Session σ) : Prop where
  episode : t.episode = s.episode
  dictionary : t.dictionary = s.dictionary
  directory : t.directory = s.directory
  purchases : t.purchases = s.purchases
  balanceBefore : t.balanceBefore = s.balanceBefore

theorem SameBooks.refl (s : Session σ) : SameBooks s s := ⟨rfl, rfl, rfl, rfl, rfl⟩

theorem prompt_sameBooks {text : Text} {r : Response} (h : s.prompt p text = .ok (r, t)) :
    SameBooks s t := by
  rcases prompt_eq_ok h with rfl | ⟨player, phase, k, rfl⟩
  · exact .refl t
  · rw [readied]
    split <;> exact ⟨rfl, rfl, rfl, rfl, rfl⟩

/-- What the message does to the books: nothing, unless it ends an episode, announces a purchase
decision or reports one. -/
def BooksAfter (s t : Session σ) : Inbound → Prop
  | .gameStopped winner => s.endEpisode winner = .ok t
  | .purchaseAhead player => s.expectPurchase (String.ofList player) = .ok t
  | .purchaseMade player text => s.purchaseMade player text = .ok t
  | _ => SameBooks s t

theorem answer_books {message : Inbound} {r : Response} (h : s.answer p message = .ok (r, t)) :
    BooksAfter s t message := by
  cases message with
  | prompt phase => exact prompt_sameBooks h
  | round token =>
      cases h
      exact ⟨rfl, rfl, rfl, rfl, rfl⟩
  | info | note =>
      cases h
      exact .refl s
  | gameStopped | purchaseAhead | purchaseMade =>
      obtain ⟨u, hu, h⟩ := bind_eq_ok_iff.mp h
      cases h
      exact hu
  | change line =>
      obtain ⟨g, -, h⟩ := bind_eq_ok_iff.mp h
      cases h
      exact ⟨rfl, rfl, rfl, rfl, rfl⟩

theorem handle_booksAfter {line : Text} {r : Option Response} (h : s.handle p line = .ok (r, t)) :
    BooksAfter s t (.read (Text.trim line)) := by
  rcases handle_eq_ok h with ⟨hline, rfl⟩ | ⟨response, h⟩
  · rw [hline]
    exact .refl t
  · exact answer_books h

theorem handle_books {line : Text} {r : Option Response} (h : s.handle p line = .ok (r, t)) :
    SameBooks s t ∨ (∃ winner, s.endEpisode winner = .ok t) ∨
      (∃ player, s.expectPurchase player = .ok t) ∨
      ∃ player text, s.purchaseMade player text = .ok t := by
  have hbooks := handle_booksAfter h
  cases hread : Inbound.read (Text.trim line) with
  | prompt | round | info | note | change =>
      rw [hread] at hbooks
      exact Or.inl hbooks
  | gameStopped winner =>
      rw [hread] at hbooks
      exact Or.inr (Or.inl ⟨winner, hbooks⟩)
  | purchaseAhead player =>
      rw [hread] at hbooks
      exact Or.inr (Or.inr (Or.inl ⟨_, hbooks⟩))
  | purchaseMade player text =>
      rw [hread] at hbooks
      exact Or.inr (Or.inr (Or.inr ⟨player, text, hbooks⟩))

end Warboard.Session
