import Warboard.Json.Parser
import Warboard.Proofs.Text.Decimal
import Warboard.Proofs.Text.Scan

namespace Warboard.Json

open Text

/-- Can the character go on with a number? -/
def isNumberPart (c : Char) : Bool := c.isDigit || c = '.' || c = 'e' || c = 'E'

/-- No number goes on there. -/
def Ends (t : Text) : Prop := ∀ c ∈ t.head?, isNumberPart c = false

theorem ends_nil : Ends [] := by
  rintro c ⟨⟩

theorem ends_cons {c : Char} (h : isNumberPart c = false) (t : Text) : Ends (c :: t) := by
  rintro d ⟨⟩
  exact h

/-- A token that is read as a number wherever no number goes on after it. -/
structure IsNumeral (lexeme : Text) : Prop where
  head : ∃ c t, lexeme = c :: t ∧ (c = '-' ∨ c.isDigit = true)
  token : ∀ rest, Ends rest → numberToken (lexeme ++ rest) = some (lexeme, rest)

variable {rest : Text}

theorem Ends.isDigit_eq_false (h : Ends rest) : ∀ c ∈ rest.head?, c.isDigit = false := by
  intro c hc
  have hpart := h c hc
  simp only [isNumberPart, Bool.or_eq_false_iff] at hpart
  exact hpart.1.1.1

theorem someDigits_digits (n : Nat) (h : Ends rest) :
    someDigits (digits n ++ rest) = some (digits n, rest) :=
  run_append (digits_ne_nil n) isDigit_of_mem_digits h.isDigit_eq_false

theorem wholeToken_digits (n : Nat) (h : Ends rest) :
    wholeToken (digits n ++ rest) = some (digits n, rest) := by
  rcases Nat.eq_zero_or_pos n with rfl | hn
  · rw [digits, if_pos (by decide)]
    rfl
  · rw [wholeToken, someDigits_digits n h]
    intro t ht
    obtain ⟨c, ds, hd⟩ := List.exists_cons_of_ne_nil (digits_ne_nil n)
    rw [hd] at ht
    exact digits_head_ne_zero hn ds (by rw [hd, (List.cons.inj ht).1])

theorem Ends.fractionToken_eq (h : Ends rest) : fractionToken rest = some ([], rest) := by
  rw [fractionToken]
  rintro t rfl
  exact absurd (h '.' rfl) (by decide)

theorem Ends.exponentToken_eq (h : Ends rest) : exponentToken rest = some ([], rest) := by
  cases rest with
  | nil => rfl
  | cons c t =>
      have hc := h c rfl
      simp only [isNumberPart, Bool.or_eq_false_iff, decide_eq_false_iff_not] at hc
      simp [exponentToken, hc]

theorem unsignedToken_digits (n : Nat) (h : Ends rest) :
    unsignedToken (digits n ++ rest) = some (digits n, rest) := by
  simp [unsignedToken, wholeToken_digits n h, h.fractionToken_eq, h.exponentToken_eq]

theorem isNumeral_digits (n : Nat) : IsNumeral (digits n) := by
  obtain ⟨c, ds, hd⟩ := List.exists_cons_of_ne_nil (digits_ne_nil n)
  have hdigit : c.isDigit = true := isDigit_of_mem_digits c (hd ▸ List.mem_cons_self)
  refine ⟨⟨c, ds, hd, Or.inr hdigit⟩, fun rest h => ?_⟩
  rw [numberToken, unsignedToken_digits n h]
  intro t ht
  rw [hd] at ht
  exact absurd ((List.cons.inj ht).1 ▸ hdigit) (by decide)

theorem isNumeral_signedDigits (n : Int) : IsNumeral (signedDigits n) := by
  rw [signedDigits]
  split
  · refine ⟨⟨'-', _, rfl, Or.inl rfl⟩, fun rest h => ?_⟩
    rw [List.cons_append, numberToken, unsignedToken_digits _ h]
    rfl
  · exact isNumeral_digits n.natAbs

end Warboard.Json
