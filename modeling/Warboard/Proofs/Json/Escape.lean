import Mathlib.Tactic.IntervalCases
import Warboard.Json.Parser

namespace Warboard.Json

open Text

theorem unescape_unit {a b c d : Char} (hlead : isLeadUnit (unitOf a b c d) = false)
    (htrail : isTrailUnit (unitOf a b c d) = false) (rest : Text) :
    unescape ('\\' :: 'u' :: a :: b :: c :: d :: rest) =
      (unescape rest).map (Char.ofNat (unitOf a b c d) :: ·) := by
  rw [unescape.eq_def]
  simp only [hlead, htrail, Bool.false_eq_true, if_false]

/-- Characters under 32 are all spelled with a backslash, some with one letter and the rest as a
UTF-16 unit. -/
theorem unescape_control {v : Nat} (h : v < 32) (rest : Text) :
    unescape (escapeChar (Char.ofNat v) ++ rest) = (unescape rest).map (Char.ofNat v :: ·) := by
  interval_cases v <;> first | rfl | exact unescape_unit (by decide) (by decide) rest

theorem stringToken_control {v : Nat} (h : v < 32) (rest : Text) :
    stringToken (escapeChar (Char.ofNat v) ++ rest) =
      (stringToken rest).map fun (s, rest) => (escapeChar (Char.ofNat v) ++ s, rest) := by
  interval_cases v <;> rfl

theorem escapeChar_plain {c : Char} (hquote : c ≠ '"') (hslash : c ≠ '\\') (h : ¬ c.toNat < 32) :
    escapeChar c = [c] := by
  have htab : c ≠ '\t' := fun hc => h (by simp [hc])
  have hnewline : c ≠ '\n' := fun hc => h (by simp [hc])
  have hreturn : c ≠ '\r' := fun hc => h (by simp [hc])
  rw [escapeChar, if_neg hquote, if_neg hslash, if_neg (by omega), if_neg htab, if_neg hnewline,
    if_neg (by omega), if_neg hreturn, if_neg h]

theorem unescape_escapeChar (c : Char) (rest : Text) :
    unescape (escapeChar c ++ rest) = (unescape rest).map (c :: ·) := by
  by_cases hquote : c = '"'
  · subst hquote
    rfl
  by_cases hslash : c = '\\'
  · subst hslash
    rfl
  by_cases h : c.toNat < 32
  · have hcontrol := unescape_control h rest
    rwa [Char.ofNat_toNat] at hcontrol
  · rw [escapeChar_plain hquote hslash h, List.singleton_append, unescape]
    · intro a b d e t hc
      exact absurd hc hslash
    · intro d t hc
      exact absurd hc hslash

theorem stringToken_escapeChar (c : Char) (rest : Text) :
    stringToken (escapeChar c ++ rest) =
      (stringToken rest).map fun (s, rest) => (escapeChar c ++ s, rest) := by
  by_cases hquote : c = '"'
  · subst hquote
    rfl
  by_cases hslash : c = '\\'
  · subst hslash
    rfl
  by_cases h : c.toNat < 32
  · have hcontrol := stringToken_control h rest
    rwa [Char.ofNat_toNat] at hcontrol
  · rw [escapeChar_plain hquote hslash h, List.singleton_append, stringToken]
    · simp [h, hslash]
    · intro hc
      exact hquote hc
    · intro a b d e t hc
      exact absurd hc hslash
    · intro d t hc
      exact absurd hc hslash

theorem unescape_escape (t : Text) : unescape (escape t) = some t := by
  rw [escape]
  induction t with
  | nil => rfl
  | cons c t ih =>
      rw [List.flatMap_cons, unescape_escapeChar, ih]
      rfl

/-- The closing quote of an escaped text is found, whatever follows. -/
theorem stringToken_escape (t rest : Text) :
    stringToken (escape t ++ '"' :: rest) = some (escape t, rest) := by
  rw [escape]
  induction t with
  | nil => rfl
  | cons c t ih =>
      rw [List.flatMap_cons, List.append_assoc, stringToken_escapeChar, ih]
      rfl

end Warboard.Json
