import Mathlib.Tactic.IntervalCases
import Warboard.Proofs.Moves.Action
import Warboard.Wire.Response

namespace Warboard

namespace Text

/-- None of the control characters before the blank, and so no line breaks. -/
def Printable (t : Text) : Prop := ∀ c ∈ t, 32 ≤ c.toNat

theorem Printable.not_mem {t : Text} (h : Printable t) {c : Char} (hc : c.toNat < 32) : c ∉ t :=
  fun hmem => Nat.not_lt.2 (h c hmem) hc

@[simp]
theorem printable_nil : Printable [] := List.forall_mem_nil _

@[simp]
theorem printable_cons {c : Char} {t : Text} :
    Printable (c :: t) ↔ 32 ≤ c.toNat ∧ Printable t :=
  List.forall_mem_cons

@[simp]
theorem printable_append {t u : Text} : Printable (t ++ u) ↔ Printable t ∧ Printable u :=
  List.forall_mem_append

end Text

namespace Json

open Text

theorem printable_escapeChar (c : Char) : Printable (escapeChar c) := by
  by_cases hquote : c = '"'
  · subst hquote
    simp [escapeChar]
  by_cases hslash : c = '\\'
  · subst hslash
    simp [escapeChar]
  by_cases h : c.toNat < 32
  · have hcontrol (v : Nat) (hv : v < 32) : Printable (escapeChar (Char.ofNat v)) := by
      interval_cases v <;> exact List.forall_mem_cons.2 (by decide)
    have := hcontrol c.toNat h
    rwa [Char.ofNat_toNat] at this
  · rw [escapeChar_plain hquote hslash h]
    simpa using h

theorem printable_escape (t : Text) : Printable (escape t) :=
  List.forall_mem_flatMap.2 fun c _ => printable_escapeChar c

theorem printable_quote {lexeme : Text} (h : Printable lexeme) : Printable (quote lexeme) := by
  simp [quote, h]

theorem printable_ofString (s : String) : Printable (render .compact (ofString s)) :=
  printable_quote (printable_escape s.toList)

theorem printable_renderItems {js : List Json} (h : ∀ j ∈ js, Printable (render .compact j)) :
    Printable (renderItems .compact js) := by
  induction js with
  | nil => exact printable_nil
  | cons j js ih =>
      obtain ⟨hj, hjs⟩ := List.forall_mem_cons.1 h
      change Printable (',' :: (render .compact j ++ renderItems .compact js))
      simp [hj, ih hjs]

theorem printable_array {js : List Json} (h : ∀ j ∈ js, Printable (render .compact j)) :
    Printable (render .compact (.array js)) := by
  cases js with
  | nil => simp [render]
  | cons j js =>
      obtain ⟨hj, hjs⟩ := List.forall_mem_cons.1 h
      change Printable ('[' :: (render .compact j ++ renderItems .compact js ++ [] ++ [']']))
      simp [hj, printable_renderItems hjs]

theorem printable_renderEntries {es : List (Text × Json)}
    (h : ∀ e ∈ es, Printable e.1 ∧ Printable (render .compact e.2)) :
    Printable (renderEntries .compact es) := by
  induction es with
  | nil => exact printable_nil
  | cons e es ih =>
      obtain ⟨key, j⟩ := e
      obtain ⟨⟨hkey, hvalue⟩, hes⟩ := List.forall_mem_cons.1 h
      change Printable
        (',' :: (quote key ++ [':'] ++ render .compact j ++ renderEntries .compact es))
      simp [printable_quote hkey, hvalue, ih hes]

theorem printable_object {es : List (Text × Json)}
    (h : ∀ e ∈ es, Printable e.1 ∧ Printable (render .compact e.2)) :
    Printable (render .compact (.object es)) := by
  cases es with
  | nil => simp [render]
  | cons e es =>
      obtain ⟨key, j⟩ := e
      obtain ⟨⟨hkey, hvalue⟩, hes⟩ := List.forall_mem_cons.1 h
      change Printable ('\x7b' :: (quote key ++ [':'] ++ render .compact j ++
        renderEntries .compact es ++ [] ++ ['\x7d']))
      simp [printable_quote hkey, hvalue, printable_renderEntries hes]

theorem printable_record {entries : List (String × Json)}
    (h : ∀ e ∈ entries, Printable (render .compact e.2)) :
    Printable (render .compact (record entries)) :=
  printable_object (List.forall_mem_map.2 fun e he => ⟨printable_escape e.1.toList, h e he⟩)

end Json

open Json

namespace Action

theorem printable_toJson (a : Action) : Text.Printable (a.toJson.render .compact) := by
  apply printable_record
  simp only [List.forall_mem_cons, List.not_mem_nil, false_imp_iff, implies_true, and_true]
  exact ⟨printable_ofString _, printable_ofString _, printable_ofString _, printable_ofString _⟩

end Action

namespace Response

variable {r r' : Response} {j : Json}

/-- The document says what the answer does: the one word, or the same orders. -/
def SaidBy (j : Json) : Response → Prop
  | acknowledged => j.string? = some "ACK"
  | actions list => j.list? Action.ofJson = some list

theorem SaidBy.unique (h : r.SaidBy j) (h' : r'.SaidBy j) : r = r' := by
  cases r with
  | acknowledged =>
      cases r' with
      | acknowledged => rfl
      | actions list => cases j <;> first | cases h | cases h'
  | actions list =>
      cases r' with
      | acknowledged => cases j <;> first | cases h | cases h'
      | actions list' => exact congrArg actions (Option.some.inj (h.symm.trans h'))

theorem saidBy_toJson (r : Response) : r.SaidBy r.toJson := by
  cases r with
  | acknowledged => exact string?_ofString "ACK"
  | actions list => exact list?_array Action.ofJson_toJson list

theorem written_toJson (r : Response) : Written r.toJson := by
  cases r with
  | acknowledged => exact written_ofString "ACK"
  | actions list => exact written_array Action.written_toJson list

theorem parse_toLine (r : Response) : parse r.toLine = some r.toJson :=
  parse_render Spacing.compact_isBlank r.written_toJson

theorem printable_toLine (r : Response) : Text.Printable r.toLine := by
  cases r with
  | acknowledged => exact printable_ofString "ACK"
  | actions list => exact printable_array (List.forall_mem_map.2 fun a _ => a.printable_toJson)

theorem newline_not_mem_toLine (r : Response) : '\n' ∉ r.toLine :=
  r.printable_toLine.not_mem (by decide)

/-- An answer is one line that says what the answer does and no other answer. -/
theorem toLine_faithful (r : Response) :
    '\n' ∉ r.toLine ∧ '\r' ∉ r.toLine ∧ (∃ j, parse r.toLine = some j ∧ r.SaidBy j) ∧
      ∀ r' : Response, r'.toLine = r.toLine → r' = r := by
  refine ⟨r.newline_not_mem_toLine, r.printable_toLine.not_mem (by decide),
    ⟨r.toJson, r.parse_toLine, r.saidBy_toJson⟩, fun r' h => ?_⟩
  have hjson : r'.toJson = r.toJson := by
    rw [← Option.some.injEq, ← parse_toLine, h, parse_toLine]
  exact SaidBy.unique (j := r.toJson) (hjson ▸ r'.saidBy_toJson) r.saidBy_toJson

end Response

end Warboard
