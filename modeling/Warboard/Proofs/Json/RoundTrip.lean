import Warboard.Json.Printer
import Warboard.Proofs.Json.Escape
import Warboard.Proofs.Json.Numeral

namespace Warboard.Json

open Text

/-- Nothing but the white space of the format. -/
def Blank (t : Text) : Prop := ∀ c ∈ t, isSpace c = true

instance (t : Text) : Decidable (Blank t) := decidableForallMem (isSpace · = true) t

theorem skipSpace_append {ws : Text} (h : Blank ws) (t : Text) :
    skipSpace (ws ++ t) = skipSpace t :=
  List.dropWhile_append_of_pos h

theorem skipSpace_cons {c : Char} (h : isSpace c = false) (t : Text) :
    skipSpace (c :: t) = c :: t :=
  List.dropWhile_cons_of_neg (by simp [h])

theorem isNumberPart_of_isSpace {c : Char} (h : isSpace c = true) : isNumberPart c = false := by
  simp only [isSpace, Bool.or_eq_true, decide_eq_true_eq] at h
  obtain ((rfl | rfl) | rfl) | rfl := h <;> rfl

theorem Blank.ends_append {ws t : Text} (hws : Blank ws) (h : Ends t) : Ends (ws ++ t) := by
  cases ws with
  | nil => exact h
  | cons c ws => exact ends_cons (isNumberPart_of_isSpace (hws c List.mem_cons_self)) _

/-- Only white space is put around the items. -/
structure Spacing.IsBlank (sp : Spacing) : Prop where
  opening : Blank sp.opening
  comma : Blank sp.comma
  colon : Blank sp.colon
  closing : Blank sp.closing

theorem Spacing.compact_isBlank : Spacing.compact.IsBlank := by
  constructor <;> decide

theorem Spacing.spaced_isBlank : Spacing.spaced.IsBlank := by
  constructor <;> decide

theorem Spacing.lines_isBlank : Spacing.lines.IsBlank := by
  constructor <;> decide

/-- A document with its tokens spelled as a writer spells them. -/
inductive Written : Json → Prop
  | null : Written .null
  | bool (b : Bool) : Written (.bool b)
  | number {lexeme : Text} (h : IsNumeral lexeme) : Written (.number lexeme)
  | string (t : Text) : Written (.string (escape t))
  | array {js : List Json} (h : ∀ j ∈ js, Written j) : Written (.array js)
  | object {es : List (Text × Json)} (hkeys : ∀ e ∈ es, ∃ t, e.1 = escape t)
      (h : ∀ e ∈ es, Written e.2) : Written (.object es)

variable {sp : Spacing}

theorem IsNumeral.head_cases {lexeme : Text} (h : IsNumeral lexeme) :
    ∃ c t, lexeme = c :: t ∧ isSpace c = false ∧
      ∀ d ∈ ['"', '[', ']', '\x7b', '\x7d', 'n', 't', 'f'], c ≠ d := by
  obtain ⟨c, t, rfl, hc⟩ := h.head
  refine ⟨c, t, rfl, ?_⟩
  rcases hc with rfl | hc
  · decide
  · have hspace : isSpace c = false := by
      by_contra hs
      have hpart := isNumberPart_of_isSpace (Bool.eq_true_of_not_eq_false hs)
      simp [isNumberPart, hc] at hpart
    refine ⟨hspace, ?_⟩
    rintro d hd rfl
    revert hc
    simp only [List.mem_cons, List.not_mem_nil, or_false] at hd
    rcases hd with rfl | rfl | rfl | rfl | rfl | rfl | rfl | rfl <;> decide

theorem Written.render_head {j : Json} (h : Written j) (sp : Spacing) :
    ∃ c t, j.render sp = c :: t ∧ isSpace c = false ∧ c ≠ ']' ∧ c ≠ '\x7d' := by
  cases h with
  | null => exact ⟨_, _, rfl, by decide⟩
  | bool b => cases b <;> exact ⟨_, _, rfl, by decide⟩
  | number h =>
      obtain ⟨c, t, rfl, hspace, hc⟩ := h.head_cases
      exact ⟨c, t, rfl, hspace, hc _ (by simp), hc _ (by simp)⟩
  | string t => exact ⟨_, _, rfl, by decide⟩
  | @array js h => cases js <;> exact ⟨_, _, rfl, by decide⟩
  | @object es hkeys h => cases es <;> exact ⟨_, _, rfl, by decide⟩

theorem value_append_blank {ws : Text} (h : Blank ws) (n : Nat) (t : Text) :
    value n (ws ++ t) = value n t := by
  cases n with
  | zero => rfl
  | succ n => rw [value, value, skipSpace_append h]

theorem items_append_blank {ws : Text} (h : Blank ws) (n : Nat) (t : Text) :
    items n (ws ++ t) = items n t := by
  cases n with
  | zero => rfl
  | succ n => rw [items, items, value_append_blank h]

theorem entries_append_blank {ws : Text} (h : Blank ws) (n : Nat) (t : Text) :
    entries n (ws ++ t) = entries n t := by
  cases n with
  | zero => rfl
  | succ n => rw [entries, entries, skipSpace_append h]

/-- The value is read back, whatever follows it, given the steps that its length calls for. -/
def Reads (sp : Spacing) (j : Json) : Prop :=
  ∀ n rest, 2 * (j.render sp).length ≤ n → Ends rest →
    value n (j.render sp ++ rest) = some (j, rest)

theorem reads_number {lexeme : Text} (h : IsNumeral lexeme) : Reads sp (.number lexeme) := by
  intro n rest hn hrest
  obtain ⟨c, t, ht, hspace, hc⟩ := h.head_cases
  have htoken := h.token rest hrest
  subst ht
  obtain ⟨m, rfl⟩ : ∃ m, n = m + 1 := ⟨n - 1, by simp [render] at hn; omega⟩
  have hatom : atom (c :: t ++ rest) = some (.number (c :: t), rest) := by
    have hw (w : String) (d : Char) (u : Text) (hw : w.toList = d :: u) (hd : c ≠ d) :
        after w (c :: t ++ rest) = none := by
      rw [after, hw]
      simp [rest?, hd.symm]
    rw [atom, hw "null" 'n' _ rfl (hc _ (by simp)), hw "true" 't' _ rfl (hc _ (by simp)),
      hw "false" 'f' _ rfl (hc _ (by simp)), htoken]
    rfl
  rw [render, value, List.cons_append, skipSpace_cons hspace, ← List.cons_append]
  split
  · exact absurd (List.cons.inj ‹_›).1 (hc _ (by simp))
  · exact absurd (List.cons.inj ‹_›).1 (hc _ (by simp))
  · exact absurd (List.cons.inj ‹_›).1 (hc _ (by simp))
  · exact hatom

theorem reads_string (t : Text) : Reads sp (.string (escape t)) := by
  intro n rest hn _
  obtain ⟨m, rfl⟩ : ∃ m, n = m + 1 := ⟨n - 1, by simp [render, quote] at hn; omega⟩
  have htext : render sp (.string (escape t)) ++ rest = '"' :: (escape t ++ '"' :: rest) := by
    simp [render, quote]
  rw [htext, value, skipSpace_cons (by decide)]
  simp only [stringToken_escape]
  rfl

/-- After an item come the bracket that ends the array or a comma and more of it. -/
theorem items_item {j : Json} (hj : Reads sp j) {n : Nat} {rest : Text}
    (hn : 2 * (j.render sp).length ≤ n) (hrest : Ends rest) :
    items (n + 1) (j.render sp ++ rest) = match skipSpace rest with
      | ']' :: t => some ([j], t)
      | ',' :: t => (items n t).bind fun x => some (j :: x.1, x.2)
      | _ => none := by
  rw [items, hj n rest hn hrest]
  rfl

theorem ends_items (hsp : sp.IsBlank) (js : List Json) (rest : Text) :
    Ends (renderItems sp js ++ (sp.closing ++ ']' :: rest)) := by
  cases js with
  | nil => exact hsp.closing.ends_append (ends_cons (by decide) _)
  | cons j js => exact ends_cons (by decide) _

theorem items_render (hsp : sp.IsBlank) {j : Json} {js : List Json}
    (h : ∀ i ∈ j :: js, Reads sp i) {n : Nat} (rest : Text)
    (hn : 2 * (j.render sp ++ renderItems sp js).length < n) :
    items n (j.render sp ++ (renderItems sp js ++ (sp.closing ++ ']' :: rest))) =
      some (j :: js, rest) := by
  obtain ⟨n, rfl⟩ : ∃ m, n = m + 1 := ⟨n - 1, by omega⟩
  rw [items_item (h j List.mem_cons_self) (by rw [List.length_append] at hn; omega)
    (ends_items hsp js rest)]
  induction js generalizing j n with
  | nil =>
      rw [renderItems, List.nil_append, skipSpace_append hsp.closing, skipSpace_cons (by decide)]
      rfl
  | cons i js ih =>
      have hmore : ∀ k ∈ i :: js, Reads sp k := fun k hk => h k (List.mem_cons_of_mem j hk)
      have htext : renderItems sp (i :: js) ++ (sp.closing ++ ']' :: rest) = ',' :: (sp.comma ++
          (i.render sp ++ (renderItems sp js ++ (sp.closing ++ ']' :: rest)))) := by
        simp [renderItems]
      simp only [renderItems, List.length_append, List.length_cons] at hn
      obtain ⟨n, rfl⟩ : ∃ m, n = m + 1 := ⟨n - 1, by omega⟩
      rw [htext, skipSpace_cons (by decide)]
      simp only [items_append_blank hsp.comma]
      rw [items_item (hmore i List.mem_cons_self) (by omega) (ends_items hsp js rest),
        ih hmore n (by rw [List.length_append]; omega)]
      rfl

/-- The text of an entry, without the comma before it. -/
def renderEntry (sp : Spacing) (e : Text × Json) : Text :=
  quote e.1 ++ ':' :: sp.colon ++ e.2.render sp

/-- After an entry come the brace that ends the object or a comma and more of it. -/
theorem entries_entry (hsp : sp.IsBlank) {e : Text × Json} (hkey : ∃ t, e.1 = escape t)
    (he : Reads sp e.2) {n : Nat} {rest : Text} (hn : 2 * (e.2.render sp).length ≤ n)
    (hrest : Ends rest) :
    entries (n + 1) (renderEntry sp e ++ rest) = match skipSpace rest with
      | '\x7d' :: t => some ([e], t)
      | ',' :: t => (entries n t).bind fun x => some (e :: x.1, x.2)
      | _ => none := by
  obtain ⟨lexeme, j⟩ := e
  obtain ⟨t, rfl⟩ := hkey
  have htext : renderEntry sp (escape t, j) ++ rest =
      '"' :: (escape t ++ '"' :: ':' :: (sp.colon ++ (j.render sp ++ rest))) := by
    simp [renderEntry, quote]
  have hj : value n (sp.colon ++ (j.render sp ++ rest)) = some (j, rest) :=
    (value_append_blank hsp.colon n _).trans (he n rest hn hrest)
  rw [htext, entries, skipSpace_cons (by decide)]
  simp only [stringToken_escape, Option.bind_eq_bind, Option.bind_some,
    skipSpace_cons (show isSpace ':' = false by decide), hj]
  rfl

theorem ends_entries (hsp : sp.IsBlank) (es : List (Text × Json)) (rest : Text) :
    Ends (renderEntries sp es ++ (sp.closing ++ '\x7d' :: rest)) := by
  cases es with
  | nil => exact hsp.closing.ends_append (ends_cons (by decide) _)
  | cons e es => exact ends_cons (by decide) _

theorem entries_render (hsp : sp.IsBlank) {e : Text × Json} {es : List (Text × Json)}
    (hkeys : ∀ d ∈ e :: es, ∃ t, d.1 = escape t) (h : ∀ d ∈ e :: es, Reads sp d.2) {n : Nat}
    (rest : Text) (hn : 2 * (renderEntry sp e ++ renderEntries sp es).length < n) :
    entries n (renderEntry sp e ++ (renderEntries sp es ++ (sp.closing ++ '\x7d' :: rest))) =
      some (e :: es, rest) := by
  have hlength (d : Text × Json) : (d.2.render sp).length ≤ (renderEntry sp d).length := by
    rw [renderEntry, List.length_append]
    omega
  obtain ⟨n, rfl⟩ : ∃ m, n = m + 1 := ⟨n - 1, by omega⟩
  have he := hlength e
  rw [entries_entry hsp (hkeys e List.mem_cons_self) (h e List.mem_cons_self)
    (by rw [List.length_append] at hn; omega) (ends_entries hsp es rest)]
  induction es generalizing e n with
  | nil =>
      rw [renderEntries, List.nil_append, skipSpace_append hsp.closing, skipSpace_cons (by decide)]
      rfl
  | cons d es ih =>
      have hkeys' : ∀ k ∈ d :: es, ∃ t, k.1 = escape t := fun k hk =>
        hkeys k (List.mem_cons_of_mem e hk)
      have hmore : ∀ k ∈ d :: es, Reads sp k.2 := fun k hk => h k (List.mem_cons_of_mem e hk)
      have hentries : renderEntries sp (d :: es) =
          ',' :: (sp.comma ++ (renderEntry sp d ++ renderEntries sp es)) := by
        simp [renderEntries, renderEntry]
      have hd := hlength d
      simp only [hentries, List.length_append, List.length_cons] at hn
      obtain ⟨n, rfl⟩ : ∃ m, n = m + 1 := ⟨n - 1, by omega⟩
      rw [hentries, List.cons_append, skipSpace_cons (by decide)]
      simp only [List.append_assoc, entries_append_blank hsp.comma]
      rw [entries_entry hsp (hkeys' d List.mem_cons_self) (hmore d List.mem_cons_self) (by omega)
        (ends_entries hsp es rest), ih hkeys' hmore n (by rw [List.length_append]; omega) hd]
      rfl

theorem value_array {n : Nat} {t rest : Text} {js : List Json} (ht : ∀ u, skipSpace t ≠ ']' :: u)
    (h : items n (skipSpace t) = some (js, rest)) :
    value (n + 1) ('[' :: t) = some (.array js, rest) := by
  rw [value, skipSpace_cons (by decide)]
  split
  · cases ‹_›
  · cases ‹_›
    split
    · exact absurd ‹_› (ht _)
    · rw [h]
      rfl
  · cases ‹_›
  · rename_i _ hbracket _
    exact (hbracket t rfl).elim

theorem value_object {n : Nat} {t rest : Text} {es : List (Text × Json)}
    (ht : ∀ u, skipSpace t ≠ '\x7d' :: u) (h : entries n (skipSpace t) = some (es, rest)) :
    value (n + 1) ('\x7b' :: t) = some (.object es, rest) := by
  rw [value, skipSpace_cons (by decide)]
  split
  · cases ‹_›
  · cases ‹_›
  · cases ‹_›
    split
    · exact absurd ‹_› (ht _)
    · rw [h]
      rfl
  · rename_i _ _ hbrace
    exact (hbrace t rfl).elim

theorem Written.reads (hsp : sp.IsBlank) {j : Json} (h : Written j) : Reads sp j := by
  induction h with
  | null =>
      intro n rest hn _
      obtain ⟨n, rfl⟩ : ∃ m, n = m + 1 := ⟨n - 1, by simp [render] at hn; omega⟩
      rfl
  | bool b =>
      intro n rest hn _
      obtain ⟨n, rfl⟩ : ∃ m, n = m + 1 := ⟨n - 1, by cases b <;> simp [render] at hn <;> omega⟩
      cases b <;> rfl
  | number h => exact reads_number h
  | string t => exact reads_string t
  | @array js h ih =>
      intro n rest hn _
      obtain ⟨n, rfl⟩ : ∃ m, n = m + 1 := ⟨n - 1, by cases js <;> simp [render] at hn <;> omega⟩
      cases js with
      | nil => rfl
      | cons j js =>
          have htext : render sp (.array (j :: js)) ++ rest = '[' :: (sp.opening ++
              (j.render sp ++ (renderItems sp js ++ (sp.closing ++ ']' :: rest)))) := by
            simp [render]
          obtain ⟨c, t, hc, hspace, hne, -⟩ := (h j List.mem_cons_self).render_head sp
          have hskip : skipSpace (sp.opening ++ (j.render sp ++ (renderItems sp js ++
              (sp.closing ++ ']' :: rest)))) = j.render sp ++ (renderItems sp js ++
              (sp.closing ++ ']' :: rest)) := by
            rw [skipSpace_append hsp.opening, hc, List.cons_append, skipSpace_cons hspace]
          rw [htext]
          refine value_array ?_ ?_
          · rw [hskip, hc]
            rintro u ⟨⟩
            exact hne rfl
          · rw [hskip]
            exact items_render hsp ih rest (by simp [render] at hn ⊢; omega)
  | @object es hkeys h ih =>
      intro n rest hn _
      obtain ⟨n, rfl⟩ : ∃ m, n = m + 1 := ⟨n - 1, by cases es <;> simp [render] at hn <;> omega⟩
      cases es with
      | nil => rfl
      | cons e es =>
          have htext : render sp (.object (e :: es)) ++ rest = '\x7b' :: (sp.opening ++
              (renderEntry sp e ++ (renderEntries sp es ++ (sp.closing ++ '\x7d' :: rest)))) := by
            simp [render, renderEntry]
          have hskip : skipSpace (sp.opening ++ (renderEntry sp e ++ (renderEntries sp es ++
              (sp.closing ++ '\x7d' :: rest)))) = renderEntry sp e ++ (renderEntries sp es ++
              (sp.closing ++ '\x7d' :: rest)) := by
            rw [skipSpace_append hsp.opening, renderEntry, quote]
            exact skipSpace_cons (by decide) _
          rw [htext]
          refine value_object ?_ ?_
          · rw [hskip]
            rintro u ⟨⟩
          · rw [hskip]
            exact entries_render hsp hkeys ih rest (by simp [render, renderEntry] at hn ⊢; omega)

/-- What a writer has written is read back, however it put white space in. -/
theorem parse_render (hsp : sp.IsBlank) {j : Json} (h : Written j) :
    parse (j.render sp) = some j := by
  have hj := h.reads hsp (2 * (j.render sp).length + 2) [] (by omega) ends_nil
  rw [List.append_nil] at hj
  rw [parse, hj]
  rfl

end Warboard.Json
