import Mathlib.Data.List.ReduceOption
import Warboard.Map.Builder
import Warboard.Proofs.Session.Chunks
import Warboard.Proofs.Session.Run
import Warboard.Proofs.Text.Octets
import Warboard.Proofs.Wire.Response

namespace Warboard.Session

open Checked

/-- What is written for the answers, each on a line of its own. -/
def written (rs : List (Option Response)) : Text :=
  rs.reduceOption.flatMap fun r => r.toLine ++ ['\n']

variable {σ : Type} {p : Picker σ} {s t : Session σ}

theorem written_cons_none (rs : List (Option Response)) : written (none :: rs) = written rs := rfl

theorem written_cons_some (r : Response) (rs : List (Option Response)) :
    written (some r :: rs) = r.toLine ++ '\n' :: written rs := by
  rw [written, List.reduceOption_cons_of_some, List.flatMap_cons, List.append_assoc]
  rfl

theorem written_append (qs rs : List (Option Response)) :
    written (qs ++ rs) = written qs ++ written rs := by
  rw [written, List.reduceOption_append, List.flatMap_append]
  rfl

theorem count_newline_written (rs : List (Option Response)) :
    (written rs).count '\n' = rs.reduceOption.length := by
  rw [written]
  induction rs.reduceOption with
  | nil => rfl
  | cons r rs ih =>
      rw [List.flatMap_cons, List.count_append, List.count_append, ih,
        List.count_eq_zero_of_not_mem r.newline_not_mem_toLine, List.length_cons]
      simp [Nat.add_comm]

theorem answered_iff {line : Text} {r : Option Response} (h : s.handle p line = .ok (r, t)) :
    r = none ↔ Text.trim line = [] := by
  rw [handle] at h
  split at h
  · rename_i hline
    cases h
    simp [hline]
  · rename_i c l hline
    obtain ⟨x, -, h⟩ := bind_eq_ok_iff.mp h
    cases h
    simp [hline]

theorem run_answered {lines : List Text} {rs : List (Option Response)}
    (h : run p lines s = .ok (rs, t)) :
    List.Forall₂ (fun line r => r = none ↔ Text.trim line = []) lines rs := by
  induction lines generalizing s rs with
  | nil => cases h; exact .nil
  | cons line lines ih =>
      rw [run_cons, bind_eq_ok_iff] at h
      obtain ⟨⟨r, u⟩, hu, h⟩ := h
      obtain ⟨⟨rs', t'⟩, hrun, h⟩ := bind_eq_ok_iff.mp h
      cases h
      exact .cons (answered_iff hu) (ih hrun)

theorem serveLines_none (lines : List Text) (s : Session σ) :
    serveLines p none lines s = (run p lines s).map fun x => (⟨true, written x.1⟩, x.2) := by
  induction lines generalizing s with
  | nil => rfl
  | cons line lines ih =>
      rw [serveLines, run_cons]
      cases s.handle p line with
      | error e => rfl
      | ok x =>
          obtain ⟨r, u⟩ := x
          cases r with
          | none =>
              change serveLines p none lines u = (run p lines u >>= _ : Checked _).map _
              rw [ih]
              cases run p lines u <;> rfl
          | some r =>
              change (serveLines p none lines u >>= _) = (run p lines u >>= _ : Checked _).map _
              rw [ih]
              cases run p lines u with
              | error e => rfl
              | ok y =>
                  simp only [Except.map, bind, Except.bind, pure, Except.pure, written_cons_some]

theorem run_cons_eq_ok_iff {line : Text} {lines : List Text} {r : Option Response} {u : Session σ}
    (h : s.handle p line = .ok (r, u)) {rs : List (Option Response)} :
    run p (line :: lines) s = .ok (rs, t) ↔
      ∃ rs', rs = r :: rs' ∧ run p lines u = .ok (rs', t) := by
  rw [run_cons, h]
  change (run p lines u >>= _) = _ ↔ _
  rw [bind_eq_ok_iff]
  constructor
  · rintro ⟨⟨rs', t'⟩, hrun, he⟩
    cases he
    exact ⟨rs', rfl, hrun⟩
  · rintro ⟨rs', rfl, hrun⟩
    exact ⟨(rs', t), hrun, rfl⟩

theorem serveLines_cons_none {line : Text} {u : Session σ} (h : s.handle p line = .ok (none, u))
    (limit : Option Nat) (lines : List Text) :
    serveLines p limit (line :: lines) s = serveLines p limit lines u := by
  rw [serveLines, h]
  rfl

theorem serveLines_cons_zero {line : Text} {r : Response} {u : Session σ}
    (h : s.handle p line = .ok (some r, u)) (lines : List Text) :
    serveLines p (some 0) (line :: lines) s = .ok (⟨false, []⟩, u) := by
  rw [serveLines, h]
  rfl

theorem serveLines_cons_succ {line : Text} {r : Response} {u : Session σ}
    (h : s.handle p line = .ok (some r, u)) (n : Nat) (lines : List Text) :
    serveLines p (some (n + 1)) (line :: lines) s = serveLines p (some n) lines u >>= fun x =>
      return (⟨x.1.ok, r.toLine ++ '\n' :: x.1.output⟩, x.2) := by
  rw [serveLines, h]
  rfl

/-- A writer that fails after the last answer is never found out. -/
theorem serveLines_of_le {lines : List Text} {rs : List (Option Response)} {n : Nat}
    (h : run p lines s = .ok (rs, t)) (hn : rs.reduceOption.length ≤ n) :
    serveLines p (some n) lines s = .ok (⟨true, written rs⟩, t) := by
  induction lines generalizing s rs n with
  | nil => cases h; rfl
  | cons line lines ih =>
      cases hline : s.handle p line with
      | error e => rw [run_cons, hline] at h; cases h
      | ok x =>
          obtain ⟨r, u⟩ := x
          obtain ⟨rs, rfl, hrun⟩ := (run_cons_eq_ok_iff hline).1 h
          cases r with
          | none => rw [serveLines_cons_none hline, ih hrun hn, written_cons_none]
          | some r =>
              rw [List.reduceOption_cons_of_some, List.length_cons] at hn
              obtain ⟨m, rfl⟩ := Nat.exists_eq_add_of_le' (Nat.lt_of_lt_of_le (Nat.succ_pos _) hn)
              rw [serveLines_cons_succ hline, ih hrun (Nat.le_of_succ_le_succ hn),
                written_cons_some]
              rfl

/-- A writer that fails earlier ends the connection with the first answer that it does not take. -/
theorem serveLines_of_lt {lines : List Text} {rs : List (Option Response)} {n : Nat}
    (h : run p lines s = .ok (rs, t)) (hn : n < rs.reduceOption.length) :
    ∃ before line after qs r rest u, lines = before ++ line :: after ∧ rs = qs ++ some r :: rest ∧
      run p (before ++ [line]) s = .ok (qs ++ [some r], u) ∧ qs.reduceOption.length = n ∧
      serveLines p (some n) lines s = .ok (⟨false, written qs⟩, u) := by
  induction lines generalizing s rs n with
  | nil => cases h; exact absurd hn (Nat.not_lt_zero n)
  | cons line lines ih =>
      cases hline : s.handle p line with
      | error e => rw [run_cons, hline] at h; cases h
      | ok x =>
          obtain ⟨r, u⟩ := x
          obtain ⟨rs, rfl, hrun⟩ := (run_cons_eq_ok_iff hline).1 h
          cases r with
          | none =>
              -- A blank line takes nothing from what the writer can still take.
              obtain ⟨before, line', after, qs, r, rest, v, rfl, rfl, hcut, hqs, hserve⟩ :=
                ih hrun hn
              refine ⟨line :: before, line', after, none :: qs, r, rest, v, rfl, rfl, ?_, hqs, ?_⟩
              · exact (run_cons_eq_ok_iff hline).2 ⟨_, rfl, hcut⟩
              · rw [serveLines_cons_none hline, hserve, written_cons_none]
          | some r =>
              cases n with
              | zero =>
                  refine ⟨[], line, lines, [], r, rs, u, rfl, rfl, ?_, rfl, ?_⟩
                  · exact (run_cons_eq_ok_iff hline).2 ⟨[], rfl, rfl⟩
                  · exact serveLines_cons_zero hline lines
              | succ n =>
                  rw [List.reduceOption_cons_of_some, List.length_cons] at hn
                  obtain ⟨before, line', after, qs, r', rest, v, rfl, rfl, hcut, hqs, hserve⟩ :=
                    ih hrun (Nat.lt_of_succ_lt_succ hn)
                  refine ⟨line :: before, line', after, some r :: qs, r', rest, v, rfl, rfl, ?_, ?_,
                    ?_⟩
                  · exact (run_cons_eq_ok_iff hline).2 ⟨_, rfl, hcut⟩
                  · rw [List.reduceOption_cons_of_some, List.length_cons, hqs]
                  · rw [serveLines_cons_succ hline, hserve, written_cons_some]
                    rfl

def linesOf (input : List UInt8) : List Text := (chunks input).map Text.ofOctetsLossy

theorem length_reduceOption_of_answered {lines : List Text} {rs : List (Option Response)}
    (h : List.Forall₂ (fun line r => r = none ↔ Text.trim line = []) lines rs) :
    rs.reduceOption.length = lines.countP fun line => Text.trim line ≠ [] := by
  induction h with
  | nil => rfl
  | @cons line r lines rs hline _ ih =>
      cases r with
      | none =>
          have hblank : Text.trim line = [] := hline.1 rfl
          rw [List.reduceOption_cons_of_none, ih, List.countP_cons_of_neg (by simp [hblank])]
      | some r =>
          have hblank : Text.trim line ≠ [] := fun h => by cases hline.2 h
          rw [List.reduceOption_cons_of_some, List.length_cons, ih,
            List.countP_cons_of_pos (by simp [hblank])]

/-- A connection is served line by line. The input is cut after each newline; each line that is not
blank has its answer, in order and on one line; the input may come in two connections, if the first
ends with a line; and a writer that fails ends the connection at the first answer that it does not
take, with that line handled. -/
theorem serve_line_by_line {input : List UInt8} {rs : List (Option Response)}
    (h : run p (linesOf input) s = .ok (rs, t)) :
    (∀ cs, Chunked input cs ↔ cs = chunks input) ∧
    List.Forall₂ (fun line r => r = none ↔ Text.trim line = []) (linesOf input) rs ∧
    serve p none input s = .ok (⟨true, written rs⟩, t) ∧
    (Text.toOctets (written rs)).count 10 =
      ((linesOf input).countP fun line => Text.trim line ≠ []) ∧
    (∀ a b, input = a ++ b → a = [] ∨ a.getLast? = some 10 → ∃ out u out',
      serve p none a s = .ok (⟨true, out⟩, u) ∧ serve p none b u = .ok (⟨true, out'⟩, t) ∧
      written rs = out ++ out') ∧
    (∀ n, rs.reduceOption.length ≤ n → serve p (some n) input s = .ok (⟨true, written rs⟩, t)) ∧
    ∀ n, n < rs.reduceOption.length → ∃ before line after qs r rest u,
      linesOf input = before ++ line :: after ∧ rs = qs ++ some r :: rest ∧
      run p (before ++ [line]) s = .ok (qs ++ [some r], u) ∧ qs.reduceOption.length = n ∧
      serve p (some n) input s = .ok (⟨false, written qs⟩, u) := by
  have hanswered := run_answered h
  refine ⟨fun cs => ?_, hanswered, ?_, ?_, ?_, fun n => serveLines_of_le h,
    fun n => serveLines_of_lt h⟩
  · constructor
    · exact Chunked.eq_chunks
    · rintro rfl
      exact chunked_chunks input
  · exact (serveLines_none (linesOf input) s).trans (by rw [h]; rfl)
  · rw [Text.count_newline_toOctets, count_newline_written,
      length_reduceOption_of_answered hanswered]
  · rintro a b rfl hab
    have hlines : linesOf (a ++ b) = linesOf a ++ linesOf b := by
      rw [linesOf, chunks_append hab, List.map_append]
      rfl
    rw [hlines, run_append_eq, bind_eq_ok_iff] at h
    obtain ⟨⟨qs, u⟩, ha, h⟩ := h
    obtain ⟨⟨qs', v⟩, hb, h⟩ := bind_eq_ok_iff.mp h
    cases h
    refine ⟨written qs, u, written qs', ?_, ?_, written_append qs qs'⟩
    · exact (serveLines_none (linesOf a) s).trans (by rw [ha]; rfl)
    · exact (serveLines_none (linesOf b) u).trans (by rw [hb]; rfl)

/-- A harbour whose name has a line break in it. -/
def harbour : MapRecord :=
  MapRecord.empty
    |>.addTerritory "Ural\nEast" "Red"
    |>.addPlayer "Red" 3
    |>.addCost "infantry" 3
    |>.placeFactory "Ural\nEast" "Red"

/-- Carriage returns, a blank line, an octet that is no text, and no newline at the end. -/
def greeting : List UInt8 :=
  Text.toOctets "Role: Red\r\n \t\r\n".toList ++
    0xFF :: Text.toOctets "noise\n[MY_MOVE] purchase".toList

def hushed (w : World) : Session UInt64 := .new w ⟨none, ∅, 0, false⟩ .empty 0

theorem serve_line_by_line_greeting : ∃ w rs t, World.ofRecord harbour = .ok w ∧
    run .random (linesOf greeting) (hushed w) = .ok (rs, t) ∧
    rs = [some .acknowledged, none, some .acknowledged,
      some (.actions [⟨.purchase, "", "Ural\nEast", "infantry"⟩])] ∧
    serve .random none greeting (hushed w) = .ok (⟨true, written rs⟩, t) ∧
    (Text.toOctets (written rs)).count 10 = 3 ∧
    ∃ qs u, qs.reduceOption.length = 1 ∧
      serve .random (some 1) greeting (hushed w) = .ok (⟨false, written qs⟩, u) := by
  have hrun : ((World.ofRecord harbour >>= fun w =>
      run .random (linesOf greeting) (hushed w)).map Prod.fst).toOption =
        some [some .acknowledged, none, some .acknowledged,
          some (.actions [⟨.purchase, "", "Ural\nEast", "infantry"⟩])] := by
    decide +kernel
  obtain ⟨⟨rs, t⟩, hrun, hrs⟩ := exists_ok_of_map hrun
  obtain ⟨w, hw, hrun⟩ := bind_eq_ok_iff.mp hrun
  obtain rfl : rs = _ := hrs
  obtain ⟨-, -, hserve, -, -, -, hbroken⟩ := serve_line_by_line hrun
  obtain ⟨-, -, -, qs, -, -, u, -, -, -, hqs, hcut⟩ := hbroken 1 (by decide)
  refine ⟨w, _, t, hw, hrun, rfl, hserve, ?_, qs, u, hqs, hcut⟩
  rw [Text.count_newline_toOctets, count_newline_written]
  rfl

end Warboard.Session
