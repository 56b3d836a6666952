import Warboard.Proofs.Text.Words
import Warboard.Wire.Inbound

namespace Warboard

open Text

namespace Inbound

def tags : List String := ["[MY_MOVE]", "[INFO]", "[FOR_DB]"]

theorem read_prompt (rest : Text) :
    read ("[MY_MOVE]".toList ++ rest) = .prompt (firstWord rest) := by
  rw [read, after_append]

theorem read_info (rest : Text) :
    read ("[INFO]".toList ++ rest) = readInfo ("[INFO]".toList ++ rest) := by
  rw [read, startsWith, after_append]
  rfl

theorem read_forDb (rest : Text) : read ("[FOR_DB]".toList ++ rest) = readNote rest := by
  rw [read, after_append]
  rfl

theorem read_untagged {line : Text} (h : ∀ tag ∈ tags, startsWith tag line = false) :
    read line = .change line := by
  have hnone (tag : String) (htag : tag ∈ tags) : after tag line = none := by
    simpa [startsWith] using h tag htag
  rw [read, hnone "[MY_MOVE]" (by simp [tags]), hnone "[FOR_DB]" (by simp [tags]),
    h "[INFO]" (by simp [tags])]
  rfl

/-- The name that `Game stopped` and some more words end the game with. -/
def winnerOf (ws : List Text) : Text :=
  let winner := (ws[2]?.getD []).takeWhile (· ≠ ']')
  if winner = [] then "unknown".toList else winner

theorem winnerOf_bracket {v w winner : Text} (hne : winner ≠ []) (h : ']' ∉ winner) :
    winnerOf [v, w, winner ++ "]".toList] = winner := by
  have hbracket : (winner ++ "]".toList).takeWhile (· ≠ ']') = winner := by
    rw [takeWhile_append_of_head (by decide), List.takeWhile_eq_self_iff]
    exact fun c hc => decide_eq_true fun heq => h (heq ▸ hc)
  change (if (winner ++ "]".toList).takeWhile (· ≠ ']') = [] then _ else
    (winner ++ "]".toList).takeWhile (· ≠ ']')) = winner
  rw [hbracket, if_neg hne]

section Words

variable (gap : Gap)

theorem read_prompt_word {phase : Text} (hphase : Unbroken phase) :
    read ("[MY_MOVE]".toList ++ gap.spread [phase]) = .prompt phase := by
  rw [read_prompt, firstWord, gap.words_spread (by simpa using hphase)]
  rfl

theorem words_info {ws : List Text} (hws : ∀ w ∈ ws, Unbroken w) :
    words ("[INFO]".toList ++ gap.spread ws) = "[INFO]".toList :: ws :=
  gap.words_line (by decide) hws

theorem read_round {a b token : Text} (hws : ∀ w ∈ [a, b, token], Unbroken w) :
    read ("[INFO]".toList ++ gap.spread [a, b, token]) = .round token := by
  rw [read_info, readInfo, words_info gap hws]

theorem read_stopped {ws : List Text} (hws : ∀ w ∈ ws, Unbroken w) (hlength : ws.length ≠ 1) :
    read ("[INFO]".toList ++ gap.spread ("Game".toList :: "stopped".toList :: ws)) =
      .gameStopped (winnerOf ws) := by
  have hall : ∀ w ∈ "Game".toList :: "stopped".toList :: ws, Unbroken w :=
    List.forall_mem_cons.2 ⟨by decide, List.forall_mem_cons.2 ⟨by decide, hws⟩⟩
  rw [read_info, readInfo, words_info gap hall]
  -- The case to be kept out is that of four words, which are read as a round.
  cases ws with
  | nil => rfl
  | cons v ws =>
      cases ws with
      | nil => exact absurd rfl hlength
      | cons w ws =>
          simp only [winnerOf, List.getElem?_cons_succ, List.getElem?_cons_zero, if_true]
          generalize (ws[0]?.getD []).takeWhile (· ≠ ']') = winner
          cases winner <;> rfl

theorem read_victory {winner : Text} (hwinner : Unbroken winner) (h : ']' ∉ winner) :
    read ("[INFO]".toList ++ gap.spread ["Game".toList, "stopped".toList, "[PlayerId".toList,
      "named:".toList, winner ++ "]".toList]) = .gameStopped winner := by
  have hlast : Unbroken (winner ++ "]".toList) := hwinner.append_right (by decide)
  rw [read_stopped gap (List.forall_mem_cons.2 ⟨by decide, List.forall_mem_cons.2 ⟨by decide,
    List.forall_mem_singleton.2 hlast⟩⟩) (Nat.succ_succ_ne_one 1), winnerOf_bracket hwinner.1 h]

variable {phase tail : Text}

theorem note_parts (hphase : Unbroken phase) (htail : trim tail = tail) :
    (trimStart (gap.spread [phase, tail])).takeWhile (fun c => !isBlank c) = phase ∧
      trim ((trimStart (gap.spread [phase, tail])).dropWhile fun c => !isBlank c) = tail := by
  rw [gap.trimStart_spread hphase, gap.takeWhile_spread hphase, gap.dropWhile_spread hphase,
    gap.trim_spread]
  exact ⟨rfl, htail⟩

variable {player : Text}

theorem read_purchaseAhead (hplayer : Unbroken player) :
    read ("[FOR_DB]".toList ++ gap.spread ["purchase".toList, player]) =
      .purchaseAhead player := by
  have hpurchase : Unbroken "purchase".toList := by decide
  obtain ⟨hword, hrest⟩ := note_parts gap hpurchase hplayer.trim_eq
  rw [read_forDb, readNote, hword, hrest, if_pos rfl, firstWord_unbroken hplayer]

theorem read_note (hphase : Unbroken phase) (hplayer : Unbroken player)
    (h : phase ∉ ["purchase".toList, "chosen".toList]) :
    read ("[FOR_DB]".toList ++ gap.spread [phase, player]) = .note phase player := by
  obtain ⟨hword, hrest⟩ := note_parts gap hphase hplayer.trim_eq
  obtain ⟨hpurchase, hchosen⟩ : phase ≠ "purchase".toList ∧ phase ≠ "chosen".toList := by
    simpa using h
  rw [read_forDb, readNote, hword, hrest, if_neg hpurchase, if_neg hchosen,
    firstWord_unbroken hplayer]

theorem read_purchaseMade {text : Text} (hplayer : Unbroken player) (hcolon : ':' ∉ player)
    (htext : trim text = text) :
    read ("[FOR_DB]".toList ++ gap.spread ["chosen".toList, player ++ ("::".toList ++ text)]) =
      .purchaseMade player text := by
  have hcut : cutAt "::" (player ++ ("::".toList ++ text)) = some (player, text) := by
    rw [cutAt_append_of_not_mem rfl hcolon, cutAt_append_self]
    simp
  have hstop : Stops ("::".toList ++ text) := by
    by_cases hempty : text = []
    · exact hempty ▸ ⟨[':'], ':', rfl, by decide⟩
    · exact Stops.append _ (htext ▸ stops_trim (htext.symm ▸ hempty))
  have htrim : trim (player ++ ("::".toList ++ text)) = player ++ ("::".toList ++ text) :=
    (hplayer.starts.append _).trim_eq (Stops.append player hstop)
  have hchosen : Unbroken "chosen".toList := by decide
  obtain ⟨hword, hrest⟩ := note_parts gap hchosen htrim
  rw [read_forDb, readNote, hword, hrest, if_neg (by decide), if_pos rfl, hcut]
  exact congrArg₂ Inbound.purchaseMade hplayer.trim_eq htext

end Words

end Inbound

/-- What the engine has to say, in the parts that its line is made of. -/
inductive Message
  | prompt (phase : Word)
  | round (a b token : Word)
  | victory (winner : Word) (h : ']' ∉ winner.text)
  /-- The end of the game in any other words. With one word more than the two that say so the line
  would be taken for a round. -/
  | stop (further : List Word) (h : further.length ≠ 1)
  | purchaseAhead (player : Word)
  | purchaseMade (player : Word) (text : Text) (hplayer : ':' ∉ player.text)
    (htext : trim text = text)
  | note (phase player : Word) (h : phase.text ∉ ["purchase".toList, "chosen".toList])
  | change (line : Text) (h : ∀ tag ∈ Inbound.tags, startsWith tag line = false)

namespace Message

/-- The line that says it, with the same white space between all its words. -/
def line (gap : Gap) : Message → Text
  | prompt phase => "[MY_MOVE]".toList ++ gap.spread [phase.text]
  | round a b token => "[INFO]".toList ++ gap.spread [a.text, b.text, token.text]
  | victory winner _ => "[INFO]".toList ++ gap.spread ["Game".toList, "stopped".toList,
      "[PlayerId".toList, "named:".toList, winner.text ++ "]".toList]
  | stop further _ => "[INFO]".toList ++
      gap.spread ("Game".toList :: "stopped".toList :: further.map fun w => w.text)
  | purchaseAhead player => "[FOR_DB]".toList ++ gap.spread ["purchase".toList, player.text]
  | purchaseMade player text _ _ =>
    "[FOR_DB]".toList ++ gap.spread ["chosen".toList, player.text ++ ("::".toList ++ text)]
  | note phase player _ => "[FOR_DB]".toList ++ gap.spread [phase.text, player.text]
  | change line _ => line

def meaning : Message → Inbound
  | prompt phase => .prompt phase.text
  | round _ _ token => .round token.text
  | victory winner _ => .gameStopped winner.text
  | stop further _ => .gameStopped (Inbound.winnerOf (further.map fun w => w.text))
  | purchaseAhead player => .purchaseAhead player.text
  | purchaseMade player text _ _ => .purchaseMade player.text text
  | note phase player _ => .note phase.text player.text
  | change line _ => .change line

theorem unbroken_map (ws : List Word) : ∀ w ∈ ws.map fun w => w.text, Unbroken w := by
  rw [List.forall_mem_map]
  exact fun w _ => w.unbroken

/-- Whatever white space stands between its words, a line is read as the message it was made
from. -/
theorem read_line (gap : Gap) (m : Message) : Inbound.read (m.line gap) = m.meaning := by
  cases m with
  | prompt phase => exact Inbound.read_prompt_word gap phase.unbroken
  | round a b token => exact Inbound.read_round gap (unbroken_map [a, b, token])
  | victory winner h => exact Inbound.read_victory gap winner.unbroken h
  | stop further h =>
      exact Inbound.read_stopped gap (unbroken_map further) (by rwa [List.length_map])
  | purchaseAhead player => exact Inbound.read_purchaseAhead gap player.unbroken
  | purchaseMade player text hplayer htext =>
      exact Inbound.read_purchaseMade gap player.unbroken hplayer htext
  | note phase player h => exact Inbound.read_note gap phase.unbroken player.unbroken h
  | change line h => exact Inbound.read_untagged h

example : (victory (Token.ofString "Russians" (by decide)) (by decide)).line
    (Token.ofString " " (by decide)) =
      "[INFO] Game stopped [PlayerId named: Russians]".toList := by
  decide

end Message

end Warboard
