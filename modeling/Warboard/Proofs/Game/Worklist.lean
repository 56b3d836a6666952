import Mathlib.Data.List.Flatten
import Warboard.Proofs.Change.Balance
import Warboard.Proofs.Change.Expansion
import Warboard.Proofs.Change.Pieces
import Warboard.Proofs.Checked
import Warboard.Text.Octets

namespace Warboard

namespace Text

def octets (t : Text) : Nat := (toOctets t).length

theorem octets_append (t u : Text) : octets (t ++ u) = octets t + octets u := by
  rw [octets, toOctets, List.flatMap_append, List.length_append]
  rfl

theorem octets_le_of_sublist {t u : Text} (h : t.Sublist u) : octets t ≤ octets u :=
  (h.flatMap String.utf8EncodeChar).length_le

theorem trim_sublist (t : Text) : (trim t).Sublist t := by
  have hstart : (trimStart t).Sublist t := List.dropWhile_sublist isBlank
  have hend : ((trimStart t).reverse.dropWhile isBlank).Sublist (trimStart t).reverse :=
    List.dropWhile_sublist isBlank
  exact (List.reverse_sublist.mp (by simpa [trim, trimEnd, dropEndWhile] using hend)).trans hstart

theorem exists_not_blank {t : Text} (h : trim t ≠ []) : ∃ c ∈ trim t, isBlank c = false := by
  obtain ⟨u, c, ht, hc⟩ := stops_trim h
  exact ⟨c, by simp [ht], hc⟩

end Text

open Text

namespace Change

/-- The octets of the texts, and two more for each text. -/
def load (ts : List Text) : Nat := (ts.map fun t => octets t + 2).sum

theorem load_cons (t : Text) (ts : List Text) : load (t :: ts) = octets t + 2 + load ts := rfl

theorem load_singleton (t : Text) : load [t] = octets t + 2 := rfl

theorem load_append (ts us : List Text) : load (ts ++ us) = load ts + load us := by
  rw [load, List.map_append, List.sum_append]
  rfl

/-- The two octets for a text stand for the separator before the next. -/
theorem load_eq_of_joined {ts : List Text} (h : ts ≠ []) :
    load ts = octets (Tree.separator.intercalate ts) + 2 := by
  induction ts with
  | nil => exact absurd rfl h
  | cons t ts ih =>
      by_cases hts : ts = []
      · subst hts
        rw [load_singleton, List.intercalate_singleton]
      · have hseparator : octets Tree.separator = 2 := rfl
        rw [load_cons, ih hts, joined_cons hts, octets_append, octets_append, hseparator]
        omega

theorem load_tidied_le (ts : List Text) : load (tidied ts) ≤ load ts := by
  induction ts with
  | nil => exact le_refl 0
  | cons t ts ih =>
      have ht : load (tidied [t]) ≤ octets t + 2 := by
        have htrim := octets_le_of_sublist (trim_sublist t)
        by_cases hblank : (trim t).isEmpty <;> simp [tidied, hblank, load, htrim]
      rw [tidied_cons, load_append, load_cons]
      omega

theorem load_siblings_le (inner : Text) : load (siblings inner) ≤ octets inner + 2 :=
  calc load (siblings inner) ≤ load (pieces inner) := load_tidied_le (pieces inner)
    _ = octets inner + 2 := by
      rw [load_eq_of_joined (cutInto_pieces inner).nonempty, (cutInto_pieces inner).joined]

theorem octets_inner_le {line : Text} {block : Block} (h : Block.extract line = some block) :
    octets block.inner + 2 ≤ octets line := by
  obtain ⟨before, rest, rfl, -, rfl⟩ := exists_of_extract h
  have hinner : (Block.upTo 0 rest).inner.Sublist rest := by
    rcases upTo_spec 0 rest with ⟨inner, rest', hblock, rfl, -⟩ | ⟨hblock, -⟩
    · rw [hblock]
      exact List.sublist_append_left inner _
    · rw [hblock]
  have hmarker : octets "<[".toList = 2 := rfl
  have hle := octets_le_of_sublist hinner
  rw [octets_append, octets_append, hmarker]
  omega

section Fragments

variable {line : Text} {fragments : List Text} {closed : Bool}

theorem exists_block_of_read (h : read line = .ok (.composite fragments closed)) :
    ∃ block, Block.extract (trim line) = some block ∧ fragments = siblings block.inner := by
  rw [read, readTrimmed] at h
  split at h
  · cases h
  split at h
  · cases h
  split at h
  · split at h
    · rename_i block hblock
      cases h
      exact ⟨block, hblock, rfl⟩
    · cases h
  · cases hsingle : readSingle (trim line) <;> simp [hsingle, Except.map] at h

theorem load_fragments_le (h : read line = .ok (.composite fragments closed)) :
    load fragments ≤ octets line := by
  obtain ⟨block, hblock, rfl⟩ := exists_block_of_read h
  have hinner := octets_inner_le hblock
  have hsiblings := load_siblings_le block.inner
  have htrim := octets_le_of_sublist (trim_sublist line)
  omega

theorem filter_fragments (h : read line = .ok (.composite fragments closed)) :
    (fragments.filter fun t => !(trim t).isEmpty) = fragments := by
  obtain ⟨block, -, rfl⟩ := exists_block_of_read h
  refine List.filter_eq_self.mpr fun t ht => ?_
  obtain ⟨ht, hne⟩ := List.mem_filter.mp ht
  obtain ⟨u, -, rfl⟩ := List.mem_map.mp ht
  obtain ⟨c, hc, hblank⟩ := exists_not_blank (t := u) (by simpa using hne)
  have hmem := mem_trim hc hblank
  simpa using List.ne_nil_of_mem hmem

end Fragments

end Change

namespace Game

open Change

/-- What reading the next text makes of the game, and what is to be read in place of the text. -/
def consume (g : Game) (t : Text) : Checked (Game × List Text) :=
  match read t with
  | .ok (.composite fragments _) => .ok (g, fragments.filter fun t => !(trim t).isEmpty)
  | .ok (.single event) => do return (← g.applyEvent event, [])
  | .error _ => .ok (g, [])

theorem load_of_consume {g g' : Game} {t : Text} {new : List Text}
    (h : g.consume t = .ok (g', new)) : load new ≤ octets t := by
  rw [consume] at h
  split at h
  · rename_i fragments closed hread
    rw [filter_fragments hread] at h
    cases h
    exact load_fragments_le hread
  · obtain ⟨g'', -, h⟩ := Checked.bind_eq_ok_iff.1 h
    cases h
    exact Nat.zero_le _
  · cases h
    exact Nat.zero_le _

theorem apply_eq_consume (g : Game) (t : Text) :
    g.apply t = g.consume t >>= fun (g', new) => new.foldlM apply g' := by
  rw [apply, leaves, events_cons, consume]
  cases hread : read t with
  | error e => rw [events]; rfl
  | ok notice =>
      cases notice with
      | single event =>
          rw [events]
          simp only [List.foldlM_cons, List.foldlM_nil, bind_assoc, pure_bind]
      | composite fragments closed =>
          simp only [List.append_nil, filter_fragments hread, events_eq_flatMap,
            foldlM_flatMap_leaves]
          rfl

theorem consume_of_composite (g : Game) {line : Text} {fragments : List Text} {closed : Bool}
    (h : read line = .ok (.composite fragments closed)) : g.consume line = .ok (g, fragments) := by
  rw [consume, h]
  simp only [filter_fragments h]

/-- The loop that a line is applied by, between two texts: the game so far, and the texts that are
still to be read, the next one first. -/
structure Work where
  game : Game
  texts : List Text

namespace Work

/-- One turn of the loop. -/
inductive Turn : Work → Work → Prop
  | next {g g' : Game} {t : Text} {ts new : List Text} (h : g.consume t = .ok (g', new)) :
    Turn ⟨g, t :: ts⟩ ⟨g', new ++ ts⟩

abbrev Reaches : Work → Work → Prop := Relation.ReflTransGen Turn

/-- How the loop ends; none if it reads more than the number of texts. -/
def run : Nat → Work → Option (Checked Game)
  | _, ⟨g, []⟩ => some (.ok g)
  | 0, ⟨_, _ :: _⟩ => none
  | n + 1, ⟨g, t :: ts⟩ => match g.consume t with
    | .ok (g', new) => run n ⟨g', new ++ ts⟩
    | .error e => some (.error e)

theorem Turn.load_lt {w w' : Work} (h : Turn w w') : load w'.texts + 2 ≤ load w.texts := by
  cases h with
  | next h =>
      have hnew := load_of_consume h
      rw [load_append, load_cons]
      omega

theorem Reaches.load_le {w w' : Work} (h : Reaches w w') : load w'.texts ≤ load w.texts := by
  induction h with
  | refl => exact le_refl _
  | tail _ hturn ih =>
      have hlt := hturn.load_lt
      omega

/-- Half the load is enough turns, and the texts are applied one after the other. -/
theorem run_eq {n : Nat} {g : Game} {ts : List Text} (hn : load ts ≤ 2 * n + 1) :
    run n ⟨g, ts⟩ = some (ts.foldlM apply g) := by
  induction n generalizing g ts with
  | zero =>
      cases ts with
      | nil => rfl
      | cons t ts =>
          rw [load_cons] at hn
          omega
  | succ n ih =>
      cases ts with
      | nil => rfl
      | cons t ts =>
          rw [run, List.foldlM_cons, apply_eq_consume]
          cases hconsume : g.consume t with
          | error e => rfl
          | ok next =>
              obtain ⟨g', new⟩ := next
              have hlt : load (new ++ ts) + 2 ≤ load (t :: ts) := (Turn.next hconsume).load_lt
              have hlater := @ih g' (new ++ ts) (by omega)
              rw [List.foldlM_append] at hlater
              exact hlater

/-- The loop comes to the texts that are last in the work with the game that the others make. -/
theorem reaches_iff {g g' : Game} {ts us : List Text} :
    Reaches ⟨g, ts ++ us⟩ ⟨g', us⟩ ↔ ts.foldlM apply g = .ok g' := by
  constructor
  · intro h
    generalize hw : (⟨g, ts ++ us⟩ : Work) = w at h
    induction h using Relation.ReflTransGen.head_induction_on generalizing g ts with
    | refl =>
        obtain ⟨rfl, hts⟩ := Work.mk.inj hw
        obtain rfl := List.append_left_eq_self.mp hts
        rfl
    | head hturn hreaches ih =>
        subst hw
        have hlt := hturn.load_lt
        have hle := Reaches.load_le hreaches
        cases ts with
        | nil =>
            simp only [List.nil_append] at hlt hle
            omega
        | cons t ts =>
            cases hturn with
            | next hconsume =>
                rw [List.foldlM_cons, apply_eq_consume, hconsume]
                have hlater := ih (congrArg (Work.mk _) (List.append_assoc _ ts us))
                rwa [List.foldlM_append] at hlater
  · intro h
    induction hn : load ts using Nat.strong_induction_on generalizing g ts with
    | _ n ih =>
        cases ts with
        | nil =>
            cases h
            exact .refl
        | cons t ts =>
            rw [List.foldlM_cons, apply_eq_consume] at h
            obtain ⟨g₂, happly, hlater⟩ := Checked.bind_eq_ok_iff.1 h
            obtain ⟨⟨g₁, new⟩, hconsume, hnew⟩ := Checked.bind_eq_ok_iff.1 happly
            have hlt : load (new ++ ts) + 2 ≤ load (t :: ts) := (Turn.next hconsume).load_lt
            have hrest : (new ++ ts).foldlM apply g₁ = .ok g' := by
              rw [List.foldlM_append]
              exact Checked.bind_eq_ok_iff.2 ⟨g₂, hnew, hlater⟩
            have hreaches := ih (load (new ++ ts)) (by omega) hrest rfl
            rw [List.append_assoc] at hreaches
            exact .head (.next hconsume) hreaches

theorem reaches_composite_iff {g g' : Game} {line : Text} {before after : List Text} {closed : Bool}
    (h : read line = .ok (.composite (before ++ after) closed)) :
    Reaches ⟨g, [line]⟩ ⟨g', after⟩ ↔ Reaches ⟨g, before ++ after⟩ ⟨g', after⟩ := by
  have hconsume := g.consume_of_composite h
  constructor
  · intro hreaches
    obtain hw | ⟨w, hturn, hreaches⟩ := hreaches.cases_head
    · have hload := load_fragments_le h
      obtain ⟨-, rfl⟩ := Work.mk.inj hw
      rw [load_append, load_singleton] at hload
      omega
    · cases hturn with
      | next hturn =>
          rw [hconsume] at hturn
          cases hturn
          simpa using hreaches
  · intro hreaches
    refine .head (.next hconsume) ?_
    simpa using hreaches

end Work

/-- The loop ends after at most one reading for every two octets of the line, and one more. If the line
is a batch, it has the effect of its fragments one after the other: with the game that those before
make, and with no other, the loop comes to the fragments that are left, and it fails if and where one
of them does. -/
theorem apply_composite (g : Game) (line : Text) :
    Work.run (octets line / 2 + 1) ⟨g, [line]⟩ = some (g.apply line) ∧
    ∀ fragments closed, read line = .ok (.composite fragments closed) →
      g.apply line = fragments.foldlM apply g ∧
      (∀ before after, fragments = before ++ after → ∀ g',
        Work.Reaches ⟨g, [line]⟩ ⟨g', after⟩ ↔ before.foldlM apply g = .ok g') ∧
      ∀ e, g.apply line = .error e ↔ ∃ before t after g', fragments = before ++ t :: after ∧
        Work.Reaches ⟨g, [line]⟩ ⟨g', t :: after⟩ ∧ g'.apply t = .error e := by
  refine ⟨?_, fun fragments closed hread => ?_⟩
  · have hload : load [line] ≤ 2 * (octets line / 2 + 1) + 1 := by
      rw [load_singleton]
      omega
    rw [Work.run_eq hload, List.foldlM_cons]
    simp
  have hconsume := g.consume_of_composite hread
  have happly : g.apply line = fragments.foldlM apply g := by
    rw [apply_eq_consume, hconsume]
    rfl
  have hreaches (before after : List Text) (hsplit : fragments = before ++ after) (g' : Game) :
      Work.Reaches ⟨g, [line]⟩ ⟨g', after⟩ ↔ before.foldlM apply g = .ok g' := by
    subst hsplit
    rw [Work.reaches_composite_iff hread, Work.reaches_iff]
  refine ⟨happly, hreaches, fun e => ?_⟩
  rw [happly, Checked.foldlM_eq_error_iff]
  constructor
  · rintro ⟨before, t, after, g', hsplit, hbefore, ht⟩
    exact ⟨before, t, after, g', hsplit, (hreaches before _ hsplit g').mpr hbefore, ht⟩
  · rintro ⟨before, t, after, g', hsplit, hbefore, ht⟩
    exact ⟨before, t, after, g', hsplit, (hreaches before _ hsplit g').mp hbefore, ht⟩

/-- A batch that is not closed, with one inside that is. -/
def torn : Text :=
  "CompositeChange <[Red takes Ukraine from Blue, CompositeChange <[Blue takes Ukraine from Red]> ".toList

theorem apply_composite_torn :
    let g := ofWorld ⟨∅, ukraine, ukraine, none, 1⟩
    let first := "Red takes Ukraine from Blue".toList
    let second := "CompositeChange <[Blue takes Ukraine from Red]>".toList
    read torn = .ok (.composite [first, second] false) ∧
      g.apply torn = [first, second].foldlM apply g ∧
      Work.Reaches ⟨g, [torn]⟩
        ⟨g.withBoard ((ukraine.setOwner "Ukraine" "Red").getD ukraine), [second]⟩ := by
  intro g first second
  have hread : read torn = .ok (.composite [first, second] false) := by decide +kernel
  obtain ⟨happly, hreaches, -⟩ := (apply_composite g torn).2 _ _ hread
  refine ⟨hread, happly, (hreaches [first] [second] rfl _).mpr ?_⟩
  have hfirst : leaves first = [.ownership "Red" "Ukraine" "Blue"] := by decide +kernel
  rw [List.foldlM_cons, apply, hfirst]
  rfl

end Game

end Warboard
