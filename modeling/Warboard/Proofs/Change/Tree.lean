import Mathlib.Data.List.Infix
import Warboard.Change.Reader
import Warboard.Proofs.Text.Scan

namespace Warboard.Change

open Text

/-- A change as the engine nests it: the text of a single change, or a batch of changes. -/
inductive Tree
  | leaf (text : Text)
  | node (children : List Tree)

namespace Tree

def opening : Text := "CompositeChange <[".toList

def closing : Text := "]>".toList

def separator : Text := ", ".toList

mutual

/-- The line that reports the change. -/
def render : Tree → Text
  | .leaf t => t
  | .node cs => opening ++ (separator.intercalate (renderEach cs) ++ closing)

def renderEach : List Tree → List Text
  | [] => []
  | c :: cs => c.render :: renderEach cs

end

mutual

/-- The texts of the single changes, from left to right. -/
def texts : Tree → List Text
  | .leaf t => [t]
  | .node cs => textsOfEach cs

def textsOfEach : List Tree → List Text
  | [] => []
  | c :: cs => c.texts ++ textsOfEach cs

end

theorem opening_eq : opening = "CompositeChange ".toList ++ "<[".toList := by decide

theorem renderEach_eq_map (cs : List Tree) : renderEach cs = cs.map render := by
  induction cs with
  | nil => rfl
  | cons c cs ih => rw [renderEach, ih, List.map_cons]

theorem textsOfEach_eq_flatMap (cs : List Tree) : textsOfEach cs = cs.flatMap texts := by
  induction cs with
  | nil => rfl
  | cons c cs ih => rw [textsOfEach, ih, List.flatMap_cons]

theorem render_node (cs : List Tree) :
    (node cs).render = opening ++ (separator.intercalate (cs.map render) ++ closing) := by
  rw [render, renderEach_eq_map]

theorem texts_node (cs : List Tree) : (node cs).texts = cs.flatMap texts := by
  rw [texts, textsOfEach_eq_flatMap]

/-- A pattern that can neither hold a separator nor begin in one is in one of the joined texts. -/
theorem infix_separated {w : Text} (hne : w ≠ []) (hcomma : ',' ∉ w)
    (hhead : ∀ c ∈ w.head?, c ≠ ' ') {ts : List Text}
    (hw : w <:+: separator.intercalate ts) : ∃ t ∈ ts, w <:+: t := by
  induction ts with
  | nil => exact absurd (List.infix_nil.mp hw) hne
  | cons t ts ih =>
      cases ts with
      | nil => exact ⟨t, by simp, by simpa using hw⟩
      | cons u us =>
          rw [List.intercalate_cons_cons, List.append_assoc] at hw
          rcases infix_append_cons_of_not_mem hcomma hw with hw | hw
          · exact ⟨t, by simp, hw⟩
          · rcases List.infix_cons_iff.mp hw with hw | hw
            · rcases List.prefix_cons_iff.mp hw with rfl | ⟨v, rfl, -⟩
              · exact absurd rfl hne
              · exact absurd rfl (hhead ' ' rfl)
            · obtain ⟨v, hv, hw⟩ := ih hw
              exact ⟨v, List.mem_cons_of_mem _ hv, hw⟩

end Tree

/-- No marker of a batch stands in the text. -/
def Unmarked (t : Text) : Prop := ¬ "<[".toList <:+: t ∧ ¬ "]>".toList <:+: t

instance (t : Text) : Decidable (Unmarked t) := inferInstanceAs (Decidable (_ ∧ _))

/-- A text that can stand for a single change inside a batch: nothing in it is a marker, begins the
next change, or makes the whole line one of another form. -/
structure Plain (t : Text) : Prop where
  unmarked : Unmarked t
  trimmed : trim t = t
  nonempty : t ≠ []
  noBoundary : ∀ s ∈ t.tails, ∀ u ∈ after ", " s, startsChange u = false
  noRole : ∀ s ∈ t.tails, ∀ u ∈ after "Role: " s, u.head?.any isWord = false
  noBattles : ¬ "Adding Battle Records:".toList <:+: t

instance (t : Text) : Decidable (Plain t) :=
  decidable_of_iff (Unmarked t ∧ trim t = t ∧ t ≠ [] ∧
      (∀ s ∈ t.tails, ∀ u ∈ after ", " s, startsChange u = false) ∧
      (∀ s ∈ t.tails, ∀ u ∈ after "Role: " s, u.head?.any isWord = false) ∧
      ¬ "Adding Battle Records:".toList <:+: t)
    ⟨fun ⟨h₁, h₂, h₃, h₄, h₅, h₆⟩ => ⟨h₁, h₂, h₃, h₄, h₅, h₆⟩,
      fun ⟨h₁, h₂, h₃, h₄, h₅, h₆⟩ => ⟨h₁, h₂, h₃, h₄, h₅, h₆⟩⟩

/-- Can the change stand after another one in a batch? -/
def Tree.follows : Tree → Bool
  | .leaf t => startsChange t
  | .node _ => true

/-- The trees whose lines can be taken apart again. The first text of a batch can begin in any way,
the others begin as changes do. -/
inductive Readable : Tree → Prop
  | leaf {t : Text} (h : Plain t) : Readable (.leaf t)
  | node {cs : List Tree} (each : ∀ c ∈ cs, Readable c)
      (later : ∀ c ∈ cs.tail, c.follows = true) : Readable (.node cs)

end Warboard.Change
