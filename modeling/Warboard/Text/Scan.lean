import Warboard.Text.Word

namespace Warboard.Text

variable {α : Type}

/-- What follows the first text at the head of the second. -/
def rest? : Text → Text → Option Text
  | [], t => some t
  | _ :: _, [] => none
  | c :: w, d :: t => if c = d then rest? w t else none

/-- What follows `w`, if the text begins with it. -/
def after (w : String) (t : Text) : Option Text := rest? w.toList t

def startsWith (w : String) (t : Text) : Bool := (after w t).isSome

/-- The longest non-empty stretch of `p` at the head, and what follows it. -/
def run (p : Char → Bool) (t : Text) : Option (Text × Text) :=
  match t.takeWhile p with
  | [] => none
  | c :: w => some (c :: w, t.dropWhile p)

def word (t : Text) : Option (Text × Text) := run isWord t

/-- The result at the first place where `p` succeeds. -/
def firstMatch (p : Text → Option α) : Text → Option α
  | [] => p []
  | c :: t => p (c :: t) <|> firstMatch p t

/-- The result at the first place, no later than the end of the line, where `p` succeeds. -/
def firstOnLine (p : Text → Option α) : Text → Option α
  | [] => p []
  | c :: t => p (c :: t) <|> if c = '\n' then none else firstOnLine p t

/-- The result at the last place, no later than the end of the line, where `p` succeeds. -/
def lastOnLine (p : Text → Option α) : Text → Option α
  | [] => p []
  | c :: t => (if c = '\n' then none else lastOnLine p t) <|> p (c :: t)

/-- All results of `p`, each search going on where the last match ended. The number counts the
characters of a match that are still to be passed over. -/
def matchesFrom (p : Text → Option (α × Text)) : Nat → Text → List α
  | _, [] => []
  | skip + 1, _ :: t => matchesFrom p skip t
  | 0, c :: t => match p (c :: t) with
    | some (a, rest) => a :: matchesFrom p (t.length - rest.length) t
    | none => matchesFrom p 0 t

def allMatches (p : Text → Option (α × Text)) (t : Text) : List α := matchesFrom p 0 t

/-- The text from the first occurrence of `w` on. -/
def from? (w : String) (t : Text) : Option Text :=
  firstMatch (fun u => if startsWith w u then some u else none) t

def mentions (w : String) (t : Text) : Bool := (from? w t).isSome

/-- The text before and after the first occurrence of `w`. -/
def cutAt (w : String) : Text → Option (Text × Text)
  | [] => (after w []).map fun rest => ([], rest)
  | c :: t => match after w (c :: t) with
    | some rest => some ([], rest)
    | none => (cutAt w t).map fun (before, rest) => (c :: before, rest)

end Warboard.Text
