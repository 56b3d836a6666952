namespace Warboard

/-- What a search does with a node that it meets for the first time. -/
structure Visit where
  /-- Is the node among the results? -/
  record : Bool
  /-- Does the search go on through the node? -/
  expand : Bool
  deriving DecidableEq, Repr

namespace Visit

def skip : Visit := ⟨false, false⟩

def passThrough : Visit := ⟨false, true⟩

def recordOnly : Visit := ⟨true, false⟩

def recordAndExpand : Visit := ⟨true, true⟩

end Visit

/-- A node that was met, the number of edges to it, and the nodes on the way, the start first and the
node itself last. -/
structure Reached (ν : Type) where
  node : ν
  steps : Nat
  path : List ν
  deriving DecidableEq, Repr

namespace Reach

variable {ν : Type} [DecidableEq ν]

/-- Goes through the neighbours of a node at the end of `path`. Gives the new ones, and all nodes
seen so far. -/
def meet (steps : Nat) (path : List ν) : List ν → List ν → List (Reached ν) × List ν
  | [], seen => ([], seen)
  | v :: vs, seen =>
    if v ∈ seen then meet steps path vs seen
    else
      let (later, seen) := meet steps path vs (v :: seen)
      (⟨v, steps, path ++ [v]⟩ :: later, seen)

variable (neighbors : ν → List ν) (policy : ν → Visit)

/-- Goes through the neighbours of all nodes of a layer, in order. -/
def sweep (steps : Nat) : List (Reached ν) → List ν → List (Reached ν) × List ν
  | [], seen => ([], seen)
  | r :: layer, seen =>
    let (met, seen) := meet steps r.path (neighbors r.node) seen
    let (later, seen) := sweep steps layer seen
    (met ++ later, seen)

/-- The next `n` layers: each holds the nodes met from those of the layer before that the search goes
on through. -/
def layers : (n steps : Nat) → List (Reached ν) → List ν → List (Reached ν)
  | 0, _, _, _ => []
  | _ + 1, _, [], _ => []
  | n + 1, steps, r :: layer, seen =>
    let (met, seen) := sweep neighbors (steps + 1) (r :: layer) seen
    met ++ layers n (steps + 1) (met.filter fun m => (policy m.node).expand) seen

/-- All nodes met within `maxSteps` edges from the start, in the order of meeting. -/
def encounters (start : ν) (maxSteps : Nat) : List (Reached ν) :=
  layers neighbors policy maxSteps 0 [⟨start, 0, [start]⟩] [start]

/-- Breadth-first search. No node is met twice, nor is the start. -/
def explore (start : ν) (maxSteps : Nat) : List (Reached ν) :=
  (encounters neighbors policy start maxSteps).filter fun r => (policy r.node).record

end Reach

end Warboard
