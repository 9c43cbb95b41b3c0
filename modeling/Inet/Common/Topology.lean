import Inet.Common.Error
import Mathlib.Algebra.Order.Monoid.WithTop
import Mathlib.Logic.Function.Basic

/-! # Topologies

A topology has nodes and links between them, which have weights and can be
disabled. The weighted shortest paths to or from a node are found with a queue
of nodes in the order of their distances: an improved node is taken out of the
queue and put in again at its new place. Every link that has been met is
remembered with its node, the one of the shortest path first.
-/

namespace Inet

/-- The nodes and the links are those of the topology. The weight of a node is infinite if it does
not route. -/
structure Topology (N L K : Type) where
  nodes : List N
  inLinks : N → List L
  outLinks : N → List L
  weight : N → WithTop K
  enabled : N → Bool
  srcNode : L → N
  destNode : L → N
  linkWeight : L → WithTop K
  linkEnabled : L → Bool
  mem_nodes : ∀ v, v ∈ nodes
  mem_inLinks : ∀ l v, l ∈ inLinks v ↔ destNode l = v
  mem_outLinks : ∀ l v, l ∈ outLinks v ↔ srcNode l = v

namespace Topology

/-- The variables of the nodes that the algorithm uses, and its queue. -/
structure Search (N L K : Type) where
  dist : N → WithTop K
  outPaths : N → List L
  q : List N

variable {N L K : Type}

namespace Search

def getDistanceToTarget (s : Search N L K) (v : N) : WithTop K := s.dist v

def getNumPaths (s : Search N L K) (v : N) : ℕ := (s.outPaths v).length

/-- `getPath`, where `std::vector::at` throws if there is none. -/
def getPath (s : Search N L K) (v : N) (i : ℕ) : Except Error L :=
  match (s.outPaths v)[i]? with
  | some l => pure l
  | none => throw (.runtime "std::out_of_range")

end Search

variable [DecidableEq N] [DecidableEq L] [AddCommMonoid K] [LinearOrder K]

/-- The queue with a node before the first one that is farther. -/
def insertOrdered (dist : N → WithTop K) (remote : N) (newdist : WithTop K) : List N → List N
  | [] => [remote]
  | v :: q =>
    if dist v > newdist then remote :: v :: q else v :: insertOrdered dist remote newdist q

/-- The turn for one link of the current node. -/
def visitLink (t : Topology N L K) (initial : N) (toInitial : Bool) (current : N) (s : Search N L K)
    (l : L) : Except Error (Search N L K) :=
  if t.linkEnabled l = false then pure s
  else
    let remote := if toInitial then t.srcNode l else t.destNode l
    if t.enabled remote = false then pure s
    else do
      assert (t.linkWeight l > 0) "linkWeight > 0.0"
      let newdist := s.dist current + t.linkWeight l
      let newdist := if current ≠ initial then newdist + t.weight current else newdist
      if newdist ≠ ⊤ ∧ s.dist remote > newdist then
        let q := if s.dist remote ≠ ⊤ then s.q.filter (· ≠ remote) else s.q
        let dist := Function.update s.dist remote newdist
        pure
          { dist := dist
            outPaths := Function.update s.outPaths remote
              (l :: (s.outPaths remote).filter (· ≠ l))
            q := insertOrdered dist remote newdist q }
      else if l ∉ s.outPaths remote then
        let node := if toInitial then remote else current
        pure { s with outPaths := Function.update s.outPaths node (s.outPaths node ++ [l]) }
      else pure s

/-- The `while` loop, for at most the given number of rounds: nothing if they were not enough. -/
def visitNodes (t : Topology N L K) (initial : N) (toInitial : Bool) :
    ℕ → Search N L K → Except Error (Option (Search N L K))
  | 0, _ => pure none
  | rounds + 1, s =>
    match s.q with
    | [] => pure (some s)
    | current :: q => do
      assert (t.weight current ≥ 0) "current->getWeight() >= 0.0"
      let links := if toInitial then t.inLinks current else t.outLinks current
      let s ← links.foldlM (t.visitLink initial toInitial current) { s with q := q }
      t.visitNodes initial toInitial rounds s

/-- The distances and paths before the search. -/
def start (initial : N) : Search N L K where
  dist := Function.update (fun _ => ⊤) initial 0
  outPaths := fun _ => []
  q := [initial]

def calculateWeightedSingleShortestPaths (t : Topology N L K) (rounds : ℕ) (initial : N)
    (toInitial : Bool) : Except Error (Option (Search N L K)) :=
  t.visitNodes initial toInitial rounds (start initial)

def calculateWeightedSingleShortestPathsTo (t : Topology N L K) (rounds : ℕ) (target : N) :
    Except Error (Option (Search N L K)) :=
  t.calculateWeightedSingleShortestPaths rounds target true

end Topology

end Inet
