import Inet.Common.ShortestPaths
import Mathlib.Algebra.Order.Group.Nat
import Mathlib.Data.Fin.VecNotation

/-! # The next hop of a static route

The network configurator follows the shortest path from a destination back to
the node whose routes it computes, and keeps the last interface on it that
belongs to a node with addresses.
-/

namespace Inet

namespace Ipv4NetworkConfigurator

open Inet.Topology

variable {N L K I : Type} [DecidableEq N]

/-- The `while` loop of `addStaticRoutes` from a destination node, for at most the given number of
rounds: the last link of the path and the interface of the next hop. -/
def findNextHop (t : Topology N L K) (s : Search N L K) (isBridgeNode : N → Bool)
    (sourceInterfaceInfo : L → Option I) (sourceNode : N) :
    ℕ → N → Option L → Option I → Except Error (Option (Option L × Option I))
  | 0, _, _, _ => pure none
  | rounds + 1, node, link, nextHopInterfaceInfo =>
    if node = sourceNode then pure (some (link, nextHopInterfaceInfo))
    else do
      let link ← s.getPath node 0
      let nextHopInterfaceInfo :=
        if node ≠ sourceNode ∧ isBridgeNode node = false ∧ (sourceInterfaceInfo link).isSome then
          sourceInterfaceInfo link
        else nextHopInterfaceInfo
      let path ← s.getPath node 0
      findNextHop t s isBridgeNode sourceInterfaceInfo sourceNode rounds (t.destNode path)
        (some link) nextHopInterfaceInfo

theorem exists_findNextHop {t : Topology N L K} {s : Search N L K} {sourceNode v : N} {ls : List L}
    (h : t.graph.Follows sourceNode (fun v => (s.outPaths v).head?) v ls) (isBridgeNode : N → Bool)
    (sourceInterfaceInfo : L → Option I) {rounds : ℕ} (hrounds : ls.length < rounds)
    (link : Option L) (info : Option I) :
    ∃ r, findNextHop t s isBridgeNode sourceInterfaceInfo sourceNode rounds v link info =
      .ok (some r) := by
  induction h generalizing rounds link info with
  | target =>
    cases rounds with
    | zero => cases hrounds
    | succ rounds => exact ⟨_, if_pos rfl⟩
  | @step v l ls hne hnext hrest ih =>
    cases rounds with
    | zero => cases hrounds
    | succ rounds =>
      have hpath : s.getPath v 0 = .ok l := by
        rw [Search.getPath, ← List.head?_eq_getElem?, hnext]
        rfl
      unfold findNextHop
      rw [if_neg hne, hpath, Error.ok_bind, Error.ok_bind]
      exact ih (Nat.lt_of_succ_lt_succ hrounds) _ _

end Ipv4NetworkConfigurator

namespace Topology

variable {N L K : Type} [DecidableEq N] [DecidableEq L] [AddCommMonoid K] [LinearOrder K]
  [IsOrderedCancelAddMonoid K] {t : Topology N L K}

/-- The search ends after no more rounds than there are nodes. The distance of each node is the
cost of its cheapest path to the target, and the first links lead along such a path. -/
theorem calculateWeightedSingleShortestPathsTo_exact (hlink : ∀ l, 0 < t.linkWeight l)
    (hnode : ∀ v, 0 ≤ t.weight v) (target : N) {rounds : ℕ} (hrounds : t.nodes.length < rounds) :
    ∃ s, t.calculateWeightedSingleShortestPathsTo rounds target = .ok (some s) ∧
      s.dist target = 0 ∧
      (∀ v ls, t.graph.Path target v ls → s.dist v ≤ t.graph.cost ls) ∧
      (∀ v, s.dist v ≠ ⊤ → ∃ ls, t.graph.Path target v ls ∧ t.graph.cost ls = s.dist v) ∧
      (∀ v, s.dist v = ⊤ ↔ ∀ ls, t.graph.Path target v ls → t.graph.cost ls = ⊤) ∧
      ∀ v, v ≠ target → s.dist v ≠ ⊤ →
        ∃ ls, t.graph.Follows target (fun v => (s.outPaths v).head?) v ls ∧
          t.graph.Path target v ls ∧ t.graph.cost ls = s.dist v ∧
          ∀ (I : Type) (isBridgeNode : N → Bool) (sourceInterfaceInfo : L → Option I),
            ∃ r, Ipv4NetworkConfigurator.findNextHop t s isBridgeNode sourceInterfaceInfo target
              (ls.length + 1) v none none = .ok (some r) := by
  have hpos : t.graph.Positive := ⟨hlink, hnode⟩
  have hcard : t.nodes.toFinset.card < (∅ : Finset N).card + rounds := by
    rw [Finset.card_empty, Nat.zero_add]
    exact (List.toFinset_card_le t.nodes).trans_lt hrounds
  have hfinite : Finite N := Finite.of_surjective (fun i => t.nodes.get i) fun v =>
    List.mem_iff_get.1 (t.mem_nodes v)
  have hstart : t.Searching target ∅ [] (start target) := searching_start
  obtain ⟨s, settled, hrun, hempty, h⟩ := hstart.visitNodes hpos hcard
  have hlower {v : N} {ls : List L} (hpath : t.graph.Path target v ls) :
      s.dist v ≤ t.graph.cost ls :=
    WeightedGraph.le_cost hpos (h.relaxed_of_nil hempty) h.dist_target hpath
  have hpath {v : N} (hne : s.dist v ≠ ⊤) :=
    WeightedGraph.exists_follows hpos h.attained_of_nil h.dist_target hne
  refine ⟨s, hrun, h.dist_target, fun v ls => hlower, fun v hne => ?_, fun v => ⟨?_, ?_⟩,
    fun v _ hne => ?_⟩
  · obtain ⟨ls, -, hls, hcost⟩ := hpath hne
    exact ⟨ls, hls, hcost⟩
  · intro htop ls hls
    rw [← top_le_iff, ← htop]
    exact hlower hls
  · intro hall
    by_contra hne
    obtain ⟨ls, -, hls, hcost⟩ := hpath hne
    exact hne (hcost ▸ hall ls hls)
  · obtain ⟨ls, hfollows, hls, hcost⟩ := hpath hne
    exact ⟨ls, hfollows, hls, hcost, fun I isBridgeNode info =>
      Ipv4NetworkConfigurator.exists_findNextHop hfollows isBridgeNode info
        (Nat.lt_succ_self _) _ _⟩

/-- Three nodes in a line, the middle one of which routes at the price of two. -/
def line : Topology (Fin 3) (Fin 2) ℕ where
  nodes := [0, 1, 2]
  inLinks := ![[0], [1], []]
  outLinks := ![[], [0], [1]]
  weight := ![0, 2, ⊤]
  enabled _ := true
  srcNode := ![1, 2]
  destNode := ![0, 1]
  linkWeight := ![1, 1]
  linkEnabled _ := true
  mem_nodes := by decide
  mem_inLinks := by decide
  mem_outLinks := by decide

theorem calculateWeightedSingleShortestPathsTo_exact_line :
    ∃ s, line.calculateWeightedSingleShortestPathsTo 4 0 = .ok (some s) ∧
      ∃ ls, line.graph.Path 0 2 ls ∧ line.graph.cost ls = s.dist 2 := by
  obtain ⟨s, hrun, -, -, hattained, htop, -⟩ :=
    calculateWeightedSingleShortestPathsTo_exact (t := line) (by decide) (by decide) 0
      (by decide : line.nodes.length < 4)
  refine ⟨s, hrun, hattained 2 fun h => ?_⟩
  have hpath : line.graph.Path 0 2 [1, 0] :=
    .cons (g := line.graph) (l := 1) ⟨rfl, rfl⟩ (.cons (g := line.graph) (l := 0) ⟨rfl, rfl⟩ .nil)
  exact absurd ((htop 2).1 h _ hpath) (by decide)

end Topology

end Inet
