import Mathlib.Algebra.Order.Monoid.WithTop
import Mathlib.Data.Fintype.EquivFin
import Mathlib.Tactic.Common

/-! # Cheapest paths to a target

A path costs what its edges cost and what the nodes between them cost. Distances
that no edge improves are lower bounds of these costs. Distances that an edge
attains from a node nearer to the target are costs of paths, which are found by
following these edges.
-/

namespace Inet

structure WeightedGraph (N L K : Type*) where
  source : L → N
  dest : L → N
  usable : L → Prop
  edge : L → WithTop K
  node : N → WithTop K

namespace WeightedGraph

variable {N L K : Type*}

/-- The edges of a path, from a node to the target. -/
inductive Path (g : WeightedGraph N L K) (target : N) : N → List L → Prop
  | nil : Path g target target []
  | cons {l : L} {ls : List L} : g.usable l → Path g target (g.dest l) ls →
      Path g target (g.source l) (l :: ls)

theorem Path.eq_target {g : WeightedGraph N L K} {target v : N} (h : g.Path target v []) :
    v = target := by
  cases h
  rfl

section Sums

variable [AddCommMonoid K]

/-- The sum of the weights of the edges and of the nodes between them. -/
def cost (g : WeightedGraph N L K) : List L → WithTop K
  | [] => 0
  | [l] => g.edge l
  | l :: next :: ls => g.edge l + g.node (g.dest l) + g.cost (next :: ls)

/-- What a path pays for the node that an edge leads to. -/
def price [DecidableEq N] (g : WeightedGraph N L K) (target v : N) : WithTop K :=
  if v = target then 0 else g.node v

variable {g : WeightedGraph N L K} {target v : N} {ls : List L}

theorem price_target [DecidableEq N] : g.price target target = 0 := if_pos rfl

theorem price_of_ne [DecidableEq N] (h : v ≠ target) : g.price target v = g.node v := if_neg h

/-- The cost of a path in terms of the cost of its rest. -/
theorem cost_cons (l : L) (h : ls ≠ []) :
    g.cost (l :: ls) = g.cost ls + g.edge l + g.node (g.dest l) := by
  cases ls with
  | nil => exact absurd rfl h
  | cons next ls => rw [cost, add_comm, add_assoc]

end Sums

/-- Following the chosen edges leads to the target. -/
inductive Follows (g : WeightedGraph N L K) (target : N) (next : N → Option L) : N → List L → Prop
  | target : Follows g target next target []
  | step {v : N} {l : L} {ls : List L} : v ≠ target → next v = some l →
      Follows g target next (g.dest l) ls → Follows g target next v (l :: ls)

variable [AddCommMonoid K] [LinearOrder K]

/-- Distances to the target are sums of positive weights. -/
structure Positive (g : WeightedGraph N L K) : Prop where
  edge_pos : ∀ l, 0 < g.edge l
  node_nonneg : ∀ v, 0 ≤ g.node v

variable [DecidableEq N] {g : WeightedGraph N L K} {target : N} {dist : N → WithTop K}
  {next : N → Option L} {v : N} {ls : List L}

/-- No edge improves the distance of the node that it comes from. -/
def Relaxed (g : WeightedGraph N L K) (target : N) (dist : N → WithTop K) : Prop :=
  ∀ l, g.usable l → dist (g.source l) ≤ dist (g.dest l) + g.edge l + g.price target (g.dest l)

/-- The chosen edge of a node attains its distance. -/
def Attained (g : WeightedGraph N L K) (target : N) (dist : N → WithTop K) (next : N → Option L) :
    Prop :=
  ∀ v ≠ target, dist v ≠ ⊤ → ∃ l, next v = some l ∧ g.source l = v ∧ g.usable l ∧
    dist v = dist (g.dest l) + g.edge l + g.price target (g.dest l)

theorem Positive.price_nonneg (h : g.Positive) (v : N) : 0 ≤ g.price target v := by
  unfold price
  split_ifs
  · exact le_rfl
  · exact h.node_nonneg v

theorem Positive.price_le (h : g.Positive) (v : N) : g.price target v ≤ g.node v := by
  unfold price
  split_ifs
  · exact h.node_nonneg v
  · exact le_rfl

variable [IsOrderedCancelAddMonoid K]

theorem le_cost (hpos : g.Positive) (hrelaxed : g.Relaxed target dist) (htarget : dist target = 0)
    (hpath : g.Path target v ls) : dist v ≤ g.cost ls := by
  induction hpath with
  | nil => exact htarget.le
  | @cons l ls husable hrest ih =>
    cases ls with
    | nil =>
      have hle := hrelaxed l husable
      rwa [hrest.eq_target, htarget, zero_add, price_target, add_zero] at hle
    | cons next ls =>
      rw [cost_cons l (List.cons_ne_nil _ _)]
      calc dist (g.source l)
          ≤ dist (g.dest l) + g.edge l + g.price target (g.dest l) := hrelaxed l husable
        _ ≤ _ := add_le_add (add_le_add_left ih _) (hpos.price_le _)

/-- What is left after an edge is nearer to the target. -/
theorem Positive.lt_add (h : g.Positive) {d : WithTop K} {l : L} (hne : d ≠ ⊤) :
    d < d + g.edge l + g.price target v := by
  lift d to K using hne
  have hpos := h.edge_pos l
  have hnonneg : 0 ≤ g.price target v := h.price_nonneg v
  generalize g.edge l = e at *
  generalize g.price target v = p at *
  induction e with
  | top => exact lt_of_lt_of_eq (WithTop.coe_lt_top d) (by simp)
  | coe e =>
    induction p with
    | top => exact lt_of_lt_of_eq (WithTop.coe_lt_top d) (by simp)
    | coe p =>
      norm_cast at *
      exact lt_of_lt_of_le (lt_add_of_pos_right d hpos) (le_add_of_nonneg_right hnonneg)

theorem exists_follows [Finite N] (hpos : g.Positive) (hattained : g.Attained target dist next)
    (htarget : dist target = 0) (hne : dist v ≠ ⊤) :
    ∃ ls, g.Follows target next v ls ∧ g.Path target v ls ∧ g.cost ls = dist v := by
  have hwf : WellFounded fun u w : N => dist u < dist w :=
    Finite.wellFounded_of_trans_of_irrefl _
  induction v using hwf.induction with
  | _ v ih =>
    by_cases hv : v = target
    · subst hv
      exact ⟨[], .target, .nil, htarget.symm⟩
    · obtain ⟨l, hnext, rfl, husable, heq⟩ := hattained v hv hne
      have hdest : dist (g.dest l) ≠ ⊤ := by
        intro htop
        rw [htop, WithTop.top_add, WithTop.top_add] at heq
        exact hne heq
      have hlt : dist (g.dest l) < dist (g.source l) := heq ▸ hpos.lt_add hdest
      obtain ⟨ls, hfollows, hpath, hcost⟩ := ih _ hlt hdest
      refine ⟨l :: ls, .step hv hnext hfollows, .cons husable hpath, ?_⟩
      rw [heq]
      cases hfollows with
      | target => rw [cost, htarget, price_target, zero_add, add_zero]
      | step hne' =>
        rw [cost_cons l (List.cons_ne_nil _ _), hcost, price_of_ne hne']

end WeightedGraph

end Inet
