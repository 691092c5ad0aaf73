import CallableMembers.Proofs.Ownership.Accounting
import Mathlib.Data.Fintype.EquivFin
import Mathlib.Order.WellFounded

/-!
# Reachability — what keeps an object alive

In a sound ledger an object is live exactly if it can be reached along holds from a root or from
an object on a cycle of holds.  From right to left liveness travels along holds.  From left to
right one walks backwards from the object: as there are finitely many objects, the walk comes to
a root or runs into a cycle.
-/

namespace CallableMembers
namespace Ownership
namespace Ledger

variable {α : Type} [Holder α]

/-- A root, or an object that holds itself along some way. -/
def Anchor (l : Ledger α) (roots : List ObjectId) (i : ObjectId) : Prop :=
  i ∈ roots ∨ Relation.TransGen l.Edge i i

/-- The live objects from which an object can be reached. -/
def LiveAncestor (l : Ledger α) (i j : ObjectId) : Prop :=
  l.isLive j = true ∧ Relation.ReflTransGen l.Edge j i

theorem finite_liveAncestors (l : Ledger α) (i : ObjectId) :
    Finite {j : ObjectId // l.LiveAncestor i j} := by
  have bounded : ∀ j : {j : ObjectId // l.LiveAncestor i j}, j.1 < l.nextId :=
    fun j => lt_nextId_of_isLive j.2.1
  exact Finite.of_injective (fun j => (⟨j.1, bounded j⟩ : Fin l.nextId)) fun a b same =>
    Subtype.ext (congrArg Fin.val same)

namespace Sound

variable {l : Ledger α} {roots : List ObjectId} {i j : ObjectId}

theorem live_of_anchor (h : Sound l roots) (anchor : l.Anchor roots i) : l.isLive i = true := by
  rcases anchor with root | cycle
  · exact h.live_of_root root
  · exact h.live_of_cycle i cycle

theorem live_of_reach (h : Sound l roots) (live : l.isLive i = true)
    (path : Relation.ReflTransGen l.Edge i j) : l.isLive j = true := by
  induction path with
  | refl => exact live
  | tail _ edge ih => exact h.live_of_edge ih edge

/-- Unless an ancestor lies on a cycle, some live ancestor is held by no live object. -/
theorem exists_unheld_ancestor (live : l.isLive i = true)
    (acyclic : ∀ j, l.LiveAncestor i j → ¬ Relation.TransGen l.Edge j j) :
    ∃ j, l.LiveAncestor i j ∧ ∀ k, l.isLive k = true → ¬ l.Edge k j := by
  have := finite_liveAncestors l i
  let before : {j : ObjectId // l.LiveAncestor i j} → {j : ObjectId // l.LiveAncestor i j} → Prop :=
    fun a b => Relation.TransGen l.Edge a.1 b.1
  have : IsTrans _ before := ⟨fun _ _ _ => Relation.TransGen.trans⟩
  have : Std.Irrefl before := ⟨fun a => acyclic a.1 a.2⟩
  -- A transitive irreflexive relation on finitely many objects has a first one.
  have wellFounded : WellFounded before := Finite.wellFounded_of_trans_of_irrefl before
  rcases wellFounded.has_min Set.univ ⟨⟨i, live, .refl⟩, trivial⟩ with ⟨first, -, least⟩
  refine ⟨first.1, first.2, ?_⟩
  intro k alive edge
  exact least ⟨k, alive, .head edge first.2.2⟩ trivial (.single edge)

theorem exists_anchor_of_live (h : Sound l roots) (live : l.isLive i = true) :
    ∃ j, l.Anchor roots j ∧ Relation.ReflTransGen l.Edge j i := by
  -- Walk backwards from `i`: either some ancestor lies on a cycle, or the walk ends at a root.
  by_cases cyclic : ∃ j, l.LiveAncestor i j ∧ Relation.TransGen l.Edge j j
  · rcases cyclic with ⟨j, ancestor, cycle⟩
    exact ⟨j, .inr cycle, ancestor.2⟩
  · have acyclic : ∀ j, l.LiveAncestor i j → ¬ Relation.TransGen l.Edge j j :=
      fun j ancestor cycle => cyclic ⟨j, ancestor, cycle⟩
    rcases exists_unheld_ancestor live acyclic with ⟨j, ancestor, unheld⟩
    -- Nothing live holds `j`, so its holders are roots.
    rcases h.root_or_edge_of_live ancestor.1 with root | ⟨k, alive, edge⟩
    · exact ⟨j, .inl root, ancestor.2⟩
    · exact absurd edge (unheld k alive)

theorem isLive_iff_reachable (h : Sound l roots) (i : ObjectId) :
    l.isLive i = true ↔ ∃ j, l.Anchor roots j ∧ Relation.ReflTransGen l.Edge j i := by
  constructor
  · exact h.exists_anchor_of_live
  · rintro ⟨j, anchor, path⟩
    exact h.live_of_reach (h.live_of_anchor anchor) path

end Sound
end Ledger
end Ownership
end CallableMembers
