import Mathlib.Order.WellFounded

/-!
# Cycles of dependencies between timed transactions

Each node of a dependency graph has a start and an end time. An edge either goes from a node
that ended before its target started, or is an *anti-dependency* between overlapping nodes.
On a cycle, look at the node that ends first: the edge into it must be an anti-dependency, and
so must the edge into that edge's source. A graph in which no such pair exists is acyclic.
-/

open Relation

namespace Dependency

variable {α : Type} {D V : α → α → Prop} {start finish : α → ℕ}

/-- A relation without a path from a node back to itself. -/
def Acyclic (D : α → α → Prop) : Prop := ∀ a, ¬ TransGen D a a

/-- The nodes that lie on a closed path through `a`. -/
def OnCycle (D : α → α → Prop) (a b : α) : Prop := TransGen D a b ∧ TransGen D b a

/-- Every node on a cycle has a predecessor on it. -/
lemma OnCycle.pred {a b : α} (h : OnCycle D a b) : ∃ c, D c b ∧ OnCycle D a c := by
  obtain ⟨hab, hba⟩ := h
  cases hab with
  | single hd => exact ⟨a, hd, (TransGen.single hd).trans hba, (TransGen.single hd).trans hba⟩
  | tail hac hd => exact ⟨_, hd, hac, (TransGen.single hd).trans hba⟩

/-- **The first committer of a cycle.** On every cycle there are two consecutive
anti-dependencies `x → p → s` whose last node ends before `p` and not after `x`. -/
lemma exists_dangerous_of_cycle (hlt : ∀ a b, D a b → start b < finish b)
    (hD : ∀ a b, D a b → finish a ≤ start b ∨ (V a b ∧ start a < finish b))
    (hne : ∀ a b, D a b → a = b ∨ finish a ≠ finish b) (hirr : ∀ a, ¬ D a a)
    {a : α} (ha : TransGen D a a) :
    ∃ x p s, V x p ∧ V p s ∧ finish s < finish p ∧ finish s ≤ finish x := by
  obtain ⟨s, hs, hmin⟩ := WellFounded.has_min (measure finish).wf {b | OnCycle D a b} ⟨a, ha, ha⟩
  have hmin' : ∀ b, OnCycle D a b → finish s ≤ finish b := fun b hb => not_lt.1 (hmin b hb)
  obtain ⟨p, hps, hp⟩ := hs.pred
  obtain ⟨x, hxp, hx⟩ := hp.pred
  have hsp := hmin' p hp
  have hsx := hmin' x hx
  have hs' := hlt p s hps
  have hne' : finish p ≠ finish s := by
    rcases hne p s hps with rfl | h
    · exact absurd hps (hirr _)
    · exact h
  rcases hD p s hps with h | ⟨hV, hstart⟩
  · omega
  · rcases hD x p hxp with h | ⟨hV', -⟩
    · omega
    · exact ⟨x, p, s, hV', hV, by omega, hsx⟩

lemma acyclic_of_no_dangerous (V : α → α → Prop) (start finish : α → ℕ)
    (hlt : ∀ a b, D a b → start b < finish b)
    (hD : ∀ a b, D a b → finish a ≤ start b ∨ (V a b ∧ start a < finish b))
    (hne : ∀ a b, D a b → a = b ∨ finish a ≠ finish b) (hirr : ∀ a, ¬ D a a)
    (hsafe : ∀ x p s, V x p → V p s → finish s < finish p → finish s ≤ finish x → False) :
    Acyclic D := by
  intro a ha
  obtain ⟨x, p, s, hxp, hps, h1, h2⟩ := exists_dangerous_of_cycle hlt hD hne hirr ha
  exact hsafe x p s hxp hps h1 h2

end Dependency
