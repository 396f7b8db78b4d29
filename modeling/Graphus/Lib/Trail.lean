import Mathlib.Data.List.Nodup
import Mathlib.Data.List.Infix

/-!
# Trails of a labelled graph

`hop u r v` says that the edge `r` leads from `u` to `v`. A trail from `a` is a walk that uses no
edge twice, given by its edges in the order they are travelled.
-/

variable {V E : Type*} {hop : V → E → V → Prop} {a u v : V} {r : E} {t w : List E}

inductive Trail (hop : V → E → V → Prop) (a : V) : List E → V → Prop
  | nil : Trail hop a [] a
  | snoc {t : List E} {u v : V} {r : E} :
      Trail hop a t u → hop u r v → r ∉ t → Trail hop a (t ++ [r]) v

namespace Trail

open List

@[simp] lemma nil_iff : Trail hop a [] v ↔ v = a := by
  refine ⟨fun h => ?_, fun h => h ▸ .nil⟩
  generalize ht : ([] : List E) = t at h
  cases h with
  | nil => rfl
  | snoc => simp at ht

lemma snoc_iff : Trail hop a (t ++ [r]) v ↔ ∃ u, Trail hop a t u ∧ hop u r v ∧ r ∉ t := by
  refine ⟨fun h => ?_, fun ⟨_, h, hop, hr⟩ => .snoc h hop hr⟩
  generalize ht : t ++ [r] = w at h
  cases h with
  | nil => simp at ht
  | snoc h hop hr =>
    obtain ⟨rfl, hre⟩ := append_inj' ht rfl
    cases hre
    exact ⟨_, h, hop, hr⟩

lemma nodup (h : Trail hop a t v) : t.Nodup := by
  induction h with
  | nil => exact nodup_nil
  | snoc _ _ hr ih =>
    refine nodup_append.2 ⟨ih, nodup_singleton _, fun x hx y hy hxy => hr ?_⟩
    rwa [← mem_singleton.1 hy, ← hxy]

lemma of_prefix (h : Trail hop a w v) (ht : t <+: w) : ∃ u, Trail hop a t u := by
  induction h with
  | nil => exact ⟨a, by simp [prefix_nil.1 ht]⟩
  | @snoc w u v r h hop hr ih =>
    rcases prefix_concat_iff.1 ht with rfl | ht
    · exact ⟨v, .snoc h hop hr⟩
    · exact ih ht

lemma hop_of_cons (h : Trail hop a (r :: t) v) : ∃ u, hop a r u := by
  obtain ⟨u, hu⟩ := h.of_prefix (t := [r]) ⟨t, rfl⟩
  obtain ⟨b, hb, hop, -⟩ := snoc_iff (t := []).1 hu
  exact ⟨u, nil_iff.1 hb ▸ hop⟩

/-- Where the edges determine the end of a hop, they determine the end of a trail. -/
lemma unique (hf : ∀ u r v v', hop u r v → hop u r v' → v = v') (h : Trail hop a t u)
    (h' : Trail hop a t v) : u = v := by
  induction h generalizing v with
  | nil => exact (nil_iff.1 h').symm
  | snoc _ hop _ ih =>
    obtain ⟨u, ht, hop', -⟩ := snoc_iff.1 h'
    cases ih ht
    exact hf _ _ _ _ hop hop'

lemma cons (hop' : hop v r a) (h : Trail hop a t u) (hr : r ∉ t) : Trail hop v (r :: t) u := by
  induction h with
  | nil => exact .snoc (t := []) .nil hop' hr
  | snoc _ hop hn ih =>
    rw [mem_append, not_or] at hr
    refine .snoc (ih hr.1) hop ?_
    rintro (_ | ⟨_, hmem⟩)
    · exact hr.2 (mem_singleton_self _)
    · exact hn hmem

lemma reverse (hs : ∀ {u r v}, hop u r v → hop v r u) (h : Trail hop a t v) :
    Trail hop v t.reverse a := by
  induction h with
  | nil => exact .nil
  | snoc _ hop hr ih =>
    rw [reverse_append]
    exact cons (hs hop) ih (by simpa using hr)

/-- A closed trail has a shortest closed beginning. -/
lemma firstReturn (h : Trail hop a t a) (ht : t ≠ []) : ∃ p, p <+: t ∧ p ≠ [] ∧ Trail hop a p a ∧
      ∀ q, q <+: p → q ≠ [] → Trail hop a q a → q = p := by
  induction hn : t.length using Nat.strong_induction_on generalizing t with
  | _ n ih =>
    by_cases hq : ∃ q, q <+: t ∧ q ≠ [] ∧ Trail hop a q a ∧ q ≠ t
    · obtain ⟨q, hqt, hq0, hqa, hne⟩ := hq
      have hlt : q.length < n := hn ▸ lt_of_le_of_ne hqt.length_le fun h => hne (hqt.eq_of_length h)
      obtain ⟨p, hp, h'⟩ := ih _ hlt hqa hq0 rfl
      exact ⟨p, hp.trans hqt, h'⟩
    · refine ⟨t, prefix_refl t, ht, h, fun q hqt hq0 hqa => ?_⟩
      exact by_contra fun hne => hq ⟨q, hqt, hq0, hqa, hne⟩

end Trail
