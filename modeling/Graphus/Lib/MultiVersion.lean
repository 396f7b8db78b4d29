import Mathlib.Data.List.Basic

/-!
# Multi-version histories

The history of one cell: the values it took, each with the timestamp it took it at, newest first.
A removed value is `none`. `valueAt h s` is the value as of time `s`, and `IsValueAt` says what
that means without reference to the order of the list.
-/

namespace MultiVersion

open List

variable {ν : Type} {h : List (ℕ × Option ν)} {s c : ℕ} {v : Option ν}

/-- The value of the newest entry at or before `s`. -/
def valueAt (h : List (ℕ × Option ν)) (s : ℕ) : Option ν :=
  (h.find? fun e => e.1 ≤ s).bind Prod.snd

/-- `v` is the value of the entry with the greatest timestamp at or before `s`, or there is no such
entry and `v` is `none`. -/
def IsValueAt (h : List (ℕ × Option ν)) (s : ℕ) (v : Option ν) : Prop :=
  (∃ e ∈ h, e.1 ≤ s ∧ (∀ e' ∈ h, e'.1 ≤ s → e'.1 ≤ e.1) ∧ v = e.2) ∨ ((∀ e ∈ h, s < e.1) ∧ v = none)

/-- Timestamps decrease along the list. -/
def Descending (h : List (ℕ × Option ν)) : Prop := h.Pairwise fun a b => b.1 < a.1

lemma valueAt_cons_of_le (hc : c ≤ s) : valueAt ((c, v) :: h) s = v := by
  simp [valueAt, hc]

lemma valueAt_cons_of_lt (hc : s < c) : valueAt ((c, v) :: h) s = valueAt h s := by
  simp [valueAt, Nat.not_le.2 hc]

lemma Descending.cons (hd : Descending h) (hc : ∀ e ∈ h, e.1 < c) : Descending ((c, v) :: h) :=
  pairwise_cons.2 ⟨hc, hd⟩

/-- In a descending history the first entry at or before `s` is the greatest one. -/
lemma isValueAt_valueAt (hd : Descending h) (s : ℕ) : IsValueAt h s (valueAt h s) := by
  induction h with
  | nil => exact .inr ⟨by simp, rfl⟩
  | cons e h ih =>
    obtain ⟨c, v⟩ := e
    obtain ⟨hc, hd⟩ := pairwise_cons.1 hd
    by_cases hle : c ≤ s
    · rw [valueAt_cons_of_le hle]
      refine .inl ⟨(c, v), mem_cons_self, hle, ?_, rfl⟩
      intro e he _
      rcases mem_cons.1 he with rfl | he
      · exact Nat.le_refl _
      · exact Nat.le_of_lt (hc e he)
    · have hlt : s < c := Nat.not_le.1 hle
      rw [valueAt_cons_of_lt hlt]
      rcases ih hd with ⟨e, he, h1, h2, h3⟩ | ⟨h1, h2⟩
      · refine .inl ⟨e, mem_cons_of_mem _ he, h1, ?_, h3⟩
        intro e' he' hle'
        rcases mem_cons.1 he' with rfl | he'
        · exact absurd hle' hle
        · exact h2 e' he' hle'
      · refine .inr ⟨?_, h2⟩
        intro e' he'
        rcases mem_cons.1 he' with rfl | he'
        · exact hlt
        · exact h1 e' he'

end MultiVersion
