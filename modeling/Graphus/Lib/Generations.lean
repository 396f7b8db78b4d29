import Mathlib.Data.List.Pairwise

/-!
# Registers with generations

Writers set keyed registers, and every write has a number of its own, its generation. A history is
the list of writes, the newest first. Some of the writes are *alive*; the others have been
withdrawn. The content of a register is what its newest write alive has left, with its generation,
or what the register held before any write, with generation zero.

A write that remembers the content it has found, with the generation, can be withdrawn later. Where
it is the newest write alive, what it remembers is the new content (`content_withdraw_top`). Where
it is not, the content stays (`content_withdraw_of_ne`), and the same two facts hold of what any
later write remembers, since that is the content below its own generation.
-/

namespace Generations

open List

/-- A write of a key by an owner. -/
structure Write (Owner K V : Type) where
  seq : ℕ
  owner : Owner
  key : K
  value : V
  deriving DecidableEq

variable {Owner K V : Type} [DecidableEq K] {A B : Write Owner K V → Bool}
  {h : List (Write Owner K V)} {init : K → V} {k : K} {n : ℕ} {w : Write Owner K V}

/-- The newest write alive of a key. -/
def top (A : Write Owner K V → Bool) (h : List (Write Owner K V)) (k : K) :
    Option (Write Owner K V) :=
  h.find? fun w => w.key = k && A w

/-- The generation and the value of a register. -/
def content (A : Write Owner K V → Bool) (h : List (Write Owner K V)) (init : K → V)
    (k : K) : ℕ × V :=
  ((top A h k).map fun w => (w.seq, w.value)).getD (0, init k)

/-- The writes alive below a generation. -/
def below (A : Write Owner K V → Bool) (n : ℕ) (w : Write Owner K V) :
    Bool := A w && decide (w.seq < n)

/-- The writes alive when one is withdrawn. -/
def withdraw (A : Write Owner K V → Bool) (n : ℕ) (w : Write Owner K V) :
    Bool := A w && decide (w.seq ≠ n)

/-- The newest first, with positive generations. -/
structure Ordered (h : List (Write Owner K V)) : Prop where
  sorted : h.Pairwise fun w w' => w'.seq < w.seq
  pos : ∀ w ∈ h, 0 < w.seq

lemma top_eq_some (ht : top A h k = some w) : w ∈ h ∧ w.key = k ∧ A w = true := by
  obtain ⟨hp, -⟩ := find?_eq_some_iff_append.1 ht
  have hmem := mem_of_find?_eq_some ht
  simp only [Bool.and_eq_true, decide_eq_true_eq] at hp
  exact ⟨hmem, hp⟩

lemma top_eq_none : top A h k = none ↔ ∀ w ∈ h, w.key = k → A w = false := by
  simp only [top, find?_eq_none, Bool.and_eq_true, decide_eq_true_eq, not_and, Bool.not_eq_true]

/-- Writes alive are no newer than the newest one. -/
lemma seq_le_top (hh : Ordered h) (ht : top A h k = some w) {w' : Write Owner K V} (hw' : w' ∈ h)
    (hkey : w'.key = k) (halive : A w' = true) : w'.seq ≤ w.seq := by
  obtain ⟨-, front, back, rfl, hfront⟩ := find?_eq_some_iff_append.1 ht
  rcases mem_append.1 hw' with hmem | hmem
  · have := hfront w' hmem
    simp [hkey, halive] at this
  rcases mem_cons.1 hmem with rfl | hback
  · exact Nat.le_refl _
  · have hsorted := (pairwise_append.1 hh.sorted).2.1
    exact Nat.le_of_lt ((pairwise_cons.1 hsorted).1 w' hback)

lemma top_congr (hAB : ∀ w ∈ h, w.key = k → A w = B w) : top A h k = top B h k := by
  induction h with
  | nil => rfl
  | cons w h ih =>
    have hrest := ih fun w' hw' => hAB w' (mem_cons_of_mem _ hw')
    unfold top at hrest ⊢
    rw [find?_cons, find?_cons, hrest]
    by_cases hkey : w.key = k
    · rw [hAB w mem_cons_self hkey]
    · simp [hkey]

lemma content_congr (hAB : ∀ w ∈ h, w.key = k → A w = B w) :
    content A h init k = content B h init k := by
  rw [content, content, top_congr hAB]

/-- The writes below a generation do not see a newer one go. -/
lemma content_below_withdraw {m : ℕ} (hm : m ≤ n) :
    content (below (withdraw A n) m) h init k = content (below A m) h init k := by
  refine content_congr fun w _ _ => ?_
  simp only [below, withdraw]
  by_cases hlt : w.seq < m
  · have : w.seq ≠ n := by omega
    simp [this]
  · simp [hlt]

/-- **The newest write goes**, and the content is what was below it. -/
lemma content_withdraw_top (hh : Ordered h) (hn : 0 < n) (htop : (content A h init k).1 = n) :
    content (withdraw A n) h init k = content (below A n) h init k := by
  refine content_congr fun w hw hkey => ?_
  cases ht : top A h k with
  | none =>
    rw [content, ht] at htop
    exact absurd htop (Nat.ne_of_lt hn)
  | some w' =>
    rw [content, ht] at htop
    obtain rfl : w'.seq = n := htop
    simp only [withdraw, below]
    cases halive : A w with
    | false => rfl
    | true =>
      have hle := seq_le_top hh ht hw hkey halive
      simp only [Bool.true_and, decide_eq_decide]
      omega

/-- **Another write goes**, and the content stays. -/
lemma content_withdraw_of_ne (hne : (content A h init k).1 ≠ n) :
    content (withdraw A n) h init k = content A h init k := by
  cases ht : top A h k with
  | none =>
    have hnone : top (withdraw A n) h k = none := by
      refine top_eq_none.2 fun w hw hkey => ?_
      rw [withdraw, top_eq_none.1 ht w hw hkey]
      rfl
    rw [content, content, ht, hnone]
  | some w =>
    obtain ⟨hp, front, back, hh, hfront⟩ := find?_eq_some_iff_append.1 ht
    have hseq : w.seq ≠ n := by
      rw [content, ht] at hne
      exact hne
    have htop : top (withdraw A n) h k = some w := by
      refine find?_eq_some_iff_append.2 ⟨?_, front, back, hh, fun w' hw' => ?_⟩
      · simpa [withdraw, hseq] using hp
      have := hfront w' hw'
      simp only [Bool.not_eq_true', Bool.and_eq_false_iff] at this ⊢
      refine this.imp_right fun hdead => ?_
      rw [withdraw, hdead]
      rfl
    rw [content, content, ht, htop]

/-- A new write is the content of its key. -/
lemma content_cons (w : Write Owner K V) (hA : A w = true) :
    content A (w :: h) init k = if k = w.key then (w.seq, w.value) else content A h init k := by
  by_cases hk : k = w.key
  · rw [if_pos hk, content, top, find?_cons_of_pos (by simp [hk, hA])]
    rfl
  · rw [if_neg hk, content, top, find?_cons_of_neg (by simp [Ne.symm hk])]
    rfl

/-- Below its generation a write changes nothing. -/
lemma content_below_cons (w : Write Owner K V) (hn : n ≤ w.seq) :
    content (below A n) (w :: h) init k = content (below A n) h init k := by
  rw [content, top, find?_cons_of_neg (by simp [below]; omega)]
  rfl

/-- Above every generation nothing is below. -/
lemma content_below_of_lt (hlt : ∀ w ∈ h, w.seq < n) :
    content (below A n) h init k = content A h init k := by
  refine content_congr fun w hw _ => ?_
  simp [below, hlt w hw]

/-- The generation of a content is zero or that of a write alive. -/
lemma content_fst (A : Write Owner K V → Bool) (h : List (Write Owner K V)) (init : K → V) (k : K) :
    (content A h init k).1 = 0 ∨ ∃ w ∈ h, w.key = k ∧ A w = true ∧
    w.seq = (content A h init k).1 := by
  cases ht : top A h k with
  | none =>
    left
    rw [content, ht]
    rfl
  | some w =>
    obtain ⟨hmem, hkey, halive⟩ := top_eq_some ht
    right
    refine ⟨w, hmem, hkey, halive, ?_⟩
    rw [content, ht]
    rfl

end Generations
