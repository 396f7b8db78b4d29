import Mathlib.Tactic.Common

/-!
# Triples for computations with a state and errors

A computation of `EStateM ε σ` runs on a state and ends in a value or in an error, with the state it
has reached in both cases. `Triple P m Q E` says of every run of `m` from a state with `P` that it
ends in a value and a state with `Q`, or in an error and a state with `E`: a computation that cannot
fail has `E` false, and one that must keep something whatever happens has it in both.

The rules follow the computation. `iterate` is the loop that runs a body a fixed number of times on
an accumulator, and `Triple.iterate` its rule, with an invariant that may speak of the rounds done.
-/

namespace Hoare

variable {σ ε α β : Type} {P P' : σ → Prop} {Q Q' : α → σ → Prop} {E E' : ε → σ → Prop}
  {m : EStateM ε σ α}

/-- Every run from a state with `P` ends with `Q`, or in an error with `E`. -/
def Triple (P : σ → Prop) (m : EStateM ε σ α) (Q : α → σ → Prop) (E : ε → σ → Prop) : Prop :=
  ∀ s, P s → match m s with
    | .ok a s' => Q a s'
    | .error e s' => E e s'

/-- Run a body `n` times on an accumulator. -/
def iterate : Nat → (β → EStateM ε σ β) → β → EStateM ε σ β
  | 0, _, b => pure b
  | n + 1, body, b => do
    let b' ← body b
    iterate n body b'

namespace Triple

lemma pure {a : α} (h : ∀ s, P s → Q a s) : Triple P (pure a : EStateM ε σ α) Q E := h

lemma throw {e : ε} (h : ∀ s, P s → E e s) : Triple P (throw e : EStateM ε σ α) Q E := h

lemma modify {f : σ → σ} {Q : Unit → σ → Prop} (h : ∀ s, P s → Q () (f s)) :
    Triple P (modify f : EStateM ε σ Unit) Q E := h

lemma bind {R : β → σ → Prop} {f : α → EStateM ε σ β} (hm : Triple P m Q E)
    (hf : ∀ a, Triple (Q a) (f a) R E) : Triple P (m >>= f) R E := by
  intro s hs
  have h := hm s hs
  change match EStateM.bind m f s with
    | .ok a s' => R a s'
    | .error e s' => E e s'
  unfold EStateM.bind
  split at h <;> rename_i heq
  · rw [heq]
    exact hf _ _ h
  · rw [heq]
    exact h

/-! From one known state a computation can be followed step by step. -/

lemma of_state (h : ∀ s, P s → Triple (· = s) m Q E) : Triple P m Q E := fun s hs => h s hs s rfl

variable {s s' : σ}

lemma at_state (hm : Triple P m Q E) (hs : P s) : Triple (· = s) m Q E := by
  rintro _ rfl
  exact hm _ hs

lemma get_bind {g : σ → EStateM ε σ α} (h : Triple (· = s) (g s) Q E) :
    Triple (· = s) (get >>= g) Q E := by
  rintro _ rfl
  exact h _ rfl

lemma modify_bind {f : σ → σ} {g : Unit → EStateM ε σ α} (h : Triple (· = f s) (g ()) Q E) :
    Triple (· = s) (modifyGet (fun s => ((), f s)) >>= g) Q E := by
  rintro _ rfl
  exact h _ rfl

lemma conseq (hm : Triple P m Q E) (hP : ∀ s, P' s → P s) (hQ : ∀ a s, Q a s → Q' a s)
    (hE : ∀ e s, E e s → E' e s) : Triple P' m Q' E' := by
  intro s hs
  have h := hm s (hP s hs)
  split at h
  · exact hQ _ _ h
  · exact hE _ _ h

/-- A fact of the precondition that is not about the state. -/
lemma assume {p : Prop} (h : p → Triple P m Q E) : Triple (fun s => p ∧ P s) m Q E :=
  fun s hs => h hs.1 s hs.2

lemma ite {c : Prop} [Decidable c] {m' : EStateM ε σ α} (ht : c → Triple P m Q E)
    (hf : ¬ c → Triple P m' Q E) : Triple P (if c then m else m') Q E := by
  split
  · exact ht ‹_›
  · exact hf ‹_›

/-- The invariant of a loop may count the rounds that are done. -/
lemma iterate {body : β → EStateM ε σ β} {I : Nat → β → σ → Prop} {n : Nat}
    (h : ∀ i < n, ∀ b, Triple (I i b) (body b) (I (i + 1)) E) (b : β) :
    Triple (I 0 b) (iterate n body b) (I n) E := by
  induction n generalizing I b with
  | zero => exact pure fun _ hs => hs
  | succ n ih =>
    refine bind (h 0 (Nat.succ_pos n) b) fun b' => ?_
    exact @ih (fun i => I (i + 1)) (fun i hi => h (i + 1) (Nat.succ_lt_succ hi)) b'

/-- What a triple says of one run that returns. -/
lemma elim_ok (hm : Triple P m Q E) {a : α} (hs : P s) (h : m s = .ok a s') : Q a s' := by
  have := hm s hs
  rw [h] at this
  exact this

lemma elim_error (hm : Triple P m Q E) {e : ε} (hs : P s) (h : m s = .error e s') : E e s' := by
  have := hm s hs
  rw [h] at this
  exact this

/-- A computation that cannot fail returns. -/
lemma exists_ok (hm : Triple P m Q fun _ _ => False) (hs : P s) :
    ∃ a s', m s = .ok a s' ∧ Q a s' := by
  cases h : m s with
  | ok a s' => exact ⟨a, s', rfl, hm.elim_ok hs h⟩
  | error e s' => exact (hm.elim_error hs h).elim

end Triple

end Hoare
