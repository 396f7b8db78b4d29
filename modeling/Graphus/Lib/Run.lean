import Mathlib.Data.List.Basic

/-!
# Runs of a guarded step function

A system is a step function that refuses an action by returning `none`. A run executes a list of
actions from a start state and is refused when one of them is. `Along step C s tr` says that every
step of the run meets the condition `C` on the state before it.

`exec_invariant` is the invariant rule. The invariant may speak of a ghost value that follows the
actions, such as the history of the run. `exec_simulates` is the simulation rule: each action is
matched by a run of another system.
-/

namespace Run

variable {σ ι γ : Type} {step : σ → ι → Option σ} {C : σ → ι → Prop} {s s' : σ}
  {a : ι} {tr : List ι}

/-- Execute the actions of `tr` in order. -/
def exec (step : σ → ι → Option σ) (s : σ) : List ι → Option σ
  | [] => some s
  | a :: tr => (step s a).bind fun s' => exec step s' tr

@[simp] lemma exec_nil : exec step s [] = some s := rfl

lemma exec_cons : exec step s (a :: tr) = (step s a).bind fun s' => exec step s' tr := rfl

lemma exec_append (tr tr' : List ι) :
    exec step s (tr ++ tr') = (exec step s tr).bind fun s' => exec step s' tr' := by
  induction tr generalizing s with
  | nil => rfl
  | cons a tr ih =>
    rw [List.cons_append, exec_cons, exec_cons, Option.bind_assoc]
    exact congrArg _ (funext fun s' => ih)

/-- A step that is taken only under a guard. -/
lemma guarded {c : Prop} [Decidable c] (h : (if c then some s else none) = some s') :
    c ∧ s = s' := by
  rwa [Option.ite_none_right_eq_some, Option.some.injEq] at h

/-- Every step of the run meets the condition. -/
def Along (step : σ → ι → Option σ) (C : σ → ι → Prop) (s : σ) : List ι → Prop
  | [] => True
  | a :: tr => C s a ∧ ∀ s' ∈ step s a, Along step C s' tr

instance Along.decide [∀ s a, Decidable (C s a)] : ∀ s tr, Decidable (Along step C s tr)
  | _, [] => isTrue trivial
  | s, a :: tr =>
    have : ∀ s', Decidable (Along step C s' tr) := fun s' => Along.decide s' tr
    inferInstanceAs (Decidable (C s a ∧ ∀ s' ∈ step s a, Along step C s' tr))

/-- A condition that every step meets. -/
lemma Along.of_forall (h : ∀ s, ∀ a ∈ tr, C s a) : Along step C s tr := by
  induction tr generalizing s with
  | nil => trivial
  | cons a tr ih =>
    exact ⟨h s a List.mem_cons_self, fun s' _ => ih fun s a ha => h s a (List.mem_cons_of_mem _ ha)⟩

lemma Along.always : Along step (fun _ _ => True) s tr := .of_forall fun _ _ _ => trivial

lemma Along.take (h : Along step C s tr) (n : Nat) : Along step C s (tr.take n) := by
  induction tr generalizing s n with
  | nil => simp [Along]
  | cons a tr ih =>
    cases n with
    | zero => trivial
    | succ n => exact ⟨h.1, fun s' hs' => ih (h.2 s' hs') n⟩

variable {ghost : γ → ι → γ}

/-- **The invariant rule.** -/
lemma exec_invariant {I : γ → σ → Prop} {g : γ}
    (hstep : ∀ {g s a s'}, I g s → C s a → step s a = some s' → I (ghost g a) s')
    (hinit : I g s) (hC : Along step C s tr) (hrun : exec step s tr = some s') :
    I (tr.foldl ghost g) s' := by
  induction tr generalizing g s with
  | nil =>
    cases hrun
    exact hinit
  | cons a tr ih =>
    rw [exec_cons, Option.bind_eq_some_iff] at hrun
    obtain ⟨s1, h1, h2⟩ := hrun
    exact ih (hstep hinit hC.1 h1) (hC.2 s1 h1) h2

/-- The invariant rule for a property of the state alone. -/
lemma exec_preserves {I : σ → Prop} (hstep : ∀ {s a s'}, I s → C s a → step s a = some s' → I s')
    (hinit : I s) (hC : Along step C s tr) (hrun : exec step s tr = some s') : I s' :=
  @exec_invariant σ ι Unit step C s s' tr (fun g _ => g) (fun _ => I) ()
    (fun hi hc hs => hstep hi hc hs) hinit hC hrun

/-- **The simulation rule.** -/
lemma exec_simulates {σ0 : Type} {step0 : σ0 → ι → Option σ0} {emit : ι → List ι}
    {R : γ → σ0 → σ → Prop} {g : γ} {s0 : σ0}
    (hstep : ∀ {g s0 s a s'}, R g s0 s → C s a → step s a = some s' →
      ∃ s0', exec step0 s0 (emit a) = some s0' ∧ R (ghost g a) s0' s')
    (hinit : R g s0 s) (hC : Along step C s tr) (hrun : exec step s tr = some s') :
    ∃ s0', exec step0 s0 (tr.flatMap emit) = some s0' ∧ R (tr.foldl ghost g) s0' s' := by
  induction tr generalizing g s0 s with
  | nil =>
    cases hrun
    exact ⟨s0, rfl, hinit⟩
  | cons a tr ih =>
    rw [exec_cons, Option.bind_eq_some_iff] at hrun
    obtain ⟨s1, h1, h2⟩ := hrun
    obtain ⟨s01, hemit, hR⟩ := hstep hinit hC.1 h1
    obtain ⟨s0', htr, hR'⟩ := ih hR (hC.2 s1 h1) h2
    refine ⟨s0', ?_, hR'⟩
    rw [List.flatMap_cons, exec_append, hemit]
    exact htr

end Run
