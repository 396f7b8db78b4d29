import Graphus.Lib.Run

/-!
# Threads over a shared memory

A system of threads. Each thread is at a phase of its program. An action of a thread reads and
writes the shared memory in one step and moves that thread alone to its next phase. A schedule is a
list of actions, each with the thread that takes it, so a statement about every schedule is a
statement about every interleaving.

A *proof outline* attaches an assertion to the shared memory and one to each thread. Its obligations
are local: an action keeps the assertion of the memory and establishes the assertion of the thread
that takes it (`Outline.own`), and it does not disturb the assertion of another thread
(`Outline.free`). The assertions may speak of the schedule so far.

**Theorem (`Outline.exec`).** The assertions of a proof outline hold after every schedule.
-/

/-- The shared memory and the phase of each thread. -/
structure Threads (Tid σ φ : Type) where
  shared : σ
  phase : Tid → φ

namespace Threads

variable {Tid σ φ α : Type}

section Step

variable [DecidableEq Tid] {act : Tid → σ → φ → α → Option (σ × φ)} {s s' : Threads Tid σ φ}

/-- One action of one thread. -/
def step (act : Tid → σ → φ → α → Option (σ × φ)) (s : Threads Tid σ φ) (op : Tid × α) :
    Option (Threads Tid σ φ) :=
  (act op.1 s.shared (s.phase op.1) op.2).map fun r => ⟨r.1, Function.update s.phase op.1 r.2⟩

lemma step_eq_some {op : Tid × α} (h : step act s op = some s') :
    ∃ m p, act op.1 s.shared (s.phase op.1) op.2 = some (m, p) ∧
    s' = ⟨m, Function.update s.phase op.1 p⟩ := by
  rw [step, Option.map_eq_some_iff] at h
  obtain ⟨⟨m, p⟩, hact, rfl⟩ := h
  exact ⟨m, p, hact, rfl⟩

end Step

/-- A proof outline for the actions `act`. -/
structure Outline (act : Tid → σ → φ → α → Option (σ × φ)) where
  /-- What holds of the shared memory after a schedule. -/
  memory : List (Tid × α) → σ → Prop
  /-- What holds of a thread at a phase after a schedule. -/
  thread : List (Tid × α) → σ → Tid → φ → Prop
  /-- An action keeps the memory's assertion and establishes that of its own thread. -/
  own : ∀ {g m t p a m' p'}, memory g m → thread g m t p → act t m p a = some (m', p') →
    memory (g ++ [(t, a)]) m' ∧ thread (g ++ [(t, a)]) m' t p'
  /-- An action does not interfere with another thread. -/
  free : ∀ {g m t p a m' p' u q}, memory g m → thread g m t p → act t m p a = some (m', p') →
    u ≠ t → thread g m u q → thread (g ++ [(t, a)]) m' u q

namespace Outline

variable {act : Tid → σ → φ → α → Option (σ × φ)} (O : Outline act)

/-- All assertions of the outline. -/
def Holds (g : List (Tid × α)) (s : Threads Tid σ φ) : Prop :=
  O.memory g s.shared ∧ ∀ t, O.thread g s.shared t (s.phase t)

variable [DecidableEq Tid] {s s' : Threads Tid σ φ} {g : List (Tid × α)}

lemma holds_step {op : Tid × α} (h : O.Holds g s) (hstep : step act s op = some s') :
    O.Holds (g ++ [op]) s' := by
  obtain ⟨m, p, hact, rfl⟩ := step_eq_some hstep
  obtain ⟨hm, hp⟩ := O.own h.1 (h.2 op.1) hact
  refine ⟨hm, fun u => ?_⟩
  by_cases hu : u = op.1
  · subst hu
    simpa using hp
  · simpa [hu] using O.free h.1 (h.2 op.1) hact hu (h.2 u)

/-- **The assertions hold after every schedule.** -/
theorem exec {tr : List (Tid × α)} (h : O.Holds [] s) (hrun : Run.exec (step act) s tr = some s') :
    O.Holds tr s' := by
  have hfold : O.Holds (tr.foldl (fun g op => g ++ [op]) []) s' :=
    Run.exec_invariant (C := fun _ _ => True) (I := O.Holds)
      (fun hi _ hs => O.holds_step hi hs) h Run.Along.always hrun
  have hsnoc : ∀ (l g : List (Tid × α)), l.foldl (fun g op => g ++ [op]) g = g ++ l := by
    intro l
    induction l with
    | nil => simp
    | cons op l ih => simp [ih]
  rwa [hsnoc] at hfold

end Outline

end Threads
