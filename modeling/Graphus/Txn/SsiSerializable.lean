import Graphus.Lib.FirstCommitter
import Graphus.Txn.SsiPruning

/-!
# Serializability of tracked runs

The direct serialization graph of a trace is defined from the recorded operations alone, as in
`graphus-txn/src/serializability.rs`: the versions of a key are ordered by the commit timestamps
of their writers, a read observes its own transaction's version if it has written the key before
and the snapshot version otherwise, and there are ww, wr and rw edges between committed
transactions. A predicate read depends on every earlier committer whose footprint contains the
predicate, and has an rw edge to every later one.

Every edge of the graph either goes from a transaction that committed before its target began, or
is an antidependency of the history. So a cycle contains the two consecutive antidependencies
`x → p → y` of `Dependency.exists_dangerous_of_cycle`, which the invariant of the run excludes.

**Theorem (`dsg_acyclic`).** Without pruning the graph of every run is acyclic.

**Theorem (`safeStep_keeps_outcome`).** When every prune is safe, the run without the prunes goes
through as well and `detectPivotAbort` answers the same in both, so the graph is acyclic.
`prunedTrace` is a run with a cycle: its prune forgets the outbound partner of a committed
transaction that an active one can still form an edge to.
-/

namespace Graphus

open History Option
open SsiState (step)
open Run (exec)

section Graph

variable (tr : List SsiOp)

/-- `w` committed, at `c`, a version of key `k`. -/
def Installed (k w c : Nat) : Prop :=
  (historyOf tr).commitTs w = some c ∧ (historyOf tr).did .write w (.key k)

/-- The version of `k` in the snapshot of `t`: by the last writer that committed at or before its
begin timestamp, or the initial one. -/
def SnapshotVersion (t k : Nat) : Option Nat → Prop
  | some w => ∃ b c, (historyOf tr).beginTs t = some b ∧ Installed tr k w c ∧ c ≤ b ∧
      ∀ w' c', Installed tr k w' c' → c' ≤ b → c' ≤ c
  | none => ∃ b, (historyOf tr).beginTs t = some b ∧ ∀ w' c', Installed tr k w' c' → b < c'

/-- Some read of `k` by `t` observes the version `v`. -/
def Observes (t k : Nat) (v : Option Nat) : Prop :=
  ∃ pre post, tr = pre ++ .read t k :: post ∧
    (((historyOf pre).did .write t (.key k) ∧ v = some t) ∨
      (¬ (historyOf pre).did .write t (.key k) ∧ SnapshotVersion tr t k v))

/-- `w` installed the version of `k` that directly follows `v`. -/
def NextVersion (k : Nat) : Option Nat → Nat → Prop
  | some u, w => ∃ cu cw, Installed tr k u cu ∧ Installed tr k w cw ∧ cu < cw ∧
      ∀ w' c', Installed tr k w' c' → c' ≤ cu ∨ cw ≤ c'
  | none, w => ∃ cw, Installed tr k w cw ∧ ∀ w' c', Installed tr k w' c' → cw ≤ c'

def Committed (t : Nat) : Prop := ((historyOf tr).commitTs t).isSome

/-- The direct serialization graph over the committed transactions. -/
inductive Dsg : Nat → Nat → Prop
  | ww {k u w} : NextVersion tr k (some u) w → Dsg u w
  | wr {k w t} : Committed tr t → w ≠ t → Observes tr t k (some w) → Dsg w t
  | rw {k v t w} : Committed tr t → t ≠ w → Observes tr t k v → NextVersion tr k v w → Dsg t w
  | predicateWr {p w t} : Committed tr t → w ≠ t → (historyOf tr).did .read t (.predicate p) →
      (historyOf tr).did .write w (.predicate p) → (historyOf tr).Before w t → Dsg w t
  | predicateRw {p t w} : Committed tr t → Committed tr w → t ≠ w →
      (historyOf tr).did .read t (.predicate p) → (historyOf tr).did .write w (.predicate p) →
      ¬ (historyOf tr).Before w t → Dsg t w

/-- No two concurrent committed transactions wrote the same key. -/
def NoConcurrentWriters : Prop :=
  ∀ a b k ca cb, a ≠ b → Installed tr k a ca → Installed tr k b cb → ¬ (historyOf tr).Concurrent a b

end Graph

section Edges

variable {tr : List SsiOp} {s : SsiState}

variable {t k w : Nat}

lemma History.did_apply {H : History} {a : Access} {m : Marker} (h : H.did a t m) (op : SsiOp) :
    (H.apply op).did a t m := by
  cases op with
  | read t k => exact .inl h
  | write t k => exact .inl h
  | predicateRead t p => exact .inl h
  | predicateWrite t f =>
    induction f generalizing H with
    | nil => exact h
    | cons p f ih => exact ih (.inl h)
  | register t ts => exact h
  | commit t c => exact h
  | abort t => exact h
  | prune lowWater => exact h

lemma did_of_prefix {a : Access} {m : Marker} {pre post : List SsiOp}
    (h : (historyOf pre).did a t m) : (historyOf (pre ++ post)).did a t m := by
  rw [historyOf, List.foldl_append, ← historyOf]
  generalize historyOf pre = H at h
  induction post generalizing H with
  | nil => exact h
  | cons op post ih => exact ih _ (did_apply h op)

/-- A read in the trace is a read of the history. -/
lemma did_of_observes {v : Option Nat} (h : Observes tr t k v) :
    (historyOf tr).did .read t (.key k) := by
  obtain ⟨pre, post, rfl, -⟩ := h
  rw [List.append_cons]
  refine did_of_prefix ?_
  rw [historyOf, List.foldl_append]
  exact .inr ⟨rfl, rfl, rfl⟩

/-- Consecutive versions are never by concurrent transactions. -/
lemma before_of_nextVersion (h : SsiInv (historyOf tr) s) (hww : NoConcurrentWriters tr) {u : Nat}
    (hn : NextVersion tr k (some u) w) :
    Committed tr u ∧ Committed tr w ∧ u ≠ w ∧ (historyOf tr).Before u w := by
  obtain ⟨cu, cw, hu, hw, hlt, -⟩ := hn
  have hne : u ≠ w := by
    intro huw
    have := some.inj (hu.1.symm.trans (huw ▸ hw.1))
    omega
  refine ⟨isSome_of_eq_some hu.1, isSome_of_eq_some hw.1, hne, ?_⟩
  by_contra hb
  refine hww u w k cu cw hne hu hw ⟨hb, ?_⟩
  intro ⟨c, b, hc, hbu, hle⟩
  have h1 := h.begin_lt hbu hu.1
  have h2 := some.inj (hw.1.symm.trans hc)
  omega

/-- The writer that follows the snapshot version committed after the snapshot was taken. -/
lemma not_before_of_snapshotVersion {v : Option Nat} (hv : SnapshotVersion tr t k v)
    (hn : NextVersion tr k v w) :
    Committed tr w ∧ (historyOf tr).did .write w (.key k) ∧ ¬ (historyOf tr).Before w t := by
  cases v with
  | none =>
    obtain ⟨b, hb, hlast⟩ := hv
    obtain ⟨cw, hw, -⟩ := hn
    refine ⟨isSome_of_eq_some hw.1, hw.2, fun ⟨c, b', hc, hb', hle⟩ => ?_⟩
    have h1 := hlast w cw hw
    have h2 := some.inj (hw.1.symm.trans hc)
    have h3 := some.inj (hb.symm.trans hb')
    omega
  | some u =>
    obtain ⟨b, c, hb, hu, hle, hlast⟩ := hv
    obtain ⟨cu, cw, hu', hw, hlt, -⟩ := hn
    refine ⟨isSome_of_eq_some hw.1, hw.2, fun ⟨c', b', hc, hb', hle'⟩ => ?_⟩
    have h2 := some.inj (hw.1.symm.trans hc)
    have h3 := some.inj (hb.symm.trans hb')
    have h4 := some.inj (hu.1.symm.trans hu'.1)
    have h1 := hlast w cw hw (by omega)
    omega

section

variable (h : SsiInv (historyOf tr) s) (hww : NoConcurrentWriters tr)

include h hww

/-- **Every edge of the graph respects time or is an antidependency.** -/
lemma Dsg.before_or_edge {a b : Nat} (hab : Dsg tr a b) : Committed tr a ∧ Committed tr b ∧ a ≠ b ∧
      ((historyOf tr).Before a b ∨ (historyOf tr).Edge a b) := by
  -- an edge from a reader to a writer it does not see is an antidependency unless time orders it
  have anti : ∀ {t w m}, Committed tr t → Committed tr w → t ≠ w →
      (historyOf tr).did .read t m → (historyOf tr).did .write w m →
      ¬ (historyOf tr).Before w t → Committed tr t ∧ Committed tr w ∧ t ≠ w ∧
        ((historyOf tr).Before t w ∨ (historyOf tr).Edge t w) := by
    intro t w m ht hw hne hr hwr hnb
    refine ⟨ht, hw, hne, ?_⟩
    by_cases hb : (historyOf tr).Before t w
    · exact .inl hb
    · exact .inr ⟨hne, ⟨m, hr, hwr⟩, hb, hnb⟩
  cases hab with
  | ww hn =>
    obtain ⟨h1, h2, h3, h4⟩ := before_of_nextVersion h hww hn
    exact ⟨h1, h2, h3, .inl h4⟩
  | wr ht hne ho =>
    obtain ⟨pre, post, -, ⟨-, hv⟩ | ⟨-, b', c, hb, hw, hle, -⟩⟩ := ho
    · exact absurd (some.inj hv) hne
    · exact ⟨isSome_of_eq_some hw.1, ht, hne, .inl ⟨c, b', hw.1, hb, hle⟩⟩
  | rw ht hne ho hn =>
    have hr := did_of_observes ho
    obtain ⟨pre, post, -, ⟨-, rfl⟩ | ⟨-, hv⟩⟩ := ho
    · obtain ⟨h1, h2, h3, h4⟩ := before_of_nextVersion h hww hn
      exact ⟨h1, h2, h3, .inl h4⟩
    · obtain ⟨hw, hwr, hnb⟩ := not_before_of_snapshotVersion hv hn
      exact anti ht hw hne hr hwr hnb
  | predicateWr ht hne hr hw hb =>
    obtain ⟨c, b', hc, hb', hle⟩ := hb
    exact ⟨isSome_of_eq_some hc, ht, hne, .inl ⟨c, b', hc, hb', hle⟩⟩
  | predicateRw ht hw hne hr hwr hnb => exact anti ht hw hne hr hwr hnb

/-- **The graph of a run that satisfies the invariant is acyclic.** -/
lemma acyclic_of_ssiInv :
    Dependency.Acyclic (Dsg tr) := by
  have times : ∀ {t}, Committed tr t → ∃ b c, (historyOf tr).beginTs t = some b ∧
      (historyOf tr).commitTs t = some c ∧ b < c := by
    intro t ht
    obtain ⟨c, hc⟩ := isSome_iff_exists.1 ht
    obtain ⟨b, hb⟩ := isSome_iff_exists.1 (h.wf.commit hc)
    exact ⟨b, c, hb, hc, h.begin_lt hb hc⟩
  refine Dependency.acyclic_of_no_dangerous
    (fun a b => Committed tr a ∧ Committed tr b ∧ (historyOf tr).Edge a b)
    (fun t => ((historyOf tr).beginTs t).getD 0)
    (fun t => ((historyOf tr).commitTs t).getD 0) ?_ ?_ ?_ ?_ ?_
  · intro a b hab
    obtain ⟨-, hb, -, -⟩ := hab.before_or_edge h hww
    obtain ⟨_, _, h1, h2, hlt⟩ := times hb
    simpa [h1, h2] using hlt
  · intro a b hab
    obtain ⟨ha, hb, -, hor⟩ := hab.before_or_edge h hww
    obtain ⟨ba, ca, h1, h2, hlt⟩ := times ha
    obtain ⟨bb, cb, h3, h4, hlt'⟩ := times hb
    rcases hor with ⟨c, b', hc, hb', hle⟩ | hE
    · left
      simpa [hc, hb'] using hle
    refine .inr ⟨⟨ha, hb, hE⟩, ?_⟩
    by_contra hle
    refine hE.2.2.2 ⟨cb, ba, h4, h1, ?_⟩
    simpa [h1, h4] using hle
  · intro a b hab
    obtain ⟨ha, hb, hne, -⟩ := hab.before_or_edge h hww
    obtain ⟨_, ca, _, h2, _⟩ := times ha
    obtain ⟨_, cb, _, h4, _⟩ := times hb
    refine .inr fun heq => hne (h.commit_inj h2 ?_)
    simp only [h2, h4, getD_some] at heq
    rw [h4, heq]
  · intro a haa
    exact (haa.before_or_edge h hww).2.2.1 rfl
  · intro x p y ⟨hx, hp, hxp⟩ ⟨_, hy, hpy⟩ hlt _
    obtain ⟨_, cx, _, hcx, _⟩ := times hx
    obtain ⟨_, cp, _, hcp, _⟩ := times hp
    obtain ⟨_, cy, _, hcy, _⟩ := times hy
    simp only [hcp, hcy] at hlt
    have := (h.safe hcp hcy hlt hpy hxp).1
    rw [hcx] at this
    cases this

end

end Edges

/-! ## The main results -/

/-- **Serializability.** In every run without pruning in which no two concurrent committed
transactions wrote the same key, the direct serialization graph is acyclic. -/
theorem dsg_acyclic {tr : List SsiOp} {s : SsiState}
    (hrun : exec step {} tr = some s) (hprune : ∀ lowWater, .prune lowWater ∉ tr)
    (hww : NoConcurrentWriters tr) : Dependency.Acyclic (Dsg tr) := by
  have hsafe : Run.Along step SafeStep {} tr := by
    refine Run.Along.of_forall fun s op hop => ?_
    cases op with
    | prune lowWater => exact absurd hop (hprune lowWater)
    | _ => trivial
  obtain ⟨s0, -, h⟩ := Agrees.of_exec hsafe hrun
  exact acyclic_of_ssiInv h.full hww

/-- Two transactions with the write-skew pattern, one of which aborts, and a third one that reads
and overwrites what the other committed. -/
def writeSkewTrace : List SsiOp :=
  [.register 1 1, .register 2 2, .read 1 20, .read 2 10, .write 1 10, .write 2 20, .abort 1,
    .commit 2 3, .register 3 4, .read 3 20, .predicateRead 3 (.label 7), .write 3 20,
    .predicateWrite 3 [.allNodes, .label 7], .commit 3 5]

lemma writeSkew_noConcurrentWriters : NoConcurrentWriters writeSkewTrace := by
  have hcommit : ∀ t, (historyOf writeSkewTrace).commitTs t =
      if t = 3 then some 5 else if t = 2 then some 3 else none := by
    simp [writeSkewTrace, historyOf, apply, register, record, commit, empty, Function.update_apply]
  have h23 : (historyOf writeSkewTrace).Before 2 3 := ⟨3, 4, rfl, rfl, by decide⟩
  rintro a b k ca cb hne ⟨hca, -⟩ ⟨hcb, -⟩ hcon
  rw [hcommit] at hca hcb
  split_ifs at hca hcb
  · omega
  · exact hcon.2 (by simp [*])
  · exact hcon.1 (by simp [*])
  · omega

theorem dsg_acyclic_writeSkew : (exec step {} writeSkewTrace).isSome ∧
    Dependency.Acyclic (Dsg writeSkewTrace) := by
  have hs : (exec step {} writeSkewTrace).isSome := by decide
  obtain ⟨s, hs'⟩ := isSome_iff_exists.1 hs
  exact ⟨hs, dsg_acyclic hs' (by simp [writeSkewTrace]) writeSkew_noConcurrentWriters⟩

/-- **A safe prune changes no outcome.** A run in which each prune is safe is, without its prunes,
a run as well. Both have the same active transactions, for which `detectPivotAbort` answers the
same in both. So, if no two concurrent committed transactions wrote the same key, the direct
serialization graph over all committed transactions, the retired ones included, is acyclic. -/
theorem safeStep_keeps_outcome {tr : List SsiOp} {s : SsiState}
    (hrun : exec step {} tr = some s)
    (hsafe : Run.Along step SafeStep {} tr) :
    ∃ s0, exec step {} (tr.flatMap SsiOp.unpruned) = some s0 ∧
      (∀ t, s.tracker.isActive t = s0.tracker.isActive t) ∧
      (∀ t, s.tracker.isActive t = true →
        s.tracker.detectPivotAbort t = s0.tracker.detectPivotAbort t) ∧
      (NoConcurrentWriters tr → Dependency.Acyclic (Dsg tr)) := by
  obtain ⟨s0, hrun0, h⟩ := Agrees.of_exec hsafe hrun
  refine ⟨s0, hrun0, fun t => h.isActive_eq, fun t ht => ?_, acyclic_of_ssiInv h.full⟩
  obtain ⟨hmem, hact⟩ := h.mirrors.isActive_iff.1 ht
  exact h.detectPivotAbort_eq hmem hact

/-- The prune retires transaction 2, and transaction 1 with an edge to it survives. Then 3 becomes
a pivot between 5 and the committed 4. -/
def retiredTrace : List SsiOp :=
  [.register 1 1, .register 2 2, .read 1 10, .write 2 10, .commit 2 3, .write 1 20, .commit 1 4,
    .register 3 5, .register 4 6, .prune (some 3), .read 3 30, .read 4 20, .write 4 30,
    .commit 4 7, .register 5 8, .read 5 50, .write 3 50]

lemma retired_noConcurrentWriters : NoConcurrentWriters retiredTrace := by
  have hwrote : ∀ t k, (historyOf retiredTrace).did .write t (.key k) →
      ((t = 2 ∧ k = 10 ∨ t = 1 ∧ k = 20) ∨ t = 4 ∧ k = 30) ∨ t = 3 ∧ k = 50 := by
    simp [retiredTrace, historyOf, apply, register, record, commit, empty]
  intro a b k ca cb hne ha hb
  have h1 := hwrote a k ha.2
  have h2 := hwrote b k hb.2
  omega

theorem safeStep_keeps_outcome_retired : ∃ s s0,
    exec step {} retiredTrace = some s ∧
    exec step {} (retiredTrace.flatMap SsiOp.unpruned) = some s0 ∧
    2 ∉ s.tracker.txns ∧ 2 ∈ s0.tracker.txns ∧
    s.tracker.detectPivotAbort 3 = some 3 ∧ s0.tracker.detectPivotAbort 3 = some 3 ∧
    Dependency.Acyclic (Dsg retiredTrace) := by
  have hs : (exec step {} retiredTrace).any fun s =>
      s.tracker.isActive 3 && decide (2 ∉ s.tracker.txns) &&
        decide (s.tracker.detectPivotAbort 3 = some 3) := by decide
  obtain ⟨s, hrun, hs⟩ := (any_eq_true _ _).1 hs
  simp only [Bool.and_eq_true, decide_eq_true_eq] at hs
  obtain ⟨s0, hrun0, -, hdetect, hacyclic⟩ := safeStep_keeps_outcome hrun (by decide)
  have hs0 : (exec step {} (retiredTrace.flatMap SsiOp.unpruned)).any fun s =>
      decide (2 ∈ s.tracker.txns) := by decide
  rw [hrun0, any_some, decide_eq_true_eq] at hs0
  exact ⟨s, s0, hrun, hrun0, hs.1.2, hs0, hs.2, hdetect 3 hs.1.1 ▸ hs.2,
    hacyclic retired_noConcurrentWriters⟩

-- An inbound edge matters as well: the prune retires 1, with its edge to the survivor 2, and 3
-- then overwrites what 2 read.
example :
    let before : List SsiOp := [.register 1 1, .register 2 2, .read 1 10, .write 2 10, .read 2 20,
      .commit 1 3, .register 3 4, .commit 2 5]
    ((exec step {} (before ++ [.write 3 20])).map
      fun s => s.tracker.detectPivotAbort 3) = some (some 3) ∧
    ((exec step {} (before ++ [.prune (some 4), .write 3 20])).map
      fun s => s.tracker.detectPivotAbort 3) = some none ∧
    ¬ Run.Along step SafeStep {} (before ++ [.prune (some 4)]) := by decide

/-- Transaction 1 reads key 10 before transaction 2 overwrites it and commits. Transaction 3
begins, transaction 1 writes key 20 and commits. -/
def beforePrune : List SsiOp :=
  [.register 1 1, .register 2 2, .read 1 10, .write 2 10, .commit 2 3, .register 3 4,
    .write 1 20, .commit 1 5]

/-- Transaction 3 reads the new value of key 10 and the old value of key 20. -/
def afterPrune : List SsiOp := [.read 3 10, .read 3 20]

/-- The prune at transaction 3's begin timestamp forgets transaction 2, and with it that the
committed transaction 1 has an outbound edge. -/
def prunedTrace : List SsiOp :=
  beforePrune ++ .prune (some 4) :: afterPrune ++ [.commit 3 6]

section Pruned

lemma prunedTrace_commitTs (t : Nat) : (historyOf prunedTrace).commitTs t =
    if t = 3 then some 6 else if t = 1 then some 5 else if t = 2 then some 3 else none := by
  simp [prunedTrace, beforePrune, afterPrune, historyOf, apply, register,
    record, commit, empty, Function.update_apply]

lemma prunedTrace_wrote (t k : Nat) : (historyOf prunedTrace).did .write t (.key k) ↔
    (t = 2 ∧ k = 10) ∨ (t = 1 ∧ k = 20) := by
  simp [prunedTrace, beforePrune, afterPrune, historyOf, apply, register, record, commit, empty]

lemma prunedTrace_installed {k w c : Nat} : Installed prunedTrace k w c ↔
    (k = 10 ∧ w = 2 ∧ c = 3) ∨ (k = 20 ∧ w = 1 ∧ c = 5) := by
  rw [Installed, prunedTrace_commitTs, prunedTrace_wrote]
  constructor
  · intro ⟨hc, hw⟩
    rcases hw with ⟨rfl, rfl⟩ | ⟨rfl, rfl⟩
    · simp_all
    · simp_all
  · intro h
    rcases h with ⟨rfl, rfl, rfl⟩ | ⟨rfl, rfl, rfl⟩ <;> simp

/-- **A prune can hide a dangerous structure.** The run is allowed at every step, its prune
included, and no key has two writers, but transaction 3 reads from 2, 2 overwrites what 1 read and
1 overwrites what 3 read. Without the prune transaction 3 is told to abort. -/
theorem prunedTrace_cyclic : (exec step {} prunedTrace).isSome ∧ NoConcurrentWriters prunedTrace ∧
      ¬ Dependency.Acyclic (Dsg prunedTrace) ∧
      ((exec step {} (beforePrune ++ afterPrune)).map
        fun s => s.tracker.detectPivotAbort 3) = some (some 3) ∧
      ((exec step {} (beforePrune ++ .prune (some 4) :: afterPrune)).map
        fun s => s.tracker.detectPivotAbort 3) = some none := by
  refine ⟨by decide, ?_, ?_, by decide, by decide⟩
  · intro a b k ca cb hne ha hb
    rw [prunedTrace_installed] at ha hb
    omega
  have h23 : Dsg prunedTrace 2 3 := by
    refine .wr (k := 10) rfl (by decide) ⟨beforePrune ++ [.prune (some 4)], _, rfl, .inr ⟨?_, ?_⟩⟩
    · simp [beforePrune, historyOf, apply, register, record, commit, empty]
    · refine ⟨4, 3, rfl, prunedTrace_installed.2 (by decide), by decide, fun w c h _ => ?_⟩
      rw [prunedTrace_installed] at h
      omega
  have h31 : Dsg prunedTrace 3 1 := by
    refine .rw (k := 20) (v := none) rfl (by decide)
      ⟨beforePrune ++ [.prune (some 4), .read 3 10], _, rfl, .inr ⟨?_, 4, rfl, fun w c h => ?_⟩⟩
      ⟨5, prunedTrace_installed.2 (by decide), fun w c h => ?_⟩
    · simp [beforePrune, historyOf, apply, register, record, commit, empty]
    all_goals
      rw [prunedTrace_installed] at h
      omega
  have h12 : Dsg prunedTrace 1 2 := by
    refine .rw (k := 10)
      (v := none) rfl (by decide) ⟨beforePrune.take 2, _, rfl, .inr ⟨?_, 1, rfl, fun w c h => ?_⟩⟩
      ⟨3, prunedTrace_installed.2 (by decide), fun w c h => ?_⟩
    · simp [beforePrune, historyOf, apply, register, empty]
    all_goals
      rw [prunedTrace_installed] at h
      omega
  intro h
  exact h 1 (.tail (.tail (.single h12) h23) h31)

end Pruned

end Graphus
