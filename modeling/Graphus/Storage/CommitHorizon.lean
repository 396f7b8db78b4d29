import Graphus.Lib.Horizon
import Graphus.Storage.CommitPath

/-!
# The commit-visibility horizon

The sequencer of the commit path is the sequencer of `Horizon`: a transaction has a number out from
the moment its timestamp is issued until it is published or abandoned (`Phase.ticket`), and every
action is a step of that sequencer or none at all (`step_refines`).

**Theorem (`horizon_honest`).** Under every schedule, a transaction whose timestamp is at most a
snapshot that has been returned is settled: it has published its commit slot and its registry entry,
had nothing to publish, or was abandoned. The horizon never falls, and when no timestamp is pending
it is the last one issued.
-/

namespace Graphus.CommitPath

open Horizon Function List

variable {Tid : Type} {ownsSlot : Tid → Bool} {t : Tid} {m m' : Shared Tid}
  {p p' : Phase} {a : Action}

/-! ## The sequencer -/

/-- The timestamp of a transaction, and whether it is still pending. -/
def Phase.ticket : Phase → Ticket
  | .issued ts | .persisted ts | .slotted ts | .logged ts _ | .recorded ts _ | .failed ts => .out ts
  | .published ts _ | .prepared ts _ | .readOnly ts | .abandoned ts => .settled ts
  | .idle | .snapshot _ | .sampled _ | .drained | .bookmark _ => .fresh

/-- The timestamp a transaction has been issued. -/
def Phase.commitTs (p : Phase) : Option Nat := p.ticket.number

/-- The sequencer of the store. -/
def sequencer (s : Threads Tid (Shared Tid) Phase) : Horizon.State Tid where
  clock := s.shared.commitTsHw
  visible := s.shared.commitVisibleHw
  out := s.shared.pending
  ticket t := (s.phase t).ticket

/-- What an action leaves of the sequencer alone. -/
structure SameSequencer (m m' : Shared Tid) : Prop where
  clock : m'.commitTsHw = m.commitTsHw
  visible : m'.commitVisibleHw = m.commitVisibleHw
  pending : m'.pending = m.pending

/-- What an action does to the sequencer. -/
inductive SequencerStep (m : Shared Tid) (p : Phase) (m' : Shared Tid) (p' : Phase) : Prop
  | same (hm : SameSequencer m m') (hp : p'.ticket = p.ticket)
  | issue (hp : p.ticket = .fresh) (hm : SameSequencer m.issue m')
    (hp' : p'.ticket = .out (m.commitTsHw + 1))
  | settle (ts : Nat) (hp : p.ticket = .out ts) (hm : SameSequencer (m.releaseCommitTs ts) m')
    (hp' : p'.ticket = .settled ts)
  | publish (hm : SameSequencer m.republishVisibleHorizon m') (hp : p'.ticket = p.ticket)

lemma SameSequencer.rfl : SameSequencer m m := ⟨.refl _, .refl _, .refl _⟩

lemma act_sequencer (hmeta : m.metaTsHw ≤ m.commitTsHw) (h : act ownsSlot t m p a = some (m', p')) :
    SequencerStep m p m' p' ∧ m'.metaTsHw ≤ m'.commitTsHw := by
  cases act_cases h with
  | nextCommitTs => exact ⟨.issue rfl .rfl rfl, Nat.le_succ_of_le hmeta⟩
  | finishReadOnly | publishCommitTs | abandonCommitTs => exact ⟨.settle _ rfl .rfl rfl, hmeta⟩
  | checkpointMeta => exact ⟨.same ⟨rfl, rfl, rfl⟩ rfl, le_rfl⟩
  | reloadCatalog =>
    -- the persisted clock is never ahead of the clock in memory
    rw [Nat.max_eq_left hmeta]
    exact ⟨.publish .rfl rfl, hmeta⟩
  | _ => exact ⟨.same ⟨rfl, rfl, rfl⟩ rfl, hmeta⟩

/-! ## What is published -/

/-- What a transaction has published when it is past a phase, and what a snapshot is worth. -/
def Published (ownsSlot : Tid → Bool) (m : Shared Tid) (t : Tid) : Phase → Prop
  | .slotted ts | .logged ts _ => ownsSlot t = true → (t, ts) ∈ m.slots
  | .recorded ts _ | .published ts _ | .prepared ts _ =>
    (ownsSlot t = true → (t, ts) ∈ m.slots) ∧ (t, ts) ∈ m.registry
  | .snapshot ts => ts ≤ m.commitVisibleHw
  | _ => True

/-- What is published stays, and the horizon never falls. -/
structure Keeps (m m' : Shared Tid) : Prop where
  slots : m.slots ⊆ m'.slots
  registry : m.registry ⊆ m'.registry
  visible : m.commitVisibleHw ≤ m'.commitVisibleHw

lemma Keeps.rfl : Keeps m m := ⟨List.Subset.refl _, List.Subset.refl _, le_rfl⟩

lemma Keeps.release (ts : Nat) : Keeps m (m.releaseCommitTs ts) :=
  ⟨List.Subset.refl _, List.Subset.refl _, Nat.le_max_left _ _⟩

lemma Published.keeps {u : Tid} {q : Phase} (h : Published ownsSlot m u q) (hm : Keeps m m') :
    Published ownsSlot m' u q := by
  cases q with
  | slotted | logged => exact fun ho => hm.slots (h ho)
  | recorded | published | prepared => exact ⟨fun ho => hm.slots (h.1 ho), hm.registry h.2⟩
  | snapshot => exact le_trans h hm.visible
  | _ => trivial

lemma act_published (hp : Published ownsSlot m t p) (h : act ownsSlot t m p a = some (m', p')) :
    Keeps m m' ∧ Published ownsSlot m' t p' := by
  cases act_cases h with
  | finishReadOnly | abandonCommitTs => exact ⟨.release _, trivial⟩
  | publishCommitTs => exact ⟨.release _, hp⟩
  | publishCommitSlot =>
    refine ⟨⟨?_, List.Subset.refl _, le_rfl⟩, fun ho => ?_⟩
    · split
      · exact subset_cons_self _ _
      · exact List.Subset.refl _
    · rw [if_pos ho]
      exact mem_cons_self
  | commitAtNoSync | queueCommit => exact ⟨⟨List.Subset.refl _, List.Subset.refl _, le_rfl⟩, hp⟩
  | recordCommit => exact ⟨⟨List.Subset.refl _, subset_cons_self _ _, le_rfl⟩, hp, mem_cons_self⟩
  | reloadCatalog => exact ⟨⟨List.Subset.refl _, List.Subset.refl _, Nat.le_max_left _ _⟩, trivial⟩
  | snapshotTs => exact ⟨.rfl, le_rfl⟩
  | _ => exact ⟨⟨List.Subset.refl _, List.Subset.refl _, le_rfl⟩, trivial⟩

/-- A transaction whose commit is over: both halves of its publication are done, it had nothing to
publish, or its timestamp was abandoned. -/
def Settled (ownsSlot : Tid → Bool) (m : Shared Tid) (t : Tid) : Phase → Prop
  | .published ts _ | .prepared ts _ =>
      (ownsSlot t = true → (t, ts) ∈ m.slots) ∧ (t, ts) ∈ m.registry
  | .readOnly _ | .abandoned _ => True
  | _ => False

/-- A transaction whose timestamp is not pending is settled. -/
lemma Published.settled {ts : Nat} (h : Published ownsSlot m t p) (hts : p.commitTs = some ts)
    (hout : p.ticket ≠ .out ts) : Settled ownsSlot m t p := by
  cases p with
  | published | prepared => exact h
  | readOnly | abandoned => trivial
  | idle | snapshot | sampled | drained | bookmark => cases hts
  | issued | persisted | slotted | logged | recorded | failed =>
    cases hts
    exact absurd rfl hout

/-! ## Runs -/

variable [DecidableEq Tid] {s s' : Threads Tid (Shared Tid) Phase} {op : Tid × Action}
  {tr : List (Tid × Action)}

/-- **The sequencer of the store takes the steps of the abstract one.** -/
lemma step_refines (hmeta : s.shared.metaTsHw ≤ s.shared.commitTsHw)
    (h : step ownsSlot s op = some s') :
    (sequencer s' = sequencer s ∨ Step (sequencer s) (sequencer s')) ∧
    s'.shared.metaTsHw ≤ s'.shared.commitTsHw := by
  obtain ⟨m', p', hact, rfl⟩ := Threads.step_eq_some h
  obtain ⟨hseq, hmeta'⟩ := act_sequencer hmeta hact
  refine ⟨?_, hmeta'⟩
  have hticket := funext (apply_update (fun _ => Phase.ticket) s.phase op.1 p')
  dsimp only [sequencer] at hticket ⊢
  rw [hticket]
  cases hseq with
  | same hm hp =>
    left
    rw [hm.clock, hm.visible, hm.pending, hp, update_eq_self (f := fun u => (s.phase u).ticket)]
  | issue hp hm hp' =>
    right
    rw [hm.clock, hm.visible, hm.pending, hp']
    exact .issue op.1 hp
  | settle ts hp hm hp' =>
    right
    rw [hm.clock, hm.visible, hm.pending, hp']
    exact .settle op.1 ts hp
  | publish hm hp =>
    right
    rw [hm.clock, hm.visible, hm.pending, hp, update_eq_self (f := fun u => (s.phase u).ticket)]
    exact .publish (sequencer s)

lemma sequencer_inv {commitTsHw len : Nat}
    (h : Run.exec (step ownsSlot) (start commitTsHw len) tr = some s) :
    Inv commitTsHw (sequencer s) ∧ s.shared.metaTsHw ≤ s.shared.commitTsHw := by
  refine Run.exec_preserves (C := fun _ _ => True)
    (I := fun s => Inv commitTsHw (sequencer s) ∧ s.shared.metaTsHw ≤ s.shared.commitTsHw) ?_
    ⟨Inv.init commitTsHw, le_rfl⟩ Run.Along.always h
  intro s op s' hs _ hstep
  obtain ⟨hsame | hstep, hmeta⟩ := step_refines hs.2 hstep
  · exact ⟨hsame ▸ hs.1, hmeta⟩
  · exact ⟨hs.1.step hstep, hmeta⟩

/-- The proof outline of what is published. -/
def publication (ownsSlot : Tid → Bool) : Threads.Outline (act ownsSlot) where
  memory _ _ := True
  thread _ m t p := Published ownsSlot m t p
  own _ hp h := ⟨trivial, (act_published hp h).2⟩
  free _ hp h _ hq := hq.keeps (act_published hp h).1

/-- The horizon never falls. -/
lemma visible_le_of_exec (hs : ∀ u, Published ownsSlot s.shared u (s.phase u))
    (h : Run.exec (step ownsSlot) s tr = some s') :
    s.shared.commitVisibleHw ≤ s'.shared.commitVisibleHw := by
  refine (Run.exec_preserves (C := fun _ _ => True)
    (I := fun s' => s.shared.commitVisibleHw ≤ s'.shared.commitVisibleHw ∧
      ∀ u, Published ownsSlot s'.shared u (s'.phase u)) ?_ ⟨le_rfl, hs⟩
    Run.Along.always h).1
  intro s1 op s2 ⟨hle, hpub⟩ _ hstep
  obtain ⟨m', p', hact, rfl⟩ := Threads.step_eq_some hstep
  obtain ⟨hkeeps, -⟩ := act_published (hpub op.1) hact
  exact ⟨le_trans hle hkeeps.visible,
    ((publication ownsSlot).holds_step (g := []) ⟨trivial, hpub⟩ hstep).2⟩

/-! ## The horizon is honest -/

/-- The last timestamp issued, where the clock was at `commitTsHw` when the store was opened. -/
def LastIssued (commitTsHw : Nat) (s : Threads Tid (Shared Tid) Phase) (last : Nat) : Prop :=
  (∀ t ts, (s.phase t).commitTs = some ts → ts ≤ last) ∧
    (last = commitTsHw ∨ ∃ t, (s.phase t).commitTs = some last)

/-- **The commit-visibility horizon is honest.** -/
theorem horizon_honest (ownsSlot : Tid → Bool) (commitTsHw len : Nat)
    (h : Run.exec (step ownsSlot) (start commitTsHw len) tr = some s) :
    (∀ u snapshot, s.phase u = .snapshot snapshot →
      ∀ t ts, (s.phase t).commitTs = some ts → ts ≤ snapshot →
        Settled ownsSlot s.shared t (s.phase t)) ∧
    (∀ tr' s', Run.exec (step ownsSlot) s tr' = some s' →
      s.shared.commitVisibleHw ≤ s'.shared.commitVisibleHw) ∧
    ((∀ t ts, (s.phase t).ticket ≠ .out ts) →
      LastIssued commitTsHw s s.shared.commitVisibleHw) := by
  have hpub :=
    ((publication ownsSlot).exec (s := start commitTsHw len) ⟨trivial, fun _ => trivial⟩ h).2
  obtain ⟨hinv, -⟩ := sequencer_inv h
  refine ⟨fun u snapshot hu t ts hts hle => ?_, fun tr' s' => visible_le_of_exec hpub,
    fun hnone => ?_⟩
  · refine (hpub t).settled hts fun hout => ?_
    -- a pending timestamp is above the horizon, and so above the snapshot
    have hlt : s.shared.commitVisibleHw < ts := hinv.lt_out ts ((hinv.out_iff ts).2 ⟨t, hout⟩)
    have hsnap := hpub u
    rw [hu] at hsnap
    exact absurd (le_trans hle hsnap) (not_le.2 hlt)
  · have hempty : (sequencer s).out = [] := by
      refine eq_nil_iff_forall_not_mem.2 fun ts hts => ?_
      obtain ⟨t, ht⟩ := (hinv.out_iff ts).1 hts
      exact hnone t ts ht
    have hclock : s.shared.commitVisibleHw = s.shared.commitTsHw := hinv.caught_up hempty
    rw [hclock]
    exact ⟨fun t ts hts => hinv.number_le t ts hts, hinv.last⟩

/-- Two transactions that end out of order: the later one publishes, then the earlier one is
abandoned. A reader takes a snapshot after each. -/
def outOfOrder : List (Nat × Action) :=
  [(0, .nextCommitTs), (1, .nextCommitTs), (1, .checkpointMeta true), (1, .publishCommitSlot true),
    (1, .commitAtNoSync true 3), (1, .recordCommit), (1, .publishCommitTs), (2, .snapshotTs),
    (0, .checkpointMeta false), (0, .abandonCommitTs), (3, .snapshotTs)]

/-- The first reader does not see the later commit, and the second one does. -/
theorem horizon_honest_out_of_order : ∃ s : Threads Nat (Shared Nat) Phase,
      Run.exec (step fun _ => true) (start 5 8) outOfOrder = some s ∧
      s.phase 2 = .snapshot 5 ∧ s.phase 3 = .snapshot 7 ∧ (s.phase 1).commitTs = some 7 ∧
      Settled (fun _ => true) s.shared 1 (s.phase 1) := by
  obtain ⟨s, hrun, h2, h3, h1⟩ : ∃ s, Run.exec (step fun _ => true)
    (start 5 8) outOfOrder = some s ∧
      s.phase 2 = .snapshot 5 ∧ s.phase 3 = .snapshot 7 ∧ (s.phase 1).commitTs = some 7 :=
    ⟨_, rfl, rfl, rfl, rfl⟩
  exact ⟨s, hrun, h2, h3, h1,
    (horizon_honest (fun _ => true) 5 8 hrun).1 3 7 h3 1 7 h1 (Nat.le_refl 7)⟩

end Graphus.CommitPath
