import Graphus.Lib.Run
import Graphus.Storage.SweepInv

/-!
# The frontier covers the stamps

**Theorem (`inflight_stamp_ge_floor`).** Along every run whose steps meet `Allowed`, a record that
carries an in-flight stamp whose descend has completed is at or above the frontier.

The conditions are what the sweep relies on without checking it: no stamp lands on a record that the
running sweep has read already, no writer leaves the active table between the two tests of a record
it has stamped, the frontier is not lowered between the savepoint of a pass and the load of its
sweep, and a rolled-back transaction leaves no stamp behind.

**The counterexample (`sweep_passes_inflight_stamp`).** A stamp on a record that was read already is
announced by a descend that does not move the frontier, and the compare-and-swap does not notice it.
-/

namespace Graphus

open RecordStore List CommitRegistry Option
open Run (exec guarded)

/-- What holds of the store along a run. -/
structure FreezeInv (s : RecordStore) : Prop where
  range : ∀ kind id, (s.records kind id).isSome → 1 ≤ id ∧ id < s.highWater kind
  history : ∀ kind id word w, s.Stamped kind id word w → (w, kind, id) ∈ s.stamped
  writer : ∀ kind id word w, s.Stamped kind id word w → w ∈ s.active ∨
    s.commitRegistry.IsCommitted w
  settled : ∀ kind id word w, s.Stamped kind id word w → w ∈ s.committed →
    s.commitRegistry.IsCommitted w
  covered : s.Covered
  /-- what the rollback of the pass would restore, or has restored -/
  undo : ∀ p ∈ s.pass, ∀ f ∈ p.undo ++ s.restored, s.commitRegistry.IsCommitted f.writer ∧
    p.savepoint f.kind ≤ f.id ∧ (f.writer, f.kind, f.id) ∈ s.stamped
  forgetting : ∀ p ∈ s.pass, ∀ writers, p.phase = .forgetting writers → p.undo = []
  passTxn : ∀ p ∈ s.pass, ∀ a ∈ s.stamped, a.1 ≠ p.txn
  sweep : ∀ p ∈ s.pass, ∀ sw ∈ s.runningSweep, SweepInv s p sw

section FreezeInv

variable {s s' : RecordStore} {p : GcPass} {kind : StoreKind} {id txn ts : Nat}
  {word : HeaderWord} {w : Nat}

lemma isWriter_iff : s.isWriter txn = true ↔ txn ∈ s.active ∧ txn ∉ s.committed ∧
    ∀ p ∈ s.pass, p.txn ≠ txn := by
  unfold isWriter
  cases s.pass <;> simp [and_assoc]

lemma FreezeInv.carries (hi : FreezeInv s) (h : s.Stamped kind id word w) : s.Carries w := by
  have hrange := hi.range kind id h.isSome
  obtain ⟨hd, hrec, hget⟩ := h
  exact ⟨kind, by cases kind <;> simp [sweepOrder], id, hrange.2, hd, hrec, word,
    by cases word <;> simp, hget⟩

lemma FreezeInv.opened (h : Opened s) : FreezeInv s where
  range := h.range
  history kind id word w hs := (h.writer kind id word w hs).2
  writer kind id word w hs := .inr (h.writer kind id word w hs).1
  settled kind id word w hs _ := (h.writer kind id word w hs).1
  covered kind id word w hs _ := by
    rw [h.freezeLow kind]
    exact (h.range kind id hs.isSome).1
  undo p hp := absurd hp (by simp [h.pass])
  forgetting p hp := absurd hp (by simp [h.pass])
  passTxn p hp := absurd hp (by simp [h.pass])
  sweep p hp := absurd hp (by simp [h.pass])

/-! ## The writers -/

lemma FreezeInv.descend (hi : FreezeInv s) :
    FreezeInv { s.setFloor kind ((s.freezeLow kind).descend id) with
      descended := (txn, kind, id) :: s.descended } := by
  refine { hi with
    covered := fun k i wd t hs ⟨hdesc, hrest⟩ => ?_
    sweep := fun p hp sw hsw => { hi.sweep p hp sw hsw with } }
  show FreezeFloor.get (if k = kind then _ else _) ≤ i
  by_cases hk : k = kind
  · subst hk
    rw [if_pos rfl]
    rcases mem_cons.1 hdesc with heq | hold
    · cases heq
      exact Nat.min_le_right ..
    · exact le_trans (Nat.min_le_left ..) (hi.covered k i wd t hs ⟨hold, hrest⟩)
  · rw [if_neg hk]
    rcases mem_cons.1 hdesc with heq | hold
    · cases heq
      exact absurd rfl hk
    · exact hi.covered k i wd t hs ⟨hold, hrest⟩

/-- The stamps after a new one. -/
lemma stamped_newStamp {k : StoreKind} {i t : Nat} {wd : HeaderWord}
    {stamped : List (Nat × StoreKind × Nat)}
    (h : ({ s.setRecord kind id
      (some (((s.records kind id).getD { created := .none }).set word (.inFlight txn))) with
      stamped } : RecordStore).Stamped k i wd t) :
    s.Stamped k i wd t ∨ (k = kind ∧ i = id ∧ wd = word ∧ t = txn) := by
  rcases stamped_setRecord h with ⟨rfl, rfl, hd, hmem, hget⟩ | ⟨-, hold⟩
  · cases hmem
    rw [MvccHeader.get_set] at hget
    by_cases hw : wd = word
    · rw [if_pos hw] at hget
      exact .inr ⟨rfl, rfl, hw, (VersionStamp.inFlight.inj hget).symm⟩
    rw [if_neg hw] at hget
    cases hrec : s.records k i with
    | none =>
      rw [hrec] at hget
      cases wd <;> cases hget
    | some hd =>
      rw [hrec] at hget
      exact .inl ⟨hd, hrec, hget⟩
  · exact .inl hold

/-- One stamp more. -/
lemma FreezeInv.restamp (hi : FreezeInv s) {records stamped}
    (hstamped : ∀ a, a ∈ stamped ↔ a = (txn, kind, id) ∨ a ∈ s.stamped)
    (hrange : ∀ k i, (records k i).isSome → (s.records k i).isSome ∨ 1 ≤ i ∧ i < s.highWater k)
    (hst : ∀ k i wd t, ({ s with records, stamped } : RecordStore).Stamped k i wd t →
      s.Stamped k i wd t ∨ (k = kind ∧ i = id ∧ wd = word ∧ t = txn))
    (hwriter : txn ∈ s.active ∨ s.commitRegistry.IsCommitted txn)
    (hsettled : txn ∈ s.committed → s.commitRegistry.IsCommitted txn)
    (hcovered : s.Announced kind id word txn → (s.freezeLow kind).get ≤ id)
    (hpass : ∀ p ∈ s.pass, txn ≠ p.txn)
    (hsweep : ∀ sw ∈ s.runningSweep, sw.kind = kind → id < sw.start ∨ sw.next ≤ id) :
    FreezeInv { s with records, stamped } :=
  { hi with
    range k i h := (hrange k i h).elim (hi.range k i) fun h => h
    history k i wd t h := by
      rcases hst k i wd t h with hold | ⟨rfl, rfl, -, rfl⟩
      · exact (hstamped _).2 (.inr (hi.history k i wd t hold))
      · exact (hstamped _).2 (.inl rfl)
    writer k i wd t h := by
      rcases hst k i wd t h with hold | ⟨-, -, -, rfl⟩
      · exact hi.writer k i wd t hold
      · exact hwriter
    settled k i wd t h hc := by
      rcases hst k i wd t h with hold | ⟨-, -, -, rfl⟩
      · exact hi.settled k i wd t hold hc
      · exact hsettled hc
    covered k i wd t h ha := by
      rcases hst k i wd t h with hold | ⟨rfl, rfl, rfl, rfl⟩
      · exact hi.covered k i wd t hold ha
      · exact hcovered ha
    undo p hp f hf := by
      obtain ⟨h1, h2, h3⟩ := hi.undo p hp f hf
      exact ⟨h1, h2, (hstamped _).2 (.inr h3)⟩
    passTxn p hp a ha := by
      rcases (hstamped a).1 ha with rfl | ha
      · exact hpass p hp
      · exact hi.passTxn p hp a ha
    sweep p hp sw hsw := by
      refine (hi.sweep p hp sw hsw).mono le_rfl (fun a ha => (hstamped a).2 (.inr ha))
        (fun i wd t h => ?_) fun _ _ _ _ _ h => h
      rcases hst _ i wd t h with hold | ⟨hk, rfl, -, -⟩
      · exact .inl hold
      · exact .inr (hsweep sw hsw hk) }

/-- A new stamp. -/
lemma FreezeInv.stamp (hi : FreezeInv s) (hwriter : s.isWriter txn = true) (hid : 1 ≤ id)
    (hhigh : id < s.highWater kind) (hok : s.Allowed (.stamp txn kind id word)) :
    FreezeInv { s.setRecord kind id (some
        (((s.records kind id).getD { created := .none }).set word (.inFlight txn))) with
      stamped := (txn, kind, id) :: s.stamped } := by
  obtain ⟨hactive, hcommitted, hpass⟩ := isWriter_iff.1 hwriter
  refine hi.restamp (fun _ => mem_cons) (fun k i h => ?_) (fun _ _ _ _ => stamped_newStamp)
    (.inl hactive) (fun hc => absurd hc hcommitted) (fun ha => hok.2 ha.1)
    (fun p hp => (hpass p hp).symm) hok.1
  rcases setRecord_isSome h with ⟨rfl, rfl, -⟩ | h
  · exact .inr ⟨hid, hhigh⟩
  · exact .inl h

/-- A rollback of a writer frees a record it has created, or restores one it has expired. -/
lemma FreezeInv.revert (hi : FreezeInv s) {records}
    (hst : ∀ k i wd t, ({ s with records } : RecordStore).Stamped k i wd t → s.Stamped k i wd t)
    (hsome : ∀ k i, (records k i).isSome → (s.records k i).isSome) : FreezeInv { s with records } :=
  { hi with
    range := fun k i h => hi.range k i (hsome k i h)
    history := fun k i wd t h => hi.history k i wd t (hst k i wd t h)
    writer := fun k i wd t h => hi.writer k i wd t (hst k i wd t h)
    settled := fun k i wd t h => hi.settled k i wd t (hst k i wd t h)
    covered := fun k i wd t h => hi.covered k i wd t (hst k i wd t h)
    sweep := fun p hp sw hsw => (hi.sweep p hp sw hsw).mono le_rfl (fun _ h => h)
      (fun i wd t h => .inl (hst _ i wd t h)) fun _ _ _ _ _ h => h }

lemma mem_filter_ne {l : List Nat} {t : Nat} : t ∈ l.filter (· ≠ txn) ↔ t ∈ l ∧ t ≠ txn := by
  simp

/-- A transaction leaves the active table: it has committed, or it has no stamp left. -/
lemma FreezeInv.leave (hi : FreezeInv s) (hgone : txn ∈ s.committed ∨ ¬ s.Carries txn)
    (htests : ∀ sw ∈ s.runningSweep, sw.Tests txn → ¬ s.Carries txn) :
    FreezeInv { s with active := s.active.filter (· ≠ txn) } := by
  refine { hi with
    writer := fun k i wd t hs => (hi.writer k i wd t hs).elim (fun ht => ?_) .inr
    sweep := fun p hp sw hsw => (hi.sweep p hp sw hsw).mono le_rfl (fun _ h => h)
      (fun _ _ _ h => .inl h) fun i wd t hs htest ht => ?_ }
  · have hold : s.Stamped k i wd t := hs
    by_cases heq : t = txn
    · subst heq
      rcases hgone with hc | hc
      · exact .inr (hi.settled k i wd t hold hc)
      · exact absurd (hi.carries hold) hc
    · exact .inl (mem_filter_ne.2 ⟨ht, heq⟩)
  · have hold : s.Stamped sw.kind i wd t := hs
    refine mem_filter_ne.2 ⟨ht, ?_⟩
    rintro rfl
    exact htests sw hsw htest (hi.carries hold)

/-! ## The pass -/

lemma forall_mem_some {α : Type} {P : α → Prop} {x : α} (h : P x) : ∀ y ∈ some x, P y := by
  rintro _ ⟨⟩
  exact h

/-- Only the pass changes. -/
lemma FreezeInv.setPass (hi : FreezeInv s) {p' : GcPass}
    (hrest : ∀ f ∈ s.restored, f ∈ ({ s with pass := some p' } : RecordStore).restored)
    (hundo : ∀ f ∈ p'.undo ++ ({ s with pass := some p' } : RecordStore).restored,
      s.commitRegistry.IsCommitted f.writer ∧ p'.savepoint f.kind ≤ f.id ∧
      (f.writer, f.kind, f.id) ∈ s.stamped)
    (hforget : ∀ writers, p'.phase = .forgetting writers → p'.undo = [])
    (htxn : ∀ a ∈ s.stamped, a.1 ≠ p'.txn)
    (hsweep : ∀ sw ∈ ({ s with pass := some p' } : RecordStore).runningSweep, SweepInv s p' sw) :
    FreezeInv { s with pass := some p' } :=
  { hi with
    covered := fun k i wd t hs ⟨hdesc, hnot⟩ =>
      hi.covered k i wd t hs ⟨hdesc, fun hc => hnot (hrest _ hc)⟩
    undo := forall_mem_some hundo
    forgetting := forall_mem_some hforget
    passTxn := forall_mem_some htxn
    sweep := forall_mem_some fun sw hsw => { hsweep sw hsw with } }

lemma restored_of_pass (h : s.pass = some p) : s.restored = p.phase.restored := by
  rw [restored, h]
  rfl

lemma runningSweep_of_pass (h : s.pass = some p) : s.runningSweep = p.phase.sweep := by
  rw [runningSweep, h]
  rfl

section

variable (hi : FreezeInv s)

include hi

/-- A new phase of a pass that is not being rolled back. -/
lemma FreezeInv.setPhase (hp : s.pass = some p) {phase : GcPhase} (hold : p.phase.restored = [])
    (hnew : phase.restored = []) (hforget : ∀ writers, phase = .forgetting writers → p.undo = [])
    (hsweep : ∀ sw ∈ phase.sweep, SweepInv s p sw) :
    FreezeInv { s with pass := some { p with phase } } := by
  refine hi.setPass (fun f hf => ?_) (fun f hf => ?_) hforget (hi.passTxn p hp) fun sw hsw =>
    { hsweep sw hsw with }
  · rw [restored_of_pass hp, hold] at hf
    cases hf
  · change f ∈ p.undo ++ phase.restored at hf
    rw [hnew, append_nil] at hf
    exact hi.undo p hp f (mem_append_left _ hf)

lemma FreezeInv.gcBegin (hnone : s.pass = none) (hnot : ∀ a ∈ s.stamped, a.1 ≠ txn) :
    FreezeInv { s with pass := some {
      txn, savepoint := fun k => (s.freezeLow k).get
      phase := .sweeping sweepOrder none false } } := by
  have hrest : s.restored = [] := by
    rw [restored, hnone]
    rfl
  refine hi.setPass (fun f hf => ?_) (fun f hf => ?_) nofun hnot fun sw hsw => ?_
  · rw [hrest] at hf
    cases hf
  · cases hf
  · cases hsw

variable {todo : List StoreKind}

/-- The sweep of a store begins. -/
lemma FreezeInv.load (hp : s.pass = some p) {stranded : Bool}
    (hphase : p.phase = .sweeping (kind :: todo) none stranded)
    (hsave : p.savepoint kind ≤ (s.freezeLow kind).get) :
    FreezeInv { s with pass := some { p with
      phase := .sweeping todo (some { kind, start := (s.freezeLow kind).get }) stranded } } := by
  refine hi.setPhase hp (by rw [hphase]; rfl) rfl nofun fun sw hsw => ?_
  cases hsw
  exact {
    savepoint := hsave
    items _ h := nomatch h
    fresh _ := ⟨rfl, rfl⟩
    newLow_le := Nat.zero_le _
    highWater_le := Nat.zero_le _
    stop hc := absurd rfl hc.1
    reached hc := absurd rfl hc.1
    ended hc := absurd rfl hc.1
    cover i _ _ _ _ := .inl (Nat.zero_le i) }

/-- The raised frontier still covers the announced stamps: the sweep has passed none of them. -/
lemma FreezeInv.raise (hp : s.pass = some p) {sw : Sweep} (hsw : s.runningSweep = some sw)
    (hstage : sw.stage = .created) (hin : sw.inUse = []) {k : StoreKind} {i : Nat}
    {wd : HeaderWord} {t : Nat}
    (hs : s.Stamped k i wd t) (ha : s.Announced k i wd t) :
    FreezeFloor.get (if k = sw.kind then ((s.freezeLow sw.kind).tryRaise sw.start sw.newLow).1
      else s.freezeLow k) ≤ i := by
  have hfloor := hi.covered k i wd t hs ha
  have hsweep := hi.sweep p hp sw hsw
  by_cases hk : k = sw.kind
  · subst hk
    rw [if_pos rfl]
    unfold FreezeFloor.tryRaise FreezeFloor.get at *
    by_cases hsame : (s.freezeLow sw.kind).cell = sw.start
    · rw [if_pos hsame]
      have hscan := Sweep.scans_of_stage hstage (by decide)
      rcases hsweep.cover i wd t hs (hsame ▸ hfloor) with hnew | hnext | hpend
      · exact hnew
      · calc sw.newLow ≤ sw.highWater := hsweep.newLow_le
          _ ≤ sw.stop := hsweep.stop hscan.1
          _ ≤ sw.next := hsweep.ended hscan.1 hscan.2
          _ ≤ i := hnext
      · obtain ⟨item, hitem, -⟩ := hpend.mem
        rw [hin] at hitem
        cases hitem
    · rw [if_neg hsame]
      exact hfloor
  · rw [if_neg hk]
    exact hfloor

/-- **One access of the sweep.** -/
lemma FreezeInv.access (hp : s.pass = some p) {sw : Sweep} {stranded : Bool}
    (hphase : p.phase = .sweeping todo (some sw) stranded) {s1 : RecordStore} {p1 : GcPass}
    {sw1 : Option Sweep}
    (hstep : SweepAccess s p sw s1 p1 sw1) :
    FreezeInv { s1 with pass := some { p1 with phase := .sweeping todo sw1 stranded } } := by
  have hsw : s.runningSweep = some sw := by
    rw [runningSweep_of_pass hp, hphase]
    rfl
  have hrest : s.restored = [] := by
    rw [restored_of_pass hp, hphase]
    rfl
  have hsweep := hi.sweep p hp sw hsw
  have heff := hstep.effect
  have hkept : ∀ sw' ∈ sw1, SweepInv s1 p1 sw' := by
    intro sw' hsw'
    subst hsw'
    exact hsweep.access (fun i wd t hs => (hi.range _ i hs.isSome).1) (hi.history sw.kind)
      (hi.writer sw.kind) hstep
  have hlow : ∀ k i wd t, s1.Stamped k i wd t → s.Announced k i wd t →
    (s1.freezeLow k).get ≤ i := by
    intro k i wd t hs ha
    have hold := heff.stamped k i wd t hs
    rcases hstep.freezeLow with hsame | ⟨hstage, hin, hraise⟩
    · rw [hsame]
      exact hi.covered k i wd t hold ha
    · rw [hraise]
      exact hi.raise hp hsw hstage hin hold ha
  obtain ⟨hbooks, hst, huse, htxn, hsave, hundo⟩ := heff
  generalize s1.records = records at hbooks
  generalize s1.freezeLow = freezeLow at hbooks
  subst hbooks
  exact {
    range k i h := hi.range k i (huse k i h)
    history k i wd t h := hi.history k i wd t (hst k i wd t h)
    writer k i wd t h := hi.writer k i wd t (hst k i wd t h)
    settled k i wd t h := hi.settled k i wd t (hst k i wd t h)
    covered k i wd t h ha := hlow k i wd t h ⟨ha.1, by rw [hrest]; exact not_mem_nil⟩
    undo := forall_mem_some fun f hf => by
      change f ∈ p1.undo ++ [] at hf
      rw [append_nil] at hf
      rw [hsave]
      rcases hundo f hf with hold | ⟨hkind, hcomm, hd, hitem, hget⟩
      · exact hi.undo p hp f (mem_append_left _ hold)
      · obtain ⟨hstart, hstamps⟩ := hsweep.items _ hitem
        rw [hkind]
        exact ⟨hcomm, le_trans hsweep.savepoint hstart, hstamps _ _ hget⟩
    forgetting := forall_mem_some nofun
    passTxn := forall_mem_some (htxn ▸ hi.passTxn p hp)
    sweep := forall_mem_some fun sw' hsw' => { hkept sw' hsw' with } }

/-- A transaction is recorded as committed. -/
lemma FreezeInv.recordCommit {active : List Nat}
    (hactive : ∀ k i wd t, s.Stamped k i wd t → t ∈ s.active → t ∈ active) :
    FreezeInv { s with
      commitRegistry := s.commitRegistry.recordCommit txn ts, committed :=
        txn :: s.committed, active } := by
  exact { hi with
    writer := fun k i wd t hs => (hi.writer k i wd t hs).imp (hactive k i wd t hs) fun h =>
      isCommitted_recordCommit.2 (.inr h)
    settled := fun k i wd t hs hc =>
      isCommitted_recordCommit.2 ((mem_cons.1 hc).imp_right (hi.settled k i wd t hs))
    undo := fun p hp f hf => (hi.undo p hp f hf).imp_left fun h =>
      isCommitted_recordCommit.2 (.inr h)
    sweep := fun p hp sw hsw => (hi.sweep p hp sw hsw).mono le_rfl (fun _ h => h)
      (fun _ _ _ h => .inl h) fun i wd t hs _ => hactive _ i wd t hs }

/-- The pass commits: what it has frozen stays frozen. -/
lemma FreezeInv.gcCommit (hp : s.pass = some p) (hstep : PassStep s p (.gcCommit ts) s') :
    FreezeInv s' := by
  cases hstep with
  | @commit writers _ hphase =>
    have hi' : FreezeInv
      { s with pass := some { p with undo := [], phase := .forgetting writers } } := by
      refine hi.setPass (fun f hf => ?_) nofun (fun _ _ => rfl) (hi.passTxn p hp) nofun
      rw [restored_of_pass hp, hphase] at hf
      cases hf
    exact hi'.recordCommit fun k i wd t hs ht =>
      mem_filter_ne.2 ⟨ht, hi.passTxn p hp _ (hi.history k i wd t hs)⟩

/-- The registry forgets a writer that has no stamp left. -/
lemma FreezeInv.forget (hp : s.pass = some p) {writers : List Nat}
    (hphase : p.phase = .forgetting (txn :: writers)) (hgone : ¬ s.Carries txn) :
    FreezeInv { s with
      commitRegistry := s.commitRegistry.forget txn
      pass := some { p with phase := .forgetting writers } } := by
  have hne : ∀ {k i wd t}, s.Stamped k i wd t → t ≠ txn := by
    rintro k i wd t hs rfl
    exact hgone (hi.carries hs)
  have hundo := hi.forgetting p hp _ hphase
  exact { hi with
    writer k i wd t hs :=
      (hi.writer k i wd t hs).imp_right fun hc => isCommitted_forget.2 ⟨hne hs, hc⟩
    settled k i wd t hs hc := isCommitted_forget.2 ⟨hne hs, hi.settled k i wd t hs hc⟩
    covered k i wd t hs ha := hi.covered k i wd t hs ⟨ha.1, by
      rw [restored_of_pass hp, hphase]
      exact not_mem_nil⟩
    undo := forall_mem_some fun f hf => by
      rw [hundo] at hf
      cases hf
    forgetting := forall_mem_some fun _ _ => hundo
    passTxn := forall_mem_some (hi.passTxn p hp)
    sweep := forall_mem_some nofun }

/-- The pass ends. -/
lemma FreezeInv.endPass (hcovered : ({ s with pass := none } : RecordStore).Covered) :
    FreezeInv { s with pass := none } :=
  { hi with
    covered := hcovered
    undo _ hq := nomatch hq
    forgetting _ hq := nomatch hq
    passTxn _ hq := nomatch hq
    sweep _ hq := nomatch hq }

/-- A freeze is undone: the stamp is back, and not announced before the frontier is lowered to the
savepoint. -/
lemma FreezeInv.undoFreeze (hp : s.pass = some p) {restored : List FrozenWord}
    (hphase : p.phase = .rollingBack restored) {f : FrozenWord} {undo : List FrozenWord}
    (hundo : p.undo = f :: undo) :
    FreezeInv { s.patchHeaderWord f.kind f.id f.word (.inFlight f.writer) with
      pass := some { p with undo, phase := .rollingBack (f :: restored) } } := by
  have hrest : s.restored = restored := by
    rw [restored_of_pass hp, hphase]
    rfl
  obtain ⟨hcomm, -, hhist⟩ := hi.undo p hp f (by
    rw [hundo]
    exact mem_append_left _ mem_cons_self)
  have hi' : FreezeInv
    { s with pass := some { p with undo, phase := .rollingBack (f :: restored) } } := by
    refine hi.setPass (fun g hg => mem_cons_of_mem _ (hrest ▸ hg))
      (fun g hg => hi.undo p hp g ?_) nofun (hi.passTxn p hp) nofun
    change g ∈ undo ++ f :: restored at hg
    rw [hundo, hrest]
    simp only [mem_append, mem_cons] at hg ⊢
    tauto
  refine hi'.restamp (fun a => ⟨.inr, ?_⟩) (fun k i h => .inl (patch_isSome h))
    (fun k i wd t h => ?_)
    (.inr hcomm) (fun _ => hcomm) (fun ha => absurd mem_cons_self ha.2) (fun q hq => ?_) nofun
  · rintro (rfl | ha)
    · exact hhist
    · exact ha
  · rcases stamped_patch h with ⟨hk, hid, hw, heq, -⟩ | ⟨hold, -⟩
    · exact .inr ⟨hk, hid, hw, (VersionStamp.inFlight.inj heq).symm⟩
    · exact .inl hold
  · cases hq
    exact hi.passTxn p hp _ hhist

/-- The rollback of the pass ends: the frontiers are at or below the savepoint, which covers what
was restored. -/
lemma FreezeInv.restore (hp : s.pass = some p) : FreezeInv { s with
      freezeLow k := (s.freezeLow k).descend (p.savepoint k)
      active := s.active.filter (· ≠ p.txn)
      pass := none } :=
  { hi with
    writer k i wd t hs := (hi.writer k i wd t hs).imp_left fun hact =>
      mem_filter_ne.2 ⟨hact, hi.passTxn p hp _ (hi.history k i wd t hs)⟩
    covered := fun k i wd t hs ⟨hdesc, _⟩ => by
      by_cases hr : (⟨k, i, wd, t⟩ : FrozenWord) ∈ s.restored
      · exact le_trans (Nat.min_le_right ..) (hi.undo p hp _ (mem_append_right _ hr)).2.1
      · exact le_trans (Nat.min_le_left ..) (hi.covered k i wd t hs ⟨hdesc, hr⟩)
    undo _ hq := nomatch hq
    forgetting _ hq := nomatch hq
    passTxn _ hq := nomatch hq
    sweep _ hq := nomatch hq }

/-- The steps of the pass. -/
lemma FreezeInv.passStep {op : StoreOp} (hok : s.Allowed op) (hp : s.pass = some p)
    (hstep : PassStep s p op s') : FreezeInv s' := by
  cases hstep with
  | load hphase => exact hi.load hp hphase (hok p hp _ (by rw [hphase]; rfl))
  | access hphase hstep => exact hi.access hp hphase hstep
  | audit hphase | capture hphase => exact hi.setPhase hp (by rw [hphase]; rfl) rfl nofun nofun
  | commit hphase => exact hi.gcCommit hp (.commit hphase)
  | forget hphase => exact hi.forget hp hphase (hok p hp _ (by rw [hphase]; rfl))
  | done hphase =>
    refine hi.endPass fun k i wd t hs ha => hi.covered k i wd t hs ⟨ha.1, ?_⟩
    rw [restored_of_pass hp, hphase]
    exact not_mem_nil
  | abort hphase =>
    refine hi.setPhase hp ?_ rfl nofun nofun
    rcases hphase with ⟨_, _, _, hphase⟩ | ⟨_, hphase⟩ <;> rw [hphase] <;> rfl
  | undoFreeze hphase hundo => exact hi.undoFreeze hp hphase hundo
  | restore hphase hundo => exact hi.restore hp

/-! ## Whole runs -/

/-- A step that touches none of what the invariant speaks of. -/
lemma FreezeInv.books {chains : StoreKind → Nat → List Nat} {slots : Nat → VersionStamp}
    {highWater : StoreKind → Nat} {active begun : List Nat}
    (hhigh : ∀ k, s.highWater k ≤ highWater k)
    (hactive : ∀ t ∈ s.active, t ∈ active) :
    FreezeInv { s with chains, slots, highWater, active, begun } :=
  { hi with
    range := fun k i h => (hi.range k i h).imp_right (lt_of_lt_of_le · (hhigh k))
    writer := fun k i wd t h => (hi.writer k i wd t h).imp_left (hactive t)
    sweep := fun p hp sw hsw => (hi.sweep p hp sw hsw).mono (hhigh _) (fun _ h => h)
      (fun _ _ _ h => .inl h) fun _ _ t _ _ => hactive t }

lemma FreezeInv.step {op : StoreOp} (hok : s.Allowed op) (hstep : s.step op = some s') :
    FreezeInv s' := by
  cases op with
  | begin txn =>
    obtain ⟨-, heq⟩ := ite_none_left_eq_some.1 hstep
    cases heq
    exact hi.books (fun _ => le_rfl) fun _ h => mem_cons_of_mem _ h
  | grow kind =>
    cases hstep
    refine hi.books (fun k => ?_) fun _ h => h
    split
    · exact Nat.le_succ _
    · exact le_rfl
  | stamp txn kind id word =>
    obtain ⟨⟨hwriter, hid, hhigh, -⟩, rfl⟩ := guarded hstep
    exact hi.stamp hwriter hid hhigh hok
  | descend txn kind id =>
    obtain ⟨-, rfl⟩ := guarded hstep
    exact hi.descend
  | link | publish | detach =>
    obtain ⟨-, rfl⟩ := guarded hstep
    exact hi.books (fun _ => le_rfl) fun _ h => h
  | commit txn ts =>
    obtain ⟨-, rfl⟩ := guarded hstep
    exact hi.recordCommit fun _ _ _ _ _ h => h
  | settle txn =>
    obtain ⟨hc, rfl⟩ := guarded hstep
    exact hi.leave (.inl hc) fun sw hsw htest => absurd htest (hok sw hsw)
  | revert txn kind id word =>
    obtain ⟨-, heq⟩ := ite_none_right_eq_some.1 hstep
    cases word with
    | created =>
      cases heq
      refine hi.revert (fun k i wd t h => ?_) fun k i h => ?_
      · rcases stamped_setRecord h with ⟨-, -, hd, hmem, -⟩ | ⟨-, hold⟩
        · cases hmem
        · exact hold
      rcases setRecord_isSome h with ⟨-, -, h⟩ | h
      · cases h
      · exact h
    | expired =>
      cases heq
      refine hi.revert (fun k i wd t h => ?_) fun k i h => patch_isSome h
      rcases stamped_patch h with ⟨-, -, -, hc, -⟩ | ⟨hold, -⟩
      · cases hc
      · exact hold
  | endRollback txn =>
    obtain ⟨-, rfl⟩ := guarded hstep
    exact hi.leave (.inr hok) fun _ _ _ => hok
  | gcBegin txn =>
    obtain ⟨⟨-, hnone, hnot, -⟩, rfl⟩ := guarded hstep
    exact hi.gcBegin (isNone_iff_eq_none.1 hnone) hnot
  | _ =>
    obtain ⟨p, hp, hpass⟩ := bind_eq_some_iff.1 hstep
    exact hi.passStep hok hp (passStep_cases hpass)

end

/-- **The frontier never passes a stamp.** Along every run from an opened store whose steps meet the
conditions, each record in use that carries an in-flight stamp whose descend has completed is at or
above the frontier of its store. -/
theorem inflight_stamp_ge_floor {ops : List StoreOp} (hopen : Opened s)
    (hops : Run.Along step Allowed s ops) (hrun : exec step s ops = some s') : s'.Covered :=
  (Run.exec_preserves (I := FreezeInv) (fun hi hok hstep => hi.step hok hstep)
    (.opened hopen) hops hrun).covered

end FreezeInv

/-! ## Concrete runs -/

/-- A store with one node record, created and frozen long ago. -/
def oneNode : RecordStore where
  freezeLow := fun _ => ⟨1⟩
  highWater := fun kind => if kind = .node then 2 else 1
  records := fun kind id => if kind = .node ∧ id = 1 then some { created := .committed 5 } else none

lemma oneNode_opened : Opened oneNode where
  freezeLow _ := rfl
  pass := rfl
  range kind id h := by
    unfold oneNode at h ⊢
    dsimp only at h ⊢
    by_cases hat : kind = .node ∧ id = 1
    · rw [hat.1, hat.2]
      decide
    · rw [if_neg hat] at h
      cases h
  writer := fun kind id word w ⟨h, hrec, hget⟩ => by
    change (if kind = .node ∧ id = 1 then some _ else none) = some h at hrec
    split at hrec
    · cases hrec
      cases word <;> cases hget
    · cases hrec
  history a h := nomatch h
  committed := fun w ⟨ts, h⟩ => nomatch h
  slots w h := nomatch h

/-- A pass up to the end of its scan of the nodes; the relationships have nothing to sweep. -/
def sweepToScan : List StoreOp := [.begin 7, .gcBegin 7] ++ replicate 9 .sweep

/-- A writer deletes the node and announces it. -/
def deleteNode : List StoreOp := [.begin 8, .stamp 8 .node 1 .expired, .descend 8 .node 1]

/-- The delete lands behind the scan; the sweep goes on and raises the frontier. -/
def deleteBehindScan : List StoreOp := sweepToScan ++ deleteNode ++ replicate 6 .sweep

/-- **The sweep passes an announced stamp.** The descend to the loaded frontier does not move it. -/
theorem sweep_passes_inflight_stamp :
    ∃ s, exec step oneNode deleteBehindScan = some s ∧ s.Stamped .node 1 .expired 8 ∧
      s.Announced .node 1 .expired 8 ∧ (s.freezeLow .node).get = 2 ∧ ¬ s.Covered := by
  obtain ⟨s, hrun, hstamped, hannounced, hfloor⟩ : ∃ s ∈ exec step oneNode deleteBehindScan,
      (∃ h ∈ s.records .node 1, h.get .expired = .inFlight 8) ∧
      ((8, .node, 1) ∈ s.descended ∧ ⟨.node, 1, .expired, 8⟩ ∉ s.restored) ∧
      (s.freezeLow .node).get = 2 := by decide +kernel
  refine ⟨s, hrun, hstamped, hannounced, hfloor, fun hcovered => ?_⟩
  have hle := hcovered .node 1 .expired 8 hstamped hannounced
  rw [hfloor] at hle
  exact absurd hle (by decide)

instance (s : RecordStore) (txn : Nat) : Decidable (s.Carries txn) := by
  unfold Carries
  infer_instance

instance (sw : Sweep) (txn : Nat) : Decidable (sw.Tests txn) := by
  unfold Sweep.Tests
  infer_instance

instance : LawfulBEq (Nat × StoreKind × Nat) := inferInstance

instance (s : RecordStore) (op : StoreOp) : Decidable (s.Allowed op) := by
  cases op <;> unfold Allowed <;> infer_instance

/-- The delete is committed before the pass, which freezes it and is rolled back. -/
def deleteBeforeScan : List StoreOp :=
  deleteNode ++ [.commit 8 9, .settle 8] ++ sweepToScan ++ replicate 6 .sweep ++
    [.gcAbort, .undoFreeze, .restore]

theorem inflight_stamp_ge_floor_deleteBeforeScan :
    Opened oneNode ∧ Run.Along step Allowed oneNode deleteBeforeScan ∧
      ∃ s, exec step oneNode deleteBeforeScan = some s ∧ s.Stamped .node 1 .expired 8 ∧
        s.Covered := by
  have halong : Run.Along step Allowed oneNode deleteBeforeScan := by decide +kernel
  obtain ⟨s, hrun, hstamped⟩ : ∃ s ∈ exec step oneNode deleteBeforeScan,
      ∃ h ∈ s.records .node 1, h.get .expired = .inFlight 8 := by decide +kernel
  exact ⟨oneNode_opened, halong, s, hrun, hstamped,
    inflight_stamp_ge_floor oneNode_opened halong hrun⟩

end Graphus
