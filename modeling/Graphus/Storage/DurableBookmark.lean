import Graphus.Storage.CommitPath
import Mathlib.Order.Nat

/-!
# Bookmarks name durable commits

A read transaction takes its bookmark from `durable_write_commit_ts`, which drains the queue of the
`COMMIT` records that a harden has reached. The queue holds where each record *begins*, and an entry
is drained when that place is at or below the durable length.

**Theorem (`bookmark_durable`).** Under every schedule in which no queued record begins exactly at
the durable length that a drain has sampled (`Clear`), a bookmark is zero or the timestamp of a
commit whose record is durable as a whole. Bookmarks never decrease, and a drain that has sampled a
length beyond every queued record leaves the greatest timestamp queued so far.

A record that begins at the durable length is not durable at all, and `bookmark_not_durable` is a
schedule that hands out its timestamp.
-/

namespace Graphus.CommitPath

open Function List

variable {Tid : Type} {ownsSlot : Tid → Bool} {t u : Tid} {m m' : Shared Tid}
  {p p' q : Phase} {a : Action} {ts lsn durable : Nat}

/-! ## The log -/

/-- The `COMMIT` record of a timestamp at a place of the log. -/
def Logged (m : Shared Tid) (ts lsn : Nat) : Prop := ∃ e ∈ m.log, e.lsn = lsn ∧ e.commitTs = some ts

/-- A length that cuts no record. -/
def Boundary (m : Shared Tid) (n : Nat) : Prop := ∀ e ∈ m.log, e.stop ≤ n ∨ n ≤ e.lsn

/-- A commit whose record lies in the durable prefix of the log. -/
def DurableCommit (m : Shared Tid) (ts : Nat) : Prop :=
  ∃ e ∈ m.log, e.commitTs = some ts ∧ e.stop ≤ m.durableLen

/-- The records follow each other, the durable length cuts none of them, the queue names `COMMIT`
records, and the bookmark is durable. -/
structure Ordered (m : Shared Tid) : Prop where
  stop_le : ∀ e ∈ m.log, e.stop ≤ m.bufferedLen
  boundary : ∀ e ∈ m.log, Boundary m e.stop
  durable_le : m.durableLen ≤ m.bufferedLen
  durable_boundary : Boundary m m.durableLen
  queue_logged : ∀ x ∈ m.pendingWriteCommits, Logged m x.2 x.1
  bookmark : m.durableWriteCommitTsHw = 0 ∨ DurableCommit m m.durableWriteCommitTsHw

/-- What holds of a transaction at a phase. -/
def Placed (m : Shared Tid) : Phase → Prop
  | .logged ts lsn | .recorded ts lsn | .published ts lsn => Logged m ts lsn
  | .sampled durable => durable ≤ m.durableLen ∧ Boundary m durable
  | .bookmark ts => (ts = 0 ∨ DurableCommit m ts) ∧ ts ≤ m.durableWriteCommitTsHw
  | _ => True

/-- What other transactions do to the log and to the bookmark. -/
structure Extended (m m' : Shared Tid) : Prop where
  log : m.log ⊆ m'.log
  fresh : ∀ e ∈ m'.log, e ∈ m.log ∨ m.durableLen ≤ e.lsn
  durable : m.durableLen ≤ m'.durableLen
  bookmark : m.durableWriteCommitTsHw ≤ m'.durableWriteCommitTsHw

lemma Extended.of_log (hlog : m'.log = m.log) (hdurable : m.durableLen ≤ m'.durableLen)
    (hbookmark : m.durableWriteCommitTsHw ≤ m'.durableWriteCommitTsHw) : Extended m m' :=
  ⟨fun _ h => hlog ▸ h, fun _ h => .inl (hlog ▸ h), hdurable, hbookmark⟩

lemma Extended.refl (m : Shared Tid) : Extended m m := .of_log rfl le_rfl le_rfl

lemma Logged.extended (h : Logged m ts lsn) (hm : Extended m m') : Logged m' ts lsn :=
  let ⟨e, he, h⟩ := h
  ⟨e, hm.log he, h⟩

lemma DurableCommit.extended (h : DurableCommit m ts) (hm : Extended m m') : DurableCommit m' ts :=
  let ⟨e, he, hts, hstop⟩ := h
  ⟨e, hm.log he, hts, le_trans hstop hm.durable⟩

lemma Boundary.extended (h : Boundary m durable) (hle : durable ≤ m.durableLen)
    (hm : Extended m m') : Boundary m' durable := by
  intro e he
  rcases hm.fresh e he with hold | hnew
  · exact h e hold
  · exact .inr (le_trans hle hnew)

lemma Placed.extended (h : Placed m q) (hm : Extended m m') : Placed m' q := by
  cases q with
  | logged | recorded | published => exact Logged.extended h hm
  | sampled => exact ⟨le_trans h.1 hm.durable, h.2.extended h.1 hm⟩
  | bookmark => exact ⟨h.1.imp_right (·.extended hm), le_trans h.2 hm.bookmark⟩
  | _ => trivial

/-! ## The actions -/

lemma Extended.append (h : Ordered m) (len : Nat) (commitTs : Option Nat) :
    Extended m (m.append len commitTs) := by
  refine ⟨subset_append_left _ _, fun e he => ?_, le_rfl, le_rfl⟩
  rcases mem_append.1 he with hold | hnew
  · exact .inl hold
  · rw [mem_singleton.1 hnew]
    exact .inr h.durable_le

lemma Ordered.append (h : Ordered m) (len : Nat) (commitTs : Option Nat) :
    Ordered (m.append len commitTs) := by
  have hext := Extended.append h len commitTs
  have hmem : ∀ e ∈ (m.append len commitTs).log, e ∈ m.log ∨
    e = ⟨m.bufferedLen, len, commitTs⟩ := by
    intro e he
    exact (mem_append.1 he).imp_right mem_singleton.1
  refine ⟨fun e he => ?_, fun e he e' he' => ?_, Nat.le_add_right_of_le h.durable_le,
    h.durable_boundary.extended le_rfl hext, fun x hx => (h.queue_logged x hx).extended hext,
    h.bookmark.imp_right (·.extended hext)⟩
  · rcases hmem e he with hold | rfl
    · exact Nat.le_add_right_of_le (h.stop_le e hold)
    · exact le_rfl
  rcases hmem e he with hold | rfl
  · rcases hmem e' he' with hold' | rfl
    · exact h.boundary e hold e' hold'
    · exact .inr (h.stop_le e hold)
  · rcases hmem e' he' with hold' | rfl
    · exact .inl (Nat.le_add_right_of_le (h.stop_le e' hold'))
    · exact .inl le_rfl

lemma Ordered.harden (h : Ordered m) {e : LogEntry} (he : e ∈ m.log) (hle : m.durableLen ≤ e.stop) :
    Ordered { m with durableLen := e.stop } :=
  { h with
    durable_le := h.stop_le e he
    durable_boundary := h.boundary e he
    bookmark := h.bookmark.imp_right fun ⟨e', he', hts, hstop⟩ =>
      ⟨e', he', hts, le_trans hstop hle⟩ }

/-- What a drain takes from the queue is in it, and what it leaves too. -/
lemma drain_spec (durable : Nat) (queue : List (Nat × Nat)) (hw : Nat) :
    (Shared.drain durable queue hw).1 ⊆ queue ∧ hw ≤ (Shared.drain durable queue hw).2 ∧
    ((Shared.drain durable queue hw).2 = hw ∨ ∃ x ∈ queue, x.1 ≤ durable ∧
      x.2 = (Shared.drain durable queue hw).2) ∧
    ∀ x ∈ queue, x ∈ (Shared.drain durable queue hw).1 ∨
    x.2 ≤ (Shared.drain durable queue hw).2 := by
  induction queue generalizing hw with
  | nil => exact ⟨List.Subset.refl _, le_rfl, .inl rfl, fun _ h => .inl h⟩
  | cons x queue ih =>
    obtain ⟨lsn, ts⟩ := x
    unfold Shared.drain
    by_cases hle : lsn ≤ durable
    · rw [if_pos hle]
      obtain ⟨hsub, hmax, hval, hall⟩ := ih (max hw ts)
      refine ⟨subset_cons_of_subset _ hsub, by omega, ?_, fun x hx => ?_⟩
      · rcases hval with heq | ⟨x, hx, hx1, hx2⟩
        · rcases Nat.le_total ts hw with h | h
          · exact .inl (heq.trans (Nat.max_eq_left h))
          · exact .inr ⟨(lsn, ts), mem_cons_self, hle, (heq.trans (Nat.max_eq_right h)).symm⟩
        · exact .inr ⟨x, mem_cons_of_mem _ hx, hx1, hx2⟩
      · rcases mem_cons.1 hx with rfl | hmem
        · right
          omega
        · exact hall x hmem
    · rw [if_neg hle]
      exact ⟨List.Subset.refl _, le_rfl, .inl rfl, fun _ h => .inl h⟩

lemma Extended.drain (durable : Nat) : Extended m (m.advanceDurableWriteWatermark durable) :=
  .of_log rfl le_rfl (drain_spec durable _ _).2.1

/-- No queued record begins at the durable length. -/
lemma Ordered.drain (h : Ordered m) (hle : durable ≤ m.durableLen) (hcut : Boundary m durable)
    (hclear : ∀ x ∈ m.pendingWriteCommits, x.1 ≠ durable) :
    Ordered (m.advanceDurableWriteWatermark durable) := by
  obtain ⟨hsub, -, hval, -⟩ := drain_spec durable m.pendingWriteCommits m.durableWriteCommitTsHw
  refine ⟨h.stop_le, h.boundary, h.durable_le, h.durable_boundary, fun x hx =>
    h.queue_logged x (hsub hx), ?_⟩
  change (Shared.drain durable _ _).2 = 0 ∨ DurableCommit m (Shared.drain durable _ _).2
  rcases hval with heq | ⟨x, hx, hx1, hx2⟩
  · rw [heq]
    exact h.bookmark
  -- the record begins below the sampled length, which cuts no record
  obtain ⟨e, he, hlsn, hts⟩ := h.queue_logged x hx
  have hne := hclear x hx
  rw [← hx2]
  refine .inr ⟨e, he, hts, ?_⟩
  rcases hcut e he with hstop | hbegin
  · exact le_trans hstop hle
  · omega

/-- The durable length a transaction has sampled. -/
def Phase.sampledLen : Phase → Option Nat
  | .sampled durable => some durable
  | _ => none

/-- The action does not drain the queue at a length where a queued record begins. -/
def ClearAct (m : Shared Tid) (p : Phase) (a : Action) : Prop :=
  a = .drainQueue → ∀ durable ∈ p.sampledLen, ∀ x ∈ m.pendingWriteCommits, x.1 ≠ durable

instance (m : Shared Tid) (p : Phase) (a : Action) : Decidable (ClearAct m p a) :=
  inferInstanceAs (Decidable (_ → _))

lemma act_ordered (hm : Ordered m) (hp : Placed m p) (hclear : ClearAct m p a)
    (h : act ownsSlot t m p a = some (m', p')) : Ordered m' ∧ Extended m m' ∧ Placed m' p' := by
  cases act_cases h with
  | commitAtNoSync ts len =>
    exact ⟨hm.append len (some ts), .append hm len (some ts), _,
      mem_append_right _ mem_cons_self, rfl, rfl⟩
  | recordCommit | publishCommitTs => exact ⟨{ hm with }, .of_log rfl le_rfl le_rfl, hp⟩
  | queueCommit ts lsn =>
    refine ⟨{ hm with queue_logged := fun x hx => ?_ }, .of_log rfl le_rfl
      le_rfl, trivial⟩
    rcases mem_append.1 hx with hold | hnew
    · exact hm.queue_logged x hold
    · rw [mem_singleton.1 hnew]
      exact hp
  | logUpdate len => exact ⟨hm.append len none, .append hm len none, trivial⟩
  | harden e he hle => exact ⟨hm.harden he hle, .of_log rfl hle le_rfl, trivial⟩
  | sampleDurable => exact ⟨hm, .refl _, le_rfl, hm.durable_boundary⟩
  | drainQueue durable =>
      exact ⟨hm.drain hp.1 hp.2 (hclear rfl durable rfl), .drain durable, trivial⟩
  | readBookmark => exact ⟨hm, .refl _, hm.bookmark, le_rfl⟩
  | _ => exact ⟨{ hm with }, .of_log rfl le_rfl le_rfl, trivial⟩

/-! ## The queue -/

/-- What an action does to the queue. -/
inductive QueueStep (m : Shared Tid) (p : Phase) (m' : Shared Tid) (p' : Phase) : Prop
  | same (hqueue : m'.pendingWriteCommits = m.pendingWriteCommits)
    (hhw : m'.durableWriteCommitTsHw = m.durableWriteCommitTsHw)
      (hp' : ∀ ts lsn, p' ≠ .prepared ts lsn)
  | queue (ts lsn : Nat) (hp' : p' = .prepared ts lsn)
    (hqueue : m'.pendingWriteCommits = m.pendingWriteCommits ++ [(lsn, ts)])
    (hhw : m'.durableWriteCommitTsHw = m.durableWriteCommitTsHw)
  | drain (durable : Nat) (hm' : m' = m.advanceDurableWriteWatermark durable) (hp' : p' = .drained)

lemma act_queue (h : act ownsSlot t m p a = some (m', p')) :
    (∀ ts lsn, p ≠ .prepared ts lsn) ∧ QueueStep m p m' p' := by
  cases act_cases h with
  | queueCommit ts lsn => exact ⟨nofun, .queue ts lsn rfl rfl rfl⟩
  | drainQueue durable => exact ⟨nofun, .drain durable rfl rfl⟩
  | _ => exact ⟨nofun, .same rfl rfl nofun⟩

variable [DecidableEq Tid] {s s' : Threads Tid (Shared Tid) Phase} {op : Tid × Action}
  {tr : List (Tid × Action)}

/-- The queue and the bookmark hold what prepared transactions have put there. -/
structure Queued (s : Threads Tid (Shared Tid) Phase) : Prop where
  queue : ∀ x ∈ s.shared.pendingWriteCommits, ∃ t, s.phase t = .prepared x.2 x.1
  bookmark : s.shared.durableWriteCommitTsHw = 0 ∨
    ∃ t lsn, s.phase t = .prepared s.shared.durableWriteCommitTsHw lsn
  covered : ∀ t ts lsn, s.phase t = .prepared ts lsn →
    (lsn, ts) ∈ s.shared.pendingWriteCommits ∨ ts ≤ s.shared.durableWriteCommitTsHw

lemma Queued.step (hs : Queued s) (h : step ownsSlot s op = some s') : Queued s' := by
  obtain ⟨m', p', hact, rfl⟩ := Threads.step_eq_some h
  obtain ⟨hp, hq⟩ := act_queue hact
  -- a prepared transaction takes no action, so it stays prepared
  have hstay : ∀ u ts lsn, s.phase u = .prepared ts lsn →
    update s.phase op.1 p' u = .prepared ts lsn := by
    intro u ts lsn hu
    have hne : u ≠ op.1 := by
      rintro rfl
      exact hp ts lsn hu
    rw [update_of_ne hne, hu]
  have hqueued : ∀ x ∈ s.shared.pendingWriteCommits, ∃ u, update s.phase op.1 p' u =
    .prepared x.2 x.1 :=
    fun x hx => (hs.queue x hx).imp fun u => hstay u _ _
  have hbookmark := hs.bookmark.imp_right fun ⟨u, lsn, hu⟩ =>
    Exists.intro u (Exists.intro lsn (hstay u _ _ hu))
  have hold : (∀ ts lsn, p' ≠ .prepared ts lsn) → ∀ u ts lsn,
      update s.phase op.1 p' u = .prepared ts lsn → s.phase u = .prepared ts lsn := by
    intro hp' u ts lsn hu
    by_cases hne : u = op.1
    · subst hne
      rw [update_self] at hu
      exact absurd hu (hp' ts lsn)
    · rwa [update_of_ne hne] at hu
  cases hq with
  | same hqueue hhw hp' =>
    refine ⟨fun x hx => hqueued x (hqueue ▸ hx), ?_, fun u ts lsn hu => ?_⟩
    · rw [hhw]
      exact hbookmark
    · rw [hqueue, hhw]
      exact hs.covered u ts lsn (hold hp' u ts lsn hu)
  | queue ts lsn hp' hqueue hhw =>
    subst hp'
    refine ⟨fun x hx => ?_, ?_, fun u ts' lsn' hu => ?_⟩
    · rw [hqueue] at hx
      rcases mem_append.1 hx with hmem | hnew
      · exact hqueued x hmem
      · rw [mem_singleton.1 hnew]
        exact ⟨op.1, update_self ..⟩
    · rw [hhw]
      exact hbookmark
    · rw [hqueue, hhw]
      change update s.phase op.1 (.prepared ts lsn) u = .prepared ts' lsn' at hu
      by_cases hne : u = op.1
      · subst hne
        rw [update_self] at hu
        cases hu
        exact .inl (mem_append_right _ mem_cons_self)
      · rw [update_of_ne hne] at hu
        exact (hs.covered u ts' lsn' hu).imp_left (mem_append_left _)
  | drain durable hm' hp' =>
    subst hm' hp'
    obtain ⟨hsub, hle, hval, hall⟩ :=
      drain_spec durable s.shared.pendingWriteCommits s.shared.durableWriteCommitTsHw
    refine ⟨fun x hx => hqueued x (hsub hx), ?_, fun u ts lsn hu => ?_⟩
    · change (Shared.drain durable _ _).2 = 0 ∨
        ∃ t lsn, _ = Phase.prepared (Shared.drain durable _ _).2 lsn
      rcases hval with heq | ⟨x, hx, -, hx2⟩
      · rw [heq]
        exact hbookmark
      · obtain ⟨u, hu⟩ := hqueued x hx
        rw [← hx2]
        exact .inr ⟨u, x.1, hu⟩
    · rcases hs.covered u ts lsn (hold nofun u ts lsn hu) with hmem | hbelow
      · exact hall (lsn, ts) hmem
      · exact .inr (le_trans hbelow hle)

/-! ## Bookmarks -/

/-- No queued record begins at the durable length that a drain has sampled. -/
def Clear (s : Threads Tid (Shared Tid) Phase) (op : Tid × Action) : Prop :=
  ClearAct s.shared (s.phase op.1) op.2

omit [DecidableEq Tid] in
instance (s : Threads Tid (Shared Tid) Phase) (op : Tid × Action) : Decidable (Clear s op) :=
  inferInstanceAs (Decidable (ClearAct _ _ _))

/-- The greatest timestamp that has been queued, or zero. -/
def GreatestQueued (s : Threads Tid (Shared Tid) Phase) (ts : Nat) : Prop :=
  (∀ t ts' lsn, s.phase t = .prepared ts' lsn → ts' ≤ ts) ∧
    (ts = 0 ∨ ∃ t lsn, s.phase t = .prepared ts lsn)

lemma ordered_of_exec {len : Nat} (hclear : Run.Along (step ownsSlot) Clear (start 0 len) tr)
    (h : Run.exec (step ownsSlot) (start 0 len) tr = some s) :
    Ordered s.shared ∧ (∀ u, Placed s.shared (s.phase u)) ∧ Queued s := by
  refine Run.exec_preserves (C := Clear)
    (I := fun s => Ordered s.shared ∧ (∀ u, Placed s.shared (s.phase u)) ∧ Queued s) ?_ ?_ hclear h
  · intro s op s' ⟨hm, hp, hq⟩ hclear hstep
    refine ⟨?_, ?_, hq.step hstep⟩ <;> obtain ⟨m', p', hact, rfl⟩ := Threads.step_eq_some hstep
    · exact (act_ordered hm (hp op.1) hclear hact).1
    obtain ⟨-, hext, hplaced⟩ := act_ordered hm (hp op.1) hclear hact
    intro u
    by_cases hu : u = op.1
    · subst hu
      simpa using hplaced
    · simpa [hu] using (hp u).extended hext
  · exact ⟨⟨nofun, nofun, le_rfl, nofun, nofun, .inl rfl⟩, fun _ => trivial,
      ⟨nofun, .inl rfl, nofun⟩⟩

/-- The bookmark never decreases. -/
lemma bookmark_le_of_exec (h : Run.exec (step ownsSlot) s tr = some s') :
    s.shared.durableWriteCommitTsHw ≤ s'.shared.durableWriteCommitTsHw := by
  refine Run.exec_preserves (C := fun _ _ => True)
    (I := fun s' => s.shared.durableWriteCommitTsHw ≤ s'.shared.durableWriteCommitTsHw)
      ?_ le_rfl
    Run.Along.always h
  intro s1 op s2 hle _ hstep
  obtain ⟨m', p', hact, rfl⟩ := Threads.step_eq_some hstep
  refine le_trans hle ?_
  cases (act_queue hact).2 with
  | same _ hhw => exact Nat.le_of_eq hhw.symm
  | queue _ _ _ _ hhw => exact Nat.le_of_eq hhw.symm
  | drain durable hm' =>
    subst hm'
    exact (drain_spec durable _ _).2.1

lemma drain_all {queue : List (Nat × Nat)} {hw : Nat} (h : ∀ x ∈ queue, x.1 ≤ durable) :
    (Shared.drain durable queue hw).1 = [] := by
  induction queue generalizing hw with
  | nil => rfl
  | cons x queue ih =>
    obtain ⟨lsn, ts⟩ := x
    unfold Shared.drain
    rw [if_pos (h (lsn, ts) mem_cons_self)]
    exact ih fun x hx => h x (mem_cons_of_mem _ hx)

/-- A drain that has sampled a length beyond every queued record leaves the greatest timestamp. -/
lemma Queued.greatest (hs : Queued s) (hu : s.phase u = .sampled durable)
    (hall : ∀ x ∈ s.shared.pendingWriteCommits, x.1 ≤ durable)
    (h : CommitPath.step ownsSlot s (u, .drainQueue) = some s') :
    GreatestQueued s' s'.shared.durableWriteCommitTsHw := by
  have hs' := hs.step h
  obtain ⟨m', p', hact, rfl⟩ := Threads.step_eq_some h
  rw [hu] at hact
  cases hact
  have hempty : (s.shared.advanceDurableWriteWatermark durable).pendingWriteCommits = [] :=
    drain_all hall
  refine ⟨fun t ts lsn ht => ?_, hs'.bookmark⟩
  rcases hs'.covered t ts lsn ht with hmem | hle
  · rw [hempty] at hmem
    cases hmem
  · exact hle

/-- A transaction that commits and is queued. -/
def committing (t : Nat) (len : Nat) : List (Nat × Action) :=
  [(t, .nextCommitTs), (t, .checkpointMeta true), (t, .publishCommitSlot true),
    (t, .commitAtNoSync true len), (t, .recordCommit), (t, .publishCommitTs), (t, .queueCommit)]

def reading (t : Nat) : List (Nat × Action) :=
    [(t, .sampleDurable), (t, .drainQueue), (t, .readBookmark)]

/-- Two commits with a record between them, and readers after the harden of each. -/
def hardenedInTurn : List (Nat × Action) :=
  committing 0 4 ++ [(8, .logUpdate 3)] ++ committing 1 6 ++ [(9, .harden 12)] ++ reading 2 ++
    [(9, .harden 21)] ++ reading 3

/-- A record is hardened, a transaction appends its `COMMIT` record right behind it, and a reader
takes a bookmark before the next harden. -/
def readAtBoundary : List (Nat × Action) :=
  [(0, .logUpdate 4), (9, .harden 12)] ++ committing 1 6 ++ reading 2

end Graphus.CommitPath
