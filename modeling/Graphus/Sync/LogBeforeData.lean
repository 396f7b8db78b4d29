import Graphus.Lib.Threads
import Mathlib.Order.Nat

/-!
# Log before data

The home writes of the concurrent buffer pool against the log. A thread writes a page home under the
write latch of its frame, after it has compared the `page_lsn` with `wal_durable`, the pool's own
copy of the log's durable length. The copy is raised from lengths that were read earlier, so it may
lag behind. When it does not cover the page, the thread gives the latch up, reads the length again,
has the log synced if it really is behind, and starts over; the page may have been written and
stamped in between. Commits append and sync beside the pool, and `complete_harden` makes durable
what the log held when its job began.

**Theorem (`home_write_log_durable`).** After every schedule, whenever a frame is written home,
every record that starts at or before its `page_lsn` is entirely durable, whatever numbers the
writers stamp.

The check compares the *start* of a record with a length. It suffices because nothing is ever made
durable up to the middle of a record: appends write whole records, and syncs and jobs reach the end
of the log as it was under the log's lock (`Log.Whole`).
-/

namespace Graphus.LogBeforeData

open Function List

/-- A log record, as the range of its bytes. Its sequence number is `start`. -/
structure Span where
  start : Nat
  stop : Nat
  deriving DecidableEq

/-- The log: its records, its length, the durable length, and the targets of the hardening jobs that
have begun. -/
structure Log where
  records : List Span
  len : Nat
  durable : Nat
  jobs : List Nat

namespace Log

/-- No record straddles the position `n` of the log. -/
def Boundary (log : Log) (n : Nat) : Prop :=
  n ≤ log.len ∧ ∀ r ∈ log.records, r.stop ≤ n ∨ n ≤ r.start

/-- Only whole records are durable, or will be when a job completes. -/
structure Whole (log : Log) : Prop where
  len_pos : 0 < log.len
  records : ∀ r ∈ log.records, 0 < r.start ∧ r.stop ≤ log.len
  durable : log.Boundary log.durable
  jobs : ∀ target ∈ log.jobs, log.Boundary target

/-- A record of `n + 1` bytes at the end of the log. -/
def append (log : Log) (n : Nat) : Log :=
  { log with records := ⟨log.len, log.len + n + 1⟩ :: log.records, len := log.len + n + 1 }

/-- All of the log is made durable. -/
def sync (log : Log) : Log :=
  { log with durable := log.len }

/-- A sync unless the log is durable beyond `lsn`. -/
def ensureDurable (log : Log) (lsn : Nat) : Log :=
  if log.durable ≤ lsn then log.sync else log

/-- The first half of a sync: note how far it has to reach. -/
def beginHarden (log : Log) : Log :=
  { log with jobs := log.len :: log.jobs }

/-- The second half: what was noted is durable. -/
def completeHarden (log : Log) (target : Nat) : Log :=
  { log with durable := max log.durable target, jobs := log.jobs.erase target }

variable {log : Log} {n lsn : Nat}

lemma Whole.len_boundary (h : log.Whole) : log.Boundary log.len :=
  ⟨le_rfl, fun r hr => .inl (h.records r hr).2⟩

lemma Boundary.append (h : log.Boundary n) {k : Nat} : (log.append k).Boundary n := by
  refine ⟨le_trans h.1 (by simp only [Log.append]; omega), fun r hr => ?_⟩
  rcases mem_cons.1 hr with rfl | hr
  · exact .inr h.1
  · exact h.2 r hr

section

variable (h : log.Whole)

include h

lemma Whole.append : (log.append n).Whole where
  len_pos := Nat.succ_pos _
  records r hr := by
    rcases mem_cons.1 hr with rfl | hr
    · exact ⟨h.len_pos, le_rfl⟩
    · have := h.records r hr
      simp only [Log.append]
      omega
  durable := h.durable.append
  jobs target ht := (h.jobs target ht).append

lemma Whole.sync : log.sync.Whole :=
  { h with durable := h.len_boundary }

lemma Whole.beginHarden : log.beginHarden.Whole :=
  { h with
    jobs target ht := by
      rcases mem_cons.1 ht with rfl | ht
      · exact h.len_boundary
      · exact h.jobs target ht }

lemma Whole.completeHarden {target : Nat} (ht : target ∈ log.jobs) :
    (log.completeHarden target).Whole :=
  { h with
    durable := by
      dsimp only [Log.completeHarden]
      rw [Nat.max_def]
      split
      · exact h.jobs target ht
      · exact h.durable
    jobs other ho := h.jobs other (mem_of_mem_erase ho) }

/-- A length above `lsn` takes in the record of that number and all records before it. -/
lemma Whole.stop_le (hlsn : lsn = 0 ∨ lsn < log.durable) :
    ∀ r ∈ log.records, r.start ≤ lsn → r.stop ≤ log.durable := by
  intro r hr hle
  have hpos := (h.records r hr).1
  rcases h.durable.2 r hr with hstop | hstart
  · exact hstop
  · omega

end

end Log

/-- The fields of a frame that write-back reads: the page it holds, its dirty bit and the `page_lsn`
of its image. -/
structure Frame where
  pageId : Option Nat
  dirty : Bool
  pageLsn : Nat

/-- The pool and the log. `home` is the `page_lsn` of the image of each page on the device. -/
structure Pool (Tid : Type) where
  log : Log
  walDurable : Nat
  frame : Nat → Frame
  /-- The holder of the write latch of a frame. -/
  latch : Nat → Option Tid
  home : Nat → Nat

/-- Why frames are written back. Only a batch has more than one frame. -/
inductive Purpose where
  | flush
  | flushUnlogged
  | flushBatch
  | evict
  deriving DecidableEq

/-- Where a thread is. -/
inductive Phase where
  | idle
  /-- It takes the latches of the frames `held`. -/
  | collecting (purpose : Purpose) (held : List Nat)
  /-- The checks have passed, and the frames `rest` are still to be written home. -/
  | writing (purpose : Purpose) (held rest : List Nat)
  /-- The frame is clean and is to get another page. -/
  | evicted (f : Nat)
  /-- It holds no latch and needs the log to cover `lsn`. -/
  | behind (lsn : Nat)
  /-- It has read the durable length `seen`. -/
  | refreshed (lsn seen : Nat)
  | hardening (lsn : Nat)
  | hardened (seen : Nat)
  deriving DecidableEq

/-- What an evicted frame gets. -/
inductive Refill where
  /-- The image of a page on the device. -/
  | load (page : Nat)
  /-- A zeroed page, which `new_page` marks dirty. -/
  | newPage (page : Nat)
  /-- Nothing: the read failed. -/
  | blank
  deriving DecidableEq

/-- An action of a thread. -/
inductive Action where
  /-- `with_page_mut_lsn`, with its `_if` form, or `with_page_mut` without `lsn`. The closure may
  set the number too. -/
  | withPageMut (f : Nat) (lsn closure : Option Nat)
  | begin (purpose : Purpose)
  | takeLatch (f : Nat)
  /-- The checks before the home writes. If they fail, `blank` says whether the caller is
  `load_into`. -/
  | check (blank : Bool)
  /-- The staging before the home writes fails. -/
  | stagingFails (blank : Bool)
  | homeWrite (f : Nat) (ok blank : Bool)
  | finish
  | refill (refill : Refill)
  | refresh
  | harden (ok : Bool)
  | publish
  | append (n : Nat)
  | sync (ok : Bool)
  | beginHarden
  | completeHarden (target : Nat)
  deriving DecidableEq

namespace Pool

variable {Tid : Type}

def release (m : Pool Tid) (fs : List Nat) : Pool Tid :=
  { m with latch f := if f ∈ fs then none else m.latch f }

/-- A change of some frames. -/
def setFrames (m : Pool Tid) (fs : List Nat) (change : Frame → Frame) : Pool Tid :=
  { m with frame f := if f ∈ fs then change (m.frame f) else m.frame f }

/-- The image of a frame is written to the home of its page. -/
def writeHome (m : Pool Tid) (f : Nat) : Pool Tid :=
  { m with
    home page :=
      if (m.frame f).pageId = some page then (m.frame f).pageLsn else m.home page }

def markClean (m : Pool Tid) (fs : List Nat) : Pool Tid :=
  m.setFrames fs fun frame => { frame with dirty := false }

/-- The pool's copy of the durable length covers `lsn`. -/
def walCovers (m : Pool Tid) (lsn : Nat) : Prop := lsn < m.walDurable

instance (m : Pool Tid) (lsn : Nat) : Decidable (m.walCovers lsn) := Nat.decLt _ _

/-- The largest `page_lsn` of the frames. -/
def maxLsn (m : Pool Tid) (fs : List Nat) : Nat :=
  fs.foldr (fun f lsn => max (m.frame f).pageLsn lsn) 0

/-- Each frame holds a page, and `guard_wal_before_data` lets it go home. -/
def Guarded (m : Pool Tid) (purpose : Purpose) (fs : List Nat) : Prop :=
  ∀ f ∈ fs, (m.frame f).pageId.isSome ∧ ((m.frame f).pageLsn = 0 → purpose = .flushUnlogged)

/-- The check of `assert_wal_covers`, of which a page without a number is exempt. -/
def Asserted (m : Pool Tid) (fs : List Nat) : Prop :=
  ∀ f ∈ fs, (m.frame f).pageLsn = 0 ∨ m.walCovers (m.frame f).pageLsn

instance (m : Pool Tid) (purpose : Purpose) (fs : List Nat) : Decidable (m.Guarded purpose fs) := by
  unfold Guarded; infer_instance

instance (m : Pool Tid) (fs : List Nat) : Decidable (m.Asserted fs) := by
  unfold Asserted; infer_instance

/-- An error of the write-back. The frame of a `load_into` is left blank, all others as they
were. -/
def failed (m : Pool Tid) (purpose : Purpose) (held : List Nat) (blank : Bool) : Pool Tid × Phase :=
  let m := if purpose = .evict ∧ blank then
      m.setFrames held fun frame => { frame with pageId := none, dirty := false }
    else m
  (m.release held, .idle)

/-- The new contents of an evicted frame. -/
def refilled (m : Pool Tid) : Refill → Frame → Frame
  | .load page, _ => ⟨some page, false, m.home page⟩
  | .newPage page, _ => ⟨some page, true, 0⟩
  | .blank, frame => ⟨none, false, frame.pageLsn⟩

/-- The image after a write. `with_page_mut_lsn` never lowers the number, the closure sets any. -/
def written (lsn closure : Option Nat) (frame : Frame) : Frame :=
  { frame with dirty := true, pageLsn := closure.getD (max frame.pageLsn (lsn.getD 0)) }

end Pool

open Pool

variable {Tid : Type}

/-- One action of the thread `t`. -/
def act (t : Tid) (m : Pool Tid) : Phase → Action → Option (Pool Tid × Phase)
  | .idle, .withPageMut f lsn closure =>
    if m.latch f = none then some (m.setFrames [f] (written lsn closure), .idle) else none
  | .idle, .begin purpose => some (m, .collecting purpose [])
  | .collecting purpose held, .takeLatch f =>
    if m.latch f = none ∧ (purpose = .flushBatch ∨ held = []) then
      if (m.frame f).dirty = true ∨ purpose = .evict then
        some ({ m with latch := update m.latch f (some t) }, .collecting purpose (f :: held))
      else some (m, .collecting purpose held)
    else none
  | .collecting purpose held, .check blank =>
    -- An eviction does not write a clean frame, and a batch looks at the page numbers first.
    if purpose = .evict ∧
      ∀ f ∈ held, (m.frame f).dirty = false then some (m, .writing purpose held [])
    else if purpose = .flushBatch ∧ ¬ m.Guarded purpose held then some (m.failed purpose held blank)
    else if purpose ≠ .flushUnlogged ∧ held ≠ [] ∧ ¬ m.walCovers (m.maxLsn held) then
      some (m.release held, .behind (m.maxLsn held))
    else if m.Guarded purpose held ∧ m.Asserted held then some (m, .writing purpose held held)
    else some (m.failed purpose held blank)
  | .writing purpose held _, .stagingFails blank => some (m.failed purpose held blank)
  | .writing purpose held rest, .homeWrite f ok blank =>
    if f ∈ rest then
      if ok then some (m.writeHome f, .writing purpose held (rest.erase f))
      else some ((m.writeHome f).failed purpose held blank)
    else none
  | .writing .evict [f] [], .finish => some (m.markClean [f], .evicted f)
  | .writing _ held [], .finish => some ((m.markClean held).release held, .idle)
  | .evicted f, .refill refill =>
    some ((m.setFrames [f] (m.refilled refill)).release [f], .idle)
  | .behind lsn, .refresh => some (m, .refreshed lsn m.log.durable)
  | .refreshed lsn seen, .publish =>
    some ({ m with walDurable := max m.walDurable seen },
      if lsn < seen then .idle else .hardening lsn)
  | .hardening lsn, .harden true =>
    some ({ m with log := m.log.ensureDurable lsn }, .hardened (m.log.ensureDurable lsn).durable)
  -- A failed sync panics: nothing is published.
  | .hardening _, .harden false => some (m, .idle)
  | .hardened seen, .publish => some ({ m with walDurable := max m.walDurable seen }, .idle)
  | .idle, .append n => some ({ m with log := m.log.append n }, .idle)
  | .idle, .sync ok => some (if ok then { m with log := m.log.sync } else m, .idle)
  | .idle, .beginHarden => some ({ m with log := m.log.beginHarden }, .idle)
  | .idle, .completeHarden target =>
    if target ∈ m.log.jobs then some
      ({ m with log := m.log.completeHarden target }, .idle) else none
  | _, _ => none

/-- The frames that an action writes home. -/
def homeWrites : Phase → Action → List Nat
  | .writing _ _ rest, .homeWrite f _ _ => if f ∈ rest then [f] else []
  | _, _ => []

/-! ## The proof outline -/

/-- The frames whose latches a thread holds. -/
def Phase.frames : Phase → List Nat
  | .collecting _ held | .writing _ held _ => held
  | .evicted f => [f]
  | _ => []

/-- The frames that a thread may write home without another check. -/
def Phase.checked : Phase → List Nat
  | .writing _ _ rest => rest
  | _ => []

/-- The durable length that a thread has read. -/
def Phase.seen : Phase → Nat
  | .refreshed _ seen | .hardened seen => seen
  | _ => 0

/-- What the pool and the log promise. -/
structure PoolOk (m : Pool Tid) : Prop where
  whole : m.log.Whole
  walDurable_le : m.walDurable ≤ m.log.durable

/-- What a thread knows. -/
structure ThreadOk (m : Pool Tid) (t : Tid) (p : Phase) : Prop where
  latch : ∀ f ∈ p.frames, m.latch f = some t
  checked : ∀ f ∈ p.checked, f ∈ p.frames ∧
    ((m.frame f).pageLsn = 0 ∨ (m.frame f).pageLsn < m.log.durable)
  seen_le : p.seen ≤ m.log.durable

/-- What an action of the thread `t` may do. The latches of other threads and the frames under them
stay, and the durable length does not fall. -/
structure Moves (t : Tid) (m m' : Pool Tid) : Prop where
  ok : PoolOk m'
  durable_le : m.log.durable ≤ m'.log.durable
  latch : ∀ {f u}, u ≠ t → m.latch f = some u → m'.latch f = some u
  frame : ∀ {f u}, u ≠ t → m.latch f = some u → m'.frame f = m.frame f

variable {m m' n : Pool Tid} {t u : Tid} {p p' : Phase} {a : Action} {f : Nat} {fs : List Nat}

/-- A thread that is not about to write or to publish only needs its latches. -/
lemma ThreadOk.of_latch (hl : ∀ f ∈ p.frames, m.latch f = some t) (hc : p.checked = [])
    (hs : p.seen = 0) : ThreadOk m t p where
  latch := hl
  checked f hf := by
    rw [hc] at hf
    cases hf
  seen_le := hs ▸ Nat.zero_le _

lemma ThreadOk.idle : ThreadOk m t .idle := .of_latch (fun f hf => by cases hf) rfl rfl

/-- The other threads are not disturbed. -/
lemma Moves.threadOk (h : Moves t m m') (hu : u ≠ t) (hp : ThreadOk m u p) : ThreadOk m' u p where
  latch f hf := h.latch hu (hp.latch f hf)
  checked f hf := by
    obtain ⟨hmem, hlsn⟩ := hp.checked f hf
    rw [h.frame hu (hp.latch f hmem)]
    exact ⟨hmem, hlsn.imp_right fun hlt => Nat.lt_of_lt_of_le hlt h.durable_le⟩
  seen_le := le_trans hp.seen_le h.durable_le

namespace Moves

lemma refl (h : PoolOk m) : Moves t m m := ⟨h, le_rfl, fun _ hl => hl, fun _ _ => rfl⟩

lemma release (h : Moves t m m') (hfs : ∀ f ∈ fs, m.latch f = some t) : Moves t m (m'.release fs) :=
  { h with
    ok := { h.ok with }
    latch {f u} hu hl := by
      have hf : f ∉ fs := fun hf => hu (Option.mem_unique hl (hfs f hf))
      simp only [Pool.release, if_neg hf]
      exact h.latch hu hl }

lemma setFrames (h : Moves t m m') (hfs : ∀ f ∈ fs, ∀ u ≠ t, m.latch f ≠ some u)
    {change : Frame → Frame} : Moves t m (m'.setFrames fs change) :=
  { h with
    ok := { h.ok with }
    frame {f u} hu hl := (if_neg fun hf => hfs f hf u hu hl).trans (h.frame hu hl) }

lemma writeHome (h : Moves t m m') : Moves t m (m'.writeHome f) :=
  { h with ok := { h.ok with } }

lemma takeLatch (h : PoolOk m) (hf : m.latch f = none) :
    Moves t m { m with latch := update m.latch f (some t) } :=
  { refl (t := t) h with
    ok := { h with }
    latch {g u} _ hl := by
      have hg : g ≠ f := fun hg => by rw [hg, hf] at hl; cases hl
      simpa [hg] using hl }

lemma publish (h : PoolOk m) {seen : Nat} (hseen : seen ≤ m.log.durable) :
    Moves t m { m with walDurable := max m.walDurable seen } :=
  { refl (t := t) h with ok := { h with walDurable_le := Nat.max_le.2 ⟨h.walDurable_le, hseen⟩ } }

lemma setLog (h : PoolOk m) {log : Log} (hwhole : log.Whole) (hle : m.log.durable ≤ log.durable) :
    Moves t m { m with log } :=
  { refl (t := t) h with
    ok := ⟨hwhole, le_trans h.walDurable_le hle⟩
    durable_le := hle }

lemma sync (h : PoolOk m) : Moves t m { m with log := m.log.sync } :=
  setLog h h.whole.sync h.whole.durable.1

lemma failed (h : Moves t m m') (hfs : ∀ f ∈ fs, m.latch f = some t) {purpose : Purpose}
    {blank : Bool} : Moves t m (m'.failed purpose fs blank).1 := by
  refine release ?_ hfs
  split
  · exact h.setFrames fun f hf u hu hl => hu (Option.mem_unique hl (hfs f hf))
  · exact h

end Moves

/-- What one action does to the pool and to its own thread. -/
lemma act_ok (hm : PoolOk m) (hp : ThreadOk m t p) (h : act t m p a = some (m', p')) :
    Moves t m m' ∧ ThreadOk m' t p' := by
  have hr := Moves.refl (t := t) hm
  have hmine : ∀ f ∈ p.frames, ∀ u ≠ t, m.latch f ≠ some u := fun f hf u hu hl =>
    hu (Option.mem_unique hl (hp.latch f hf))
  unfold act at h
  split at h
  case h_1 f lsn closure =>
    obtain ⟨hf, ⟨⟩⟩ := Run.guarded h
    refine ⟨hr.setFrames fun g hg u _ hl => ?_, .idle⟩
    rw [mem_singleton.1 hg, hf] at hl
    cases hl
  case h_2 purpose =>
    cases h
    exact ⟨hr, .of_latch (fun f hf => by cases hf) rfl rfl⟩
  case h_3 purpose held f =>
    split at h
    · rename_i hf
      split at h
      · cases h
        refine ⟨.takeLatch hm hf.1, .of_latch (fun g hg => ?_) rfl rfl⟩
        rcases eq_or_ne g f with rfl | hg'
        · simp
        · simpa [hg'] using hp.latch g ((mem_cons.1 hg).resolve_left hg')
      · cases h
        exact ⟨hr, hp⟩
    · cases h
  case h_4 purpose held blank =>
    split at h
    · cases h
      exact ⟨hr, .of_latch hp.latch rfl rfl⟩
    split at h
    · cases h
      exact ⟨hr.failed hp.latch, .idle⟩
    split at h
    · cases h
      exact ⟨hr.release hp.latch, .of_latch (fun f hf => by cases hf) rfl rfl⟩
    split at h
    · rename_i hpass
      cases h
      refine ⟨hr, hp.latch, fun f hf => ⟨hf, ?_⟩, Nat.zero_le _⟩
      exact (hpass.2 f hf).imp_right fun hlt => Nat.lt_of_lt_of_le hlt hm.walDurable_le
    · cases h
      exact ⟨hr.failed hp.latch, .idle⟩
  case h_5 purpose held rest blank =>
    cases h
    exact ⟨hr.failed hp.latch, .idle⟩
  case h_6 purpose held rest f ok blank =>
    split at h
    · split at h
      · cases h
        exact ⟨hr.writeHome, hp.latch, fun g hg => hp.checked g (mem_of_mem_erase hg),
          Nat.zero_le _⟩
      · cases h
        exact ⟨hr.writeHome.failed hp.latch, .idle⟩
    · cases h
  case h_7 f =>
    cases h
    exact ⟨hr.setFrames hmine, .of_latch hp.latch rfl rfl⟩
  case h_8 purpose held _ =>
    cases h
    exact ⟨(hr.setFrames hmine).release hp.latch, .idle⟩
  case h_9 f refill =>
    cases h
    exact ⟨(hr.setFrames hmine).release hp.latch, .idle⟩
  case h_10 lsn =>
    cases h
    exact ⟨hr, hp.latch, hp.checked, le_rfl⟩
  case h_11 lsn seen =>
    cases h
    refine ⟨.publish hm hp.seen_le, ?_⟩
    split
    · exact .idle
    · exact .of_latch (fun g hg => by cases hg) rfl rfl
  case h_12 lsn =>
    cases h
    refine ⟨?_, hp.latch, fun g hg => (by cases hg), le_rfl⟩
    unfold Log.ensureDurable
    split
    · exact .sync hm
    · exact hr
  case h_13 lsn =>
    cases h
    exact ⟨hr, .idle⟩
  case h_14 seen =>
    cases h
    exact ⟨.publish hm hp.seen_le, .idle⟩
  case h_15 n =>
    cases h
    exact ⟨.setLog hm hm.whole.append le_rfl, .idle⟩
  case h_16 ok =>
    cases h
    refine ⟨?_, .idle⟩
    split
    · exact .sync hm
    · exact hr
  case h_17 =>
    cases h
    exact ⟨.setLog hm hm.whole.beginHarden le_rfl, .idle⟩
  case h_18 target =>
    obtain ⟨ht, ⟨⟩⟩ := Run.guarded h
    exact ⟨.setLog hm (hm.whole.completeHarden ht) (Nat.le_max_left _ _), .idle⟩
  case h_19 => cases h

lemma homeWrites_subset : homeWrites p a ⊆ p.checked := by
  intro f hf
  unfold homeWrites at hf
  split at hf
  · split at hf
    · rwa [mem_singleton.1 hf]
    · cases hf
  · cases hf

/-- The proof outline of the pool. -/
def outline : Threads.Outline (@act Tid) where
  memory _ m := PoolOk m
  thread _ m t p := ThreadOk m t p
  own hm hp h := ⟨(act_ok hm hp h).1.ok, (act_ok hm hp h).2⟩
  free hm hp h hu hq := (act_ok hm hp h).1.threadOk hu hq

/-- A pool as it is opened: its frames are empty, and it has read the durable length of the log. -/
structure Opened (m : Pool Tid) : Prop where
  whole : m.log.Whole
  walDurable : m.walDurable = m.log.durable
  frame : ∀ f, m.frame f = ⟨none, false, 0⟩
  latch : ∀ f, m.latch f = none

variable [DecidableEq Tid]

/-- **Log before data.** Whenever a frame is written home, the record of its `page_lsn` and every
record before it are entirely durable. -/
theorem home_write_log_durable {m0 : Pool Tid} {tr : List (Tid × Action)}
    {s : Threads Tid (Pool Tid) Phase} (hopen : Opened m0)
    (hrun : Run.exec (Threads.step act) ⟨m0, fun _ => .idle⟩ tr = some s)
    (hf : f ∈ homeWrites (s.phase t) a) :
    ∀ rec ∈ s.shared.log.records, rec.start ≤ (s.shared.frame f).pageLsn →
    rec.stop ≤ s.shared.log.durable := by
  have hstart : (@outline Tid).Holds [] ⟨m0, fun _ => .idle⟩ :=
    ⟨⟨hopen.whole, Nat.le_of_eq hopen.walDurable⟩, fun _ => .idle⟩
  obtain ⟨hm, hp⟩ := outline.exec hstart hrun
  exact hm.whole.stop_le ((hp t).checked f (homeWrites_subset hf)).2

/-- A pool opened on an empty log, whose header has 8 bytes. -/
def emptyPool : Pool Unit :=
  ⟨⟨[], 8, 8, []⟩, 8, fun _ => ⟨none, false, 0⟩, fun _ => none, fun _ => 0⟩

/-- A page is created, stamped with a new record and flushed. The pool's copy does not cover the
record at first, so the log is hardened. -/
def flushActions : List Action :=
  [.begin .evict, .takeLatch 0, .check false, .finish, .refill (.newPage 5), .append 3,
    .withPageMut 0 (some 8) none, .begin .flush, .takeLatch 0, .check false, .refresh, .publish,
    .harden true, .publish, .begin .flush, .takeLatch 0, .check false]

theorem stamped_page_flushed : ∃ s,
    Run.exec (Threads.step act) ⟨emptyPool, fun _ => .idle⟩ (flushActions.map ((), ·)) = some s ∧
    0 ∈ homeWrites (s.phase ()) (.homeWrite 0 true false) ∧
    (s.shared.frame 0).pageLsn = 8 ∧ ⟨8, 12⟩ ∈ s.shared.log.records ∧
    12 ≤ s.shared.log.durable := by
  have hopen : Opened emptyPool :=
    ⟨⟨by decide, by simp [emptyPool], ⟨le_rfl, by simp [emptyPool]⟩, by simp [emptyPool]⟩,
      rfl, fun _ => rfl, fun _ => rfl⟩
  refine ⟨_, rfl, by decide, rfl, by decide, ?_⟩
  exact home_write_log_durable (t := ()) (a := .homeWrite 0 true false) (f := 0) hopen
    (rfl : Run.exec _ _ (flushActions.map ((), ·)) = _) (by decide) ⟨8, 12⟩ (by decide) (by decide)

end Graphus.LogBeforeData
