import Graphus.Lib.Threads
import Mathlib.Order.Nat

/-!
# The group staging barrier

Evictors that have written their slots share one durability barrier. Each takes a ticket after its
writes and waits until the durable counter has reached the ticket. A waiter that finds no leader
leads a round itself: it reads the ticket counter, runs the barrier with the mutex released and
publishes what it read.

The mutex and the condition variable are explicit. A waiter may wake at any moment, since a
condition variable may wake it spuriously, so the notification itself needs no action. What a
critical section does happens in one action, at its access to the ticket counter.

**Theorem (`returned_ok_flushed`).** Under every schedule a caller returns `Ok` only when a barrier
that started after its writes has succeeded. The durable counter never falls, and only the
publication of a successful barrier raises it.

The proof reads the tickets off the schedule. The tickets up to the target of a running barrier
belong to callers whose writes were complete when it started (`Running`), because a later ticket is
above the target. Its success turns these into callers whose writes are flushed (`Flushed`), and so
are the callers up to the durable counter.
-/

namespace Graphus

open List

/-- The bound on the rounds of one caller. -/
def maxBarrierRounds : Nat := 64

/-- What the mutex protects. -/
structure BarrierState where
  durable : Nat
  flushing : Bool
  failedRounds : Nat

/-- The barrier that the evictors share, with the thread that holds its mutex. -/
structure StagingBarrier (Tid : Type) where
  issued : Nat
  state : BarrierState
  holder : Option Tid
  barriers : Nat
  piggybacked : Nat

namespace StagingBarrier

variable {Tid ε : Type}

/-- Nothing issued and nothing durable. -/
def new : StagingBarrier Tid where
  issued := 0
  state := { durable := 0, flushing := false, failedRounds := 0 }
  holder := none
  barriers := 0
  piggybacked := 0

/-- Where a caller is. The rounds are the iterations of the loop that are left. -/
inductive Phase (ε : Type) where
  /-- Its staging writes are under way. -/
  | staging
  /-- Its staging writes have returned. -/
  | staged
  /-- It calls `wait_durable` and wants the mutex. -/
  | ticketed (ticket : Nat)
  /-- It holds the mutex at the head of the loop. -/
  | looping (ticket : Nat) (led : Bool) (rounds : Nat)
  /-- It waits for the leader, with the mutex released. -/
  | waiting (ticket : Nat) (led : Bool) (rounds : Nat)
  /-- It leads a round and has released the mutex. -/
  | leading (ticket target rounds : Nat)
  /-- It is inside the barrier. -/
  | syncing (ticket target rounds : Nat)
  /-- The barrier has returned, and it wants the mutex again. -/
  | synced (ticket target rounds : Nat) (outcome : Except ε Unit)
  /-- It has used up its rounds. It still holds the mutex and locks it once more for its error text,
  so it never returns. -/
  | exhausted (ticket : Nat)
  | returned (result : Except ε Bool)
  deriving DecidableEq

/-- An action of a caller. -/
inductive Action (ε : Type) where
  /-- The staging writes return. -/
  | write
  | ticket
  /-- `wait_durable` locks the mutex. -/
  | lock
  /-- One evaluation of the head of the loop. -/
  | recheck
  /-- The condition variable wakes the waiter, which locks the mutex again. -/
  | wake
  | startBarrier
  | finishBarrier (outcome : Except ε Unit)
  /-- The leader locks the mutex after its barrier and publishes the outcome. -/
  | publish

/-- Take a ticket for the writes that have just completed. -/
def ticket (m : StagingBarrier Tid) : StagingBarrier Tid × Nat :=
  ({ m with issued := m.issued + 1 }, m.issued + 1)

/-- The head of the loop of `wait_durable`, with the mutex held. -/
def recheck (m : StagingBarrier Tid) (ticket : Nat) (led : Bool) :
    Nat → StagingBarrier Tid × Phase ε
  | 0 => (m, .exhausted ticket)
  | rounds + 1 =>
    if ticket ≤ m.state.durable then
      ({ m with
          holder := none
          piggybacked := if led then m.piggybacked else m.piggybacked + 1 },
        .returned (.ok led))
    else if m.state.flushing then
      ({ m with holder := none }, .waiting ticket led rounds)
    else
      -- The target is read before the barrier, so a ticket taken during it is not claimed.
      ({ m with
          holder := none
          state := { m.state with flushing := true }
          barriers := m.barriers + 1 },
        .leading ticket m.issued rounds)

/-- What the leader does with the outcome of its barrier. -/
def publish (m : StagingBarrier Tid) (t : Tid) (ticket target rounds : Nat) :
    Except ε Unit → StagingBarrier Tid × Phase ε
  | .ok () =>
    ({ m with
        holder := some t
        state := { m.state with
          flushing := false
          durable := if m.state.durable < target then target else m.state.durable } },
      .looping ticket true rounds)
  | .error e =>
    ({ m with
        state := { m.state with
          flushing := false
          failedRounds := m.state.failedRounds + 1 } },
      .returned (.error e))

/-- One action of the caller `t`. -/
def act (t : Tid) (m : StagingBarrier Tid) :
    Phase ε → Action ε → Option (StagingBarrier Tid × Phase ε)
  | .staging, .write => some (m, .staged)
  | .staged, .ticket => some (m.ticket.1, .ticketed m.ticket.2)
  | .ticketed ticket, .lock =>
    if m.holder.isNone then
      some ({ m with holder := some t }, .looping ticket false maxBarrierRounds)
    else none
  | .looping ticket led rounds, .recheck => some (m.recheck ticket led rounds)
  | .waiting ticket led rounds, .wake =>
    if m.holder.isNone then
      some ({ m with holder := some t }, .looping ticket led rounds)
    else none
  | .leading ticket target rounds, .startBarrier => some (m, .syncing ticket target rounds)
  | .syncing ticket target rounds, .finishBarrier outcome =>
    some (m, .synced ticket target rounds outcome)
  | .synced ticket target rounds outcome, .publish =>
    if m.holder.isNone then some (m.publish t ticket target rounds outcome) else none
  | _, _ => none

/-- All callers before their writes. -/
def start : Threads Tid (StagingBarrier Tid) (Phase ε) := ⟨new, fun _ => .staging⟩

/-! ## Schedules -/

/-- The caller of a ticket action. -/
def ticketOf : Tid × Action ε → Option Tid
  | (t, .ticket) => some t
  | _ => none

/-- The callers that took a ticket, in the order of their tickets. -/
def tickets (g : List (Tid × Action ε)) : List Tid := g.filterMap ticketOf

/-- The barrier of `u` is running, and the writes of `t` were complete when it started. -/
def Running (g : List (Tid × Action ε)) (t u : Tid) : Prop :=
  ∃ before mid during, g = before ++ (t, .write) :: (mid ++ (u, .startBarrier) :: during) ∧
    ∀ op ∈ during, op.1 ≠ u

/-- A barrier that started after the writes of `t` were complete has succeeded. -/
def Flushed (g : List (Tid × Action ε)) (t : Tid) : Prop :=
  ∃ u g1 g2, Running g1 t u ∧ g = g1 ++ (u, .finishBarrier (.ok ())) :: g2

/-- `t` holds the ticket `k`: it is among the first `n` ticket holders for every `n` from `k` on. -/
def Holds (g : List (Tid × Action ε)) (t : Tid) (k : Nat) : Prop :=
  ∀ n, k ≤ n → t ∈ (tickets g).take n

variable {g g' : List (Tid × Action ε)} {t u : Tid} {op : Tid × Action ε} {k n : Nat}

lemma tickets_append : tickets (g ++ g') = tickets g ++ tickets g' := filterMap_append

lemma tickets_snoc_ticket : tickets (g ++ [(t, .ticket)]) = tickets g ++ [t] := tickets_append

lemma length_tickets_le : (tickets g).length ≤ (tickets (g ++ g')).length := by
  rw [tickets_append, length_append]
  exact Nat.le_add_right _ _

lemma take_tickets_append (h : n ≤ (tickets g).length) :
    (tickets (g ++ g')).take n = (tickets g).take n := by
  rw [tickets_append, take_append_of_le_length h]

lemma Running.snoc (h : Running g t u) (hu : op.1 ≠ u) : Running (g ++ [op]) t u := by
  obtain ⟨before, mid, during, rfl, hduring⟩ := h
  refine ⟨before, mid, during ++ [op], by simp, fun op' hop' => ?_⟩
  rcases mem_append.1 hop' with hop' | hop'
  · exact hduring op' hop'
  · rwa [mem_singleton.1 hop']

/-- Writes that are complete are covered by a barrier that starts now. -/
lemma Running.of_mem (h : (t, Action.write) ∈ g) : Running (g ++ [(u, .startBarrier)]) t u := by
  obtain ⟨before, mid, rfl⟩ := append_of_mem h
  exact ⟨before, mid, [], by simp, by simp⟩

lemma Running.finish (h : Running g t u) : Flushed (g ++ [(u, .finishBarrier (.ok ()))]) t :=
  ⟨u, g, [], h, rfl⟩

lemma Flushed.append (h : Flushed g t) : Flushed (g ++ g') t := by
  obtain ⟨u, g1, g2, hrun, rfl⟩ := h
  exact ⟨u, g1, g2 ++ g', hrun, by simp⟩

lemma Holds.append (h : Holds g t k) : Holds (g ++ g') t k := by
  intro n hn
  rw [tickets_append, take_append]
  exact mem_append_left _ (h n hn)

/-- The ticket that the counter hands out next. -/
lemma Holds.of_ticket (hk : k = (tickets g).length + 1) : Holds (g ++ [(t, .ticket)]) t k := by
  intro n hn
  rw [tickets_snoc_ticket, take_of_length_le (by simp; omega)]
  simp

/-! ## The proof outline -/

/-- What the shared barrier promises after a schedule. -/
structure MemoryOk (g : List (Tid × Action ε)) (m : StagingBarrier Tid) : Prop where
  issued : m.issued = (tickets g).length
  durable : m.state.durable ≤ (tickets g).length
  wrote : ∀ u ∈ tickets g, (u, Action.write) ∈ g
  flushed : ∀ u ∈ (tickets g).take m.state.durable, Flushed g u

/-- What a caller knows at each of its phases. -/
def ThreadOk (g : List (Tid × Action ε)) (t : Tid) : Phase ε → Prop
  | .staging => True
  | .staged => (t, .write) ∈ g
  | .ticketed ticket | .looping ticket _ _ | .waiting ticket _ _ => Holds g t ticket
  | .leading ticket target _ => Holds g t ticket ∧ target ≤ (tickets g).length
  | .syncing ticket target _ => Holds g t ticket ∧ target ≤ (tickets g).length ∧
      ∀ u ∈ (tickets g).take target, Running g u t
  | .synced ticket target _ outcome => Holds g t ticket ∧ target ≤ (tickets g).length ∧
      (outcome = .ok () → ∀ u ∈ (tickets g).take target, Flushed g u)
  | .exhausted _ => True
  | .returned result => ∀ led, result = .ok led → Flushed g t

variable {m m' : StagingBarrier Tid}

/-- An action that takes no ticket and leaves the counters alone. -/
lemma MemoryOk.quiet (h : MemoryOk g m) (hop : ticketOf op = none)
    (hissued : m'.issued = m.issued) (hdurable : m'.state.durable = m.state.durable) :
    MemoryOk (g ++ [op]) m' := by
  have htickets : tickets (g ++ [op]) = tickets g := by
    rw [tickets_append, tickets, tickets, filterMap_cons_none hop, filterMap_nil, append_nil]
  constructor
  · rw [hissued, htickets, h.issued]
  · rw [hdurable, htickets]
    exact h.durable
  · intro u hu
    rw [htickets] at hu
    exact mem_append_left _ (h.wrote u hu)
  · intro u hu
    rw [hdurable, htickets] at hu
    exact (h.flushed u hu).append

lemma MemoryOk.ticket (h : MemoryOk g m) (ht : (t, Action.write) ∈ g) :
    MemoryOk (g ++ [(t, .ticket)]) m.ticket.1 := by
  constructor
  · show m.issued + 1 = _
    rw [tickets_snoc_ticket, length_append, h.issued]
    rfl
  · exact h.durable.trans length_tickets_le
  · intro u hu
    rw [tickets_snoc_ticket] at hu
    rcases mem_append.1 hu with hu | hu
    · exact mem_append_left _ (h.wrote u hu)
    · rw [mem_singleton.1 hu]
      exact mem_append_left _ ht
  · intro u hu
    rw [show m.ticket.1.state = m.state from rfl, take_tickets_append h.durable] at hu
    exact (h.flushed u hu).append

/-- Publishing a target whose ticket holders are flushed. -/
lemma MemoryOk.publish {target : Nat} (h : MemoryOk g m) (hissued : m'.issued = m.issued)
    (htarget : target ≤ (tickets g).length) (hflushed : ∀ u ∈ (tickets g).take target, Flushed g u)
    (hdurable : m'.state.durable = if m.state.durable < target then target else m.state.durable) :
    MemoryOk (g ++ [(t, .publish)]) m' := by
  split at hdurable
  · have hraised : MemoryOk g { m with state := { m.state with durable := target } } :=
      ⟨h.issued, htarget, h.wrote, hflushed⟩
    exact hraised.quiet rfl hissued hdurable
  · exact h.quiet rfl hissued hdurable

variable {p p' : Phase ε}

/-- A caller's knowledge survives the actions of the others. -/
lemma ThreadOk.snoc (h : ThreadOk g t p) (hop : op.1 ≠ t) : ThreadOk (g ++ [op]) t p := by
  cases p with
  | staging | exhausted => trivial
  | staged => exact mem_append_left _ h
  | ticketed | looping | waiting => exact Holds.append h
  | leading => exact ⟨h.1.append, h.2.trans length_tickets_le⟩
  | syncing =>
    refine ⟨h.1.append, h.2.1.trans length_tickets_le, fun u hu => ?_⟩
    rw [take_tickets_append h.2.1] at hu
    exact (h.2.2 u hu).snoc hop
  | synced =>
    refine ⟨h.1.append, h.2.1.trans length_tickets_le, fun hok u hu => ?_⟩
    rw [take_tickets_append h.2.1] at hu
    exact (h.2.2 hok u hu).append
  | returned => exact fun led hled => (h led hled).append

/-- What an action of `t` does, by its cases. -/
inductive Acts (t : Tid) (m : StagingBarrier Tid) :
    Phase ε → Action ε → StagingBarrier Tid → Phase ε → Prop
  | write : Acts t m .staging .write m .staged
  | ticket : Acts t m .staged .ticket m.ticket.1 (.ticketed m.ticket.2)
  | lock {k : Nat} : Acts t m (.ticketed k) .lock { m with holder := some t }
      (.looping k false maxBarrierRounds)
  | exhaust {k : Nat} {led : Bool} : Acts t m (.looping k led 0) .recheck m (.exhausted k)
  | satisfied {k r : Nat} {led : Bool} (h : k ≤ m.state.durable) :
      Acts t m (.looping k led (r + 1)) .recheck { m with
          holder := none
          piggybacked := if led then m.piggybacked else m.piggybacked + 1 }
        (.returned (.ok led))
  | wait {k r : Nat} {led : Bool} : Acts t m (.looping k led (r + 1)) .recheck
      { m with holder := none } (.waiting k led r)
  | lead {k r : Nat} {led : Bool} : Acts t m (.looping k led (r + 1)) .recheck
      { m with
        holder := none
        state := { m.state with flushing := true }
        barriers := m.barriers + 1 }
      (.leading k m.issued r)
  | wake {k r : Nat} {led : Bool} : Acts t m (.waiting k led r) .wake
      { m with holder := some t } (.looping k led r)
  | startBarrier {k n r : Nat} : Acts t m (.leading k n r) .startBarrier m (.syncing k n r)
  | finishBarrier {k n r : Nat} {outcome : Except ε Unit} :
      Acts t m (.syncing k n r) (.finishBarrier outcome) m (.synced k n r outcome)
  | publish {k n r : Nat} {outcome : Except ε Unit} :
      Acts t m (.synced k n r outcome) .publish (m.publish t k n r outcome).1
        (m.publish t k n r outcome).2

variable {a : Action ε}

lemma acts_of_act (h : act t m p a = some (m', p')) : Acts t m p a m' p' := by
  unfold act at h
  split at h
  case h_1 => cases h; exact .write
  case h_2 => cases h; exact .ticket
  case h_3 =>
    obtain ⟨-, ⟨⟩⟩ := Run.guarded h
    exact .lock
  case h_4 k led rounds =>
    cases rounds with
    | zero => cases h; exact .exhaust
    | succ r =>
      rw [recheck] at h
      split at h
      · cases h
        exact .satisfied ‹_›
      · split at h
        · cases h; exact .wait
        · cases h; exact .lead
  case h_5 =>
    obtain ⟨-, ⟨⟩⟩ := Run.guarded h
    exact .wake
  case h_6 => cases h; exact .startBarrier
  case h_7 => cases h; exact .finishBarrier
  case h_8 =>
    obtain ⟨-, h⟩ := Option.ite_none_right_eq_some.1 h
    obtain rfl := congrArg Prod.fst (Option.some.inj h)
    obtain rfl := congrArg Prod.snd (Option.some.inj h)
    exact .publish
  case h_9 => cases h

/-- The assertions of the callers and of the barrier they share. -/
def outline : Threads.Outline (@act Tid ε) where
  memory := MemoryOk
  thread g _ t p := ThreadOk g t p
  free _ _ _ hu h := h.snoc hu.symm
  own {g m t p a m' p'} hm ht hact := by
    cases acts_of_act hact with
    | write => exact ⟨hm.quiet rfl rfl rfl, by simp [ThreadOk]⟩
    | ticket => exact ⟨hm.ticket ht, .of_ticket (by rw [← hm.issued]; rfl)⟩
    | lock | wait | wake => exact ⟨hm.quiet rfl rfl rfl, Holds.append ht⟩
    | exhaust => exact ⟨hm.quiet rfl rfl rfl, trivial⟩
    | satisfied hk =>
      exact ⟨hm.quiet rfl rfl rfl, fun _ _ => (hm.flushed t (ht _ hk)).append⟩
    | lead =>
      exact ⟨hm.quiet rfl rfl rfl, Holds.append ht, hm.issued.le.trans length_tickets_le⟩
    | startBarrier =>
      -- Every ticket so far belongs to completed writes, whatever the target is.
      refine ⟨hm.quiet rfl rfl rfl, ht.1.append, ht.2.trans length_tickets_le, fun u hu => ?_⟩
      rw [take_tickets_append ht.2] at hu
      exact .of_mem (hm.wrote u (mem_of_mem_take hu))
    | finishBarrier =>
      refine ⟨hm.quiet rfl rfl rfl, ht.1.append, ht.2.1.trans length_tickets_le, ?_⟩
      rintro rfl u hu
      rw [take_tickets_append ht.2.1] at hu
      exact (ht.2.2 u hu).finish
    | @publish k n r outcome =>
      cases outcome with
      | ok => exact ⟨hm.publish rfl ht.2.1 (ht.2.2 rfl) rfl, ht.1.append⟩
      | error e => exact ⟨hm.quiet rfl rfl rfl, fun led hled => nomatch hled⟩

lemma outline_start : (@outline Tid ε).Holds [] start :=
  ⟨⟨rfl, le_rfl, by simp [tickets], by simp [tickets]⟩, fun _ => trivial⟩

/-! ## The durable counter -/

lemma Acts.durable_le (h : Acts t m p a m' p') : m.state.durable ≤ m'.state.durable := by
  cases h with
  | @publish k n r outcome =>
    cases outcome with
    | ok =>
      show m.state.durable ≤ if m.state.durable < n then n else m.state.durable
      split <;> omega
    | error e => exact le_rfl
  | _ => exact le_rfl

/-- Only the publication of a successful barrier raises the counter. -/
lemma Acts.publish_of_durable_lt (h : Acts t m p a m' p')
    (hlt : m.state.durable < m'.state.durable) :
    a = .publish ∧ ∃ ticket rounds, p = .synced ticket m'.state.durable rounds (.ok ()) := by
  cases h with
  | @publish k n r outcome =>
    cases outcome with
    | ok =>
      by_cases hn : m.state.durable < n
      · have hd : (m.publish t k n r (.ok () : Except ε Unit)).1.state.durable = n := if_pos hn
        exact ⟨rfl, k, r, by rw [hd]⟩
      · exact absurd (hlt.trans_eq (if_neg hn)) (lt_irrefl _)
    | error e => exact absurd hlt (lt_irrefl _)
  | _ => exact absurd hlt (lt_irrefl _)

section Result

variable [DecidableEq Tid] {tr : List (Tid × Action ε)}
  {s : Threads Tid (StagingBarrier Tid) (Phase ε)}

/-- **A caller returns `Ok` only after a successful barrier that started after its writes.** The
durable counter never falls, and it rises only to the target of a barrier that succeeded. -/
theorem returned_ok_flushed (hrun : Run.exec (Threads.step act) start tr = some s) :
    (∀ t led, s.phase t = .returned (.ok led) → Flushed tr t) ∧
    ∀ op s', Threads.step act s op = some s' → s.shared.state.durable ≤ s'.shared.state.durable ∧
      (s.shared.state.durable < s'.shared.state.durable → op.2 = .publish ∧ ∃ ticket rounds,
          s.phase op.1 = .synced ticket s'.shared.state.durable rounds (.ok ())) := by
  refine ⟨fun t led hphase => ?_, fun op s' hstep => ?_⟩
  · have hthread : ThreadOk tr t (s.phase t) := (outline.exec outline_start hrun).2 t
    rw [hphase] at hthread
    exact hthread led rfl
  · obtain ⟨m, p, hact, rfl⟩ := Threads.step_eq_some hstep
    exact ⟨(acts_of_act hact).durable_le, (acts_of_act hact).publish_of_durable_lt⟩

end Result

/-- Caller `0` leads a round that covers caller `1`, which waits for it. -/
def sharedRound : List (Nat × Action Unit) :=
  [(0, .write), (0, .ticket), (1, .write), (1, .ticket), (0, .lock), (0, .recheck),
    (0, .startBarrier), (1, .lock), (1, .recheck), (0, .finishBarrier (.ok ())), (0, .publish),
    (0, .recheck), (1, .wake), (1, .recheck)]

theorem returned_ok_flushed_sharedRound : ∃ s ∈ Run.exec (Threads.step act) start sharedRound,
    s.phase 1 = .returned (.ok false) ∧ s.shared.barriers = 1 ∧ Flushed sharedRound 1 := by
  obtain ⟨s, hs, hphase, hbarriers⟩ : ∃ s ∈ Run.exec (Threads.step act) start sharedRound,
      s.phase 1 = .returned (.ok false) ∧ s.shared.barriers = 1 := by
    decide +kernel
  exact ⟨s, hs, hphase, hbarriers, (returned_ok_flushed hs).1 1 false hphase⟩

end StagingBarrier

end Graphus
