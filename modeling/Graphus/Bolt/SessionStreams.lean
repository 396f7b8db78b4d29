import Graphus.Bolt.Session
import Mathlib.Data.List.Induction
import Mathlib.Data.List.InsertIdx

/-!
# Open results and the open transaction

The state of a session says which results are open: one without an id while it is streaming, at
least one and at most the cap with different ids below the next one while it streams in a
transaction, and none in every other state. And it says where a transaction can be: a transaction
that has begun and has not ended in the log is open only while the session is in it or has failed
(`Matched`).

Two branches leave results open. A message that cannot be decoded makes a session `FAILED`, and a
`GOODBYE` or the end of the connection makes it `DEFUNCT`, without closing them. And an error of the
transport or of the framing ends the loop without a rollback.

**Theorem (`matched_of_orderly`).** On every run in which no result is open when such a message
arrives, no transaction is open when a read fails and no write fails, the state matches after every
turn, and no transaction is open when the loop has ended.

`malformed_leaves_stream` is a run that does not.
-/

namespace Graphus.Bolt

open Hoare List
open Sample (hello logon service start turns)
open Connection (start step)

/-! ## The transaction in the log -/

def Event.endsTx : Event → Bool
  | .called .commit true | .called .rollback true | .called .rollbackOpenTx _ => true
  | _ => false

/-- A transaction has begun and has not been committed, rolled back or given up. -/
def TxOpen (log : List Event) : Prop :=
  ∃ before after, log = before ++ .called .begin true :: after ∧ ∀ e ∈ after, e.endsTx = false

variable {log : List Event} {e : Event}

lemma TxOpen.of_append (h : TxOpen (log ++ [e])) :
    e = .called .begin true ∨ (TxOpen log ∧ e.endsTx = false) := by
  obtain ⟨before, after, heq, hafter⟩ := h
  rcases eq_nil_or_concat' after with rfl | ⟨after, last, rfl⟩
  · exact .inl (singleton_inj.1 (append_inj' heq rfl).2)
  rw [← cons_append, ← append_assoc] at heq
  obtain ⟨hlog, hlast⟩ := append_inj' heq rfl
  rw [singleton_inj.1 hlast]
  refine .inr ⟨⟨before, after, hlog, fun e he => hafter e (mem_append_left _ he)⟩, ?_⟩
  exact hafter last (mem_append_right _ mem_cons_self)

lemma txOpen_append :
    TxOpen (log ++ [e]) ↔ e = .called .begin true ∨ (TxOpen log ∧ e.endsTx = false) := by
  refine ⟨TxOpen.of_append, ?_⟩
  rintro (rfl | ⟨⟨before, after, rfl, hafter⟩, he⟩)
  · exact ⟨log, [], rfl, nofun⟩
  refine ⟨before, after ++ [e], by rw [append_assoc]; rfl, fun x hx => ?_⟩
  rcases mem_append.1 hx with hx | hx
  · exact hafter x hx
  · exact mem_singleton.1 hx ▸ he

lemma not_txOpen_nil : ¬ TxOpen [] := by
  rintro ⟨before, after, heq, -⟩
  cases before <;> cases heq

/-- Read the log from its start. -/
def txOpen (log : List Event) : Bool :=
  log.foldl (fun isOpen e => e = .called .begin true || (isOpen && !e.endsTx)) false

lemma txOpen_iff (log : List Event) : txOpen log = true ↔ TxOpen log := by
  induction log using reverseRecOn with
  | nil => exact ⟨nofun, fun h => absurd h not_txOpen_nil⟩
  | append_singleton log e ih =>
    rw [txOpen_append, ← ih]
    simp [txOpen]

instance : DecidablePred TxOpen := fun log => decidable_of_iff _ (txOpen_iff log)

lemma not_txOpen_append (h : ¬ TxOpen log) (he : e ≠ .called .begin true) : ¬ TxOpen (log ++ [e]) :=
  fun hopen => hopen.of_append.elim he fun h' => h h'.1

lemma not_txOpen_ends (he : e.endsTx = true) : ¬ TxOpen (log ++ [e]) := by
  intro hopen
  rcases hopen.of_append with rfl | ⟨-, h⟩
  · cases he
  · rw [he] at h
    cases h

/-! ## What the state says -/

/-- The results open in a transaction, by their ids. -/
structure TxStreams (cap : Nat) (nextQid : Int64) (qids : List (Option Int64)) : Prop where
  length_le : qids.length ≤ cap
  nodup : qids.Nodup
  below : ∀ x ∈ qids, ∃ q, x = some q ∧ q < nextQid

/-- The results that may be open in a state. -/
def Streams (cap : Nat) (nextQid : Int64) (qids : List (Option Int64)) : State → Prop
  | .streaming => qids = [none]
  | .txStreaming => qids ≠ [] ∧ TxStreams cap nextQid qids
  | _ => qids = []

/-- The states that a transaction may be open in. -/
def State.mayHoldTx : State → Bool
  | .txReady | .txStreaming | .failed => true
  | _ => false

variable {X α : Type}

def BoltSession.qids (s : BoltSession X) : List (Option Int64) := s.openStreams.map (·.qid)

lemma BoltSession.qids_eq_nil {s : BoltSession X} (h : s.openStreams = []) : s.qids = [] := by
  rw [qids, h, map_nil]

open BoltSession (qids qids_eq_nil)

structure Matched (cap : Nat) (s : BoltSession X) : Prop where
  streams : Streams cap s.nextQid s.qids s.state
  tx : TxOpen s.log → s.state.mayHoldTx

/-! ## Handlers -/

/-- No write fails for the rest of the turn. -/
def Quiet (s : BoltSession X) : Prop := ∀ w ∈ s.writes, w = none

/-- No result is open. -/
def Closed (s : BoltSession X) : Prop := Quiet s ∧ s.qids = []

/-- Nothing is open. -/
structure Idle (s : BoltSession X) : Prop where
  quiet : Quiet s
  streams : s.qids = []
  tx : ¬ TxOpen s.log

/-- A handler that cannot fail and leaves the state matched, and no transaction when it stops the
loop. -/
def Settles (cap : Nat) (P : BoltSession X → Prop) (m : Handler X Flow) : Prop :=
  Triple P m (fun flow s => Matched cap s ∧ (flow = .stop → ¬ TxOpen s.log)) fun _ _ => False

/-- A part of a handler that opens nothing. -/
def StaysIdle (m : Handler X α) : Prop := Triple Idle m (fun _ => Idle) fun _ _ => False

section Rules

variable {P : BoltSession X → Prop} {cap : Nat}

lemma send_quiet {response : Response} (hq : ∀ s, P s → Quiet s)
    (hP : ∀ s w r, P s → Quiet { s with writes := w, sent := r } →
      P { s with writes := w, sent := r }) :
    Triple P (send response) (fun _ => P) fun _ _ => False := by
  refine send_spec (fun s w r hs hw => hP s w r hs fun x hx => hq s hs x (hw hx))
    fun s e w hs he => ?_
  cases hq s hs _ he

variable {state : State}

lemma Streams.nil {n : Int64} (h : state ≠ .streaming) (h' : state ≠ .txStreaming) :
    Streams cap n [] state := by
  cases state
  case streaming => exact absurd rfl h
  case txStreaming => exact absurd rfl h'
  all_goals exact rfl

/-- The end of a handler. -/
lemma setState_settles {flow : Flow}
    (h : ∀ s, P s → Matched cap { s with state := state } ∧ (flow = .stop → ¬ TxOpen s.log)) :
    Settles cap P (do setState state; return flow : Handler X Flow) :=
  h

/-- The end of a handler with no result open: a transaction may stay open in the new state. -/
lemma setState_closed {flow : Flow} (h : state ≠ .streaming) (h' : state ≠ .txStreaming)
    (htx : state.mayHoldTx = true ∧ flow = .goOn) :
    Settles cap Closed (do setState state; return flow : Handler X Flow) := by
  refine setState_settles fun s hs => ⟨⟨?_, fun _ => htx.1⟩, fun hstop => ?_⟩
  · exact (show Streams cap s.nextQid s.qids state from hs.2 ▸ Streams.nil h h')
  · rw [htx.2] at hstop
    cases hstop

lemma setState_idle {flow : Flow} (h : state ≠ .streaming) (h' : state ≠ .txStreaming) :
    Settles cap Idle (do setState state; return flow : Handler X Flow) := by
  refine setState_settles fun s hs => ⟨⟨?_, fun htx => absurd htx hs.tx⟩, fun _ => hs.tx⟩
  exact (show Streams cap s.nextQid s.qids state from hs.streams ▸ Streams.nil h h')

end Rules

/-! ### Failures -/

section Failures

variable {cap : Nat} (service : Service X)

lemma send_closed {response : Response} :
    Triple (Closed (X := X)) (send response) (fun _ => Closed) fun _ _ => False :=
  send_quiet (fun _ hs => hs.1) fun _ _ _ hs hq => ⟨hq, hs.2⟩

lemma send_idle {response : Response} : StaysIdle (send response : Handler X Unit) :=
  send_quiet (fun _ hs => hs.quiet) fun _ _ _ hs hq => { hs with quiet := hq }

lemma closeAllStreams_closed :
    Triple (Quiet (X := X)) closeAllStreams (fun _ => Closed) fun _ _ => False :=
  .modify fun _ hs => ⟨hs, rfl⟩

/-- A recoverable failure closes every result and may leave the transaction open. -/
lemma failRecoverable_settles {failure : Failure} :
    Settles cap Quiet (failRecoverable failure : Handler X Flow) :=
  .bind closeAllStreams_closed fun _ => .bind send_closed fun _ =>
    setState_closed nofun nofun ⟨rfl, rfl⟩

lemma refuseExtra_settles {rejection : ExtraRejected} {message : String} :
    Settles cap Quiet (refuseExtra rejection message : Handler X Flow) := by
  cases rejection
  · exact failRecoverable_settles
  · exact failRecoverable_settles

lemma rollbackOpenTx_idle :
    Triple Closed (rollbackOpenTx service) (fun _ => Idle) fun _ _ => False :=
  fun _ hs => ⟨hs.1, hs.2, not_txOpen_ends rfl⟩

lemma close_settles : Settles cap Closed
      (do rollbackOpenTx service; setState .defunct; return .stop : Handler X Flow) :=
  .bind (rollbackOpenTx_idle service) fun _ => setState_idle nofun nofun

lemma failTerminal_settles {failure : Failure} : Settles cap Quiet (failTerminal service failure) :=
  .bind closeAllStreams_closed fun _ => .bind (rollbackOpenTx_idle service) fun _ =>
    .bind send_idle fun _ => setState_idle nofun nofun

lemma unexpected_settles {request : Request} : Settles cap Quiet (unexpected service request) :=
  fun s hs => failTerminal_settles service s hs

lemma handleReset_settles : Settles cap Quiet (handleReset service) := by
  intro s hs
  refine Triple.ite (P := Idle) (fun _ => ?_) (fun _ => ?_) _ ⟨hs, rfl, not_txOpen_ends rfl⟩
  · exact .bind send_idle fun _ => setState_idle nofun nofun
  · exact .bind send_idle fun _ => setState_idle nofun nofun

end Failures

/-! ### Authentication -/

section Authentication

variable {cap : Nat} (service : Service X)

lemma act_idle {f : X → α × X} : StaysIdle (act f) := act_spec fun _ _ hs => { hs with }

lemma note_idle (he : e ≠ .called .begin true) : StaysIdle (note e : Handler X Unit) :=
  .modify fun _ hs => ⟨hs.quiet, hs.streams, not_txOpen_append hs.tx he⟩

lemma setPrincipal_idle {principal : Option Text} :
    StaysIdle (setPrincipal principal : Handler X Unit) :=
  .modify fun _ hs => ⟨hs.quiet, hs.streams, hs.tx⟩

lemma authenticate_idle {auth : Fields} : StaysIdle (authenticate service auth) :=
  authenticate_spec service (fun _ _ hs => { hs with }) (fun _ _ hs => hs)
    (fun _ _ hs => ⟨hs.quiet, hs.streams, not_txOpen_append hs.tx nofun⟩)
      fun _ _ _ hs => { hs with }

lemma logOn_settles {auth metadata : Fields} : Settles cap Idle (logOn service auth metadata) := by
  refine .bind (authenticate_idle service) fun outcome => ?_
  cases outcome with
  | error failure => exact .bind act_idle fun _ s hs => failTerminal_settles service s hs.quiet
  | ok user =>
    exact .bind act_idle fun _ => .bind setPrincipal_idle fun _ =>
      .bind send_idle fun _ => setState_idle nofun nofun

lemma dispatchConnected_settles {request : Request} :
    Settles cap Idle (dispatchConnected service request) := by
  cases request
  case hello extra =>
    refine .ite (fun _ s hs => failTerminal_settles service s hs.quiet) fun _ s hs => ?_
    refine Triple.ite (fun _ => logOn_settles service) (fun _ => ?_) s hs
    exact Triple.bind send_idle fun _ => setState_idle nofun nofun
  all_goals exact fun s hs => unexpected_settles service s hs.quiet

lemma dispatchAuthentication_settles {request : Request} :
    Settles cap Idle (dispatchAuthentication service request) := by
  cases request
  case logon auth => exact logOn_settles service
  all_goals exact fun s hs => unexpected_settles service s hs.quiet

end Authentication

/-! ### Statements -/

section Statements

variable {cap : Nat} {s t : BoltSession X} (service : Service X)

/-- The session `t` after some writes. -/
def Framed (t u : BoltSession X) : Prop := Quiet u ∧ ∃ w r, u = { t with writes := w, sent := r }

lemma send_framed {response : Response} :
    Triple (Framed t) (send response) (fun _ => Framed t) fun _ _ => False := by
  refine send_quiet (fun _ hu => hu.1) fun u w r hu hq => ⟨hq, w, r, ?_⟩
  obtain ⟨-, w', r', rfl⟩ := hu
  rfl

variable {f : X → Except GraphusError α × X}

lemma execute_bind {β : Type} {c : Call} {g : Except GraphusError α → Handler X β}
    {Q : β → BoltSession X → Prop} {E : BoltError → BoltSession X → Prop}
    (h : ∀ r w, Triple (· = { s with world := w, log := s.log ++ [.called c r.isOk] }) (g r) Q E) :
    Triple (· = s) (execute c f >>= g) Q E := by
  rintro _ rfl
  exact h _ _ _ rfl

lemma failWith_settles {e : GraphusError} (hs : Quiet s) :
    Settles cap (· = s) (failWith e : Handler X Flow) :=
  .at_state failRecoverable_settles hs

lemma openStream_settles {qid : Option Int64} {stream : RecordStream} {metadata : Fields}
    {state : State} (hq : Quiet t) (hstreams : Streams cap t.nextQid (t.qids ++ [qid]) state)
    (htx : TxOpen t.log → state.mayHoldTx) :
    Settles cap (· = t) (openStream qid stream metadata state : Handler X Flow) := by
  refine .at_state (.bind send_framed fun _ => ?_) ⟨hq, _, _, rfl⟩
  rintro _ ⟨-, w, r, rfl⟩
  have hqids : (t.openStreams ++ [OpenStream.mk qid ⟨stream, none⟩]).map OpenStream.qid = t.qids ++
    [qid] := map_append
  exact ⟨⟨(show Streams cap t.nextQid (map _ _) state from hqids ▸ hstreams), htx⟩, nofun⟩

variable {parameters extra : Fields}

variable {query : Text}

/-- An auto-commit statement. -/
lemma handleRun_streaming {tx : TxControl} :
    Settles cap Idle (handleRun service query parameters tx .streaming) := by
  refine .of_state fun s hs => .get_bind (.ite (fun h => nomatch h.1) fun _ => ?_)
  refine execute_bind fun outcome w => ?_
  cases outcome with
  | error e => exact failWith_settles hs.quiet
  | ok stream =>
    refine .ite nofun fun _ => .modify_bind (openStream_settles hs.quiet ?_ ?_)
    · change s.qids ++ [none] = [none]
      rw [hs.streams, nil_append]
    · exact fun htx => absurd htx (not_txOpen_append hs.tx nofun)

variable {n : Int64}

lemma lt_succ_of_ne_max (h : n ≠ Int64.maxValue) : n < n + 1 := by
  have hne : n.toInt ≠ 2 ^ 63 - 1 := fun heq => h (Int64.toInt_inj.1 heq)
  have hlt := Int64.toInt_lt n
  have hge := Int64.le_toInt n
  rw [Int64.lt_iff_toInt_lt, Int64.toInt_add, Int64.toInt_one,
    Int.bmod_eq_of_le (by omega) (by omega)]
  omega

variable {qids : List (Option Int64)}

lemma TxStreams.push (h : TxStreams cap n qids)
    (hroom : qids.length < cap) (hn : n ≠ Int64.maxValue) :
    TxStreams cap (n + 1) (qids ++ [some n]) where
  length_le := by
    rw [length_append]
    exact hroom
  nodup := by
    refine nodup_append.2 ⟨h.nodup, pairwise_singleton _ _, fun x hx y hy => ?_⟩
    obtain ⟨q, rfl, hq⟩ := h.below x hx
    rw [mem_singleton.1 hy]
    rintro ⟨⟩
    exact Int64.lt_irrefl hq
  below := by
    intro x hx
    rcases mem_append.1 hx with hx | hx
    · obtain ⟨q, rfl, hq⟩ := h.below x hx
      exact ⟨q, rfl, Int64.lt_trans hq (lt_succ_of_ne_max hn)⟩
    · exact ⟨n, mem_singleton.1 hx, lt_succ_of_ne_max hn⟩

/-- What a statement in a transaction starts from. -/
structure InTx (cap : Nat) (s : BoltSession X) : Prop where
  quiet : Quiet s
  streams : TxStreams cap s.nextQid s.qids
  qid : s.nextQid ≠ Int64.maxValue

lemma handleRun_txStreaming {tx : TxControl} :
    Settles service.config.cap (InTx service.config.cap)
    (handleRun service query parameters tx .txStreaming) := by
  refine .of_state fun s hs => .get_bind (.ite (fun _ => ?_) fun hroom => ?_)
  · exact .at_state failRecoverable_settles hs.quiet
  have hlen : s.qids.length < service.config.cap := by
    rw [qids, length_map]
    exact Nat.lt_of_not_le fun h => hroom ⟨rfl, h⟩
  refine execute_bind fun outcome w => ?_
  cases outcome with
  | error e => exact failWith_settles hs.quiet
  | ok stream =>
    refine .ite (fun _ => .modify_bind (openStream_settles hs.quiet ?_ fun _ => rfl))
      fun h => absurd rfl h
    exact ⟨append_ne_nil_of_right_ne_nil _ nofun, hs.streams.push hlen hs.qid⟩

lemma runStatement_settles {P : BoltSession X → Prop} {tx : TxExtra → TxControl}
    {state : State} (hq : ∀ s, P s → Quiet s)
    (h : ∀ extra, Settles cap P (handleRun service query parameters (tx extra) state)) :
    Settles cap P (runStatement service query parameters extra tx state) := by
  unfold runStatement
  cases parseTxExtra extra with
  | ok extra => exact h extra
  | error rejection => exact fun s hs => refuseExtra_settles s (hq s hs)

/-! ### Results -/

variable {emit : Bool}

lemma streamIndexFor_some {streams : List OpenStream} {last qid : Option Int64}
    {found : Nat × OpenStream}
    (h : streamIndexFor streams last qid = some found) : streams[found.1]? = some found.2 := by
  obtain ⟨i, -, h⟩ := Option.bind_eq_some_iff.1 h
  obtain ⟨entry, hentry, rfl⟩ := Option.map_eq_some_iff.1 h
  exact hentry

lemma TxStreams.eraseIdx (h : TxStreams cap n qids) (i : Nat) :
    TxStreams cap n (qids.eraseIdx i) where
  length_le := (length_eraseIdx_le qids i).trans h.length_le
  nodup := h.nodup.sublist (eraseIdx_sublist qids i)
  below x hx := h.below x (mem_of_mem_eraseIdx hx)

section

variable (hs : Matched cap s) (hstate : s.state = .streaming ∨ s.state = .txStreaming)

include hs hstate

/-- Taking a result out for good. -/
lemma Matched.erase {i : Nat} (hi : i < s.qids.length) (hempty : s.qids.eraseIdx i ≠ []) :
    Streams cap s.nextQid (s.qids.eraseIdx i) s.state := by
  have hstreams := hs.streams
  rcases hstate with h | h
  · rw [h] at hstreams
    rw [hstreams] at hi hempty
    obtain rfl : i = 0 := Nat.lt_one_iff.1 hi
    exact absurd rfl hempty
  · rw [h] at hstreams ⊢
    exact ⟨hempty, hstreams.2.eraseIdx i⟩

/-- With the last result gone the session is ready again, in its transaction if it was in one. -/
lemma Matched.readyAfterStream {streams : List OpenStream} {w : List (Option BoltError)}
    {r : List Response} (hempty : streams = []) :
    Matched cap
      { s with
        openStreams := streams, writes := w, sent := r, state := s.state.readyAfterStream } := by
  subst hempty
  have htx := hs.tx
  rcases hstate with h | h
  · rw [h] at htx ⊢
    exact ⟨rfl, htx⟩
  · rw [h] at htx ⊢
    exact ⟨rfl, htx⟩

/-- The end of a `PULL` or a `DISCARD` that had taken out the result at `i`. -/
lemma finishPull_settles {entry : OpenStream} {r : OpenResult} {i : Nat} {hasMore : Bool}
    (hi : s.openStreams[i]? = some entry) :
    Settles cap (Framed { s with openStreams := s.openStreams.eraseIdx i })
      (finishPull i entry r hasMore : Handler X Flow) := by
  have hqid : s.qids[i]? = some entry.qid := by
    rw [qids, getElem?_map, hi]
    rfl
  obtain ⟨hlt, hentry⟩ := List.getElem?_eq_some_iff.1 hqid
  have herase : (s.openStreams.eraseIdx i).map (·.qid) = s.qids.eraseIdx i :=
    (eraseIdx_map _ _ _).symm
  refine .ite (fun _ => .bind send_framed fun _ => ?_) fun _ => .bind send_framed fun _ => ?_
  · -- the result goes back to its place under its id
    rintro _ ⟨-, w, sent, rfl⟩
    refine ⟨⟨?_, hs.tx⟩, nofun⟩
    have hqids :
        ((s.openStreams.eraseIdx i).insertIdx i { entry with result := r }).map (·.qid) =
          s.qids := by
      rw [map_insertIdx, herase, ← hentry]
      exact insertIdx_eraseIdx_getElem hlt
    exact (show Streams cap s.nextQid (map _ _) s.state from hqids ▸ hs.streams)
  · refine .bind (.modify (Q := fun _ => Matched cap) fun u hu => ?_) fun _ =>
      .pure fun _ hu => ⟨hu, nofun⟩
    obtain ⟨-, w, sent, rfl⟩ := hu
    by_cases hempty : s.openStreams.eraseIdx i = []
    · rw [if_pos hempty]
      exact hs.readyAfterStream hstate hempty
    rw [if_neg hempty]
    refine ⟨?_, hs.tx⟩
    have hne : s.qids.eraseIdx i ≠ [] := fun h => hempty (map_eq_nil_iff.1 (herase.trans h))
    exact (show Streams cap s.nextQid (map _ _) s.state from herase ▸ hs.erase hstate hlt hne)

end

lemma handlePull_settles {qid : Option Int64} :
    Settles cap (fun s => Quiet s ∧ Matched cap s ∧ (s.state = .streaming ∨ s.state = .txStreaming))
      (handlePull n qid emit : Handler X Flow) := by
  refine .ite (fun _ s hs => failRecoverable_settles s hs.1) fun _ => ?_
  refine .of_state fun s hs => .get_bind ?_
  cases hfound : streamIndexFor s.openStreams s.lastOpenedQid qid with
  | none => exact .at_state failRecoverable_settles hs.1
  | some found =>
    obtain ⟨hq, hs, hstate⟩ := hs
    have hi := streamIndexFor_some hfound
    have hfail : ∀ {e},
      Settles cap (Framed { s with openStreams := s.openStreams.eraseIdx found.1 })
        (failWith e : Handler X Flow) :=
      fun u hu => failRecoverable_settles u hu.1
    have hframe : Framed { s with openStreams := s.openStreams.eraseIdx found.1 }
        { s with openStreams := s.openStreams.eraseIdx found.1 } := ⟨hq, _, _, rfl⟩
    refine .modify_bind
      (.at_state (.bind (fetch_spec fun _ => send_framed) fun fetched => ?_) hframe)
    cases fetched with
    | failed e => exact hfail
    | drained r => exact finishPull_settles hs hstate hi
    | limited r =>
      dsimp only
      cases r.hasMore with
      | error e => exact hfail
      | ok more => exact finishPull_settles hs hstate hi

/-! ### Transactions -/

lemma handleBegin_settles : Settles cap Idle (handleBegin service extra) := by
  unfold handleBegin
  cases parseTxExtra extra with
  | error rejection => exact fun s hs => refuseExtra_settles s hs.quiet
  | ok extra =>
    refine .of_state fun s hs => execute_bind fun outcome w => ?_
    cases outcome with
    | error e => exact failWith_settles hs.quiet
    | ok u =>
      refine .modify_bind (.at_state (.bind send_closed fun _ => ?_) ⟨hs.quiet, hs.streams⟩)
      exact setState_closed nofun nofun ⟨rfl, rfl⟩

lemma handleEnd_settles {c : Call} {metadata : α → Fields}
    (hc : (Event.called c true).endsTx = true) : Settles cap Closed (handleEnd c f metadata) := by
  refine .of_state fun s hs => execute_bind fun outcome w => ?_
  cases outcome with
  | error e => exact failWith_settles hs.1
  | ok a =>
    refine .at_state (.bind send_idle fun _ => ?_) ⟨hs.1, hs.2, not_txOpen_ends hc⟩
    exact setState_idle nofun nofun

lemma handleLogoff_settles : Settles cap Idle (handleLogoff service) :=
  .bind act_idle fun _ => .bind (note_idle nofun) fun _ => .bind setPrincipal_idle fun _ =>
    .bind send_idle fun _ => setState_idle nofun nofun

end Statements

/-! ## Turns -/

section Turns

variable (service : Service X)

/-- What a message needs: no result is open when it cannot be decoded or is a `GOODBYE`, and the ids
of a transaction do not run out. -/
def OrderlyRequest (s : BoltSession X) : Except PackStream.DecodeFault Request → Prop
  | .error _ | .ok .goodbye => s.openStreams = []
  | .ok (.run _ _ _) => s.nextQid ≠ Int64.maxValue
  | .ok _ => True

/-- What a turn needs beside a matched state: the message is orderly, no result is open at the end
of the connection, no transaction is open when a read fails, and no write fails. -/
def Orderly (c : Connection X) (turn : Turn) : Prop :=
  (∀ w ∈ turn.writes, w = none) ∧
  match turn.arrival with
  | .unreadable _ => ¬ TxOpen c.session.log
  | .eof => c.session.openStreams = []
  | .message payload => OrderlyRequest c.session (decodeRequest service c.session.version payload)

instance (s : BoltSession X) : DecidablePred (OrderlyRequest s) := fun request => by
  unfold OrderlyRequest
  split <;> infer_instance

instance (c : Connection X) : DecidablePred (Orderly service c)
  | ⟨.unreadable _, _, _⟩ => inferInstanceAs (Decidable (_ ∧ ¬ TxOpen c.session.log))
  | ⟨.eof, _, _⟩ => inferInstanceAs (Decidable (_ ∧ c.session.openStreams = []))
  | ⟨.message _, _, _⟩ => inferInstanceAs (Decidable (_ ∧ OrderlyRequest c.session _))

variable {cap : Nat}

/-- An answer that changes nothing. -/
lemma reply_settles {response : Response} :
    Settles cap (fun s => Quiet s ∧ Matched cap s)
    (do send response; return .goOn : Handler X Flow) := by
  refine .bind (send_quiet (fun _ hs => hs.1) fun s _ _ hs hq => ⟨hq, ?_⟩) fun _ => ?_
  · exact ⟨hs.2.streams, hs.2.tx⟩
  · exact .pure fun _ hs => ⟨hs.2, nofun⟩

variable {s : BoltSession X}

lemma Matched.idle (hs : Matched cap s) (hq : Quiet s)
    (hstate : s.state = .connected ∨ s.state = .authentication ∨ s.state = .ready) : Idle s := by
  have hstreams := hs.streams
  have htx := hs.tx
  rcases hstate with h | h | h <;> rw [h] at hstreams htx <;> exact ⟨hq, hstreams, nofun ∘ htx⟩

lemma Matched.inTx (hs : Matched cap s) (hq : Quiet s)
    (hstate : s.state = .txReady ∨ s.state = .txStreaming) (hqid : s.nextQid ≠ Int64.maxValue) :
    InTx cap s := by
  refine ⟨hq, ?_, hqid⟩
  have hstreams := hs.streams
  rcases hstate with h | h <;> rw [h] at hstreams
  · rw [hstreams]
    exact ⟨Nat.zero_le _, nodup_nil, nofun⟩
  · exact hstreams.2

variable {request : Request}

section

variable (hs : Matched service.config.cap s) (hq : Quiet s)
  (hrun : ∀ query parameters extra, request = .run query parameters extra →
  s.nextQid ≠ Int64.maxValue)

include hs hq hrun

lemma dispatchReady_settles (hstate : s.state = .ready ∨ s.state = .txReady) :
    Settles service.config.cap (· = s) (dispatchReady service s.state request) := by
  have hready : s.state = .ready → ∀ {m : Handler X Flow}, Settles service.config.cap Idle m →
      Settles service.config.cap (· = s) m :=
    fun h _ hm => hm.at_state (hs.idle hq (.inr (.inr h)))
  have hclosed : Closed s := by
    have hstreams := hs.streams
    rcases hstate with h | h <;> rw [h] at hstreams <;> exact ⟨hq, hstreams⟩
  unfold dispatchReady
  split
  · rename_i h
    exact hready h
      (runStatement_settles service (fun _ hs => hs.quiet) fun _ => handleRun_streaming service)
  · rename_i h
    refine .at_state (runStatement_settles service (fun _ hs => hs.quiet) fun _ =>
      handleRun_txStreaming service) ?_
    exact hs.inTx hq (.inl h) (hrun _ _ _ rfl)
  · rename_i h
    exact hready h (handleBegin_settles service)
  · exact .at_state (handleEnd_settles rfl) hclosed
  · exact .at_state (handleEnd_settles rfl) hclosed
  · split
    · exact .at_state refuseExtra_settles hq
    · exact .at_state reply_settles ⟨hq, hs⟩
  · refine .ite (fun _ => ?_) fun _ => ?_
    · exact .at_state reply_settles ⟨hq, hs⟩
    · exact .at_state failRecoverable_settles hq
  · rename_i h
    exact hready h (handleLogoff_settles service)
  · exact .at_state (failTerminal_settles service) hq
  · exact .at_state (handleReset_settles service) hq
  · exact .at_state (unexpected_settles service) hq

lemma dispatchStreaming_settles (hstate : s.state = .streaming ∨ s.state = .txStreaming) :
    Settles service.config.cap (· = s) (dispatchStreaming service s.state request) := by
  unfold dispatchStreaming
  split
  · exact .at_state handlePull_settles ⟨hq, hs, hstate⟩
  · exact .at_state handlePull_settles ⟨hq, hs, hstate⟩
  · exact .at_state (handleReset_settles service) hq
  · rename_i h
    refine .at_state (runStatement_settles service (fun _ hs => hs.quiet) fun _ =>
      handleRun_txStreaming service) ?_
    exact hs.inTx hq (.inr h) (hrun _ _ _ rfl)
  · exact .at_state (unexpected_settles service) hq

lemma dispatchAt_settles :
    Settles service.config.cap (· = s) (dispatchAt service s.state request) := by
  have hready := @dispatchReady_settles X service s request hs hq hrun
  have hstreaming := @dispatchStreaming_settles X service s request hs hq hrun
  have hignored : Settles service.config.cap (· = s)
    (do send .ignored; return .goOn : Handler X Flow) :=
    .at_state reply_settles ⟨hq, hs⟩
  cases hstate : s.state
  case connected => exact .at_state (dispatchConnected_settles service) (hs.idle hq (.inl hstate))
  case authentication =>
    exact .at_state (dispatchAuthentication_settles service) (hs.idle hq (.inr (.inl hstate)))
  case defunct => exact hignored
  case failed =>
    cases request
    case reset => exact .at_state (handleReset_settles service) hq
    all_goals exact hignored
  all_goals rw [hstate] at hready hstreaming
  case ready => exact hready (.inl rfl)
  case txReady => exact hready (.inr rfl)
  case streaming => exact hstreaming (.inl rfl)
  case txStreaming => exact hstreaming (.inr rfl)

end

lemma handleMalformed_settles {fault : PackStream.DecodeFault} (hs : Matched cap s) (hq : Quiet s)
    (hclosed : s.qids = []) : Settles cap (· = s) (handleMalformed fault : Handler X Flow) := by
  refine .get_bind ?_
  by_cases hstate : s.state = .connected ∨ s.state = .authentication
  · simp only [if_pos hstate]
    refine .at_state (.bind send_idle fun _ => ?_) (hs.idle hq (hstate.imp_right .inl))
    exact setState_idle nofun nofun
  · simp only [if_neg hstate]
    refine .at_state (.bind send_closed fun _ => ?_) ⟨hq, hclosed⟩
    exact setState_closed nofun nofun ⟨rfl, rfl⟩

lemma handlePayload_settles {payload : Bytes} (hs : Matched service.config.cap s)
    (hq : Quiet s) (horderly : OrderlyRequest s (decodeRequest service s.version payload)) :
    Settles service.config.cap (· = s) (handlePayload service payload) := by
  refine .get_bind ?_
  cases hdecoded : decodeRequest service s.version payload with
  | error fault =>
    rw [hdecoded] at horderly
    exact handleMalformed_settles hs hq (qids_eq_nil horderly)
  | ok request =>
    rw [hdecoded] at horderly
    have hat := @dispatchAt_settles X service s request hs hq
    cases request
    case goodbye => exact .at_state (close_settles service) ⟨hq, qids_eq_nil horderly⟩
    case run query parameters extra => exact .get_bind (hat fun _ _ _ _ => horderly)
    all_goals exact .get_bind (hat nofun)

/-- **One turn.** -/
lemma serve_settles {turn : Turn} (hs : Matched service.config.cap s) (hq : Quiet s)
    (horderly : Orderly service ⟨s, none⟩ turn) :
    Triple (· = s) (serve service turn)
    (fun flow s => Matched service.config.cap s ∧ (flow = .stop → ¬ TxOpen s.log))
      fun _ s => Matched service.config.cap s ∧ ¬ TxOpen s.log := by
  obtain ⟨arrival, writes, flush⟩ := turn
  obtain ⟨-, horderly⟩ := horderly
  cases arrival with
  | unreadable e =>
    refine .throw ?_
    rintro _ rfl
    exact ⟨hs, horderly⟩
  | eof =>
    refine .conseq (.at_state (close_settles service) ?_) (fun _ h => h) (fun _ _ h => h) ?_
    · exact ⟨hq, qids_eq_nil horderly⟩
    · exact fun _ _ h => h.elim
  | message payload =>
    have hpayload := (handlePayload_settles service hs hq horderly).conseq (fun _ h => h)
      (fun _ _ h => h)
      (fun _ s (h : False) => (h.elim : Matched service.config.cap s ∧ ¬ TxOpen s.log))
    refine .bind hpayload fun flow => ?_
    cases flow
    case goOn => exact .pure fun _ hs => hs
    case stop =>
      cases flush with
      | none => exact .pure fun _ hs => hs
      | some e => exact .throw fun s hs => ⟨hs.1, hs.2 rfl⟩

end Turns

/-! ## Runs -/

/-- A connection whose state says what is open. -/
structure Connection.Matched (cap : Nat) (c : Connection X) : Prop where
  session : Bolt.Matched cap c.session
  ended : c.ended.isSome → ¬ TxOpen c.session.log

lemma Connection.step_matched {service : Service X} {c c' : Connection X} {turn : Turn}
    (hc : c.Matched service.config.cap) (horderly : Orderly service c turn)
    (h : c.step service turn = some c') :
    c'.Matched service.config.cap := by
  have hs : Bolt.Matched service.config.cap { c.session with writes := turn.writes } :=
    ⟨hc.session.streams, hc.session.tx⟩
  have hserve := serve_settles service hs horderly.1 horderly
  refine step_spec h (hserve.conseq (fun _ hs => hs)
    (fun flow s hs => ⟨hs.1, fun hended => hs.2 ?_⟩) ?_) fun _ => rfl
  · cases flow
    case goOn => cases hended
    case stop => rfl
  · exact fun e s hs => ⟨hs.1, fun _ => hs.2⟩

lemma Connection.start_matched (cap : Nat) (version : Option Version) (world : X) :
    (start version world).Matched cap :=
  ⟨⟨rfl, fun h => absurd h not_txOpen_nil⟩, nofun⟩

/-- **The state says what is open**, on every orderly run. -/
theorem matched_of_orderly (service : Service X) (version : Option Version) (world : X)
    (turns : List Turn) {c : Connection X}
    (horderly : Run.Along (step service) (Orderly service) (start version world) turns)
    (h : Run.exec (step service) (start version world) turns = some c) :
    Matched service.config.cap c.session ∧ (c.ended.isSome → ¬ TxOpen c.session.log) := by
  have hc : c.Matched service.config.cap :=
    Run.exec_preserves (fun hs ho hstep => Connection.step_matched hs ho hstep)
      (Connection.start_matched _ version world) horderly h
  exact ⟨hc.session, hc.ended⟩

theorem matched_of_orderly_run : ∃ c : Connection Unit, Run.exec (step service) start
      (turns [hello, logon, Sample.begin, Sample.run]) = some c ∧
    c.session.state = .txStreaming ∧ Matched 64 c.session := by
  have hrun : (Run.exec (step service) start
      (turns [hello, logon, Sample.begin, Sample.run])).map (·.session.state) =
      some .txStreaming := by
    decide +kernel
  obtain ⟨c, hc, hstate⟩ := Option.map_eq_some_iff.1 hrun
  refine ⟨c, hc, hstate, (matched_of_orderly service (some ⟨5, 4⟩) () _ ?_ hc).1⟩
  decide +kernel

/-- An open result in a state that has none. -/
lemma exists_not_matched {o : Option (Connection X)} {state : State} {cap : Nat}
    (h : o.map (fun c => (c.session.state, c.session.qids)) = some (state, [none]))
    (h1 : state ≠ .streaming) (h2 : state ≠ .txStreaming) :
    ∃ c, o = some c ∧ c.session.state = state ∧ ¬ Matched cap c.session := by
  obtain ⟨c, rfl, hfacts⟩ := Option.map_eq_some_iff.1 h
  obtain ⟨rfl, hqids⟩ := Prod.mk.inj hfacts
  refine ⟨c, rfl, rfl, fun hs => ?_⟩
  have hstreams := hs.streams
  rw [hqids] at hstreams
  cases hstate : c.session.state <;> rw [hstate] at hstreams
  case streaming => exact h1 hstate
  case txStreaming => exact h2 hstate
  all_goals cases hstreams

/-- A statement is streaming and a message that cannot be decoded arrives: the session has failed
with its result open. The same result stays open after a `GOODBYE`. And after a read that fails the
session has ended with its transaction open. -/
theorem malformed_leaves_stream : (∃ c, Run.exec (step service) start
        (turns [hello, logon, Sample.run, [0x00]]) = some c ∧
      c.session.state = .failed ∧ ¬ Matched 64 c.session) ∧
    (∃ c, Run.exec (step service) start
        (turns [hello, logon, Sample.run, [0xB0, Opcode.goodbye]]) = some c ∧
      c.session.state = .defunct ∧ ¬ Matched 64 c.session) ∧
    ∃ c, Run.exec (step service) start
        (turns [hello, logon, Sample.begin] ++
          [{ arrival := .unreadable (.transport []) }]) = some c ∧
      c.ended.isSome ∧ TxOpen c.session.log := by
  refine ⟨exists_not_matched (by decide +kernel) nofun nofun,
    exists_not_matched (by decide +kernel) nofun nofun, ?_⟩
  have hrun : (Run.exec (step service) start
      (turns [hello, logon, Sample.begin] ++ [{ arrival := .unreadable (.transport []) }])).map
          (fun c => (c.ended.isSome, decide (TxOpen c.session.log))) = some (true, true) := by
    decide +kernel
  obtain ⟨c, hc, hfacts⟩ := Option.map_eq_some_iff.1 hrun
  exact ⟨c, hc, congrArg Prod.fst hfacts, of_decide_eq_true (congrArg Prod.snd hfacts)⟩

end Graphus.Bolt
