import Graphus.Bolt.Session

/-!
# No work without authentication

A session asks the executor for work with `run`, `begin`, `commit` and `rollback`. In the log, every
such call stands after an authentication that succeeded, with no log-off between them (`Guarded`).

What a handler may do to this depends on the log and on the principal alone. While a principal is
set the log is signed on (`Live`), and in every state in which work is dispatched a principal is
set.

**Theorem (`work_only_signedOn`).** Over every run of a connection, whatever the messages are, every
call for work is made signed on, and the session is in a state that works only with a principal.
-/

namespace Graphus.Bolt

open Hoare List
open Sample (hello logon service start turns)

/-! ## The log -/

def Call.isWork : Call → Bool
  | .rollbackOpenTx => false
  | _ => true

/-- The log has an authentication with no log-off after it. -/
def SignedOn (log : List Event) : Prop :=
  ∃ user before after, log = before ++ .authenticated user :: after ∧ .loggedOff ∉ after

/-- Every call for work is made signed on. -/
def Guarded (log : List Event) : Prop :=
  ∀ before c ok after, log = before ++ .called c ok :: after → c.isWork → SignedOn before

variable {log : List Event} {e : Event}

lemma SignedOn.append (h : SignedOn log) (he : e ≠ .loggedOff) : SignedOn (log ++ [e]) := by
  obtain ⟨user, before, after, rfl, hafter⟩ := h
  refine ⟨user, before, after ++ [e], by simp, fun hmem => ?_⟩
  rcases mem_append.1 hmem with hmem | hmem
  · exact hafter hmem
  · exact he (mem_singleton.1 hmem).symm

lemma SignedOn.authenticated (log : List Event) (user : Text) :
    SignedOn (log ++ [.authenticated user]) :=
  ⟨user, log, [], rfl, by simp⟩

lemma Guarded.nil : Guarded [] := by
  intro before c ok after h
  cases before <;> cases h

lemma Guarded.append (h : Guarded log) (he : ∀ c ok, e = .called c ok → c.isWork → SignedOn log) :
    Guarded (log ++ [e]) := by
  intro before c ok after heq hc
  rcases eq_nil_or_concat' after with rfl | ⟨after, last, rfl⟩
  · obtain ⟨rfl, hlast⟩ := append_inj' heq rfl
    exact he c ok (singleton_inj.1 hlast) hc
  · rw [← cons_append, ← append_assoc] at heq
    exact h before c ok after (append_inj' heq rfl).1 hc

/-! ## What handlers keep -/

/-- A principal is set only while the log is signed on. -/
def Sound (log : List Event) (principal : Option Text) : Prop :=
  Guarded log ∧ (principal.isSome → SignedOn log)

/-- A principal is set. -/
def Live (log : List Event) (principal : Option Text) : Prop :=
  Guarded log ∧ principal.isSome ∧ SignedOn log

lemma Live.sound {p : Option Text} (h : Live log p) : Sound log p := ⟨h.1, fun _ => h.2.2⟩

/-- The states in which a request may ask for work, now or after a `RESET`. -/
def State.isActive : State → Bool
  | .connected | .authentication | .defunct => false
  | _ => true

variable {X α β : Type} {J : List Event → Option Text → Prop}

/-- What a session has after a turn. While the loop goes on, not even a defunct session is without a
principal: a malformed message would make it `FAILED`. -/
structure Authorised (flow : Flow) (s : BoltSession X) : Prop where
  sound : Sound s.log s.principal
  active : s.state.isActive → s.principal.isSome
  running : flow = .goOn → s.state = .defunct → s.principal.isSome

/-- A session with a property of the log and the principal. -/
def Held (J : List Event → Option Text → Prop) (s : BoltSession X) : Prop := J s.log s.principal

/-- A handler that keeps a property of the log and the principal, and leaves the log guarded when it
stops with an error. -/
def Keeps (J : List Event → Option Text → Prop) (m : Handler X α) : Prop :=
  Triple (fun s => J s.log s.principal) m (fun _ s => J s.log s.principal)
    (fun _ s => Guarded s.log)

namespace Keeps

variable {m : Handler X α}

lemma pure {a : α} : Keeps J (pure a : Handler X α) := Triple.pure fun _ h => h

lemma bind {f : α → Handler X β} (hm : Keeps J m) (hf : ∀ a, Keeps J (f a)) : Keeps J (m >>= f) :=
  Triple.bind hm hf

lemma get_bind {f : BoltSession X → Handler X β} (hf : ∀ s, Keeps J (f s)) : Keeps J (get >>= f) :=
  fun s hs => hf s s hs

lemma ite {c : Prop} [Decidable c] {m' : Handler X α} (ht : Keeps J m) (hf : Keeps J m') :
    Keeps J (if c then m else m') :=
  Triple.ite (fun _ => ht) fun _ => hf

lemma act {f : X → α × X} : Keeps J (act f) := act_spec fun _ _ hs => hs

lemma setState {state : State} : Keeps J (setState state : Handler X Unit) := fun _ hs => hs

lemma closeAllStreams : Keeps J (closeAllStreams : Handler X Unit) := fun _ hs => hs

lemma send (hJ : ∀ log p, J log p → Guarded log) {response : Response} :
    Keeps J (send response : Handler X Unit) :=
  send_spec (fun _ _ _ hs _ => hs) fun s _ _ hs _ => hJ s.log s.principal hs

lemma note (hJ : ∀ log p, J log p → J (log ++ [e]) p) : Keeps J (note e : Handler X Unit) :=
  Triple.modify fun s hs => hJ s.log s.principal hs

end Keeps

/-- A property that the common parts of the handlers keep. -/
structure Stable (J : List Event → Option Text → Prop) : Prop where
  guarded : ∀ log p, J log p → Guarded log
  rolledBack : ∀ log p, J log p → J (log ++ [.called .rollbackOpenTx true]) p

lemma Sound.stable : Stable Sound where
  guarded _ _ h := h.1
  rolledBack _ _ h := ⟨h.1.append (by rintro _ _ ⟨⟩ ⟨⟩), fun hp => (h.2 hp).append nofun⟩

lemma Live.called (c : Call) (ok : Bool) (log : List Event) (p : Option Text) (h : Live log p) :
    Live (log ++ [.called c ok]) p :=
  ⟨h.1.append fun _ _ _ _ => h.2.2, h.2.1, h.2.2.append nofun⟩

lemma Live.stable : Stable Live where
  guarded _ _ h := h.1
  rolledBack := Live.called .rollbackOpenTx true

open Live (called stable)

namespace Keeps

lemma failRecoverable (hJ : Stable J) {failure : Failure} :
    Keeps J (failRecoverable failure : Handler X Flow) :=
  closeAllStreams.bind fun _ => (send hJ.guarded).bind fun _ => setState.bind fun _ => pure

variable (service : Service X)

lemma rollbackOpenTx (hJ : Stable J) : Keeps J (rollbackOpenTx service) :=
  act.bind fun _ => note hJ.rolledBack

lemma failTerminal (hJ : Stable J) {failure : Failure} : Keeps J (failTerminal service failure) :=
  closeAllStreams.bind fun _ => (rollbackOpenTx service hJ).bind fun _ =>
    (send hJ.guarded).bind fun _ => setState.bind fun _ => pure

lemma unexpected (hJ : Stable J) {request : Request} : Keeps J (unexpected service request) :=
  get_bind fun _ => failTerminal service hJ

lemma refuseExtra (hJ : Stable J) {rejection : ExtraRejected} {message : String} :
    Keeps J (refuseExtra rejection message : Handler X Flow) := by
  cases rejection
  · exact failRecoverable hJ
  · exact failRecoverable hJ

end Keeps

/-! ## Handlers with a principal -/

section LiveHandlers

variable (service : Service X)

lemma send_live {response : Response} : Keeps Live (send response : Handler X Unit) :=
  .send stable.guarded

lemma failRecoverable_live {failure : Failure} :
    Keeps Live (failRecoverable failure : Handler X Flow) :=
  .failRecoverable stable

variable {f : X → Except GraphusError α × X}

/-- The end of a handler. -/
lemma answer_live {response : Response} {state : State} {flow : Flow} :
    Keeps Live (do send response; setState state; return flow : Handler X Flow) :=
  send_live.bind fun _ => Keeps.setState.bind fun _ => Keeps.pure

lemma execute_live {c : Call} : Keeps Live (execute c f) :=
  Keeps.act.bind fun r => (Keeps.note (called c r.isOk)).bind fun _ => Keeps.pure

lemma handleReset_live : Keeps Live (handleReset service) := by
  refine Keeps.get_bind fun s => (Keeps.rollbackOpenTx service stable).bind fun _ => ?_
  refine fun s' hs' => Keeps.ite ?_ ?_ _ hs'
  · exact answer_live
  · exact answer_live

variable {streamingState : State}

lemma openStream_live {qid : Option Int64} {stream : RecordStream} {metadata : Fields} :
    Keeps Live (openStream qid stream metadata streamingState : Handler X Flow) :=
  send_live.bind fun _ _ hs => hs

variable {parameters extra : Fields}

lemma handleRun_live {query : Text} {tx : TxControl} :
    Keeps Live (handleRun service query parameters tx streamingState) := by
  refine .get_bind fun s => .ite failRecoverable_live (execute_live.bind fun outcome => ?_)
  cases outcome with
  | error e => exact failRecoverable_live
  | ok stream =>
    refine .ite ?_ ?_
    · exact fun _ hs => openStream_live _ hs
    · exact fun _ hs => openStream_live _ hs

lemma runStatement_live {query : Text} {tx : TxExtra → TxControl} :
    Keeps Live (runStatement service query parameters extra tx streamingState) := by
  unfold runStatement
  cases parseTxExtra extra with
  | ok extra => exact handleRun_live service
  | error rejection => exact .refuseExtra stable

variable {emit : Bool}

lemma finishPull_live {index : Nat} {entry : OpenStream} {r : OpenResult} {hasMore : Bool} :
    Keeps Live (finishPull index entry r hasMore : Handler X Flow) := by
  refine .ite (send_live.bind fun _ => ?_) (send_live.bind fun _ => ?_)
  · exact fun _ hs => hs
  · refine .bind (Triple.modify fun s hs => ?_) fun _ => .pure
    split <;> exact hs

lemma handlePull_live {n : Int64} {qid : Option Int64} :
    Keeps Live (handlePull n qid emit : Handler X Flow) := by
  refine .ite failRecoverable_live (.get_bind fun s => ?_)
  cases streamIndexFor s.openStreams s.lastOpenedQid qid with
  | none => exact failRecoverable_live
  | some found =>
    refine fun s hs => Keeps.bind (fetch_spec fun _ => send_live) (fun fetched => ?_) _ hs
    cases fetched with
    | failed e => exact failRecoverable_live
    | drained r => exact finishPull_live
    | limited r =>
      dsimp only
      cases r.hasMore with
      | error e => exact failRecoverable_live
      | ok more => exact finishPull_live

lemma handleBegin_live : Keeps Live (handleBegin service extra) := by
  unfold handleBegin
  cases parseTxExtra extra with
  | error rejection => exact .refuseExtra stable
  | ok extra =>
    refine execute_live.bind fun outcome => ?_
    cases outcome with
    | error e => exact failRecoverable_live
    | ok u => exact fun _ hs => answer_live _ hs

lemma handleEnd_live {c : Call} {metadata : α → Fields} : Keeps Live (handleEnd c f metadata) := by
  refine execute_live.bind fun outcome => ?_
  cases outcome with
  | error e => exact failRecoverable_live
  | ok a => exact answer_live

lemma handleTelemetry_live {api : Int64} : Keeps Live (handleTelemetry api : Handler X Flow) :=
  .ite (send_live.bind fun _ => .pure) failRecoverable_live

end LiveHandlers

/-! ## From one turn to the next -/

section Turns

variable (service : Service X)

/-- A handler that leaves a session authorised. -/
def Authorises (P : BoltSession X → Prop) (m : Handler X Flow) : Prop :=
  Triple P m Authorised fun _ s => Guarded s.log

lemma Keeps.authorises {m : Handler X Flow} (h : Keeps Live m) : Authorises (Held Live) m :=
  h.conseq (fun _ hs => hs)
    (fun _ _ hs => ⟨hs.sound, fun _ => hs.2.1, fun _ _ => hs.2.1⟩) fun _ _ hs => hs

/-- The end of a handler: the last state is one without work. -/
lemma setState_authorises {state : State} {flow : Flow} (hstate : state.isActive = false)
    (hflow : flow = .goOn → state ≠ .defunct) :
    Authorises (Held Sound) (do setState state; return flow : Handler X Flow) :=
  fun _ hs => ⟨hs, fun h => absurd h (by simp [hstate]), fun h hs' => absurd hs' (hflow h)⟩

lemma failTerminal_authorises {failure : Failure} :
    Authorises (Held Sound) (failTerminal service failure) :=
  .bind Keeps.closeAllStreams fun _ =>
    .bind (Keeps.rollbackOpenTx service Sound.stable) fun _ =>
      .bind (Keeps.send Sound.stable.guarded) fun _ => setState_authorises rfl nofun

variable {request : Request}

lemma unexpected_authorises : Authorises (Held Sound) (unexpected service request) :=
  fun s hs => failTerminal_authorises service s hs

/-! ### Authentication -/

/-- The log after an attempt to authenticate. -/
def Attempted (outcome : Except Failure Text) (s : BoltSession X) : Prop :=
  Sound s.log s.principal ∧ ∀ user, outcome = .ok user → SignedOn s.log

lemma authenticate_attempted (auth : Fields) :
    Triple (Held Sound) (authenticate service auth) Attempted fun _ s => Guarded s.log := by
  refine authenticate_spec service (fun _ _ hs => hs) (fun _ _ hs => ⟨hs, nofun⟩)
    (fun s user hs => ?_) fun _ _ _ hs => hs
  have hsigned := SignedOn.authenticated s.log user
  exact ⟨⟨hs.1.append nofun, fun _ => hsigned⟩, fun _ _ => hsigned⟩

lemma logOn_authorises {auth metadata : Fields} :
    Authorises (Held Sound) (logOn service auth metadata) := by
  refine .bind (authenticate_attempted service auth) fun outcome => ?_
  cases outcome with
  | error failure =>
    refine .bind (act_spec fun _ _ hs => hs) fun _ => ?_
    exact fun s hs => failTerminal_authorises service s hs.1
  | ok user =>
    -- the principal is set on a log that has just been signed on
    exact fun s hs => answer_live.authorises _ ⟨hs.1.1, rfl, hs.2 user rfl⟩

lemma dispatchConnected_authorises :
    Authorises (Held Sound) (dispatchConnected service request) := by
  cases request
  case hello extra =>
    refine .ite (fun _ => failTerminal_authorises service) fun _ s hs => ?_
    refine Triple.ite (fun _ => logOn_authorises service) (fun _ => ?_) s hs
    exact Triple.bind (Keeps.send Sound.stable.guarded) fun _ => setState_authorises rfl nofun
  all_goals exact unexpected_authorises service

lemma dispatchAuthentication_authorises :
    Authorises (Held Sound) (dispatchAuthentication service request) := by
  cases request
  case logon auth => exact logOn_authorises service
  all_goals exact unexpected_authorises service

/-! ### Dispatch -/

lemma handleLogoff_authorises : Authorises (Held Live) (handleLogoff service) := by
  have hend : Authorises (Held Sound)
    (do send (.success []); setState .authentication; return .goOn : Handler X Flow) :=
    .bind (Keeps.send Sound.stable.guarded) fun _ => setState_authorises rfl nofun
  exact fun s hs => hend _ ⟨hs.1.append nofun, nofun⟩

lemma dispatchReady_authorises (state : State) (request : Request) :
    Authorises (Held Live) (dispatchReady service state request) := by
  unfold dispatchReady
  split
  · exact (runStatement_live service).authorises
  · exact (runStatement_live service).authorises
  · exact (handleBegin_live service).authorises
  · exact handleEnd_live.authorises
  · exact handleEnd_live.authorises
  · split
    · exact (Keeps.refuseExtra stable).authorises
    · exact (send_live.bind fun _ => .pure).authorises
  · exact handleTelemetry_live.authorises
  · exact handleLogoff_authorises service
  · exact (Keeps.failTerminal service stable).authorises
  · exact (handleReset_live service).authorises
  · exact (Keeps.unexpected service stable).authorises

lemma dispatchStreaming_live (state : State) (request : Request) :
    Keeps Live (dispatchStreaming service state request) := by
  unfold dispatchStreaming
  split
  · exact handlePull_live
  · exact handlePull_live
  · exact handleReset_live service
  · exact runStatement_live service
  · exact .unexpected service stable

lemma Authorised.live {s : BoltSession X} (h : Authorised .goOn s)
    (hstate : s.state ≠ .connected ∧ s.state ≠ .authentication) : Live s.log s.principal := by
  have hp : s.principal.isSome := by
    cases hs : s.state
    case connected => exact absurd hs hstate.1
    case authentication => exact absurd hs hstate.2
    case defunct => exact h.running rfl hs
    all_goals exact h.active (by rw [hs]; rfl)
  exact ⟨h.sound.1, hp, h.sound.2 hp⟩

lemma dispatchAt_authorises (state : State) (request : Request) :
    Authorises (fun s => Authorised .goOn s ∧ s.state = state)
    (dispatchAt service state request) := by
  have hlive : ∀ {m : Handler X Flow}, Authorises (Held Live) m → state ≠ .connected ∧
      state ≠ .authentication → Authorises (fun s => Authorised .goOn s ∧ s.state = state) m := by
    intro m hm hstate
    refine hm.conseq (fun s hs => hs.1.live ?_) (fun _ _ hs => hs) fun _ _ hs => hs
    rw [hs.2]
    exact hstate
  have hignored : Authorises (Held Live) (do send .ignored; return .goOn : Handler X Flow) :=
    (send_live.bind fun _ => .pure).authorises
  cases state with
  | connected => exact fun s hs => dispatchConnected_authorises service s hs.1.sound
  | authentication => exact fun s hs => dispatchAuthentication_authorises service s hs.1.sound
  | ready | txReady => exact hlive (dispatchReady_authorises service _ request) ⟨nofun, nofun⟩
  | streaming | txStreaming =>
    exact hlive (dispatchStreaming_live service _ request).authorises ⟨nofun, nofun⟩
  | defunct => exact hlive hignored ⟨nofun, nofun⟩
  | failed =>
    refine hlive ?_ ⟨nofun, nofun⟩
    cases request
    case reset => exact (handleReset_live service).authorises
    all_goals exact hignored

lemma close_authorises : Authorises (Held Sound)
      (do rollbackOpenTx service; setState .defunct; return .stop : Handler X Flow) :=
  .bind (Keeps.rollbackOpenTx service Sound.stable) fun _ => setState_authorises rfl nofun

lemma dispatch_authorises (request : Request) :
    Authorises (Authorised .goOn) (dispatch service request) := by
  cases request
  case goodbye => exact fun s hs => close_authorises service s hs.sound
  all_goals exact fun s hs => dispatchAt_authorises service _ _ s ⟨hs, rfl⟩

lemma handleMalformed_authorises (fault : PackStream.DecodeFault) :
    Authorises (Authorised .goOn) (handleMalformed fault : Handler X Flow) := by
  refine .of_state fun s hs => .get_bind ?_
  by_cases hstate : s.state = .connected ∨ s.state = .authentication
  · simp only [if_pos hstate]
    rintro _ rfl
    have hstop := @setState_authorises X .defunct .stop rfl nofun
    exact Triple.bind (Keeps.send Sound.stable.guarded) (fun _ => hstop) _ hs.sound
  · simp only [if_neg hstate]
    rintro _ rfl
    exact answer_live.authorises _ (hs.live (not_or.1 hstate))

lemma handlePayload_authorises (payload : Bytes) :
    Authorises (Authorised .goOn) (handlePayload service payload) := by
  refine .of_state fun s hs => .get_bind ?_
  cases decodeRequest service s.version payload with
  | ok request => exact .at_state (dispatch_authorises service request) hs
  | error fault => exact .at_state (handleMalformed_authorises fault) hs

lemma serve_authorises (turn : Turn) : Authorises (Authorised .goOn) (serve service turn) := by
  obtain ⟨arrival, writes, flush⟩ := turn
  cases arrival with
  | unreadable e => exact .throw fun s hs => hs.sound.1
  | eof => exact fun s hs => close_authorises service s hs.sound
  | message payload =>
    refine .bind (handlePayload_authorises service payload) fun flow => ?_
    cases flow
    case goOn => exact .pure fun _ hs => hs
    case stop =>
      cases flush with
      | none => exact .pure fun _ hs => hs
      | some e => exact .throw fun s hs => hs.sound.1

end Turns

/-! ## Runs -/

/-- What a connection has between two turns, and at its end. -/
def Connection.Authorised (c : Connection X) : Prop :=
  match c.ended with
  | none => Bolt.Authorised .goOn c.session
  | some (.ok ()) => Bolt.Authorised .stop c.session
  | some (.error _) => Guarded c.session.log

lemma Connection.step_authorised {service : Service X} {c c' : Connection X} {turn : Turn}
    (hc : c.Authorised) (h : c.step service turn = some c') : c'.Authorised := by
  refine step_spec h ((serve_authorises service turn).conseq (fun _ hs => hs)
    (fun flow s hs => ?_) ?_) fun hnone => ?_
  · cases flow <;> exact hs
  · exact fun _ _ hs => hs
  · unfold Connection.Authorised at hc
    rw [hnone] at hc
    exact ⟨hc.sound, hc.active, hc.running⟩

lemma Connection.start_authorised (version : Option Version) (world : X) :
    (start version world).Authorised :=
  ⟨⟨Guarded.nil, nofun⟩, nofun, nofun⟩

/-- **No work without authentication.** -/
theorem work_only_signedOn (service : Service X) (version : Option Version) (world : X)
    (turns : List Turn)
    {c : Connection X}
    (h : Run.exec (Connection.step service) (Connection.start version world) turns = some c) :
    (∀ before call ok after, c.session.log = before ++ .called call ok :: after → call.isWork →
      SignedOn before) ∧
    ((∀ e, c.ended ≠ some (.error e)) →
      c.session.state ∈ [State.ready, .streaming, .txReady, .txStreaming] →
        c.session.principal.isSome) := by
  have hc : c.Authorised := Run.exec_preserves (C := fun _ _ => True)
    (fun hs _ hstep => Connection.step_authorised hs hstep)
    (Connection.start_authorised version world)
    Run.Along.always h
  unfold Connection.Authorised at hc
  refine ⟨?_, fun herror hstate => ?_⟩
  · split at hc
    · exact hc.sound.1
    · exact hc.sound.1
    · exact hc
  · have hactive : c.session.state.isActive := by
      simp only [mem_cons, not_mem_nil, or_false] at hstate
      rcases hstate with h | h | h | h <;> rw [h] <;> rfl
    split at hc
    · exact hc.active hactive
    · exact hc.active hactive
    · exact absurd ‹_› (herror _)

theorem work_only_signedOn_run : ∃ c : Connection Unit, Run.exec (Connection.step service) start
      (turns [hello, logon, Sample.run]) = some c ∧
    c.session.log = [.authenticated (text "u"), .called .run true] ∧
    SignedOn [.authenticated (text "u")] ∧
    c.session.principal.isSome := by
  have hrun : (Run.exec (Connection.step service) start
      (turns [hello, logon, Sample.run])).map
        (fun c => (c.session.state, c.ended.isSome, c.session.log)) =
      some (.streaming, false, [.authenticated (text "u"), .called .run true]) := by
    decide +kernel
  obtain ⟨c, hc, hfacts⟩ := Option.map_eq_some_iff.1 hrun
  simp only [Prod.mk.injEq] at hfacts
  obtain ⟨hstate, hended, hlog⟩ := hfacts
  have hnone : c.ended = none := Option.not_isSome_iff_eq_none.1 (by simp [hended])
  obtain ⟨hwork, hprincipal⟩ := work_only_signedOn service (some ⟨5, 4⟩) () _ hc
  refine ⟨c, hc, hlog, hwork _ .run true [] hlog rfl, hprincipal (by simp [hnone]) ?_⟩
  rw [hstate]
  exact mem_cons_of_mem _ mem_cons_self

end Graphus.Bolt
