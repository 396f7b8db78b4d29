import Graphus.Bolt.Message
import Graphus.Lib.Run

/-!
# The Bolt session

A session serves one connection: it reads a message, decodes it at the negotiated version and
dispatches it by its state, and each handler answers through the transport, calls the executor and
moves the state. A handler is a computation on the session that stops with an error when a write to
the transport fails, and leaves the session as it was at that point.

What the session works with is arbitrary: the executor, the password check, the throttle and the
limiter are functions on a world `X` of their own, and a result stream is the list of what its
`next_record` will give. A connection is the session between two messages. It starts after the
handshake, with the version that was negotiated.

The log of a session is not in the source. It keeps the authentications that succeeded, the log-offs
and the calls of the executor, in order.
-/

namespace Graphus.Bolt

open PackStream

/-! ## What the session works with -/

inductive State where
  | connected
  | authentication
  | ready
  | streaming
  | txReady
  | txStreaming
  | failed
  | defunct
  deriving DecidableEq

namespace State

def readyAfterStream : State → State
  | txStreaming => txReady
  | _ => ready

def name : State → String
  | connected => "Connected"
  | authentication => "Authentication"
  | ready => "Ready"
  | streaming => "Streaming"
  | txReady => "TxReady"
  | txStreaming => "TxStreaming"
  | failed => "Failed"
  | defunct => "Defunct"

end State

inductive AccessMode where
  | read
  | write

structure QueryPlan where
  profiled : Bool
  description : Value

def QueryPlan.metadataKey (plan : QueryPlan) : String := if plan.profiled then "profile" else "plan"

structure QuerySummary where
  queryType : Option Text := none
  stats : Fields := []
  plan : Option QueryPlan := none
  bookmark : Option Text := none

/-- The transaction a statement runs in. A timeout is in milliseconds. -/
inductive TxControl where
  | autoCommit (mode : AccessMode) (db : Option Text) (timeout : Option Nat)
  | inExplicit (db : Option Text)

abbrev Record := List BoltValue

/-- A result stream: what `next_record` gives, call after call, until it is exhausted. -/
structure RecordStream where
  fields : List Text
  rows : List (Except GraphusError Record)
  summary : QuerySummary

structure BoltExecutor (X : Type) where
  run : Text → Fields → TxControl → X → Except GraphusError RecordStream × X
  begin : AccessMode → Option Text → Option Nat → X → Except GraphusError Unit × X
  commit : X → Except GraphusError QuerySummary × X
  rollback : X → Except GraphusError Unit × X
  rollbackOpenTx : X → X
  setPrincipal : Option Text → X → X
  onAuthSuccess : Text → X → X
  onAuthFailure : Option Text → String → X → X

structure LoginThrottle (X : Type) where
  permitAttempt : Text → X → Bool × X
  noteFailure : Text → X → X

/-- A permit that is acquired before a password is verified, and released after it. -/
structure VerifyLimiter (X : Type) where
  tryAcquire : X → Bool × X
  release : X → X

structure SessionConfig where
  connectionId : Text
  serverAgent : Text
  advertisedBoltAddress : Option Text
  routingTtlSecs : Int64
  maxOpenStreamsPerTx : Nat

/-- Everything a session works with. -/
structure Service (X : Type) where
  executor : BoltExecutor X
  authenticatePassword : Text → Text → X → Option Text × X
  loginThrottle : Option (LoginThrottle X)
  verifyLimiter : Option (VerifyLimiter X)
  config : SessionConfig
  timeZones : TimeZones

def SessionConfig.cap (config : SessionConfig) : Nat := max config.maxOpenStreamsPerTx 1

/-! ## Sessions -/

structure OpenResult where
  stream : RecordStream
  peeked : Option Record := none

structure OpenStream where
  qid : Option Int64
  result : OpenResult

/-- The calls of the executor that the log keeps. -/
inductive Call where
  | run
  | begin
  | commit
  | rollback
  | rollbackOpenTx
  deriving DecidableEq

inductive Event where
  | authenticated (user : Text)
  | loggedOff
  | called (c : Call) (ok : Bool)
  deriving DecidableEq

structure BoltSession (X : Type) where
  state : State := .connected
  version : Option Version := none
  principal : Option Text := none
  openStreams : List OpenStream := []
  nextQid : Int64 := 0
  lastOpenedQid : Option Int64 := none
  world : X
  /-- The outcomes of the next writes to the transport. -/
  writes : List (Option BoltError) := []
  sent : List Response := []
  log : List Event := []

abbrev Handler (X : Type) := EStateM BoltError (BoltSession X)

inductive Flow where
  | goOn
  | stop
  deriving DecidableEq

section Handlers

variable {X α : Type}

/-- Let a part of the service work on the world. -/
def act (f : X → α × X) : Handler X α :=
  modifyGet fun s => ((f s.world).1, { s with world := (f s.world).2 })

def note (e : Event) : Handler X Unit := modify fun s => { s with log := s.log ++ [e] }

/-- Call the executor and log the call with its outcome. -/
def execute (c : Call) (f : X → Except GraphusError α × X) : Handler X (Except GraphusError α) := do
  let r ← act f
  note (.called c r.isOk)
  return r

def setState (state : State) : Handler X Unit := modify fun s => { s with state := state }

def setPrincipal (principal : Option Text) : Handler X Unit :=
  modify fun s => { s with principal := principal }

/-- Write a response to the transport. -/
def send (response : Response) : Handler X Unit := fun s =>
  match s.writes with
  | some e :: rest => .error e { s with writes := rest }
  | none :: rest => .ok () { s with writes := rest, sent := s.sent ++ [response] }
  | [] => .ok () { s with sent := s.sent ++ [response] }

def sendFailure (failure : Failure) : Handler X Unit := send (.failure failure)

def closeAllStreams : Handler X Unit :=
  modify fun s => { s with openStreams := [], lastOpenedQid := none }

section Specs

open Hoare

variable {P : BoltSession X → Prop} {E : BoltError → BoltSession X → Prop}

lemma act_spec {f : X → α × X} (hP : ∀ s w, P s → P { s with world := w }) :
    Triple P (act f) (fun _ => P) E :=
  fun s hs => hP s _ hs

lemma send_spec {response : Response}
    (hP : ∀ s w r, P s → w ⊆ s.writes → P { s with writes := w, sent := r })
    (hE : ∀ s e w, P s → some e ∈ s.writes → E e { s with writes := w }) :
    Triple P (send response) (fun _ => P) E := by
  intro s hs
  unfold send
  rcases hw : s.writes with _ | ⟨_ | e, rest⟩
  · exact hP s [] _ hs (List.nil_subset _)
  · exact hP s rest _ hs (hw ▸ List.subset_cons_self none rest)
  · exact hE s e rest hs (hw ▸ List.mem_cons_self)

end Specs

/-! ### Failures -/

/-- Report a failure that a `RESET` can recover from. Its callers go on with the next message. -/
def failRecoverable (failure : Failure) : Handler X Flow := do
  closeAllStreams
  sendFailure failure
  setState .failed
  return .goOn

def failWith (error : GraphusError) : Handler X Flow := failRecoverable (failureFromError error)

def failProtocol (message : String) : Handler X Flow :=
  failRecoverable (Failure.new codeRequestInvalid message)

def refuseImpersonation (message : String) : Handler X Flow :=
  failRecoverable (Failure.new codeForbidden (message ++
    " requested impersonation via `imp_user`, which this server does " ++
    "not support; the statement was NOT run as the connection's own principal"))

variable (service : Service X)

def rollbackOpenTx : Handler X Unit := do
  act fun w => ((), service.executor.rollbackOpenTx w)
  note (.called .rollbackOpenTx true)

def failTerminal (failure : Failure) : Handler X Flow := do
  closeAllStreams
  rollbackOpenTx service
  sendFailure failure
  setState .defunct
  return .stop

end Handlers

namespace Request

def name : Request → String
  | hello _ => "HELLO"
  | logon _ => "LOGON"
  | logoff => "LOGOFF"
  | run _ _ _ => "RUN"
  | discard _ _ => "DISCARD"
  | pull _ _ => "PULL"
  | begin _ => "BEGIN"
  | commit => "COMMIT"
  | rollback => "ROLLBACK"
  | reset => "RESET"
  | goodbye => "GOODBYE"
  | route _ _ _ => "ROUTE"
  | telemetry _ => "TELEMETRY"
  | unsupported _ _ => "UNSUPPORTED"

end Request

/-! ## The extra of a message -/

structure TxExtra where
  mode : AccessMode
  db : Option Text
  timeout : Option Nat

inductive ExtraRejected where
  | impersonation
  | malformedTxTimeout

def isNull : Value → Bool
  | .null => true
  | _ => false

def impersonationRequested (extra : Fields) : Bool :=
  extra.any fun (key, value) => key = text "imp_user" && !isNull value

def dbFromExtra (extra : Fields) : Option Text := (mapStr extra "db").filter (· ≠ [])

def txTimeoutFromExtra (extra : Fields) : Except ExtraRejected (Option Nat) :=
  match extra.find? fun (k, _) => k = text "tx_timeout" with
  | none => .ok none
  | some (_, .null) => .ok none
  | some (_, .integer ms) => .ok (if 0 < ms then some ms.toInt.toNat else none)
  | some _ => .error .malformedTxTimeout

def parseTxExtra (extra : Fields) : Except ExtraRejected TxExtra :=
  if impersonationRequested extra then .error .impersonation
  else (txTimeoutFromExtra extra).map fun timeout =>
    ⟨if mapStr extra "mode" = some (text "r") then .read else .write, dbFromExtra extra, timeout⟩

def parseRouteExtra (extra : Fields) : Except ExtraRejected (Option Text) :=
  if impersonationRequested extra then .error .impersonation else .ok (dbFromExtra extra)

def helloNonAuthFields : List String :=
  ["patch_bolt", "routing", "user_agent", "notifications_minimum_severity",
    "notifications_disabled_categories"]

def helloAuthToken (extra : Fields) : Fields :=
  extra.filter fun (k, _) => k ∉ helloNonAuthFields.map text

def summaryMetadata (summary : QuerySummary) (hasMore : Bool) : Fields :=
  (if hasMore then [(text "has_more", .boolean true)] else []) ++
  (match summary.queryType with
    | some t => [(text "type", .string t)]
    | none => []) ++
  (if summary.stats = [] then [] else [(text "stats", .map summary.stats)]) ++
  (match summary.plan with
    | some plan => [(text plan.metadataKey, plan.description)]
    | none => []) ++
  (match summary.bookmark with
    | some bookmark => [(text "bookmark", .string bookmark)]
    | none => [])

/-! ## Handlers -/

section Handlers

variable {X : Type} (service : Service X)

def unexpected (request : Request) : Handler X Flow := do
  let s ← get
  failTerminal service (Failure.new codeRequestInvalid
    ("request " ++ request.name ++ " is not valid in state " ++ s.state.name))

def refuseExtra (rejection : ExtraRejected) (message : String) : Handler X Flow :=
  match rejection with
  | .impersonation => refuseImpersonation message
  | .malformedTxTimeout =>
    failProtocol (message ++ " `tx_timeout` must be an integer number of milliseconds")

/-! ### Authentication -/

def permitAttempt (principal : Text) : Handler X Bool :=
  match service.loginThrottle with
  | some t => act (t.permitAttempt principal)
  | none => pure true

def noteFailure (principal : Text) : Handler X Unit :=
  match service.loginThrottle with
  | some t => act fun w => ((), t.noteFailure principal w)
  | none => pure ()

/-- The password check, and the account of a failure. -/
def verifyPassword (principal credentials : Text) : Handler X (Except Failure Text) := do
  let user ← act (service.authenticatePassword principal credentials)
  match user with
  | some user =>
    note (.authenticated user)
    return .ok user
  | none =>
    noteFailure service principal
    return .error (Failure.new codeUnauthorized "authentication failed")

/-- The password check under a permit of the limiter. -/
def verifyWithin (principal credentials : Text) : Handler X (Except Failure Text) :=
  match service.verifyLimiter with
  | none => verifyPassword service principal credentials
  | some limiter => do
    let acquired ← act limiter.tryAcquire
    if acquired then
      let outcome ← verifyPassword service principal credentials
      act fun w => ((), limiter.release w)
      return outcome
    else
      return .error
        (Failure.new codeServerBusy "server is busy verifying credentials; retry shortly")

def authenticate (auth : Fields) : Handler X (Except Failure Text) := do
  let scheme := (mapStr auth "scheme").getD []
  if scheme ≠ text "basic" then
    return .error ⟨text codeUnauthorized, .unsupportedScheme scheme⟩
  else
    let principal := (mapStr auth "principal").getD []
    let credentials := (mapStr auth "credentials").getD []
    let permitted ← permitAttempt service principal
    if permitted then verifyWithin service principal credentials
    else
      return .error (Failure.new codeUnauthorized
        "too many failed authentication attempts for this account; retry later")

/-- Authenticate and answer with `metadata`, or close the connection. -/
def logOn (auth metadata : Fields) : Handler X Flow := do
  let outcome ← authenticate service auth
  match outcome with
  | .ok user =>
    act fun w =>
      ((), service.executor.setPrincipal (some user) (service.executor.onAuthSuccess user w))
    setPrincipal (some user)
    send (.success metadata)
    setState .ready
    return .goOn
  | .error failure =>
    act fun w =>
      ((), service.executor.onAuthFailure (mapStr auth "principal") "authentication failed" w)
    failTerminal service failure

def helloCarriesAuth (version : Option Version) : Bool :=
  version.any fun v => v.major = supportedMajor && v.minor < 1

def helloSuccessMetadata : Fields :=
  [(text "server", .string service.config.serverAgent),
    (text "connection_id", .string service.config.connectionId), (text "hints", .map [])]

def dispatchConnected (request : Request) : Handler X Flow := do
  match request with
  | .hello extra =>
    if (mapStr extra "user_agent").getD [] = [] then
      failTerminal service
        (Failure.new codeRequestInvalid "HELLO is missing the required `user_agent` field")
    else
      let s ← get
      if helloCarriesAuth s.version then
        logOn service (helloAuthToken extra) (helloSuccessMetadata service)
      else
        send (.success (helloSuccessMetadata service))
        setState .authentication
        return .goOn
  | other => unexpected service other

def dispatchAuthentication (request : Request) : Handler X Flow :=
  match request with
  | .logon auth => logOn service auth []
  | other => unexpected service other

/-! ### Statements -/

/-- Answer a statement that has a result, and keep the result open. -/
def openStream (qid : Option Int64) (stream : RecordStream) (metadata : Fields)
    (streamingState : State) : Handler X Flow := do
  send (.success ((text "fields", .list (stream.fields.map .string)) :: metadata))
  modify fun s => { s with openStreams := s.openStreams ++ [⟨qid, ⟨stream, none⟩⟩] }
  setState streamingState
  return .goOn

def handleRun (query : Text) (parameters : Fields) (tx : TxControl) (streamingState : State) :
    Handler X Flow := do
  let inTransaction := streamingState = .txStreaming
  let s ← get
  if inTransaction ∧ service.config.cap ≤ s.openStreams.length then
    failProtocol ("too many result streams open in one transaction (limit " ++
      toString service.config.cap ++
        "); consume or discard a result before running another statement")
  else
    let outcome ← execute .run (service.executor.run query parameters tx)
    match outcome with
    | .ok stream =>
      if inTransaction then
        let qid := s.nextQid
        modify fun s => { s with nextQid := s.nextQid + 1, lastOpenedQid := some qid }
        openStream (some qid) stream [(text "qid", .integer qid)] streamingState
      else
        modify fun s => { s with lastOpenedQid := none }
        openStream none stream [] streamingState
    | .error e => failWith e

/-- The statement of a `RUN`, in the transaction its extra asks for. -/
def runStatement (query : Text) (parameters extra : Fields) (tx : TxExtra → TxControl)
    (streamingState : State) : Handler X Flow :=
  match parseTxExtra extra with
  | .ok extra => handleRun service query parameters (tx extra) streamingState
  | .error rejection => refuseExtra rejection "RUN"

def runAutoCommit (query : Text) (parameters extra : Fields) : Handler X Flow :=
  runStatement service query parameters extra
    (fun e => .autoCommit e.mode e.db e.timeout) .streaming

def runInExplicit (query : Text) (parameters extra : Fields) : Handler X Flow :=
  runStatement service query parameters extra (fun e => .inExplicit e.db) .txStreaming

end Handlers

/-! ### Results -/

/-- The place of the result that a `qid` names, and the result there. -/
def streamIndexFor (openStreams : List OpenStream) (lastOpenedQid qid : Option Int64) :
    Option (Nat × OpenStream) :=
  let wanted := if qid.getD all = all then lastOpenedQid else some (qid.getD all)
  (openStreams.findIdx? (·.qid = wanted)).bind fun i => openStreams[i]?.map fun entry => (i, entry)

namespace OpenResult

/-- Look for one more record and keep it. -/
def hasMore (r : OpenResult) : Except GraphusError (Bool × OpenResult) :=
  match r.peeked, r.stream.rows with
  | some record, _ => .ok (true, { r with peeked := some record })
  | none, [] => .ok (false, r)
  | none, .ok record :: rest => .ok (true, ⟨{ r.stream with rows := rest }, some record⟩)
  | none, .error e :: _ => .error e

end OpenResult

/-- How the loop over the records of a result ends. -/
inductive Fetched where
  | limited (r : OpenResult)
  | drained (r : OpenResult)
  | failed (e : GraphusError)

section Handlers

variable {X : Type}

def emitRecord (emit : Bool) (record : Record) : Handler X Unit :=
  if emit then send (.record record) else pure ()

/-- Records until `n` are `produced` or the rows are drained, with nothing peeked. -/
def fetchRows (n : Int64) (emit : Bool) (stream : RecordStream) :
    List (Except GraphusError Record) → Nat → Handler X Fetched
  | rows, produced =>
    if n ≠ all ∧ n.toInt ≤ produced then return .limited ⟨{ stream with rows := rows }, none⟩
    else
      match rows with
      | [] => return .drained ⟨{ stream with rows := [] }, none⟩
      | .error e :: _ => return .failed e
      | .ok record :: rest => do
        emitRecord emit record
        fetchRows n emit stream rest (produced + 1)

/-- The loop from its start, where one record may have been peeked. -/
def fetch (n : Int64) (emit : Bool) (r : OpenResult) : Handler X Fetched :=
  match r.peeked with
  | none => fetchRows n emit r.stream r.stream.rows 0
  | some record =>
    if n ≠ all ∧ n.toInt ≤ 0 then return .limited r
    else do
      emitRecord emit record
      fetchRows n emit r.stream r.stream.rows 1

section Specs

open Hoare

variable {P : BoltSession X → Prop} {E : BoltError → BoltSession X → Prop} {n : Int64} {emit : Bool}
  (hsend : ∀ response, Triple P (send response) (fun _ => P) E)

include hsend

lemma emitRecord_spec {record : Record} : Triple P (emitRecord emit record) (fun _ => P) E :=
  .ite (fun _ => hsend _) fun _ => .pure fun _ hs => hs

lemma fetchRows_spec {stream : RecordStream} :
    ∀ rows produced, Triple P (fetchRows n emit stream rows produced) (fun _ => P) E := by
  intro rows
  induction rows with
  | nil => exact fun produced => .ite (fun _ => .pure fun _ hs => hs) fun _ => .pure fun _ hs => hs
  | cons row rest ih =>
    intro produced
    unfold fetchRows
    refine .ite (fun _ => .pure fun _ hs => hs) fun _ => ?_
    cases row with
    | error e => exact .pure fun _ hs => hs
    | ok record => exact .bind (emitRecord_spec hsend) fun _ => ih (produced + 1)

/-- What every answer keeps, the loop keeps. -/
lemma fetch_spec {r : OpenResult} : Triple P (fetch n emit r) (fun _ => P) E := by
  unfold fetch
  cases r.peeked with
  | none => exact fetchRows_spec hsend _ _
  | some record =>
    refine .ite (fun _ => .pure fun _ hs => hs) fun _ => ?_
    exact .bind (emitRecord_spec hsend) fun _ => fetchRows_spec hsend _ _

end Specs

section Authentication

open Hoare

variable {P : BoltSession X → Prop} {Q : Except Failure Text → BoltSession X → Prop}
  {E : BoltError → BoltSession X → Prop} (service : Service X)
    (hP : ∀ s w, P s → P { s with world := w })
  (herror : ∀ s failure, P s → Q (.error failure) s)
  (hok : ∀ s user, P s → Q (.ok user) { s with log := s.log ++ [.authenticated user] })

include hP herror hok

lemma verifyPassword_spec {principal credentials : Text} :
    Triple P (verifyPassword service principal credentials) Q E := by
  refine .bind (act_spec hP) fun user => ?_
  cases user with
  | some user => exact fun s hs => hok s user hs
  | none =>
    refine .bind ?_ fun _ => .pure fun s hs => herror s _ hs
    unfold noteFailure
    cases service.loginThrottle with
    | none => exact .pure fun _ hs => hs
    | some t => exact act_spec hP

/-- Authentication changes the world, and notes in the log that it has succeeded. -/
lemma authenticate_spec (hQ : ∀ outcome s w, Q outcome s → Q outcome { s with world := w })
    {auth : Fields} : Triple P (authenticate service auth) Q E := by
  have hpermit : Triple P (permitAttempt service ((mapStr auth "principal").getD []))
    (fun _ => P) E := by
    unfold permitAttempt
    cases service.loginThrottle with
    | none => exact .pure fun _ hs => hs
    | some t => exact act_spec hP
  refine .ite (fun _ => .pure fun s hs => herror s _ hs) fun _ => .bind hpermit fun _ => ?_
  refine .ite (fun _ => ?_) fun _ => .pure fun s hs => herror s _ hs
  unfold verifyWithin
  cases service.verifyLimiter with
  | none => exact verifyPassword_spec service hP herror hok
  | some limiter =>
    refine .bind (act_spec hP) fun _ => .ite (fun _ => ?_) fun _ => .pure fun s hs => herror s _ hs
    exact .bind (verifyPassword_spec service hP herror hok) fun outcome s hs => hQ outcome s _ hs

end Authentication

/-- The answer to a fetch: a result with more records goes back where it was. -/
def finishPull (index : Nat) (entry : OpenStream) (r : OpenResult) (hasMore : Bool) :
    Handler X Flow := do
  if hasMore then
    send (.success [(text "has_more", .boolean true)])
    modify fun s =>
      { s with openStreams := s.openStreams.insertIdx index { entry with result := r } }
    return .goOn
  else
    send (.success (summaryMetadata r.stream.summary false))
    modify fun s => if s.openStreams = [] then { s with state := s.state.readyAfterStream } else s
    return .goOn

def handlePull (n : Int64) (qid : Option Int64) (emit : Bool) : Handler X Flow := do
  if n ≠ all ∧ n < 1 then failProtocol "PULL/DISCARD n must be -1 (all) or a positive integer"
  else
    let s ← get
    match streamIndexFor s.openStreams s.lastOpenedQid qid with
    | none =>
      failProtocol (if s.openStreams = [] then "PULL/DISCARD with no open result"
        else "PULL/DISCARD qid does not match an open result stream")
    | some (index, entry) =>
      modify fun s => { s with openStreams := s.openStreams.eraseIdx index }
      let fetched ← fetch n emit entry.result
      match fetched with
      | .failed e => failWith e
      | .drained r => finishPull index entry r false
      | .limited r =>
        match r.hasMore with
        | .error e => failWith e
        | .ok (more, r) => finishPull index entry r more

variable (service : Service X)

/-! ### The other messages -/

def handleRoute (db : Option Text) : Handler X Unit :=
  let address := service.config.advertisedBoltAddress.getD (text "localhost:7687")
  let serverEntry (role : String) : Value :=
    .map [(text "addresses", .list [.string address]), (text "role", .string (text role))]
  let dbValue : Value := match db with
    | some d => .string d
    | none => .null
  send (.success
    [(text "rt", .map [(text "ttl", .integer service.config.routingTtlSecs), (text "db", dbValue),
      (text "servers", .list [serverEntry "READ", serverEntry "WRITE", serverEntry "ROUTE"])])])

def handleReset : Handler X Flow := do
  let s ← get
  rollbackOpenTx service
  closeAllStreams
  modify fun s => { s with nextQid := 0 }
  if s.principal = none then
    sendFailure (Failure.new codeRequestInvalid "RESET is not valid before authentication")
    setState .defunct
    return .stop
  else
    send (.success [])
    setState .ready
    return .goOn

def handleBegin (extra : Fields) : Handler X Flow := do
  match parseTxExtra extra with
  | .error rejection => refuseExtra rejection "BEGIN"
  | .ok extra =>
    let outcome ← execute .begin (service.executor.begin extra.mode extra.db extra.timeout)
    match outcome with
    | .ok () =>
      modify fun s => { s with nextQid := 0, lastOpenedQid := none }
      send (.success [])
      setState .txReady
      return .goOn
    | .error e => failWith e

/-- `COMMIT` and `ROLLBACK`: end the transaction through the executor. -/
def handleEnd {α : Type} (c : Call) (f : X → Except GraphusError α × X) (metadata : α → Fields) :
    Handler X Flow := do
  let outcome ← execute c f
  match outcome with
  | .ok a =>
    send (.success (metadata a))
    setState .ready
    return .goOn
  | .error e => failWith e

def handleLogoff : Handler X Flow := do
  act fun w => ((), service.executor.setPrincipal none w)
  note .loggedOff
  setPrincipal none
  send (.success [])
  setState .authentication
  return .goOn

def handleTelemetry (api : Int64) : Handler X Flow := do
  if 0 ≤ api ∧ api ≤ 3 then
    send (.success [])
    return .goOn
  else failProtocol ("TELEMETRY api " ++ toString api ++ " is invalid (must be 0, 1, 2, or 3)")

/-! ## Dispatch -/

/-! A dispatcher gets the state the session is in. -/

def dispatchReady (state : State) (request : Request) : Handler X Flow :=
  match state, request with
  | .ready, .run query parameters extra => runAutoCommit service query parameters extra
  | .txReady, .run query parameters extra => runInExplicit service query parameters extra
  | .ready, .begin extra => handleBegin service extra
  | .txReady, .commit => handleEnd .commit service.executor.commit (summaryMetadata · false)
  | .txReady, .rollback => handleEnd .rollback service.executor.rollback fun _ => []
  | .ready, .route _ _ extra =>
    match parseRouteExtra extra with
    | .error rejection => refuseExtra rejection "ROUTE"
    | .ok db => do
      handleRoute service db
      return .goOn
  | .ready, .telemetry api => handleTelemetry api
  | .ready, .logoff => handleLogoff service
  | .txReady, .logoff =>
    failTerminal service (Failure.new codeRequestInvalid "LOGOFF is only valid in the READY state")
  | _, .reset => handleReset service
  | _, other => unexpected service other

def dispatchStreaming (state : State) (request : Request) : Handler X Flow :=
  match state, request with
  | _, .pull n qid => handlePull n qid true
  | _, .discard n qid => handlePull n qid false
  | _, .reset => handleReset service
  | .txStreaming, .run query parameters extra => runInExplicit service query parameters extra
  | _, other => unexpected service other

/-- Every request but a `GOODBYE`. -/
def dispatchAt (state : State) (request : Request) : Handler X Flow :=
  match state, request with
  | .failed, .reset => handleReset service
  | .failed, _ | .defunct, _ => do
    send .ignored
    return .goOn
  | .connected, request => dispatchConnected service request
  | .authentication, request => dispatchAuthentication service request
  | .ready, request | .txReady, request => dispatchReady service state request
  | .streaming, request | .txStreaming, request => dispatchStreaming service state request

def dispatch (request : Request) : Handler X Flow := do
  match request with
  | .goodbye =>
    rollbackOpenTx service
    setState .defunct
    return .stop
  | request =>
    let s ← get
    dispatchAt service s.state request

/-! ## The message loop -/

def decodeRequest (version : Option Version) (payload : Bytes) : Except DecodeFault Request :=
  let reader := match version with
    | some v => Request.decodeAt service.timeZones v
    | none => Request.decode service.timeZones
  match reader { buf := payload } with
  | .ok request _ => .ok request
  | .error fault _ => .error fault

/-- The answer to a message that cannot be decoded. -/
def handleMalformed (fault : DecodeFault) : Handler X Flow := do
  let s ← get
  sendFailure ⟨text codeRequestInvalid, .undecodable fault⟩
  if s.state = .connected ∨ s.state = .authentication then
    setState .defunct
    return .stop
  else
    setState .failed
    return .goOn

/-- What the transport gives to the next read: a message, the end of the connection, or an error of
the transport or of the framing. -/
inductive Arrival where
  | message (payload : Bytes)
  | eof
  | unreadable (e : BoltError)

/-- One turn of the loop: what is read, and how the writes and the last flush of the turn end. -/
structure Turn where
  arrival : Arrival
  writes : List (Option BoltError) := []
  flush : Option BoltError := none

def handlePayload (payload : Bytes) : Handler X Flow := do
  let s ← get
  match decodeRequest service s.version payload with
  | .ok request => dispatch service request
  | .error fault => handleMalformed fault

def serve (turn : Turn) : Handler X Flow := do
  match turn.arrival with
  | .unreadable e => throw e
  | .eof =>
    rollbackOpenTx service
    setState .defunct
    return .stop
  | .message payload =>
    let flow ← handlePayload service payload
    match flow, turn.flush with
    | .stop, some e => throw e
    | flow, _ => return flow

end Handlers

/-- A connection between two turns, and how the loop has ended. -/
structure Connection (X : Type) where
  session : BoltSession X
  ended : Option (Except BoltError Unit) := none

namespace Connection

variable {X : Type}

/-- After the handshake. -/
def start (version : Option Version) (world : X) : Connection X :=
  ⟨{ version := version, world := world }, none⟩

def step (service : Service X) (c : Connection X) (turn : Turn) : Option (Connection X) :=
  if c.ended.isSome then none
  else
    match serve service turn { c.session with writes := turn.writes } with
    | .ok .goOn s => some ⟨s, none⟩
    | .ok .stop s => some ⟨s, some (.ok ())⟩
    | .error e s => some ⟨s, some (.error e)⟩

/-- A turn takes a connection that has not ended through `serve`. What follows for the new one is a
property of the outcome. -/
lemma step_spec {service : Service X} {c c' : Connection X} {turn : Turn} {Q : Connection X → Prop}
    {P : BoltSession X → Prop} (h : c.step service turn = some c')
    (hserve : Hoare.Triple P (serve service turn)
      (fun flow s => Q ⟨s, if flow = .goOn then none else some (.ok ())⟩) fun e s =>
      Q ⟨s, some (.error e)⟩)
    (hP : c.ended = none → P { c.session with writes := turn.writes }) : Q c' := by
  unfold step at h
  split at h
  · cases h
  rename_i hended
  have hs := hserve _ (hP (Option.not_isSome_iff_eq_none.1 hended))
  cases hr : serve service turn { c.session with writes := turn.writes } with
  | ok flow s =>
    simp only [hr] at h hs
    cases flow <;> cases h <;> exact hs
  | error e s =>
    simp only [hr] at h hs
    cases h
    exact hs

end Connection

/-! ## A small service

It lets every user in, and its statements succeed and have no rows. -/

namespace Sample

def executor : BoltExecutor Unit where
  run _ _ _ w := (.ok ⟨[], [], {}⟩, w)
  begin _ _ _ w := (.ok (), w)
  commit w := (.ok {}, w)
  rollback w := (.ok (), w)
  rollbackOpenTx w := w
  setPrincipal _ w := w
  onAuthSuccess _ w := w
  onAuthFailure _ _ w := w

def service : Service Unit where
  executor := executor
  authenticatePassword user _ w := (some user, w)
  loginThrottle := none
  verifyLimiter := none
  config := ⟨text "bolt-1", text "Graphus", none, 300, 64⟩
  timeZones zone _ := .error (.unknownTimeZone zone)

def start : Connection Unit := .start (some ⟨5, 4⟩) ()

/-- The payload of a `HELLO`, with a user agent. -/
def hello : Bytes := [0xB1, Opcode.hello, 0xA1, 0x8A] ++ text "user_agent" ++ [0x81, 0x78]

def logon : Bytes :=
  [0xB1, Opcode.logon, 0xA3, 0x86] ++ text "scheme" ++ [0x85] ++ text "basic" ++
    [0x89] ++ text "principal" ++ [0x81, 0x75] ++ [0x8B] ++ text "credentials" ++ [0x81, 0x70]

def begin : Bytes := [0xB1, Opcode.begin, 0xA0]

/-- A statement without parameters. -/
def run : Bytes := [0xB3, Opcode.run, 0x81, 0x71, 0xA0, 0xA0]

def turns (payloads : List Bytes) : List Turn := payloads.map fun p => { arrival := .message p }

end Sample

end Graphus.Bolt
