import Graphus.Bolt.BoundedDecode

/-!
# Bolt messages

A message is a structure whose tag is its opcode. A request is decoded at the negotiated version: an
opcode the version does not define is refused before its fields are read, an opcode that no version
defines is kept as `unsupported`.

**Theorem (`Request.decodeAt_safe`).** Whatever the payload is, a request is decoded or refused with
an error of the source, within the limits of the value decoder.

The errors of the engine and the failures they are reported as are here too.
-/

namespace Graphus.Bolt

open PackStream Hoare

/-! ## Versions and opcodes -/

structure Version where
  major : UInt8
  minor : UInt8

def supportedMajor : UInt8 := 5
def minMinor : UInt8 := 0

namespace Opcode

def hello : UInt8 := 0x01
def goodbye : UInt8 := 0x02
def reset : UInt8 := 0x0F
def run : UInt8 := 0x10
def begin : UInt8 := 0x11
def commit : UInt8 := 0x12
def rollback : UInt8 := 0x13
def discard : UInt8 := 0x2F
def pull : UInt8 := 0x3F
def telemetry : UInt8 := 0x54
def route : UInt8 := 0x66
def logon : UInt8 := 0x6A
def logoff : UInt8 := 0x6B

end Opcode

/-- The fetch size and the query id that stand for everything and for the last one. -/
def all : Int64 := -1

def opcodeMinMinor (tag : UInt8) : UInt8 :=
  if tag = Opcode.logon ∨ tag = Opcode.logoff then 1
  else if tag = Opcode.telemetry then 4
  else minMinor

def opcodeAvailableAt (tag : UInt8) (version : Version) : Bool :=
  if version.major ≠ supportedMajor then true else opcodeMinMinor tag ≤ version.minor

def opcodeName (tag : UInt8) : Option String :=
  if tag = Opcode.hello then some "HELLO"
  else if tag = Opcode.goodbye then some "GOODBYE"
  else if tag = Opcode.reset then some "RESET"
  else if tag = Opcode.run then some "RUN"
  else if tag = Opcode.begin then some "BEGIN"
  else if tag = Opcode.commit then some "COMMIT"
  else if tag = Opcode.rollback then some "ROLLBACK"
  else if tag = Opcode.discard then some "DISCARD"
  else if tag = Opcode.pull then some "PULL"
  else if tag = Opcode.telemetry then some "TELEMETRY"
  else if tag = Opcode.route then some "ROUTE"
  else if tag = Opcode.logon then some "LOGON"
  else if tag = Opcode.logoff then some "LOGOFF"
  else none

/-! ## Requests -/

inductive Request where
  | hello (extra : Fields)
  | logon (auth : Fields)
  | logoff
  | run (query : Text) (parameters extra : Fields)
  | discard (n : Int64) (qid : Option Int64)
  | pull (n : Int64) (qid : Option Int64)
  | begin (extra : Fields)
  | commit
  | rollback
  | reset
  | goodbye
  | route (routing : Fields) (bookmarks : List Value) (extra : Fields)
  | telemetry (api : Int64)
  | unsupported (opcode : UInt8) (fields : List Value)

/-- The first entry under a key whose value has the shape that `pick` asks for. -/
def mapGet {α : Type} (pick : Value → Option α) (map : Fields) (key : String) : Option α :=
  map.findSome? fun (k, v) => if k = text key then pick v else none

def mapGetInt : Fields → String → Option Int64 := mapGet fun
  | .integer n => some n
  | _ => none

def mapStr : Fields → String → Option Text := mapGet fun
  | .string s => some s
  | _ => none

namespace Request

def malformed {α : Type} (message : String) : Except BoltError α := .error (.decode (text message))

/-- The error for a field of the wrong shape, with what stands in its place. -/
def mismatch {α : Type} (message : String) : Option Value → Except BoltError α
  | some v => .error (.decodeFound (text message) v)
  | none => .error (.decode (text (message ++ "None")))

def expectArity (tag : UInt8) (got want : Nat) : Except BoltError Unit :=
  if got = want then .ok ()
  else malformed ("message " ++ hex tag ++ " expected " ++ toString want ++ " fields, found " ++
    toString got)

/-- The only field, which must be a map. -/
def takeMap (fields : List Value) (tag : UInt8) (what : String) : Except BoltError Fields := do
  expectArity tag fields.length 1
  match fields.head? with
  | some (.map m) => .ok m
  | other => mismatch (what ++ " must be a map, found ") other

variable (v : Option Value)

def expectString (tag : UInt8) (what : String) : Except BoltError Text :=
  match v with
  | some (.string s) => .ok s
  | other => mismatch ("message " ++ hex tag ++ ": " ++ what ++ " must be a string, found ") other

def expectMap (tag : UInt8) (what : String) : Except BoltError Fields :=
  match v with
  | some (.map m) => .ok m
  | other => mismatch ("message " ++ hex tag ++ ": " ++ what ++ " must be a map, found ") other

def expectList (tag : UInt8) (what : String) : Except BoltError (List Value) :=
  match v with
  | some (.list l) => .ok l
  | other => mismatch ("message " ++ hex tag ++ ": " ++ what ++ " must be a list, found ") other

def pullDiscardFields (extra : Fields) (tag : UInt8) (what : String) :
    Except BoltError (Int64 × Option Int64) :=
  match mapGetInt extra "n" with
  | some n => .ok (n, mapGetInt extra "qid")
  | none => malformed ("message " ++ hex tag ++ ": " ++ what ++
      " requires `n` (it has no default and must be present)")

/-- A request without fields. -/
def fieldless (tag : UInt8) (fields : List Value) (r : Request) : Except BoltError Request := do
  expectArity tag fields.length 0
  return r

def fromStructure (tag : UInt8) (fields : List Value) : Except BoltError Request :=
  if tag = Opcode.hello then do
    let extra ← takeMap fields tag "HELLO.extra"
    return .hello extra
  else if tag = Opcode.logon then do
    let auth ← takeMap fields tag "LOGON.auth"
    return .logon auth
  else if tag = Opcode.logoff then fieldless tag fields .logoff
  else if tag = Opcode.run then do
    expectArity tag fields.length 3
    let query ← expectString fields[0]? tag "RUN.query"
    let parameters ← expectMap fields[1]? tag "RUN.parameters"
    let extra ← expectMap fields[2]? tag "RUN.extra"
    return .run query parameters extra
  else if tag = Opcode.discard then do
    let extra ← takeMap fields tag "DISCARD.extra"
    let (n, qid) ← pullDiscardFields extra tag "DISCARD"
    return .discard n qid
  else if tag = Opcode.pull then do
    let extra ← takeMap fields tag "PULL.extra"
    let (n, qid) ← pullDiscardFields extra tag "PULL"
    return .pull n qid
  else if tag = Opcode.begin then do
    let extra ← takeMap fields tag "BEGIN.extra"
    return .begin extra
  else if tag = Opcode.commit then fieldless tag fields .commit
  else if tag = Opcode.rollback then fieldless tag fields .rollback
  else if tag = Opcode.reset then fieldless tag fields .reset
  else if tag = Opcode.goodbye then fieldless tag fields .goodbye
  else if tag = Opcode.route then do
    expectArity tag fields.length 3
    let routing ← expectMap fields[0]? tag "ROUTE.routing"
    let bookmarks ← expectList fields[1]? tag "ROUTE.bookmarks"
    let extra ← expectMap fields[2]? tag "ROUTE.extra"
    return .route routing bookmarks extra
  else if tag = Opcode.telemetry then do
    expectArity tag fields.length 1
    match fields.head? with
    | some (.integer n) => return .telemetry n
    | other =>
        mismatch ("message " ++ hex tag ++ ": TELEMETRY api must be an integer, found ") other
  else return .unsupported tag fields

variable (tz : TimeZones)

/-- The field count is not scaled by the sender, so the slots are reserved without a cap. -/
def readFields (count : Nat) : Unpack (List Value) := do
  expect (count ≤ maxStructFields)
  modify fun u => { u with fieldSlots := count }
  iterate count (unpackElement (unpackValue tz)) []

/-- An outcome that needs no more of the input. -/
def ofResult {α : Type} : Except BoltError α → Unpack α
  | .ok a => pure a
  | .error e => throw (.error e)

def decode : Unpack Request := do
  let (tag, fieldCount) ← readStructHeader
  let fields ← readFields tz fieldCount
  ofResult (fromStructure tag fields)

def decodeAt (version : Version) : Unpack Request := do
  let (tag, fieldCount) ← readStructHeader
  if opcodeAvailableAt tag version then
    let fields ← readFields tz fieldCount
    ofResult (fromStructure tag fields)
  else
    decodeError ("message " ++ hex tag ++ " (" ++ (opcodeName tag).getD "message" ++
      ") is not defined by Bolt " ++ toString version.major ++ "." ++ toString version.minor ++
      " (introduced in " ++ toString supportedMajor ++ "." ++ toString (opcodeMinMinor tag) ++ ")")

/-! ### Decoding is bounded -/

variable {tz : TimeZones} {bytes : Bytes}

lemma ofResult_safe {α : Type} {B : Nat} (r : Except BoltError α) :
    Safe bytes B 0 0 (ofResult r) fun _ => True := by
  cases r with
  | ok a => exact Safe.pure trivial
  | error e => exact Safe.error

lemma readFields_safe {count : Nat} (hcount : count ≤ maxStructFields) :
    Safe bytes (3 * maxDecodeDepth + 8) 0 0 (readFields tz count)
      fun fields => ∀ v ∈ fields, Accepted v := by
  refine .bind (.expect hcount) fun _ _ => .bind (Q := fun _ => True)
    (fun k u hu => ?_) fun _ _ => ?_
  · exact ⟨trivial, { hu with fieldSlots_le := hcount }⟩
  · refine Safe.iterate (fun fields hfields => unpackElement_safe ?_ (by omega) hfields)
      fun _ hv => nomatch hv
    exact unpackValueAt_safe maxDecodeDepth (Nat.le_add_left _ _) (by omega)

lemma decode_safe : Safe bytes (3 * maxDecodeDepth + 8) 0 0 (decode tz) fun _ => True := by
  refine Safe.bind (readStructHeader_safe (by omega)) fun ⟨tag, fieldCount⟩ hcount => ?_
  exact Safe.bind (readFields_safe hcount) fun fields _ => ofResult_safe _

theorem decodeAt_safe (version : Version) :
    Safe bytes (3 * maxDecodeDepth + 8) 0 0 (decodeAt tz version) fun _ => True := by
  refine Safe.bind (readStructHeader_safe (by omega)) fun ⟨tag, fieldCount⟩ hcount => ?_
  refine Safe.ite (fun _ => ?_) fun _ => Safe.decodeError
  exact Safe.bind (readFields_safe hcount) fun fields _ => ofResult_safe _

/-- **Every payload is decoded or refused**, before a version is agreed and at every version, within
the limits: beyond what the cap allows, it reserves slots for at most `maxStructFields` fields. -/
theorem decode_bounded (tz : TimeZones) (version : Version) (bytes : Bytes) :
    Bounded bytes (decode tz { buf := bytes }) ∧
    Bounded bytes (decodeAt tz version { buf := bytes }) :=
  ⟨decode_safe.bounded, (decodeAt_safe version).bounded⟩

end Request

/-! ## Failures -/

/-- The message of a failure. One that prints an error or a text in its quoted form carries it. -/
inductive FailureMessage where
  | text (message : Text)
  | undecodable (fault : DecodeFault)
  | unsupportedScheme (scheme : Text)

structure Failure where
  code : Text
  message : FailureMessage

def codeRequestInvalid : String := "Neo.ClientError.Request.Invalid"
def codeUnauthorized : String := "Neo.ClientError.Security.Unauthorized"
def codeServerBusy : String := "Neo.TransientError.General.DatabaseUnavailable"
def codeForbidden : String := "Neo.ClientError.Security.Forbidden"

def Failure.new (code message : String) : Failure := ⟨text code, .text (text message)⟩

def errorMessage : GraphusError → Text
  | .storage m | .transaction m | .compile m | .runtime m | .protocol m | .security m => m

def isRuntime : GraphusError → Bool
  | .runtime _ => true
  | _ => false

def errorCode : GraphusError → String
  | .compile _ => "Neo.ClientError.Statement.SyntaxError"
  | .runtime _ => "Neo.ClientError.Statement.ArgumentError"
  | .transaction _ => "Neo.TransientError.Transaction.Outdated"
  | .storage _ => "Neo.DatabaseError.General.UnknownError"
  | .protocol _ => codeRequestInvalid
  | .security _ => codeForbidden

/-- The code and the text of a message with a sentinel before them, parted by the unit separator. -/
def codedMessage (sentinel : String) (message : Text) : Option (Text × Text) :=
  (List.dropPrefix? message (text sentinel)).bind fun rest =>
    match List.dropPrefix? (rest.dropWhile (· ≠ 0x1F)) [0x1F] with
    | some human => some (rest.takeWhile (· ≠ 0x1F), human)
    | none => none

/-- `failure_from_error`. Printing an error puts the name of its layer before the message and the
report takes it off again, so the message itself is what is looked at. -/
def failureFromError (error : GraphusError) : Failure :=
  let message := errorMessage error
  match codedMessage "\x01wire-status-code\x01 " message with
  | some (code, human) => ⟨code, .text human⟩
  | none =>
    match isRuntime error, List.dropPrefix? message (text "\x01constraint-violation\x01 "),
        codedMessage "\x01schema-rule-error\x01 " message with
    | true, some human, _ => ⟨text "Neo.ClientError.Schema.ConstraintValidationFailed", .text human⟩
    | true, none, some (code, human) => ⟨code, .text human⟩
    | _, _, _ => ⟨text (errorCode error), .text message⟩

/-! ## Responses -/

inductive Response where
  | success (metadata : Fields)
  | record (values : List BoltValue)
  | ignored
  | failure (f : Failure)

end Graphus.Bolt
