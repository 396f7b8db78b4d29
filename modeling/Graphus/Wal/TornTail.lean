import Graphus.Wal.CommittedOrNothing

/-!
# A torn tail and what is appended behind it

The sinks append behind whatever bytes there are and recovery does not cut a torn record off. The
next scan stops at the torn record, and the probe behind it finds the first record appended there:
it names its own offset.

**Theorem (`later_recovery_iff`).** When a recovery of a log with a torn record has succeeded, a
later one succeeds and finds every hardened commit if and only if nothing has been appended.
-/

namespace Graphus

open List
open WalManager (records sink step)

/-- Recovery of the sink succeeds, and its analysis has found the transactions committed. -/
def RecoversCommits (image : Bytes → (Nat → UInt8) → Nat → UInt8) (sink : LogSink)
    (pages : Pages (Nat → UInt8)) (committed : Nat → Prop) : Prop :=
  (∃ first a tail, analyse sink headerLen recoveryWindowBytes = .ok (first, a, tail) ∧
    ∀ t, committed t → t ∈ a.committed) ∧
  ∃ result, recover image { sink } pages = .ok result

/-- The checksum rejects the torn record with what is behind it. In a log without whole records the
scan may also start at a later byte of the torn record: it is rejected there as well. -/
def RejectsTorn (L : Log) (torn rest : Bytes) : Prop :=
  ∀ p, logEnd L ≤ p → p < (logBytes L ++ torn).length → p = logEnd L ∨ L = [] →
    Ends (logBytes L ++ torn ++ rest) p

/-- How an analysis that found the records `L` from `first` on ends. -/
def analysisResult (first : Nat) (L : Log) :
    ScanOutcome → Except WalError (Option Nat × Analysis × Bool)
  | .interiorCorruption offset next => .error (.interiorCorruption offset next)
  | .complete => .ok (some first, Analysis.of L, false)
  | .tornTail => .ok (some first, Analysis.of L, true)

section TornTail

variable {sem : ImageSemantics} {s0 : Store} {s : LogSink} {L R : Log}
  {torn rest : Bytes} {pages : Pages (Nat → UInt8)} {first stop : Nat}

/-! ## The analysis of a log with a torn tail -/

/-- The analysis leaves the bytes behind the records to the probe. -/
lemma analyse_of_scans (hlen : s.durable.length < 2 ^ 63) (hfloor : s.reclaimedFloor ≤ headerLen)
    (hfind : s.findFirstRecordOffset s.durable.length recoveryWindowBytes
      (LogSink.fuelFor s.durable.length) headerLen = .ok (some first))
    (hscan : Scans s.durable first L stop) (hends : Ends s.durable stop)
    (hfirst : first ≤ s.durable.length) {outcome : ScanOutcome}
    (hout : (if s.durable.length ≤ stop then .ok .complete
      else s.decideTail stop s.durable.length recoveryWindowBytes true) = .ok outcome) :
    analyse s headerLen recoveryWindowBytes = analysisResult first L outcome := by
  have hwindow : 0 < recoveryWindowBytes := by decide
  have hforward : s.scanForward s.durable.length recoveryWindowBytes true Analysis.onRecord
      (LogSink.fuelFor s.durable.length) first recoveryWindowBytes {} =
        .ok (Analysis.of L, outcome) := by
    rw [scanForward_eq ({} : Analysis) hscan hends hfirst hlen hwindow hwindow (fuelFor_enough ..)]
    by_cases hdone : s.durable.length ≤ stop
    · rw [if_pos hdone] at hout ⊢
      cases hout
      rfl
    · rw [if_neg hdone] at hout ⊢
      rw [hout]
      rfl
  unfold analyse LogSink.durableLen
  rw [scanBase_eq hfloor]
  dsimp only
  rw [hfind]
  dsimp only [bind, Except.bind]
  rw [hforward]
  cases outcome <;> rfl

variable {result : RecoveryReport × WalManager × Pages (Nat → UInt8)}

lemma analyse_of_recover (h : recover sem.apply { sink := s } pages = .ok result) :
    ∃ first a, analyse s headerLen recoveryWindowBytes =
    .ok (first, a, result.1.tailTruncated) := by
  unfold recover recoverFromWindowed at h
  cases hanalyse : analyse s headerLen recoveryWindowBytes with
  | error e =>
    rw [hanalyse] at h
    cases h
  | ok found =>
    obtain ⟨first, a, tail⟩ := found
    rw [hanalyse] at h
    dsimp only [bind, Except.bind] at h
    split at h
    · cases h
    split at h
    · cases h
    · cases h
      exact ⟨first, a, rfl⟩

/-- A torn tail that a scan reaches: in a log without whole records it has a byte other than
zero. -/
structure Reaches (L : Log) (torn : Bytes) : Prop where
  nonempty : torn ≠ []
  nonzero : L = [] → ∃ q b, headerLen ≤ q ∧ (logBytes L ++ torn)[q]? = some b ∧ b ≠ 0

/-- A scan of the log with more bytes behind the torn record stops inside the torn record. -/
lemma Reaches.scans (h : Reaches L torn) (hbytes : s.durable = logBytes L ++ torn ++ rest)
    (hW : Written L) (hreject : RejectsTorn L torn rest) (hlen : s.durable.length < 2 ^ 63) :
    ∃ first stop, s.findFirstRecordOffset s.durable.length recoveryWindowBytes
        (LogSink.fuelFor s.durable.length) headerLen = .ok (some first) ∧
      Scans s.durable first L stop ∧ Ends s.durable stop ∧ first ≤ s.durable.length ∧
      stop < (logBytes L ++ torn).length ∧ (L ≠ [] → stop = logEnd L) := by
  have hbehind : logEnd L < (logBytes L ++ torn).length := by
    rw [length_append, hW.length_logBytes]
    exact Nat.lt_add_of_pos_right (length_pos_iff.2 h.nonempty)
  have hle : (logBytes L ++ torn).length ≤ s.durable.length := by
    rw [hbytes]
    exact (prefix_append (logBytes L ++ torn) rest).length_le
  have hheader : headerLen ≤ (logBytes L).length := headerLen_le_length_logBytes
  by_cases hne : L = []
  · subst hne
    obtain ⟨q, b, hq, hb, hnz⟩ := h.nonzero rfl
    have hqlt : q < (logBytes [] ++ torn).length := (List.getElem?_eq_some_iff.1 hb).1
    have hmore : (logBytes [] ++ torn ++ rest)[q]? = (logBytes [] ++ torn)[q]? :=
      getElem?_append_left hqlt
    rw [← hmore, ← hbytes] at hb
    rcases findFirstRecordOffset_cases hlen (show 0 < recoveryWindowBytes by decide)
      (fuelFor_probe s.durable.length headerLen) with ⟨-, hzero⟩ | ⟨p, hp, hfind⟩
    · exact absurd (hzero q b hq hb) hnz
    obtain ⟨hge, hle'⟩ := hp.firstRecord_le recoveryWindowBytes
    generalize firstRecord s.durable headerLen recoveryWindowBytes p = first at hfind hge hle'
    have hlt := lt_of_le_of_lt (hle'.trans (hp.first q b hq hb hnz)) hqlt
    exact ⟨first, first, hfind, .nil _, hbytes ▸ hreject first hge hlt (.inr rfl), by omega, hlt,
      fun h => absurd rfl h⟩
  · have hscan : Scans s.durable headerLen L (logEnd L) := by
      rw [hbytes, append_assoc]
      exact hW.scans _
    exact ⟨headerLen, logEnd L, findFirstRecordOffset_of_scans hlen (by decide) hscan hne, hscan,
      hbytes ▸ hreject _ le_rfl hbehind (.inl rfl), by rw [length_append] at hle; omega,
      hbehind, fun _ => rfl⟩

/-- A recovery that reports a truncated tail has reached it. -/
lemma reaches_of_recover (hbytes : s.durable = logBytes L ++ torn) (hW : Written L)
    (htorn : Torn torn) (hlen : s.durable.length < 2 ^ 63) (hfloor : s.reclaimedFloor ≤ headerLen)
    (hrec : recover sem.apply { sink := s } pages = .ok result)
    (htrunc : result.1.tailTruncated = true) : Reaches L torn := by
  obtain ⟨first, a, hanalyse⟩ := analyse_of_recover hrec
  rw [htrunc] at hanalyse
  by_cases hne : L = []
  · subst hne
    rcases findFirstRecordOffset_cases hlen (show 0 < recoveryWindowBytes by decide)
      (fuelFor_probe s.durable.length headerLen) with ⟨hfind, -⟩ | ⟨q, ⟨hq, ⟨b, hb, hb0⟩, -⟩, -⟩
    · unfold analyse LogSink.durableLen at hanalyse
      rw [scanBase_eq hfloor] at hanalyse
      dsimp only at hanalyse
      rw [hfind] at hanalyse
      cases hanalyse
    rw [hbytes] at hb
    refine ⟨?_, fun _ => ⟨q, b, hq, hb, hb0⟩⟩
    rintro rfl
    rw [getElem?_eq_none] at hb
    · cases hb
    · exact hq
  · refine ⟨?_, fun h => absurd h hne⟩
    rintro rfl
    have hscan : Scans s.durable headerLen L (logEnd L) := hbytes ▸ hW.scans []
    have hend : s.durable.length = logEnd L := by
      rw [hbytes, append_nil, hW.length_logBytes]
    rw [analyse_of_scans hlen hfloor
      (findFirstRecordOffset_of_scans hlen (by decide) hscan hne) hscan
      (hbytes ▸ hW.ends htorn.decode)
      (by rw [hbytes, append_nil]; exact headerLen_le_length_logBytes)
      (by rw [if_pos hend.le])] at hanalyse
    cases hanalyse

/-- A record behind the torn one is taken for interior corruption. -/
lemma Reaches.analyse_eq (h : Reaches L torn) (hbytes : s.durable = logBytes L ++ torn ++ rest)
    (hW : Written L) (hreject : RejectsTorn L torn rest) (hlen : s.durable.length < 2 ^ 63)
    (hfloor : s.reclaimedFloor ≤ headerLen) {p : Nat}
    (hp : (logBytes L ++ torn).length ≤ p ∨ L ≠ [] ∧ logEnd L < p)
    (hsc : SelfConsistentAt s.durable p) :
    ∃ e, analyse s headerLen recoveryWindowBytes = .error e := by
  obtain ⟨first, stop, hfind, hscan, hends, hfirst, hstop, hend⟩ := h.scans hbytes hW hreject hlen
  have hlt : stop < p := by
    rcases hp with hp | ⟨hne, hp⟩
    · exact lt_of_lt_of_le hstop hp
    · rwa [hend hne]
  have hle : (logBytes L ++ torn).length ≤ s.durable.length := by
    rw [hbytes]
    exact (prefix_append (logBytes L ++ torn) rest).length_le
  obtain ⟨next, hnext⟩ := decideTail_interior hlen (show 0 < recoveryWindowBytes by decide) hlt hsc
  refine ⟨.interiorCorruption stop next, ?_⟩
  rw [analyse_of_scans hlen hfloor hfind hscan hends hfirst
    (by rw [if_neg (not_le.2 (lt_of_lt_of_le hstop hle)), hnext])]
  rfl

/-! ## Later recoveries -/

lemma Placed.head_lsn {start : Nat} {r : LogRecord} (h : Placed start (r :: R)) :
    r.lsn = start := by
  have hsingle : Placed start [r] := h.of_prefix (prefix_append [r] R)
  generalize hR : [r] = R' at hsingle
  cases hsingle with
  | nil => cases hR
  | @snoc C c hC hlsn =>
    obtain ⟨rfl, hc⟩ := append_inj' (show [] ++ [r] = C ++ [c] from hR) rfl
    cases hc
    exact hlsn

lemma encodeAll_nil : encodeAll [] = [] := rfl

/-- A recovery that reaches the torn tail and succeeds has found no record inside it. -/
lemma Reaches.logIn (h : Reaches L torn) (hbytes : s.durable = logBytes L ++ torn) (hW : Written L)
    (htorn : Torn torn) (hreject : RejectsTorn L torn []) (hlen : s.durable.length < 2 ^ 63)
    (hfloor : s.reclaimedFloor ≤ headerLen)
    (hok : ∀ e, analyse s headerLen recoveryWindowBytes ≠ .error e) : LogIn s L torn := by
  have hrest : s.durable = logBytes L ++ torn ++ [] := by rw [hbytes, append_nil]
  have hquiet : QuietTail s.durable L := by
    by_cases hne : L = []
    · refine .of_ends fun p hp hlt => ?_
      rw [hrest]
      exact hreject p (le_of_lt hlt) (hbytes ▸ hp) (.inr hne)
    · refine fun p hp => ⟨fun hsc => ?_, fun h => absurd h hne⟩
      obtain ⟨e, he⟩ := h.analyse_eq hrest hW hreject hlen hfloor (.inr ⟨hne, hp⟩) hsc
      exact hok e he
  exact ⟨hbytes, hW, htorn, hquiet, hlen, hfloor⟩

/-- **A torn tail poisons the log.** After a recovery that reports a truncated tail, a later one
succeeds and finds every hardened commit exactly when nothing has been appended. -/
theorem later_recovery_iff (hW : Written L) (hL : LogOk sem s0 L) (htorn : Torn torn)
    {result : RecoveryReport × WalManager × Pages (Nat → UInt8)} {pages' : Pages (Nat → UInt8)}
    (hrec : recover sem.apply { sink := { durable := logBytes L ++ torn } } pages = .ok result)
    (htrunc : result.1.tailTruncated = true) (hR : Placed (logBytes L ++ torn).length R)
    (hfits : ∀ r ∈ R, r.Fits) (hlen : (logBytes L ++ torn ++ encodeAll R).length < 2 ^ 63)
    (hreject : RejectsTorn L torn (encodeAll R)) (hpages : OnDevice sem s0 L pages') :
    RecoversCommits sem.apply { durable := logBytes L ++ torn ++ encodeAll R } pages'
      (CommitLogged (L ++ R)) ↔ R = [] := by
  generalize hs : ({ durable := logBytes L ++ torn } : LogSink) = s at hrec
  have hbytes : s.durable = logBytes L ++ torn := by rw [← hs]
  have hfloor : s.reclaimedFloor ≤ headerLen := by
    rw [← hs]
    exact Nat.zero_le _
  have hlen' : s.durable.length < 2 ^ 63 := by
    rw [length_append] at hlen
    rw [hbytes]
    omega
  have hreach : Reaches L torn := reaches_of_recover hbytes hW htorn hlen' hfloor hrec htrunc
  constructor
  · rintro ⟨⟨first, a, tail, hanalyse, -⟩, -⟩
    cases R with
    | nil => rfl
    | cons r R =>
      -- the first appended record names its own offset
      obtain ⟨e, he⟩ := hreach.analyse_eq (s := ⟨_, [], 0⟩) rfl hW hreject hlen (Nat.zero_le _)
        (.inl le_rfl) ⟨r, r.encodedLen, by
          rw [drop_left]
          exact LogRecord.decode_encode (hfits r (mem_cons_self ..)) (encodeAll R), hR.head_lsn⟩
      rw [he] at hanalyse
      cases hanalyse
  · rintro rfl
    obtain ⟨first, a, hanalyse⟩ := analyse_of_recover hrec
    have hin : LogIn s L torn := hreach.logIn hbytes hW htorn hreject hlen' hfloor
      fun e he => by rw [he] at hanalyse; cases hanalyse
    rw [encodeAll_nil, append_nil, hs]
    obtain ⟨first, tail, hanalyse, -⟩ := hin.analyse_eq (show 4 ≤ recoveryWindowBytes by decide)
    obtain ⟨C, E, report, wal', pages', hrun, -⟩ :=
      recover_spec (show LogIn (sink { sink := s }) L torn from hin) hL (by rw [← hs]) hpages
    refine ⟨⟨first, _, tail, hanalyse, fun t ht => ?_⟩, _, hrun⟩
    rw [append_nil] at ht
    exact Analysis.mem_committed.2 ht

end TornTail

/-! ### A commit behind a torn record -/

/-- Transaction 1 commits. -/
def committedOps : List WalOp := [.begin 1, .logUpdate 1 0 [3, 7] [3, 0], .commit 1 none]

/-- The records of transaction 1. -/
def committedLog : Log :=
  ((Run.exec step .fresh committedOps).map records).getD []

lemma committedLog_logged : Written committedLog ∧ LogOk bytePatch zeroStore committedLog := by
  obtain ⟨w, hw⟩ : ∃ w, Run.exec step .fresh committedOps = some w :=
    Option.isSome_iff_exists.1 (by decide +kernel)
  obtain ⟨⟨L, hinv⟩, -⟩ := WalInv.of_exec hw (tornLoser_allowed.take 3)
  rw [committedLog, hw, Option.map_some, hinv.logged.records_eq]
  exact ⟨hinv.logged.written, hinv.logged.logOk⟩

/-- The begin record of a transaction. -/
def beginAt (lsn txnId : Nat) : LogRecord := { recType := .begin, txnId, lsn }

/-- The first bytes of a begin record. -/
def tornBegin : Bytes := (beginAt 183 2).encode.take 20

lemma tornBegin_torn : Torn tornBegin :=
  ⟨beginAt 183 2, (beginAt 183 2).encode.drop 20, ⟨by decide, by decide, by decide, by decide,
    by decide, by decide⟩, (take_append_drop 20 _).symm, by decide +kernel⟩

lemma tornBegin_recovers : ∃ result,
    recover bytePatch.apply
    { sink := { durable := logBytes committedLog ++ tornBegin } } zeroPages =
      .ok result ∧ result.1.tailTruncated = true := by
  have hmap : (recover bytePatch.apply { sink := { durable := logBytes committedLog ++ tornBegin } }
      zeroPages).map (·.1.tailTruncated) = .ok true := by
    decide +kernel
  cases hrec : recover bytePatch.apply { sink := { durable := logBytes committedLog ++ tornBegin } }
    zeroPages with
  | error e =>
    rw [hrec] at hmap
    cases hmap
  | ok result =>
    rw [hrec] at hmap
    exact ⟨result, rfl, Except.ok.inj hmap⟩

theorem later_recovery_iff_tornBegin :
    RecoversCommits bytePatch.apply
    { durable := logBytes committedLog ++ tornBegin ++ encodeAll [] }
        zeroPages (CommitLogged (committedLog ++ [])) ∧
      ¬ RecoversCommits bytePatch.apply
          { durable := logBytes committedLog ++ tornBegin ++ encodeAll [beginAt 203 3] } zeroPages
          (CommitLogged (committedLog ++ [beginAt 203 3])) := by
  obtain ⟨hW, hL⟩ := committedLog_logged
  obtain ⟨result, hrec, htrunc⟩ := tornBegin_recovers
  have hpages : OnDevice bytePatch zeroStore committedLog zeroPages :=
    CrashedPages.onDevice (show LogOk bytePatch zeroStore (committedLog ++ []) by
      rwa [append_nil])
      (zeroPages_crashed (by decide +kernel) (by decide +kernel) (by decide +kernel))
  have hreject : ∀ R, Ends (logBytes committedLog ++ tornBegin ++ encodeAll R)
      (logEnd committedLog) → RejectsTorn committedLog tornBegin (encodeAll R) := by
    intro R hends p _ _ hp
    rwa [hp.resolve_right (by decide +kernel)]
  constructor
  · exact (later_recovery_iff hW hL tornBegin_torn hrec htrunc .nil nofun (by decide +kernel)
      (hreject [] (by decide +kernel)) hpages).2 rfl
  intro hlater
  have hplaced : Placed (logBytes committedLog ++ tornBegin).length [beginAt 203 3] :=
    .snoc (C := []) .nil (by decide +kernel)
  have hfits : ∀ r ∈ [beginAt 203 3], r.Fits := by
    intro r hr
    rw [mem_singleton.1 hr]
    exact ⟨by decide, by decide, by decide, by decide, by decide, by decide⟩
  have hnil := (later_recovery_iff hW hL tornBegin_torn hrec htrunc hplaced hfits
    (by decide +kernel) (hreject _ (by decide +kernel)) hpages).1 hlater
  cases hnil

/-- Recover, commit transaction 3, and recover again from what is durable. -/
def recoverCommitRecover (bytes : Bytes) : Except WalError (Bool × Except WalError Bool) := do
  let (report, wal, pages) ← recover bytePatch.apply { sink := { durable := bytes } } zeroPages
  let wal := (Run.exec step wal [.begin 3, .commit 3 none]).getD wal
  let later := recover bytePatch.apply { sink := { durable := wal.sink.durable } } pages
  .ok (report.tailTruncated, later.map (·.1.tailTruncated))

/-- The first recovery reports the torn record and succeeds, and a commit later the log is
refused. -/
theorem tornBegin_later_recovery_fails :
    recoverCommitRecover (afterCrash (committedOps ++ [.begin 2]) 203) =
      .ok (true, .error (.interiorCorruption 183 203)) := by
  decide +kernel

end Graphus
