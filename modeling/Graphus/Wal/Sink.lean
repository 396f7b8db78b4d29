import Graphus.Wal.Record

/-!
# The log sink

What the manager and recovery see of a `LogSink`: the durable bytes from offset 0 (a reclaimed
prefix reads as zeros), and the bytes appended since the last sync. Appends go after whatever bytes
there are; no sink ever truncates. A crash keeps the durable bytes and any prefix of the pending
ones: on reopening, the length on disk is the durable length.
-/

namespace Graphus

/-- The errors of the log. -/
inductive WalError where
  | createNotEmpty
  | tooShort
  | badMagic
  | unsupportedVersion (version : Nat)
  | commitInactive (txn : Nat)
  | interiorCorruption (offset next : Nat)
  | firstRecordOverflow
  | scanOverflow
  | probeOverflow
  | undoTruncated (lsn : Nat)
  | undoUndecodable (lsn : Nat) (e : DecodeError)
  /-- a loop of the model stopped early; the loops are given fuel for every iteration -/
  | outOfFuel
  deriving DecidableEq

structure LogSink where
  durable : Bytes := []
  pending : Bytes := []
  reclaimedFloor : Nat := 0

namespace LogSink

variable (s : LogSink)

def durableLen : Nat := s.durable.length

def bufferedLen : Nat := s.durable.length + s.pending.length

def append (bytes : Bytes) : LogSink := { s with pending := s.pending ++ bytes }

def sync : LogSink := { s with durable := s.durable ++ s.pending, pending := [] }

/-- The durable bytes from `start` up to `stop`, or up to the end. -/
def readBounded (start stop : Nat) : Bytes := (s.durable.take stop).drop start

/-- The process dies with `kept` of the pending bytes on disk. -/
def crash (kept : Nat) : LogSink :=
  { s with durable := s.durable ++ s.pending.take kept, pending := [] }

/-- Free the bytes from `start` up to `stop`: they read as zeros, and reads may begin at `stop`. -/
def free (start stop : Nat) : LogSink :=
  { s with
    durable := s.durable.take start ++ List.replicate (stop - start) 0 ++ s.durable.drop stop
    reclaimedFloor := stop }

end LogSink

/-- `HEADER_LEN` -/
def headerLen : Nat := 8

/-- `WAL_MAGIC` -/
def walMagic : Nat := 0x4757414C

/-- `WAL_VERSION` -/
def walVersion : Nat := 1

end Graphus
