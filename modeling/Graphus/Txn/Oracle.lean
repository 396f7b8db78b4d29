import Graphus.Core.Version
import Graphus.Lib.Dict

/-!
# The timestamp oracle

`TimestampOracle` (`graphus-txn/src/oracle.rs`): one counter that issues begin and commit
timestamps, and the multiset of the begin timestamps of active transactions, whose least element
is the garbage-collection low-water mark.
-/

namespace Graphus

structure TimestampOracle where
  nextCounter : Nat := 0
  /-- begin timestamp ↦ number of active transactions that began at it -/
  activeBegins : Dict Nat Nat := ∅

namespace TimestampOracle

/-- The next timestamp, or `none` when the 63-bit space is exhausted. -/
def tick (o : TimestampOracle) : Option (TimestampOracle × Nat) :=
  if o.nextCounter + 1 ≤ maxTimestamp then
    some ({ o with nextCounter := o.nextCounter + 1 }, o.nextCounter + 1)
  else none

/-- Issue a begin timestamp and register it as active. -/
def beginTs (o : TimestampOracle) : Option (TimestampOracle × Nat) :=
  o.tick.map fun (o, ts) =>
    ({ o with activeBegins := o.activeBegins.insert ts ((o.activeBegins.lookup ts).getD 0 + 1) },
      ts)

/-- Issue a commit timestamp. -/
def commitTs (o : TimestampOracle) : Option (TimestampOracle × Nat) := o.tick

/-- Release the begin timestamp of a finished transaction; `false` if it is not active. -/
def releaseBegin (o : TimestampOracle) (ts : Nat) : TimestampOracle × Bool :=
  match o.activeBegins.lookup ts with
  | none => (o, false)
  | some n =>
    if n - 1 = 0 then ({ o with activeBegins := o.activeBegins.erase ts }, true)
    else ({ o with activeBegins := o.activeBegins.insert ts (n - 1) }, true)

/-- The oldest active begin timestamp. -/
def lowWaterMark (o : TimestampOracle) : Option Nat := o.activeBegins.keys.min?

variable {o o' : TimestampOracle} {ts : Nat}

lemma tick_eq_some (h : o.tick = some (o', ts)) :
    ts = o.nextCounter + 1 ∧ ts ≤ maxTimestamp ∧ o' = { o with nextCounter := ts } := by
  unfold tick at h
  split at h
  · cases h
    exact ⟨rfl, ‹_›, rfl⟩
  · cases h

lemma beginTs_eq_some (h : o.beginTs = some (o', ts)) : ts = o.nextCounter + 1 ∧ ts ≤ maxTimestamp ∧
      o' = { nextCounter := ts,
             activeBegins :=
               o.activeBegins.insert ts ((o.activeBegins.lookup ts).getD 0 + 1) } := by
  rw [beginTs, Option.map_eq_some_iff] at h
  obtain ⟨⟨o1, ts1⟩, h1, h2⟩ := h
  obtain ⟨h3, h4, rfl⟩ := tick_eq_some h1
  cases h2
  exact ⟨h3, h4, rfl⟩

@[simp] lemma releaseBegin_nextCounter : (o.releaseBegin ts).1.nextCounter = o.nextCounter := by
  unfold releaseBegin
  split
  · rfl
  · split <;> rfl

/-- When a single transaction began at `ts`, releasing it removes the key. -/
lemma releaseBegin_of_one (h : o.activeBegins.lookup ts = some 1) :
    (o.releaseBegin ts).1 = { o with activeBegins := o.activeBegins.erase ts } := by
  simp [releaseBegin, h]

lemma lowWaterMark_le {mark : Nat} (h : o.lowWaterMark = some mark)
    (hts : ts ∈ o.activeBegins) : mark ≤ ts :=
  (List.min?_eq_some_iff.1 h).2 ts (AList.mem_keys.1 hts)

lemma not_mem_of_lowWaterMark_none (h : o.lowWaterMark = none) : ts ∉ o.activeBegins := by
  rw [lowWaterMark, List.min?_eq_none_iff] at h
  rw [AList.mem_keys, h]
  exact List.not_mem_nil

end TimestampOracle

end Graphus
