import Graphus.Lib.Run
import Graphus.Txn.SsiRun

/-!
# The conflict graph under any sequence of calls

**Theorem (`consistent_of_proper`).** After every sequence of proper calls the edges of the tracker
are mirrored, its flags and its reverse indexes say what the entries say, and its edges are those
between concurrent transactions that share a marker.

The history that the tracker mirrors is the one of the transactions it knows (`SsiTracker.known`),
so a transaction may be registered again after it is forgotten.

A call that is not proper breaks this (`improper_calls_inconsistent`). A read-only transaction can
be rolled back while its reads are still buffered; they are then recorded for a transaction that was
forgotten, which stays in the reverse index for ever.
-/

namespace Graphus

open SsiTracker Dict History TxnConflict List

namespace SsiTracker

variable {s : SsiTracker}

inductive Call where
  | register (txn beginTs : Nat)
  | record (a : Access) (txn : Nat) (m : Marker)
  | recordCommit (txn commitTs : Nat)
  | forget (txn : Nat)
  | pruneCommitted (lowWater : Option Nat)

def call (s : SsiTracker) : Call → Option SsiTracker
  | .register t ts => s.register t ts
  | .record a t m => s.record a t m
  | .recordCommit t c => s.recordCommit t c
  | .forget t => s.forget t
  | .pruneCommitted lowWater => (s.pruneCommitted lowWater).1

/-- An access is of a known transaction. A commit is the first of its transaction, and above the
begin timestamps of the known ones. -/
def Proper (s : SsiTracker) : Call → Prop
  | .record _ t _ => t ∈ s.txns
  | .recordCommit t c => ∀ e ∈ s.txns.lookup t, e.commitTs = none ∧
      ∀ b ∈ s.txns.keys, ∀ f ∈ s.txns.lookup b, f.beginTs < c
  | _ => True

instance (s : SsiTracker) (c : Call) : Decidable (s.Proper c) := by
  unfold Proper
  split <;> infer_instance

/-- **The conflict graph mirrors the read and write sets.** -/
structure Consistent (s : SsiTracker) : Prop where
  mirror : ∀ {t w e f}, s.txns.lookup t = some e → s.txns.lookup w = some f →
    (w ∈ e.outEdges ↔ t ∈ f.inEdges)
  outFlag : ∀ {t e}, s.txns.lookup t = some e →
    (e.outConflict = true ↔ ∃ w ∈ e.outEdges, w ∈ s.txns)
  inFlag : ∀ {t e}, s.txns.lookup t = some e → (e.inConflict = true ↔ ∃ w ∈ e.inEdges, w ∈ s.txns)
  holders : ∀ {a t m}, t ∈ s.holders a m ↔ ∃ e, s.txns.lookup t = some e ∧ e.has a m
  edge : ∀ {t w e f}, s.txns.lookup t = some e → s.txns.lookup w = some f → (w ∈ e.outEdges ↔
    t ≠ w ∧ s.areConcurrent t w = true ∧ ∃ m, e.has .read m ∧ f.has .write m)

/-- The history of the known transactions alone. -/
def known (s : SsiTracker) : History where
  beginTs t := (s.txns.lookup t).map (·.beginTs)
  commitTs t := (s.txns.lookup t).bind (·.commitTs)
  did a t m := ∃ e ∈ s.txns.lookup t, e.has a m

lemma known_wellFormed : s.known.WellFormed := by
  constructor
  · rintro a t m ⟨e, he, -⟩
    simp [known, Option.mem_def.1 he]
  · intro t c h
    obtain ⟨e, he, -⟩ := Option.bind_eq_some_iff.1 h
    simp [known, he]

end SsiTracker

variable {s s' : SsiTracker} {H : History}

/-- What is forgotten does not matter. -/
lemma Mirrors.known (h : Mirrors H s) : Mirrors s.known s := by
  have hdid : ∀ {a t m}, t ∈ s.txns → (s.known.did a t m ↔ H.did a t m) := by
    intro a t m ht
    obtain ⟨e, he⟩ := mem_iff_lookup.1 ht
    rw [← h.markers.did he]
    exact ⟨fun ⟨e', he', hm⟩ => Option.mem_unique he' he ▸ hm, fun hm => ⟨e, he, hm⟩⟩
  have htimes : ∀ {t}, t ∈ s.txns → s.known.beginTs t = H.beginTs t ∧
    s.known.commitTs t = H.commitTs t := by
    intro t ht
    obtain ⟨e, he⟩ := mem_iff_lookup.1 ht
    rw [h.markers.begun he, h.markers.committed he]
    simp [SsiTracker.known, he]
  refine ⟨?_, h.edges.congr fun a b ha hb => ?_⟩
  · constructor
    case holders =>
      intro a t m
      exact h.markers.holders.trans (and_congr_right fun ht => (hdid ht).symm)
    all_goals
      intros
      rename_i he
      have hmem := mem_of_lookup he
    · rw [(htimes hmem).1, h.markers.begun he]
    · rw [(htimes hmem).2, h.markers.committed he]
    · rw [hdid hmem, h.markers.did he]
  · simp only [Edge, Concurrent, Before, hdid ha, hdid hb, (htimes ha).1, (htimes ha).2,
      (htimes hb).1, (htimes hb).2]

lemma Mirrors.consistent (h : Mirrors H s) : Consistent s := by
  have hne : ∀ {l : List Nat}, (∀ w ∈ l, w ∈ s.txns) → (l ≠ [] ↔ ∃ w ∈ l, w ∈ s.txns) := by
    refine fun hl => ⟨fun h => ?_, fun ⟨w, hw, _⟩ => ne_nil_of_mem hw⟩
    obtain ⟨w, hw⟩ := exists_mem_of_ne_nil _ h
    exact ⟨w, hw, hl w hw⟩
  constructor
  case mirror =>
    intro t w e f he hf
    rw [h.edges.out he, h.edges.into hf]
    exact ⟨fun ⟨_, hE⟩ => ⟨mem_of_lookup he, hE⟩, fun ⟨_, hE⟩ => ⟨mem_of_lookup hf, hE⟩⟩
  case outFlag =>
    intro t e he
    rw [h.edges.outFlag he, hne fun w hw => ((h.edges.out he).1 hw).1]
  case inFlag =>
    intro t e he
    rw [h.edges.inFlag he, hne fun w hw => ((h.edges.into he).1 hw).1]
  case holders =>
    intro a t m
    rw [h.markers.holders, mem_iff_lookup, ← exists_and_right]
    exact exists_congr fun e => and_congr_right fun he => (h.markers.did he).symm
  case edge =>
    intro t w e f he hf
    rw [h.edges.out he, areConcurrent_iff h.markers, Edge]
    simp only [← h.markers.did he, ← h.markers.did hf]
    have := mem_of_lookup he
    tauto

lemma Mirrors.call (h : Mirrors s.known s) {c : Call} (hc : s.Proper c) (hs : s.call c = some s') :
    Mirrors s'.known s' := by
  cases c <;> cases hs
  case register t ts =>
    by_cases ht : t ∈ s.txns
    · obtain ⟨e, he⟩ := mem_iff_lookup.1 ht
      rwa [SsiTracker.register, he]
    · refine (h.register known_wellFormed ?_ ht).known
      simp [SsiTracker.known, AList.lookup_eq_none.2 ht]
  case record a t m => exact (h.record hc).known
  case recordCommit t c =>
    cases ht : s.txns.lookup t with
    | none => simpa [recordCommit, Dict.modify, ht] using h
    | some e =>
      obtain ⟨hnew, hlt⟩ := hc e ht
      refine (h.commit (c := c) ?_ (fun b ts hb => ?_) (mem_of_lookup ht)).known
      · simpa [SsiTracker.known, ht] using hnew
      · obtain ⟨f, hf, rfl⟩ := Option.map_eq_some_iff.1 hb
        exact hlt b (mem_keys_iff_lookup.2 ⟨f, hf⟩) f hf
  case forget t => exact h.forget.known
  case pruneCommitted lowWater => exact h.foldl_forget.known

/-- **The conflict graph mirrors the read and write sets** after every sequence of proper calls. -/
theorem consistent_of_proper {calls : List Call} (hcalls : Run.Along call Proper .new calls)
    (hrun : Run.exec call .new calls = some s) : Consistent s := by
  exact (Run.exec_preserves (I := fun s => Mirrors s.known s) (fun hi hc hs => hi.call hc hs)
    SsiInv.init.mirrors.known hcalls hrun).consistent

/-- Two concurrent transactions and one that is gone. -/
def readThenWrite : List Call :=
  [.register 1 5, .register 2 6, .register 3 6, .record .read 1 (.key 0), .record .write 3 (.key 0),
    .record .write 2 (.key 0), .recordCommit 2 7, .forget 3]

theorem consistent_readThenWrite : ∃ s, Run.exec call .new readThenWrite = some s ∧ Consistent s ∧
    ∃ e, s.txns.lookup 1 = some e ∧ e.outEdges = [2] := by
  have hrun : Run.exec call .new readThenWrite = some _ := rfl
  exact ⟨_, hrun, consistent_of_proper (by decide) hrun, _, rfl, rfl⟩

/-- The buffered read of a transaction that was rolled back. -/
def lateRead : List Call := [.register 1 5, .forget 1, .record .read 1 (.key 0)]

/-- The reader commits at the begin timestamp of the writer it has an edge to. -/
def staleCommit : List Call :=
  [.register 1 5, .register 2 6, .record .read 1 (.key 0), .record .write 2 (.key 0),
    .recordCommit 1 6]

/-- The reader commits again, after a writer that did not see it as concurrent. -/
def secondCommit : List Call :=
  [.register 1 5, .record .read 1 (.key 0), .recordCommit 1 7, .register 2 8,
    .record .write 2 (.key 0), .recordCommit 1 9]

/-- **Each condition on the calls matters.** A read of a forgotten transaction stays in the reverse
index, an edge outlives a commit that ends the concurrency, and a second commit makes transactions
concurrent that have no edge. -/
theorem improper_calls_inconsistent :
    (∃ s, Run.exec call .new lateRead = some s ∧ 1 ∈ s.holders .read (.key 0) ∧ 1 ∉ s.txns ∧
      ¬ Consistent s) ∧
    (∃ s, Run.exec call .new staleCommit = some s ∧ ¬ Consistent s) ∧
    ∃ s, Run.exec call .new secondCommit = some s ∧ ¬ Consistent s := by
  refine ⟨⟨_, rfl, by decide, by decide, fun h => ?_⟩, ⟨_, rfl, fun h => ?_⟩, ⟨_, rfl, fun h => ?_⟩⟩
  · obtain ⟨e, he, -⟩ := h.holders.1 (show 1 ∈ holders _ .read (.key 0) by decide)
    cases he
  · have hedge := (h.edge (t := 1) (w := 2) rfl rfl).1 (by decide)
    exact absurd hedge.2.1 (by decide)
  · have hedge := (h.edge (t := 1) (w := 2) rfl rfl).2 ⟨by decide, by decide, .key 0,
      show 0 ∈ _ by decide, show 0 ∈ _ by decide⟩
    exact absurd hedge (by decide)

end Graphus
