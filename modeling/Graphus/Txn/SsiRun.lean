import Graphus.Txn.SsiMirror
import Mathlib.Data.Fintype.Basic

/-!
# Runs of the tracker

Serializable transactions drive the tracker: they register, record reads and writes while they
are active, and end by a commit or an abort. A commit is one step: it asks `detectPivotAbort`,
is refused when the answer is the committing transaction, dooms any other victim, and records the
commit timestamp. An abort is `forget`. `prune` retires committed transactions below a low-water
mark that no active transaction began below.

Timestamps come from outside. A commit timestamp is above every timestamp used before it, so that
a begin timestamp is a visibility horizon. Begin timestamps are otherwise arbitrary, except that a
snapshot taken after a prune is not older than a commit made before that prune.

The invariant `SsiInv` relates a state to the history of a run without prunes. Its heart is `safe`:
for a committed `p` with an edge to a `y` that committed before it, every transaction with an edge
into `p` is doomed or gone.
-/

namespace Graphus

open SsiTracker History List

/-- One tracker operation of a serializable transaction, or a prune. -/
inductive SsiOp where
  | register (txn beginTs : Nat)
  | read (txn key : Nat)
  | write (txn key : Nat)
  | predicateRead (txn : Nat) (predicate : PredicateRead)
  | predicateWrite (txn : Nat) (footprint : List PredicateRead)
  | commit (txn commitTs : Nat)
  | abort (txn : Nat)
  | prune (lowWater : Option Nat)

/-- A tracker together with what its callers know: the ids and timestamps used so far. -/
structure SsiState where
  tracker : SsiTracker := {}
  used : List Nat := []
  /-- the greatest timestamp used -/
  clock : Nat := 0
  /-- the greatest commit timestamp -/
  lastCommit : Nat := 0
  /-- `lastCommit` at the latest prune -/
  horizon : Nat := 0

namespace SsiState

/-- No active transaction began below the mark; without a mark, none is active. -/
def lowWaterOk (s : SsiState) (lowWater : Option Nat) : Bool :=
  s.tracker.txns.keys.all fun t =>
    (s.tracker.txns.lookup t).all fun e => e.commitTs.isSome || lowWater.any (· ≤ e.beginTs)

def withTracker (s : SsiState) (tracker : SsiTracker) : SsiState := { s with tracker }

/-- Record the commit of `txn` after the victim, if another transaction, is doomed. -/
def commitWith (s : SsiState) (victim : Option Nat) (txn commitTs : Nat) : SsiState :=
  let doomed := victim.elim s.tracker fun v => (s.tracker.doom v).1
  { s with
    tracker := doomed.recordCommit txn commitTs
    clock := commitTs
    lastCommit := commitTs }

/-- One step; `none` when the operation is not allowed in the state. -/
def step (s : SsiState) : SsiOp → Option SsiState
  | .register t ts =>
    if t ∈ s.used ∨ ts < s.horizon then none
    else some
      { s with
        tracker := s.tracker.register t ts
        used := t :: s.used
        clock := max s.clock ts }
  | .read t k => if s.tracker.isActive t then s.withTracker (s.tracker.recordRead t k) else none
  | .write t k => if s.tracker.isActive t then s.withTracker (s.tracker.recordWrite t k) else none
  | .predicateRead t p =>
    if s.tracker.isActive t then s.withTracker (s.tracker.recordPredicateRead t p) else none
  | .predicateWrite t f =>
    if s.tracker.isActive t then s.withTracker (s.tracker.recordPredicateWrite t f) else none
  | .commit t c =>
    if s.tracker.isActive t ∧ s.clock < c ∧ s.tracker.detectPivotAbort t ≠ some t then
      s.commitWith (s.tracker.detectPivotAbort t) t c
    else none
  | .abort t => if s.tracker.isActive t then s.withTracker (s.tracker.forget t) else none
  | .prune lowWater =>
    if s.lowWaterOk lowWater then
      some { s with
          tracker := (s.tracker.pruneCommitted lowWater).1
          horizon := s.lastCommit }
    else none

end SsiState

/-- What an operation adds to the history. -/
def History.apply (H : History) : SsiOp → History
  | .register t ts => H.register t ts
  | .read t k => H.record .read t (.key k)
  | .write t k => H.record .write t (.key k)
  | .predicateRead t p => H.record .read t (.predicate p)
  | .predicateWrite t f => f.foldl (fun H p => H.record .write t (.predicate p)) H
  | .commit t c => H.commit t c
  | .abort _ => H
  | .prune _ => H

lemma History.isSome_register {H : History} {t ts x : Nat} (h : (H.beginTs x).isSome) :
    ((H.register t ts).beginTs x).isSome := by
  rw [beginTs_register]
  split
  · rfl
  · exact h

/-- The history of a trace. -/
def historyOf (tr : List SsiOp) : History := tr.foldl apply empty

/-! ## The invariant -/

/-- The state of a run and the history so far. -/
structure SsiInv (H : History) (s : SsiState) : Prop where
  mirrors : Mirrors H s.tracker
  wf : H.WellFormed
  used : ∀ {t b}, H.beginTs t = some b → t ∈ s.used
  begun_le : ∀ {t b}, H.beginTs t = some b → b ≤ s.clock
  committed_le : ∀ {t c}, H.commitTs t = some c → c ≤ s.lastCommit
  lastCommit_le : s.lastCommit ≤ s.clock
  begin_lt : ∀ {t b c}, H.beginTs t = some b → H.commitTs t = some c → b < c
  commit_inj : ∀ {a b c}, H.commitTs a = some c → H.commitTs b = some c → a = b
  /-- a committed transaction stays known -/
  kept : ∀ {t c}, H.commitTs t = some c → t ∈ s.tracker.txns
  /-- an edge into a committed `p` with an edge to an earlier committer comes from a doomed or
  aborted transaction -/
  safe : ∀ {x p y cp cy}, H.commitTs p = some cp → H.commitTs y = some cy → cy < cp →
    H.Edge p y → H.Edge x p → H.commitTs x = none ∧ (x ∈ s.tracker.txns → x ∈ s.tracker.doomed)

section Step

variable {H : History} {s : SsiState} {t : Nat}

lemma Mirrors.isActive_iff {s : SsiTracker} (h : Mirrors H s) :
    s.isActive t = true ↔ t ∈ s.txns ∧ H.commitTs t = none := by
  unfold isActive
  cases he : s.txns.lookup t with
  | none => simp [← AList.lookup_isSome, he]
  | some e => simp [← AList.lookup_isSome, he, h.markers.committed he]

lemma SsiInv.init : SsiInv empty {} := by
  have hh : ∀ a m, ({} : SsiTracker).holders a m = [] := fun a m => by cases a <;> cases m <;> rfl
  refine ⟨⟨⟨?_, ?_, ?_, ?_⟩, ⟨?_, ?_, ?_, ?_⟩⟩, ⟨?_, ?_⟩, ?_, ?_, ?_, le_rfl, ?_, ?_, ?_, ?_⟩ <;>
    simp [empty, hh]

section

variable (h : SsiInv H s)

include h

/-- **Recording an access keeps the invariant.** -/
lemma SsiInv.record (ht : t ∈ s.tracker.txns) (hact : H.commitTs t = none)
    {a : Access} {m : Marker} :
    SsiInv (H.record a t m) (s.withTracker (s.tracker.record a t m)) := by
  have hmem : ∀ {x}, x ∈ (s.tracker.record a t m).txns ↔ x ∈ s.tracker.txns :=
    mem_record h.mirrors.markers ht
  have hdoom : ∀ {x}, x ∈ s.tracker.doomed → x ∈ (s.tracker.record a t m).doomed := fun hx =>
    (mem_doomed_record h.mirrors ht hact).2 (.inl hx)
  refine { h with
      mirrors := h.mirrors.record ht
      wf := ⟨?_, h.wf.commit⟩
      kept hc := hmem.2 (h.kept hc)
      safe := ?_ }
  · intro a' x m' hd
    rcases hd with hd | ⟨rfl, rfl, rfl⟩
    · exact h.wf.did hd
    · obtain ⟨e, he⟩ := Dict.mem_iff_lookup.1 ht
      exact Option.isSome_of_eq_some (h.mirrors.markers.begun he)
  intro x p y cp cy hp hy hlt hpy hxp
  have hold := hpy.of_record hact hp hy
  rcases edge_record.1 hxp with hxp | ⟨o, ho, hd, hc, h1, h2⟩
  · obtain ⟨h1, h2⟩ := h.safe hp hy hlt hold hxp
    exact ⟨h1, fun hx => hdoom (h2 (hmem.1 hx))⟩
  cases a with
  | write =>
    subst h2
    exact absurd (hact.symm.trans hp) nofun
  | read =>
    -- the new edge leaves the reader, which is doomed by it
    subst h1 h2
    refine ⟨hact, fun _ =>
      (mem_doomed_record h.mirrors ht hact).2 (.inr ⟨rfl, p, h.kept hp, ho, hd, hc, ?_⟩)⟩
    exact ⟨Option.isSome_of_eq_some hp, y, h.kept hy, hold⟩

/-- An id that was not used has no history. -/
lemma SsiInv.fresh (ht : t ∉ s.used) : H.beginTs t = none ∧ t ∉ s.tracker.txns := by
  constructor
  · cases hb : H.beginTs t with
    | none => rfl
    | some b => exact absurd (h.used hb) ht
  · intro hm
    obtain ⟨e, he⟩ := Dict.mem_iff_lookup.1 hm
    exact ht (h.used (h.mirrors.markers.begun he))

lemma SsiInv.register (ht : t ∉ s.used) {ts : Nat} :
    SsiInv (H.register t ts) { s with
        tracker := s.tracker.register t ts
        used := t :: s.used
        clock := max s.clock ts } := by
  obtain ⟨hbeg, hnm⟩ := h.fresh ht
  have hedge : ∀ {a b}, (H.register t ts).Edge a b ↔ H.Edge a b := edge_register h.wf hbeg
  have hne : ∀ {a b}, H.Edge a b → a ≠ t := by
    rintro a b ⟨-, ⟨m, hr, -⟩, -⟩ hat
    have hb := h.wf.did hr
    rw [hat, hbeg] at hb
    cases hb
  have hcom : ∀ {c}, H.commitTs t ≠ some c := by
    intro c hc
    have := h.wf.commit hc
    simp [hbeg] at this
  refine { h with
      mirrors := h.mirrors.register h.wf hbeg hnm
      wf := ⟨fun hd => isSome_register (h.wf.did hd), fun hc => isSome_register (h.wf.commit hc)⟩
      used hb := ?_
      begun_le hb := ?_
      lastCommit_le := le_trans h.lastCommit_le (le_max_left _ _)
      begin_lt hb hc := ?_
      kept hc := (mem_register hnm).2 (.inr (h.kept hc))
      safe hp hy hlt hpy hxp := ?_ }
  · rcases update_eq_some hb with ⟨rfl, -⟩ | ⟨-, hb⟩
    · exact mem_cons_self
    · exact mem_cons_of_mem _ (h.used hb)
  · rcases update_eq_some hb with ⟨-, rfl⟩ | ⟨-, hb⟩
    · exact le_max_right _ _
    · exact le_max_of_le_left (h.begun_le hb)
  · rcases update_eq_some hb with ⟨rfl, -⟩ | ⟨-, hb⟩
    · exact absurd hc hcom
    · exact h.begin_lt hb hc
  · rw [hedge] at hpy hxp
    obtain ⟨h1, h2⟩ := h.safe hp hy hlt hpy hxp
    refine ⟨h1, fun hx => ?_⟩
    rw [doomed_register hnm]
    exact h2 (((mem_register hnm).1 hx).resolve_left (hne hxp))

lemma SsiInv.abort (hact : H.commitTs t = none) :
    SsiInv H (s.withTracker (s.tracker.forget t)) := by
  refine { h with
      mirrors := h.mirrors.forget
      kept hc := mem_forget.2 ⟨h.kept hc, ?_⟩
      safe hp hy hlt hpy hxp := ?_ }
  · intro hxt
    rw [hxt, hact] at hc
    cases hc
  · obtain ⟨h1, h2⟩ := h.safe hp hy hlt hpy hxp
    refine ⟨h1, fun hx => mem_doomed_forget.2 ?_⟩
    obtain ⟨hx, hne⟩ := mem_forget.1 hx
    exact ⟨h2 hx, hne⟩

end

/-- An active transaction that is not told to abort itself is not doomed and is not a pivot. -/
lemma SsiTracker.detectPivotAbort_ne_self {s : SsiTracker} (h : Mirrors H s)
    (ht : t ∈ s.txns) (hd : s.detectPivotAbort t ≠ some t) :
    t ∉ s.doomed ∧ ∀ {x y c}, x ∈ s.txns → y ∈ s.txns → H.commitTs y = some c → H.Edge x t →
    ¬ H.Edge t y := by
  obtain ⟨e, he⟩ := Dict.mem_iff_lookup.1 ht
  have hdoom : t ∉ s.doomed := by
    intro hm
    exact hd (by rw [detectPivotAbort, if_pos hm])
  refine ⟨hdoom, fun {x y c} hx hy hyc hxt hty => hd ?_⟩
  have hout : y ∈ e.outEdges := (h.edges.out he).2 ⟨hy, hty⟩
  have hof : e.outConflict = true := (h.edges.outFlag he).2 (ne_nil_of_mem hout)
  have hif : e.inConflict = true :=
    (h.edges.inFlag he).2 (ne_nil_of_mem ((h.edges.into he).2 ⟨hx, hxt⟩))
  have hcl : s.closes t e = true := by
    obtain ⟨ey, hey⟩ := Dict.mem_iff_lookup.1 hy
    have hcy : ey.commitTs.isSome := by
      rw [← h.markers.committed hey]
      exact Option.isSome_of_eq_some hyc
    rw [closes, any_eq_true]
    exact ⟨y, hout, by simp [hey, hcy]⟩
  simp [detectPivotAbort, hdoom, he, hof, hif, hcl]

lemma SsiTracker.doom_eq (s : SsiTracker) (v : Nat) :
    (s.doom v).1 = if s.isActive v then { s with doomed := s.doomed.insert v } else s := by
  unfold doom isActive
  cases s.txns.lookup v with
  | none => rfl
  | some e => cases he : e.commitTs <;> simp [he]

/-- The victim of a commit, if there is one, is doomed and nothing else changes. -/
lemma Mirrors.doomed {s : SsiTracker} (h : Mirrors H s) (v : Option Nat) :
    Mirrors H (v.elim s fun v => (s.doom v).1) ∧ (v.elim s fun v => (s.doom v).1).txns = s.txns ∧
      ∀ {x}, x ∈ (v.elim s fun v => (s.doom v).1).doomed ↔ x ∈ s.doomed ∨ v = some x ∧
        s.isActive x = true := by
  cases v with
  | none => exact ⟨h, rfl, by simp⟩
  | some v =>
    rw [Option.elim, s.doom_eq]
    split
    · refine ⟨⟨{ h.markers with holders := fun {a t m} => .trans (iff_of_eq ?_) h.markers.holders },
        { h.edges with }⟩, rfl, ?_⟩
      · cases a <;> cases m <;> rfl
      · grind
    · exact ⟨h, rfl, by grind⟩

lemma SsiState.mem_commitWith (h : Mirrors H s.tracker) {v : Option Nat} {c x : Nat} :
    x ∈ (s.commitWith v t c).tracker.txns ↔ x ∈ s.tracker.txns := by
  obtain ⟨-, hdt, -⟩ := h.doomed v
  rw [commitWith, recordCommit, Dict.mem_modify, hdt]

/-- **Committing keeps the invariant**, because the committing transaction is neither doomed nor
a pivot with a committed outbound partner. -/
lemma SsiInv.commit (h : SsiInv H s) (ht : t ∈ s.tracker.txns) (hact : H.commitTs t = none)
    {c : Nat} (hc : s.clock < c) (hd : s.tracker.detectPivotAbort t ≠ some t) (v : Option Nat) :
    SsiInv (H.commit t c) (s.commitWith v t c) := by
  obtain ⟨hdoom, hpivot⟩ := detectPivotAbort_ne_self h.mirrors ht hd
  obtain ⟨hdm, hdt, hdd⟩ := h.mirrors.doomed v
  have hmem : ∀ {x}, x ∈ (s.commitWith v t c).tracker.txns ↔ x ∈ s.tracker.txns :=
    SsiState.mem_commitWith h.mirrors
  have hbc : ∀ b ts, H.beginTs b = some ts → ts < c := fun b ts hb => by
    have := h.begun_le hb
    omega
  have hedge : ∀ {a b}, (H.commit t c).Edge a b ↔ H.Edge a b := edge_commit hact hbc
  have hlt : ∀ {x cx}, H.commitTs x = some cx → cx < c := fun hx => by
    have h1 := h.committed_le hx
    have h2 := h.lastCommit_le
    omega
  refine
    { mirrors := hdm.commit hact hbc (hdt ▸ ht)
      wf := ⟨h.wf.did, fun hx => ?_⟩
      used := h.used
      begun_le hb := le_of_lt (hbc _ _ hb)
      committed_le hx := ?_
      lastCommit_le := le_rfl
      begin_lt hb hx := ?_
      commit_inj ha hb := ?_
      kept hx := ?_
      safe := fun {x p y cp cy} hp hy hlt' hpy hxp => ?_ }
  · rcases update_eq_some hx with ⟨rfl, -⟩ | ⟨-, hx⟩
    · obtain ⟨e, he⟩ := Dict.mem_iff_lookup.1 ht
      exact Option.isSome_of_eq_some (h.mirrors.markers.begun he)
    · exact h.wf.commit hx
  · rcases update_eq_some hx with ⟨-, rfl⟩ | ⟨-, hx⟩
    · exact le_rfl
    · exact le_of_lt (hlt hx)
  · rcases update_eq_some hx with ⟨-, rfl⟩ | ⟨-, hx⟩
    · exact hbc _ _ hb
    · exact h.begin_lt hb hx
  · have := @h.commit_inj
    have ha := update_eq_some ha
    have hb := update_eq_some hb
    grind
  · rcases update_eq_some hx with ⟨rfl, -⟩ | ⟨-, hx⟩
    · exact hmem.2 ht
    · exact hmem.2 (h.kept hx)
  · rw [hedge] at hpy hxp
    rcases update_eq_some hy with ⟨rfl, rfl⟩ | ⟨hyt, hy'⟩
    · rcases update_eq_some hp with ⟨-, rfl⟩ | ⟨-, hp'⟩
      · exact absurd hlt' (lt_irrefl _)
      · exact absurd (hlt hp') (by omega)
    rcases update_eq_some hp with ⟨rfl, rfl⟩ | ⟨hpt, hp'⟩
    · -- `p` commits now: an edge into it from a known transaction would make it a pivot
      have hxm : x ∉ s.tracker.txns := fun hxm => hpivot hxm (h.kept hy') hy' hxp hpy
      have hxn : H.commitTs x = none := by
        cases hxc : H.commitTs x with
        | none => rfl
        | some cx => exact absurd (h.kept hxc) hxm
      exact ⟨commitTs_commit_none.2 ⟨hxp.1, hxn⟩, fun hx => absurd (hmem.1 hx) hxm⟩
    · obtain ⟨h1, h2⟩ := h.safe hp' hy' hlt' hpy hxp
      refine ⟨commitTs_commit_none.2 ⟨?_, h1⟩, fun hx => hdd.2 (.inl (h2 (hmem.1 hx)))⟩
      intro hxt
      exact hdoom (hxt ▸ h2 (hxt ▸ ht))

end Step

end Graphus
