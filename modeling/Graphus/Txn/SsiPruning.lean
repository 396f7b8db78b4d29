import Graphus.Lib.Run
import Graphus.Txn.SsiRun

/-!
# Pruning the tracker

A run with prunes is compared with the same run without them. The pruned tracker knows fewer
committed transactions and represents the same history, and the two `Agree` on what can still
matter: which transactions are active, which of these are doomed, and their edges.

A retired transaction committed before every active one began, so it has no edge with an active
one. What a prune can lose is a flag of a committed transaction `p` that survives, by which a later
edge of an active transaction with `p` would doom it. `PruneSafe` excludes this: no active
transaction that is not doomed is concurrent with a survivor that had an edge with a retired one.

**Theorem (`Agrees.of_exec`).** A run whose prunes are safe agrees with the run without its prunes,
so `detectPivotAbort` answers the same in both (`Agrees.detectPivotAbort_eq`).
-/

namespace Graphus

open SsiTracker Dict History List

/-- Pruning hides nothing that can still matter: a committed transaction `p` that survives keeps its
edges with the transactions `y` that go, unless every active transaction `x` that is concurrent with
`p` is doomed. -/
def PruneSafe (s : SsiTracker) (lowWater : Option Nat) : Prop :=
  ∀ y ∈ s.settled lowWater, ∀ p ∈ s.txns.keys, ∀ x ∈ s.txns.keys,
    ∀ ep ∈ s.txns.lookup p, ∀ ex ∈ s.txns.lookup x, ∀ cp ∈ ep.commitTs,
    p ∉ s.settled lowWater → y ∈ ep.outEdges ∨ y ∈ ep.inEdges → ex.commitTs = none → x ∉ s.doomed →
    cp ≤ ex.beginTs

instance (s : SsiTracker) (lowWater : Option Nat) : Decidable (PruneSafe s lowWater) := by
  unfold PruneSafe
  infer_instance

/-- The condition on the steps of a run: every prune is safe. -/
def SafeStep (s : SsiState) : SsiOp → Prop
  | .prune lowWater => PruneSafe s.tracker lowWater
  | _ => True

instance (s : SsiState) (op : SsiOp) : Decidable (SafeStep s op) := by
  cases op <;> unfold SafeStep <;> infer_instance

/-- The operations of a run that are not prunes. -/
def SsiOp.unpruned : SsiOp → List SsiOp
  | .prune _ => []
  | op => [op]

/-- Every active transaction, except some, began at `c` or later, and so will every future one. -/
def Passed (H : History) (s : SsiState) (except : List Nat) (c : Nat) : Prop :=
  c ≤ s.horizon ∧ ∀ x b, x ∈ s.tracker.txns → x ∉ except → H.commitTs x = none →
    H.beginTs x = some b → c ≤ b

/-- The pruned state `s` and the unpruned `s0` after the history `H`. -/
structure Agrees (H : History) (s0 s : SsiState) : Prop where
  full : SsiInv H s0
  mirrors : Mirrors H s.tracker
  used : s.used = s0.used
  clock : s.clock = s0.clock
  lastCommit : s.lastCommit = s0.lastCommit
  /-- the unpruned run was never pruned -/
  start : s0.horizon = 0
  active : ∀ {x}, H.commitTs x = none → (x ∈ s.tracker.txns ↔ x ∈ s0.tracker.txns)
  doomed : ∀ {x}, H.commitTs x = none → (x ∈ s.tracker.doomed ↔ x ∈ s0.tracker.doomed)
  /-- a retired transaction committed before every active one and every future one began -/
  retired : ∀ {y c}, y ∉ s.tracker.txns → H.commitTs y = some c → Passed H s [] c
  /-- and so did every survivor it has an edge with, if doomed transactions do not count -/
  exposed : ∀ {p y cp cy}, p ∈ s.tracker.txns → H.commitTs p = some cp → y ∉ s.tracker.txns →
    H.commitTs y = some cy → H.Edge p y ∨ H.Edge y p → Passed H s s.tracker.doomed cp

variable {H H' : History} {s0 s s' : SsiState} {t : Nat}

lemma SsiState.begin_le_of_lowWaterOk {lowWater : Option Nat} (h : Mirrors H s.tracker)
    (hlow : s.lowWaterOk lowWater = true) {x b c : Nat} (hx : x ∈ s.tracker.txns)
    (hact : H.commitTs x = none) (hb : H.beginTs x = some b)
    (hc : settledBy lowWater c = true) : c ≤ b := by
  obtain ⟨e, he⟩ := Dict.mem_iff_lookup.1 hx
  rw [lowWaterOk, all_eq_true] at hlow
  have := hlow x (AList.mem_keys.1 hx)
  have hec : e.commitTs = none := (h.markers.committed he).symm.trans hact
  have heb : e.beginTs = b := Option.mem_unique (h.markers.begun he) hb
  rw [he, Option.all_some, hec] at this
  cases lowWater with
  | none => simp at this
  | some m =>
    simp only [settledBy, Option.all_some, decide_eq_true_eq] at hc
    simp at this
    omega

/-- A step that adds no active transaction but those that begin at the horizon or later. -/
lemma Passed.mono {except except' : List Nat} {c : Nat} (h : Passed H s except c)
    (hh : s.horizon ≤ s'.horizon) (hstep : ∀ x b, x ∈ s'.tracker.txns → x ∉ except' →
      H'.commitTs x = none → H'.beginTs x = some b → s.horizon ≤ b ∨
      x ∈ s.tracker.txns ∧ x ∉ except ∧ H.commitTs x = none ∧ H.beginTs x = some b) :
    Passed H' s' except' c := by
  refine ⟨h.1.trans hh, fun x b hx hxe hxa hxb => ?_⟩
  rcases hstep x b hx hxe hxa hxb with hb | ⟨hx, hxe, hxa, hxb⟩
  · exact h.1.trans hb
  · exact h.2 x b hx hxe hxa hxb

section Answers

variable {s : SsiTracker} {e : TxnConflict}

/-- The outbound partners of a pivot are concurrent with it, so it always closes. -/
lemma Mirrors.closes_eq (h : Mirrors H s) (he : s.txns.lookup t = some e) :
    s.closes t e = e.outConflict := by
  rw [Bool.eq_iff_iff, closes, any_eq_true, h.edges.outFlag he]
  refine ⟨fun h => ne_nil_of_mem h.choose_spec.1, fun hne => ?_⟩
  obtain ⟨w, hw⟩ := exists_mem_of_ne_nil _ hne
  obtain ⟨hws, hE⟩ := (h.edges.out he).1 hw
  obtain ⟨f, hf⟩ := mem_iff_lookup.1 hws
  refine ⟨w, hw, ?_⟩
  rw [hf, Option.any_some, Bool.or_eq_true, areConcurrent_iff h.markers]
  exact .inr ⟨mem_of_lookup he, hws, hE.2.2⟩

lemma Mirrors.mem_runningPivotsInto (h : Mirrors H s) (ht : t ∈ s.txns) {p : Nat} :
    p ∈ s.runningPivotsInto t ↔ p ∈ s.txns ∧ p ≠ t ∧ H.commitTs p = none ∧ H.Edge p t ∧
      ∃ x ∈ s.txns, H.Edge x p := by
  rw [runningPivotsInto, mem_filter, mem_keys_iff_lookup, ← mem_iff_lookup]
  refine and_congr_right fun hp => ?_
  obtain ⟨f, hf⟩ := mem_iff_lookup.1 hp
  have hin : f.inConflict = true ↔ ∃ x ∈ s.txns, H.Edge x p := h.pivotFlag_iff (a := .write) hf
  have hout : H.Edge p t → f.outConflict = true :=
    fun hE => (h.pivotFlag_iff (a := .read) hf).2 ⟨t, ht, hE⟩
  have hmem : t ∈ f.outEdges ↔ t ∈ s.txns ∧ H.Edge p t := h.edges.out hf
  simp only [hf, Option.any_some, Bool.and_eq_true, decide_eq_true_eq, contains_iff_mem, hmem, hin,
    h.markers.committed hf, Option.isNone_iff_eq_none]
  tauto

end Answers

namespace Agrees

lemma init : Agrees empty {} {} := by
  refine ⟨SsiInv.init, SsiInv.init.mirrors, rfl, rfl, rfl, rfl, fun _ => Iff.rfl,
    fun _ => Iff.rfl, ?_, ?_⟩ <;> simp [empty]

lemma known (h : Agrees H s0 s) {x : Nat} (hx : x ∈ s.tracker.txns) : x ∈ s0.tracker.txns := by
  cases hc : H.commitTs x with
  | none => exact (h.active hc).1 hx
  | some c => exact h.full.kept hc

/-- The same transactions are active. -/
lemma isActive_eq (h : Agrees H s0 s) : s.tracker.isActive t = s0.tracker.isActive t := by
  rw [Bool.eq_iff_iff, h.mirrors.isActive_iff, h.full.mirrors.isActive_iff]
  exact and_congr_left fun hact => h.active hact

section Active

variable (h : Agrees H s0 s) (ht : t ∈ s.tracker.txns) (hact : H.commitTs t = none)

include h ht hact

/-- What is concurrent with an active transaction is not retired. -/
lemma neighbour {w : Nat}
    (hw : w ∈ s0.tracker.txns) (hc : H.Concurrent w t) : w ∈ s.tracker.txns := by
  cases hwc : H.commitTs w with
  | none => exact (h.active hwc).2 hw
  | some c =>
    by_contra hws
    obtain ⟨e, he⟩ := mem_iff_lookup.1 ht
    have hb := h.mirrors.markers.begun he
    exact hc.1 ⟨c, _, hwc, hb, (h.retired hws hwc).2 t _ ht not_mem_nil hact hb⟩

/-- An active transaction has the same edges in both. -/
lemma edges_iff {a : Access} :
    (∃ y ∈ s.tracker.txns, H.Edge (a.reader t y) (a.writer t y)) ↔
      ∃ y ∈ s0.tracker.txns, H.Edge (a.reader t y) (a.writer t y) := by
  refine exists_congr fun y => and_congr_left fun hE => ⟨h.known, fun hy => ?_⟩
  exact h.neighbour ht hact hy (concurrent_reader_writer.1 hE.2.2)

/-- **Active transactions get the same answer.** -/
lemma detectPivotAbort_eq :
    s.tracker.detectPivotAbort t = s0.tracker.detectPivotAbort t := by
  have ht0 := h.known ht
  obtain ⟨e, he⟩ := mem_iff_lookup.1 ht
  obtain ⟨e0, he0⟩ := mem_iff_lookup.1 ht0
  have hflag : ∀ a, pivotFlag a e = pivotFlag a e0 := fun a => by
    rw [Bool.eq_iff_iff, h.mirrors.pivotFlag_iff he, h.edges_iff ht hact,
      h.full.mirrors.pivotFlag_iff he0]
  have hin : e.inConflict = e0.inConflict := hflag .write
  have hout : e.outConflict = e0.outConflict := hflag .read
  have hwrites : e.writes.isEmpty = e0.writes.isEmpty := by
    have hmem : ∀ k, k ∈ e.writes ↔ k ∈ e0.writes := fun k =>
      (h.mirrors.markers.did (a := .write) (m := .key k) he).trans
        (h.full.mirrors.markers.did he0).symm
    rw [Bool.eq_iff_iff, List.isEmpty_iff, List.isEmpty_iff]
    simp only [eq_nil_iff_forall_not_mem, hmem]
  have hpivots : (s.tracker.runningPivotsInto t).min? = (s0.tracker.runningPivotsInto t).min? := by
    have hmem : ∀ p, p ∈ s.tracker.runningPivotsInto t ↔ p ∈ s0.tracker.runningPivotsInto t := by
      intro p
      rw [h.mirrors.mem_runningPivotsInto ht, h.full.mirrors.mem_runningPivotsInto ht0]
      constructor
      · rintro ⟨hp, hne, hpa, hE, hin⟩
        exact ⟨h.known hp, hne, hpa, hE, (h.edges_iff (a := .write) hp hpa).1 hin⟩
      · rintro ⟨hp, hne, hpa, hE, hin⟩
        have hp' := (h.active hpa).2 hp
        exact ⟨hp', hne, hpa, hE, (h.edges_iff (a := .write) hp' hpa).2 hin⟩
    refine Option.ext fun p => ?_
    simp only [min?_eq_some_iff, hmem]
  simp only [detectPivotAbort, h.doomed hact, he, he0, h.mirrors.closes_eq he,
    h.full.mirrors.closes_eq he0, hin, hout, hwrites, hpivots]

/-! ## The steps -/

lemma record {a : Access} {m : Marker} :
    Agrees (H.record a t m) (s0.withTracker (s0.tracker.record a t m))
      (s.withTracker (s.tracker.record a t m)) := by
  have ht0 := h.known ht
  have hmem : ∀ {x}, x ∈ (s.tracker.record a t m).txns ↔ x ∈ s.tracker.txns :=
    mem_record h.mirrors.markers ht
  have hdoomed : ∀ {x}, x ∈ (s.tracker.record a t m).doomed ↔ _ :=
    mem_doomed_record h.mirrors ht hact
  refine { h with
      full := h.full.record ht0 hact
      mirrors := h.mirrors.record ht
      active hx := hmem.trans ((h.active hx).trans (mem_record h.full.mirrors.markers ht0).symm)
      doomed {x} hx := hdoomed.trans (.trans ?_ (mem_doomed_record h.full.mirrors ht0 hact).symm)
      retired hy hc := (h.retired (fun hy' => hy (hmem.2 hy')) hc).mono le_rfl
        fun x b hx he hxa hxb => .inr ⟨hmem.1 hx, he, hxa, hxb⟩
      exposed hp hpc hy hyc hE := (h.exposed (hmem.1 hp) hpc (fun hy' => hy (hmem.2 hy')) hyc
        (hE.imp (.of_record hact hpc hyc) (.of_record hact hyc hpc))).mono le_rfl
          fun x b hx he hxa hxb => .inr ⟨hmem.1 hx, fun hd => he (hdoomed.2 (.inl hd)), hxa, hxb⟩ }
  constructor
  · rintro (hd | ⟨rfl, o, ho, hne, hdid, hc, hoc, y, hy, hE⟩)
    · exact .inl ((h.doomed hx).1 hd)
    · exact .inr ⟨rfl, o, h.known ho, hne, hdid, hc, hoc, y, h.known hy, hE⟩
  · rintro (hd | ⟨rfl, o, ho, hne, hdid, hc, hoc, y, hy, hE⟩)
    · exact .inl ((h.doomed hx).2 hd)
    have ho' := h.neighbour ht hact ho hc
    by_cases hy' : y ∈ s.tracker.txns
    · exact .inr ⟨rfl, o, ho', hne, hdid, hc, hoc, y, hy', hE⟩
    -- the partner is retired: a transaction concurrent with `o` is doomed already
    refine .inl (by_contra fun hd => ?_)
    obtain ⟨co, hoc⟩ := Option.isSome_iff_exists.1 hoc
    obtain ⟨cy, hyc⟩ : ∃ c, H.commitTs y = some c :=
      Option.ne_none_iff_exists'.1 fun hyc => hy' ((h.active hyc).2 hy)
    obtain ⟨e, he⟩ := mem_iff_lookup.1 ht
    have hb := h.mirrors.markers.begun he
    have hE' : H.Edge o y ∨ H.Edge y o := by
      cases a with
      | read => exact .inl hE
      | write => exact .inr hE
    exact hc.1 ⟨co, _, hoc, hb, (h.exposed ho' hoc hy' hyc hE').2 _ _ ht hd hact hb⟩

lemma recordAll (f : List PredicateRead) :
    Agrees (f.foldl (fun H p => H.record .write t (.predicate p)) H)
      (s0.withTracker (s0.tracker.recordPredicateWrite t f))
      (s.withTracker (s.tracker.recordPredicateWrite t f)) := by
  induction f generalizing H s0 s with
  | nil => exact h
  | cons p f ih =>
    refine ih (h.record (a := .write) (m := .predicate p) ht hact) ?_ hact
    exact (mem_record h.mirrors.markers ht).2 ht

lemma commit {c : Nat}
    (hc : s0.clock < c) (hd : s0.tracker.detectPivotAbort t ≠ some t) (v : Option Nat) :
    Agrees (H.commit t c) (s0.commitWith v t c) (s.commitWith v t c) := by
  have hcom : ∀ {x}, (H.commit t c).commitTs x = none → H.commitTs x = none := fun hx =>
    (commitTs_commit_none.1 hx).2
  have hold : ∀ {x d}, x ≠ t → (H.commit t c).commitTs x = some d →
    H.commitTs x = some d := fun hne hx =>
    ((update_eq_some hx).resolve_left fun h => hne h.1).2
  have hbc : ∀ b ts, H.beginTs b = some ts → ts < c :=
    fun b ts hb => (h.full.begun_le hb).trans_lt hc
  have hedge : ∀ {a b}, (H.commit t c).Edge a b ↔ H.Edge a b := edge_commit hact hbc
  obtain ⟨hdm, hdt, hdd⟩ := h.mirrors.doomed v
  obtain ⟨-, -, hdd0⟩ := h.full.mirrors.doomed v
  have hmem : ∀ {x}, x ∈ (s.commitWith v t c).tracker.txns ↔ x ∈ s.tracker.txns :=
    SsiState.mem_commitWith h.mirrors
  have hgone : ∀ {y}, y ∉ (s.commitWith v t c).tracker.txns → y ∉ s.tracker.txns ∧ y ≠ t := by
    intro y hy
    refine ⟨fun hy' => hy (hmem.2 hy'), ?_⟩
    rintro rfl
    exact hy (hmem.2 ht)
  refine
    { full := h.full.commit (h.known ht) hact hc hd v
      mirrors := hdm.commit hact hbc (hdt ▸ ht)
      used := h.used
      clock := rfl
      lastCommit := rfl
      start := h.start
      active hx :=
        hmem.trans ((h.active (hcom hx)).trans (SsiState.mem_commitWith h.full.mirrors).symm)
      doomed {x} hx := hdd.trans (.trans ?_ hdd0.symm)
      retired hy hyc := (h.retired (hgone hy).1 (hold (hgone hy).2 hyc)).mono le_rfl
        fun x b hx he hxa hxb => .inr ⟨hmem.1 hx, he, hcom hxa, hxb⟩
      exposed {p y cp cy} hp hpc hy hyc hE := ?_ }
  · rw [h.doomed (hcom hx), h.isActive_eq]
  · rw [hedge, hedge] at hE
    obtain ⟨hy', hyt⟩ := hgone hy
    have hyc' := hold hyt hyc
    -- the committing transaction has no edge with a retired one
    have hpt : p ≠ t := by
      rintro rfl
      refine hy' (h.neighbour ht hact (h.full.kept hyc') ?_)
      rcases hE with hE | hE
      · exact hE.2.2.symm
      · exact hE.2.2
    exact (h.exposed (hmem.1 hp) (hold hpt hpc) hy' hyc' hE).mono le_rfl
      fun x b hx he hxa hxb => .inr ⟨hmem.1 hx, fun hd => he (hdd.2 (.inl hd)), hcom hxa, hxb⟩

end Active

section

variable (h : Agrees H s0 s)

include h

lemma register (ht : t ∉ s.used) {ts : Nat} (hts : s.horizon ≤ ts) :
    Agrees (H.register t ts)
      { s0 with
        tracker := s0.tracker.register t ts
        used := t :: s0.used
        clock := max s0.clock ts }
      { s with
        tracker := s.tracker.register t ts
        used := t :: s.used
        clock := max s.clock ts } := by
  have ht0 : t ∉ s0.used := h.used ▸ ht
  obtain ⟨hbeg, hn0⟩ := h.full.fresh ht0
  have hn : t ∉ s.tracker.txns := fun hm => hn0 (h.known hm)
  have hmem : ∀ {x}, x ∈ (s.tracker.register t ts).txns ↔ x = t ∨ x ∈ s.tracker.txns :=
    mem_register hn
  have hnew : ∀ {x b}, x ∈ (s.tracker.register t ts).txns → (H.register t ts).beginTs x = some b →
      s.horizon ≤ b ∨ x ∈ s.tracker.txns ∧ H.beginTs x = some b := by
    intro x b hx hb
    rcases update_eq_some hb with ⟨-, rfl⟩ | ⟨hne, hb⟩
    · exact .inl hts
    · exact .inr ⟨(hmem.1 hx).resolve_left hne, hb⟩
  have hedge : ∀ {a b}, (H.register t ts).Edge a b ↔ H.Edge a b := edge_register h.full.wf hbeg
  refine
    { full := h.full.register ht0
      mirrors := h.mirrors.register h.full.wf hbeg hn
      used := congrArg (t :: ·) h.used
      clock := congrArg (max · ts) h.clock
      lastCommit := h.lastCommit
      start := h.start
      active hx := hmem.trans ((or_congr_right (h.active hx)).trans (mem_register hn0).symm)
      doomed hx := ?_
      retired hy hc := (h.retired (fun hy' => hy (hmem.2 (.inr hy'))) hc).mono le_rfl
        fun x b hx he hxa hxb => (hnew hx hxb).imp_right fun ⟨hx, hb⟩ => ⟨hx, he, hxa, hb⟩
      exposed {p y cp cy} hp hpc hy hyc hE := ?_ }
  · rw [doomed_register hn, doomed_register hn0]
    exact h.doomed hx
  · rw [hedge, hedge] at hE
    have hpt : p ≠ t := by
      rintro rfl
      simpa [hbeg] using h.full.wf.commit hpc
    refine (h.exposed ((hmem.1 hp).resolve_left hpt) hpc (fun hy' => hy (hmem.2 (.inr hy'))) hyc
      hE).mono le_rfl fun x b hx he hxa hxb => (hnew hx hxb).imp_right fun ⟨hx, hb⟩ =>
        ⟨hx, ?_, hxa, hb⟩
    rwa [doomed_register hn] at he

lemma abort (hact : H.commitTs t = none) :
    Agrees H (s0.withTracker (s0.tracker.forget t)) (s.withTracker (s.tracker.forget t)) := by
  have hgone : ∀ {y c}, y ∉ (s.tracker.forget t).txns → H.commitTs y = some c →
    y ∉ s.tracker.txns := by
    intro y c hy hc hy'
    refine hy (mem_forget.2 ⟨hy', ?_⟩)
    rintro rfl
    exact absurd (hact.symm.trans hc) nofun
  exact { h with
      full := h.full.abort hact
      mirrors := h.mirrors.forget
      active hx := mem_forget.trans ((and_congr_left fun _ => h.active hx).trans mem_forget.symm)
      doomed hx :=
        mem_doomed_forget.trans ((and_congr_left fun _ => h.doomed hx).trans mem_doomed_forget.symm)
      retired hy hc := (h.retired (hgone hy hc) hc).mono le_rfl
        fun x b hx he hxa hxb => .inr ⟨(mem_forget.1 hx).1, he, hxa, hxb⟩
      exposed hp hpc hy hyc hE :=
        (h.exposed (mem_forget.1 hp).1 hpc (hgone hy hyc) hyc hE).mono le_rfl
        fun x b hx he hxa hxb => .inr ⟨(mem_forget.1 hx).1,
          fun hd => he (mem_doomed_forget.2 ⟨hd, (mem_forget.1 hx).2⟩), hxa, hxb⟩ }

/-- **A safe prune keeps the agreement.** -/
lemma prune {lowWater : Option Nat} (hlow : s.lowWaterOk lowWater = true)
    (hsafe : PruneSafe s.tracker lowWater) : Agrees H s0 { s with
      tracker := (s.tracker.pruneCommitted lowWater).1
      horizon := s.lastCommit } := by
  have hset : ∀ {x}, x ∈ s.tracker.settled lowWater ↔ x ∈ s.tracker.txns ∧
      ∃ c, H.commitTs x = some c ∧ settledBy lowWater c = true := mem_settled h.mirrors.markers
  have hmem : ∀ {x}, x ∈ (s.tracker.pruneCommitted lowWater).1.txns ↔
      x ∈ s.tracker.txns ∧ x ∉ s.tracker.settled lowWater := mem_foldl_forget
  have hdoom : ∀ {x}, x ∈ (s.tracker.pruneCommitted lowWater).1.doomed ↔
      x ∈ s.tracker.doomed ∧ x ∉ s.tracker.settled lowWater := mem_doomed_foldl_forget
  have hactive : ∀ {x}, H.commitTs x = none → x ∉ s.tracker.settled lowWater := by
    intro x hx hxs
    obtain ⟨-, c, hc, -⟩ := hset.1 hxs
    exact absurd (hx.symm.trans hc) nofun
  have hgone : ∀ {y}, y ∉ (s.tracker.pruneCommitted lowWater).1.txns → y ∈ s.tracker.txns →
      y ∈ s.tracker.settled lowWater := fun hy hy' => by_contra fun hys => hy (hmem.2 ⟨hy', hys⟩)
  have hle : ∀ {x c}, H.commitTs x = some c → c ≤ s.lastCommit := fun hx => by
    rw [h.lastCommit]
    exact h.full.committed_le hx
  refine { h with
      mirrors := h.mirrors.foldl_forget
      active hx := hmem.trans ((and_iff_left (hactive hx)).trans (h.active hx))
      doomed hx := hdoom.trans ((and_iff_left (hactive hx)).trans (h.doomed hx))
      retired {y c} hy hc := ⟨hle hc, fun x b hx he hxa hxb => ?_⟩
      exposed {p y cp cy} hp hpc hy hyc hE := ⟨hle hpc, fun x b hx he hxa hxb => ?_⟩ }
  · by_cases hy' : y ∈ s.tracker.txns
    · obtain ⟨-, c', hc', hs⟩ := hset.1 (hgone hy hy')
      obtain rfl : c = c' := Option.mem_unique hc hc'
      exact SsiState.begin_le_of_lowWaterOk h.mirrors hlow (hmem.1 hx).1 hxa hxb hs
    · exact (h.retired hy' hc).2 x b (hmem.1 hx).1 he hxa hxb
  · obtain ⟨hp, hps⟩ := hmem.1 hp
    have hxd : x ∉ s.tracker.doomed := fun hd => he (hdoom.2 ⟨hd, hactive hxa⟩)
    by_cases hy' : y ∈ s.tracker.txns
    · obtain ⟨ep, hep⟩ := mem_iff_lookup.1 hp
      obtain ⟨ex, hex⟩ := mem_iff_lookup.1 (hmem.1 hx).1
      have hexb : ex.beginTs = b := Option.mem_unique (h.mirrors.markers.begun hex) hxb
      rw [← hexb]
      exact hsafe y (hgone hy hy') p (mem_keys_iff_lookup.2 ⟨ep, hep⟩) x
        (mem_keys_iff_lookup.2 ⟨ex, hex⟩) ep hep ex hex cp
        ((h.mirrors.markers.committed hep).symm.trans hpc) hps
        (hE.imp (fun hE => (h.mirrors.edges.out hep).2 ⟨hy', hE⟩)
          fun hE => (h.mirrors.edges.into hep).2 ⟨hy', hE⟩)
        ((h.mirrors.markers.committed hex).symm.trans hxa) hxd
    · exact (h.exposed hp hpc hy' hyc hE).2 x b (hmem.1 hx).1 hxd hxa hxb

/-- **A step of the pruned run is one of the unpruned run**, or a prune. -/
lemma step {op : SsiOp} (hs : s.step op = some s') (hsafe : SafeStep s op) :
    ∃ s0', Run.exec SsiState.step s0 op.unpruned = some s0' ∧ Agrees (H.apply op) s0' s' := by
  -- the guard of an active transaction holds in both
  have hguard : ∀ {t}, s.tracker.isActive t = true →
      t ∈ s.tracker.txns ∧ H.commitTs t = none ∧ s0.tracker.isActive t = true := fun hact =>
    ⟨(h.mirrors.isActive_iff.1 hact).1, (h.mirrors.isActive_iff.1 hact).2, h.isActive_eq ▸ hact⟩
  have hone : ∀ {op s0'}, s0.step op = some s0' → Run.exec SsiState.step s0 [op] = some s0' :=
    fun hs => by rw [Run.exec_cons, hs]; rfl
  cases op with
  | register t ts =>
    obtain ⟨hg, hs⟩ := Option.ite_none_left_eq_some.1 hs
    cases hs
    rw [not_or, not_lt] at hg
    refine ⟨_, hone (if_neg ?_), h.register hg.1 hg.2⟩
    rw [not_or, not_lt, ← h.used]
    exact ⟨hg.1, h.start ▸ Nat.zero_le ts⟩
  | read | write | predicateRead =>
    obtain ⟨hact, rfl⟩ := Run.guarded hs
    obtain ⟨ht, ha, hact0⟩ := hguard hact
    exact ⟨_, hone (if_pos hact0), h.record ht ha⟩
  | predicateWrite t f =>
    obtain ⟨hact, rfl⟩ := Run.guarded hs
    obtain ⟨ht, ha, hact0⟩ := hguard hact
    exact ⟨_, hone (if_pos hact0), h.recordAll ht ha f⟩
  | commit t c =>
    obtain ⟨⟨hact, hc, hd⟩, rfl⟩ := Run.guarded hs
    obtain ⟨ht, ha, hact0⟩ := hguard hact
    rw [h.detectPivotAbort_eq ht ha] at hd ⊢
    rw [h.clock] at hc
    exact ⟨_, hone (if_pos ⟨hact0, hc, hd⟩), h.commit ht ha hc hd _⟩
  | abort t =>
    obtain ⟨hact, rfl⟩ := Run.guarded hs
    obtain ⟨-, ha, hact0⟩ := hguard hact
    exact ⟨_, hone (if_pos hact0), h.abort ha⟩
  | prune lowWater =>
    obtain ⟨hlow, rfl⟩ := Run.guarded hs
    exact ⟨s0, rfl, h.prune hlow hsafe⟩

end

/-- **A run whose prunes are safe agrees with the run without them.** -/
theorem of_exec {tr : List SsiOp} (hsafe : Run.Along SsiState.step SafeStep {} tr)
    (hrun : Run.exec SsiState.step {} tr = some s) :
    ∃ s0, Run.exec SsiState.step {} (tr.flatMap SsiOp.unpruned) = some s0 ∧
      Agrees (historyOf tr) s0 s :=
  Run.exec_simulates (fun h hC hs => step h hs hC) init hsafe hrun

end Agrees

end Graphus
