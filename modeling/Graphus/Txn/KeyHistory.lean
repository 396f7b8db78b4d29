import Graphus.Lib.MultiVersion
import Graphus.Txn.Chains

/-!
# One key: its chain represents its history

`KeyInv n rel P c h` relates the version chain `c` of a key to its history `h` of committed values.
`n` is the greatest timestamp issued, `rel` says which snapshot timestamps can still be read at,
and `P u` is the last operation on the key by the active transaction `u`, if it made one: a write
of a payload or a delete (`none`). At every relevant timestamp the chain reads as the history does.

There is one lemma per operation of the store: a write, a delete, a commit, an abort and a
garbage-collection filter, and `KeyInv.mono` for what happens elsewhere.
-/

namespace Graphus

open MemVersionedStore MultiVersion List Version
open Function (update_idem update_of_ne update_self)
open VersionStamp (committedBy)

/-- The last operation on a key of each active transaction. -/
abbrev PendingOps := Nat → Option (Option Bytes)

/-- A stamp by a commit at most `n` or by a transaction with a pending operation. -/
def StampOk (n : Nat) (P : PendingOps) : VersionStamp → Prop
  | .none => True
  | .committed t => 0 < t ∧ t ≤ n
  | .inFlight u => P u ≠ none

/-- Was the version created by a committed transaction? -/
def Version.isCommitted (v : Version) : Bool :=
  match v.xmin with
  | .committed _ => true
  | _ => false

/-- The version `v` that carries the newest committed value, written or deleted at `t`. -/
def Carries (t : Nat) (val : Option Bytes) (v : Version) : Prop :=
  match val with
  | some _ => v.xmin = .committed t ∧ ∀ e, v.xmax ≠ .committed e
  | none => v.xmax = .committed t

structure KeyInv (n : Nat) (rel : Nat → Prop) (P : PendingOps) (c : List Version)
    (h : List (Nat × Option Bytes)) : Prop where
  created : ∀ {v}, v ∈ c → v.xmin ≠ .none
  xmin : ∀ {v}, v ∈ c → StampOk n P v.xmin
  xmax : ∀ {v}, v ∈ c → StampOk n P v.xmax
  /-- only the head can be live -/
  tail : ∀ {w}, w ∈ c.tail → w.xmax ≠ .none
  /-- and only the first committed version can be live or on the way out -/
  base : ∀ {w}, w ∈ (c.filter isCommitted).tail → ∃ e, w.xmax = .committed e
  own : ∀ {v u}, v ∈ c → v.xmin = .inFlight u → v.xmax = .none ∨ v.xmax = .inFlight u
  single : ∀ {u w}, P u ≠ none → P w ≠ none → u = w
  pendWrite : ∀ {u p}, P u = some (some p) → ∃ rest, c = ⟨.inFlight u, .none, p⟩ :: rest
  pendDelete : ∀ {u}, P u = some none → ∃ v rest, c = v :: rest ∧ v.xmax = .inFlight u
  le : ∀ {e}, e ∈ h → e.1 ≤ n
  desc : Descending h
  reads : ∀ {s}, rel s → committedRead c s = valueAt h s
  /-- a commit some relevant snapshot does not see is the one the first committed version carries -/
  newest : ∀ {t val h' s}, h = (t, val) :: h' → rel s → s < t →
    ∃ v rest, c.filter isCommitted = v :: rest ∧ Carries t val v

section KeyInv

variable {n n' : Nat} {rel rel' : Nat → Prop} {P P' : PendingOps} {c : List Version}
  {h : List (Nat × Option Bytes)} {u : Nat} {val : Option Bytes} {stamp : VersionStamp}
  {v head : Version} {rest : List Version}

lemma StampOk.mono (hs : StampOk n P stamp) (hn : n ≤ n')
    (hP : ∀ u, P u ≠ none → P' u ≠ none) : StampOk n' P' stamp := by
  cases stamp with
  | none => trivial
  | committed t => exact ⟨hs.1, le_trans hs.2 hn⟩
  | inFlight u => exact hP u hs

lemma KeyInv.init : KeyInv n rel (fun _ => none) [] [] := by
  refine ⟨?_, ?_, ?_, ?_, ?_, ?_, ?_, ?_, ?_, ?_, List.Pairwise.nil, ?_, ?_⟩ <;>
    simp [committedRead, valueAt]

section

variable (hk : KeyInv n rel P c h)

include hk

/-- Steps that leave the key alone: time goes on, and fewer snapshots stay relevant. -/
lemma KeyInv.mono (hn : n ≤ n') (hrel : ∀ s, rel' s → rel s) (hP : ∀ u, P' u = P u) :
    KeyInv n' rel' P' c h := by
  obtain rfl : P' = P := funext hP
  exact { hk with
      xmin hv := (hk.xmin hv).mono hn fun _ h => h
      xmax hv := (hk.xmax hv).mono hn fun _ h => h
      le he := le_trans (hk.le he) hn
      reads hs := hk.reads (hrel _ hs)
      newest hh hs := hk.newest hh (hrel _ hs) }

/-- Without a pending operation on the key the transaction has no stamp in its chain. -/
lemma KeyInv.no_stamp (hu : P u = none) (hv : v ∈ c) :
    v.xmin ≠ .inFlight u ∧ v.xmax ≠ .inFlight u := by
  refine ⟨fun h => ?_, fun h => ?_⟩
  · have := hk.xmin hv
    rw [h] at this
    exact this hu
  · have := hk.xmax hv
    rw [h] at this
    exact this hu

lemma KeyInv.commit_of_not_pending (hu : P u = none) (ts : Nat) :
    c.map (commitVersion u ts) = c := by
  refine (map_congr_left fun v hv => ?_).trans (map_id c)
  obtain ⟨h1, h2⟩ := hk.no_stamp hu hv
  simp [commitVersion, stampCommitted, h1, h2]

lemma KeyInv.abort_of_not_pending (hu : P u = none) : abortChain u c = c := by
  unfold abortChain
  rw [filter_eq_self.2 fun v hv => by simpa using (hk.no_stamp hu hv).1]
  refine (map_congr_left fun v hv => ?_).trans (map_id c)
  rw [if_neg (hk.no_stamp hu hv).2]
  rfl

lemma supersede_xmax_ne (hv : v ∈ supersede u c) : v.xmax ≠ .none := by
  cases c with
  | nil => cases hv
  | cons head rest =>
    rcases mem_cons.1 hv with hv | hv
    · split at hv
      · rw [hv]
        nofun
      · rwa [hv]
    · exact hk.tail hv

end

/-! ## Expiring the live head -/

lemma carries_expire {t : Nat} (hx : head.xmax = .none) (hc : Carries t val head) :
    Carries t val { head with xmax := .inFlight u } := by
  cases val with
  | some p => exact ⟨hc.1, nofun⟩
  | none =>
    rw [Carries, hx] at hc
    cases hc

/-- Expiring the live head changes the first committed version at most in its expiry. -/
lemma filter_expire (head : Version) (rest : List Version) :
    (({ head with xmax := .inFlight u } :: rest).filter isCommitted).tail =
      ((head :: rest).filter isCommitted).tail := by
  have hcom : isCommitted { head with xmax := .inFlight u } = head.isCommitted := rfl
  rw [filter_cons, filter_cons, hcom]
  split <;> rfl

lemma newest_expire {t : Nat} (hx : head.xmax = .none)
    (hc : ∃ v r, (head :: rest).filter isCommitted = v :: r ∧ Carries t val v) :
    ∃ v r, ({ head with xmax := .inFlight u } :: rest).filter isCommitted = v :: r ∧
    Carries t val v := by
  obtain ⟨v, r, hf, hv⟩ := hc
  have hcom : isCommitted { head with xmax := .inFlight u } = head.isCommitted := rfl
  rw [filter_cons] at hf
  rw [filter_cons]
  split at hf
  · rw [if_pos ‹_›]
    cases hf
    exact ⟨_, _, rfl, carries_expire hx hv⟩
  · rw [if_neg ‹_›]
    exact ⟨v, r, hf, hv⟩

lemma update_ne_none (hu : ∀ w, P w ≠ none → w = u) {w : Nat}
    (hw : Function.update P u (some val) w ≠ none) : w = u := by
  by_contra hne
  rw [update_of_ne hne] at hw
  exact hne (hu w hw)

lemma StampOk.update (hs : StampOk n P stamp) :
    StampOk n (Function.update P u (some val)) stamp := by
  refine hs.mono (Nat.le_refl n) fun w hw => ?_
  by_cases h : w = u
  · rw [h, update_self]
    nofun
  · rwa [update_of_ne h]

lemma StampOk.self : StampOk n (Function.update P u (some val)) (.inFlight u) := by
  show Function.update P u (some val) u ≠ none
  rw [update_self]
  nofun

/-- A delete by the only transaction with an operation on the key. -/
lemma KeyInv.expire (hk : KeyInv n rel P (head :: rest) h) (hx : head.xmax = .none)
    (hu : ∀ w, P w ≠ none → w = u) :
    KeyInv n rel (Function.update P u (some none))
    ({ head with xmax := .inFlight u } :: rest) h where
  created hv := by
    rcases mem_cons.1 hv with rfl | hv
    · exact hk.created (v := head) mem_cons_self
    · exact hk.created (mem_cons_of_mem _ hv)
  xmin hv := by
    rcases mem_cons.1 hv with rfl | hv
    · exact (hk.xmin (v := head) mem_cons_self).update
    · exact (hk.xmin (mem_cons_of_mem _ hv)).update
  xmax hv := by
    rcases mem_cons.1 hv with rfl | hv
    · exact .self
    · exact (hk.xmax (mem_cons_of_mem _ hv)).update
  tail hw := hk.tail hw
  base hw := hk.base (filter_expire head rest ▸ hw)
  own hv hw := by
    rcases mem_cons.1 hv with rfl | hv
    · have hP := hk.xmin (v := head) mem_cons_self
      rw [show head.xmin = _ from hw] at hP
      exact .inr (by rw [hu _ hP])
    · exact hk.own (mem_cons_of_mem _ hv) hw
  single h1 h2 := (update_ne_none hu h1).trans (update_ne_none hu h2).symm
  pendWrite hw := by
    have := update_ne_none hu (by rw [hw]; nofun)
    rw [this, update_self] at hw
    cases hw
  pendDelete hw := by
    obtain rfl := update_ne_none hu (by rw [hw]; nofun)
    exact ⟨_, _, rfl, rfl⟩
  le := hk.le
  desc := hk.desc
  reads hs := (committedRead_expire hx).trans (hk.reads hs)
  newest hh hs hlt := newest_expire hx (hk.newest hh hs hlt)

/-- Adding an in-flight version in front of a chain whose head is not live. -/
lemma KeyInv.push {p : Bytes} (hk : KeyInv n rel P c h) (hu : ∀ w, P w ≠ none → w = u)
    (hx : ∀ v ∈ c, v.xmax ≠ .none) :
    KeyInv n rel (Function.update P u (some (some p))) (⟨.inFlight u, .none, p⟩ :: c) h where
  created hv := by
    rcases mem_cons.1 hv with rfl | hv
    · nofun
    · exact hk.created hv
  xmin hv := by
    rcases mem_cons.1 hv with rfl | hv
    · exact .self
    · exact (hk.xmin hv).update
  xmax hv := by
    rcases mem_cons.1 hv with rfl | hv
    · trivial
    · exact (hk.xmax hv).update
  tail hw := hx _ hw
  base hw := hk.base hw
  own hv hw := by
    rcases mem_cons.1 hv with rfl | hv
    · exact .inl rfl
    · exact hk.own hv hw
  single h1 h2 := (update_ne_none hu h1).trans (update_ne_none hu h2).symm
  pendWrite hw := by
    obtain rfl := update_ne_none hu (by rw [hw]; nofun)
    rw [update_self] at hw
    cases hw
    exact ⟨c, rfl⟩
  pendDelete hw := by
    have := update_ne_none hu (by rw [hw]; nofun)
    rw [this, update_self] at hw
    cases hw
  le := hk.le
  desc := hk.desc
  reads hs := (committedRead_cons_of_inFlight rfl).trans (hk.reads hs)
  newest hh hs hlt := hk.newest hh hs hlt

/-- A write by the only transaction with an operation on the key: the live head, if there is one,
is expired and the new version goes in front. -/
lemma KeyInv.create {p : Bytes} (hk : KeyInv n rel P c h) (hu : ∀ w, P w ≠ none → w = u) :
    KeyInv n rel (Function.update P u (some (some p)))
    (⟨.inFlight u, .none, p⟩ :: supersede u c) h := by
  have hx : ∀ v ∈ supersede u c, v.xmax ≠ .none := fun v hv => supersede_xmax_ne hk hv
  cases c with
  | nil => exact hk.push hu hx
  | cons head rest =>
    by_cases hlive : head.xmax = .none
    · rw [supersede, if_pos hlive] at hx ⊢
      have := (hk.expire hlive hu).push (p := p) (fun w hw => update_ne_none hu hw) hx
      rwa [update_idem] at this
    · rw [supersede, if_neg hlive] at hx ⊢
      exact hk.push hu hx

/-! ## Committing -/

lemma stampCommitted_ne_none {ts : Nat} (hs : stamp ≠ .none) :
    stampCommitted u ts stamp ≠ .none := by
  unfold stampCommitted
  split
  · nofun
  · exact hs

/-- Once the only writer of the key has committed, every stamp of the chain is a commit. -/
lemma StampOk.commit {ts : Nat} (hs : StampOk n P stamp) (hts : n < ts)
    (hu : ∀ w, P w ≠ none → w = u) :
    stamp = .none ∨ ∃ e, stampCommitted u ts stamp = .committed e ∧ 0 < e ∧ e ≤ ts := by
  cases stamp with
  | none => exact .inl rfl
  | committed t => exact .inr ⟨t, if_neg nofun, hs.1, le_trans hs.2 (le_of_lt hts)⟩
  | inFlight w =>
    obtain rfl := hu w hs
    exact .inr ⟨ts, if_pos rfl, lt_of_le_of_lt (Nat.zero_le n) hts, Nat.le_refl ts⟩

section Commit

variable {ts : Nat} (hk : KeyInv n rel P c h) (hts : n < ts) (hu : ∀ w, P w ≠ none → w = u)

include hk hts hu

lemma KeyInv.commit_xmin (hv : v ∈ c) : ∃ e, (commitVersion u ts v).xmin = .committed e ∧
    0 < e ∧ e ≤ ts :=
  ((hk.xmin hv).commit hts hu).resolve_left (hk.created hv)

lemma KeyInv.commit_xmax_tail (hv : v ∈ c.tail) :
    ∃ e, (commitVersion u ts v).xmax = .committed e ∧ 0 < e ∧ e ≤ ts :=
  ((hk.xmax (mem_of_mem_tail hv)).commit hts hu).resolve_left (hk.tail hv)

lemma KeyInv.filter_commit :
    (c.map (commitVersion u ts)).filter isCommitted = c.map (commitVersion u ts) := by
  refine filter_eq_self.2 fun v' hv' => ?_
  obtain ⟨v, hv, rfl⟩ := mem_map.1 hv'
  obtain ⟨e, he, -⟩ := hk.commit_xmin hts hu hv
  rw [isCommitted, he]

/-- From its timestamp on the commit is what the chain reads as. -/
lemma KeyInv.committedRead_commit (hval : P u = some val) {s : Nat}
    (hs : ts ≤ s) : committedRead (c.map (commitVersion u ts)) s = val := by
  cases val with
  | some p =>
    obtain ⟨rest, rfl⟩ := hk.pendWrite hval
    simp [committedRead, commitVersion, stampCommitted, visibleAt, committedBy, hs]
  | none =>
    obtain ⟨v, rest, rfl, hv⟩ := hk.pendDelete hval
    refine committedRead_eq_none fun w' hw' => ?_
    obtain ⟨w, hw, rfl⟩ := mem_map.1 hw'
    rcases mem_cons.1 hw with rfl | hw
    · simp [commitVersion, stampCommitted, hv, committedBy, hs]
    · obtain ⟨e, he, -, hle⟩ := hk.commit_xmax_tail hts hu hw
      simp [he, committedBy, le_trans hle hs]

omit hts hu in
/-- After the commit the head of the chain carries it. -/
lemma KeyInv.carries_commit (hval : P u = some val) :
    ∃ v rest, c.map (commitVersion u ts) = v :: rest ∧ Carries ts val v := by
  cases val with
  | some p =>
    obtain ⟨rest, rfl⟩ := hk.pendWrite hval
    exact ⟨_, _, rfl, if_pos rfl, nofun⟩
  | none =>
    obtain ⟨v, rest, rfl, hv⟩ := hk.pendDelete hval
    exact ⟨_, _, rfl, if_pos hv⟩

lemma KeyInv.commit (hval : P u = some val) (hrel : ∀ s, rel' s → rel s) :
    KeyInv ts rel' (fun _ => none) (c.map (commitVersion u ts)) ((ts, val) :: h) where
  created hv' := by
    obtain ⟨v, hv, rfl⟩ := mem_map.1 hv'
    exact stampCommitted_ne_none (hk.created hv)
  xmin hv' := by
    obtain ⟨v, hv, rfl⟩ := mem_map.1 hv'
    obtain ⟨e, he, hpos, hle⟩ := hk.commit_xmin hts hu hv
    rw [he]
    exact ⟨hpos, hle⟩
  xmax hv' := by
    obtain ⟨v, hv, rfl⟩ := mem_map.1 hv'
    rcases (hk.xmax hv).commit hts hu with hx | ⟨e, he, hpos, hle⟩
    · simp [commitVersion, hx, stampCommitted, StampOk]
    · rw [commitVersion, he]
      exact ⟨hpos, hle⟩
  tail hw' := by
    rw [← map_tail] at hw'
    obtain ⟨w, hw, rfl⟩ := mem_map.1 hw'
    exact stampCommitted_ne_none (hk.tail hw)
  base hw' := by
    rw [hk.filter_commit hts hu, ← map_tail] at hw'
    obtain ⟨w, hw, rfl⟩ := mem_map.1 hw'
    obtain ⟨e, he, -⟩ := hk.commit_xmax_tail hts hu hw
    exact ⟨e, he⟩
  own hv' hw := by
    obtain ⟨v, hv, rfl⟩ := mem_map.1 hv'
    obtain ⟨e, he, -⟩ := hk.commit_xmin hts hu hv
    rw [he] at hw
    cases hw
  single h1 := absurd rfl h1
  pendWrite := nofun
  pendDelete := nofun
  le he := by
    rcases mem_cons.1 he with rfl | he
    · exact Nat.le_refl ts
    · exact le_trans (hk.le he) (le_of_lt hts)
  desc := hk.desc.cons fun e he => lt_of_le_of_lt (hk.le he) hts
  reads {s} hs := by
    by_cases hlt : s < ts
    · rw [committedRead_commit_of_lt hlt, valueAt_cons_of_lt hlt]
      exact hk.reads (hrel s hs)
    · have hle : ts ≤ s := not_lt.1 hlt
      rw [valueAt_cons_of_le hle, hk.committedRead_commit hts hu hval hle]
  newest hh _ _ := by
    cases hh
    rw [hk.filter_commit hts hu]
    exact hk.carries_commit hval

end Commit

/-! ## Aborting -/

/-- Undo the expiry of `u`, if the version carries it. -/
def revive (u : Nat) (v : Version) : Version :=
  if v.xmax = .inFlight u then { v with xmax := .none } else v

lemma revive_xmin (v : Version) : (revive u v).xmin = v.xmin := by
  unfold revive
  split <;> rfl

lemma revive_of_committed {e : Nat} (hv : v.xmax = .committed e) : revive u v = v := by
  rw [revive, hv]
  rfl

/-- A stamp that is not of the only writer. -/
lemma StampOk.settled (hs : StampOk n P stamp) (hu : ∀ w, P w ≠ none → w = u)
    (hne : stamp ≠ .inFlight u) : StampOk n (fun _ => none) stamp := by
  cases stamp with
  | none => trivial
  | committed t => exact hs
  | inFlight w => exact absurd (by rw [hu w hs]) hne

section Abort

variable (hk : KeyInv n rel P c h) (hu : ∀ w, P w ≠ none → w = u)

include hk hu

/-- Once the only writer of the key has aborted, its committed versions remain. -/
lemma KeyInv.abortChain_eq : abortChain u c = (c.filter isCommitted).map (revive u) := by
  have hfilter : (c.filter fun v => v.xmin ≠ .inFlight u) = c.filter isCommitted := by
    refine filter_congr fun v hv => ?_
    have hne := hk.created hv
    have hok := hk.xmin hv
    cases hx : v.xmin with
    | none => exact absurd hx hne
    | committed t => simp [isCommitted, hx]
    | inFlight w =>
      rw [hx] at hok
      simp [isCommitted, hx, hu w hok]
  rw [abortChain, hfilter]
  rfl

lemma KeyInv.mem_abortChain {v' : Version} (hv' : v' ∈ abortChain u c) :
    ∃ v ∈ c, v' = revive u v ∧ v.isCommitted = true := by
  rw [hk.abortChain_eq hu] at hv'
  obtain ⟨v, hv, rfl⟩ := mem_map.1 hv'
  exact ⟨v, (mem_filter.1 hv).1, rfl, (mem_filter.1 hv).2⟩

/-- What remains is committed, and only its head is touched. -/
lemma KeyInv.filter_abortChain : (abortChain u c).filter isCommitted = abortChain u c := by
  refine filter_eq_self.2 fun v' hv' => ?_
  obtain ⟨v, -, rfl, hv⟩ := hk.mem_abortChain hu hv'
  rwa [isCommitted, revive_xmin]

lemma KeyInv.mem_tail_abortChain {w : Version} (hw : w ∈ (abortChain u c).tail) :
    ∃ e, w.xmax = .committed e := by
  rw [hk.abortChain_eq hu, ← map_tail] at hw
  obtain ⟨v, hv, rfl⟩ := mem_map.1 hw
  obtain ⟨e, he⟩ := hk.base hv
  exact ⟨e, by rw [revive_of_committed he, he]⟩

lemma KeyInv.abort (hrel : ∀ s, rel' s → rel s) :
    KeyInv n rel' (fun _ => none) (abortChain u c) h where
  created hv' := by
    obtain ⟨v, hv, rfl, -⟩ := hk.mem_abortChain hu hv'
    rw [revive_xmin]
    exact hk.created hv
  xmin hv' := by
    obtain ⟨v, hv, rfl, hc⟩ := hk.mem_abortChain hu hv'
    rw [revive_xmin]
    exact (hk.xmin hv).settled hu fun hx => by simp [isCommitted, hx] at hc
  xmax hv' := by
    obtain ⟨v, hv, rfl, -⟩ := hk.mem_abortChain hu hv'
    unfold revive
    split
    · trivial
    · exact (hk.xmax hv).settled hu ‹_›
  tail hw := by
    obtain ⟨e, he⟩ := hk.mem_tail_abortChain hu hw
    rw [he]
    nofun
  base hw := by
    rw [hk.filter_abortChain hu] at hw
    exact hk.mem_tail_abortChain hu hw
  own hv' hw := by
    obtain ⟨v, -, rfl, hc⟩ := hk.mem_abortChain hu hv'
    rw [revive_xmin] at hw
    simp [isCommitted, hw] at hc
  single h1 := absurd rfl h1
  pendWrite := nofun
  pendDelete := nofun
  le := hk.le
  desc := hk.desc
  reads hs := committedRead_abortChain.trans (hk.reads (hrel _ hs))
  newest hh hs hlt := by
    obtain ⟨v, rest, hf, hcar⟩ := hk.newest hh (hrel _ hs) hlt
    rw [hk.filter_abortChain hu, hk.abortChain_eq hu, hf]
    refine ⟨revive u v, rest.map (revive u), rfl, ?_⟩
    rename_i t val _ _
    cases val with
    | none => rwa [revive_of_committed hcar]
    | some p =>
      refine ⟨by rw [revive_xmin, hcar.1], fun e he => ?_⟩
      unfold revive at he
      split at he
      · cases he
      · exact hcar.2 e he

end Abort

/-! ## Collecting garbage -/

/-- A filter that removes only versions expired for every relevant snapshot. -/
lemma KeyInv.collect {keep : Version → Bool} (hk : KeyInv n rel P c h)
    (hkeep : ∀ v ∈ c, keep v = false → ∃ e, v.xmax = .committed e ∧ ∀ s, rel s → e ≤ s) :
    KeyInv n rel P (c.filter keep) h := by
  have hsub : ((c.filter keep).filter isCommitted).Sublist (c.filter isCommitted) :=
    filter_sublist.filter _
  have hhead : ∀ {v rest}, c = v :: rest → (∀ e, v.xmax ≠ .committed e) →
    c.filter keep = v :: rest.filter keep := by
    rintro v rest rfl hx
    refine filter_cons_of_pos ?_
    by_contra hfalse
    obtain ⟨e, he, -⟩ := hkeep v mem_cons_self (by simpa using hfalse)
    exact hx e he
  exact { hk with
      created hv := hk.created (mem_of_mem_filter hv)
      xmin hv := hk.xmin (mem_of_mem_filter hv)
      xmax hv := hk.xmax (mem_of_mem_filter hv)
      tail hw := hk.tail (filter_sublist.tail.subset hw)
      base hw := hk.base (hsub.tail.subset hw)
      own hv := hk.own (mem_of_mem_filter hv)
      pendWrite hw := by
        obtain ⟨rest, hc⟩ := hk.pendWrite hw
        exact ⟨_, hhead hc nofun⟩
      pendDelete hw := by
        obtain ⟨v, rest, hc, hx⟩ := hk.pendDelete hw
        exact ⟨v, _, hhead hc (by rw [hx]; nofun), hx⟩
      reads {s} hs := by
        refine (congrArg _ (find?_filter_of_unseen fun v hv hfalse => ?_)).trans (hk.reads hs)
        obtain ⟨e, he, hle⟩ := hkeep v hv hfalse
        simp [visibleAt, he, committedBy, hle s hs]
      newest {t val _ s} hh hs hlt := by
        obtain ⟨v, rest, hf, hcar⟩ := hk.newest hh hs hlt
        have hv : v ∈ c := mem_of_mem_filter (hf ▸ mem_cons_self)
        have hkept : keep v = true := by
          by_contra hfalse
          obtain ⟨e, he, hle⟩ := hkeep v hv (by simpa using hfalse)
          cases val with
          | some p => exact hcar.2 e he
          | none =>
            -- the delete is above the snapshot `s`, so it is not expired for all of them
            rw [Carries, he] at hcar
            cases hcar
            exact absurd (hle s hs) (not_le.2 hlt)
        rw [filter_comm, hf, filter_cons_of_pos hkept]
        exact ⟨v, _, rfl, hcar⟩ }

end KeyInv

end Graphus
