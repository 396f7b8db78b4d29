import Mathlib.Data.List.Find
import Graphus.Txn.Store

/-!
# Version chains

What the operations of the version store do to one chain, as seen by a reader that owns none of
its in-flight stamps. Such a reader sees `committedRead`: in-flight creations are invisible to it
and in-flight expiries do not count. Writing, deleting and aborting do not change `committedRead`;
committing changes it only from the commit timestamp on; garbage collection changes it only below
the low-water mark.
-/

namespace Graphus

open MemVersionedStore Version List

/-- The stamp is a commit at or before `s`. -/
def VersionStamp.committedBy (s : Nat) : VersionStamp → Bool
  | .committed c => c ≤ s
  | _ => false

open VersionStamp (committedBy)

namespace Version

/-- Visible at `s` by committed stamps alone. -/
def visibleAt (s : Nat) (v : Version) : Bool := v.xmin.committedBy s && !v.xmax.committedBy s

end Version

/-- The newest version visible at `s` by committed stamps alone. -/
def committedRead (c : List Version) (s : Nat) : Option Bytes :=
  (c.find? (visibleAt s)).map payload

section Chain

variable {c rest : List Version} {v head : Version} {s u ts : Nat}

lemma committedRead_cons_of_inFlight (h : v.xmin = .inFlight u) :
    committedRead (v :: c) s = committedRead c s := by
  have : visibleAt s v = false := by
    simp [visibleAt, h, committedBy]
  simp [committedRead, this]

/-- An in-flight expiry does not count. -/
lemma committedRead_expire (h : head.xmax = .none) :
    committedRead ({ head with xmax := .inFlight u } :: rest) s =
    committedRead (head :: rest) s := by
  have : visibleAt s { head with xmax := .inFlight u } = visibleAt s head := by
    simp [visibleAt, h, committedBy]
  unfold committedRead
  rw [find?_cons, find?_cons, this]
  cases visibleAt s head <;> rfl

/-- Aborting drops versions no other reader sees and expiries that do not count. -/
lemma committedRead_abortChain : committedRead (abortChain u c) s = committedRead c s := by
  induction c with
  | nil => rfl
  | cons v c ih =>
    by_cases hv : v.xmin = .inFlight u
    · have : abortChain u (v :: c) = abortChain u c := by simp [abortChain, hv]
      rw [this, ih, committedRead_cons_of_inFlight hv]
    set v' : Version := if v.xmax = .inFlight u then { v with xmax := .none } else v with hv'
    have hcons : abortChain u (v :: c) = v' :: abortChain u c := by simp [abortChain, hv, hv']
    have hvis : visibleAt s v' = visibleAt s v := by
      rw [hv']
      split
      · simp [visibleAt, *, committedBy]
      · rfl
    have hpay : v'.payload = v.payload := by
      rw [hv']
      split <;> rfl
    unfold committedRead at ih ⊢
    rw [hcons, find?_cons, find?_cons, hvis]
    cases visibleAt s v with
    | true => simp [hpay]
    | false => exact ih

lemma committedBy_stampCommitted_of_lt (h : s < ts) (stamp : VersionStamp) :
    (stampCommitted u ts stamp).committedBy s = stamp.committedBy s := by
  unfold stampCommitted
  split
  · simp [*, committedBy]
  · rfl

/-- A commit is invisible below its timestamp. -/
lemma committedRead_commit_of_lt (h : s < ts) :
    committedRead (c.map (commitVersion u ts)) s = committedRead c s := by
  have hvis : (visibleAt s ∘ commitVersion u ts) = visibleAt s := by
    funext v
    simp [visibleAt, commitVersion, committedBy_stampCommitted_of_lt h]
  have hpay : payload ∘ commitVersion u ts = payload := rfl
  unfold committedRead
  rw [find?_map, hvis, Option.map_map, hpay]

/-- A filter that removes only versions the reader does not see changes no read. -/
lemma find?_filter_of_unseen {keep seen : Version → Bool}
    (h : ∀ v ∈ c, keep v = false → seen v = false) : (c.filter keep).find? seen = c.find? seen := by
  rw [find?_filter]
  refine find?_congr fun v hv => ?_
  cases hkeep : keep v with
  | false => simp [h v hv hkeep]
  | true => simp

/-- When every version is expired at `s`, nothing is visible. -/
lemma committedRead_eq_none (h : ∀ v ∈ c, v.xmax.committedBy s = true) :
    committedRead c s = none := by
  unfold committedRead
  rw [Option.map_eq_none_iff, find?_eq_none]
  intro v hv
  simp [visibleAt, h v hv]

end Chain

end Graphus
