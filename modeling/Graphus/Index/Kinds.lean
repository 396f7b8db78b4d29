import Graphus.Index.EqualityKey
import Graphus.Lib.Bytes
import Graphus.Lib.OrderedMap

/-!
# Property and composite indexes

An index is an ordered map from keys to record ids. A key is the token, the keys of the values and
the record id, so that one value can have several entries. An equality seek reads the entries under
the key of each value that may be equal to the probe (`numericEqualProbes`): an integer and the
float with its value, and the three zeros. A composite seek does so for every combination. A range
seek starts at the lowest of these keys and stops below the key of the upper bound.

The section on key ranges says which entries a seek visits: those under the key of a tuple
(`inRange_iff`), and those from a lower to an upper key (`isLE_compare_lo`, `compare_lo_eq_lt`).

The tree below an index is an ordered map here, and its input and output does not fail.
-/

namespace Graphus

open List

open KeyOrder (be)

def keyErr : KeyEncodeError → GraphusError
  | .unindexable t => .storage (text ("value of type " ++ t ++ " cannot be used in an index key"))

def encodeOrStorageErr (value : Value) : Except GraphusError Bytes :=
  (encodeSingle value).mapError keyErr

def compositeTail (values : List Value) : Except GraphusError Bytes :=
  (encodeComposite values).mapError keyErr

/-! ## Entries -/

/-- The payload of an entry: the record id, little-endian. -/
def ridPayload (rid : UInt64) : Bytes := Bytes.le 8 rid.toNat

def ridDecode (bytes : Bytes) : Option UInt64 :=
  if bytes.length = 8 then some (UInt64.ofNat (Bytes.toNat bytes)) else none

def tokenValueIdKey (token : UInt32) (valueTail : Bytes) (rid : UInt64) : Bytes :=
  withTokenPrefix token valueTail ++ be 8 rid.toNat

def tokenValueLo (token : UInt32) (valueTail : Bytes) : Bytes :=
  tokenValueIdKey token valueTail 0

/-- One byte more than the largest record id. -/
def tokenValueHi (token : UInt32) (valueTail : Bytes) : Bytes :=
  withTokenPrefix token valueTail ++ be 8 (2 ^ 64 - 1) ++ [0xFF]

abbrev Tree := OrderedMap Bytes Bytes

/-- The record ids of visited entries. -/
def rids (visited : List (Bytes × Bytes)) : List UInt64 :=
  visited.filterMap fun e => ridDecode e.2

def ridsInRange (tree : Tree) (lo hi : Bytes) : List UInt64 := rids (tree.scan lo (some hi))

/-! ## Probes -/

/-- The value of the other numeric type that may be equal. -/
def siblingCandidate : Value → Option Value
  | .integer i => some (.float (Double.ofInt i.toInt))
  | .float f =>
      if f.isFinite && decide f.IsWhole then some (.integer (Int64.ofInt f.toI64)) else none
  | _ => none

def numericEqualSibling (value : Value) : Option Value :=
  match siblingCandidate value with
  | none => none
  | some sibling =>
    match encodeEqualityCanonical value, encodeEqualityCanonical sibling with
    | .ok a, .ok b => if a = b then some sibling else none
    | _, _ => none

def isZero : Value → Bool
  | .integer i => i == 0
  | .float f => f.ieeeEq ⟨0⟩
  | _ => false

/-- The values to look up for equality with a value. -/
def numericEqualProbes (value : Value) : List Value :=
  if isZero value then [.integer 0, .float ⟨0⟩, .float ⟨0x8000000000000000⟩]
  else
    match numericEqualSibling value with
    | some sibling => [value, sibling]
    | none => [value]

/-! ## The indexes -/

/-- Adjacent repetitions removed. -/
def dedup : List UInt64 → List UInt64
  | [] => []
  | [x] => [x]
  | x :: y :: rest => if x = y then dedup (y :: rest) else x :: dedup (y :: rest)

def sortDedup (ids : List UInt64) : List UInt64 := dedup (ids.insertionSort fun x y => x ≤ y)

structure PropertyIndex where
  tree : Tree

namespace PropertyIndex

/-- Insert an entry; was it new? -/
def insert (ix : PropertyIndex) (token : UInt32) (value : Value) (rid : UInt64) :
    Except GraphusError (Bool × PropertyIndex) := do
  let tail ← encodeOrStorageErr value
  let k := tokenValueIdKey token tail rid
  return (!ix.tree.contains k, ⟨ix.tree.insert k (ridPayload rid)⟩)

/-- Remove an entry; was it there? -/
def remove (ix : PropertyIndex) (token : UInt32) (value : Value) (rid : UInt64) :
    Except GraphusError (Bool × PropertyIndex) := do
  let tail ← encodeOrStorageErr value
  let k := tokenValueIdKey token tail rid
  return (ix.tree.contains k, ⟨ix.tree.erase k⟩)

def seekEqExact (ix : PropertyIndex) (token : UInt32) (value : Value) :
    Except GraphusError (List UInt64) := do
  let tail ← encodeOrStorageErr value
  return ridsInRange ix.tree (tokenValueLo token tail) (tokenValueHi token tail)

def seekEq (ix : PropertyIndex) (token : UInt32) (value : Value) :
    Except GraphusError (List UInt64) := do
  let out ← (numericEqualProbes value).foldlM (fun out probe => do
    let ids ← ix.seekEqExact token probe
    return out ++ ids) []
  return sortDedup out

/-- The key at which the scan of a range starts: the lowest of the probes. -/
def lowerKey (token : UInt32) (loValue : Value) : Except GraphusError (Option Bytes) :=
  (numericEqualProbes loValue).foldlM (fun lo probe => do
    let key := tokenValueLo token (← encodeOrStorageErr probe)
    return if lo.all fun cur => compare key cur == .lt then some key else lo) none

/-- The first key of the next token; the largest token has none. -/
def nextTokenLo (token : UInt32) : Option Bytes :=
  if token.toNat + 1 < 2 ^ 32 then some (be 4 (token.toNat + 1)) else none

/-- The records with a value from `loValue` on and below `hiValue`, and some others. -/
def seekRange (ix : PropertyIndex) (token : UInt32) (loValue : Value) (hiValue : Option Value) :
    Except GraphusError (List UInt64) := do
  -- There is always a probe, so the default is not used.
  let lo := (← lowerKey token loValue).getD []
  match hiValue with
  | some hv =>
    let hiTail ← encodeOrStorageErr hv
    return rids (ix.tree.scan lo (some (tokenValueLo token hiTail)))
  | none => return rids (ix.tree.scan lo (nextTokenLo token))

/-- Does the index hold the value for the record? -/
def Holds (ix : PropertyIndex) (token : UInt32) (value : Value) (rid : UInt64) : Prop :=
  ∃ tail, encodeOrStorageErr value = .ok tail ∧
    (tokenValueIdKey token tail rid, ridPayload rid) ∈ ix.tree.entries

end PropertyIndex

structure CompositeIndex where
  tree : Tree
  arity : Nat
  arity_pos : 0 < arity

namespace CompositeIndex

def checkArity (ix : CompositeIndex) (got : Nat) : Except GraphusError Unit :=
  if got ≠ ix.arity then
    .error (.storage (text ("composite index arity is " ++ toString ix.arity ++ ", got " ++
      toString got ++ " values")))
  else .ok ()

/-- Every combination of the probes of the components. -/
def combos (values : List Value) : List (List Value) :=
  values.foldl (fun combos v =>
    combos.flatMap fun c => (numericEqualProbes v).map fun a => c ++ [a]) [[]]

def key (token : UInt32) (values : List Value) (rid : UInt64) : Except GraphusError Bytes := do
  let tail ← compositeTail values
  return tokenValueIdKey token tail rid

def insert (ix : CompositeIndex) (token : UInt32) (values : List Value) (rid : UInt64) :
    Except GraphusError (Bool × CompositeIndex) := do
  ix.checkArity values.length
  let k ← key token values rid
  return (!ix.tree.contains k, { ix with tree := ix.tree.insert k (ridPayload rid) })

def remove (ix : CompositeIndex) (token : UInt32) (values : List Value) (rid : UInt64) :
    Except GraphusError (Bool × CompositeIndex) := do
  ix.checkArity values.length
  let k ← key token values rid
  return (ix.tree.contains k, { ix with tree := ix.tree.erase k })

def seekEq (ix : CompositeIndex) (token : UInt32) (values : List Value) :
    Except GraphusError (List UInt64) := do
  ix.checkArity values.length
  let out ← (combos values).foldlM (fun out combo => do
    let tail ← compositeTail combo
    return out ++ ridsInRange ix.tree (tokenValueLo token tail) (tokenValueHi token tail)) []
  return sortDedup out

/-- Does the index hold the tuple for the record? -/
def Holds (ix : CompositeIndex) (token : UInt32) (values : List Value) (rid : UInt64) : Prop :=
  values.length = ix.arity ∧ ∃ tail, compositeTail values = .ok tail ∧
    (tokenValueIdKey token tail rid, ridPayload rid) ∈ ix.tree.entries

end CompositeIndex

/-! ## Entries -/

lemma ridDecode_ridPayload (rid : UInt64) : ridDecode (ridPayload rid) = some rid := by
  rw [ridDecode, ridPayload, Bytes.length_le, if_pos rfl, Bytes.toNat_le rid.toNat_lt,
    UInt64.ofNat_toNat]

lemma mem_rids_of_mem {visited : List (Bytes × Bytes)} {k : Bytes} {rid : UInt64}
    (h : (k, ridPayload rid) ∈ visited) : rid ∈ rids visited :=
  mem_filterMap.2 ⟨_, h, ridDecode_ridPayload rid⟩

lemma mem_dedup {x : UInt64} {ids : List UInt64} : x ∈ dedup ids ↔ x ∈ ids := by
  induction ids using dedup.induct with
  | case1 => rfl
  | case2 => rfl
  | case3 y rest ih =>
    rw [dedup, if_pos rfl, ih]
    simp
  | case4 y z rest hne ih => rw [dedup, if_neg hne, mem_cons, ih, ← mem_cons]

lemma mem_sortDedup {x : UInt64} {ids : List UInt64} : x ∈ sortDedup ids ↔ x ∈ ids := by
  rw [sortDedup, mem_dedup]
  exact (perm_insertionSort _ ids).mem_iff

lemma encodeOrStorageErr_eq {v : Value} (h : Indexable v) :
    encodeOrStorageErr v = .ok (valueKey v) := by
  rw [encodeOrStorageErr, encodeSingle, encodeValue_eq h]
  rfl

lemma encodeOrStorageErr_ok {v : Value} {tail : Bytes}
    (h : encodeOrStorageErr v = .ok tail) : Indexable v ∧ tail = valueKey v := by
  cases hv : encodeSingle v with
  | error e =>
    rw [encodeOrStorageErr, hv] at h
    exact nomatch h
  | ok key =>
    rw [encodeOrStorageErr, hv] at h
    cases h
    exact encodeValue_ok hv

lemma compositeTail_eq {vs : List Value} (h : ∀ v ∈ vs, Indexable v) :
    compositeTail vs = .ok (vs.flatMap valueKey) := by
  rw [compositeTail, encodeComposite_eq h]
  rfl

lemma compositeTail_ok {vs : List Value} {tail : Bytes} (h : compositeTail vs = .ok tail) :
    (∀ v ∈ vs, Indexable v) ∧ tail = vs.flatMap valueKey := by
  cases hv : encodeComposite vs with
  | error e =>
    rw [compositeTail, hv] at h
    exact nomatch h
  | ok key =>
    rw [compositeTail, hv] at h
    cases h
    exact encodeComposite_ok hv

/-- The loop of a seek, where every probe has a key. -/
lemma foldlM_append_eq {α : Type} {step : List UInt64 → α → Except GraphusError (List UInt64)}
    {found : α → List UInt64} {probes : List α}
    (h : ∀ x ∈ probes, ∀ out, step out x = .ok (out ++ found x)) (out : List UInt64) :
    probes.foldlM step out = .ok (out ++ probes.flatMap found) := by
  induction probes generalizing out with
  | nil => rw [flatMap_nil, append_nil]; rfl
  | cons x probes ih =>
    rw [foldlM_cons, h x mem_cons_self out, flatMap_cons, ← append_assoc]
    exact ih (fun y hy => h y (mem_cons_of_mem x hy)) (out ++ found x)

/-! ## Key ranges -/

lemma compare_tokenValueIdKey (token : UInt32) (s t : Bytes) (x y : UInt64) :
    compare (tokenValueIdKey token s x) (tokenValueIdKey token t y) =
      compare (s ++ be 8 x.toNat) (t ++ be 8 y.toNat) := by
  rw [tokenValueIdKey, tokenValueIdKey, withTokenPrefix, withTokenPrefix, append_assoc,
    append_assoc, @KeyOrder.compare_be_append 4 _ _ token.toNat_lt token.toNat_lt,
    Std.ReflOrd.compare_self, Ordering.eq_then]

lemma compare_tokenValueHi (token : UInt32) (s t : Bytes) (x : UInt64) :
    compare (tokenValueIdKey token s x) (tokenValueHi token t) =
      compare (s ++ be 8 x.toNat) (t ++ (be 8 (2 ^ 64 - 1) ++ [0xFF])) := by
  rw [tokenValueIdKey, tokenValueHi, withTokenPrefix, withTokenPrefix, append_assoc,
    append_assoc, append_assoc,
    @KeyOrder.compare_be_append 4 _ _ token.toNat_lt token.toNat_lt, Std.ReflOrd.compare_self,
    Ordering.eq_then]

lemma isLE_compare_rid (rid : UInt64) :
    (compare (be 8 (0 : UInt64).toNat) (be 8 rid.toNat)).isLE = true := by
  have hcmp := @KeyOrder.compare_be_append 8 0 rid.toNat (by decide) rid.toNat_lt [] []
  rw [List.append_nil, List.append_nil, List.compare_nil_nil, Ordering.then_eq] at hcmp
  show (compare (be 8 0) (be 8 rid.toNat)).isLE = true
  rw [hcmp, Ordering.isLE_iff_ne_gt]
  intro hgt
  exact Nat.not_lt_zero _ (compare_gt_iff_gt.1 hgt)

/-- The byte after the largest record id makes the bound strict. -/
lemma compare_rid_hi (rid : UInt64) :
    compare (be 8 rid.toNat) (be 8 (2 ^ 64 - 1) ++ [0xFF]) = .lt := by
  have hcmp :=
    @KeyOrder.compare_be_append 8 rid.toNat (2 ^ 64 - 1) rid.toNat_lt (by decide) [] [0xFF]
  have hlt := rid.toNat_lt
  rw [append_nil] at hcmp
  rw [hcmp]
  rcases Nat.lt_or_ge rid.toNat (2 ^ 64 - 1) with h | h
  · rw [compare_lt_iff_lt.2 h]
    rfl
  · rw [show rid.toNat = 2 ^ 64 - 1 by omega]
    rfl

section Range

variable {vs qs : List Value} (hv : ∀ v ∈ vs, Indexable v) (hq : ∀ v ∈ qs, Indexable v)
  (hlen : qs.length = vs.length) (token : UInt32) (rid : UInt64)

include hv hq hlen

/-- An entry is at or above the first key of a tuple when its tuple is. -/
lemma isLE_compare_lo : (compare (tokenValueLo token (qs.flatMap valueKey))
      (tokenValueIdKey token (vs.flatMap valueKey) rid)).isLE = true ↔
      (List.compareLex indexCmp qs vs).isLE = true := by
  rw [tokenValueLo, compare_tokenValueIdKey, faithful_valueKey.flatMap hq hv hlen]
  cases List.compareLex indexCmp qs vs with
  | eq => exact iff_of_true (isLE_compare_rid rid) rfl
  | lt => exact iff_of_true rfl rfl
  | gt => exact Iff.rfl

/-- An entry is below the first key of a tuple when its tuple is. -/
lemma compare_lo_eq_lt : compare (tokenValueIdKey token (vs.flatMap valueKey) rid)
      (tokenValueLo token (qs.flatMap valueKey)) = .lt ↔
      List.compareLex indexCmp vs qs = .lt := by
  rw [tokenValueLo, compare_tokenValueIdKey, faithful_valueKey.flatMap hv hq hlen.symm]
  cases List.compareLex indexCmp vs qs with
  | eq =>
    refine iff_of_false (fun h => ?_) (by decide)
    have hle := isLE_compare_rid rid
    rw [Std.OrientedOrd.eq_swap, show compare (be 8 rid.toNat)
      (be 8 (0 : UInt64).toNat) = .lt from h] at hle
    exact absurd hle (by decide)
  | lt => exact iff_of_true rfl rfl
  | gt => exact Iff.rfl

lemma compare_hi_eq_lt : compare (tokenValueIdKey token (vs.flatMap valueKey) rid)
      (tokenValueHi token (qs.flatMap valueKey)) = .lt ↔
      (List.compareLex indexCmp vs qs).isLE = true := by
  rw [compare_tokenValueHi, faithful_valueKey.flatMap hv hq hlen.symm, compare_rid_hi]
  cases List.compareLex indexCmp vs qs <;> decide

/-- The range of a tuple has the entries with its key. -/
lemma inRange_iff : OrderedMap.inRange (tokenValueLo token (qs.flatMap valueKey))
      (some (tokenValueHi token (qs.flatMap valueKey)))
      (tokenValueIdKey token (vs.flatMap valueKey) rid) = true ↔
      qs.flatMap valueKey = vs.flatMap valueKey := by
  rw [OrderedMap.inRange, Option.all_some, Bool.and_eq_true_iff, beq_iff_eq,
    isLE_compare_lo hv hq hlen, compare_hi_eq_lt hv hq hlen, ← compare_compositeKeys hq hv hlen,
    ← compare_compositeKeys hv hq hlen.symm]
  constructor
  · rintro ⟨hle, hge⟩
    exact Std.LawfulEqOrd.eq_of_compare (Std.OrientedCmp.isLE_antisymm hle hge)
  · intro h
    rw [h, Std.ReflOrd.compare_self]
    exact ⟨rfl, rfl⟩

end Range

/-! ## What an index holds -/

namespace PropertyIndex

variable {ix : PropertyIndex} {token : UInt32} {v : Value} {rid : UInt64}

lemma holds_iff (hv : Indexable v) : ix.Holds token v rid ↔
    (tokenValueIdKey token (valueKey v) rid, ridPayload rid) ∈ ix.tree.entries := by
  constructor
  · rintro ⟨tail, htail, hmem⟩
    rw [(encodeOrStorageErr_ok htail).2] at hmem
    exact hmem
  · exact fun hmem => ⟨_, encodeOrStorageErr_eq hv, hmem⟩

lemma Holds.indexable (h : ix.Holds token v rid) : Indexable v := by
  obtain ⟨tail, htail, -⟩ := h
  exact (encodeOrStorageErr_ok htail).1

end PropertyIndex

lemma CompositeIndex.holds_iff {ix : CompositeIndex} {token : UInt32} {vs : List Value}
    {rid : UInt64} (hv : ∀ v ∈ vs, Indexable v) : ix.Holds token vs rid ↔ vs.length = ix.arity ∧
    (tokenValueIdKey token (vs.flatMap valueKey) rid, ridPayload rid) ∈ ix.tree.entries := by
  constructor
  · rintro ⟨hlen, tail, htail, hmem⟩
    rw [(compositeTail_ok htail).2] at hmem
    exact ⟨hlen, hmem⟩
  · exact fun ⟨hlen, hmem⟩ => ⟨hlen, _, compositeTail_eq hv, hmem⟩

end Graphus
