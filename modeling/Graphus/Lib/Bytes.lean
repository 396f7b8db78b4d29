import Mathlib.Data.List.Basic
import Mathlib.Algebra.Group.Nat.Defs

/-!
# Little-endian bytes

Fixed-width little-endian fields: their bytes, their value, and how a field is read from the middle
of a byte string.
-/

/-- A byte string. -/
abbrev Bytes := List UInt8

namespace Bytes

open List

variable {k n off : ℕ} {bs post : Bytes}

/-- The `k` little-endian bytes of `n`. -/
def le : ℕ → ℕ → Bytes
  | 0, _ => []
  | k + 1, n => UInt8.ofNat (n % 256) :: le k (n / 256)

/-- The value of a little-endian byte string. -/
def toNat : Bytes → ℕ
  | [] => 0
  | b :: bs => b.toNat + 256 * toNat bs

/-- The field of `k` bytes at offset `off`. -/
def field (bs : Bytes) (off k : ℕ) : ℕ := toNat ((bs.drop off).take k)

@[simp] lemma length_le (k n : ℕ) : (le k n).length = k := by
  induction k generalizing n with
  | zero => rfl
  | succ k ih => simp [le, ih]

lemma toNat_le (h : n < 256 ^ k) : toNat (le k n) = n := by
  induction k generalizing n with
  | zero =>
    have : n = 0 := by simpa using h
    rw [this]
    rfl
  | succ k ih =>
    have hdiv : n / 256 < 256 ^ k := by
      rw [Nat.div_lt_iff_lt_mul (by decide)]
      rwa [Nat.pow_succ] at h
    have hbyte : (UInt8.ofNat (n % 256)).toNat = n % 256 := by simp
    rw [le, toNat, ih hdiv]
    omega

/-- The bytes at an offset, when the string is split there. -/
lemma take_drop_of_split (pre x : Bytes) (h : bs = pre ++ (x ++ post))
    (hpre : pre.length = off) (hx : x.length = k) : (bs.drop off).take k = x := by
  rw [h, ← hpre, drop_left, ← hx, take_left]

lemma field_of_split (pre x : Bytes) (h : bs = pre ++ (x ++ post))
    (hpre : pre.length = off) (hx : x.length = k) : field bs off k = toNat x := by
  rw [field, take_drop_of_split pre x h hpre hx]

/-! ## Segments placed in a buffer -/

/-- The buffer with `bs` copied to the offset `off`. -/
def place (buf : Bytes) (off : ℕ) (bs : Bytes) : Bytes :=
  buf.take off ++ bs ++ buf.drop (off + bs.length)

/-- The part of a segment in `[start, stop)` copied to its place in a buffer for that range. -/
def copyInto (start stop : ℕ) (buf : Bytes) (seg : ℕ × Bytes) : Bytes :=
  if seg.1 < stop ∧ start < seg.1 + seg.2.length then
    place buf (max seg.1 start - start)
      ((seg.2.drop (start - seg.1)).take (min (seg.1 + seg.2.length) stop - max seg.1 start))
  else buf

/-- The byte at `o` when segments with their offsets are laid over `b`, later ones on top. -/
def overlay (segs : List (ℕ × Bytes)) (b : UInt8) (o : ℕ) : UInt8 :=
  segs.foldl (fun b seg =>
    if seg.1 ≤ o ∧ o < seg.1 + seg.2.length then seg.2.getD (o - seg.1) 0 else b) b

variable {buf : Bytes} {start stop i : ℕ} {seg : ℕ × Bytes} {segs : List (ℕ × Bytes)}

lemma length_place (h : off + bs.length ≤ buf.length) : (place buf off bs).length = buf.length := by
  rw [place, length_append, length_append, length_take, length_drop]
  omega

lemma getElem?_place (h : off + bs.length ≤ buf.length) :
    (place buf off bs)[i]? = if off ≤ i ∧ i < off + bs.length then bs[i - off]? else buf[i]? := by
  have htake : (buf.take off).length = off := by
    rw [length_take]
    omega
  rw [place, append_assoc]
  by_cases hlow : i < off
  · rw [getElem?_append_left (by omega), getElem?_take_of_lt hlow, if_neg (by omega)]
  rw [getElem?_append_right (by omega), htake]
  by_cases hhigh : i < off + bs.length
  · rw [getElem?_append_left (by omega), if_pos (by omega)]
  · rw [getElem?_append_right (by omega), getElem?_drop, if_neg (by omega)]
    congr 1
    omega

/-- The length of the part of a segment that is copied. -/
lemma length_clip (h : seg.1 < stop ∧ start < seg.1 + seg.2.length) :
    ((seg.2.drop (start - seg.1)).take (min (seg.1 + seg.2.length) stop - max seg.1 start)).length =
      min (seg.1 + seg.2.length) stop - max seg.1 start := by
  rw [length_take, length_drop]
  omega

section

variable (hbuf : buf.length = stop - start)

include hbuf

lemma length_copyInto : (copyInto start stop buf seg).length = buf.length := by
  unfold copyInto
  split
  · rename_i h
    exact length_place (by rw [length_clip h]; omega)
  · rfl

lemma getElem?_copyInto (hi : start + i < stop) :
    (copyInto start stop buf seg)[i]? =
      if seg.1 ≤ start + i ∧ start + i < seg.1 + seg.2.length then seg.2[start + i - seg.1]?
      else buf[i]? := by
  unfold copyInto
  by_cases h : seg.1 < stop ∧ start < seg.1 + seg.2.length
  · rw [if_pos h, getElem?_place (by rw [length_clip h]; omega), length_clip h]
    by_cases hin : seg.1 ≤ start + i ∧ start + i < seg.1 + seg.2.length
    · rw [if_pos (by omega), if_pos hin, getElem?_take_of_lt (by omega), getElem?_drop]
      congr 1
      omega
    · rw [if_neg (by omega), if_neg hin]
  · rw [if_neg h, if_neg (by omega)]

/-- **Segments copied one after the other** show, at each offset, the last one that covers it. -/
lemma getElem?_foldl_copyInto (hi : start + i < stop) {b : UInt8}
    (hb : buf[i]? = some b) :
    (segs.foldl (copyInto start stop) buf)[i]? = some (overlay segs b (start + i)) := by
  induction segs generalizing buf b with
  | nil => exact hb
  | cons seg segs ih =>
    refine ih ((length_copyInto hbuf).trans hbuf) ?_
    rw [getElem?_copyInto hbuf hi]
    dsimp only
    by_cases hin : seg.1 ≤ start + i ∧ start + i < seg.1 + seg.2.length
    · rw [if_pos hin, if_pos hin, getElem?_eq_getElem (by omega), getD_eq_getElem?_getD,
        getElem?_eq_getElem (by omega), Option.getD_some]
    · rw [if_neg hin, if_neg hin, hb]

lemma length_foldl_copyInto :
    (segs.foldl (copyInto start stop) buf).length = stop - start := by
  induction segs generalizing buf with
  | nil => exact hbuf
  | cons seg segs ih => exact ih ((length_copyInto hbuf).trans hbuf)

end

/-- **A range of what the segments show** is what they show in that range. -/
lemma foldl_copyInto_range :
    segs.foldl (copyInto start (min stop n)) (replicate (min stop n - start) 0) =
      ((segs.foldl (copyInto 0 n) (replicate n 0)).take stop).drop start := by
  refine ext_getElem? fun i => ?_
  rw [getElem?_drop]
  by_cases hi : start + i < min stop n
  · rw [getElem?_foldl_copyInto length_replicate hi (getElem?_replicate_of_lt (by omega)),
      getElem?_take_of_lt (by omega), getElem?_foldl_copyInto (length_replicate (n := n)) (by omega)
        (getElem?_replicate_of_lt (by omega)), Nat.zero_add]
  · rw [getElem?_eq_none, getElem?_eq_none]
    · rw [length_take, length_foldl_copyInto (length_replicate (n := n))]
      omega
    · rw [length_foldl_copyInto length_replicate]
      omega

lemma copyInto_of_stop_le (h : stop ≤ seg.1) : copyInto start stop buf seg = buf :=
  if_neg fun hc => Nat.not_lt.2 h hc.1

/-- Of segments in order, those behind the range need not be looked at. -/
lemma foldl_copyInto_takeWhile (hsorted : segs.Pairwise fun s s' => s.1 ≤ s'.1) :
    (segs.takeWhile fun seg => seg.1 < stop).foldl (copyInto start stop) buf =
      segs.foldl (copyInto start stop) buf := by
  induction segs generalizing buf with
  | nil => rfl
  | cons seg segs ih =>
    obtain ⟨hhead, htail⟩ := pairwise_cons.1 hsorted
    by_cases hlt : seg.1 < stop
    · rw [takeWhile_cons_of_pos (by simpa using hlt), foldl_cons, foldl_cons, ih htail]
    -- nothing is taken, and nothing behind this segment is copied
    have hstop : stop ≤ seg.1 := Nat.le_of_not_lt hlt
    rw [takeWhile_cons_of_neg (by simpa using hstop), foldl_cons,
      copyInto_of_stop_le hstop, ← ih htail]
    cases segs with
    | nil => rfl
    | cons s segs =>
      have := hhead s mem_cons_self
      rw [takeWhile_cons_of_neg (by simpa using Nat.le_trans hstop this)]

/-- Offsets that no segment covers. -/
lemma overlay_of_not_covered {b : UInt8} {o : ℕ}
    (h : ∀ seg ∈ segs, ¬ (seg.1 ≤ o ∧ o < seg.1 + seg.2.length)) : overlay segs b o = b := by
  induction segs generalizing b with
  | nil => rfl
  | cons seg segs ih =>
    rw [overlay, foldl_cons, if_neg (h seg mem_cons_self)]
    exact ih fun s hs => h s (mem_cons_of_mem seg hs)

/-- The only segment that covers an offset. -/
lemma overlay_of_covered {b c : UInt8} {o : ℕ} (hseg : seg ∈ segs) (hle : seg.1 ≤ o)
    (hc : seg.2[o - seg.1]? = some c)
    (hapart : segs.Pairwise fun s s' => s.1 + s.2.length ≤ s'.1) : overlay segs b o = c := by
  have hlt : o - seg.1 < seg.2.length := (List.getElem?_eq_some_iff.1 hc).1
  induction segs generalizing b with
  | nil => cases hseg
  | cons s segs ih =>
    obtain ⟨hhead, htail⟩ := pairwise_cons.1 hapart
    rcases mem_cons.1 hseg with rfl | hmem
    · rw [overlay, foldl_cons, if_pos (by omega), getD_eq_getElem?_getD, hc]
      exact overlay_of_not_covered fun s hs => by
        have := hhead s hs
        omega
    · exact ih hmem htail

end Bytes
