import Graphus.Lib.Bytes
import Mathlib.Algebra.Order.Ring.Int
import Mathlib.Data.List.Basic
import Mathlib.Data.Nat.Log

/-!
# Byte keys in the order of what they encode

A key is a byte string, and keys compare byte by byte. An encoder is *faithful* to a comparator if
comparing two keys compares what they encode, whatever bytes follow: `compare (enc a ++ s) (enc b ++
t)` is `cmp a b`, and `compare s t` where that is equality. Because of the bytes that follow,
faithful encoders compose by concatenation (`Faithful.flatMap`), and the keys of two different
values differ before either of them ends.

The encoders here are the ones such keys are made of: big-endian numbers of a fixed width (`be`),
signed integers with their sign bit flipped (`signFlip`), and byte strings with their zeros escaped
and a terminator (`escaped`).
-/

namespace KeyOrder

open List
open List (compare_cons_cons cons_append)
open UInt8 (ofNat)

/-! ## Comparing numbers -/

section Numbers

variable {p a b r s : Nat}

lemma compare_mul_add (hr : r < p) (hs : s < p) :
    compare (a * p + r) (b * p + s) = (compare a b).then (compare r s) := by
  rcases lt_trichotomy a b with h | rfl | h
  · have hmul : (a + 1) * p ≤ b * p := Nat.mul_le_mul_right p h
    rw [Nat.add_mul] at hmul
    rw [compare_lt_iff_lt.2 h, compare_lt_iff_lt.2 (by omega)]
    rfl
  · rw [compare_eq_iff_eq.2 rfl, Ordering.eq_then]
    rcases lt_trichotomy r s with h | rfl | h
    · rw [compare_lt_iff_lt.2 h, compare_lt_iff_lt.2 (by omega)]
    · rw [compare_eq_iff_eq.2 rfl, compare_eq_iff_eq.2 rfl]
    · rw [compare_gt_iff_gt.2 h, compare_gt_iff_gt.2 (by omega)]
  · have hmul : (b + 1) * p ≤ a * p := Nat.mul_le_mul_right p h
    rw [Nat.add_mul] at hmul
    rw [compare_gt_iff_gt.2 h, compare_gt_iff_gt.2 (by omega)]
    rfl

lemma compare_ofNat (ha : a < 256) (hb : b < 256) : compare (ofNat a) (ofNat b) = compare a b := by
  have hlt : ∀ {a b : Nat}, a < 256 → b < 256 → a < b → ofNat a < ofNat b := by
    intro a b ha hb h
    rw [UInt8.lt_iff_toNat_lt, UInt8.toNat_ofNat_of_lt' ha, UInt8.toNat_ofNat_of_lt' hb]
    exact h
  rcases lt_trichotomy a b with h | rfl | h
  · rw [compare_lt_iff_lt.2 h, Std.compare_eq_lt.2 (hlt ha hb h)]
  · rw [compare_eq_iff_eq.2 rfl, Std.compare_eq_iff_eq.2 rfl]
  · rw [compare_gt_iff_gt.2 h, Std.compare_eq_gt.2 (hlt hb ha h)]

end Numbers

/-! ## Big-endian numbers -/

/-- The `k` big-endian bytes of `n`. -/
def be : Nat → Nat → Bytes
  | 0, _ => []
  | k + 1, n => ofNat (n / 256 ^ k % 256) :: be k n

@[simp] lemma length_be (k n : Nat) : (be k n).length = k := by
  induction k with
  | zero => rfl
  | succ k ih => rw [be, length_cons, ih]

lemma compare_be_append_mod (k m n : Nat) (s t : Bytes) : compare (be k m ++ s) (be k n ++ t) =
      (compare (m % 256 ^ k) (n % 256 ^ k)).then (compare s t) := by
  induction k with
  | zero => rw [Nat.pow_zero, Nat.mod_one, Nat.mod_one]; rfl
  | succ k ih =>
    have hpos : 0 < 256 ^ k := Nat.pow_pos (by decide)
    -- A number is its leading byte and the rest.
    have hsplit : ∀ n, n % 256 ^ (k + 1) = n / 256 ^ k % 256 * 256 ^ k + n % 256 ^ k := fun n => by
      rw [Nat.pow_succ, Nat.mod_mul, Nat.add_comm, Nat.mul_comm (256 ^ k)]
    rw [be, be, cons_append, cons_append, compare_cons_cons, ih,
      compare_ofNat (Nat.mod_lt _ (by decide)) (Nat.mod_lt _ (by decide)), hsplit m, hsplit n,
      compare_mul_add (Nat.mod_lt _ hpos) (Nat.mod_lt _ hpos), Ordering.then_assoc]

lemma compare_be_append {k m n : Nat} (hm : m < 256 ^ k) (hn : n < 256 ^ k) (s t : Bytes) :
    compare (be k m ++ s) (be k n ++ t) = (compare m n).then (compare s t) := by
  rw [compare_be_append_mod, Nat.mod_eq_of_lt hm, Nat.mod_eq_of_lt hn]

/-! ## Signed integers -/

/-- A signed integer of `w` bits with its top bit flipped. -/
def signFlip (w : Nat) (v : Int) : Nat := (BitVec.ofInt w v ^^^ BitVec.twoPow w (w - 1)).toNat

/-- Flipping a bit that is not set adds it. -/
lemma xor_two_pow_of_lt {w n : Nat} (h : n < 2 ^ w) : n ^^^ 2 ^ w = 2 ^ w + n := by
  refine Nat.eq_of_testBit_eq fun j => ?_
  rw [Nat.testBit_xor, Nat.testBit_two_pow]
  rcases lt_trichotomy j w with hj | rfl | hj
  · rw [Nat.testBit_two_pow_add_gt hj, decide_eq_false (Nat.ne_of_gt hj), Bool.xor_false]
  · rw [Nat.testBit_two_pow_add_eq, Nat.testBit_lt_two_pow h, decide_eq_true rfl]
    rfl
  · have hle : 2 ^ (w + 1) ≤ 2 ^ j := Nat.pow_le_pow_right (by decide) hj
    rw [Nat.testBit_lt_two_pow (by omega), Nat.testBit_lt_two_pow (by omega),
      decide_eq_false (ne_of_lt hj)]
    rfl

/-- Flipping the bit that leads removes it. -/
lemma two_pow_add_xor {w n : Nat} (h : n < 2 ^ w) : (2 ^ w + n) ^^^ 2 ^ w = n := by
  rw [← xor_two_pow_of_lt h, Nat.xor_assoc, Nat.xor_self, Nat.xor_zero]

lemma signFlip_eq {w : Nat} {v : Int} (hlo : -2 ^ w ≤ v) (hhi : v < 2 ^ w) :
    signFlip (w + 1) v = (v + 2 ^ w).toNat := by
  have hcast : ((2 ^ (w + 1) : Nat) : Int) = 2 * 2 ^ w := by
    rw [Int.mul_comm]
    rfl
  have hmod : 2 ^ w % 2 ^ (w + 1) = 2 ^ w :=
    Nat.mod_eq_of_lt (Nat.pow_lt_pow_right (by decide) (Nat.lt_succ_self w))
  rw [signFlip, BitVec.toNat_xor, BitVec.toNat_ofInt, BitVec.toNat_twoPow,
    Nat.add_sub_cancel, hmod, hcast]
  by_cases hv : 0 ≤ v
  · rw [Int.emod_eq_of_lt hv (by omega), xor_two_pow_of_lt (by omega)]
    omega
  have hwrap : v % (2 * 2 ^ w) = 2 ^ w + (v + 2 ^ w) := by
    rw [← Int.add_mul_emod_self_left v (2 * 2 ^ w) 1, Int.emod_eq_of_lt (by omega) (by omega)]
    omega
  have hsum : (2 ^ w + (v + 2 ^ w)).toNat = 2 ^ w + (v + 2 ^ w).toNat := by omega
  rw [hwrap, hsum, two_pow_add_xor (by omega)]

lemma compare_toNat_add {p v u : Int} (hv : -p ≤ v) (hu : -p ≤ u) :
    compare (v + p).toNat (u + p).toNat = compare v u := by
  rcases lt_trichotomy v u with h | rfl | h
  · rw [compare_lt_iff_lt.2 h, compare_lt_iff_lt.2 (by omega)]
  · rw [compare_eq_iff_eq.2 rfl, compare_eq_iff_eq.2 rfl]
  · rw [compare_gt_iff_gt.2 h, compare_gt_iff_gt.2 (by omega)]

/-- Sign-flipped integers of `8 * k` bits, as big-endian bytes. -/
lemma compare_signFlip_append {k w : Nat} {v u : Int} (hw : 8 * k = w + 1)
    (hv : -2 ^ w ≤ v ∧ v < 2 ^ w) (hu : -2 ^ w ≤ u ∧ u < 2 ^ w) (s t : Bytes) :
    compare (be k (signFlip (8 * k) v) ++ s) (be k (signFlip (8 * k) u) ++ t) =
    (compare v u).then (compare s t) := by
  have hpow : 256 ^ k = 2 * 2 ^ w := by
    rw [show (256 : Nat) = 2 ^ 8 by rfl, ← Nat.pow_mul, hw, Nat.pow_succ, Nat.mul_comm]
  have hnat : ((2 ^ w : Nat) : Int) = 2 ^ w := Int.natCast_pow 2 w
  have hbound : ∀ {v : Int}, -2 ^ w ≤ v ∧ v < 2 ^ w → (v + 2 ^ w).toNat < 256 ^ k := by
    intro v hv
    omega
  rw [hw, signFlip_eq hv.1 hv.2, signFlip_eq hu.1 hu.2,
    compare_be_append (hbound hv) (hbound hu), compare_toNat_add hv.1 hu.1]

/-! ## Byte strings -/

/-- A byte string with its zeros escaped, and a terminator. -/
def escaped : Bytes → Bytes
  | [] => [0x00, 0x00]
  | b :: bs => if b = 0x00 then 0x00 :: 0xFF :: escaped bs else b :: escaped bs

lemma compare_escaped_append : ∀ (x y s t : Bytes),
    compare (escaped x ++ s) (escaped y ++ t) = (compare x y).then (compare s t)
  | [], [], s, t => rfl
  | [], y :: ys, s, t => by
    rw [escaped, escaped]
    split
    · rfl
    -- The terminator is below every byte that is not a zero.
    have hpos : compare (0x00 : UInt8) y = .lt := Std.compare_eq_lt.2 (UInt8.pos_iff_ne_zero.2 ‹_›)
    simp only [cons_append, compare_cons_cons, hpos]
    rfl
  | x :: xs, [], s, t => by
    rw [escaped, escaped]
    split
    · rfl
    · have hpos : compare x (0x00 : UInt8) = .gt :=
        Std.compare_eq_gt.2 (UInt8.pos_iff_ne_zero.2 ‹_›)
      simp only [cons_append, compare_cons_cons, hpos]
      rfl
  | x :: xs, y :: ys, s, t => by
    have ih := compare_escaped_append xs ys s t
    rw [escaped, escaped, compare_cons_cons, Ordering.then_assoc]
    split <;> split
    case isTrue.isTrue hx hy =>
      rw [hx, hy, cons_append, cons_append, cons_append, cons_append,
        compare_cons_cons, compare_cons_cons, ih]
      rfl
    case isTrue.isFalse hx hy =>
      have hpos : compare (0x00 : UInt8) y = .lt := Std.compare_eq_lt.2 (UInt8.pos_iff_ne_zero.2 hy)
      simp only [hx, cons_append, compare_cons_cons, hpos]
      rfl
    case isFalse.isTrue hx hy =>
      have hpos : compare x (0x00 : UInt8) = .gt := Std.compare_eq_gt.2 (UInt8.pos_iff_ne_zero.2 hx)
      rw [hy, cons_append, cons_append, compare_cons_cons, hpos]
      rfl
    case isFalse.isFalse => rw [cons_append, cons_append, compare_cons_cons, ih]

/-! ## Faithful encoders -/

/-- On the values that satisfy `dom`, comparing keys compares values. -/
def Faithful {α : Type*} (dom : α → Prop) (cmp : α → α → Ordering) (enc : α → Bytes) : Prop :=
  ∀ a b, dom a → dom b → ∀ s t, compare (enc a ++ s) (enc b ++ t) = (cmp a b).then (compare s t)

namespace Faithful

variable {α : Type*} {dom : α → Prop} {cmp : α → α → Ordering} {enc : α → Bytes}

lemma compare_eq (h : Faithful dom cmp enc) {a b : α} (ha : dom a) (hb : dom b) :
    compare (enc a) (enc b) = cmp a b := by
  have hcmp := h a b ha hb [] []
  rw [List.append_nil, List.append_nil, List.compare_nil_nil, Ordering.then_eq] at hcmp
  exact hcmp

lemma eq_iff (h : Faithful dom cmp enc) {a b : α} (ha : dom a) (hb : dom b) :
    enc a = enc b ↔ cmp a b = .eq := by
  rw [← h.compare_eq ha hb, Std.LawfulEqOrd.compare_eq_iff_eq]

/-- Tuples of one length, field after field. -/
lemma flatMap (h : Faithful dom cmp enc) : ∀ {xs ys : List α}, (∀ x ∈ xs, dom x) →
    (∀ y ∈ ys, dom y) → xs.length = ys.length → ∀ s t,
    compare (xs.flatMap enc ++ s)
    (ys.flatMap enc ++ t) = (List.compareLex cmp xs ys).then (compare s t)
  | [], [], _, _, _, s, t => rfl
  | x :: xs, y :: ys, hxs, hys, hlen, s, t => by
    have ih := h.flatMap (fun z hz => hxs z (mem_cons_of_mem x hz))
      (fun z hz => hys z (mem_cons_of_mem y hz)) (Nat.succ.inj hlen) s t
    rw [flatMap_cons, flatMap_cons, append_assoc, append_assoc,
      h x y (hxs x List.mem_cons_self) (hys y List.mem_cons_self), ih, List.compareLex_cons_cons,
      Ordering.then_assoc]

end Faithful

end KeyOrder
