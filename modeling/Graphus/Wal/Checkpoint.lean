import Graphus.Lib.Bytes

/-!
# Checkpoint snapshots

The payload of a checkpoint-end record (`graphus-wal/src/checkpoint.rs`): the dirty page table and
the active transaction table, as two length-prefixed arrays of pairs. Bytes after the second array
are ignored.
-/

namespace Graphus

open Bytes List

structure CheckpointSnapshot where
  /-- page, recovery LSN -/
  dirtyPages : List (Nat × Nat) := []
  /-- transaction, last LSN -/
  activeTxns : List (Nat × Nat) := []

namespace CheckpointSnapshot

def encodePairs (ps : List (Nat × Nat)) : Bytes :=
  le 4 ps.length ++ ps.flatMap fun p => le 8 p.1 ++ le 8 p.2

def encode (s : CheckpointSnapshot) : Bytes :=
  encodePairs s.dirtyPages ++ encodePairs s.activeTxns

/-- `take_u32` and `take_u64`: a field of `k` bytes and what follows it. -/
def takeField (k : Nat) (bytes : Bytes) : Option (Nat × Bytes) :=
  if bytes.length < k then none else some (toNat (bytes.take k), bytes.drop k)

def takePairs : Nat → Bytes → Option (List (Nat × Nat) × Bytes)
  | 0, bytes => some ([], bytes)
  | n + 1, bytes => do
    let (a, bytes) ← takeField 8 bytes
    let (b, bytes) ← takeField 8 bytes
    let (ps, bytes) ← takePairs n bytes
    some ((a, b) :: ps, bytes)

/-- A length and that many pairs. -/
def takeArray (bytes : Bytes) : Option (List (Nat × Nat) × Bytes) := do
  let (n, bytes) ← takeField 4 bytes
  takePairs n bytes

def decode (bytes : Bytes) : Option CheckpointSnapshot := do
  let (dirtyPages, bytes) ← takeArray bytes
  let (activeTxns, _) ← takeArray bytes
  some { dirtyPages, activeTxns }

/-- The smallest recovery LSN of a dirty page. -/
def redoStart (s : CheckpointSnapshot) : Option Nat := (s.dirtyPages.map Prod.snd).min?

/-! ## Round trip -/

lemma takeField_le {k n : Nat} (h : n < 256 ^ k) (rest : Bytes) :
    takeField k (le k n ++ rest) = some (n, rest) := by
  have hshort : ¬ (le k n ++ rest).length < k := by simp
  have htake : (le k n ++ rest).take k = le k n := take_left' (length_le k n)
  have hdrop : (le k n ++ rest).drop k = rest := drop_left' (length_le k n)
  rw [takeField, if_neg hshort, htake, hdrop, toNat_le h]

/-- The numbers of the table fit their fields. -/
def FitsPairs (ps : List (Nat × Nat)) : Prop :=
  ps.length < 256 ^ 4 ∧ ∀ p ∈ ps, p.1 < 256 ^ 8 ∧ p.2 < 256 ^ 8

variable {ps : List (Nat × Nat)}

lemma takePairs_flatMap (h : ∀ p ∈ ps, p.1 < 256 ^ 8 ∧ p.2 < 256 ^ 8) (rest : Bytes) :
    takePairs ps.length ((ps.flatMap fun p => le 8 p.1 ++ le 8 p.2) ++ rest) = some (ps, rest) := by
  induction ps with
  | nil => rfl
  | cons p ps ih =>
    obtain ⟨h1, h2⟩ := h p mem_cons_self
    have ih := ih fun q hq => h q (mem_cons_of_mem _ hq)
    simp only [length_cons, takePairs, flatMap_cons, append_assoc,
      takeField_le h1, takeField_le h2, ih, Option.bind_eq_bind, Option.bind_some]

lemma takeArray_encodePairs (h : FitsPairs ps) (rest : Bytes) :
    takeArray (encodePairs ps ++ rest) = some (ps, rest) := by
  rw [takeArray, encodePairs, append_assoc, takeField_le h.1]
  exact takePairs_flatMap h.2 rest

/-- **A snapshot decodes to itself.** -/
theorem decode_encode_tables {s : CheckpointSnapshot} (hd : FitsPairs s.dirtyPages)
    (ha : FitsPairs s.activeTxns) : decode s.encode = some s := by
  have hlast : takeArray (encodePairs s.activeTxns) = some (s.activeTxns, []) := by
    have := takeArray_encodePairs ha []
    rwa [append_nil] at this
  rw [decode, encode, takeArray_encodePairs hd]
  simp only [Option.bind_eq_bind, Option.bind_some, hlast]

theorem decode_encode_tables_two :
    decode (encode ⟨[(1, 8), (2 ^ 40, 24)], [(5, 9), (2, 16), (7, 0)]⟩) =
      some ⟨[(1, 8), (2 ^ 40, 24)], [(5, 9), (2, 16), (7, 0)]⟩ :=
  decode_encode_tables (by simp [FitsPairs]) (by simp [FitsPairs])

end CheckpointSnapshot

end Graphus
