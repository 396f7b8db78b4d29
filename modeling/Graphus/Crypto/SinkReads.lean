import Graphus.Crypto.Reopen

/-!
# Reads of the encrypted sink

A read makes a buffer of zeros for the range it was asked for, decrypts the frames of the index that
overlap it and copies each one to its place. A bounded read takes from the backing sink only the
extent of those frames; the header frame may lie below that extent and is then read on its own.

**Theorems (`readDurable_eq`, `readBounded_eq`).** When every index entry points at the bytes of its
frame, both reads are the plaintexts of the frames laid over zeros.
-/

namespace Graphus

open List

open Bytes (copyInto)
open EncryptedLogSink (frameBytesAt decryptFrameAt readDurable readBounded physicalExtent widen)

/-- The index entry `loc` points at the bytes of `f`. -/
structure Stored (cipher : Aead) (sink : LogSink) (loc : FrameLoc) (f : Frame) : Prop where
  loc_eq : loc = f.loc loc.physOffset
  fits : f.Fits
  bytes : (sink.durable.drop loc.physOffset).take f.physLen = f.encode cipher

/-- The index has the frames `G` in the order of their plaintexts, with a gap wherever frames have
been reclaimed. -/
structure SealedFrames (cipher : Aead) (s : EncryptedLogSink) (G : List Frame) : Prop where
  stored : List.Forall₂ (Stored cipher s.backing.sink) s.frames G
  apart : G.Pairwise fun f g => f.logicalEnd ≤ g.logicalOffset
  ends : ∀ f ∈ G, f.logicalEnd ≤ s.logicalDurableLen
  base : s.retainedBase < 2 ^ 64

/-- The plaintext of a frame with its offset. -/
def Frame.segment (f : Frame) : Nat × Bytes := (f.logicalOffset, f.plain)

section Reads

variable {cipher : Aead} {s : EncryptedLogSink} {loc : FrameLoc} {f : Frame} {G : List Frame}
  {physical : Bytes} {base start stop : Nat}

section

variable (h : Stored cipher s.backing.sink loc f)

include h

lemma Stored.physLen_eq : loc.physLen = f.physLen := congrArg FrameLoc.physLen h.loc_eq

lemma Stored.logicalOffset_eq : loc.logicalOffset = f.logicalOffset :=
  congrArg FrameLoc.logicalOffset h.loc_eq

lemma Stored.logicalEnd_eq : loc.logicalEnd = f.logicalEnd :=
  congrArg FrameLoc.logicalEnd h.loc_eq

section

variable (hat : base ≤ loc.physOffset → (physical.drop (loc.physOffset - base)).take f.physLen =
  f.encode cipher)

include hat

/-- The bytes of a stored frame, from what is at hand or from the backing sink. -/
lemma Stored.frameBytesAt_eq
    :
    s.frameBytesAt physical base loc = .ok (f.encode cipher) := by
  have hlen := Frame.length_encode cipher h.fits
  unfold frameBytesAt
  rw [h.physLen_eq]
  by_cases hbase : base ≤ loc.physOffset
  · have hbytes := hat hbase
    have hlong : f.physLen ≤ physical.length - (loc.physOffset - base) := by
      rw [← hlen, ← hbytes, length_take, length_drop]
      exact Nat.min_le_right ..
    have hpos : frameOverhead ≤ f.physLen := Frame.physLen_ge
    have hover : frameOverhead = 64 := rfl
    rw [if_pos hbase, if_neg (by omega), ← take_drop, hbytes]
  · have hbytes : s.backing.sink.readBounded loc.physOffset (loc.physOffset + f.physLen) =
      f.encode cipher := by
      rw [LogSink.readBounded, ← take_drop, h.bytes]
    rw [if_neg hbase, hbytes, if_neg (by omega)]

/-- **A stored frame decrypts to its plaintext.** -/
lemma Stored.decryptFrameAt_eq
    :
    s.decryptFrameAt cipher physical base loc = .ok f.plain := by
  have hct : (f.encode cipher).drop frOffCiphertext = f.sealed cipher := by
    rw [Frame.encode_eq, ← Frame.length_preamble h.fits, drop_left]
  have hnonce : ((f.encode cipher).drop frOffNonce).take nonceLen = f.nonce := by
    obtain ⟨-, -, -, -, -, hn⟩ := Frame.fields [] (f.sealed cipher) h.fits
      (show f.encode cipher = _ from Frame.encode_eq)
    exact hn
  unfold decryptFrameAt
  rw [h.frameBytesAt_eq hat, h.loc_eq]
  dsimp only [Frame.loc, bind, Except.bind]
  rw [hct, hnonce, Frame.sealed, cipher.decrypt_encrypt]
  exact if_neg (not_not.2 rfl)

end

end

/-- A loop that never fails. -/
lemma foldlM_of_forall₂ {f : Bytes → FrameLoc → Except SinkError Bytes}
    {L : List FrameLoc} {R : FrameLoc → Frame → Prop} (hL : List.Forall₂ R L G)
    (hf : ∀ loc ∈ L, ∀ g ∈ G, ∀ into, R loc g →
      f into loc = .ok (copyInto start stop into g.segment))
    (into : Bytes) :
    L.foldlM f into = .ok ((G.map Frame.segment).foldl (copyInto start stop) into) := by
  induction hL generalizing into with
  | nil => rfl
  | cons hR _ ih =>
    rw [foldlM_cons, hf _ mem_cons_self _ mem_cons_self into hR]
    exact ih (fun l hl g hg => hf l (mem_cons_of_mem _ hl) g (mem_cons_of_mem _ hg)) _

/-! ## The whole log -/

/-- One frame of a read. -/
lemma copyInto_segment (hend : start < f.logicalEnd) (into : Bytes) :
    (if f.plain.length ≤ start - f.logicalOffset then into
     else Bytes.place into (f.logicalOffset + (start - f.logicalOffset) - start)
      ((f.plain.drop (start - f.logicalOffset)).take
      (min f.logicalEnd stop - max f.logicalOffset start))) =
      copyInto start stop into f.segment := by
  unfold copyInto Frame.segment
  unfold Frame.logicalEnd at hend ⊢
  by_cases hin : f.logicalOffset < stop ∧ start < f.logicalOffset + f.plain.length
  · by_cases hskip : f.plain.length ≤ start - f.logicalOffset
    · -- the plaintext is empty
      have hnil : f.plain = [] := length_eq_zero_iff.1 (by omega)
      rw [hnil]
      simp [Bytes.place]
    · have hoff : f.logicalOffset + (start - f.logicalOffset) - start =
        max f.logicalOffset start - start := by omega
      rw [if_neg hskip, if_pos hin, hoff]
  · -- the frame is behind the range
    have hnone : min (f.logicalOffset + f.plain.length) stop - max f.logicalOffset start = 0 := by
      omega
    rw [hnone]
    simp [Bytes.place]

/-- **Reading the log to its end.** -/
lemma readDurable_eq (hG : SealedFrames cipher s G) (hstart : start < s.logicalDurableLen) :
    readDurable cipher s start = .ok ((G.map Frame.segment).foldl
      (copyInto start s.logicalDurableLen) (replicate (s.logicalDurableLen - start) 0)) := by
  unfold readDurable
  rw [if_neg (not_le.2 hstart)]
  refine foldlM_of_forall₂ hG.stored (fun loc _ g hg into h => ?_) _
  have hle := hG.ends g hg
  rw [h.logicalEnd_eq, h.logicalOffset_eq]
  by_cases hbelow : g.logicalEnd ≤ start
  · rw [if_pos hbelow, copyInto, if_neg]
    unfold Frame.segment Frame.logicalEnd at *
    dsimp only
    omega
  · rw [if_neg hbelow, h.decryptFrameAt_eq fun hbase => ?_]
    · dsimp only [bind, Except.bind]
      rw [← copyInto_segment (Nat.lt_of_not_le hbelow), take_of_length_le (by
        unfold Frame.logicalEnd at *
        rw [length_drop]
        omega)]
      split <;> rfl
    · rw [drop_drop, Nat.add_sub_of_le hbase, h.bytes]

/-! ## A bounded read -/

/-- The extent only grows, stays above the retained base, and has every frame that ends behind
`start`. -/
lemma foldl_widen (start : Nat) (L : List FrameLoc) (extent : Nat × Nat)
    (hlo : s.retainedBase ≤ extent.1) : s.retainedBase ≤ (L.foldl (s.widen start) extent).1 ∧
    (L.foldl (s.widen start) extent).1 ≤ extent.1 ∧ extent.2 ≤ (L.foldl (s.widen start) extent).2 ∧
    ∀ loc ∈ L, start < loc.logicalEnd → s.retainedBase ≤ loc.physOffset →
      (L.foldl (s.widen start) extent).1 ≤ loc.physOffset ∧
      loc.physOffset + loc.physLen ≤ (L.foldl (s.widen start) extent).2 := by
  induction L generalizing extent with
  | nil => exact ⟨hlo, le_rfl, le_rfl, fun _ h => nomatch h⟩
  | cons loc L ih =>
    rw [foldl_cons]
    by_cases hin : start < loc.logicalEnd ∧ s.retainedBase ≤ loc.physOffset
    · have hw : s.widen start extent loc =
          (min extent.1 loc.physOffset, max extent.2 (loc.physOffset + loc.physLen)) := by
        rw [widen, if_neg (not_le.2 hin.1), if_pos hin.2]
      rw [hw]
      obtain ⟨h1, h2, h3, h4⟩ := ih (min extent.1 loc.physOffset, _) (Nat.le_min.2 ⟨hlo, hin.2⟩)
      refine ⟨h1, le_trans h2 (Nat.min_le_left ..), le_trans (Nat.le_max_left ..) h3, ?_⟩
      intro l hl
      rcases mem_cons.1 hl with rfl | hl
      · exact fun _ _ => ⟨le_trans h2 (Nat.min_le_right ..), le_trans (Nat.le_max_right ..) h3⟩
      · exact h4 l hl
    · have hw : s.widen start extent loc = extent := by
        unfold widen
        split
        · rfl
        · rw [if_neg fun hbase => hin ⟨Nat.lt_of_not_le ‹_›, hbase⟩]
      rw [hw]
      obtain ⟨h1, h2, h3, h4⟩ := ih extent hlo
      refine ⟨h1, h2, h3, ?_⟩
      intro l hl
      rcases mem_cons.1 hl with rfl | hl
      · exact fun hlt hbase => absurd ⟨hlt, hbase⟩ hin
      · exact h4 l hl

lemma forall₂_takeWhile {L : List FrameLoc} (h : List.Forall₂ (Stored cipher s.backing.sink) L G) :
    List.Forall₂ (Stored cipher s.backing.sink) (L.takeWhile fun loc => loc.logicalOffset < stop)
      (G.takeWhile fun f => f.logicalOffset < stop) := by
  induction h with
  | nil => exact .nil
  | cons hR _ ih =>
    rw [takeWhile_cons, takeWhile_cons, hR.logicalOffset_eq]
    split
    · exact .cons hR ih
    · exact .nil

/-- **Reading a range of the log.** -/
lemma readBounded_eq (hG : SealedFrames cipher s G)
    (hstart : start < min stop s.logicalDurableLen) :
    readBounded cipher s start stop =
    .ok ((G.map Frame.segment).foldl (copyInto start (min stop s.logicalDurableLen))
      (replicate (min stop s.logicalDurableLen - start) 0)) := by
  have hsorted : G.Pairwise fun f g => f.logicalOffset ≤ g.logicalOffset :=
    hG.apart.imp fun hle => le_trans (Nat.le_add_right ..) hle
  unfold readBounded
  dsimp only
  generalize min stop s.logicalDurableLen = stop at hstart ⊢
  rw [if_neg (not_le.2 hstart), ← Bytes.foldl_copyInto_takeWhile (pairwise_map.2 hsorted),
    takeWhile_map]
  obtain ⟨hlow, -, -, hcover⟩ := foldl_widen start
    (s.frames.takeWhile fun loc => loc.logicalOffset < stop) (2 ^ 64 - 1, 0)
    (Nat.le_sub_one_of_lt hG.base)
  change s.retainedBase ≤ (s.physicalExtent start stop).1 at hlow
  change ∀ loc ∈ _, _ → _ → (s.physicalExtent start stop).1 ≤ _ ∧
    _ ≤ (s.physicalExtent start stop).2 at hcover
  generalize s.physicalExtent start stop = extent at hlow hcover ⊢
  refine foldlM_of_forall₂ (forall₂_takeWhile hG.stored) (fun loc hloc g hg into h => ?_) _
  rw [h.logicalEnd_eq, h.logicalOffset_eq]
  by_cases hend : min g.logicalEnd stop ≤ start
  · rw [if_pos hend, copyInto, if_neg]
    unfold Frame.segment Frame.logicalEnd at *
    dsimp only
    omega
  · rw [if_neg hend, h.decryptFrameAt_eq fun hat => ?_]
    · dsimp only [bind, Except.bind]
      rw [← copyInto_segment (lt_of_lt_of_le (Nat.lt_of_not_le hend) (Nat.min_le_left ..))]
      split <;> rfl
    · have hpos : frameOverhead ≤ g.physLen := Frame.physLen_ge
      have hover : frameOverhead = 64 := rfl
      have hbehind : start < loc.logicalEnd := by
        rw [h.logicalEnd_eq]
        omega
      by_cases hsome : extent.1 < extent.2
      · -- the frame is in the extent that was read
        rw [if_pos hsome] at hat ⊢
        obtain ⟨-, hhi⟩ := hcover loc hloc hbehind (le_trans hlow hat)
        rw [h.physLen_eq] at hhi
        rw [LogSink.readBounded, drop_drop, Nat.add_sub_of_le hat, take_drop,
          take_take, Nat.min_eq_left hhi, ← take_drop, h.bytes]
      · -- nothing at or above the retained base overlaps the range
        rw [if_neg hsome] at hat
        have := hcover loc hloc hbehind hat
        rw [h.physLen_eq] at this
        omega

/-- **Bounded and full reads agree.** Wherever the range cuts the frames and the gaps between them,
a bounded read is that range of the whole log. -/
theorem readBounded_eq_range (h : SealedFrames cipher s G) (start stop : Nat) :
    ∃ log, readDurable cipher s 0 = .ok log ∧ log.length = s.durableLen ∧
      readBounded cipher s start stop = .ok ((log.take stop).drop start) := by
  by_cases hempty : s.logicalDurableLen = 0
  · refine ⟨[], if_pos (Nat.le_of_eq hempty), hempty.symm, ?_⟩
    rw [take_nil, drop_nil]
    exact if_pos (by omega)
  refine ⟨_, readDurable_eq h (Nat.pos_of_ne_zero hempty),
    Bytes.length_foldl_copyInto length_replicate, ?_⟩
  rw [Nat.sub_zero, ← Bytes.foldl_copyInto_range]
  by_cases hin : start < min stop s.logicalDurableLen
  · exact readBounded_eq h hin
  · rw [length_eq_zero_iff.1 (Bytes.length_foldl_copyInto length_replicate |>.trans (by omega))]
    exact if_pos (Nat.le_of_not_lt hin)

end Reads

end Graphus
