import Graphus.Crypto.SinkReads
import Graphus.Lib.Run

/-!
# Runs of the encrypted sink

A run appends, syncs, reclaims, crashes and opens again; the backing sink may fail a sync, free less
than it was asked to, and keep any part of what it had not synced when the process dies.

**Theorem (`encrypted_sink_transparent`).** When every frame is sealed right behind the last indexed
one and the reclaims protect the header frame, every byte whose sync was acknowledged is read back
at its offset, or reads as zero below the reclaimed floor, and the durable length never shrinks when
the sink is opened again.

**The counterexample (`tornFrame_loses_acknowledged`).** The torn bytes of a crash stay in the
backing sink. The next frame is appended behind them, and the next scan stops in front of it.
-/

namespace Graphus

open List EncryptedLogSink

open EncryptedLogSink (sync readDurable readBounded reclaim)

/-! ## The run -/

inductive SinkOp where
  | append (bytes : Bytes)
  /-- the nonce drawn, and whether the backing sink syncs -/
  | sync (nonce : Bytes) (ok : Bool)
  /-- the range, and what the backing sink frees -/
  | reclaim (start stop : Nat) (freed : Option Nat)
  /-- how many of the bytes the backing sink has not synced are on disk -/
  | reopen (kept : Nat)

/-- The sink and the batches whose sync was acknowledged, each with its plaintext offset. -/
structure SinkWorld where
  sink : EncryptedLogSink
  acked : List (Nat × Bytes) := []

namespace SinkWorld

def fresh (k : Keyring) : SinkWorld where
  sink := { backing := Backing.append {} (encodeSinkHeader k.kcv), headerPhysLen := headerSize k }

-- what `create` makes over an empty backing sink
example (k : Keyring) : EncryptedLogSink.create {} k = .ok (fresh k).sink := rfl

def step (k : Keyring) (w : SinkWorld) : SinkOp → Option SinkWorld
  | .append bytes => some { w with sink := w.sink.append bytes }
  | .sync nonce ok =>
    match sync k.cipher w.sink nonce ok with
    | (sink, .ok ()) =>
      some { sink, acked := (w.sink.logicalDurableLen, w.sink.pending) :: w.acked }
    | (sink, .error _) => some { w with sink }
  | .reclaim start stop freed => (w.sink.reclaim start stop freed).map fun sink => { w with sink }
  | .reopen kept =>
    match EncryptedLogSink.open (w.sink.backing.crash kept) k with
    | .ok sink => some { w with sink }
    | .error _ => none

variable (s : EncryptedLogSink)

/-- The physical end of the last indexed frame, or of the sink header. -/
def indexedEnd : Nat :=
  (s.frames.getLast?.map fun loc => loc.physOffset + loc.physLen).getD s.headerPhysLen

/-- The condition on a step. A batch is sealed only when the backing sink ends right behind the last
indexed frame, and fits the offsets of the log. A reclaim protects the header frame and no other,
and the header frame is one that opening can read back. -/
def Allowed (w : SinkWorld) : SinkOp → Prop
  | .append _ => True
  | .sync nonce _ => nonce.length = nonceLen ∧ (w.sink.pending ≠ [] →
      w.sink.backing.sink.bufferedLen = indexedEnd w.sink ∧
      w.sink.backing.sink.bufferedLen + frameOverhead + w.sink.pending.length < 2 ^ 63)
  | .reclaim start _ _ => 0 < start ∧ (∀ loc ∈ w.sink.frames.tail, start ≤ loc.logicalOffset) ∧
      ∀ loc ∈ w.sink.frames.head?, loc.physLen ≤ headerFrameMaxPhys
  | .reopen _ => True

/-- The end of the header frame in the plaintext. -/
def headerEnd : Nat := (s.frames.head?.map FrameLoc.logicalEnd).getD 0

/-- What is read where `b` was acknowledged at the offset `o`. -/
def visible (o : Nat) (b : UInt8) : UInt8 :=
  if headerEnd s ≤ o ∧ o < s.reclaimedFloor then 0 else b

/-- Every acknowledged byte is durable, and is read at its offset by every read that covers it. -/
def Transparent (k : Keyring) (w : SinkWorld) : Prop :=
  ∀ batch ∈ w.acked, ∀ i b, batch.2[i]? = some b → batch.1 + i < w.sink.durableLen ∧
    (∀ start ≤ batch.1 + i, ∃ out, readDurable k.cipher w.sink start = .ok out ∧
      out[batch.1 + i - start]? = some (visible w.sink (batch.1 + i) b)) ∧
    ∀ start ≤ batch.1 + i, ∀ stop > batch.1 + i, ∃ out,
      readBounded k.cipher w.sink start stop = .ok out ∧
      out[batch.1 + i - start]? = some (visible w.sink (batch.1 + i) b)

end SinkWorld

/-! ## The invariant -/

/-- The frames `F` are durable and indexed, apart from what has been reclaimed; `extra` is the
beginning of one more frame, or all of it. -/
structure SinkInv (k : Keyring) (w : SinkWorld) (F : List Frame) (extra : Bytes) : Prop where
  holds : Holds k w.sink.backing.sink F extra
  headerPhysLen : w.sink.headerPhysLen = headerSize k
  fits : ∀ f ∈ F, f.Fits
  chained : Chained 0 F
  durable : F ≠ [] → headerSize k + physEnd F ≤ w.sink.backing.sink.durable.length
  next : ∃ g rest, Frame.Fits g ∧ g.logicalOffset = logicalEndOf 0 F ∧
    g.encode k.cipher = extra ++ rest
  indexed : Indexed k w.sink.backing.sink.reclaimedFloor F w.sink.frames
  logical : w.sink.logicalDurableLen = logicalEndOf 0 F
  ends : ∀ e ∈ w.sink.backing.ends, (∃ A B, F = A ++ B ∧ e = headerSize k + physEnd A) ∨
    (e = w.sink.backing.sink.durable.length ∧ w.sink.backing.sink.pending = [])
  acked : ∀ batch ∈ w.acked, batch.2 = [] ∨ ∃ f ∈ F, f.logicalOffset = batch.1 ∧ f.plain = batch.2
  size : headerSize k + physEnd F + extra.length < 2 ^ 63

section Steps

variable {k : Keyring} {w w' : SinkWorld} {F : List Frame} {extra : Bytes}

/-- A frame without a plaintext. -/
def Frame.blank (logicalOffset : Nat) : Frame where
  logicalOffset
  writeCount := 0
  nonce := replicate nonceLen 0
  plain := []

lemma Frame.blank_fits {off : Nat} (h : off < 2 ^ 64) : (Frame.blank off).Fits :=
  ⟨rfl, h, Nat.two_pow_pos 64, show frameOverhead + 0 < 2 ^ 64 by decide⟩

open Graphus.Frame (blank blank_fits length_encode logicalEnd)

lemma logicalEnd_le_physEnd (h : Chained 0 F) : logicalEndOf 0 F ≤ physEnd F := by
  rw [h.logicalEndOf_eq]
  clear h
  induction F with
  | nil => exact le_rfl
  | cons f F ih =>
    rw [map_cons, sum_cons, physEnd_cons, Frame.physLen_eq]
    omega

lemma locs_getLast? (phys : Nat) (hF : F ≠ []) :
    (locs phys F).getLast?.map (fun loc => loc.physOffset + loc.physLen) =
    some (phys + physEnd F) := by
  induction F generalizing phys with
  | nil => exact absurd rfl hF
  | cons f F ih =>
    cases F with
    | nil => rfl
    | cons g F =>
      have := ih (phys + f.physLen) (cons_ne_nil g F)
      rw [physEnd_cons, ← Nat.add_assoc, ← this]
      rfl

/-- The index ends where the frames end. -/
lemma SinkInv.indexedEnd_eq (h : SinkInv k w F extra) :
    SinkWorld.indexedEnd w.sink = headerSize k + physEnd F := by
  unfold SinkWorld.indexedEnd
  rcases h.indexed with ⟨rfl, hframes⟩ | ⟨f, A, B, rfl, hframes, -, hAB⟩
  · rw [hframes, h.headerPhysLen]
    rfl
  rw [hframes, physEnd_cons, physEnd_append]
  by_cases hB : B = []
  · subst hB
    rw [hAB.resolve_right (not_not.2 rfl)]
    rfl
  have hlast := locs_getLast? (headerSize k + f.physLen + physEnd A) hB
  obtain ⟨loc, hloc, heq⟩ := Option.map_eq_some_iff.1 hlast
  rw [getLast?_cons, hloc]
  show loc.physOffset + loc.physLen = _
  omega

lemma SinkInv.bufferedLen_eq (h : SinkInv k w F extra) :
    w.sink.backing.sink.bufferedLen = headerSize k + physEnd F + extra.length := by
  rw [LogSink.bufferedLen, ← length_append, h.holds.length, length_image h.fits]

lemma SinkInv.fresh : SinkInv k (SinkWorld.fresh k) [] [] where
  holds := by
    have hstream : (SinkWorld.fresh k).sink.backing.sink.durable ++
        (SinkWorld.fresh k).sink.backing.sink.pending = image k [] [] := by
      rw [image, show encodeFrames k.cipher [] ++ [] = [] from rfl, append_nil]
      rfl
    exact ⟨by rw [hstream], by rw [hstream], by rw [hstream], .inl rfl⟩
  headerPhysLen := rfl
  fits := nofun
  chained := trivial
  durable h := absurd rfl h
  next := ⟨blank 0, _, blank_fits (by decide), rfl, rfl⟩
  indexed := .inl ⟨rfl, rfl⟩
  logical := rfl
  ends := nofun
  acked := nofun
  size := by
    have hlt := k.kcv_lt
    have hpre : hdrPrefixLen = 20 := rfl
    rw [length_sinkHeader]
    show hdrPrefixLen + k.kcv.length + 0 + 0 < _
    omega

/-- What the invariant says of another plaintext buffer. -/
lemma SinkInv.setPending (h : SinkInv k w F extra) (bytes : Bytes) (n : Nat) :
    SinkInv k { w with sink := { w.sink with pending := bytes, consumed := n } } F extra :=
  { h with }

/-- The backing sink syncs what it has. -/
lemma SinkInv.syncBacking (h : SinkInv k w F extra) : SinkInv k { w with sink := { w.sink with
      backing :=
        ⟨w.sink.backing.sink.sync, w.sink.backing.sink.bufferedLen :: w.sink.backing.ends⟩ } }
      F extra :=
  { h with
    holds := h.holds.congr (append_nil _) rfl
    durable hF := le_trans (h.durable hF) (sublist_append_left ..).length_le
    ends e he := by
      rcases mem_cons.1 he with rfl | he
      · refine .inr ⟨?_, rfl⟩
        show _ = (_ ++ _ : Bytes).length
        rw [length_append]
        rfl
      · rcases h.ends e he with hb | ⟨hlen, hpend⟩
        · exact .inl hb
        · refine .inr ⟨?_, rfl⟩
          show e = (_ ++ _ : Bytes).length
          rw [hpend, append_nil, hlen] }

variable {g f : Frame}

/-- One frame more. -/
lemma SinkInv.snoc (h : SinkInv k w F extra) (hg : g.Fits)
    (hoff : g.logicalOffset = logicalEndOf 0 F) :
    Chained 0 (F ++ [g]) ∧ (∀ f ∈ F ++ [g], f.Fits) ∧ logicalEndOf 0 (F ++ [g]) = g.logicalEnd :=
  ⟨Chained.append_iff.2 ⟨h.chained, hoff, trivial⟩,
    forall_mem_append.2 ⟨h.fits, forall_mem_singleton.2 hg⟩, logicalEndOf_append ..⟩

variable {frames : List FrameLoc}

/-- The bytes behind the last frame are a whole frame, and durable: it is one frame more. -/
lemma SinkInv.promote (h : SinkInv k w F (g.encode k.cipher))
    (hg : g.Fits) (hoff : g.logicalOffset = logicalEndOf 0 F)
    (hback : w'.sink.backing = w.sink.backing)
    (hhdr : w'.sink.headerPhysLen = headerSize k) (hdurable : w.sink.backing.sink.pending = [])
    (hframes : Indexed k w.sink.backing.sink.reclaimedFloor (F ++ [g]) frames)
    (hsink : w'.sink.frames = frames) (hlogical : w'.sink.logicalDurableLen = g.logicalEnd)
    (hacked : ∀ b ∈ w'.acked, b = (g.logicalOffset, g.plain) ∨ b ∈ w.acked) :
    SinkInv k w' (F ++ [g]) [] := by
  have hphys : physEnd (F ++ [g]) = physEnd F + g.physLen := by
    rw [physEnd_append]
    rfl
  have hlenT := h.bufferedLen_eq
  have hglen := length_encode k.cipher hg
  obtain ⟨hchain, hfits, hend⟩ := h.snoc hg hoff
  have hsize : headerSize k + physEnd (F ++ [g]) + ([] : Bytes).length < 2 ^ 63 := by
    have := h.size
    rw [hglen] at this
    rw [hphys]
    exact lt_of_le_of_lt (by simp; omega) this
  have hlen : w.sink.backing.sink.durable.length = headerSize k + physEnd (F ++ [g]) := by
    rw [LogSink.bufferedLen, hdurable, hglen] at hlenT
    rw [hphys]
    simpa [Nat.add_assoc] using hlenT
  exact {
    holds := by
      rw [hback]
      exact h.holds.promote
    headerPhysLen := hhdr
    fits := hfits
    chained := hchain
    durable _ := by rw [hback, hlen]
    next := ⟨blank (logicalEndOf 0 (F ++ [g])), _, blank_fits (by
      have := logicalEnd_le_physEnd hchain
      omega), rfl, rfl⟩
    indexed := by
      rw [hback, hsink]
      exact hframes
    logical := hlogical.trans hend.symm
    ends e he := by
      rw [hback] at he
      rcases h.ends e he with ⟨A, B, hF, heq⟩ | ⟨heq, -⟩
      · refine .inl ⟨A, B ++ [g], ?_, heq⟩
        rw [hF, append_assoc]
      · refine .inl ⟨F ++ [g], [], (append_nil _).symm, ?_⟩
        rw [heq, hlen]
    acked b hb := by
      rcases hacked b hb with rfl | hb
      · exact .inr ⟨g, mem_append_right F mem_cons_self, rfl, rfl⟩
      · exact (h.acked b hb).imp_right fun ⟨f, hf, heq⟩ => ⟨f, mem_append_left _ hf, heq⟩
    size := hsize }

lemma Indexed.append {floor : Nat} (h : Indexed k floor F frames)
    (hfloor : floor ≤ headerSize k + physEnd F) (g : Frame) :
    Indexed k floor (F ++ [g]) (frames ++ [g.loc (headerSize k + physEnd F)]) := by
  rcases h with ⟨rfl, rfl⟩ | ⟨f, A, B, rfl, rfl, hle, -⟩
  · exact .inr ⟨g, [], [], rfl, rfl, le_trans hfloor (Nat.le_add_right ..), .inl rfl⟩
  refine .inr ⟨f, A, B ++ [g], ?_, ?_, hle, .inr (by simp)⟩
  · rw [cons_append, append_assoc]
  · rw [locs_append, physEnd_cons, physEnd_append]
    show _ :: (_ ++ [_]) = _ :: (_ ++ [_])
    simp only [Nat.add_assoc]

/-- Where the syncs of a sink without bytes behind its frames have ended. -/
lemma SinkInv.ends_boundary (h : SinkInv k w F []) : ∀ e ∈ w.sink.backing.ends,
    ∃ A B, F = A ++ B ∧ e = headerSize k + physEnd A := by
  intro e he
  rcases h.ends e he with hb | ⟨heq, hpend⟩
  · exact hb
  · have hlen := h.bufferedLen_eq
    rw [LogSink.bufferedLen, hpend] at hlen
    exact ⟨F, [], (append_nil F).symm, heq.trans hlen⟩

lemma SinkInv.sync (h : SinkInv k w F extra) {nonce : Bytes} {ok : Bool}
    (hok : w.Allowed (.sync nonce ok)) (hstep : w.step k (.sync nonce ok) = some w') :
    ∃ F' extra', SinkInv k w' F' extra' := by
  obtain ⟨hnonce, hseal⟩ := hok
  dsimp only [SinkWorld.step, EncryptedLogSink.sync] at hstep
  by_cases hpend : w.sink.pending = []
  · rw [if_pos hpend] at hstep
    cases ok with
    | true =>
      cases hstep
      exact ⟨F, extra, { h.syncBacking with acked := forall_mem_cons.2 ⟨.inl hpend, h.acked⟩ }⟩
    | false =>
      cases hstep
      exact ⟨F, extra, h⟩
  · rw [if_neg hpend] at hstep
    obtain ⟨hend, hsize⟩ := hseal hpend
    by_cases hbudget : maxWritesPerSubkey ≤ w.sink.consumed
    · rw [if_pos hbudget] at hstep
      cases hstep
      exact ⟨F, extra, h⟩
    rw [if_neg hbudget] at hstep
    have hextra : extra = [] := by
      rw [h.indexedEnd_eq, h.bufferedLen_eq] at hend
      exact length_eq_zero_iff.1 (by omega)
    subst hextra
    have hmax : maxWritesPerSubkey = 2 ^ 32 := rfl
    let g : Frame := ⟨w.sink.logicalDurableLen, w.sink.consumed + 1, nonce, w.sink.pending⟩
    have hphys : g.physLen = frameOverhead + w.sink.pending.length := rfl
    have hlogical := logicalEnd_le_physEnd h.chained
    have hbuf := h.bufferedLen_eq
    have hg : g.Fits := by
      refine ⟨hnonce, ?_, ?_, ?_⟩
      · show w.sink.logicalDurableLen < _
        rw [h.logical]
        omega
      · show w.sink.consumed + 1 < _
        omega
      · omega
    -- the frame is in the backing sink and not yet synced
    have happ : SinkInv k { w with sink := { w.sink with
        backing := w.sink.backing.append (g.encode k.cipher) } } F (g.encode k.cipher) :=
      { h with
        holds := h.holds.append h.fits (g.encode k.cipher)
        next := ⟨g, [], hg, h.logical, (append_nil _).symm⟩
        ends e he := .inl (h.ends_boundary e he)
        size := by
          rw [length_encode k.cipher hg]
          omega }
    cases ok with
    | false =>
      cases hstep
      exact ⟨F, _, happ.setPending [] (w.sink.consumed + 1)⟩
    | true =>
      cases hstep
      have hloc := congrArg₂
        (FrameLoc.mk w.sink.logicalDurableLen w.sink.pending.length · · (w.sink.consumed + 1))
        hbuf (length_encode k.cipher hg)
      exact ⟨F ++ [g], [], happ.syncBacking.promote hg h.logical rfl h.headerPhysLen rfl
        (h.indexed.append h.holds.floor_le g)
        (congrArg (w.sink.frames ++ [·]) hloc) rfl fun _ => mem_cons.1⟩

lemma locs_length (phys : Nat) (F : List Frame) : (locs phys F).length = F.length := by
  induction F generalizing phys with
  | nil => rfl
  | cons f F ih => rw [locs, length_cons, length_cons, ih]

variable {B A : List Frame}

/-- The frames that a reclaim drops from the index, and those that stay. -/
lemma reclaim_split (phys : Nat) (p : FrameLoc → Bool) (hB : B ≠ []) :
    ∃ C D, B = C ++ D ∧ D ≠ [] ∧ (locs phys B).dropLast.takeWhile p = locs phys C ∧
      (locs phys B).drop (locs phys C).length = locs (phys + physEnd C) D := by
  have hcut := takeWhile_prefix p (l := (locs phys B).dropLast)
  generalize (locs phys B).dropLast.takeWhile p = cut at hcut ⊢
  have hlt : cut.length < B.length := by
    have hle := hcut.length_le
    rw [length_dropLast, locs_length] at hle
    have := length_pos_iff.2 hB
    omega
  have hlen : (locs phys (B.take cut.length)).length = cut.length := by
    rw [locs_length, length_take, min_eq_left hlt.le]
  have hsplit := locs_append phys (F := B.take cut.length) (G := B.drop cut.length)
  rw [take_append_drop] at hsplit
  refine ⟨B.take cut.length, B.drop cut.length, (take_append_drop ..).symm, ?_, ?_, ?_⟩
  · intro hnil
    have := drop_eq_nil_iff.1 hnil
    omega
  · exact (prefix_iff_eq_take.1 (hcut.trans ( dropLast_prefix _))).trans (hsplit ▸ take_left' hlen)
  · rw [hsplit, drop_left]

/-- The index behind a reclaim, whatever the backing sink has freed. -/
lemma SinkInv.reclaimed {C D : List Frame} (h : SinkInv k w (f :: (A ++ (C ++ D))) extra)
    {base : Nat} (hbase : base = headerSize k + f.physLen + physEnd A) (hD : D ≠ [])
    {backing : Backing}
    {freed : Option Nat}
    (hfree : w.sink.backing.reclaim base (base + physEnd C) freed = some backing)
    (hmax : f.physLen ≤ headerFrameMaxPhys) (hfloor : w.sink.backing.sink.reclaimedFloor ≤ base) :
    SinkInv k { w with sink := { w.sink with
      backing
      frames := [f.loc (headerSize k)] ++ locs (base + physEnd C) D } }
        (f :: (A ++ (C ++ D))) extra := by
  have hindexed : ∀ floor ≤ base + physEnd C, Indexed k floor (f :: (A ++ (C ++ D)))
      ([f.loc (headerSize k)] ++ locs (base + physEnd C) D) := by
    intro floor hle
    rw [hbase] at hle ⊢
    refine .inr ⟨f, A ++ C, D, by rw [append_assoc], ?_, ?_, .inr hD⟩
    · rw [physEnd_append, ← Nat.add_assoc]
      rfl
    · rwa [physEnd_append, ← Nat.add_assoc]
  cases freed with
  | none =>
    cases hfree
    exact { h with indexed := hindexed _ (Nat.le_add_right_of_le hfloor) }
  | some e =>
    dsimp only [Backing.reclaim] at hfree
    split at hfree
    · rename_i hcond
      obtain ⟨hge, hle, hold, hend⟩ := hcond
      cases hfree
      have hphys := h.durable (cons_ne_nil _ _)
      rw [physEnd_cons, physEnd_append, physEnd_append] at hphys
      have hDpos : 0 < physEnd D := by
        have := length_le_physEnd (F := D)
        have := length_pos_iff.2 hD
        omega
      have hfpos : 0 < f.physLen := lt_of_lt_of_le (by decide) (Frame.physLen_ge (f := f))
      -- what is freed ends at a frame
      obtain ⟨A1, B1, hsplit, hB1, he⟩ : ∃ A1 B1, A ++ (C ++ D) = A1 ++ B1 ∧ B1 ≠ [] ∧
          e = headerSize k + f.physLen + physEnd A1 := by
        rcases hend with rfl | hmem
        · refine ⟨A ++ C, D, by rw [append_assoc], hD, ?_⟩
          rw [physEnd_append]
          omega
        rcases h.ends e hmem with ⟨A2, B2, hF, heq⟩ | ⟨heq, -⟩
        · cases A2 with
          | nil =>
            have : e = headerSize k := heq
            omega
          | cons a A2 =>
            obtain ⟨rfl, hF'⟩ := cons.inj hF
            rw [physEnd_cons, ← Nat.add_assoc] at heq
            refine ⟨A2, B2, hF', ?_, heq⟩
            rintro rfl
            have hall : A ++ (C ++ D) = A2 := hF'.trans (append_nil A2)
            rw [← hall, physEnd_append, physEnd_append] at heq
            omega
        · omega
      have hlen : (w.sink.backing.sink.free base e).durable.length =
        w.sink.backing.sink.durable.length := by
        show (_ ++ _ ++ _ : Bytes).length = _
        rw [length_append, length_append, length_take, length_replicate, length_drop]
        omega
      rw [hsplit] at h hindexed ⊢
      exact { h with
        holds := h.holds.free hB1 he hold (by omega) hge (by omega) hmax
        durable hne := by
          show _ ≤ (w.sink.backing.sink.free _ _).durable.length
          rw [hlen]
          exact h.durable hne
        indexed := hindexed e hle
        ends x hx := (h.ends x hx).imp_right fun ⟨h1, h2⟩ => ⟨h1.trans hlen.symm, h2⟩ }
    · cases hfree

section

variable (h : SinkInv k w F extra)

include h

lemma SinkInv.reclaim {start stop : Nat} {freed : Option Nat}
    (hok : w.Allowed (.reclaim start stop freed))
    (hstep : w.step k (.reclaim start stop freed) = some w') : SinkInv k w' F extra := by
  obtain ⟨hstart, htail, hhead⟩ := hok
  obtain ⟨sink, hsink, rfl⟩ := Option.map_eq_some_iff.1 hstep
  unfold reclaim at hsink
  by_cases hshort : w.sink.frames.length ≤ 1
  · rw [if_pos hshort] at hsink
    cases hsink
    exact h
  rw [if_neg hshort] at hsink
  rcases h.indexed with ⟨-, hframes⟩ | ⟨f, A, B, rfl, hframes, hfloor, -⟩
  · rw [hframes] at hshort
    exact absurd (Nat.zero_le 1) hshort
  have hB : B ≠ [] := by
    rintro rfl
    rw [hframes] at hshort
    exact hshort (Nat.le_refl 1)
  have hmax : f.physLen ≤ headerFrameMaxPhys := hhead (f.loc (headerSize k)) (by rw [hframes]; rfl)
  have hzero : f.logicalOffset = 0 := h.chained.1
  generalize hbase : headerSize k + f.physLen + physEnd A = base at hframes hfloor
  -- the header frame is protected, and no other
  have hkept : w.sink.frames.takeWhile (fun loc => decide (loc.logicalOffset < start)) =
    [f.loc (headerSize k)] := by
    rw [hframes, takeWhile_cons_of_pos (by
      show decide (f.logicalOffset < start) = true
      rw [hzero]
      exact decide_eq_true hstart)]
    congr 1
    cases hlocs : locs base B with
    | nil => rfl
    | cons loc rest =>
      refine takeWhile_cons_of_neg ?_
      have := htail loc (by rw [hframes, hlocs]; exact mem_cons_self)
      simpa using this
  dsimp only at hsink
  rw [hkept] at hsink
  have hrest : w.sink.frames.drop [f.loc (headerSize k)].length = locs base B := by
    rw [hframes]
    rfl
  obtain ⟨C, D, rfl, hD, hcut, hsurv⟩ :=
    reclaim_split base (fun loc => decide (loc.logicalEnd ≤ stop)) hB
  rw [hrest, hcut, hsurv] at hsink
  cases C with
  | nil =>
    cases hsink
    exact h
  | cons c C =>
    cases D with
    | nil => exact absurd rfl hD
    | cons d D =>
      dsimp only [locs] at hsink
      obtain ⟨backing, hback, hsink⟩ := Option.bind_eq_some_iff.1 hsink
      cases hsink
      have hfrom : max (c.loc base).physOffset w.sink.headerPhysLen = base := by
        rw [h.headerPhysLen]
        show max base _ = _
        omega
      rw [hfrom] at hback
      exact h.reclaimed hbase.symm hD hback hmax hfloor

/-- The backing sink after a crash that has kept the whole frames. -/
lemma SinkInv.crash {kept n : Nat}
    (hn : w.sink.backing.sink.durable.length + kept = headerSize k + physEnd F + n) :
    SinkInv k { w with sink := { w.sink with backing := w.sink.backing.crash kept } } F
    (extra.take n) := by
  have hstream : (w.sink.backing.crash kept).sink.durable ++
    (w.sink.backing.crash kept).sink.pending =
      (w.sink.backing.sink.durable ++ w.sink.backing.sink.pending).take
        (w.sink.backing.sink.durable.length + kept) := by
    show (_ ++ _) ++ [] = _
    rw [append_nil, take_length_add_append]
  have hholds := h.holds.take h.fits hstream rfl (hn ▸ Nat.le_add_right ..)
  rw [hn, Nat.add_sub_cancel_left] at hholds
  obtain ⟨g, rest, hg, hoff, hext⟩ := h.next
  exact { h with
    holds := hholds
    durable hF := le_trans (h.durable hF) (sublist_append_left ..).length_le
    next := by
      refine ⟨g, extra.drop n ++ rest, hg, hoff, ?_⟩
      rw [hext, ← append_assoc, take_append_drop]
    ends e he := by
      rcases mem_cons.1 he with rfl | he
      · exact .inr ⟨rfl, rfl⟩
      rcases h.ends e he with hb | ⟨heq, hpend⟩
      · exact .inl hb
      · refine .inr ⟨?_, rfl⟩
        show e = (_ ++ _ : Bytes).length
        rw [hpend, take_nil, append_nil, heq]
    size := by
      have := h.size
      have hle : (extra.take n).length ≤ extra.length := length_take_le' ..
      omega }

/-- **Opening again** after a crash: the frames are indexed as before, and one more if it was whole.
Only a sink that never had a frame may be refused. -/
lemma SinkInv.reopen (kept : Nat) :
    (F = [] ∧ ∃ e, EncryptedLogSink.open (w.sink.backing.crash kept) k = .error e) ∨
    ∃ sink F' extra', EncryptedLogSink.open (w.sink.backing.crash kept) k = .ok sink ∧
      SinkInv k { w with sink } F' extra' ∧ w.sink.logicalDurableLen ≤ sink.logicalDurableLen := by
  by_cases hn : headerSize k + physEnd F ≤ w.sink.backing.sink.durable.length + kept
  · obtain ⟨n, hn⟩ := Nat.exists_eq_add_of_le hn
    have hcrash := h.crash hn
    generalize extra.take n = left at hcrash
    obtain ⟨g, rest, hg, hoff, hext⟩ := hcrash.next
    refine .inr ?_
    by_cases hrest : rest = []
    · -- the frame that was being written is whole
      rw [hrest, append_nil] at hext
      subst hext
      obtain ⟨hchain, hfits, hend⟩ := h.snoc hg hoff
      obtain ⟨frames, hopen, hindexed⟩ := hcrash.holds.promote.open_eq rfl hfits hchain
        ⟨blank 0, _, blank_fits (by decide), rfl, by simp [blank]⟩
      refine ⟨_, F ++ [g], [], hopen,
        hcrash.promote hg hoff rfl rfl rfl hindexed rfl hend fun _ => .inr, ?_⟩
      show w.sink.logicalDurableLen ≤ logicalEndOf 0 (F ++ [g])
      rw [h.logical, hend, logicalEnd, hoff]
      exact Nat.le_add_right ..
    · obtain ⟨frames, hopen, hindexed⟩ :=
        hcrash.holds.open_eq rfl h.fits h.chained ⟨g, rest, hg, hext, hrest⟩
      refine ⟨_, F, left, hopen,
        { hcrash with headerPhysLen := rfl, indexed := hindexed, logical := rfl }, ?_⟩
      show w.sink.logicalDurableLen ≤ logicalEndOf 0 F
      rw [h.logical]
  · -- the sink header itself is torn
    have hnil : F = [] := by
      by_contra hne
      have := h.durable hne
      omega
    subst hnil
    refine .inl ⟨rfl, ?_⟩
    have hzero : w.sink.backing.sink.reclaimedFloor = 0 := by
      rcases h.holds.floor with hz | ⟨_, _, _, hcons, -⟩
      · exact hz
      · cases hcons
    have hn' : w.sink.backing.sink.durable.length + kept < headerSize k := Nat.lt_of_not_le hn
    have hbegin : (w.sink.backing.crash kept).sink.durable =
        (encodeSinkHeader k.kcv).take (w.sink.backing.sink.durable.length + kept) := by
      show _ ++ _ = _
      rw [← take_length_add_append, h.holds.eq_image hzero, image,
        take_append_of_le_length (le_of_lt hn')]
    refine open_of_short (hbegin ▸ take_prefix ..) ?_
    rw [hbegin, length_take]
    exact lt_of_le_of_lt (Nat.min_le_left ..) hn'

end

/-! ## Reads -/

lemma Chained.pairwise {start : Nat} (h : Chained start F) :
    F.Pairwise (fun f g => f.logicalEnd ≤ g.logicalOffset) ∧ ∀ f ∈ F, start ≤ f.logicalOffset := by
  induction F generalizing start with
  | nil => exact ⟨.nil, fun _ hf => nomatch hf⟩
  | cons f F ih =>
    obtain ⟨hpair, hge⟩ := ih h.2
    refine ⟨pairwise_cons.2 ⟨hge, hpair⟩, fun g hg => ?_⟩
    rcases mem_cons.1 hg with rfl | hg
    · exact le_of_eq h.1.symm
    have := hge g hg
    have hstart := h.1
    unfold logicalEnd at this
    omega

lemma Chained.logicalEnd_le {start : Nat} (h : Chained start F) (hf : f ∈ F) :
    f.logicalEnd ≤ logicalEndOf start F := by
  obtain ⟨A, B, rfl⟩ := append_of_mem hf
  obtain ⟨-, -, hB⟩ := Chained.append_iff.1 h
  rw [logicalEndOf_append]
  exact hB.le_logicalEndOf

section

variable (h : SinkInv k w F extra)

include h

/-- The frame at a place of the stream, in the durable part of the backing sink. -/
lemma SinkInv.stored (hF : F = A ++ f :: B)
    (hat : w.sink.backing.sink.reclaimedFloor ≤ headerSize k + physEnd A ∨ A = []) :
    Stored k.cipher w.sink.backing.sink (f.loc (headerSize k + physEnd A)) f := by
  have hfits : f.Fits := h.fits f (hF ▸ mem_append_right A mem_cons_self)
  refine ⟨rfl, hfits, ?_⟩
  have hdurable := h.durable (hF ▸ append_ne_nil_of_right_ne_nil A (cons_ne_nil f B))
  rw [hF, physEnd_append, physEnd_cons] at hdurable
  rw [← h.holds.frame_bytes h.fits hF hat]
  show (_ : Bytes) = _
  rw [drop_append_of_le_length (by omega), take_append_of_le_length (by
    rw [length_drop]
    omega)]
  rfl

/-- Frames of the stream one behind the other, none of them freed. -/
lemma SinkInv.stored_locs (hF : F = A ++ B)
    (hat : w.sink.backing.sink.reclaimedFloor ≤ headerSize k + physEnd A) :
    List.Forall₂ (Stored k.cipher w.sink.backing.sink) (locs (headerSize k + physEnd A) B) B := by
  induction B generalizing A with
  | nil => exact .nil
  | cons f B ih =>
    refine .cons (h.stored hF (.inl hat)) ?_
    have hend : headerSize k + physEnd A + f.physLen = headerSize k + physEnd (A ++ [f]) := by
      rw [physEnd_append, ← Nat.add_assoc]
      rfl
    rw [hend]
    exact ih (by rw [hF, append_assoc]; rfl) (by omega)

/-- **What the index shows.** The plaintexts of the indexed frames over zeros have every byte of
every frame, or zero where the frame has been reclaimed. -/
lemma SinkInv.overlay_eq :
    ∃ G : List Frame, List.Forall₂ (Stored k.cipher w.sink.backing.sink) w.sink.frames G ∧
    G.Sublist F ∧
      ∀ g ∈ F, ∀ i b, g.plain[i]? = some b →
        Bytes.overlay (G.map Frame.segment) 0 (g.logicalOffset + i) =
          SinkWorld.visible w.sink (g.logicalOffset + i) b := by
  rcases h.indexed with ⟨rfl, hframes⟩ | ⟨f, A, B, rfl, hframes, hfloor, hAB⟩
  · exact ⟨[], hframes ▸ .nil, .refl _, fun g hg => nomatch hg⟩
  have hsub : (f :: B).Sublist (f :: (A ++ B)) := (sublist_append_right A B).cons_cons f
  have hchain := h.chained.pairwise.1
  obtain ⟨hfirst, hrest⟩ := pairwise_cons.1 hchain
  obtain ⟨-, -, hcross⟩ := pairwise_append.1 hrest
  have hapart : ((f :: B).map Frame.segment).Pairwise fun s s' => s.1 + s.2.length ≤ s'.1 :=
    pairwise_map.2 (hchain.sublist hsub)
  have hstored : List.Forall₂ (Stored k.cipher w.sink.backing.sink) w.sink.frames (f :: B) := by
    rw [hframes]
    refine .cons (h.stored (A := []) rfl (.inr rfl)) ?_
    have hend : headerSize k + f.physLen + physEnd A = headerSize k + physEnd (f :: A) := by
      rw [physEnd_cons, Nat.add_assoc]
    rw [hend] at hfloor ⊢
    exact h.stored_locs rfl hfloor
  refine ⟨f :: B, hstored, hsub, fun g hg i b hb => ?_⟩
  have hi : i < g.plain.length := (List.getElem?_eq_some_iff.1 hb).1
  have hheader : SinkWorld.headerEnd w.sink = f.logicalEnd := by
    rw [SinkWorld.headerEnd, hframes]
    rfl
  -- a frame of the index is shown as it is
  have hshown : g ∈ f :: B →
      Bytes.overlay ((f :: B).map Frame.segment) 0 (g.logicalOffset + i) = b :=
    fun hmem => Bytes.overlay_of_covered (mem_map_of_mem hmem) (Nat.le_add_right ..)
      (by rw [Frame.segment, Nat.add_sub_cancel_left]; exact hb) hapart
  unfold SinkWorld.visible
  rw [hheader]
  rcases mem_cons.1 hg with rfl | hg
  · rw [hshown mem_cons_self, if_neg]
    unfold logicalEnd
    omega
  have hbehind := hfirst g hg
  rcases mem_append.1 hg with hgA | hgB
  · cases B with
    | nil => exact absurd rfl (hAB.resolve_left (ne_nil_of_mem hgA))
    | cons n B =>
      have hnext := hcross g hgA n mem_cons_self
      have hpast : w.sink.reclaimedFloor = n.logicalOffset := by
        rw [reclaimedFloor, hframes]
        exact if_pos (show f.logicalEnd < n.logicalOffset by unfold logicalEnd at *; omega)
      rw [if_pos (by unfold logicalEnd at *; omega)]
      refine Bytes.overlay_of_not_covered fun seg hseg => ?_
      obtain ⟨c, hc, rfl⟩ := mem_map.1 hseg
      have := (mem_cons.1 hc).imp (fun heq : c = f => heq ▸ hbehind) (hcross g hgA c)
      unfold Frame.segment logicalEnd at *
      dsimp only
      omega
  · rw [hshown (mem_cons_of_mem f hgB), if_neg]
    cases B with
    | nil => cases hgB
    | cons n B =>
      have hnext : n.logicalOffset ≤ g.logicalOffset := by
        rcases mem_cons.1 hgB with rfl | hgB
        · exact le_rfl
        · have hle := rel_of_pairwise_cons (pairwise_append.1 hrest).2.1 hgB
          unfold logicalEnd at hle
          omega
      have hpast : w.sink.reclaimedFloor ≤ n.logicalOffset := by
        rw [reclaimedFloor, hframes]
        show (if _ then n.logicalOffset else 0) ≤ _
        split
        · exact le_rfl
        · exact Nat.zero_le _
      omega

/-- What the invariant says of the index. -/
lemma SinkInv.sealedFrames {G : List Frame} (hsub : G.Sublist F)
    (hstored : List.Forall₂ (Stored k.cipher w.sink.backing.sink) w.sink.frames G) :
    SealedFrames k.cipher w.sink G where
  stored := hstored
  apart := h.chained.pairwise.1.sublist hsub
  ends f hf := h.logical ▸ h.chained.logicalEnd_le (hsub.subset hf)
  base := by
    have hsize := h.size
    have hfloor := h.holds.floor_le
    rw [retainedBase, h.headerPhysLen]
    omega

/-- Every acknowledged byte is read back. -/
lemma SinkInv.transparent : w.Transparent k := by
  obtain ⟨G, hstored, hsub, hshown⟩ := h.overlay_eq
  have hsealed := h.sealedFrames hsub hstored
  intro batch hbatch i b hb
  obtain ⟨g, hg, hoff, hplain⟩ : ∃ f ∈ F, f.logicalOffset = batch.1 ∧ f.plain = batch.2 := by
    rcases h.acked batch hbatch with hnil | hframe
    · rw [hnil] at hb
      cases hb
    · exact hframe
  rw [← hplain] at hb
  rw [← hoff]
  have hi : i < g.plain.length := (List.getElem?_eq_some_iff.1 hb).1
  have hlt : g.logicalOffset + i < w.sink.logicalDurableLen := by
    have := h.chained.logicalEnd_le hg
    rw [← h.logical, logicalEnd] at this
    omega
  have hbyte := hshown g hg i b hb
  generalize g.logicalOffset + i = o at hlt hbyte ⊢
  -- the buffer a read starts from is all zeros
  have hout : ∀ start ≤ o, ∀ stop > o, ((G.map Frame.segment).foldl (Bytes.copyInto start stop)
      (List.replicate (stop - start) 0))[o - start]? = some (SinkWorld.visible w.sink o b) := by
    intro start hstart stop hstop
    rw [Bytes.getElem?_foldl_copyInto length_replicate (by omega)
      (getElem?_replicate_of_lt (by omega)), Nat.add_sub_of_le hstart, hbyte]
  exact ⟨hlt, fun start hstart => ⟨_, readDurable_eq hsealed (lt_of_le_of_lt hstart hlt),
    hout start hstart _ hlt⟩, fun start hstart stop hstop =>
    ⟨_, readBounded_eq hsealed (by omega), hout start hstart _ (by omega)⟩⟩

/-! ## Whole runs -/

lemma SinkInv.step {op : SinkOp} (hok : w.Allowed op) (hstep : w.step k op = some w') :
    ∃ F' extra', SinkInv k w' F' extra' := by
  cases op with
  | append bytes =>
    cases hstep
    exact ⟨F, extra, h.setPending (w.sink.pending ++ bytes) w.sink.consumed⟩
  | sync nonce ok => exact h.sync hok hstep
  | reclaim start stop freed => exact ⟨F, extra, h.reclaim hok hstep⟩
  | reopen kept =>
    dsimp only [SinkWorld.step] at hstep
    rcases h.reopen kept with ⟨-, e, hopen⟩ | ⟨sink, F', extra', hopen, hinv, -⟩
    all_goals
      rw [hopen] at hstep
      cases hstep
    exact ⟨F', extra', hinv⟩

end

lemma sinkInv_of_run {ops : List SinkOp}
    (hops : Run.Along (SinkWorld.step k) SinkWorld.Allowed (SinkWorld.fresh k) ops)
    (hrun : Run.exec (SinkWorld.step k) (SinkWorld.fresh k) ops = some w) :
    ∃ F extra, SinkInv k w F extra :=
  Run.exec_preserves (I := fun w => ∃ F extra, SinkInv k w F extra)
    (fun ⟨_, _, h⟩ hok hstep => h.step hok hstep) ⟨[], [], SinkInv.fresh⟩ hops hrun

/-- **The encrypted sink is transparent** along every run that seals its frames right behind each
other and protects the header frame. Every acknowledged byte is durable and is read at its offset,
or as zero below the reclaimed floor. Whatever a crash leaves of the bytes that were not synced, the
sink opens again with at least the durable length it had; only one that never had a durable byte may
be refused. -/
theorem encrypted_sink_transparent {ops : List SinkOp}
    (hops : Run.Along (SinkWorld.step k) SinkWorld.Allowed (SinkWorld.fresh k) ops)
    (hrun : Run.exec (SinkWorld.step k) (SinkWorld.fresh k) ops = some w) :
    w.Transparent k ∧ ∀ kept,
      (w.sink.durableLen = 0 ∧
      ∃ e, EncryptedLogSink.open (w.sink.backing.crash kept) k = .error e) ∨
      ∃ sink, EncryptedLogSink.open (w.sink.backing.crash kept) k = .ok sink ∧
        w.sink.durableLen ≤ sink.durableLen := by
  obtain ⟨F, extra, h⟩ := sinkInv_of_run hops hrun
  refine ⟨h.transparent, fun kept => ?_⟩
  rcases h.reopen kept with ⟨rfl, herr⟩ | ⟨sink, -, -, hopen, -, hle⟩
  · exact .inl ⟨h.logical, herr⟩
  · exact .inr ⟨sink, hopen, hle⟩

end Steps

open SinkWorld (fresh headerEnd indexedEnd step visible)

/-! ## A cipher to run -/

/-- The associated data as a tag of sixteen bytes. -/
def plainTag (aad : Bytes) : Bytes := (aad ++ replicate tagLen 0).take tagLen

lemma length_plainTag (aad : Bytes) : (plainTag aad).length = tagLen := by
  rw [plainTag, length_take, length_append, length_replicate]
  omega

/-- A cipher that hides nothing: the plaintext and the associated data. -/
def plainCipher : Aead where
  encrypt _ aad plaintext := plaintext ++ plainTag aad
  decrypt _ aad sealed :=
    let plaintext := sealed.take (sealed.length - tagLen)
    if plaintext ++ plainTag aad = sealed then some plaintext else none
  length_encrypt _ aad plaintext := by rw [length_append, length_plainTag]
  decrypt_encrypt _ aad plaintext := by
    have htake : (plaintext ++ plainTag aad).take ((plaintext ++ plainTag aad).length - tagLen) =
      plaintext := by
      rw [length_append, length_plainTag, Nat.add_sub_cancel, take_left]
    dsimp only
    rw [htake, if_pos rfl]

def plainKeyring : Keyring where
  cipher := plainCipher
  kcv := []
  kcv_lt := by decide

def zeroNonce : Bytes := replicate nonceLen 0

instance SinkWorld.Allowed.decide (w : SinkWorld) (op : SinkOp) : Decidable (w.Allowed op) := by
  unfold SinkWorld.Allowed
  split <;> infer_instance

/-- The log header and two batches, the first of which is reclaimed; a crash tears a third. -/
def reclaimedRun : List SinkOp :=
  [.append (replicate 8 1), .sync zeroNonce true, .append [9], .sync zeroNonce true,
    .append [7], .sync zeroNonce true, .reclaim 8 9 (some 157), .append [5], .sync zeroNonce false,
    .reopen 10]

theorem encrypted_sink_transparent_reclaimedRun :
    Run.Along (step plainKeyring) SinkWorld.Allowed (fresh plainKeyring) reclaimedRun ∧
    ∃ w, Run.exec (step plainKeyring) (fresh plainKeyring) reclaimedRun = some w ∧
      (9, [7]) ∈ w.acked ∧ w.sink.reclaimedFloor = 9 ∧ w.Transparent plainKeyring := by
  have halong : Run.Along (step plainKeyring) SinkWorld.Allowed
      (fresh plainKeyring) reclaimedRun := by decide +kernel
  obtain ⟨w, hw, hmem, hfloor⟩ : ∃ w ∈ Run.exec (step plainKeyring)
      (fresh plainKeyring) reclaimedRun, (9, [7]) ∈ w.acked ∧ w.sink.reclaimedFloor = 9 := by
    decide +kernel
  exact ⟨halong, w, hw, hmem, hfloor, (encrypted_sink_transparent halong hw).1⟩

theorem readBounded_eq_range_reclaimedRun :
    ∃ w log, Run.exec (step plainKeyring) (fresh plainKeyring) reclaimedRun = some w ∧
      readDurable plainCipher w.sink 0 = .ok log ∧ log.length = w.sink.durableLen ∧
      readBounded plainCipher w.sink 6 10 = .ok ((log.take 10).drop 6) := by
  obtain ⟨w, hw⟩ : ∃ w, Run.exec (step plainKeyring) (fresh plainKeyring)
      reclaimedRun = some w := Option.isSome_iff_exists.1 (by decide +kernel)
  obtain ⟨F, extra, h⟩ := sinkInv_of_run (by decide +kernel) hw
  obtain ⟨G, hstored, hsub, -⟩ := h.overlay_eq
  obtain ⟨log, hread, hlen, hrange⟩ := readBounded_eq_range (h.sealedFrames hsub hstored) 6 10
  exact ⟨w, log, hw, hread, hlen, hrange⟩

/-- A sync of the backing sink fails and the crash tears the frame; the next frame, acknowledged, is
sealed behind the torn bytes. -/
def tornFrameRun : List SinkOp :=
  [.append (replicate 8 1), .sync zeroNonce true, .append [9], .sync zeroNonce false,
    .reopen 10, .append [7], .sync zeroNonce true]

/-- The acknowledged byte is there until the sink is opened again, and then it is gone. -/
theorem tornFrame_loses_acknowledged :
    ∃ w w', Run.exec (step plainKeyring) (fresh plainKeyring) tornFrameRun = some w ∧
      w.step plainKeyring (.reopen 0) = some w' ∧ (8, [7]) ∈ w.acked ∧ w.sink.durableLen = 9 ∧
      w'.sink.durableLen = 8 ∧ ¬ w'.Transparent plainKeyring := by
  obtain ⟨w, hw, w', hw', hmem, hbefore, hkept, hafter⟩ : ∃ w ∈ Run.exec (step plainKeyring)
      (fresh plainKeyring) tornFrameRun, ∃ w' ∈ w.step plainKeyring (.reopen 0),
      (8, [7]) ∈ w.acked ∧ w.sink.durableLen = 9 ∧ (8, [7]) ∈ w'.acked ∧
        w'.sink.durableLen = 8 := by
    decide +kernel
  refine ⟨w, w', hw, hw', hmem, hbefore, hafter, fun htransparent => ?_⟩
  have hdurable := (htransparent (8, [7]) hkept 0 7 rfl).1
  rw [hafter] at hdurable
  exact absurd hdurable (by decide)

end Graphus
