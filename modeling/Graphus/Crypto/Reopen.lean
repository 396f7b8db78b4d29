import Graphus.Crypto.Frames

/-!
# Opening the encrypted sink

The backing sink holds the sink header, whole frames and the beginning of one more; between the
header frame and its floor it may have freed whole frames (`Holds`). Opening it indexes the header
frame and every frame that has not been freed (`Holds.open_eq`).
-/

namespace Graphus

open List
open EncryptedLogSink (readHeaderFrame scanFrames)

open Bytes (field)

/-! ## What the backing sink holds -/

def headerSize (k : Keyring) : Nat := (encodeSinkHeader k.kcv).length

/-- The sink header, the frames, and the beginning of one more. -/
def image (k : Keyring) (F : List Frame) (extra : Bytes) : Bytes :=
  encodeSinkHeader k.kcv ++ (encodeFrames k.cipher F ++ extra)

/-- The end of the header frame. -/
def pinned (k : Keyring) (F : List Frame) : Nat :=
  headerSize k + ((F.head?).map Frame.physLen).getD 0

/-- The backing sink has the frames `F` and the bytes `extra` behind them, apart from what it has
freed between the header frame and its floor. -/
structure Holds (k : Keyring) (s : LogSink) (F : List Frame) (extra : Bytes) : Prop where
  length : (s.durable ++ s.pending).length = (image k F extra).length
  head : (s.durable ++ s.pending).take (pinned k F) = (image k F extra).take (pinned k F)
  tail : (s.durable ++ s.pending).drop s.reclaimedFloor = (image k F extra).drop s.reclaimedFloor
  floor : s.reclaimedFloor = 0 ∨ ∃ f A B, F = f :: (A ++ B) ∧ B ≠ [] ∧
    s.reclaimedFloor = headerSize k + f.physLen + physEnd A ∧ f.physLen ≤ headerFrameMaxPhys

section Holds

variable {k : Keyring} {s : LogSink} {F A B : List Frame} {f : Frame} {extra : Bytes}

lemma drop_image (hA : ∀ f ∈ A, f.Fits) :
    (image k (A ++ B) extra).drop (headerSize k + physEnd A) =
    encodeFrames k.cipher B ++ extra := by
  rw [image, ← drop_drop, headerSize, drop_left, encodeFrames_append, append_assoc,
    ← length_encodeFrames k.cipher hA, drop_left]

lemma length_image (hF : ∀ f ∈ F, f.Fits) :
    (image k F extra).length = headerSize k + physEnd F + extra.length := by
  rw [image, length_append, length_append, length_encodeFrames k.cipher hF, headerSize,
    Nat.add_assoc]

/-- The bytes of a frame that has not been freed. -/
lemma Holds.frame_bytes (h : Holds k s F extra) (hfits : ∀ f ∈ F, f.Fits) (hF : F = A ++ f :: B)
    (hat : s.reclaimedFloor ≤ headerSize k + physEnd A ∨ A = []) :
    ((s.durable ++ s.pending).drop (headerSize k + physEnd A)).take f.physLen =
    f.encode k.cipher := by
  have hA : ∀ f ∈ A, f.Fits := fun g hg => hfits g (hF ▸ mem_append_left _ hg)
  have hf : f.Fits := hfits f (hF ▸ mem_append_right _ mem_cons_self)
  have himage : ((image k F extra).drop (headerSize k + physEnd A)).take f.physLen =
    f.encode k.cipher := by
    rw [hF, drop_image hA, encodeFrames_cons, append_assoc,
      ← Frame.length_encode k.cipher hf, take_left]
  rw [← himage]
  rcases hat with hle | rfl
  · have hsplit : headerSize k + physEnd A =
        s.reclaimedFloor + (headerSize k + physEnd A - s.reclaimedFloor) := by omega
    rw [hsplit, ← drop_drop, ← drop_drop, h.tail]
  have hpin : pinned k F = headerSize k + f.physLen := by
    rw [hF]
    rfl
  have hhead := h.head
  rw [hpin] at hhead
  have hz : physEnd [] = 0 := rfl
  rw [hz, Nat.add_zero, take_drop, take_drop, hhead]

lemma Chained.le_logicalEndOf {start : Nat} (h : Chained start F) :
    start ≤ logicalEndOf start F := by
  rw [h.logicalEndOf_eq]
  exact Nat.le_add_right ..

lemma length_sinkHeader : headerSize k = hdrPrefixLen + k.kcv.length := by
  simp only [headerSize, encodeSinkHeader, length_append, Bytes.length_le]
  rfl

variable {bs post : Bytes}

/-- The sink header is read back. -/
lemma header_fields (h : bs = encodeSinkHeader k.kcv ++ post) :
    bs.take 8 = walSinkMagic ∧ field bs 8 4 = walSinkVersion ∧ field bs 12 4 = walCipherAes256Gcm ∧
    field bs 16 4 = k.kcv.length ∧
    (bs.take (hdrPrefixLen + k.kcv.length)).drop hdrPrefixLen = k.kcv := by
  refine ⟨?_, ?_, ?_, ?_, ?_⟩
  · rw [h]
    rfl
  · rw [Bytes.field_of_split walSinkMagic (Bytes.le 4 walSinkVersion)
      (by rw [h]; simp [encodeSinkHeader]; rfl) (show walSinkMagic.length = 8 from rfl)
      (Bytes.length_le ..), Bytes.toNat_le (by decide)]
  · rw [Bytes.field_of_split (walSinkMagic ++ Bytes.le 4 walSinkVersion)
      (Bytes.le 4 walCipherAes256Gcm) (by rw [h]; simp [encodeSinkHeader]; rfl)
      (by simp [walSinkMagic]) (Bytes.length_le ..), Bytes.toNat_le (by decide)]
  · rw [Bytes.field_of_split (walSinkMagic ++ Bytes.le 4 walSinkVersion ++
      Bytes.le 4 walCipherAes256Gcm) (Bytes.le 4 k.kcv.length)
      (by rw [h]; simp [encodeSinkHeader]; rfl) (by simp [walSinkMagic]) (Bytes.length_le ..),
      Bytes.toNat_le (by have := k.kcv_lt; omega)]
  · rw [drop_take, Nat.add_sub_cancel_left]
    exact Bytes.take_drop_of_split (walSinkMagic ++ Bytes.le 4 walSinkVersion ++
      Bytes.le 4 walCipherAes256Gcm ++ Bytes.le 4 k.kcv.length) k.kcv
      (by rw [h]; simp [encodeSinkHeader]; rfl) (by simp [walSinkMagic]; rfl) rfl

variable {b : Backing}

/-- The header of a sink with its whole header on disk. -/
lemma readSinkHeaderLen_eq (h : b.sink.durable = encodeSinkHeader k.kcv ++ post) :
    readSinkHeaderLen b = .ok (headerSize k) ∧
      parseAndVerifySinkHeader (b.sink.readBounded 0 (headerSize k)) k = .ok (headerSize k) := by
  have hsize : headerSize k = hdrPrefixLen + k.kcv.length := length_sinkHeader
  have hread : ∀ n, b.sink.readBounded 0 n = b.sink.durable.take n := fun n => rfl
  have hlen : headerSize k ≤ b.sink.durable.length := by
    rw [h, length_append]
    exact Nat.le_add_right ..
  have hpre : hdrPrefixLen = 20 := rfl
  constructor
  · obtain ⟨-, -, -, hkcv, -⟩ := header_fields h
    have hfield : field (b.sink.durable.take hdrPrefixLen) 16 4 = field b.sink.durable 16 4 := by
      unfold field
      rw [drop_take, take_take]
      rfl
    unfold readSinkHeaderLen
    dsimp only
    rw [hread, if_neg (by rw [length_take]; omega), hfield, hkcv, hsize]
  · have hbytes : b.sink.readBounded 0 (headerSize k) = encodeSinkHeader k.kcv ++ [] := by
      rw [hread, h, headerSize, take_left, append_nil]
    obtain ⟨hmagic, hversion, hcipher, hkcv, hval⟩ := header_fields hbytes
    have hlength : (b.sink.readBounded 0 (headerSize k)).length = headerSize k := by
      rw [hread, length_take]
      omega
    unfold parseAndVerifySinkHeader
    rw [if_neg (by omega), if_neg (not_not.2 hmagic), if_neg (not_not.2 hversion),
      if_neg (not_not.2 hcipher)]
    dsimp only
    rw [hkcv, if_neg (by omega), if_neg (not_not.2 hval), hsize]

/-- The fields before the key-check value, from a part of the header. -/
lemma field_of_begin {whole : Bytes} (h : bs <+: whole) {off n : Nat}
    (hlen : off + n ≤ bs.length) : field bs off n = field whole off n := by
  obtain ⟨rest, rfl⟩ := h
  unfold field
  rw [drop_append_of_le_length (by omega), take_append_of_le_length (by rw [length_drop]; omega)]

/-- A sink header that is not whole is refused. -/
lemma open_of_short (h : b.sink.durable <+: encodeSinkHeader k.kcv)
    (hlt : b.sink.durable.length < headerSize k) : ∃ e, EncryptedLogSink.open b k = .error e := by
  have hpre : hdrPrefixLen = 20 := rfl
  have hsize : headerSize k = hdrPrefixLen + k.kcv.length := length_sinkHeader
  have hread : ∀ n, b.sink.readBounded 0 n = b.sink.durable.take n := fun n => rfl
  by_cases hshort : b.sink.durable.length < hdrPrefixLen
  · refine ⟨.tooShort, ?_⟩
    unfold EncryptedLogSink.open readSinkHeaderLen
    dsimp only
    rw [hread, if_pos (by rw [length_take]; omega)]
    rfl
  · -- the prefix names the whole length, which is not there
    obtain ⟨hmagic, hversion, hcipher, hkcv, -⟩ :=
      header_fields (append_nil (encodeSinkHeader k.kcv)).symm
    have hlen : readSinkHeaderLen b = .ok (headerSize k) := by
      unfold readSinkHeaderLen
      dsimp only
      rw [hread, if_neg (by rw [length_take]; omega),
        field_of_begin (( take_prefix ..).trans h) (by rw [length_take]; omega), hkcv,
        hsize]
    have hparse : parseAndVerifySinkHeader (b.sink.readBounded 0 (headerSize k)) k =
      .error .kcvPastBacking := by
      have hall : b.sink.readBounded 0 (headerSize k) = b.sink.durable := by
        rw [hread, take_of_length_le (le_of_lt hlt)]
      have htake : b.sink.durable.take 8 = walSinkMagic := by
        obtain ⟨rest, hrest⟩ := h
        rw [← hmagic, ← hrest, take_append_of_le_length (by omega)]
      rw [hall]
      unfold parseAndVerifySinkHeader
      rw [if_neg hshort, if_neg (not_not.2 htake),
        if_neg (not_not.2 ((field_of_begin h (by omega)).trans hversion)),
        if_neg (not_not.2 ((field_of_begin h (by omega)).trans hcipher))]
      dsimp only
      rw [field_of_begin h (by omega), hkcv, if_pos (by omega)]
    refine ⟨.kcvPastBacking, ?_⟩
    unfold EncryptedLogSink.open
    rw [hlen]
    dsimp only [bind, Except.bind]
    rw [hparse]

/-- The header frame is read on its own. -/
lemma readHeaderFrame_eq (hf : f.Fits) (hmax : f.physLen ≤ headerFrameMaxPhys) {at0 : Nat}
    (hbytes : (b.sink.durable.drop at0).take f.physLen = f.encode k.cipher) :
    readHeaderFrame k.cipher b at0 = some (f.loc at0) := by
  have hlen := Frame.length_encode k.cipher hf
  have hge : frameOverhead ≤ f.physLen := Frame.physLen_ge
  have hover : frameOverhead = 64 := rfl
  have hct : frOffCiphertext = 48 := rfl
  have hread : ∀ n, b.sink.readBounded at0 (at0 + n) = (b.sink.durable.drop at0).take n := by
    intro n
    rw [LogSink.readBounded, drop_take, Nat.add_sub_cancel_left]
  have hpre : (b.sink.durable.drop at0).take frOffCiphertext = f.preamble := by
    have : ((b.sink.durable.drop at0).take f.physLen).take frOffCiphertext = f.preamble := by
      rw [hbytes, Frame.encode_eq, ← Frame.length_preamble hf, take_left]
    rwa [take_take, min_eq_left (by omega)] at this
  obtain ⟨hmagic, hphys, -⟩ := Frame.fields [] [] hf (append_nil f.preamble).symm
  unfold readHeaderFrame
  dsimp only
  rw [hread, hpre, if_neg (by rw [Frame.length_preamble hf]; omega),
    if_neg (not_not.2 (show f.preamble.take 4 = frameMagic from hmagic)),
    show field f.preamble 4 8 = f.physLen from hphys, if_neg (by omega), hread, hbytes]
  have hdec : decodeAndAuthenticateFrame k.cipher ([] ++ (f.encode k.cipher ++ [])) 0 at0 =
      some (f.loc (at0 + 0)) := Frame.decode_encode hf
  rwa [append_nil] at hdec

/-- The index has the header frame and the frames behind what has been reclaimed. -/
def Indexed (k : Keyring) (floor : Nat) (F : List Frame) (frames : List FrameLoc) : Prop :=
  (F = [] ∧ frames = []) ∨ ∃ f A B, F = f :: (A ++ B) ∧
    frames = f.loc (headerSize k) :: locs (headerSize k + f.physLen + physEnd A) B ∧
    floor ≤ headerSize k + f.physLen + physEnd A ∧ (A = [] ∨ B ≠ [])

lemma length_le_physEnd : F.length ≤ physEnd F := by
  induction F with
  | nil => exact le_rfl
  | cons f F ih =>
    have hge : frameOverhead ≤ f.physLen := Frame.physLen_ge
    have hover : frameOverhead = 64 := rfl
    rw [physEnd_cons, length_cons]
    omega

/-- The scan of a backing sink whose bytes from `base` on are whole frames and a torn one. -/
lemma scanFrames_drop {s : LogSink} {base start low : Nat} (hB : ∀ f ∈ B, f.Fits)
    (hbytes : s.durable.drop base = encodeFrames k.cipher B ++ extra) (hchain : Chained start B)
    (htorn : TornFrame k.cipher extra) (hlow : low ≤ start) (frames : List FrameLoc) :
    scanFrames k.cipher (s.durable.drop base) base ((s.durable.drop base).length + 1)
        0 frames low = .ok (frames ++ locs base B, logicalEndOf low B) := by
  have hfuel : B.length < (s.durable.drop base).length + 1 := by
    have := length_le_physEnd (F := B)
    rw [hbytes, length_append, length_encodeFrames k.cipher hB]
    omega
  generalize (s.durable.drop base).length + 1 = fuel at hfuel ⊢
  rw [hbytes]
  have hscan : scanFrames k.cipher ([] ++ (encodeFrames k.cipher B ++ extra)) base fuel
      ([] : Bytes).length frames low = .ok (frames ++ locs (base + 0) B, logicalEndOf low B) :=
    scanFrames_eq hB hchain htorn hfuel frames hlow
  exact hscan

/-- **Opening** finds the header frame and all frames that have not been freed. -/
lemma Holds.open_eq (h : Holds k b.sink F extra) (hpending : b.sink.pending = [])
    (hfits : ∀ f ∈ F, f.Fits) (hchain : Chained 0 F) (htorn : TornFrame k.cipher extra) :
    ∃ frames, EncryptedLogSink.open b k = .ok {
        backing := b
        frames
        logicalDurableLen := logicalEndOf 0 F
        headerPhysLen := headerSize k
        consumed := (frames.getLast?.map FrameLoc.writeCount).getD 0 } ∧
      Indexed k b.sink.reclaimedFloor F frames := by
  have hstream : b.sink.durable ++ b.sink.pending = b.sink.durable := by
    rw [hpending, append_nil]
  rcases h.floor with hzero | ⟨f, A, B, rfl, hB, hfloor, hmax⟩
  · have hdurable : b.sink.durable = encodeSinkHeader k.kcv ++
      (encodeFrames k.cipher F ++ extra) := by
      have htail := h.tail
      rwa [hstream, hzero, drop_zero, drop_zero] at htail
    obtain ⟨hlen, hparse⟩ := readSinkHeaderLen_eq hdurable
    have hbase : max (headerSize k) b.sink.reclaimedFloor = headerSize k := by
      rw [hzero]
      exact Nat.max_zero _
    have hscan := scanFrames_drop (k := k) hfits
      (show b.sink.durable.drop (headerSize k) = _ by rw [hdurable, headerSize, drop_left])
      hchain htorn (Nat.le_refl 0) []
    refine ⟨locs (headerSize k) F, ?_, ?_⟩
    · unfold EncryptedLogSink.open
      rw [hlen]
      dsimp only [bind, Except.bind]
      rw [hparse]
      dsimp only
      rw [hbase, if_neg (lt_irrefl _)]
      dsimp only [getLast?_nil, Option.map_none, Option.getD_none]
      rw [hscan]
      rfl
    · cases F with
      | nil => exact .inl ⟨rfl, rfl⟩
      | cons f F =>
        refine .inr ⟨f, [], F, rfl, ?_, ?_, .inl rfl⟩
        · rfl
        · rw [hzero]
          exact Nat.zero_le _
  · have hdrop : b.sink.durable.drop b.sink.reclaimedFloor = encodeFrames k.cipher B ++ extra := by
      have htail := h.tail
      have hA : ∀ g ∈ f :: A, g.Fits := fun g hg =>
        hfits g (mem_append_left B (show g ∈ f :: A from hg))
      rw [hstream] at htail
      rw [htail, hfloor, Nat.add_assoc, ← physEnd_cons]
      exact drop_image (A := f :: A) hA
    have hframe : (b.sink.durable.drop (headerSize k)).take f.physLen = f.encode k.cipher := by
      have := h.frame_bytes hfits (A := []) rfl (.inr rfl)
      rwa [hstream] at this
    have hdurable : b.sink.durable = encodeSinkHeader k.kcv ++
      b.sink.durable.drop (headerSize k) := by
      have hhead := h.head
      rw [hstream] at hhead
      have hpin : headerSize k ≤ pinned k (f :: (A ++ B)) := Nat.le_add_right ..
      have htake : b.sink.durable.take (headerSize k) = encodeSinkHeader k.kcv := by
        have := congrArg (take (headerSize k)) hhead
        rw [take_take, take_take, min_eq_left hpin] at this
        rw [this, image, headerSize, take_left]
      rw [← htake, take_append_drop]
    obtain ⟨hlen, hparse⟩ := readSinkHeaderLen_eq hdurable
    have hphys : 0 < f.physLen := lt_of_lt_of_le (by decide) (Frame.physLen_ge (f := f))
    have hbase : max (headerSize k) b.sink.reclaimedFloor = b.sink.reclaimedFloor :=
      Nat.max_eq_right (by omega)
    have hhead := readHeaderFrame_eq (k := k) (b := b) (hfits f mem_cons_self) hmax hframe
    obtain ⟨hchainA, hchainB⟩ := Chained.append_iff.1 (show Chained 0 ((f :: A) ++ B) from hchain)
    have hscan := scanFrames_drop (k := k)
      (fun g hg => hfits g (mem_cons_of_mem f (mem_append_right A hg))) hdrop hchainB htorn
      (hchainA.2.le_logicalEndOf) [f.loc (headerSize k)]
    refine ⟨f.loc (headerSize k) :: locs b.sink.reclaimedFloor B, ?_,
      .inr ⟨f, A, B, rfl, ?_, ?_, .inr hB⟩⟩
    · unfold EncryptedLogSink.open
      rw [hlen]
      dsimp only [bind, Except.bind]
      rw [hparse]
      dsimp only
      rw [hbase, if_pos (by omega), hhead]
      dsimp only [Option.toList_some, getLast?_singleton, Option.map_some, Option.getD_some]
      rw [show (f.loc (headerSize k)).logicalEnd = f.logicalEnd from rfl, hscan]
      rw [show logicalEndOf 0 (f :: (A ++ B)) = logicalEndOf f.logicalEnd (A ++ B) from rfl,
        logicalEndOf_append,
          logicalEndOf_eq_of_ne_nil hB f.logicalEnd (logicalEndOf f.logicalEnd A)]
      rfl
    · rw [hfloor]
    · rw [hfloor]

/-! ## How the backing sink changes -/

lemma Holds.eq_image (h : Holds k s F extra) (hzero : s.reclaimedFloor = 0) :
    s.durable ++ s.pending = image k F extra := by
  have htail := h.tail
  rwa [hzero, drop_zero, drop_zero] at htail

lemma Holds.floor_le (h : Holds k s F extra) : s.reclaimedFloor ≤ headerSize k + physEnd F := by
  rcases h.floor with hzero | ⟨f, A, B, rfl, -, hfloor, -⟩
  · omega
  · rw [hfloor, physEnd_cons, physEnd_append]
    omega

lemma pinned_le : pinned k F ≤ headerSize k + physEnd F := by
  cases F with
  | nil => exact le_rfl
  | cons f F =>
    rw [physEnd_cons, ← Nat.add_assoc]
    exact Nat.le_add_right ..

lemma image_append (bytes : Bytes) : image k F (extra ++ bytes) = image k F extra ++ bytes := by
  simp only [image, append_assoc]

/-- The same bytes, synced or not. -/
lemma Holds.congr {s' : LogSink} (h : Holds k s F extra)
    (hbytes : s'.durable ++ s'.pending = s.durable ++ s.pending)
    (hfloor : s'.reclaimedFloor = s.reclaimedFloor) : Holds k s' F extra := by
  refine ⟨?_, ?_, ?_, ?_⟩
  · rw [hbytes, h.length]
  · rw [hbytes, h.head]
  · rw [hbytes, hfloor, h.tail]
  · rw [hfloor]
    exact h.floor

lemma Holds.append (h : Holds k s F extra) (hfits : ∀ f ∈ F, f.Fits) (bytes : Bytes) :
    Holds k (s.append bytes) F (extra ++ bytes) := by
  have hstream : (s.append bytes).durable ++ (s.append bytes).pending =
      (s.durable ++ s.pending) ++ bytes := (append_assoc ..).symm
  have hilen : (image k F extra).length = headerSize k + physEnd F + extra.length :=
    length_image hfits
  have hlength := h.length
  have hhead := h.head
  have htail := h.tail
  have hfloor := h.floor_le
  have hpin := pinned_le (k := k) (F := F)
  refine ⟨?_, ?_, ?_, h.floor⟩
  all_goals
    rw [hstream, image_append]
    generalize s.durable ++ s.pending = T at hlength hhead htail
  · rw [length_append, length_append, hlength]
  · rw [take_append_of_le_length (by omega), take_append_of_le_length (by omega), hhead]
  · show (T ++ bytes).drop s.reclaimedFloor = (image k F extra ++ bytes).drop s.reclaimedFloor
    rw [drop_append_of_le_length (by omega), drop_append_of_le_length (by omega), htail]

/-- The frame behind the others is whole. -/
lemma Holds.promote (h : Holds k s F (f.encode k.cipher)) : Holds k s (F ++ [f]) [] := by
  have himage : image k (F ++ [f]) [] = image k F (f.encode k.cipher) := by
    rw [image, image, encodeFrames_append, append_nil]
    show _ ++ (_ ++ (f.encode k.cipher ++ [])) = _
    rw [append_nil]
  refine ⟨by rw [himage, h.length], ?_, by rw [himage, h.tail], ?_⟩
  · rw [himage]
    cases F with
    | nil =>
      rcases h.floor with hzero | ⟨_, _, _, hnil, -⟩
      · rw [h.eq_image hzero]
      · cases hnil
    | cons g F => exact h.head
  · rcases h.floor with hzero | ⟨g, A, B, rfl, hB, hfloor, hmax⟩
    · exact .inl hzero
    · refine .inr ⟨g, A, B ++ [f], ?_, by simp, hfloor, hmax⟩
      rw [cons_append, append_assoc]

/-- The bytes up to `n`, behind the whole frames. -/
lemma Holds.take {s' : LogSink} (h : Holds k s F extra) (hfits : ∀ f ∈ F, f.Fits) {n : Nat}
    (hbytes : s'.durable ++ s'.pending = (s.durable ++ s.pending).take n)
    (hfloor : s'.reclaimedFloor = s.reclaimedFloor) (hn : headerSize k + physEnd F ≤ n) :
    Holds k s' F (extra.take (n - (headerSize k + physEnd F))) := by
  have himage : image k F (extra.take (n - (headerSize k + physEnd F))) =
    (image k F extra).take n := by
    have hpre : (encodeSinkHeader k.kcv ++ encodeFrames k.cipher F).length = headerSize k +
      physEnd F := by
      rw [length_append, length_encodeFrames k.cipher hfits]
      rfl
    rw [image, image, ← append_assoc, ← append_assoc, take_append,
      take_of_length_le (hpre.trans_le hn), hpre]
  have hpin := pinned_le (k := k) (F := F)
  refine ⟨?_, ?_, ?_, ?_⟩
  · rw [hbytes, himage, length_take, length_take, h.length]
  · rw [hbytes, himage, take_take, take_take, min_eq_left (by omega), h.head]
  · rw [hbytes, himage, hfloor, drop_take, drop_take, h.tail]
  · rw [hfloor]
    exact h.floor

/-- Frames that have been freed, in front of the frames `B`. -/
lemma Holds.free {start stop : Nat} (h : Holds k s (f :: (A ++ B)) extra) (hB : B ≠ [])
    (hstop : stop = headerSize k + f.physLen + physEnd A) (hle : s.reclaimedFloor ≤ stop)
    (hpin : headerSize k + f.physLen ≤ start) (hstart : start ≤ stop)
    (hlen : stop ≤ s.durable.length) (hmax : f.physLen ≤ headerFrameMaxPhys) :
    Holds k (s.free start stop) (f :: (A ++ B)) extra := by
  have htake : (s.durable.take start).length = start := by
    rw [length_take]
    omega
  have hzeros : (s.durable.take start ++ replicate (stop - start) (0 : UInt8)).length = stop := by
    rw [length_append, htake, length_replicate]
    omega
  have hsame : ∀ n ≤ start, ((s.free start stop).durable ++ s.pending).take n =
    (s.durable ++ s.pending).take n := by
    intro n hn
    show ((s.durable.take start ++ _ ++ _) ++ _).take n = _
    rw [append_assoc, append_assoc, take_append_of_le_length (by omega),
      take_take, min_eq_left hn, take_append_of_le_length (by omega)]
  have hbehind : ((s.free start stop).durable ++ s.pending).drop stop =
    (s.durable ++ s.pending).drop stop := by
    show ((s.durable.take start ++ _ ++ s.durable.drop stop) ++ _).drop stop = _
    rw [append_assoc, drop_append_of_le_length (by omega),
      drop_of_length_le (le_of_eq hzeros), nil_append, drop_append_of_le_length hlen]
  refine ⟨?_, ?_, ?_, .inr ⟨f, A, B, rfl, hB, hstop, hmax⟩⟩
  · have hlength := h.length
    rw [length_append] at hlength ⊢
    rw [← hlength]
    show (s.durable.take start ++ _ ++ s.durable.drop stop).length + s.pending.length = _
    rw [length_append, hzeros, length_drop]
    omega
  · exact (hsame _ hpin).trans h.head
  · show ((s.free start stop).durable ++ s.pending).drop stop = _
    rw [hbehind]
    have hsplit : stop = s.reclaimedFloor + (stop - s.reclaimedFloor) := by omega
    show (_ : Bytes) = (image k _ extra).drop stop
    rw [hsplit, ← drop_drop, ← drop_drop, h.tail]

end Holds

end Graphus
