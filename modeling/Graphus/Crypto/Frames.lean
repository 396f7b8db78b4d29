import Graphus.Crypto.WalSink

/-!
# Frames in the backing sink

Whole frames stand one behind the other behind the sink header, and a crash may leave a strict part
of one more. The forward scan of such bytes finds exactly the whole frames, and a frame that is
found decrypts to its plaintext.
-/

namespace Graphus

open List
open EncryptedLogSink (scanFrames skipZeros)

open Bytes (le field length_le toNat_le field_of_split take_drop_of_split)

/-- What one sync seals. -/
structure Frame where
  logicalOffset : Nat
  writeCount : Nat
  nonce : Bytes
  plain : Bytes

namespace Frame

def logicalEnd (f : Frame) : Nat := f.logicalOffset + f.plain.length

def encode (cipher : Aead) (f : Frame) : Bytes :=
  sealFrame cipher f.nonce f.logicalOffset f.writeCount f.plain

def physLen (f : Frame) : Nat := frameOverhead + f.plain.length

/-- The entry of the frame in the index when it stands at `phys`. -/
def loc (f : Frame) (phys : Nat) : FrameLoc where
  logicalOffset := f.logicalOffset
  logicalLen := f.plain.length
  physOffset := phys
  physLen := f.physLen
  writeCount := f.writeCount

/-- The fields of the frame fit. -/
structure Fits (f : Frame) : Prop where
  nonce : f.nonce.length = nonceLen
  offset : f.logicalOffset < 2 ^ 64
  count : f.writeCount < 2 ^ 64
  len : f.physLen < 2 ^ 64

section Frame

variable {cipher : Aead} {f : Frame} {pre post torn : Bytes} {base : Nat}

lemma length_encode (cipher : Aead) (hf : f.Fits) : (f.encode cipher).length = f.physLen := by
  simp only [encode, sealFrame, length_append, length_le, cipher.length_encrypt, hf.nonce, physLen,
    frameOverhead]
  simp only [frameMagic, length_cons, length_nil]
  omega

lemma physLen_eq : f.physLen = frameOverhead + f.plain.length := rfl

lemma physLen_ge : frameOverhead ≤ f.physLen := Nat.le_add_right ..

/-- The bytes of a frame before its ciphertext. -/
def preamble (f : Frame) : Bytes :=
  frameMagic ++ le 8 f.physLen ++ le 8 f.logicalOffset ++ le 8 f.plain.length ++
    le 8 f.writeCount ++ f.nonce

def sealed (cipher : Aead) (f : Frame) : Bytes :=
  cipher.encrypt f.nonce (frameAad f.logicalOffset f.writeCount) f.plain

lemma encode_eq : f.encode cipher = f.preamble ++ f.sealed cipher := rfl

lemma length_preamble (hf : f.Fits) : f.preamble.length = frOffCiphertext := by
  simp only [preamble, length_append, hf.nonce]
  rfl

/-- The fields of a frame that begins at an offset, from the part of it in `bs`. -/
lemma fields (pre post : Bytes) (hf : f.Fits) {bs : Bytes} (h : bs = pre ++ (f.preamble ++ post)) :
    (bs.drop pre.length).take 4 = frameMagic ∧ field bs (pre.length + 4) 8 = f.physLen ∧
    field bs (pre.length + 12) 8 = f.logicalOffset ∧ field bs (pre.length + 20) 8 = f.plain.length ∧
    field bs (pre.length + 28) 8 = f.writeCount ∧
    (bs.drop (pre.length + 36)).take nonceLen = f.nonce := by
  have hplain : f.plain.length < 2 ^ 64 := lt_of_le_of_lt (Nat.le_add_left ..) hf.len
  refine ⟨take_drop_of_split pre frameMagic (by rw [h]; simp [preamble]; rfl) rfl rfl, ?_,
    ?_, ?_, ?_, ?_⟩
  · rw [field_of_split (pre ++ frameMagic) (le 8 f.physLen) (by rw [h]; simp [preamble]; rfl)
      (by simp [frameMagic]) (length_le ..), toNat_le hf.len]
  · rw [field_of_split (pre ++ (frameMagic ++ le 8 f.physLen)) (le 8 f.logicalOffset)
      (by rw [h]; simp [preamble]; rfl) (by simp [frameMagic]) (length_le ..), toNat_le hf.offset]
  · rw [field_of_split (pre ++ (frameMagic ++ le 8 f.physLen ++ le 8 f.logicalOffset))
      (le 8 f.plain.length) (by rw [h]; simp [preamble]; rfl) (by simp [frameMagic]) (length_le ..),
      toNat_le hplain]
  · rw [field_of_split (pre ++ (frameMagic ++ le 8 f.physLen ++ le 8 f.logicalOffset ++
      le 8 f.plain.length)) (le 8 f.writeCount) (by rw [h]; simp [preamble]; rfl)
      (by simp [frameMagic]) (length_le ..), toNat_le hf.count]
  · exact take_drop_of_split (pre ++ (frameMagic ++ le 8 f.physLen ++ le 8 f.logicalOffset ++
      le 8 f.plain.length ++ le 8 f.writeCount)) f.nonce (by rw [h]; simp [preamble]; rfl)
      (by simp [frameMagic]) hf.nonce

/-- **A frame is found** where it begins. -/
lemma decode_encode (hf : f.Fits) :
    decodeAndAuthenticateFrame cipher (pre ++ (f.encode cipher ++ post)) pre.length base =
      some (f.loc (base + pre.length)) := by
  have hlen := length_encode cipher hf
  have hge : frameOverhead ≤ f.physLen := physLen_ge
  have htotal : (pre ++ (f.encode cipher ++ post)).length = pre.length + f.physLen +
    post.length := by
    rw [length_append, length_append, hlen, Nat.add_assoc]
  obtain ⟨hmagic, hphys, hoff, hplen, hcount, hnonce⟩ := fields pre
    (f.sealed cipher ++ post) hf (show pre ++ (f.encode cipher ++ post) = _ by
      rw [encode_eq, append_assoc])
  have hframe : ((pre ++ (f.encode cipher ++ post)).drop pre.length).take f.physLen =
    f.encode cipher := by
    rw [drop_left, ← hlen, take_left]
  have hct : (f.encode cipher).drop frOffCiphertext = f.sealed cipher := by
    rw [encode_eq, ← length_preamble hf, drop_left]
  have hnonce' : ((f.encode cipher).drop frOffNonce).take nonceLen = f.nonce := by
    obtain ⟨-, -, -, -, -, h⟩ :=
      fields [] (f.sealed cipher) hf (show f.encode cipher = _ from encode_eq)
    exact h
  have hover : frameOverhead = 64 := rfl
  have hnon : frOffNonce = 36 := rfl
  unfold decodeAndAuthenticateFrame
  rw [if_neg (by omega), if_neg (not_not.2 hmagic)]
  dsimp only
  rw [hphys, hoff, hplen, hcount, ← physLen_eq, if_neg (not_le.2 hf.len),
    if_neg (not_not.2 rfl), if_neg (by omega), hframe, hnonce', hct, sealed, cipher.decrypt_encrypt]
  dsimp only
  rw [if_pos rfl]
  rfl

/-- **A torn frame is not found.** -/
lemma decode_torn (hf : f.Fits) (h : f.encode cipher = torn ++ post) (hpost : post ≠ []) :
    decodeAndAuthenticateFrame cipher (pre ++ torn) pre.length base = none := by
  have hlt : torn.length < f.physLen := by
    have hlen := length_encode cipher hf
    rw [h, length_append] at hlen
    have := length_pos_of_ne_nil hpost
    omega
  unfold decodeAndAuthenticateFrame
  by_cases hshort : (pre ++ torn).length < pre.length + frOffNonce
  · rw [if_pos hshort]
  have hnon : frOffNonce = 36 := rfl
  rw [length_append] at hshort
  -- the fields before the nonce are whole
  have hpre : ∀ off k, off + k ≤ 36 → field (pre ++ torn) (pre.length + off) k =
        field (pre ++ (f.encode cipher ++ [])) (pre.length + off) k := by
    intro off k hk
    unfold field
    rw [append_nil, h, ← drop_drop, drop_left, ← drop_drop, drop_left,
      drop_append_of_le_length (by omega), take_append_of_le_length (by rw [length_drop]; omega)]
  obtain ⟨-, hphys, -, hplen, -⟩ := fields pre (f.sealed cipher ++ []) hf
    (show pre ++ (f.encode cipher ++ []) = _ by rw [encode_eq, append_assoc])
  rw [← hpre 4 8 (by omega)] at hphys
  rw [← hpre 20 8 (by omega)] at hplen
  rw [if_neg (by rw [length_append]; exact hshort)]
  split
  · rfl
  · dsimp only
    rw [hphys, hplen, ← physLen_eq, if_neg (not_le.2 hf.len), if_neg (not_not.2 rfl),
      if_pos (by rw [length_append]; omega)]

end Frame

end Frame

/-! ## Frames one behind the other -/

def encodeFrames (cipher : Aead) (F : List Frame) : Bytes := F.flatMap (Frame.encode cipher)

/-- The physical length of frames. -/
def physEnd (F : List Frame) : Nat := (F.map Frame.physLen).sum

/-- The index entries of frames that stand one behind the other from `phys` on. -/
def locs : Nat → List Frame → List FrameLoc
  | _, [] => []
  | phys, f :: F => f.loc phys :: locs (phys + f.physLen) F

/-- The plaintext offset behind the frames. -/
def logicalEndOf (start : Nat) (F : List Frame) : Nat :=
  F.foldl (fun _ f => f.logicalEnd) start

/-- Each frame begins where the one before it ends. -/
def Chained : Nat → List Frame → Prop
  | _, [] => True
  | start, f :: F => f.logicalOffset = start ∧ Chained f.logicalEnd F

section Frames

variable {cipher : Aead} {F G : List Frame} {f : Frame} {pre torn : Bytes} {base start : Nat}

lemma encodeFrames_cons : encodeFrames cipher (f :: F) = f.encode cipher ++ encodeFrames cipher F :=
  rfl

lemma encodeFrames_append :
    encodeFrames cipher (F ++ G) = encodeFrames cipher F ++ encodeFrames cipher G :=
  flatMap_append

lemma physEnd_append : physEnd (F ++ G) = physEnd F + physEnd G := by
  rw [physEnd, map_append, sum_append]
  rfl

lemma physEnd_cons : physEnd (f :: F) = f.physLen + physEnd F := rfl

lemma length_encodeFrames (cipher : Aead) (hF : ∀ f ∈ F, f.Fits) :
    (encodeFrames cipher F).length = physEnd F := by
  induction F with
  | nil => rfl
  | cons f F ih =>
    rw [encodeFrames_cons, length_append, Frame.length_encode cipher (hF f mem_cons_self),
      ih fun g hg => hF g (mem_cons_of_mem f hg), physEnd_cons]

lemma locs_append (phys : Nat) : locs phys (F ++ G) = locs phys F ++ locs (phys + physEnd F) G := by
  induction F generalizing phys with
  | nil => rfl
  | cons f F ih => rw [cons_append, locs, ih, locs, physEnd_cons, cons_append, Nat.add_assoc]

lemma logicalEndOf_append : logicalEndOf start (F ++ G) = logicalEndOf (logicalEndOf start F) G :=
  foldl_append

lemma logicalEndOf_eq_of_ne_nil (hF : F ≠ []) (a b : Nat) :
    logicalEndOf a F = logicalEndOf b F := by
  cases F with
  | nil => exact absurd rfl hF
  | cons f F => rfl

lemma Chained.append_iff :
    Chained start (F ++ G) ↔ Chained start F ∧ Chained (logicalEndOf start F) G := by
  induction F generalizing start with
  | nil => simp [Chained, logicalEndOf]
  | cons f F ih =>
    rw [cons_append, Chained, ih, Chained, and_assoc]
    rfl

lemma Chained.logicalEndOf_eq (h : Chained start F) :
    logicalEndOf start F = start + (F.map fun f => f.plain.length).sum := by
  induction F generalizing start with
  | nil => rfl
  | cons f F ih =>
    have hrec : logicalEndOf start (f :: F) = logicalEndOf f.logicalEnd F := rfl
    rw [hrec, ih h.2, Frame.logicalEnd, h.1, map_cons, sum_cons, Nat.add_assoc]

/-- A strict prefix of a frame. -/
def TornFrame (cipher : Aead) (torn : Bytes) : Prop :=
  ∃ f rest, Frame.Fits f ∧ f.encode cipher = torn ++ rest ∧ rest ≠ []

lemma skipZeros_of_head {rest : Bytes} {b : UInt8} (hb : b ≠ 0) :
    skipZeros (pre ++ b :: rest) pre.length = pre.length := by
  rw [skipZeros, drop_left, takeWhile_cons_of_neg (by simpa using hb)]
  rfl

lemma encode_head (cipher : Aead) (f : Frame) : ∃ rest, f.encode cipher = 0x47 :: rest := ⟨_, rfl⟩

/-- **The forward scan** finds the whole frames and stops at the torn one. -/
lemma scanFrames_eq (hF : ∀ f ∈ F, f.Fits) (hchain : Chained start F)
    (htorn : TornFrame cipher torn)
    {fuel : Nat} (hfuel : F.length < fuel) (frames : List FrameLoc) {low : Nat}
    (hlow : low ≤ start) :
    scanFrames cipher (pre ++ (encodeFrames cipher F ++ torn)) base fuel pre.length frames low =
      .ok (frames ++ locs (base + pre.length) F, logicalEndOf low F) := by
  induction F generalizing pre start fuel frames low with
  | nil =>
    obtain ⟨fuel, rfl⟩ := Nat.exists_eq_succ_of_ne_zero (Nat.ne_of_gt (Nat.zero_lt_of_lt hfuel))
    show (if _ then _ else _) = Except.ok (frames ++ [], low)
    rw [append_nil]
    obtain ⟨f, rest, hf, henc, hrest⟩ := htorn
    cases torn with
    | nil =>
      rw [if_pos]
      show (pre ++ []).length ≤ _
      rw [append_nil]
      exact Nat.le_add_right ..
    | cons b torn =>
      have hb : b ≠ 0 := by
        obtain ⟨r, hr⟩ := encode_head cipher f
        rw [hr] at henc
        cases henc
        decide
      rw [show encodeFrames cipher [] ++ b :: torn = b :: torn from rfl, skipZeros_of_head hb,
        if_neg (by simp), Frame.decode_torn hf henc hrest]
  | cons f F ih =>
    obtain ⟨fuel, rfl⟩ := Nat.exists_eq_succ_of_ne_zero (Nat.ne_of_gt (Nat.zero_lt_of_lt hfuel))
    have hf := hF f mem_cons_self
    have hbytes : encodeFrames cipher (f :: F) ++ torn = f.encode cipher ++
      (encodeFrames cipher F ++ torn) := by
      rw [encodeFrames_cons, append_assoc]
    have hskip : skipZeros (pre ++ (f.encode cipher ++ (encodeFrames cipher F ++ torn)))
        pre.length = pre.length := by
      exact skipZeros_of_head (by decide)
    have hlen := Frame.length_encode cipher hf
    have hpos : frameOverhead ≤ f.physLen := Frame.physLen_ge
    rw [hbytes, scanFrames]
    rw [hskip, if_neg (by
      rw [length_append, length_append]
      have : frameOverhead = 64 := rfl
      omega), Frame.decode_encode hf]
    dsimp only
    have hloc : (f.loc (base + pre.length)).logicalOffset = start := hchain.1
    rw [if_neg (by rw [hloc]; exact not_lt.2 hlow)]
    have hcursor : (f.loc (base + pre.length)).physOffset - base +
        (f.loc (base + pre.length)).physLen = (pre ++ f.encode cipher).length := by
      rw [length_append]
      show base + pre.length - base + f.physLen = _
      omega
    rw [hcursor, ← append_assoc pre]
    have hend : (f.loc (base + pre.length)).logicalEnd = f.logicalEnd := rfl
    rw [ih (fun g hg => hF g (mem_cons_of_mem f hg)) hchain.2
      (by rw [length_cons] at hfuel; omega) _ (le_of_eq hend), hend,
      append_assoc frames, length_append, hlen, ← Nat.add_assoc]
    rfl

end Frames

end Graphus
