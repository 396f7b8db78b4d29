import Graphus.Bolt.RoundTrip

/-!
# Chunked message framing

The framing of `graphus-bolt/src/framing.rs`. A message goes over the wire in chunks, each behind
its length in two bytes, up to a chunk of length zero; outside a message that is a keep-alive. The
dechunker is fed the bytes in any pieces and is asked for the next frame at any time.

**Theorem (`framing_transparent`).** The frames come out as they went in, whatever the pieces and
the calls, and no message is put together above the cap, whatever the bytes.

`Framed` reads the whole byte stream, with no cursor. What a dechunker has not consumed and what is
still to be pushed to it are framed as the frames that have not come out (`Owes`).
-/

namespace Graphus.Framing

open List KeyOrder PackStream

def maxChunkPayload : Nat := 65535

def endMarker : Bytes := [0x00, 0x00]

/-- Each turn takes one piece of `payload.chunks(MAX_CHUNK_PAYLOAD)`. -/
def chunkMessageInto (out payload : Bytes) : Bytes :=
  if payload = [] then out ++ endMarker
  else
    let piece := payload.take maxChunkPayload
    chunkMessageInto (out ++ (be 2 piece.length ++ piece)) (payload.drop maxChunkPayload)
termination_by payload.length
decreasing_by
  rw [length_drop]
  exact Nat.sub_lt (length_pos_iff.2 ‹_›) (by decide)

inductive Frame where
  | message (payload : Bytes)
  | noop

/-- The message that is put together is never above the cap. -/
structure Dechunker (maxMessageSize : Nat) where
  inbox : Bytes := []
  readCursor : Nat := 0
  assembling : Bytes := []
  inMessage : Bool := false
  bounded : assembling.length ≤ maxMessageSize

namespace Dechunker

def withMaxMessageSize (cap : Nat) : Dechunker cap :=
    { assembling := [], bounded := Nat.zero_le cap }

variable {cap : Nat} (d : Dechunker cap)

def compact : Dechunker cap :=
  if d.readCursor = 0 then d
  else if d.inbox.length ≤ d.readCursor then { d with inbox := [], readCursor := 0 }
  else { d with inbox := d.inbox.drop d.readCursor, readCursor := 0 }

def push (bytes : Bytes) : Dechunker cap := { d.compact with inbox := d.compact.inbox ++ bytes }

def compactIfDrained : Dechunker cap :=
  if d.inbox.length ≤ d.readCursor then { d with inbox := [], readCursor := 0 } else d

/-- The compaction that each turn of the loop begins with. -/
def compactIfLarge : Dechunker cap :=
  if 8 * 1024 < d.readCursor ∧ d.inbox.length / 2 < d.readCursor then d.compact else d

/-- The rest of the turn: its answer, or none when the loop goes on. A vector is shorter than `2^63`
bytes, so that the saturating sum of the lengths is their sum. -/
def turn : Option (Except BoltError (Option Frame)) × Dechunker cap :=
  match d.inbox.drop d.readCursor with
  | hi :: lo :: rest =>
    let len := ofBe [hi, lo]
    if len = 0 then
      let readCursor := d.readCursor + 2
      if d.inMessage then
        (some (.ok (some (.message d.assembling))),
          compactIfDrained
            { inbox := d.inbox, readCursor, assembling := [], bounded := Nat.zero_le cap })
      else (some (.ok (some .noop)), { d with readCursor }.compactIfDrained)
    else if hcap : cap < d.assembling.length + len then
      (some (.error
        (.decode (text ("reassembled Bolt message exceeds the maximum size of " ++ toString cap ++
        " bytes")))), d)
    else if rest.length < len then (some (.ok none), d)
    else (none, { d with
      assembling := d.assembling ++ rest.take len
      inMessage := true
      readCursor := d.readCursor + (2 + len)
      bounded := by
        rw [length_append, length_take]
        omega })
  | _ => (some (.ok none), d)

/-- A dechunker without its cursor: the logical buffer, the message and the flag. -/
def view : Bytes × Bytes × Bool := (d.inbox.drop d.readCursor, d.assembling, d.inMessage)

variable {d} {d' : Dechunker cap}

lemma view_compact : d.compact.view = d.view := by
  unfold compact view
  split_ifs <;> simp [*]

lemma view_compactIfDrained : d.compactIfDrained.view = d.view := by
  unfold compactIfDrained view
  split_ifs <;> simp [*]

lemma view_compactIfLarge : d.compactIfLarge.view = d.view := by
  unfold compactIfLarge
  split_ifs <;> simp [view_compact]

lemma view_push (bytes : Bytes) : (d.push bytes).view = (d.view.1 ++ bytes, d.view.2) := by
  have hcursor : d.compact.readCursor = 0 := by
    unfold compact
    split_ifs <;> simp [*]
  rw [← view_compact (d := d)]
  simp [push, view, hcursor]

/-- A chunk of `n` bytes is consumed. -/
lemma drop_chunk {inbox rest : Bytes} {hi lo : UInt8} {cursor : Nat}
    (h : inbox.drop cursor = hi :: lo :: rest)
    (n : Nat) : inbox.drop (cursor + (2 + n)) = rest.drop n := by
  rw [← drop_drop, h, Nat.add_comm, drop_succ_cons, drop_succ_cons]

lemma turn_lt (h : d.turn = (none, d')) : d'.view.1.length < d.view.1.length := by
  unfold turn at h
  split at h
  next hi lo rest hp =>
    dsimp only at h
    split_ifs at h <;> cases h
    rw [view, view, drop_chunk hp, hp, length_drop]
    simp only [length_cons]
    omega
  next => cases h

def nextFrame (d : Dechunker cap) : Except BoltError (Option Frame) × Dechunker cap :=
  match _h : d.compactIfLarge.turn with
  | (some r, d') => (r, d')
  | (none, d') => nextFrame d'
termination_by d.view.1.length
decreasing_by exact view_compactIfLarge (d := d) ▸ turn_lt _h

end Dechunker

/-! ## The byte stream -/

/-- Frames are framed back to back. -/
def encodeInto (out : Bytes) : List Frame → Bytes
  | [] => out
  | .message payload :: frames => encodeInto (chunkMessageInto out payload) frames
  | .noop :: frames => encodeInto (out ++ endMarker) frames

/-- The frames that are read from bytes when `assembling` has been read of the first message. -/
inductive Framed (cap : Nat) : Bytes → Bool → Bytes → List Frame → Prop
  | nil : Framed cap [] false [] []
  | noop {w frames} (h : Framed cap [] false w frames) : Framed cap [] false (endMarker ++ w)
      (.noop :: frames)
  | stop {assembling w frames} (h : Framed cap [] false w frames) :
      Framed cap assembling true (endMarker ++ w) (.message assembling :: frames)
  | chunk {assembling piece w inMessage frames} (hpos : 0 < piece.length)
      (hlt : piece.length < 256 ^ 2)
      (hcap : assembling.length + piece.length ≤ cap)
        (h : Framed cap (assembling ++ piece) true w frames) :
      Framed cap assembling inMessage (be 2 piece.length ++ (piece ++ w)) frames

variable {cap : Nat} {w later : Bytes} {frames : List Frame}

lemma framed_message (hw : Framed cap [] false w frames) (out payload : Bytes) :
    ∃ chunks, chunkMessageInto out payload = out ++ chunks ∧ ∀ assembling inMessage,
      assembling.length + payload.length ≤ cap → (payload = [] → inMessage = true) →
      Framed cap assembling inMessage (chunks ++ w)
        (.message (assembling ++ payload) :: frames) := by
  induction out, payload using chunkMessageInto.induct with
  | case1 out =>
    refine ⟨endMarker, by rw [chunkMessageInto, if_pos rfl], fun assembling inMessage _ h => ?_⟩
    rw [h rfl, append_nil]
    exact .stop hw
  | case2 out payload hne piece ih =>
    obtain ⟨chunks, hinto, hframed⟩ := ih
    refine ⟨be 2 piece.length ++ (piece ++ chunks), ?_, fun assembling inMessage hcap _ => ?_⟩
    · rw [chunkMessageInto, if_neg hne, hinto]
      simp
    have hsplit : piece ++ payload.drop maxChunkPayload = payload := take_append_drop ..
    have hlen := congrArg length hsplit
    rw [length_append] at hlen
    have hpiece : piece.length = min maxChunkPayload payload.length := length_take
    have hpos := length_pos_iff.2 hne
    unfold maxChunkPayload at hpiece
    have hrest := hframed (assembling ++ piece) true (by rw [length_append]; omega) fun _ => rfl
    rw [append_assoc, hsplit] at hrest
    rw [append_assoc, append_assoc]
    exact .chunk (by omega) (by omega) (by omega) hrest

/-- No message is empty, and none is above the cap. -/
def Sendable (cap : Nat) (frames : List Frame) : Prop :=
  ∀ payload, .message payload ∈ frames → payload ≠ [] ∧ payload.length ≤ cap

lemma framed_encodeInto (h : Sendable cap frames) (out : Bytes) :
    ∃ w, encodeInto out frames = out ++ w ∧ Framed cap [] false w frames := by
  induction frames generalizing out with
  | nil => exact ⟨[], (append_nil out).symm, .nil⟩
  | cons f frames ih =>
    have ih := ih fun payload hmem => h payload (mem_cons_of_mem _ hmem)
    cases f with
    | message payload =>
      obtain ⟨hne, hcap⟩ := h payload mem_cons_self
      obtain ⟨w, heq, hw⟩ := ih (chunkMessageInto out payload)
      obtain ⟨chunks, hinto, hframed⟩ := framed_message hw out payload
      refine ⟨chunks ++ w, ?_, hframed [] false (by simpa using hcap) fun h => absurd h hne⟩
      rw [encodeInto, heq, hinto, append_assoc]
    | noop =>
      obtain ⟨w, heq, hw⟩ := ih (out ++ endMarker)
      refine ⟨endMarker ++ w, ?_, .noop hw⟩
      rw [encodeInto, heq, append_assoc]

lemma Framed.eq_nil {assembling inMessage} (h : Framed cap assembling inMessage w frames)
    (hw : w.length < 2) : frames = [] := by
  cases h with
  | nil => rfl
  | noop | stop | chunk =>
    simp [endMarker] at hw
    try omega

namespace Dechunker

variable {d d' : Dechunker cap}

/-- The frames that come out of a dechunker to which the bytes `later` are still pushed. -/
def Owes (d : Dechunker cap) (later : Bytes) (frames : List Frame) : Prop :=
  Framed cap d.view.2.1 d.view.2.2 (d.view.1 ++ later) frames

/-- An answer of `next_frame`: the first frame that is owed, or none, and with nothing to be pushed
only when none is owed. -/
def Answers (d : Dechunker cap) (later : Bytes) (frames : List Frame) :
    Except BoltError (Option Frame) → Prop
  | .ok none => d.Owes later frames ∧ (later = [] → frames = [])
  | .ok (some f) => ∃ frames', frames = f :: frames' ∧ d.Owes later frames'
  | .error _ => False

lemma turn_answers {r} (h : d.Owes later frames) (hd : d.turn = (r, d')) :
    r.elim (d'.Owes later frames) (d'.Answers later frames) := by
  obtain ⟨inbox, cursor, asm, b, hbound⟩ := d
  unfold turn at hd
  split at hd
  next hi lo rest hp =>
    have hframed : Framed cap asm b (hi :: lo :: rest ++ later) frames := hp ▸ h
    generalize hw : hi :: lo :: rest ++ later = w at hframed
    dsimp only at hd hp
    cases hframed with
    | nil => cases hw
    | noop hframed | stop hframed =>
      obtain ⟨rfl, rfl, rfl⟩ : hi = 0 ∧ lo = 0 ∧ rest ++ later = _ := by simpa [endMarker] using hw
      rw [if_pos (by decide)] at hd
      cases hd
      refine ⟨_, rfl, ?_⟩
      rw [Owes, view_compactIfDrained, view, drop_chunk hp 0]
      exact hframed
    | @chunk _ piece w _ _ hpos hlt hcap hframed =>
      obtain ⟨hlen, hrest⟩ := append_inj (show [hi, lo] ++ (rest ++ later) = _ from hw) (by simp)
      have hn : ofBe [hi, lo] = piece.length := by rw [hlen, ofBe_be hlt]
      rw [if_neg (by omega), dif_neg (by omega)] at hd
      split_ifs at hd with hshort <;> cases hd
      · refine ⟨h, fun hl => ?_⟩
        have := congrArg length hrest
        simp only [hl, append_nil, length_append] at this
        omega
      have hle : piece.length ≤ rest.length := by omega
      have htake := congrArg (take piece.length) hrest
      have hdrop := congrArg (drop piece.length) hrest
      rw [take_append_of_le_length hle, take_left] at htake
      rw [drop_append_of_le_length hle, drop_left] at hdrop
      show Framed cap (asm ++ rest.take (ofBe [hi, lo])) true (inbox.drop _ ++ later) frames
      rwa [drop_chunk hp, hn, htake, hdrop]
  next hshort =>
    cases hd
    refine ⟨h, fun hl => Framed.eq_nil h ?_⟩
    subst hl
    rcases hp : inbox.drop cursor with _ | ⟨hi, _ | ⟨lo, rest⟩⟩
    · simp [view, hp]
    · simp [view, hp]
    · exact absurd hp (hshort hi lo rest)

lemma nextFrame_answers (h : d.Owes later frames) :
    d.nextFrame.2.Answers later frames d.nextFrame.1 := by
  induction d using nextFrame.induct with
  | case1 d r d' heq =>
    rw [nextFrame, heq]
    exact turn_answers (by rw [Owes, view_compactIfLarge]; exact h) heq
  | case2 d d' heq ih =>
    rw [nextFrame, heq]
    exact ih (turn_answers (by rw [Owes, view_compactIfLarge]; exact h) heq)

end Dechunker

/-! ## Pushes and calls -/

inductive FeedOp where
  | push (bytes : Bytes)
  | nextFrame

/-- The bytes that are pushed. -/
def pushed : List FeedOp → Bytes
  | [] => []
  | .push bytes :: ops => bytes ++ pushed ops
  | .nextFrame :: ops => pushed ops

namespace Dechunker

/-- The answers of the calls, and the dechunker after them. -/
def feed {cap : Nat} (d : Dechunker cap) :
    List FeedOp → List (Except BoltError (Option Frame)) × Dechunker cap
  | [] => ([], d)
  | .push bytes :: ops => (d.push bytes).feed ops
  | .nextFrame :: ops => (d.nextFrame.1 :: (d.nextFrame.2.feed ops).1, (d.nextFrame.2.feed ops).2)

lemma feed_owes {d : Dechunker cap} {ops : List FeedOp} (h : d.Owes (pushed ops) frames) :
    ∃ (outs : List (Option Frame)) (frames' : List Frame), (d.feed ops).1 = outs.map .ok ∧
      frames = outs.reduceOption ++ frames' ∧ (d.feed ops).2.Owes [] frames' := by
  induction ops generalizing d frames with
  | nil => exact ⟨[], frames, rfl, rfl, h⟩
  | cons op ops ih =>
    cases op with
    | push bytes =>
      refine ih ?_
      rw [Owes, view_push, append_assoc]
      exact h
    | nextFrame =>
      have hanswer : d.nextFrame.2.Answers (pushed ops) frames d.nextFrame.1 := nextFrame_answers h
      rw [feed]
      generalize d.nextFrame = a at hanswer
      obtain ⟨_ | _ | f, d'⟩ := a
      · cases hanswer
      · obtain ⟨outs, frames', heq, hframes, howes⟩ := ih hanswer.1
        exact ⟨none :: outs, frames', by rw [heq]; rfl, hframes, howes⟩
      · obtain ⟨frames1, rfl, hnext⟩ := hanswer
        obtain ⟨outs, frames', heq, rfl, howes⟩ := ih hnext
        exact ⟨some f :: outs, frames', by rw [heq]; rfl, rfl, howes⟩

end Dechunker

open Dechunker

/-- **Framing is transparent.** The message that is put together stays at or below the cap, whatever
the bytes. When the bytes are those of some frames, every call is answered, the frames come out in
their order, and a call after that answers none exactly when all are out. -/
theorem framing_transparent (cap : Nat) (ops : List FeedOp) :
    ((withMaxMessageSize cap).feed ops).2.assembling.length ≤ cap ∧
    ∀ frames, Sendable cap frames → pushed ops = encodeInto [] frames →
    ∃ outs : List (Option Frame),
      ((withMaxMessageSize cap).feed ops).1 = outs.map .ok ∧ outs.reduceOption <+: frames ∧
      (((withMaxMessageSize cap).feed ops).2.nextFrame.1 = .ok none ↔
        outs.reduceOption = frames) := by
  refine ⟨bounded _, fun frames hsend hpushed => ?_⟩
  obtain ⟨w, heq, hw⟩ := framed_encodeInto hsend []
  have hstart : (withMaxMessageSize cap).Owes (pushed ops) frames := by
    rw [hpushed, heq]
    exact hw
  obtain ⟨outs, frames', hout, rfl, howes⟩ := feed_owes hstart
  refine ⟨outs, hout, prefix_append .., ?_⟩
  have hanswer := nextFrame_answers howes
  rw [self_eq_append_right]
  generalize ((withMaxMessageSize cap).feed ops).2.nextFrame = a at hanswer
  obtain ⟨_ | _ | f, d⟩ := a
  · cases hanswer
  · exact ⟨fun _ => hanswer.2 rfl, fun _ => rfl⟩
  · obtain ⟨frames1, rfl, -⟩ := hanswer
    simp

/-- A message and a keep-alive, in two pieces. -/
theorem framing_transparent_two_pieces : ∃ outs : List (Option Frame),
    ((withMaxMessageSize 2).feed [.push [0, 2, 1], .nextFrame, .push [2, 0, 0, 0, 0], .nextFrame]).1
      = outs.map .ok ∧ outs.reduceOption <+: [.message [1, 2], .noop] := by
  obtain ⟨outs, hout, hprefix, -⟩ :=
    (framing_transparent 2 [.push [0, 2, 1], .nextFrame, .push [2, 0, 0, 0, 0],
    .nextFrame]).2 [.message [1, 2], .noop] (by simp [Sendable])
    (by simp [pushed, encodeInto, chunkMessageInto, maxChunkPayload, be, endMarker])
  exact ⟨outs, hout, hprefix⟩

end Graphus.Framing
