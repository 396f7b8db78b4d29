import Graphus.Bolt.PackStream

/-!
# Decoding untrusted bytes

Whatever the bytes are, the decoder ends in a value or in an error of its own, within fixed bounds.

`Safe f d m Q` is the triple all of this is proved by: started with `f` calls on the stack and `d`
levels of nesting, `m` keeps the limits whether it returns or fails, fails with an error of the
source only, and returns at the same stack, at the same nesting and with a result of `Q`. A `call`
adds one to `f`, so the side condition of each reader says how many calls it nests.

**Theorem (`unpackValue_bounded`).** Both decoders end without a panic, in at most three calls a
level of nesting and a few for the last one, within the bytes given, the budget of elements and the
bound on reservations.

**Theorem (`unpackValueAt_safe`).** What the decoder accepts is well formed (`Value.Accepted`).
-/

namespace Graphus.PackStream

open Hoare List
open Prod (fst)

variable {α β : Type} {bytes : Bytes} {B f d n : Nat}

/-! ## What is accepted -/

/-- The form of one value, whatever is inside it. -/
def NodeAccepted : Value → Prop
  | .string s => isUtf8 s = true
  | .map entries => (entries.map fst).Nodup ∧ ∀ e ∈ entries, isUtf8 e.1 = true
  | .date v => minEpochDay ≤ v.daysSinceEpoch.toInt ∧ v.daysSinceEpoch.toInt ≤ maxEpochDay
  | .localTime t => t.nanosOfDay.toNat < nanosPerDay
  | .zonedTime t =>
    t.time.nanosOfDay.toNat < nanosPerDay ∧ t.offsetSeconds.toInt.natAbs ≤ maxTzOffsetSeconds
  | .localDateTime t => t.nanos.toNat < nanosPerSecond
  | .zonedDateTime t => t.localDateTime.nanos.toNat < nanosPerSecond
  | .duration v => 0 ≤ v.nanos.toInt ∧ v.nanos.toInt < nanosPerSecond
  | _ => True

/-- The form of a value that the decoder has accepted. -/
def Accepted (v : Value) : Prop := ∀ x ∈ v.subvalues, NodeAccepted x

lemma accepted_of_subvalues {v : Value} (h : v.subvalues = [v]) (hv : NodeAccepted v) :
    Accepted v := by
  intro x hx
  rw [h, mem_singleton] at hx
  exact hx ▸ hv

lemma accepted_list {items : List Value} (h : ∀ v ∈ items, Accepted v) :
    Accepted (.list items) := by
  intro x hx
  rcases Value.mem_subvalues_list.1 hx with rfl | ⟨v, hv, hx⟩
  · trivial
  · exact h v hv x hx

/-- The entries of a map with distinct keys. -/
structure EntriesAccepted (entries : Fields) : Prop where
  nodup : (entries.map fst).Nodup
  key : ∀ e ∈ entries, isUtf8 e.1 = true
  value : ∀ e ∈ entries, Accepted e.2

lemma accepted_map {entries : Fields} (h : EntriesAccepted entries) : Accepted (.map entries) := by
  intro x hx
  rcases Value.mem_subvalues_map.1 hx with rfl | ⟨e, he, hx⟩
  · exact ⟨h.nodup, h.key⟩
  · exact h.value e he x hx

/-! ## The limits -/

/-- What every run keeps within, whether it returns or fails. -/
structure Limits (bytes : Bytes) (B : Nat) (u : Unpacker) : Prop where
  peak_le : u.peak ≤ B
  reach_le : u.reach ≤ bytes.length
  decoded_le : u.decoded ≤ maxDecodeElements
  reserved_le : ∀ r ∈ u.reserved, r.slots ≤ maxPrealloc ∧ r.slots ≤ r.unread
  fieldSlots_le : u.fieldSlots ≤ maxStructFields

/-- The state of a run at `f` calls, `d` levels and with `k` elements charged and not yet
decoded. -/
structure Within (bytes : Bytes) (B f d k : Nat)
    (u : Unpacker) : Prop extends Limits bytes B u where
  buf_eq : u.buf = bytes
  pos_le : u.pos ≤ bytes.length
  frames_eq : u.frames = f
  depth_eq : u.depth = d
  budget : u.decoded + u.elementsRemaining + k ≤ maxDecodeElements

/-- A failed run: an error of the source, within the limits. -/
def Stopped (bytes : Bytes) (B : Nat) (e : DecodeFault) (u : Unpacker) : Prop :=
  (∃ b, e = .error b) ∧ Limits bytes B u

/-- A run that takes the nesting from `d` to `d'` and the charged elements from `k` to `k'`. -/
def Moves (bytes : Bytes) (B f d k d' k' : Nat) (m : Unpack α) (Q : α → Prop) : Prop :=
  Triple (Within bytes B f d k) m (fun a u => Q a ∧ Within bytes B f d' k' u) (Stopped bytes B)

def Safe (bytes : Bytes) (B f d : Nat) (m : Unpack α) (Q : α → Prop) : Prop :=
  ∀ k, Moves bytes B f d k d k m Q

section Rules

variable {m : Unpack α} {Q : α → Prop} {R : β → Prop} {k d' k' d'' k'' : Nat}

lemma Moves.bind {g : α → Unpack β} (hm : Moves bytes B f d k d' k' m Q)
    (hg : ∀ a, Q a → Moves bytes B f d' k' d'' k'' (g a) R) :
    Moves bytes B f d k d'' k'' (m >>= g) R :=
  Triple.bind hm fun a => Triple.assume fun ha => hg a ha

/-- One more call on the stack. -/
lemma Moves.call (h : Moves bytes B (f + 1) d k d' k' m Q) (hB : f + 1 ≤ B) :
    Moves bytes B f d k d' k' (call m) Q := by
  refine Triple.bind (Triple.modify fun u hu => ?_) fun _ => Triple.bind h fun a =>
    Triple.bind (Triple.modify fun u hu => ?_) fun _ => Triple.pure fun u hu => hu
  · have hpeak : max u.peak (u.frames + 1) ≤ B := Nat.max_le.2 ⟨hu.peak_le, hu.frames_eq ▸ hB⟩
    exact { hu with peak_le := hpeak, frames_eq := congrArg (· + 1) hu.frames_eq }
  · exact ⟨hu.1, { hu.2 with frames_eq := Nat.sub_eq_of_eq_add hu.2.frames_eq }⟩

namespace Safe

lemma pure {a : α} (h : Q a) : Safe bytes B f d (pure a) Q := fun _ => .pure fun _ hu => ⟨h, hu⟩

lemma leaf {v : Value} (h : v.subvalues = [v]) (hv : NodeAccepted v) :
    Safe bytes B f d (Pure.pure v) Accepted :=
  pure (accepted_of_subvalues h hv)

lemma decodeError {message : String} : Safe bytes B f d (decodeError message : Unpack α) Q :=
  fun _ => .throw fun _ hu => ⟨⟨_, rfl⟩, hu.toLimits⟩

lemma error {e : BoltError} : Safe bytes B f d (throw (.error e) : Unpack α) Q :=
  fun _ => .throw fun _ hu => ⟨⟨_, rfl⟩, hu.toLimits⟩

lemma expect {P : Prop} [Decidable P] (h : P) : Safe bytes B f d (expect P) fun _ => True := by
  rw [PackStream.expect, if_pos h]
  exact pure trivial

lemma bind {g : α → Unpack β} (hm : Safe bytes B f d m Q)
    (hg : ∀ a, Q a → Safe bytes B f d (g a) R) : Safe bytes B f d (m >>= g) R :=
  fun k => (hm k).bind fun a ha => hg a ha k

lemma ite {c : Prop} [Decidable c] {m' : Unpack α} (ht : c → Safe bytes B f d m Q)
    (hf : ¬ c → Safe bytes B f d m' Q) : Safe bytes B f d (if c then m else m') Q :=
  fun k => .ite (fun h => ht h k) (fun h => hf h k)

lemma weaken {Q' : α → Prop} (hm : Safe bytes B f d m Q) (h : ∀ a, Q a → Q' a) :
    Safe bytes B f d m Q' :=
  fun k => (hm k).conseq (fun _ hu => hu) (fun a _ ha => ⟨h a ha.1, ha.2⟩) fun _ _ he => he

lemma call (h : Safe bytes B (f + 1) d m Q) (hB : f + 1 ≤ B) : Safe bytes B f d (call m) Q :=
  fun k => (h k).call hB

/-- A loop keeps what its body keeps of the accumulator. -/
lemma iterate {body : β → Unpack β} (h : ∀ b, R b → Safe bytes B f d (body b) R)
    {b : β} (hb : R b) : Safe bytes B f d (iterate n body b) R := by
  intro k
  have hloop := @Triple.iterate _ _ _ (Stopped bytes B) body
    (fun _ b u => R b ∧ Within bytes B f d k u) n (fun _ _ b => .assume fun hb => h b hb k) b
  exact hloop.conseq (fun _ hu => ⟨hb, hu⟩) (fun _ _ h => h) fun _ _ h => h

end Safe

end Rules

/-! ## Readers -/

/-- An error of the source, from any state of a run. -/
lemma Within.fails {u : Unpacker} {k : Nat} (hu : Within bytes B f d k u) {e : BoltError}
    {Q : α → Unpacker → Prop} :
    Triple (· = u) (throw (.error e) : Unpack α) Q (Stopped bytes B) := by
  rintro _ rfl
  exact ⟨⟨_, rfl⟩, hu.toLimits⟩

section

variable (k : Nat) (hB : f + 1 ≤ B)

include k hB

lemma enterNested_moves :
    Moves bytes B f d k (d + 1) k enterNested fun _ => d < maxDecodeDepth := by
  refine Moves.call (.of_state fun u hu => ?_) hB
  refine .modify_bind (.get_bind (.ite (fun _ => ?_) fun hdeep => ?_))
  · rintro _ rfl
    exact ⟨⟨_, rfl⟩, { hu.toLimits with }⟩
  rintro _ rfl
  have hdepth := hu.depth_eq
  dsimp only at hdeep
  exact ⟨by omega, { hu with depth_eq := congrArg (· + 1) hdepth }⟩

lemma leaveNested_moves : Moves bytes B f (d + 1) k d k leaveNested fun _ => True := by
  refine Moves.call (.of_state fun u hu => .get_bind ?_) hB
  rw [expect, if_pos (hu.depth_eq ▸ Nat.succ_pos d)]
  rintro _ rfl
  exact ⟨trivial, { hu with depth_eq := Nat.sub_eq_of_eq_add hu.depth_eq }⟩

lemma chargeElement_moves :
    Moves bytes B f d k d (k + 1) chargeElement fun _ => True := by
  refine Moves.call (.of_state fun u hu => .get_bind (.ite (fun _ => hu.fails) fun hne => ?_)) hB
  rintro _ rfl
  have hbudget := hu.budget
  exact ⟨trivial, { hu with budget := by dsimp only; omega }⟩

end

lemma noteElement_moves (k : Nat) : Moves bytes B f d (k + 1) d k noteElement fun _ => True := by
  intro u hu
  have hbudget := hu.budget
  exact ⟨trivial, { hu with decoded_le := by dsimp only; omega, budget := by dsimp only; omega }⟩

section

variable (hB : f + 1 ≤ B)

include hB

lemma remaining_safe : Safe bytes B f d remaining fun _ => True := by
  intro k
  refine Moves.call (.of_state fun u hu => .get_bind ?_) hB
  rw [expect, if_pos (hu.buf_eq ▸ hu.pos_le)]
  rintro _ rfl
  exact ⟨trivial, hu⟩

lemma reserve_safe : Safe bytes B f d (reserve n) fun _ => True := by
  refine .bind (remaining_safe hB) fun unread _ k u hu => ⟨trivial, { hu with reserved_le := ?_ }⟩
  rintro r (_ | ⟨_, hr⟩)
  · exact ⟨Nat.min_le_right _ _, (Nat.min_le_left _ _).trans (Nat.min_le_right _ _)⟩
  · exact hu.reserved_le r hr

lemma readU8_safe : Safe bytes B f d readU8 fun _ => True := by
  intro k
  refine Moves.call (.of_state fun u hu => .get_bind ?_) hB
  cases hb : u.buf[u.pos]? with
  | none => exact hu.fails
  | some b =>
    rintro _ rfl
    obtain ⟨hlt, -⟩ := List.getElem?_eq_some_iff.1 hb
    rw [hu.buf_eq] at hlt
    exact ⟨trivial, { hu with reach_le := Nat.max_le.2 ⟨hu.reach_le, hlt⟩, pos_le := hlt }⟩

lemma readSlice_safe : Safe bytes B f d (readSlice n) fun s => s.length = n := by
  intro k
  refine Moves.call (.of_state fun u hu => .get_bind ?_) hB
  refine .ite (fun _ => hu.fails) fun _ => .ite (fun hle => ?_) fun _ => hu.fails
  rintro u rfl
  have hlen : ((u.buf.drop u.pos).take n).length = n := by
    rw [length_take, length_drop]
    omega
  rw [hu.buf_eq] at hle
  exact ⟨hlen, { hu with reach_le := Nat.max_le.2 ⟨hu.reach_le, hle⟩, pos_le := hle }⟩

end

lemma peek_safe {offset : Nat} {message : String} :
    Safe bytes B f d (peek offset message) fun _ => True := by
  intro k
  refine .of_state fun u hu => .get_bind ?_
  cases hb : u.buf[u.pos + offset]? with
  | none => exact hu.fails
  | some b =>
    rintro _ rfl
    obtain ⟨hlt, -⟩ := List.getElem?_eq_some_iff.1 hb
    rw [hu.buf_eq] at hlt
    exact ⟨trivial, { hu with reach_le := Nat.max_le.2 ⟨hu.reach_le, hlt⟩ }⟩

lemma readBeLen_safe (hB : f + 2 ≤ B) : Safe bytes B f d (readBeLen n) fun _ => True :=
  .call (.bind (readSlice_safe hB) fun _ _ => .pure trivial) (by omega)

lemma peekMarker_safe (hB : f + 1 ≤ B) : Safe bytes B f d peekMarker fun _ => True :=
  .call peek_safe hB

lemma signedOfBe_safe {s : Bytes} (h : s.length = n) :
    Safe bytes B f d (signedOfBe n s) fun _ => True :=
  .bind (.expect h) fun _ _ => .pure trivial

lemma readInt_safe (hB : f + 2 ≤ B) : Safe bytes B f d readInt fun _ => True := by
  refine .call (.bind (readU8_safe hB) fun m _ => ?_) (by omega)
  refine .ite (fun _ => .bind (readU8_safe hB) fun _ _ => signedOfBe_safe rfl) fun _ => ?_
  iterate 3 refine .ite (fun _ => .bind (readSlice_safe hB) fun _ h => signedOfBe_safe h) fun _ =>
    ?_
  exact .ite (fun _ => signedOfBe_safe rfl) fun _ => .decodeError

variable {what : String}

lemma readHeader_safe {tinyBase m8 m16 m32 : UInt8} (hB : f + 3 ≤ B) :
    Safe bytes B f d (readHeader tinyBase m8 m16 m32 what) fun _ => True := by
  refine .call (.bind (readU8_safe (by omega)) fun m _ => ?_) (by omega)
  refine .ite (fun _ => .pure trivial) fun _ => ?_
  refine .ite (fun _ => readBeLen_safe hB) fun _ => ?_
  refine .ite (fun _ => readBeLen_safe hB) fun _ => ?_
  exact .ite (fun _ => readBeLen_safe hB) fun _ => .decodeError

lemma readString_safe (hB : f + 4 ≤ B) : Safe bytes B f d readString fun s => isUtf8 s = true := by
  refine .call (.bind (readHeader_safe hB) fun len _ => ?_) (by omega)
  refine .bind (readSlice_safe (by omega)) fun s _ => ?_
  exact .ite .pure fun _ => .decodeError

lemma isTiny_toNat {base m : UInt8} (hbase : base.toNat + 15 < 256) (h : isTiny base m = true) :
    (m - base).toNat ≤ 15 := by
  rw [isTiny, Bool.and_eq_true, decide_eq_true_eq, decide_eq_true_eq, UInt8.le_iff_toNat_le,
    UInt8.le_iff_toNat_le, UInt8.toNat_add] at h
  rw [UInt8.toNat_sub_of_le _ _ (UInt8.le_iff_toNat_le.2 h.1)]
  have : (0x0F : UInt8).toNat = 15 := rfl
  omega

lemma readStructHeader_safe (hB : f + 2 ≤ B) :
    Safe bytes B f d readStructHeader fun header => header.2 ≤ maxStructFields := by
  refine .call (.bind (readU8_safe hB) fun m _ => ?_) (by omega)
  refine .ite (fun hm => ?_) fun _ => .decodeError
  refine .bind (.expect (isTiny_toNat (by decide) hm)) fun _ _ => ?_
  refine .bind (readU8_safe hB) fun tag _ => ?_
  exact .ite (fun _ => .decodeError) fun _ => .pure (isTiny_toNat (by decide) hm)

lemma expectFields_safe {tag : UInt8} {got want : Nat} (hB : f + 1 ≤ B) :
    Safe bytes B f d (expectFields tag got want) fun _ => True :=
  .call (.ite (fun _ => .pure trivial) fun _ => .decodeError) hB

/-- The header of a structure, its field count, and its fields. -/
lemma structure_safe {want : Nat} {m : Unpack α} (hB : f + 3 ≤ B) (h : Safe bytes B (f + 1) d m Q) :
    Safe bytes B f d (call do
      let (t, fieldCount) ← readStructHeader
      expectFields t fieldCount want
      m) Q :=
  .call (.bind (readStructHeader_safe hB) fun _ _ =>
    .bind (expectFields_safe (by omega)) fun _ _ => h) (by omega)

lemma readU64Field_safe (hB : f + 3 ≤ B) : Safe bytes B f d (readU64Field what) fun _ => True :=
  .call (.bind (readInt_safe hB) fun _ _ =>
    .ite (fun _ => .pure trivial) fun _ => .decodeError) (by omega)

lemma readI32Field_safe (hB : f + 3 ≤ B) : Safe bytes B f d (readI32Field what) fun _ => True :=
  .call (.bind (readInt_safe hB) fun _ _ =>
    .ite (fun _ => .pure trivial) fun _ => .decodeError) (by omega)

lemma checkedTzOffset_safe {offset : Int32} (hB : f + 1 ≤ B) :
    Safe bytes B f d (checkedTzOffset offset what) fun o => o.toInt.natAbs ≤ maxTzOffsetSeconds :=
  .call (.ite (fun _ => .decodeError) fun h => .pure (Nat.le_of_not_lt h)) hB

lemma splitNanos_safe {nanos : Int} (hB : f + 1 ≤ B) :
    Safe bytes B f d (splitNanos nanos) fun r => r.2.toNat < nanosPerSecond := by
  have hlo := Int.emod_nonneg nanos (show (nanosPerSecond : Int) ≠ 0 by decide)
  have hhi := Int.emod_lt_of_pos nanos (show (0 : Int) < nanosPerSecond by decide)
  have hbound : (nanosPerSecond : Int) < 2 ^ 32 := by decide
  refine .call (.bind (.expect ⟨hlo, hhi.trans hbound⟩) fun _ _ => .pure ?_) hB
  rw [UInt32.toNat_ofNat_of_lt' ((Int.toNat_lt hlo).2 (hhi.trans hbound))]
  exact (Int.toNat_lt hlo).2 hhi

lemma readNormalisedNanosI32_safe (hB : f + 4 ≤ B) :
    Safe bytes B f d (readNormalisedNanosI32 what) fun r => r.2.toNat < nanosPerSecond :=
  .call (.bind (readI32Field_safe hB) fun _ _ => splitNanos_safe (by omega)) (by omega)

lemma checkedSeconds_safe {seconds : Int64} {carry : Int} (hB : f + 1 ≤ B) :
    Safe bytes B f d (checkedSeconds seconds carry what) fun _ => True :=
  .call (.ite (fun _ => .pure trivial) fun _ => .decodeError) hB

lemma zonedFromUtc_safe {utcSecs : Int64} {nanos : UInt32} {offset : Int32} {zoneId : Text}
    (hB : f + 1 ≤ B) :
    Safe bytes B f d (zonedFromUtc utcSecs nanos offset zoneId) fun t =>
    t.localDateTime.nanos = nanos :=
  .call (.ite (fun _ => .pure rfl) fun _ => .decodeError) hB

lemma decodePoint_safe {srid : Int64} {coords : List Double} (hB : f + 1 ≤ B) :
    Safe bytes B f d (decodePoint srid coords) Accepted := by
  refine .call ?_ hB
  cases Crs.fromSrid srid.toInt with
  | none => exact .decodeError
  | some crs =>
    cases h : Point.fromCrsCoords crs coords with
    | none =>
      simp only [h]
      exact .decodeError
    | some p =>
      simp only [h]
      exact .leaf rfl trivial

lemma unpackBytes_safe (hB : f + 3 ≤ B) : Safe bytes B f d unpackBytes Accepted := by
  refine .call (.bind (readU8_safe (by omega)) fun m _ => ?_) (by omega)
  refine @Safe.bind _ _ bytes B (f + 1) d _ (fun _ => True) _ _ ?_ fun len _ => ?_
  · refine .ite (fun _ => readBeLen_safe hB) fun _ => ?_
    refine .ite (fun _ => readBeLen_safe hB) fun _ => ?_
    exact .ite (fun _ => readBeLen_safe hB) fun _ => .decodeError
  · exact .bind (readSlice_safe (by omega)) fun _ _ => .leaf rfl trivial

/-! ## Maps -/

namespace MapAccumulator

/-- Where a key is among the entries. -/
def position (entries : Fields) (key : Text) : Option Nat :=
  entries.findIdx? fun e => e.1 = key

/-- The entries have distinct keys, and an index that is there gives the position of every key. -/
structure Ok (P : Text × Value → Prop) (acc : MapAccumulator) : Prop where
  nodup : (acc.entries.map fst).Nodup
  entry : ∀ e ∈ acc.entries, P e
  index_eq : ∀ index, acc.index = some index → ∀ key, index.lookup key = position acc.entries key

/-- The entries after an insertion. -/
def inserted (entries : Fields) (key : Text) (value : Value) : Fields :=
  match position entries key with
  | some i => entries.set i (key, value)
  | none => entries ++ [(key, value)]

section Position

variable {entries : Fields} {key k : Text} {value : Value} {i : Nat}

lemma position_eq_findIdx? : position entries key = (entries.map fst).findIdx? (· = key) := by
  rw [findIdx?_map]
  rfl

lemma lookup_zipIdx (keys : List Text) (key : Text) (n : Nat) :
    (keys.zipIdx n).lookup key = (keys.findIdx? (· = key)).map (· + n) := by
  induction keys generalizing n with
  | nil => rfl
  | cons k keys ih =>
    rw [zipIdx_cons, lookup_cons, findIdx?_cons, ih]
    by_cases h : k = key
    · simp [h]
    · rw [beq_eq_false_iff_ne.2 (Ne.symm h), decide_eq_false h]
      simp [Function.comp_def, Nat.add_assoc, Nat.add_comm 1 n]

lemma position_append (h : position entries key = none) :
    position (entries ++ [(key, value)]) k = if k = key then some entries.length else position
    entries k := by
  rw [position]
  by_cases hk : k = key
  · subst hk
    rw [position] at h
    simp [h]
  · simp [hk, Ne.symm hk, position]

lemma getElem?_of_position (h : position entries key = some i) :
    ∃ v, entries[i]? = some (key, v) := by
  obtain ⟨hlt, hkey, -⟩ := findIdx?_eq_some_iff_getElem.1 h
  refine ⟨entries[i].2, ?_⟩
  rw [getElem?_eq_getElem hlt, ← of_decide_eq_true hkey]

lemma map_fst_set (h : position entries key = some i) :
    (entries.set i (key, value)).map fst = entries.map fst := by
  obtain ⟨v, hv⟩ := getElem?_of_position h
  apply ext_getElem?
  intro j
  rw [getElem?_map, getElem?_map]
  by_cases hij : i = j
  · subst hij
    obtain ⟨hlt, -⟩ := List.getElem?_eq_some_iff.1 hv
    rw [getElem?_set_self hlt, hv]
    rfl
  · rw [getElem?_set_ne hij]

lemma not_mem_of_position (h : position entries key = none) : key ∉ entries.map fst := by
  rw [position, findIdx?_eq_none_iff] at h
  rw [mem_map]
  rintro ⟨e, he, rfl⟩
  exact of_decide_eq_false (h e he) rfl

lemma setValue_eq (h : position entries key = some i) :
    setValue entries i value = some (entries.set i (key, value)) := by
  obtain ⟨v, hv⟩ := getElem?_of_position h
  rw [setValue, hv]
  rfl

end Position

section Insert

variable {P : Text × Value → Prop} {acc : MapAccumulator} {key : Text} {value : Value}

section

variable (h : acc.Ok P) (hP : P (key, value))

include h hP

/-- Writing over an entry leaves the keys, and with them the index, as they are. -/
lemma Ok.set {i : Nat} (hi : position acc.entries key = some i) :
    Ok P ⟨acc.entries.set i (key, value), acc.index⟩ where
  nodup := by
    rw [map_fst_set hi]
    exact h.nodup
  entry := by
    intro e he
    rcases mem_or_eq_of_mem_set he with he | rfl
    · exact h.entry e he
    · exact hP
  index_eq := by
    intro index hindex k
    rw [h.index_eq index hindex k, position_eq_findIdx?, position_eq_findIdx?, map_fst_set hi]

lemma Ok.append (hnew : position acc.entries key = none)
    {index : Option (List (Text × Nat))}
    (hindex : ∀ ix, index = some ix →
      ∀ k, ix.lookup k = position (acc.entries ++ [(key, value)]) k) :
    Ok P ⟨acc.entries ++ [(key, value)], index⟩ where
  nodup := by
    rw [map_append, nodup_append]
    refine ⟨h.nodup, pairwise_singleton _ _, ?_⟩
    rintro k hk k' hk' rfl
    rw [map_singleton, mem_singleton] at hk'
    subst hk'
    exact not_mem_of_position hnew hk
  entry := forall_mem_append.2 ⟨h.entry, forall_mem_singleton.2 hP⟩
  index_eq := hindex

/-- An insertion never panics, and with or without the index it does the same to the entries. -/
lemma insert_eq :
    ∃ acc', acc.insert key value = some acc' ∧ acc'.Ok P ∧
    acc'.entries = inserted acc.entries key value := by
  unfold insert inserted
  cases hpos : position acc.entries key with
  | some i =>
    refine ⟨⟨acc.entries.set i (key, value), acc.index⟩, ?_, h.set hP hpos, rfl⟩
    cases hindex : acc.index with
    | some index => simp only [h.index_eq index hindex key, hpos, setValue_eq hpos, Option.map_some]
    | none => simp only [show acc.entries.findIdx? _ = some i from hpos, setValue_eq hpos,
        Option.map_some]
  | none =>
    cases hindex : acc.index with
    | some index =>
      dsimp only
      rw [h.index_eq index hindex key, hpos]
      refine ⟨_, rfl, h.append hP hpos fun index' hindex' k => ?_, rfl⟩
      cases hindex'
      rw [lookup_cons, position_append hpos, h.index_eq index hindex k]
      by_cases hk : k = key
      · rw [if_pos hk, beq_iff_eq.2 hk]
      · rw [if_neg hk, beq_eq_false_iff_ne.2 hk]
    | none =>
      simp only [show acc.entries.findIdx? _ = none from hpos]
      split
      · refine ⟨_, rfl, h.append hP hpos fun index' hindex' k => ?_, rfl⟩
        cases hindex'
        rw [lookup_zipIdx, position_eq_findIdx?]
        simp
      · exact ⟨_, rfl, h.append hP hpos nofun, rfl⟩

end

end Insert

end MapAccumulator

lemma insertEntry_safe {P : Text × Value → Prop} {acc : MapAccumulator} {key : Text} {value : Value}
    (h : acc.Ok P) (hP : P (key, value)) (hB : f + 1 ≤ B) :
    Safe bytes B f d (insertEntry acc key value) (MapAccumulator.Ok P) := by
  obtain ⟨acc', hinsert, hacc', -⟩ := MapAccumulator.insert_eq h hP
  refine .call ?_ hB
  rw [hinsert]
  exact .pure hacc'

/-! ## Structures -/

section Structures

variable {t : UInt8} {fieldCount : Nat}

lemma unpackDate_safe (hB : f + 2 ≤ B) : Safe bytes B f d (unpackDate t fieldCount) Accepted := by
  refine .bind (expectFields_safe (by omega)) fun _ _ => .bind (readInt_safe hB) fun days _ => ?_
  exact .ite (fun h => .leaf rfl h) fun _ => .decodeError

lemma unpackLocalTime_safe (hB : f + 3 ≤ B) :
    Safe bytes B f d (unpackLocalTime t fieldCount) Accepted := by
  refine .bind (expectFields_safe (by omega)) fun _ _ => ?_
  refine .bind (readU64Field_safe hB) fun nanos _ => ?_
  exact .ite (fun _ => .decodeError) fun h => .leaf rfl (Int.not_le.1 h)

lemma unpackTime_safe (hB : f + 3 ≤ B) : Safe bytes B f d (unpackTime t fieldCount) Accepted := by
  refine .bind (expectFields_safe (by omega)) fun _ _ => ?_
  refine .bind (readInt_safe (by omega)) fun rawNanos _ => ?_
  refine .bind (readI32Field_safe hB) fun raw _ => ?_
  refine .bind (checkedTzOffset_safe (by omega)) fun offset hoffset => ?_
  have hlo := Int.emod_nonneg rawNanos.toInt (show nanosPerDay ≠ 0 by decide)
  have hhi := Int.emod_lt_of_pos rawNanos.toInt (show 0 < nanosPerDay by decide)
  have hbound : nanosPerDay < 2 ^ 64 := by decide
  refine .bind (.expect (by decide)) fun _ _ => .bind (.expect hlo) fun _ _ =>
    .leaf rfl ⟨?_, hoffset⟩
  rw [UInt64.toNat_ofNat_of_lt' ((Int.toNat_lt hlo).2 (hhi.trans hbound)), Int.toNat_of_nonneg hlo]
  exact hhi

lemma unpackLocalDateTime_safe (hB : f + 2 ≤ B) :
    Safe bytes B f d (unpackLocalDateTime t fieldCount) Accepted := by
  refine .bind (expectFields_safe (by omega)) fun _ _ => ?_
  refine .bind (readInt_safe hB) fun secs _ => .bind (readInt_safe hB) fun rawNanos _ => ?_
  refine .bind (splitNanos_safe (by omega)) fun ⟨carry, nanos⟩ hnanos => ?_
  refine .bind (checkedSeconds_safe (by omega)) fun epochSeconds _ => ?_
  exact .leaf rfl hnanos

lemma unpackDateTime_safe (hB : f + 4 ≤ B) :
    Safe bytes B f d (unpackDateTime t fieldCount) Accepted := by
  refine .bind (expectFields_safe (by omega)) fun _ _ => ?_
  refine .bind (readInt_safe (by omega)) fun utcSecs _ => ?_
  refine .bind (readNormalisedNanosI32_safe hB) fun ⟨carry, nanos⟩ hnanos => ?_
  refine .bind (readI32Field_safe (by omega)) fun raw _ => ?_
  refine .bind (checkedTzOffset_safe (by omega)) fun offset _ => ?_
  refine .bind (checkedSeconds_safe (by omega)) fun utcSecs _ => ?_
  refine .bind (zonedFromUtc_safe (by omega)) fun zoned hzoned => ?_
  subst hzoned
  exact .leaf rfl hnanos

lemma unpackDateTimeZoneId_safe {tz : TimeZones} (hB : f + 4 ≤ B) :
    Safe bytes B f d (unpackDateTimeZoneId tz t fieldCount) Accepted := by
  refine .bind (expectFields_safe (by omega)) fun _ _ => ?_
  refine .bind (readInt_safe (by omega)) fun utcSecs _ => ?_
  refine .bind (readNormalisedNanosI32_safe hB) fun ⟨carry, nanos⟩ hnanos => ?_
  refine .bind (readString_safe hB) fun zoneId _ => ?_
  refine .bind (checkedSeconds_safe (by omega)) fun utcSecs _ => ?_
  cases tz zoneId utcSecs with
  | error e => exact .error
  | ok found =>
    refine .bind (zonedFromUtc_safe (by omega)) fun zoned hzoned => ?_
    subst hzoned
    exact .leaf rfl hnanos

lemma unpackDuration_safe (hB : f + 2 ≤ B) :
    Safe bytes B f d (unpackDuration t fieldCount) Accepted := by
  refine .bind (expectFields_safe (by omega)) fun _ _ => ?_
  refine .bind (readInt_safe hB) fun months _ => .bind (readInt_safe hB) fun days _ => ?_
  refine .bind (readInt_safe hB) fun seconds _ => .bind (readInt_safe hB) fun rawNanos _ => ?_
  refine .bind (splitNanos_safe (by omega)) fun ⟨carry, subNanos⟩ hsub => ?_
  refine .bind (checkedSeconds_safe (by omega)) fun seconds _ => ?_
  have hbound : subNanos.toNat < 2 ^ 31 := lt_trans hsub (by decide)
  refine .bind (.expect hbound) fun _ _ => .leaf rfl ?_
  have hnanos : (Int32.ofNat subNanos.toNat).toInt = subNanos.toNat :=
    Int32.toInt_ofNat_of_lt hbound
  change 0 ≤ (Int32.ofNat subNanos.toNat).toInt ∧ _
  rw [hnanos]
  exact ⟨Int.natCast_nonneg _, Int.ofNat_lt.2 hsub⟩

variable {tz : TimeZones} {recur : Unpack Value}

lemma readFloatField_safe {what : String} (h : Safe bytes B (f + 1) d recur Accepted)
    (hB : f + 1 ≤ B) : Safe bytes B f d (readFloatField recur what) fun _ => True := by
  refine .call (.bind h fun v _ => ?_) hB
  cases v
  case float x => exact .pure trivial
  case integer i => exact .pure trivial
  all_goals exact .error

section

variable (h : Safe bytes B (f + 1) d recur Accepted) (hB : f + 2 ≤ B)

include h hB

lemma unpackPoint2d_safe :
    Safe bytes B f d (unpackPoint2d recur t fieldCount) Accepted := by
  refine .bind (expectFields_safe (by omega)) fun _ _ => .bind (readInt_safe hB) fun srid _ => ?_
  refine .bind (readFloatField_safe h (by omega)) fun x _ => ?_
  refine .bind (readFloatField_safe h (by omega)) fun y _ => ?_
  exact decodePoint_safe (by omega)

lemma unpackPoint3d_safe :
    Safe bytes B f d (unpackPoint3d recur t fieldCount) Accepted := by
  refine .bind (expectFields_safe (by omega)) fun _ _ => .bind (readInt_safe hB) fun srid _ => ?_
  refine .bind (readFloatField_safe h (by omega)) fun x _ => ?_
  refine .bind (readFloatField_safe h (by omega)) fun y _ => ?_
  refine .bind (readFloatField_safe h (by omega)) fun z _ => ?_
  exact decodePoint_safe (by omega)

end

lemma unpackStructuredValue_safe (h : Safe bytes B (f + 2) d recur Accepted) (hB : f + 5 ≤ B) :
    Safe bytes B f d (unpackStructuredValue tz recur) Accepted := by
  refine .call (.bind (readStructHeader_safe (by omega)) fun ⟨t, fieldCount⟩ _ => ?_) (by omega)
  refine .ite (fun _ => unpackDate_safe (by omega)) fun _ => ?_
  refine .ite (fun _ => unpackLocalTime_safe (by omega)) fun _ => ?_
  refine .ite (fun _ => unpackTime_safe (by omega)) fun _ => ?_
  refine .ite (fun _ => unpackLocalDateTime_safe (by omega)) fun _ => ?_
  refine .ite (fun _ => unpackDateTime_safe hB) fun _ => ?_
  refine .ite (fun _ => unpackDateTimeZoneId_safe hB) fun _ => ?_
  refine .ite (fun _ => unpackDuration_safe (by omega)) fun _ => ?_
  refine .ite (fun _ => unpackPoint2d_safe h (by omega)) fun _ => ?_
  refine .ite (fun _ => unpackPoint3d_safe h (by omega)) fun _ => ?_
  exact .ite (fun _ => .decodeError) fun _ => .decodeError

end Structures

/-! ## Collections -/

variable {element : Unpack α} {Q : α → Prop}

lemma unpackElement_safe (h : Safe bytes B f d element Q) (hB : f + 1 ≤ B) {items : List α}
    (hitems : ∀ x ∈ items, Q x) :
    Safe bytes B f d (unpackElement element items) fun items => ∀ x ∈ items, Q x := by
  intro k
  refine (chargeElement_moves k hB).bind fun _ _ => (h (k + 1)).bind fun item hitem => ?_
  refine (noteElement_moves k).bind fun _ _ => .pure fun _ hu => ⟨fun x hx => ?_, hu⟩
  rcases mem_append.1 hx with hx | hx
  · exact hitems x hx
  · exact mem_singleton.1 hx ▸ hitem

lemma unpackSequence_safe (h : Safe bytes B f d element Q) (hB : f + 3 ≤ B) :
    Safe bytes B f d (unpackSequence element) fun items => ∀ x ∈ items, Q x := by
  refine .bind (readHeader_safe hB) fun n _ => .bind (reserve_safe (by omega)) fun _ _ => ?_
  exact Safe.iterate (fun items hitems => unpackElement_safe h (by omega) hitems)
    fun _ hx => nomatch hx

/-- A key that is text and a value that is accepted. -/
def EntryAccepted (e : Text × Value) : Prop := isUtf8 e.1 = true ∧ Accepted e.2

variable {recur : Unpack Value}

lemma unpackEntry_safe (h : Safe bytes B f d recur Accepted) (hB : f + 4 ≤ B)
    {acc : MapAccumulator} (hacc : acc.Ok EntryAccepted) :
    Safe bytes B f d (unpackEntry recur acc) (MapAccumulator.Ok EntryAccepted) := by
  intro k
  refine (chargeElement_moves k (by omega)).bind fun _ _ => ?_
  refine (readString_safe hB (k + 1)).bind fun key hkey => (h (k + 1)).bind fun v hv => ?_
  exact (noteElement_moves k).bind fun _ _ => insertEntry_safe hacc ⟨hkey, hv⟩ (by omega) k

/-! ## The decoders -/

variable {tz : TimeZones}

lemma unpackEntries_safe (hB : f + 4 ≤ B)
    (h : d < maxDecodeDepth → Safe bytes B f (d + 1) recur Accepted) :
    Safe bytes B f d (unpackEntries recur n) fun entries => Accepted (.map entries) := by
  intro k
  refine (enterNested_moves k (by omega)).bind fun _ hd => ?_
  refine (reserve_safe (by omega) k).bind fun _ _ => ?_
  have hempty : MapAccumulator.Ok EntryAccepted {} := ⟨nodup_nil, (fun _ he => nomatch he), nofun⟩
  refine (Safe.iterate (fun acc hacc => unpackEntry_safe (h hd) hB hacc) hempty k).bind
    fun acc hacc => ?_
  refine (leaveNested_moves k (by omega)).bind fun _ _ => .pure fun _ hu => ⟨?_, hu⟩
  exact accepted_map ⟨hacc.nodup, fun e he => (hacc.entry e he).1, fun e he => (hacc.entry e he).2⟩

/-- The list arm of both decoders. -/
lemma unpackList_safe {γ : Type} {g : List α → γ} {R : γ → Prop} (hB : f + 3 ≤ B)
    (h : d < maxDecodeDepth → Safe bytes B f (d + 1) element Q)
    (hg : ∀ items, (∀ x ∈ items, Q x) → R (g items)) :
    Safe bytes B f d (do
      let n ← readListHeader
      enterNested
      reserve n
      let items ← iterate n (unpackElement element) []
      leaveNested
      return g items) R := by
  intro k
  refine (readHeader_safe hB k).bind fun n _ => (enterNested_moves k (by omega)).bind fun _ hd => ?_
  refine (reserve_safe (by omega) k).bind fun _ _ => ?_
  have hnil : ∀ x ∈ ([] : List α), Q x := fun _ hx => nomatch hx
  refine (Safe.iterate
    (fun items hitems => unpackElement_safe (h hd) (by omega) hitems) hnil k).bind
    fun items hitems => ?_
  exact (leaveNested_moves k (by omega)).bind fun _ _ => .pure fun _ hu => ⟨hg items hitems, hu⟩

/-- One level of `unpack_value`: the arm of a list or a map calls it again from the frame of
`unpack_value` itself, a point from two frames further down. -/
lemma unpackValueBody_safe (hB : f + 5 ≤ B)
    (h : d < maxDecodeDepth → f + 8 ≤ B ∧ ∀ f' ≤ f + 3, Safe bytes B f' (d + 1) recur Accepted) :
    Safe bytes B f d (unpackValueBody tz recur) Accepted := by
  refine .call (.bind (peekMarker_safe (by omega)) fun marker _ => ?_) (by omega)
  cases kind marker with
  | null | true | false => exact .bind (readU8_safe (by omega)) fun _ _ => .leaf rfl trivial
  | float =>
    refine .bind (readU8_safe (by omega)) fun _ _ => ?_
    refine .bind (readSlice_safe (by omega)) fun s hs => .bind (.expect hs) fun _ _ => ?_
    exact .leaf rfl trivial
  | int => exact .bind (readInt_safe (by omega)) fun _ _ => .leaf rfl trivial
  | bytes => exact unpackBytes_safe (by omega)
  | string => exact .bind (readString_safe hB) fun s hs => .leaf rfl hs
  | list =>
    exact unpackList_safe (by omega) (fun hd => (h hd).2 _ (by omega)) fun _ => accepted_list
  | map =>
    refine .bind (readHeader_safe (by omega)) fun n _ => ?_
    exact .bind (unpackEntries_safe hB fun hd => (h hd).2 _ (by omega)) fun _ => .pure
  | struct =>
    intro k
    refine (enterNested_moves k (by omega)).bind fun _ hd => ?_
    obtain ⟨hB', hrecur⟩ := h hd
    refine (unpackStructuredValue_safe (hrecur _ (by omega)) (by omega) k).bind fun v hv => ?_
    exact (leaveNested_moves k (by omega)).bind fun _ _ => .pure fun _ hu => ⟨hv, hu⟩
  | unknown => exact .decodeError

/-- **With enough levels the decoder is safe**: every level nests at most three calls. -/
theorem unpackValueAt_safe (levels : Nat) : ∀ {f d : Nat}, maxDecodeDepth ≤ d + levels →
    f + 3 * levels + 5 ≤ B → Safe bytes B f d (unpackValueAt tz levels) Accepted := by
  induction levels with
  | zero =>
    intro f d hd hB
    exact unpackValueBody_safe hB fun hlt => absurd hd (not_le.2 hlt)
  | succ levels ih =>
    intro f d hd hB
    refine unpackValueBody_safe (by omega) fun _ => ⟨by omega, fun f' hf' => ?_⟩
    exact ih (by omega) (by omega)

section Graph

variable {recur : Unpack Value}

lemma unpackProperties_safe (hB : f + 5 ≤ B)
    (h : d < maxDecodeDepth → Safe bytes B (f + 1) (d + 1) recur Accepted) :
    Safe bytes B f d (unpackProperties recur) fun _ => True := by
  refine .call (.bind (readHeader_safe (by omega)) fun n _ => ?_) (by omega)
  exact (unpackEntries_safe hB h).weaken fun _ _ => trivial

section Entities

variable (hB : f + 6 ≤ B) (h : d < maxDecodeDepth → Safe bytes B (f + 2) (d + 1) recur Accepted)

include hB h

lemma unpackNode_safe : Safe bytes B f d (unpackNode recur) fun _ => True := by
  refine structure_safe (by omega) (.bind (readInt_safe (by omega)) fun _ _ => ?_)
  refine .bind (unpackSequence_safe (readString_safe (by omega)) (by omega)) fun _ _ => ?_
  refine .bind (unpackProperties_safe hB h) fun _ _ => ?_
  exact .bind (readString_safe (by omega)) fun _ _ => .pure trivial

lemma unpackRelationship_safe : Safe bytes B f d (unpackRelationship recur) fun _ => True := by
  refine structure_safe (by omega) (.bind (readInt_safe (by omega)) fun _ _ => ?_)
  refine .bind (readInt_safe (by omega)) fun _ _ => .bind (readInt_safe (by omega)) fun _ _ => ?_
  refine .bind (readString_safe (by omega)) fun _ _ => ?_
  refine .bind (unpackProperties_safe hB h) fun _ _ => ?_
  refine .bind (readString_safe (by omega)) fun _ _ => ?_
  refine .bind (readString_safe (by omega)) fun _ _ => ?_
  exact .bind (readString_safe (by omega)) fun _ _ => .pure trivial

lemma unpackUnboundRelationship_safe :
    Safe bytes B f d (unpackUnboundRelationship recur) fun _ => True := by
  refine structure_safe (by omega) (.bind (readInt_safe (by omega)) fun _ _ => ?_)
  refine .bind (readString_safe (by omega)) fun _ _ => ?_
  refine .bind (unpackProperties_safe hB h) fun _ _ => ?_
  exact .bind (readString_safe (by omega)) fun _ _ => .pure trivial

end Entities

lemma unpackPath_safe (hB : f + 7 ≤ B)
    (h : d < maxDecodeDepth → Safe bytes B (f + 3) (d + 1) recur Accepted) :
    Safe bytes B f d (unpackPath recur) fun _ => True := by
  refine structure_safe (by omega)
    (.bind (unpackSequence_safe (unpackNode_safe hB h) (by omega)) fun _ _ => ?_)
  refine .bind (unpackSequence_safe (unpackUnboundRelationship_safe hB h) (by omega)) fun _ _ => ?_
  exact .bind (unpackSequence_safe (readInt_safe (by omega)) (by omega)) fun _ _ => .pure trivial

/-- One level of `unpack_bolt_value`: a path reaches a property four calls down. -/
lemma unpackBoltValueBody_safe {value : Unpack Value} {element : Unpack BoltValue} (hB : f + 8 ≤ B)
    (hvalue : Safe bytes B (f + 1) d value Accepted)
    (hrecur : d < maxDecodeDepth → ∀ f' ≤ f + 4, Safe bytes B f' (d + 1) recur Accepted)
    (helement : d < maxDecodeDepth → Safe bytes B (f + 1) (d + 1) element fun _ => True) :
    Safe bytes B f d (unpackBoltValueBody recur value element) fun _ => True := by
  have hplain : Safe bytes B (f + 1) d (do let v ← value; return BoltValue.value v) fun _ => True :=
    .bind hvalue fun _ _ => .pure trivial
  refine .call (.bind (peekMarker_safe (by omega)) fun marker _ => ?_) (by omega)
  refine .ite (fun _ => .bind peek_safe fun tag _ => ?_) fun _ => .ite (fun _ => ?_) fun _ => hplain
  · refine .ite (fun _ => ?_) fun _ => .ite (fun _ => ?_) fun _ =>
      .ite (fun _ => ?_) fun _ => hplain
    · refine .bind (unpackNode_safe (by omega) fun hd => ?_) fun _ _ => .pure trivial
      exact hrecur hd _ (by omega)
    · refine .bind (unpackRelationship_safe (by omega) fun hd => ?_) fun _ _ => .pure trivial
      exact hrecur hd _ (by omega)
    · refine .bind (unpackPath_safe hB fun hd => ?_) fun _ _ => .pure trivial
      exact hrecur hd _ (by omega)
  · exact unpackList_safe (by omega) helement fun _ _ => trivial

end Graph

lemma unpackBoltValueAt_safe (levels : Nat) : ∀ {f d : Nat}, maxDecodeDepth ≤ d + levels →
    f + 3 * levels + 8 ≤ B → Safe bytes B f d (unpackBoltValueAt tz levels) fun _ => True := by
  induction levels with
  | zero =>
    intro f d hd hB
    have hnone : ¬ d < maxDecodeDepth := not_lt.2 hd
    exact unpackBoltValueBody_safe hB (unpackValueAt_safe 0 hd (by omega))
      (fun hlt => absurd hlt hnone) fun hlt => absurd hlt hnone
  | succ levels ih =>
    intro f d hd hB
    refine unpackBoltValueBody_safe (by omega) (unpackValueAt_safe _ hd (by omega))
      (fun _ f' hf' => ?_) fun _ => ?_
    · exact unpackValueAt_safe _ (by omega) (by omega)
    · exact ih (by omega) (by omega)

/-! ## The bounds -/

/-- The state a decoder starts from. -/
lemma within_start (bytes : Bytes) (B : Nat) : Within bytes B 0 0 0 { buf := bytes } where
  peak_le := Nat.zero_le _
  reach_le := Nat.zero_le _
  decoded_le := Nat.zero_le _
  reserved_le := nofun
  fieldSlots_le := Nat.zero_le _
  buf_eq := rfl
  pos_le := Nat.zero_le _
  frames_eq := rfl
  depth_eq := rfl
  budget := (Nat.zero_add _).le

lemma unpackValue_accepted {v : Value} {u : Unpacker}
    (h : unpackValue tz { buf := bytes } = .ok v u) : Accepted v :=
  ((unpackValueAt_safe maxDecodeDepth (Nat.le_add_left _ _) le_rfl 0).elim_ok
    (within_start bytes _) h).1

/-- How a decoder may end: a result or an error of the source, within all its bounds. -/
structure Bounded (bytes : Bytes) (r : EStateM.Result DecodeFault Unpacker α) : Prop where
  no_fault : ∀ e u, r = .error e u → ∃ b, e = .error b
  limits : ∀ u, (∃ a, r = .ok a u) ∨ (∃ e, r = .error e u) → Limits bytes (3 * maxDecodeDepth + 8) u

lemma Safe.bounded {m : Unpack α} (h : Safe bytes (3 * maxDecodeDepth + 8) 0 0 m Q) :
    Bounded bytes (m { buf := bytes }) := by
  constructor
  · intro e u hr
    exact ((h 0).elim_error (within_start bytes _) hr).1
  · rintro u (⟨a, hr⟩ | ⟨e, hr⟩)
    · exact ((h 0).elim_ok (within_start bytes _) hr).2.toLimits
    · exact ((h 0).elim_error (within_start bytes _) hr).2

/-- **Decoding is bounded**, for both decoders and whatever the bytes are. -/
theorem unpackValue_bounded (tz : TimeZones) (bytes : Bytes) :
    Bounded bytes (unpackValue tz { buf := bytes }) ∧
    Bounded bytes (unpackBoltValue tz { buf := bytes }) :=
  ⟨(unpackValueAt_safe maxDecodeDepth (Nat.le_add_left _ _) (by omega)).bounded,
    (unpackBoltValueAt_safe maxDecodeDepth (Nat.le_add_left _ _) (by omega)).bounded⟩

end Graphus.PackStream
