import Graphus.Storage.SchemaRun
import Mathlib.Algebra.Order.BigOperators.Group.List

/-!
# The committed catalog

What a commit persists is the catalog of the transactions that have committed, and of its own.

**Theorem (`committed_catalog`).** On every run, the live value of a schema entry is that of its
newest mutation whose transaction has not rolled back. The committed image of a transaction holds
the newest mutation that it or a committed transaction has made, and the counters with the bumps of
these, under two conditions. No other transaction may be between its `COMMIT` record and the removal
of its active-set entry when the image is taken (`NoneSettling`): the image would lose its schema
entries, and its counts until they are retired (`committed_image_loses_schema`). And a counter stays
in its range (`Counted`). It is only taken down for a record that is there: for one that the
transaction has counted itself, or one that no open transaction has added. It is only taken up while
there is room for this and for what the open transactions have taken it down by. A counter stops at
zero and at `countMax`, and what it has not moved by is moved back when the transaction is
withdrawn.
-/

namespace Graphus.CatalogState

open Generations List Dict
open Function (update_of_ne update_self)

variable {Tid Key Val : Type}

/-! ## The bumps of a set of transactions -/

/-- What the listed bumps of the transactions in `P` add to a counter. -/
def total (P : Tid → Bool) : List (Tid × CountKey × Int) → CountKey → Int
  | [], _ => 0
  | (u, k, d) :: bumps, key => (if P u ∧ k = key then d else 0) + total P bumps key

variable {P Q R : Tid → Bool} {bumps : List (Tid × CountKey × Int)} {key : CountKey}

lemma total_congr (h : ∀ b ∈ bumps, P b.1 = Q b.1) : total P bumps key = total Q bumps key := by
  induction bumps with
  | nil => rfl
  | cons b bumps ih =>
    rw [total, total, h b mem_cons_self, ih fun b hb => h b (mem_cons_of_mem _ hb)]

/-- The bumps of two disjoint sets. -/
lemma total_split (h : ∀ b ∈ bumps, P b.1 = (Q b.1 || R b.1) ∧ (Q b.1 && R b.1) = false) :
    total P bumps key = total Q bumps key + total R bumps key := by
  induction bumps with
  | nil => rfl
  | cons b bumps ih =>
    obtain ⟨hor, hand⟩ := h b mem_cons_self
    have hfirst : (if P b.1 ∧ b.2.1 = key then b.2.2 else 0) =
        (if Q b.1 ∧ b.2.1 = key then b.2.2 else 0) + if R b.1 ∧ b.2.1 = key then b.2.2 else 0 := by
      rw [hor]
      revert hand
      cases Q b.1 <;> cases R b.1 <;> simp
    rw [total, ih fun b hb => h b (mem_cons_of_mem _ hb), hfirst]
    exact add_add_add_comm _ _ _ _

lemma total_eq_zero (h : ∀ b ∈ bumps, P b.1 = false) : total P bumps key = 0 := by
  induction bumps with
  | nil => rfl
  | cons b bumps ih =>
    rw [total, h b mem_cons_self, ih fun b hb => h b (mem_cons_of_mem _ hb)]
    simp

variable [DecidableEq Tid]

/-- The bumps of several transactions, one by one. -/
lemma sum_total (keys : List Tid) (hkeys : keys.Nodup) :
    (keys.map fun u => total (fun u' => decide (u' = u)) bumps key).sum =
      total (fun u' => decide (u' ∈ keys)) bumps key := by
  induction keys with
  | nil => exact (total_eq_zero fun b _ => by simp).symm
  | cons u keys ih =>
    obtain ⟨hu, hkeys⟩ := nodup_cons.1 hkeys
    rw [map_cons, sum_cons, ih hkeys]
    refine (total_split fun b _ => ⟨by simp, ?_⟩).symm
    by_cases hb : b.1 = u <;> simp [hb, hu]

/-! ## Counters that do not saturate -/

lemma addCount_eq {count : Nat} {delta : Int} (h : 0 ≤ (count : Int) + delta)
    (hmax : (count : Int) + delta ≤ countMax) :
    ((addCount count delta : Nat) : Int) = count + delta := by
  unfold addCount
  split <;> omega

variable (others : List (CatalogTxn Key Val))

/-- The count deltas of a list of transactions are withdrawn. -/
lemma counts_withdrawAll (st : Statistics Key Val) (key : CountKey)
    (h : (others.map fun a => max ((1 : Int) * a.counts key) 0).sum ≤ st.counts key)
    (hmax : st.counts key +
      (others.map fun a => max ((-1 : Int) * a.counts key) 0).sum ≤ countMax) :
    (((others.foldl (fun st a => CountDelta.withdrawFrom a.counts st) st).counts key : Nat) : Int) =
      st.counts key - (others.map fun a => a.counts key).sum := by
  induction others generalizing st with
  | nil => simp
  | cons a others ih =>
    have hnonneg : ∀ sign, 0 ≤ (others.map fun a => max (sign * a.counts key) 0).sum := by
      intro sign
      refine sum_nonneg fun x hx => ?_
      grind
    have hup := hnonneg 1
    have hdown := hnonneg (-1)
    rw [map_cons, sum_cons] at h hmax
    have hcount : (((CountDelta.withdrawFrom a.counts st).counts key : Nat) : Int) =
        st.counts key - a.counts key := by
      rw [CountDelta.withdrawFrom, addCount_eq (by omega) (by omega)]
      omega
    rw [foldl_cons, ih _ (by omega) (by omega), map_cons, sum_cons]
    omega

lemma schema_withdrawAll (st : Statistics Key Val) :
    (others.foldl (fun st a => CountDelta.withdrawFrom a.counts st) st).schema = st.schema := by
  induction others generalizing st with
  | nil => rfl
  | cons a others ih => exact ih _

/-! ## The counters -/

variable {c c' : CatalogState Tid Key Val} {counts0 : CountKey → Nat} {txn u : Tid}
  {a a' : CatalogTxn Key Val} {op : Op Tid Key Val}

/-- What a running transaction has added to a counter, and taken from it if the sign is `-1`. -/
def openGain (sign : Int) (key : CountKey) (a : CatalogTxn Key Val) : Int :=
  if a.stage = .running then max (sign * a.counts key) 0 else 0

/-- What the running transactions have added to a counter, or taken from it. -/
def openGains (c : CatalogState Tid Key Val) (sign : Int) (key : CountKey) : Int :=
  sum (fun _ a => openGain sign key a) c.active

/-- A counter is taken down for a record that the transaction has counted, or that was there before.
It is taken up for a record that the transaction has uncounted, or if there is room. -/
def Counted (c : CatalogState Tid Key Val) : Op Tid Key Val → Prop
  | .countBump txn key false =>
    (∀ a ∈ c.active.lookup txn, 0 < a.counts key) ∨ c.openGains 1 key < c.statistics.counts key
  | .countBump txn key true =>
    (∀ a ∈ c.active.lookup txn, a.counts key < 0) ∨
      c.statistics.counts key + c.openGains (-1) key < countMax
  | _ => True

instance (c : CatalogState Tid Key Val) (op : Op Tid Key Val) : Decidable (Counted c op) := by
  unfold Counted
  split <;> infer_instance

/-- The counters and the count deltas. -/
structure CountInv (counts0 : CountKey → Nat) (c : CatalogState Tid Key Val) : Prop where
  live : ∀ key, (c.statistics.counts key : Int) =
    counts0 key + total (fun u => decide (c.outcome u ≠ .rolledBack)) c.bumps key
  own : ∀ u a, c.active.lookup u = some a → ∀ key, a.counts key =
    if a.stage = .retired then 0 else total (fun u' => decide (u' = u)) c.bumps key
  /-- What an open transaction has moved a counter by can be moved back. -/
  gains : ∀ key, c.openGains 1 key ≤ c.statistics.counts key
  losses : ∀ key, c.statistics.counts key + c.openGains (-1) key ≤ countMax
  begun : ∀ b ∈ c.bumps, c.outcome b.1 ≠ .unused

lemma CountInv.init (schema0 : Key → Option Val) (hcounts : ∀ key, counts0 key ≤ countMax) :
    CountInv counts0 (init schema0 counts0 : CatalogState Tid Key Val) where
  live := fun _ => (Int.add_zero _).symm
  own := nofun
  gains := fun _ => Int.natCast_nonneg _
  losses := fun key => (Int.add_zero _).trans_le (Int.ofNat_le.2 (hcounts key))
  begun := nofun

lemma openGain_nonneg (sign : Int) (key : CountKey) (a : CatalogTxn Key Val) :
    0 ≤ openGain sign key a := by
  unfold openGain
  split <;> omega

omit [DecidableEq Tid] in
lemma openGains_nonneg (m : Dict Tid (CatalogTxn Key Val)) (sign : Int) (key : CountKey) :
    0 ≤ sum (fun _ a => openGain sign key a) m := by
  refine sum_nonneg fun x hx => ?_
  obtain ⟨e, -, rfl⟩ := mem_map.1 hx
  exact openGain_nonneg _ key e.2

lemma openGain_le (ha : c.active.lookup txn = some a) (sign : Int) (key : CountKey) :
    openGain sign key a ≤ c.openGains sign key := by
  have hsum := sum_erase (fun _ a => openGain sign key a) ha
  have hrest := openGains_nonneg (c.active.erase txn) sign key
  rw [openGains]
  omega

section

variable (hc : CountInv counts0 c) (ha : c.active.lookup txn = some a)

include hc ha

/-- An active-set entry changes, and no counter does. -/
lemma CountInv.insert_frame (hactive : c'.active = c.active.insert txn a')
    (hcounts : c'.statistics.counts = c.statistics.counts) (hbumps : c'.bumps = c.bumps)
    (halive : ∀ u, c'.outcome u = .rolledBack ↔ c.outcome u = .rolledBack)
    (hbegun : ∀ u, c.outcome u ≠ .unused → c'.outcome u ≠ .unused)
    (hown : ∀ key, a'.counts key = if a'.stage =
      .retired then 0 else total (fun u' => decide (u' = txn)) c.bumps key)
    (hgain : ∀ sign key, openGain sign key a' ≤ openGain sign key a) : CountInv counts0 c' := by
  have hgains : ∀ sign key, c'.openGains sign key ≤ c.openGains sign key := by
    intro sign key
    have hsum := sum_insert_of_lookup (fun _ a => openGain sign key a) ha a'
    have hle := hgain sign key
    rw [openGains, openGains, hactive]
    omega
  constructor
  case live =>
    intro key
    rw [hcounts, hbumps, hc.live key]
    exact congrArg _ (total_congr fun b _ => by simp only [ne_eq, halive])
  case own =>
    intro u b hb key
    rw [hbumps]
    rcases of_lookup_insert (hactive ▸ hb) with ⟨rfl, rfl⟩ | ⟨-, hb⟩
    · exact hown key
    · exact hc.own u b hb key
  case gains =>
    intro key
    rw [hcounts]
    exact (hgains 1 key).trans (hc.gains key)
  case losses =>
    intro key
    rw [hcounts]
    exact (Int.add_le_add_left (hgains (-1) key) _).trans (hc.losses key)
  case begun =>
    intro b hb
    rw [hbumps] at hb
    exact hbegun _ (hc.begun b hb)

/-- **A counter is bumped.** -/
lemma CountInv.countBump (hstage : a.stage = .running) (houtcome : c.outcome txn = .running)
    {key : CountKey} {increment : Bool} (hcounted : Counted c (.countBump txn key increment)) :
    CountInv counts0 (c.countBump txn key increment) := by
  have hgain : ∀ sign n k, openGain sign k { a with counts := n } = max (sign * n k) 0 :=
    fun sign n k => if_pos hstage
  have hopen : ∀ sign k, 0 ≤ c.openGains sign k ∧
    max (sign * a.counts k) 0 ≤ c.openGains sign k := by
    intro sign k
    have hle := openGain_le ha sign k
    rw [hgain sign a.counts] at hle
    exact ⟨openGains_nonneg c.active sign k, hle⟩
  have hrange := And.intro (hc.gains key) (hc.losses key)
  have hup := hopen 1 key
  have hdown := hopen (-1) key
  -- the change is one up or one down, and the counter stays in its range
  obtain ⟨d, hd, hmove⟩ : ∃ d : Int, (if increment then 1 else -1) = d ∧
      (d = 1 ∧ (a.counts key < 0 ∨ c.statistics.counts key + c.openGains (-1) key < countMax) ∨
        d = -1 ∧ (0 < a.counts key ∨ c.openGains 1 key < c.statistics.counts key)) := by
    cases increment with
    | true => exact ⟨1, rfl, .inl ⟨rfl, hcounted.imp_left fun h => h a ha⟩⟩
    | false => exact ⟨-1, rfl, .inr ⟨rfl, hcounted.imp_left fun h => h a ha⟩⟩
  have hcount : ((addCount (c.statistics.counts key) d : Nat) : Int) =
    c.statistics.counts key + d := by
    refine addCount_eq ?_ ?_ <;> rcases hmove with ⟨hd, hown | hroom⟩ | ⟨hd, hown | hroom⟩ <;> omega
  have hactive := active_countBump ha key increment
  rw [hd] at hactive
  have hbumps : (c.countBump txn key increment).bumps = (txn, key, d) :: c.bumps := by
    rw [← hd]
    rfl
  -- a counter and a count delta change by what the bump counts for
  have hstats : ∀ k, (((c.countBump txn key increment).statistics.counts k : Nat) : Int) =
      c.statistics.counts k + if key = k then d else 0 := by
    intro k
    rw [CatalogState.countBump, hd, Statistics.applyCountDelta]
    by_cases hk : key = k
    · simpa [← hk] using hcount
    · simp [hk, Ne.symm hk]
  have hdelta : ∀ k, Function.update a.counts key (a.counts key + d) k = a.counts k + if key =
    k then d else 0 := by
    intro k
    by_cases hk : key = k
    · simp [← hk]
    · simp [hk, Ne.symm hk]
  constructor
  case live =>
    intro k
    have halive : decide ((c.countBump txn key increment).outcome txn ≠ .rolledBack) = true := by
      simp [CatalogState.countBump, houtcome]
    rw [hstats, hbumps, total, if_congr (and_iff_right halive) rfl rfl, hc.live k]
    exact (Int.add_assoc ..).trans (congrArg _ (Int.add_comm ..))
  case own =>
    intro u b hb k
    rw [hbumps, total]
    rcases of_lookup_insert (hactive ▸ hb) with ⟨rfl, rfl⟩ | ⟨hu, hb⟩
    · simp only [hdelta, hc.own u a ha k, hstage, reduceCtorEq, if_false, decide_true, true_and]
      omega
    · simpa [Ne.symm hu] using hc.own u b hb k
  case gains =>
    intro k
    have hbefore := hc.gains k
    simp only [openGains] at hbefore hrange hup hmove ⊢
    rw [hactive, sum_insert_of_lookup _ ha, hgain, hgain 1 a.counts, hstats, hdelta]
    split
    · subst k
      rcases hmove with ⟨hd, hown | hroom⟩ | ⟨hd, hown | hroom⟩ <;> omega
    · omega
  case losses =>
    intro k
    have hbefore := hc.losses k
    simp only [openGains] at hbefore hrange hdown hmove ⊢
    rw [hactive, sum_insert_of_lookup _ ha, hgain, hgain (-1) a.counts, hstats, hdelta]
    split
    · subst k
      rcases hmove with ⟨hd, hown | hroom⟩ | ⟨hd, hown | hroom⟩ <;> omega
    · omega
  case begun =>
    intro b hb
    rcases mem_cons.1 hb with rfl | hb
    · simp [CatalogState.countBump, houtcome]
    · exact hc.begun b hb

end

/-! ## The other transactions -/

/-- No other commit is between its `COMMIT` record and the removal of its active-set entry. -/
def NoneSettling (c : CatalogState Tid Key Val) (committing : Tid) : Prop :=
  ∀ e ∈ c.active.entries, e.1 ≠ committing → e.2.stage = .running

instance (c : CatalogState Tid Key Val) (committing : Tid) :
    Decidable (NoneSettling c committing) := by
  unfold NoneSettling
  infer_instance

lemma NoneSettling.stage (h : NoneSettling c txn) (ha : c.active.lookup u = some a)
    (hne : u ≠ txn) : a.stage = .running :=
  h ⟨u, a⟩ (AList.mem_lookup_iff.1 ha) hne

/-- The other transactions in the active set. -/
def otherIds (c : CatalogState Tid Key Val) (committing : Tid) : List Tid :=
  (c.active.entries.filter fun e => e.1 ≠ committing).map fun e => e.1

lemma mem_entries_others {e : Sigma fun _ : Tid => CatalogTxn Key Val}
    (he : e ∈ c.active.entries.filter fun e => e.1 ≠ txn) :
    c.active.lookup e.1 = some e.2 ∧ e.1 ≠ txn := by
  obtain ⟨hmem, hne⟩ := mem_filter.1 he
  exact ⟨AList.mem_lookup_iff.2 hmem, of_decide_eq_true hne⟩

lemma mem_otherIds (ht : TxnInv c) (hsettled : NoneSettling c txn) :
    u ∈ c.otherIds txn ↔ u ≠ txn ∧ c.outcome u = .running := by
  constructor
  · intro hu
    obtain ⟨e, he, rfl⟩ := mem_map.1 hu
    obtain ⟨hlookup, hne⟩ := mem_entries_others he
    exact ⟨hne, ht.outcome_running hlookup (hsettled.stage hlookup hne)⟩
  · rintro ⟨hne, hrunning⟩
    obtain ⟨a, ha⟩ := ht.running u hrunning
    refine mem_map.2 ⟨⟨u, a⟩, mem_filter.2 ⟨AList.mem_lookup_iff.1 ha, ?_⟩, rfl⟩
    exact decide_eq_true hne

/-- The transactions that have not rolled back are those of the image and the other open ones. -/
lemma alive_iff (ht : TxnInv c) (hsettled : NoneSettling c txn) (htxn : c.outcome txn ≠ .rolledBack)
    (hu : c.outcome u ≠ .unused) :
    decide (c.outcome u ≠ .rolledBack) =
      (decide (u = txn ∨ c.outcome u = .committed) || decide (u ∈ c.otherIds txn)) ∧
    (decide (u = txn ∨ c.outcome u = .committed) && decide (u ∈ c.otherIds txn)) = false := by
  simp only [mem_otherIds ht hsettled]
  by_cases hk : u = txn
  · subst hk
    simp [htxn]
  cases ho : c.outcome u with
  | unused => exact absurd ho hu
  | running => simp [hk]
  | committed => simp [hk]
  | rolledBack => simp [hk]

lemma nodup_otherIds (c : CatalogState Tid Key Val) (txn : Tid) : (c.otherIds txn).Nodup :=
  (c.active.nodupKeys).sublist (filter_sublist)

lemma others_eq (c : CatalogState Tid Key Val) (txn : Tid) :
    c.others txn = (c.active.entries.filter fun e => e.1 ≠ txn).map fun e => e.2 := rfl

variable [DecidableEq Key] {schema0 : Key → Option Val}

omit [DecidableEq Tid] in
lemma openGains_undoAll (es : List (SchemaUndo Key Val))
    (r : Entries Key Val × Dict Tid (CatalogTxn Key Val))
    (sign : Int) (key : CountKey) :
    sum (fun _ a => openGain sign key a) (es.foldl applyUndoEntry r).2 =
      sum (fun _ a => openGain sign key a) r.2 := by
  induction es generalizing r with
  | nil => rfl
  | cons e es ih =>
    rw [foldl_cons, ih]
    unfold applyUndoEntry
    split
    · rfl
    · exact sum_mapVal _ _ _

/-- **The count delta of a transaction is withdrawn.** -/
lemma CountInv.rollbackLogical (hc : CountInv counts0 c) (ha : c.active.lookup txn = some a)
    (hstage : a.stage = .running) (houtcome : c.outcome txn = .running) :
    CountInv counts0 (c.rollbackLogical txn a) := by
  have hown : ∀ key, a.counts key = total (fun u' => decide (u' = txn)) c.bumps key := by
    intro key
    rw [hc.own txn a ha key, if_neg]
    rw [hstage]
    exact nofun
  have hcount : ∀ key, (((c.rollbackLogical txn a).statistics.counts key : Nat) : Int) =
      c.statistics.counts key - a.counts key := by
    intro key
    have hup := openGain_le ha 1 key
    have hdown := openGain_le ha (-1) key
    rw [openGain, if_pos hstage] at hup hdown
    have hgains := hc.gains key
    have hlosses := hc.losses key
    change ((addCount (c.statistics.counts key) (-(a.counts key)) : Nat) : Int) = _
    rw [addCount_eq (by omega) (by omega)]
    omega
  have hopen : ∀ sign key, (c.rollbackLogical txn a).openGains sign key +
      max (sign * a.counts key) 0 = c.openGains sign key := by
    intro sign key
    have hsum : (c.rollbackLogical txn a).openGains sign key =
        sum (fun _ a => openGain sign key a) (c.active.erase txn) := openGains_undoAll _ _ sign key
    have herase := sum_erase (fun _ a => openGain sign key a) ha
    rw [openGain, if_pos hstage] at herase
    rw [hsum, openGains]
    omega
  constructor
  case live =>
    intro key
    -- the transactions that have not rolled back are one fewer
    have hsplit : total (fun u => decide (c.outcome u ≠ .rolledBack)) c.bumps key =
        total (fun u => decide (Function.update c.outcome txn .rolledBack u ≠ .rolledBack)) c.bumps
          key + total (fun u => decide (u = txn)) c.bumps key := by
      refine total_split fun b _ => ?_
      by_cases hb : b.1 = txn <;> simp [hb, houtcome]
    have hlive := hc.live key
    rw [hcount key, hown key]
    change _ = _ + total
      (fun u => decide (Function.update c.outcome txn .rolledBack u ≠ .rolledBack)) c.bumps key
    omega
  case own =>
    intro u b hb key
    obtain ⟨-, b', hb', hcounts, hstage', -⟩ := lookup_rollbackLogical hb
    rw [hcounts, hstage']
    exact hc.own u b' hb' key
  case gains =>
    intro key
    have hgains := hc.gains key
    have hafter := hopen 1 key
    rw [hcount key]
    omega
  case losses =>
    intro key
    have hlosses := hc.losses key
    have hafter := hopen (-1) key
    rw [hcount key]
    omega
  case begun =>
    intro b hb
    change Function.update c.outcome txn .rolledBack b.1 ≠ .unused
    by_cases hk : b.1 = txn <;> simp [hk, hc.begun b hb]

omit [DecidableEq Tid] in
lemma counts_foldl_schemaPut (writes : List (Key × Option Val)) (st : Statistics Key Val) :
    (writes.foldl (fun st w => st.schemaPut w.1 w.2) st).counts = st.counts := by
  induction writes generalizing st with
  | nil => rfl
  | cons w writes ih => exact ih _

/-- **Every operation keeps the counters.** -/
lemma CountInv.step (hc : CountInv counts0 c) (ht : TxnInv c) (hcounted : Counted c op)
    (h : step c op = some c') : CountInv counts0 c' := by
  cases op with
  | start txn =>
    obtain ⟨hunused, rfl⟩ := step_effect h
    have hne : ∀ b ∈ c.bumps, b.1 ≠ txn := fun b hb hk => hc.begun b hb (hk ▸ hunused)
    constructor
    case live =>
      intro key
      refine (hc.live key).trans (congrArg _ (total_congr fun b hb => ?_))
      simp [update_of_ne (hne b hb)]
    case own =>
      intro u b hb key
      rcases of_lookup_insert hb with ⟨rfl, rfl⟩ | ⟨-, hb⟩
      · refine (total_eq_zero fun b hb => ?_).symm
        exact decide_eq_false (hne b hb)
      · exact hc.own u b hb key
    case gains =>
      intro key
      rw [openGains, sum_insert_of_none _ (ht.lookup_none hunused)]
      simpa [openGain, openGains] using hc.gains key
    case losses =>
      intro key
      rw [openGains, sum_insert_of_none _ (ht.lookup_none hunused)]
      simpa [openGain, openGains] using hc.losses key
    case begun =>
      intro b hb
      simpa [update_of_ne (hne b hb)] using hc.begun b hb
  | withSchemaUndo txn writes =>
    obtain ⟨a, ha, -, -, rfl⟩ := step_effect h
    have hactive : (c.withSchemaUndo txn writes).active = c.active.insert txn { a with
        schemaUndo :=
          a.schemaUndo ++ undoEntries c.statistics.schema c.schemaLastSeq c.schemaSeq writes } := by
      simp only [CatalogState.withSchemaUndo, Dict.modify, ha]
    exact hc.insert_frame ha hactive (counts_foldl_schemaPut writes c.statistics) rfl
      (fun _ => Iff.rfl) (fun _ => id) (hc.own txn a ha) fun _ _ => le_rfl
  | countBump txn key increment =>
    obtain ⟨a, ha, hstage, rfl⟩ := step_effect h
    exact hc.countBump ha hstage (ht.outcome_running ha hstage) hcounted
  | appendCommit txn =>
    obtain ⟨a, ha, hstage, rfl⟩ := step_effect h
    have hrunning := ht.outcome_running ha hstage
    refine hc.insert_frame ha rfl rfl rfl (fun u => ?_) (fun u hu => ?_)
      (fun key => ?_) fun sign key => ?_
    · by_cases hk : u = txn <;> simp [hk, hrunning]
    · by_cases hk : u = txn <;> simp [hk, hu]
    · have hown := hc.own txn a ha key
      rw [hstage] at hown
      exact hown
    · rw [openGain, openGain, if_pos hstage]
      exact le_max_right _ _
  | retireCounts txn =>
    obtain ⟨a, ha, hstage, rfl⟩ := step_effect h
    refine hc.insert_frame ha rfl rfl rfl (fun _ => Iff.rfl) (fun _ => id)
      (fun key => rfl) fun sign key => ?_
    rw [openGain, openGain, hstage]
    exact le_refl 0
  | settle txn =>
    obtain ⟨a, ha, hstage, rfl⟩ := step_effect h
    have hopen : ∀ sign key, sum (fun _ a => openGain sign key a) (c.active.erase txn) ≤
        c.openGains sign key := by
      intro sign key
      have herase := sum_erase (fun _ a => openGain sign key a) ha
      have hnonneg := openGain_nonneg sign key a
      rw [openGains]
      omega
    refine ⟨hc.live, fun u b hb => ?_, fun key => ?_, fun key => ?_, hc.begun⟩
    · exact hc.own u b (of_lookup_erase hb).2
    · exact (hopen 1 key).trans (hc.gains key)
    · exact (Int.add_le_add_left (hopen (-1) key) _).trans (hc.losses key)
  | rollbackLogical txn =>
    obtain ⟨a, ha, hstage, rfl⟩ := step_effect h
    exact hc.rollbackLogical ha hstage (ht.outcome_running ha hstage)

/-! ## The committed image -/

/-- The value that the newest mutation by the transactions in `P` has left. -/
def Highest (P : Tid → Prop) (h : List (Write Tid Key (Option Val)))
    (schema0 : Key → Option Val) (k : Key) (v : Option Val) : Prop :=
  (∃ w ∈ h, w.key = k ∧ P w.owner ∧ v = w.value ∧ ∀ w' ∈ h, w'.key = k → P w'.owner →
    w'.seq ≤ w.seq) ∨
  ((∀ w ∈ h, w.key = k → ¬ P w.owner) ∧ v = schema0 k)

omit [DecidableEq Tid] in
lemma ContentOk.highest {A : Write Tid Key (Option Val) → Bool}
    {h : List (Write Tid Key (Option Val))}
    {entries : Entries Key Val} {P : Tid → Prop} (hh : Ordered h)
    (hc : ContentOk A h schema0 entries)
    (hP : ∀ w ∈ h, A w = true ↔ P w.owner) (k : Key) :
    Highest P h schema0 k (entries.schema k) := by
  have hk := congrArg Prod.snd (hc k)
  cases ht : top A h k with
  | none =>
    right
    rw [content, ht] at hk
    refine ⟨fun w hw hkey hPw => ?_, hk⟩
    rw [← hP w hw, top_eq_none.1 ht w hw hkey] at hPw
    cases hPw
  | some w =>
    left
    rw [content, ht] at hk
    obtain ⟨hw, hkey, halive⟩ := top_eq_some ht
    exact ⟨w, hw, hkey, (hP w hw).1 halive, hk, fun w' hw' hkey' hPw' =>
      seq_le_top hh ht hw' hkey' ((hP w' hw').2 hPw')⟩

/-- **The counters of the image.** -/
lemma CountInv.committed (hc : CountInv counts0 c) (ht : TxnInv c) (hsettled : NoneSettling c txn)
    (htxn : c.outcome txn ≠ .rolledBack) (key : CountKey) :
    ((c.committedStatistics txn).counts key : Int) =
      counts0 key + total (fun u => decide (u = txn ∨ c.outcome u = .committed)) c.bumps key := by
  -- what the others have moved the counter by can be moved back
  have hopen : ∀ sign, ((c.others txn).map fun a => max (sign * a.counts key) 0).sum ≤
      c.openGains sign key := by
    intro sign
    have hmap : ((c.others txn).map fun a => max (sign * a.counts key) 0) =
        (c.active.entries.filter fun e => e.1 ≠ txn).map fun e => openGain sign key e.2 := by
      rw [others_eq, map_map]
      refine map_congr_left fun e he => ?_
      obtain ⟨hlookup, hne⟩ := mem_entries_others he
      exact (if_pos (hsettled.stage hlookup hne)).symm
    rw [hmap]
    refine List.Sublist.sum_le_sum (filter_sublist.map _) fun x hx => ?_
    obtain ⟨e, -, rfl⟩ := mem_map.1 hx
    exact openGain_nonneg _ key e.2
  have hown : ((c.others txn).map fun a => a.counts key).sum =
      total (fun u => decide (u ∈ c.otherIds txn)) c.bumps key := by
    rw [← sum_total _ (nodup_otherIds c txn), others_eq, map_map, otherIds, map_map]
    refine congrArg List.sum (map_congr_left fun e he => ?_)
    obtain ⟨hlookup, hne⟩ := mem_entries_others he
    change e.2.counts key = _
    rw [hc.own e.1 e.2 hlookup key, hsettled.stage hlookup hne]
    rfl
  have hsplit : total (fun u => decide (c.outcome u ≠ .rolledBack)) c.bumps key =
      total (fun u => decide (u = txn ∨ c.outcome u = .committed)) c.bumps key +
        total (fun u => decide (u ∈ c.otherIds txn)) c.bumps key :=
    total_split fun b hb => alive_iff ht hsettled htxn (hc.begun b hb)
  change ((((c.others txn).foldl _ c.statistics).counts key : Nat) : Int) = _
  rw [counts_withdrawAll _ _ _ ((hopen 1).trans (hc.gains key))
    ((Int.add_le_add_left (hopen (-1)) _).trans (hc.losses key)), hc.live key]
  omega

/-- The undo entries of the others, the newest first. -/
lemma SchemaInv.pending (hc : SchemaInv schema0 c) (txn : Tid) :
    (((c.others txn).flatMap fun a => a.schemaUndo).insertionSort fun e e' =>
      e'.seq ≤ e.seq).Pairwise fun e e' => e'.seq < e.seq := by
  have hsorted := pairwise_insertionSort (fun e e' : SchemaUndo Key Val => e'.seq ≤ e.seq)
    ((c.others txn).flatMap fun a => a.schemaUndo)
  have hdistinct : ((c.others txn).flatMap fun a => a.schemaUndo).Pairwise fun e e' =>
    e.seq ≠ e'.seq := by
    rw [others_eq, flatMap_map, pairwise_flatMap]
    constructor
    · intro e he
      obtain ⟨hlookup, -⟩ := mem_entries_others he
      exact (pairwise_map.1 (hc.ascending e.1 e.2 hlookup)).imp fun h => ne_of_lt h
    refine List.Pairwise.imp_of_mem ?_ (pairwise_map.1 (nodup_otherIds c txn))
    intro e e' he he' hne x hx y hy hseq
    -- one mutation has one owner
    obtain ⟨w, hw, hwseq, -, howner, -⟩ := hc.chain.undo e.1 e.2 (mem_entries_others he).1 x hx
      |>.mutation
    obtain ⟨w', hw', hwseq', -, howner', -⟩ :=
      hc.chain.undo e'.1 e'.2 (mem_entries_others he').1 y hy
      |>.mutation
    have : w = w' := seq_inj hc.ordered hw hw' (by omega)
    exact hne (by rw [← howner, ← howner', this])
  have hperm := perm_insertionSort (fun e e' : SchemaUndo Key Val => e'.seq ≤ e.seq)
    ((c.others txn).flatMap fun a => a.schemaUndo)
  have hdistinct' := (hperm.pairwise_iff fun h => Ne.symm h).2 hdistinct
  exact (hsorted.and hdistinct').imp fun ⟨hle, hne⟩ => Nat.lt_of_le_of_ne hle (Ne.symm hne)

/-- **The schema entries of the image.** -/
lemma SchemaInv.committed (hc : SchemaInv schema0 c) (ht : TxnInv c) (hsettled : NoneSettling c txn)
    (htxn : c.outcome txn ≠ .rolledBack) (k : Key) :
    Highest (fun u => u = txn ∨ c.outcome u = .committed) c.mutations schema0 k
      ((c.committedStatistics txn).schema k) := by
  set pending := ((c.others txn).flatMap fun a => a.schemaUndo).insertionSort fun e e' =>
    e'.seq ≤ e.seq with hpending
  have hmem : ∀ e, e ∈ pending ↔ ∃ u a, c.active.lookup u = some a ∧ u ≠ txn ∧
    e ∈ a.schemaUndo := by
    intro e
    rw [mem_insertionSort, mem_flatMap]
    constructor
    · rintro ⟨a, ha, he⟩
      obtain ⟨x, hx, rfl⟩ := mem_map.1 ha
      obtain ⟨hlookup, hne⟩ := mem_entries_others hx
      exact ⟨x.1, x.2, hlookup, hne, he⟩
    · rintro ⟨u, a, ha, hne, he⟩
      refine ⟨a, mem_map.2 ⟨⟨u, a⟩, mem_filter.2 ⟨AList.mem_lookup_iff.1 ha, ?_⟩, rfl⟩, he⟩
      exact decide_eq_true hne
  have hentries : ∀ e ∈ pending, ∃ u, EntryOk c.alive c.mutations schema0 u e := by
    intro e he
    obtain ⟨u, a, ha, -, he⟩ := (hmem e).1 he
    exact ⟨u, hc.chain.undo u a ha e he⟩
  have hcontent := content_undoAll hc.ordered hc.chain.content hentries (hc.pending txn)
  have himage : (c.committedStatistics txn).schema =
    (pending.foldl (fun entries e => (undoSchemaEntry entries e).1)
        ⟨c.statistics.schema, c.schemaLastSeq⟩).schema := by
    rw [committedStatistics, schema_withdrawAll]
  rw [himage]
  refine hcontent.highest hc.ordered (fun w hw => ?_) k
  -- the mutations withdrawn are those of the other open transactions
  have hwithdrawn : w.seq ∈ pending.map SchemaUndo.seq ↔ w.owner ∈ c.otherIds txn := by
    rw [mem_otherIds ht hsettled, mem_map]
    constructor
    · rintro ⟨e, he, hseq⟩
      obtain ⟨u, a, ha, hne, he⟩ := (hmem e).1 he
      obtain ⟨w', hw', hseq', -, howner, -⟩ := (hc.chain.undo u a ha e he).mutation
      rw [seq_inj hc.ordered hw hw' (by omega), howner]
      exact ⟨hne, ht.outcome_running ha (hsettled.stage ha hne)⟩
    · rintro ⟨hne, hrunning⟩
      obtain ⟨a, ha⟩ := ht.running _ hrunning
      obtain ⟨e, he, hseq⟩ := mem_map.1 (hc.complete _ a ha w hw rfl)
      exact ⟨e, (hmem e).2 ⟨_, a, ha, hne, he⟩, hseq⟩
  obtain ⟨halive, hdisjoint⟩ := alive_iff ht hsettled htxn (hc.begun w hw)
  rw [withdrawAll, alive, halive]
  simp only [hwithdrawn]
  revert hdisjoint
  by_cases hother : w.owner ∈ c.otherIds txn <;> simp [hother]

/-- **The committed catalog.** -/
theorem committed_catalog (schema0 : Key → Option Val) (counts0 : CountKey → Nat)
    {ops : List (Op Tid Key Val)} (hrun : Run.exec step (init schema0 counts0) ops = some c) :
    (∀ k, Highest (fun u => c.outcome u ≠ .rolledBack) c.mutations schema0 k
      (c.statistics.schema k)) ∧
    ∀ committing, c.outcome committing ≠ .rolledBack → NoneSettling c committing →
      (∀ k, Highest (fun u => u = committing ∨ c.outcome u = .committed) c.mutations schema0 k
        ((c.committedStatistics committing).schema k)) ∧
      (Run.Along step Counted (init schema0 counts0) ops → (∀ key, counts0 key ≤ countMax) → ∀ key,
        ((c.committedStatistics committing).counts key : Int) = counts0 key +
          total (fun u => decide (u = committing ∨ c.outcome u = .committed)) c.bumps key) := by
  obtain ⟨ht, hs⟩ : TxnInv c ∧ SchemaInv schema0 c :=
    Run.exec_preserves (C := fun _ _ => True) (I := fun c => TxnInv c ∧ SchemaInv schema0 c)
      (fun hi _ h => ⟨hi.1.step h, hi.2.step hi.1 h⟩)
      ⟨TxnInv.init schema0 counts0, SchemaInv.init schema0 counts0⟩
      Run.Along.always hrun
  refine ⟨hs.chain.content.highest hs.ordered fun w _ => by simp [alive], ?_⟩
  intro committing hcommitting hsettled
  refine ⟨hs.committed ht hsettled hcommitting, fun hcounted hcounts => ?_⟩
  obtain ⟨-, hc⟩ : TxnInv c ∧ CountInv counts0 c :=
    Run.exec_preserves (C := Counted) (I := fun c => TxnInv c ∧ CountInv counts0 c)
      (fun hi hC h => ⟨hi.1.step h, hi.2.step hi.1 hC h⟩)
      ⟨TxnInv.init schema0 counts0, CountInv.init schema0 hcounts⟩ hcounted hrun
  exact hc.committed ht hsettled hcommitting

/-- Three transactions write an entry, and the oldest rolls back first. -/
def nonLifoAbort : List (Op Nat Nat Nat) :=
  [.start 1, .start 2, .start 3, .withSchemaUndo 1 [(7, some 10)], .withSchemaUndo 2 [(7, some 20)],
    .countBump 2 .totalNodes true, .withSchemaUndo 3 [(7, some 30)], .countBump 3 .totalNodes false,
    .rollbackLogical 1, .appendCommit 2, .retireCounts 2, .settle 2, .start 4]

theorem committed_catalog_after_abort : ∃ c : CatalogState Nat Nat Nat,
    Run.exec step (init (fun _ => none) fun _ => 5) nonLifoAbort = some c ∧
    (c.committedStatistics 4).schema 7 = some 20 ∧
    Highest (fun u => u = 4 ∨ c.outcome u = .committed) c.mutations (fun _ => none) 7 (some 20) ∧
    ((c.committedStatistics 4).counts .totalNodes : Int) = 5 +
      total (fun u => decide (u = 4 ∨ c.outcome u = .committed)) c.bumps .totalNodes := by
  have hrun : ((Run.exec step (init (fun _ => none) fun _ => 5) nonLifoAbort).map fun c =>
      ((c.committedStatistics 4).schema 7, c.outcome 4, decide (NoneSettling c 4))) =
        some (some 20, .running, true) := by decide +kernel
  obtain ⟨c, hc, heq⟩ := Option.map_eq_some_iff.1 hrun
  simp only [Prod.mk.injEq] at heq
  obtain ⟨hschema, houtcome, hsettled⟩ := heq
  have hcounted : Run.Along step Counted (init (fun _ => none) fun _ => 5) nonLifoAbort := by
    decide +kernel
  obtain ⟨-, himage⟩ := committed_catalog (fun _ => none) (fun _ => 5) hc
  obtain ⟨hhighest, hcounts⟩ :=
    himage 4 (by rw [houtcome]; exact nofun) (of_decide_eq_true hsettled)
  exact ⟨c, hc, hschema, hschema ▸ hhighest 7, hcounts hcounted (fun _ => by decide) .totalNodes⟩

/-- A transaction that has written its `COMMIT` record, when another one takes its image. -/
def commitWindow : List (Op Nat Nat Nat) :=
  [.start 1, .start 2, .withSchemaUndo 1 [(7, some 10)], .countBump 1 .totalNodes true,
    .appendCommit 1]

/-- The image of a concurrent commit misses a schema entry and a count that are committed. -/
theorem committed_image_loses_schema : ∃ c : CatalogState Nat Nat Nat,
    Run.exec step (init (fun _ => none) fun _ => 5) commitWindow = some c ∧
    (c.committedStatistics 2).schema 7 = none ∧
    ¬ Highest (fun u => u = 2 ∨ c.outcome u = .committed) c.mutations (fun _ => none) 7 none ∧
    ((c.committedStatistics 2).counts .totalNodes : Int) ≠ 5 +
      total (fun u => decide (u = 2 ∨ c.outcome u = .committed)) c.bumps .totalNodes := by
  have hrun : ((Run.exec step (init (fun _ => none) fun _ => 5) commitWindow).map fun c =>
      ((c.committedStatistics 2).schema 7, c.mutations, c.outcome 1,
        decide (((c.committedStatistics 2).counts .totalNodes : Int) = 5 +
          total (fun u => decide (u = 2 ∨ c.outcome u = .committed)) c.bumps .totalNodes))) =
        some (none, [⟨1, 1, 7, some 10⟩], .committed, false) := by decide +kernel
  obtain ⟨c, hc, heq⟩ := Option.map_eq_some_iff.1 hrun
  simp only [Prod.mk.injEq, decide_eq_false_iff_not] at heq
  obtain ⟨hschema, hmutations, houtcome, hcounts⟩ := heq
  refine ⟨c, hc, hschema, ?_, hcounts⟩
  rw [hmutations]
  rintro (⟨w, hw, -, -, hvalue, -⟩ | ⟨hnone, -⟩)
  · rw [mem_singleton.1 hw] at hvalue
    cases hvalue
  · exact hnone _ (mem_singleton.2 rfl) rfl (.inr houtcome)

end Graphus.CatalogState
