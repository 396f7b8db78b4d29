import Graphus.Storage.LinkOrder

/-!
# The steps of `link_delta` keep the order of the chains

The check of the head reads the delta, the slot and the active table one after the other. What it
has read still holds of a head that is on the chain, so a check that passes allows the writer to go
on above it (`good_of_slotUnheld`), and a publication that finds that head in place puts its delta
above the whole chain (`Inv.above_chain`, `Inv.publish`).

`Undisturbed` is the condition on the steps that this needs: the table is read before the
transaction of the slot leaves it with a commit, and the id of a head that is remembered is not
allocated again.
-/

namespace Graphus

variable {Entity : Type}

/-- The writer has read the slot of the transaction as in flight. -/
def WriterPhase.hasRead (txn : Nat) : WriterPhase Entity → Bool
  | .slotRead _ _ _ slot => slot.commitTs = .inFlight txn
  | _ => false

namespace UndoArea

open LinkedChain List WriterPhase WriterTxn
open Function (update_of_ne update_self)

variable {s s' : UndoArea Entity} {chain : Entity → List Nat} {txn id : Nat}
  {w w' : WriterTxn Entity}

/-- The condition on the steps of a run. -/
def Undisturbed (s : UndoArea Entity) : Op Entity → Prop
  | .finish txn .settle => ∀ u ∈ s.active.keys, ∀ v ∈ s.active.lookup u, v.phase.hasRead txn = false
  | .link _ (.writeDelta id) => id ∈ s.freeDeltas →
      ∀ u ∈ s.active.keys, ∀ v ∈ s.active.lookup u, v.phase.head.map Prod.snd ≠ some id
  | _ => True

instance (s : UndoArea Entity) (op : Op Entity) : Decidable (s.Undisturbed op) := by
  unfold Undisturbed
  split <;> infer_instance

/-! ## The check of the head -/

variable {p : WriterPhase Entity}

/-- The error of `link_delta`. -/
lemma Inv.refuse (hs : Inv s chain) (hw : s.active.lookup txn = some w)
    (hw0 : w.phase = p) (hp : p.linking = true) (hopen : w.commitSlot.isSome) {entry : Option Nat}
    (hentry : p.entry = entry) : Inv (s.refuse txn w entry) chain := by
  subst hw0
  have hok := hs.writers txn w hw
  have hidle : WriterOk s chain txn { w with phase := .idle } :=
    hok.link rfl hp rfl hopen (.inr rfl) (by simp [WriterPhase.head]) trivial
  cases entry with
  | none =>
    exact hs.setWriter (c := s.clock) hw hidle rfl (by simp) (by simp [WriterPhase.head])
      (by simp [entry]) le_rfl
  | some id =>
    have hmem := entry_mem_kept hentry
    have hoff := (hok.entry id hentry).2.2
    have hnodup := hok.nodup
    rw [kept_of_linking hp, hentry] at hnodup
    have hleft : id ∉ ({ w with phase := .idle } : WriterTxn Entity).kept := (nodup_cons.1 hnodup).1
    have hwrote : Inv (s.wrote txn { w with phase := .idle } id
        ((s.delta id).map fun d => { d with inUse := false }) s.freeDeltas s.deltaHw) chain := by
      refine hs.wrote hw rfl (by simp) hoff
        (fun u v hne hv => ⟨hs.kept_disjoint hw hv hne hmem, fun j hj => ?_⟩)
        le_rfl ⟨hs.free_nodup, hs.free_off⟩ ?_ (.of_none rfl rfl)
      · exact ((hs.writers u v hv).kept j hj).2.1
      · exact hidle.wrote hoff hleft (fun j hj => (hidle.kept j hj).2.1) le_rfl
    exact hwrote

/-- A slot that the check has passed. -/
lemma good_of_slotUnheld {slot : CommitSlot} (hsaw : s.Saw slot (s.commitInfo id))
    (hbegun : s.begun txn = some w.beginTs) (h : s.slotUnheld txn w slot = true) :
    s.Good txn id := by
  simp only [slotUnheld, openWriterOf, hsaw.inUse, Bool.and_eq_true] at h
  cases hts : slot.commitTs with
  | none => exact absurd hts hsaw.stamped
  | committed ts =>
    rw [hts] at h
    by_cases htxn : slot.txnId = txn
    · exact .inl (hsaw.owner ▸ htxn)
    · refine .inr ⟨ts, w.beginTs, hsaw.committed ts hts, hbegun, ?_⟩
      simpa [htxn] using h.2
  | inFlight x =>
    obtain ⟨hx, hactive⟩ := hsaw.inFlight x hts
    rw [hts] at h
    have hself : x = txn := by
      by_contra hne
      simp [hne, hactive] at h
    exact .inl (hx ▸ hself)

lemma Inv.readHead (hs : Inv s chain) (hw : s.active.lookup txn = some w) (hp : w.phase = .idle)
    (hopen : w.commitSlot.isSome) (e : Entity) :
    Inv (s.setWriter txn { w with phase := .headRead e none (s.undoPtr e) }) chain := by
  refine hs.link hp rfl rfl hopen (.inr rfl) hw (fun e' head hh => .inr ?_) trivial
  cases hh
  rfl

/-- A writer in a phase of `link_delta` has its slot. -/
lemma Inv.opened (hs : Inv s chain) (hw : s.active.lookup txn = some w)
    (hp : w.phase = p) (h : p.head.isSome ∨ p.entry.isSome) : w.commitSlot.isSome :=
  (hs.writers txn w hw).opened (hp ▸ h)

section Record

variable {d : UndoDelta} (h : s.delta id = some d)

include h

lemma commitInfo_eq : s.commitInfo id = d.commitInfo := by
  simp [commitInfo, h]

lemma commandId_eq : s.commandId id = d.commandId := by
  simp [commandId, h]

lemma live_eq : s.live id = d.inUse := by
  simp [live, h]

lemma next_eq : s.next id = d.next := by
  simp [next, h]

end Record

/-- A writer that has passed the check writes its delta above the head. -/
lemma WriterOk.write (h : WriterOk s chain txn w) {e : Entity} {entry : Option Nat}
    {head k hw : Nat}
    {free : List Nat} (hp : w.phase = .unheld e entry head) (hslot : w.commitSlot = some k)
    (hoff : ∀ e, id ∉ chain e)
    (hnull : id ≠ nullDelta) (hhw : s.deltaHw ≤ hw) (hid : id ≤ hw) (hfree : id ∉ free)
    (hlinks : ∀ j ∈ w.undoLinks.map UndoLink.delta, j ≠ id ∧ j ∉ free)
    (hw' : w' = { w with phase := .publishing e id head })
    (hs' : s' = s.wrote txn w' id (some ⟨true, k, head, w.command⟩) free hw) :
    WriterOk s' chain txn w' := by
  have hp' : w.phase ≠ .slotFreed := by rw [hp]; simp
  have hlinking : w.phase.linking = true := by rw [hp]; rfl
  have hkept : ∀ j ∈ w.undoLinks.map UndoLink.delta, j ∈ w.kept := by
    intro j hj
    rw [kept_of_linking hlinking]
    exact mem_append_right _ hj
  have hsame : ∀ e', ∀ j ∈ chain e', s'.delta j = s.delta j := by
    intro e' j hj
    rw [hs']
    refine wrote_delta_of_ne ?_
    rintro rfl
    exact hoff e' hj
  have hself : s'.delta id = some ⟨true, k, head, w.command⟩ := hs' ▸ update_self ..
  subst hs' hw'
  constructor
  case begun => exact h.begun
  case begin_le => exact h.begin_le
  case slot =>
    intro k' hk' _
    obtain ⟨hlive, howner, hopen, -⟩ := h.slot k' hk' hp'
    exact ⟨hlive, howner, fun _ => hopen (by rw [hp]; simp), by simp⟩
  case opened => exact fun _ => by simp [hslot]
  case command =>
    intro k' hk' _ e' j hj hinfo
    rw [commandId_congr (hsame e' j hj)]
    exact h.command k' hk' hp' e' j hj (commitInfo_congr (hsame e' j hj) ▸ hinfo)
  case reach =>
    intro k' hk' _ e' j hj hinfo
    have hreach := h.reach k' hk' hp' e' j hj (commitInfo_congr (hsame e' j hj) ▸ hinfo)
    exact (reaches_of_linking hlinking e').1 hreach
  case kept =>
    intro j hj
    rcases mem_cons.1 hj with rfl | hj
    · exact ⟨by rw [commitInfo_eq hself]; exact hslot, hfree, hnull, hid⟩
    obtain ⟨hne, hjfree⟩ := hlinks j hj
    obtain ⟨hinfo, -, hjnull, hle⟩ := h.kept j (hkept j hj)
    rw [commitInfo_congr (wrote_delta_of_ne hne)]
    exact ⟨hinfo, hjfree, hjnull, le_trans hle hhw⟩
  case nodup =>
    have hnodup := h.nodup
    rw [kept_of_linking hlinking] at hnodup
    exact nodup_cons.2 ⟨fun hj => (hlinks id hj).1 rfl, hnodup.of_append_right⟩
  case entry =>
    rintro j hj
    obtain rfl : id = j := by simpa [WriterPhase.entry] using hj
    exact ⟨live_eq hself, commandId_eq hself, hoff⟩
  case head_le =>
    intro e' head' hh
    refine le_trans (h.head_le e' head' ?_) hhw
    rw [hp]
    exact hh
  case phase =>
    have hgood : head ∈ chain e → s.Good txn head := by simpa only [PhaseOk, hp] using h.phase
    refine ⟨fun hmem => (hgood hmem).keeps (hsame e head hmem)
      (SlotKeeps.of_eq rfl) fun _ _ hb => hb, ?_⟩
    exact next_eq hself

/-- An id that is allocated is on no chain, with no writer, and not a head that a writer
remembers. -/
lemma Inv.fresh (hs : Inv s chain) (hC : s.Undisturbed (.link txn (.writeDelta id)))
    (h : allocatable s.freeDeltas s.deltaHw id) :
    id ≠ nullDelta ∧ (∀ e, id ∉ chain e) ∧ ∀ u v, s.active.lookup u = some v →
      id ∉ v.kept ∧ ∀ e, v.phase.head ≠ some (e, id) := by
  rcases h with hfree | rfl
  · obtain ⟨hnull, -, hoff⟩ := hs.free_off id hfree
    refine ⟨hnull, hoff, fun u v hv => ⟨fun hkept => ?_, fun e hh => ?_⟩⟩
    · exact ((hs.writers u v hv).kept id hkept).2.1 hfree
    · exact hC hfree u (Dict.mem_keys_iff_lookup.2 ⟨v, hv⟩) v hv (by rw [hh]; rfl)
  · refine ⟨by simp [nullDelta], fun e hmem => ?_, fun u v hv => ⟨fun hkept => ?_, fun e hh => ?_⟩⟩
    · exact absurd (hs.bounded e _ hmem) (by omega)
    · exact absurd ((hs.writers u v hv).kept _ hkept).2.2.2 (by omega)
    · exact absurd ((hs.writers u v hv).head_le e _ hh) (by omega)

variable [DecidableEq Entity]

section

variable (hs : Inv s chain) (hw : s.active.lookup txn = some w)

include hs hw

variable {entry : Option Nat} {e : Entity}

lemma Inv.readDelta {head : Nat} (hp : w.phase = .headRead e entry head)
    (h : s.linkStep txn w .readDelta = some s') : Inv s' chain := by
  have hopen := hs.opened hw hp (.inl rfl)
  have hpass (hgood : head ∈ chain e → s.Good txn head) :
      Inv (s.setWriter txn { w with phase := .unheld e entry head }) chain :=
    hs.link hp rfl rfl hopen (.inl rfl) hw (fun _ _ => .inl) hgood
  simp only [linkStep, hp] at h
  split at h
  next hnull =>
    cases h
    exact hpass fun hmem => absurd (hnull ▸ hmem) (hs.spells e).null_not_mem
  next =>
    split at h
    next =>
      cases h
      exact hs.refuse hw hp rfl hopen rfl
    next d hd =>
      split at h
      · cases h
        exact hs.link hp rfl rfl hopen (.inl rfl) hw (fun _ _ => .inl) fun _ => commitInfo_eq hd
      next hdead =>
        cases h
        refine hpass fun hmem => ?_
        exact absurd ((live_eq hd).symm.trans (hs.live e head hmem).1) hdead

lemma Inv.readSlot {head info : Nat}
    (hp : w.phase = .deltaRead e entry head info) (h : s.linkStep txn w .readSlot = some s') :
    Inv s' chain := by
  have hok := hs.writers txn w hw
  have hopen := hs.opened hw hp (.inl rfl)
  have hread : head ∈ chain e → s.commitInfo head = info := by
    simpa only [PhaseOk, hp] using hok.phase
  simp only [linkStep, hp] at h
  split at h
  next =>
    cases h
    exact hs.refuse hw hp rfl hopen rfl
  next slot hslot =>
    cases h
    refine hs.link hp rfl rfl hopen (.inl rfl) hw (fun _ _ => .inl) fun hmem => ?_
    obtain rfl := hread hmem
    have hlive := (hs.live e head hmem).2
    have hsok := hs.slots _ hlive
    have howner : s.owner (s.commitInfo head) = slot.txnId := by simp [owner, hslot]
    have hstamp : s.stamp (s.commitInfo head) = slot.commitTs := by simp [stamp, hslot]
    refine ⟨by simpa [slotLive, hslot] using hlive, howner.symm, fun ts hts => hstamp.trans hts,
      fun x hx => hsok.inFlight x (hstamp.trans hx), hstamp ▸ hsok.stamped⟩

lemma Inv.checkActive {head : Nat} {slot : CommitSlot}
    (hp : w.phase = .slotRead e entry head slot) (h : s.linkStep txn w .checkActive = some s') :
    Inv s' chain := by
  have hok := hs.writers txn w hw
  have hopen := hs.opened hw hp (.inl rfl)
  have hread : head ∈ chain e → s.Saw slot (s.commitInfo head) := by
    simpa only [PhaseOk, hp] using hok.phase
  simp only [linkStep, hp] at h
  split at h
  next hpass =>
    cases h
    exact hs.link hp rfl rfl hopen (.inl rfl) hw (fun _ _ => .inl)
      fun hmem => good_of_slotUnheld (hread hmem) hok.begun hpass
  next =>
    cases h
    exact hs.refuse hw hp rfl hopen rfl

end

/-! ## Writing and publishing the delta -/

lemma Inv.writeDelta (hs : Inv s chain) (hw : s.active.lookup txn = some w)
    (hC : s.Undisturbed (.link txn (.writeDelta id)))
    (h : s.linkStep txn w (.writeDelta id) = some s') :
    Inv s' chain := by
  simp only [linkStep] at h
  split at h
  next e head k hp hslot =>
    split at h
    next halloc =>
      cases h
      have hok := hs.writers txn w hw
      obtain ⟨hnull, hoff, hfresh⟩ := hs.fresh hC halloc
      have hlinking : w.phase.linking = true := by rw [hp]; rfl
      have hhead : w.phase.head = some (e, head) := by rw [hp]; rfl
      have hlinks : ∀ j ∈ w.undoLinks.map UndoLink.delta, j ∈ w.kept := by
        intro j hj
        rw [kept_of_linking hlinking]
        exact mem_append_right _ hj
      have hfree : ∀ u v, s.active.lookup u = some v → ∀ j ∈ v.kept, j ∉ s.freeDeltas.erase id :=
        fun u v hv j hj hmem => ((hs.writers u v hv).kept j hj).2.1 (mem_of_mem_erase hmem)
      refine hs.wrote hw rfl (by simp) hoff (fun u v _ hv => ⟨(hfresh u v hv).1, hfree u v hv⟩)
        (le_max_left _ _) ⟨hs.free_nodup.erase id, fun j hj => ?_⟩ ?_
        ⟨fun e' head' hh => ⟨fun he => ?_, fun u v _ hv he => ?_⟩, fun j he u v e' _ hv hh => ?_⟩
      · obtain ⟨hjnull, hjle, hjoff⟩ := hs.free_off j (mem_of_mem_erase hj)
        exact ⟨hjnull, le_trans hjle (le_max_left _ _), hjoff⟩
      · refine hok.write hp hslot hoff hnull (le_max_left _ _) (le_max_right _ _)
          (fun hmem => (hs.free_nodup.mem_erase_iff.1 hmem).1 rfl)
          (fun j hj => ⟨?_, hfree txn w hw j (hlinks j hj)⟩)
          rfl rfl
        rintro rfl
        exact (hfresh txn w hw).1 (hlinks j hj)
      · obtain rfl : id = head' := Option.some.inj he
        exact (hfresh txn w hw).2 e' (hhead.trans hh)
      · exact hs.remembered txn w u v e' head' hw hv (hhead.trans hh) he
      · obtain rfl : id = j := Option.some.inj he
        exact (hfresh u v hv).2 e' hh
    next => cases h
  next => cases h

lemma Inv.relink (hs : Inv s chain) (hw : s.active.lookup txn = some w)
    (h : s.linkStep txn w .relink = some s') : Inv s' chain := by
  simp only [linkStep] at h
  split at h
  next e id head hp =>
    cases h
    have hok := hs.writers txn w hw
    have hlinking : w.phase.linking = true := by rw [hp]; rfl
    have hhead : w.phase.head = some (e, head) := by rw [hp]; rfl
    have hentry : w.phase.entry = some id := by rw [hp]; rfl
    have hmem := entry_mem_kept hentry
    obtain ⟨hslot, hfree, hnull, hle⟩ := hok.kept id hmem
    obtain ⟨hlive, hcommand, hoff⟩ := hok.entry id hentry
    -- the delta is the one that was written, with another next one
    have hdelta : (s.delta id).map (fun d => { d with next := head }) =
        some ⟨true, s.commitInfo id, head, w.command⟩ := by
      cases hd : s.delta id with
      | none => simp [live, hd] at hlive
      | some d =>
        rw [Option.map_some, commitInfo_eq hd, ← hcommand, commandId_eq hd, ← hlive, live_eq hd]
    have hnodup := hok.nodup
    rw [kept_of_linking hlinking, hentry] at hnodup
    rw [hdelta]
    refine hs.wrote hw rfl (by simp) hoff
      (fun u v hne hv => ⟨hs.kept_disjoint hw hv hne hmem, fun j hj => ?_⟩)
      le_rfl ⟨hs.free_nodup, hs.free_off⟩ ?_
      ⟨fun e' head' hh => ⟨fun he => ?_, fun u v _ hv he => ?_⟩, fun j he u v e' _ hv hh => ?_⟩
    · exact ((hs.writers u v hv).kept j hj).2.1
    · refine hok.write hp hslot hoff hnull le_rfl hle hfree (fun j hj => ⟨?_, ?_⟩) rfl rfl
      · rintro rfl
        exact (nodup_cons.1 hnodup).1 hj
      · refine (hok.kept j ?_).2.1
        rw [kept_of_linking hlinking]
        exact mem_append_right _ hj
    · exact hs.remembered txn w txn w e' head' hw hw (hhead.trans hh) (hentry.trans he)
    · exact hs.remembered txn w u v e' head' hw hv (hhead.trans hh) he
    · exact hs.remembered u v txn w e' j hv hw hh (hentry.trans he)
  next => cases h

/-- The chains with a new head on one of them. -/
def cons (chain : Entity → List Nat) (e : Entity) (id : Nat) : Entity → List Nat :=
  Function.update chain e (id :: chain e)

omit s s' in
lemma mem_cons_chain {e e' : Entity} {j : Nat} :
    j ∈ cons chain e id e' ↔ (e' = e ∧ j = id) ∨ j ∈ chain e' := by
  unfold cons
  by_cases he : e' = e
  · subst he
    simp
  · simp [he]

section

variable (hs : Inv s chain) (hw : s.active.lookup txn = some w)

include hs hw

variable {e : Entity}

omit [DecidableEq Entity] in
/-- A new delta may stand above the whole chain. -/
lemma Inv.above_chain {head : Nat} (hp : w.phase = .publishing e id head)
    (hhead : s.undoPtr e = head) : ∀ j ∈ chain e, s.Above id j := by
  have hok := hs.writers txn w hw
  have hentry : w.phase.entry = some id := by rw [hp]; rfl
  obtain ⟨hslot, -⟩ := hok.kept id (entry_mem_kept hentry)
  have hfreed : w.phase ≠ .slotFreed := by rw [hp]; simp
  obtain ⟨-, howner, -⟩ := hok.slot _ hslot hfreed
  have hgood : head ∈ chain e → s.Good txn head := by
    have hphase := hok.phase
    simp only [PhaseOk, hp] at hphase
    exact hphase.1
  -- above the head, by the check; above the others, by transitivity
  have htop : head ∈ chain e → s.Above id head := by
    intro hmem
    by_cases hsame : s.commitInfo head = s.commitInfo id
    · refine .inl ⟨hsame.symm, ?_⟩
      rw [(hok.entry id hentry).2.1]
      exact hok.command _ hslot hfreed e head hmem hsame
    refine .inr ⟨fun h => hsame h.symm, ?_⟩
    rcases hgood hmem with h | ⟨ts, b, hts, hb, hle⟩
    · have hown := ((hs.slots _ (hs.live e head hmem).2).own w (by rw [h]; exact hw)).1
      exact absurd (Option.mem_unique hown hslot) hsame
    · exact ⟨ts, b, hts, howner ▸ hb, hle⟩
  intro j hj
  have hspells := hs.spells e
  cases hl : chain e with
  | nil => simp [hl] at hj
  | cons x l =>
    have habove := hs.above e
    rw [hl] at hspells habove hj
    have hx : x = head := hspells.1.symm.trans hhead
    have hxmem : head ∈ chain e := by simp [hl, hx]
    rcases mem_cons.1 hj with rfl | hj
    · exact hx ▸ htop hxmem
    have hjmem : j ∈ chain e := by simp [hl, hj]
    refine (htop hxmem).trans (hx ▸ rel_of_pairwise_cons habove hj) ?_ ?_
    · exact hs.slots _ (hs.live e head hxmem).2
    · exact hs.slots _ (hs.live e j hjmem).2

/-- **A delta is published.** -/
lemma Inv.publish {head : Nat} (hp : w.phase = .publishing e id head) (hhead : s.undoPtr e = head) :
    Inv { s.setWriter txn { w with phase := .published e id } with
      undoPtr := Function.update s.undoPtr e id }
      (cons chain e id) := by
  have hok := hs.writers txn w hw
  have hfreed : w.phase ≠ .slotFreed := by rw [hp]; simp
  have hentry : w.phase.entry = some id := by rw [hp]; rfl
  have hlinking : w.phase.linking = true := by rw [hp]; rfl
  obtain ⟨hslot, hfree, hnull, hle⟩ := hok.kept id (entry_mem_kept hentry)
  obtain ⟨hlive, hcommand, hoff⟩ := hok.entry id hentry
  obtain ⟨hslotLive, howner, hstamp, -⟩ := hok.slot _ hslot hfreed
  have hnext : s.next id = head := by
    have hphase := hok.phase
    simp only [PhaseOk, hp] at hphase
    exact hphase.2
  have habove := hs.above_chain hw hp hhead
  refine hs.rechain hw rfl rfl rfl rfl (by simp [hp]) (by simp) ?kept trivial (fun e' => ?spells)
    (fun e' => ?above)
    (fun e' j hj => ?links) fun u v hne hv => ⟨fun e' j hj => ?old, fun j hj e' hmem => ?off,
      fun e' o h t d k hwalk hk hex => ?walked⟩
  case kept => rw [kept_of_linking hlinking, hentry]; rfl
  case spells =>
    by_cases he : e' = e
    · subst he
      simp only [cons, update_self]
      refine ⟨rfl, hnull, ?_⟩
      have hspells := hs.spells e'
      rw [hhead, ← hnext] at hspells
      exact hspells
    · simp only [cons, update_of_ne he]
      exact hs.spells e'
  case above =>
    by_cases he : e' = e
    · subst he
      simp only [cons, update_self]
      exact pairwise_cons.2 ⟨habove, hs.above e'⟩
    · simp only [cons, update_of_ne he]
      exact hs.above e'
  case links =>
    rcases mem_cons_chain.1 hj with ⟨he, rfl⟩ | hj
    · exact ⟨⟨hlive, hslotLive⟩, hle, hfree, fun _ => ⟨le_of_eq hcommand, .inl he⟩⟩
    · refine ⟨hs.live e' j hj, hs.bounded e' j hj, fun hmem =>
        (hs.free_off j hmem).2.2 e' hj, fun hk => ?_⟩
      exact ⟨hok.command _ hk hfreed e' j hj rfl,
        .inr ((reaches_of_linking hlinking e').1 (hok.reach _ hk hfreed e' j hj rfl))⟩
  case old =>
    rcases mem_cons_chain.1 hj with ⟨-, rfl⟩ | hj
    · refine .inr
        ⟨fun hvp hvslot => hne (hs.slot_inj hw hv hslot hfreed hvslot hvp), fun head' hh heq => ?_⟩
      exact hs.remembered u v txn w e' head' hv hw hh (heq ▸ hentry)
    · exact .inl hj
  case off =>
    rcases mem_cons_chain.1 hmem with ⟨-, rfl⟩ | hmem
    · exact hs.kept_disjoint hw hv hne (entry_mem_kept hentry) (entry_mem_kept hj)
    · exact ((hs.writers u v hv).entry j hj).2.2 e' hmem
  case walked =>
    -- a rollback that has its deltas on the chain holds it against a new one
    have hvp : v.phase ≠ .slotFreed := by rw [hwalk]; simp
    have hvstamp := ((hs.writers u v hv).slot k hk hvp).2.2.1 (by rw [hwalk]; simp)
    have he : e' ≠ e := by
      rintro rfl
      obtain ⟨j, hj, hinfo⟩ := hex
      rcases habove j hj with ⟨hsame, -⟩ | ⟨-, ts, -, hts, -⟩
      · exact hne (hs.slot_inj hw hv hslot hfreed (by rw [hsame, hinfo]; exact hk) hvp)
      · rw [hinfo, hvstamp] at hts
        cases hts
    exact ⟨update_of_ne he .., update_of_ne he ..⟩

omit [DecidableEq Entity] in
/-- A published delta is registered. -/
lemma Inv.register (hp : w.phase = .published e id) :
    Inv (s.setWriter txn
      { w with phase := .idle, undoLinks := w.undoLinks ++ [⟨e, id⟩] }) chain := by
  refine hs.enter hw rfl rfl le_rfl rfl rfl (by simp [hp]) (by simp) (fun e' _ he => ?_) ?_ trivial
  · simp only [WriterTxn.Reaches, hp] at he
    simp only [WriterTxn.Reaches, map_append, mem_append]
    exact he.symm.imp_right fun h => by simp [h]
  · simp only [kept, hp, map_append]
    exact perm_append_singleton _ _

/-- **A step of `link_delta`.** -/
lemma Inv.linkStep {op : LinkOp Entity} (hC : s.Undisturbed (.link txn op))
    (h : s.linkStep txn w op = some s') : ∃ chain', Inv s' chain' := by
  cases op with
  | readHead e =>
    simp only [UndoArea.linkStep] at h
    split at h
    next hcond =>
      cases h
      exact ⟨chain, hs.readHead hw hcond.1 hcond.2 e⟩
    next => cases h
  | readDelta =>
    cases hp : w.phase with
    | headRead e entry head => exact ⟨chain, hs.readDelta hw hp h⟩
    | _ => simp [UndoArea.linkStep, hp] at h
  | readSlot =>
    cases hp : w.phase with
    | deltaRead e entry head info => exact ⟨chain, hs.readSlot hw hp h⟩
    | _ => simp [UndoArea.linkStep, hp] at h
  | checkActive =>
    cases hp : w.phase with
    | slotRead e entry head slot => exact ⟨chain, hs.checkActive hw hp h⟩
    | _ => simp [UndoArea.linkStep, hp] at h
  | writeDelta id => exact ⟨chain, hs.writeDelta hw hC h⟩
  | relink => exact ⟨chain, hs.relink hw h⟩
  | compareAndPublish =>
    simp only [UndoArea.linkStep] at h
    split at h
    next e id head hp =>
      split at h
      next hhead =>
        cases h
        exact ⟨_, hs.publish hw hp hhead⟩
      next =>
        cases h
        exact ⟨chain, hs.link hp rfl rfl (hs.opened hw hp (.inl rfl))
          (.inl rfl) hw (by simp [WriterPhase.head]) trivial⟩
    next => cases h
  | reread =>
    simp only [UndoArea.linkStep] at h
    split at h
    next e id hp =>
      cases h
      refine ⟨chain, hs.link hp rfl rfl (hs.opened hw hp (.inr rfl))
        (.inl rfl) hw (fun e' head hh => .inr ?_) trivial⟩
      cases hh
      rfl
    next => cases h
  | register =>
    simp only [UndoArea.linkStep] at h
    split at h
    next e id hp =>
      cases h
      exact ⟨chain, hs.register hw hp⟩
    next => cases h
  | exhausted =>
    simp only [UndoArea.linkStep] at h
    split at h
    next e id hp =>
      cases h
      exact ⟨chain, hs.refuse hw hp rfl (hs.opened hw hp (.inr rfl)) rfl⟩
    next => cases h

end

end UndoArea

end Graphus
