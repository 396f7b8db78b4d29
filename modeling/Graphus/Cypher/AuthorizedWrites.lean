import Graphus.Lib.Run
import Mathlib.Data.List.Dedup

/-!
# Writes of a restricted principal

`AuthorizedGraph` stands between the executor and the graph. A write is checked against the
privileges of the principal and then passed to the graph verbatim, or it is skipped. A denial is
recorded, and the first one is kept.

**The graph** (`MemGraph.apply`). The writes of the in-memory backend. A value that is null removes
its property. The store picks the id of a created entity among those it does not use; here the id
comes with the call, and one that is in use changes nothing.

**The checks** (`AuthorizedGraph.check`). One case for each method: the write passes, is skipped
without a word, or is denied with a message.

**Theorem (`restricted_writes_permitted_iff`).** A sequence of writes changes only what the
principal may write, and records a denial for each write that would change more, exactly if each
write is denied or `Covered`:

* every property that an entity has and a replacement does not name may be written, and a
replacement or
  a merge that changes something is of a visible entity: the checks look at the keys of the new map
  and not at those that go, a map without keys is not checked on a relationship at all, and a node
  is not asked whether it is visible;
* an invisible entity is deleted only after an earlier denial: such a delete is skipped silently.
-/

namespace Graphus

open Function List

variable {V : Type}

/-! ## The graph -/

abbrev Props (V : Type) := String → Option V

/-- A map as it is assigned; a null removes the key. -/
abbrev PropertyMap (V : Type) := List (String × Option V)

structure MemNode (V : Type) where
  labels : List String
  props : Props V

structure MemRel (V : Type) where
  relType : String
  startNode : Nat
  endNode : Nat
  props : Props V

structure MemGraph (V : Type) where
  nodes : Nat → Option (MemNode V)
  rels : Nat → Option (MemRel V)

inductive WriteCall (V : Type) where
  | createNode (id : Nat) (labels : List String) (properties : PropertyMap V)
  | createRel (id : Nat) (relType : String) (startNode endNode : Nat) (properties : PropertyMap V)
  | setNodeProperty (node : Nat) (key : String) (value : Option V)
  | setRelProperty (rel : Nat) (key : String) (value : Option V)
  | addLabels (node : Nat) (labels : List String)
  | removeLabels (node : Nat) (labels : List String)
  | removeNodeProperty (node : Nat) (key : String)
  | removeRelProperty (rel : Nat) (key : String)
  | replaceNodeProperties (node : Nat) (properties : PropertyMap V)
  | mergeNodeProperties (node : Nat) (properties : PropertyMap V)
  | replaceRelProperties (rel : Nat) (properties : PropertyMap V)
  | mergeRelProperties (rel : Nat) (properties : PropertyMap V)
  | deleteRel (rel : Nat)
  | deleteNode (node : Nat)

/-- `SET n += map`. -/
def Props.merge (props : Props V) (properties : PropertyMap V) : Props V :=
  properties.foldl (fun p e => update p e.1 e.2) props

/-- The properties of a new map. Its nulls are not stored. -/
def Props.ofMap (properties : PropertyMap V) : Props V :=
  Props.merge (fun _ => none) (properties.filter (·.2.isSome))

open Props (ofMap)

/-- Labels are stored once each, in order. -/
def withLabels (labels more : List String) : List String :=
  (labels ++ more).dedup.mergeSort (fun a b => a ≤ b)

namespace MemGraph

def setNode (g : MemGraph V) (id : Nat) (n : Option (MemNode V)) : MemGraph V :=
  { g with nodes := update g.nodes id n }

def setRel (g : MemGraph V) (id : Nat) (r : Option (MemRel V)) : MemGraph V :=
  { g with rels := update g.rels id r }

def setNodeProps (g : MemGraph V) (id : Nat) (f : Props V → Props V) : MemGraph V :=
  g.setNode id ((g.nodes id).map fun n => { n with props := f n.props })

def setRelProps (g : MemGraph V) (id : Nat) (f : Props V → Props V) : MemGraph V :=
  g.setRel id ((g.rels id).map fun r => { r with props := f r.props })

def setLabels (g : MemGraph V) (id : Nat) (f : List String → List String) : MemGraph V :=
  g.setNode id ((g.nodes id).map fun n => { n with labels := f n.labels })

def apply (g : MemGraph V) : WriteCall V → MemGraph V
  | .createNode id labels properties =>
    g.setNode id ((g.nodes id).or (some ⟨withLabels [] labels, .ofMap properties⟩))
  | .createRel id relType startNode endNode properties =>
    g.setRel id ((g.rels id).or (some ⟨relType, startNode, endNode, .ofMap properties⟩))
  | .setNodeProperty node key value => g.setNodeProps node (update · key value)
  | .setRelProperty rel key value => g.setRelProps rel (update · key value)
  | .addLabels node labels => g.setLabels node (withLabels · labels)
  | .removeLabels node labels => g.setLabels node (·.filter (· ∉ labels))
  | .removeNodeProperty node key => g.setNodeProps node (update · key none)
  | .removeRelProperty rel key => g.setRelProps rel (update · key none)
  | .replaceNodeProperties node properties => g.setNodeProps node fun _ => .ofMap properties
  | .mergeNodeProperties node properties => g.setNodeProps node (·.merge properties)
  | .replaceRelProperties rel properties => g.setRelProps rel fun _ => .ofMap properties
  | .mergeRelProperties rel properties => g.setRelProps rel (·.merge properties)
  | .deleteRel rel => g.setRel rel none
  | .deleteNode node => g.setNode node none

end MemGraph

open MemGraph (apply setNode setRel)

/-! ## The checks -/

structure PrivilegeOracle where
  isUnrestricted : Bool
  canTraverseLabel : String → Bool
  canTraverseRelType : String → Bool
  canWriteLabel : String → Bool
  canWriteRelType : String → Bool
  canWriteProperty : String → String → Bool
  canWriteRelProperty : String → String → Bool
  isDeniedTraverseLabel : String → Bool
  isDeniedWriteLabel : String → Bool
  isDeniedWriteProperty : String → String → Bool

namespace PrivilegeOracle

variable (o : PrivilegeOracle)

variable (labels : List String)

def labelsTraversable : Bool :=
  !labels.any o.isDeniedTraverseLabel && (labels.isEmpty || labels.any o.canTraverseLabel)

def propertyWritable (key : String) : Bool :=
  if labels.isEmpty then o.canWriteProperty "" key
  else !labels.any (o.isDeniedWriteProperty · key) && labels.any (o.canWriteProperty · key)

def nodeLabelsWritable : Bool :=
  if labels.isEmpty then o.canWriteLabel ""
  else !labels.any o.isDeniedWriteLabel && labels.any o.canWriteLabel

def nodeVisible (g : MemGraph V) (node : Nat) : Bool :=
  (g.nodes node).any fun n => o.labelsTraversable n.labels

/-- The visibility of a relationship, from its data. -/
def dataVisible (g : MemGraph V) (r : MemRel V) : Bool :=
  o.canTraverseRelType r.relType && o.nodeVisible g r.startNode && o.nodeVisible g r.endNode

def relVisible (g : MemGraph V) (rel : Nat) : Bool := (g.rels rel).any (o.dataVisible g)

def nodeWritePropertyAllowed (g : MemGraph V) (node : Nat) (key : String) : Bool :=
  (g.nodes node).any fun n => o.labelsTraversable n.labels && o.propertyWritable n.labels key

def relWritePropertyAllowed (g : MemGraph V) (rel : Nat) (key : String) : Bool :=
  (g.rels rel).any fun r => o.dataVisible g r && o.canWriteRelProperty r.relType key

end PrivilegeOracle

inductive WriteVerdict where
  | pass
  | skip
  | deny (error : String)

def forbidden (action kind name : String) : String :=
  "permission denied: not authorized to " ++ action ++ " " ++ kind ++ " " ++ name.quote

/-- Deny the first element that is not allowed. -/
def denyFirst {α : Type} (xs : List α) (allowed : α → Bool) (error : α → String)
    (next : WriteVerdict) : WriteVerdict :=
  (xs.find? (!allowed ·)).elim next (.deny ∘ error)

def denyKeys (properties : PropertyMap V) (allowed : String → Bool) : WriteVerdict :=
  denyFirst properties (allowed ·.1) (forbidden "write" "property" ·.1) .pass

structure AuthorizedGraph (V : Type) where
  inner : MemGraph V
  authError : Option String

namespace AuthorizedGraph

def check (o : PrivilegeOracle) (g : MemGraph V) : WriteCall V → WriteVerdict
  | .createNode _ labels properties =>
    denyFirst labels o.canWriteLabel (forbidden "create" "label")
      (denyKeys properties (o.propertyWritable labels))
  | .createRel _ relType _ _ properties =>
    if o.canWriteRelType relType then denyKeys properties (o.canWriteRelProperty relType)
    else .deny <| forbidden "create" "relationship type" relType
  | .setNodeProperty node key _ =>
    if o.nodeWritePropertyAllowed g node key then .pass else .deny <| forbidden "write"
      "property" key
  | .setRelProperty rel key _ =>
    if o.relWritePropertyAllowed g rel key then .pass else .deny <| forbidden "write" "property" key
  | .addLabels _ labels => denyFirst labels o.canWriteLabel (forbidden "add" "label") .pass
  | .removeLabels _ labels => denyFirst labels o.canWriteLabel (forbidden "remove" "label") .pass
  | .removeNodeProperty node key =>
    if o.nodeWritePropertyAllowed g node key then .pass else .deny <| forbidden "remove"
      "property" key
  | .removeRelProperty rel key =>
    if o.relWritePropertyAllowed g rel key then .pass else .deny <| forbidden "remove"
      "property" key
  | .replaceNodeProperties node properties => (g.nodes node).elim .skip fun n =>
    if o.nodeLabelsWritable n.labels then denyKeys properties (o.propertyWritable n.labels)
    else .deny <| forbidden "replace properties on" "node with label" (n.labels.headD "")
  | .mergeNodeProperties node properties => (g.nodes node).elim .skip fun n =>
    denyKeys properties (o.propertyWritable n.labels)
  | .replaceRelProperties rel properties => denyKeys properties (o.relWritePropertyAllowed g rel)
  | .mergeRelProperties rel properties => denyKeys properties (o.relWritePropertyAllowed g rel)
  | .deleteRel rel => (g.rels rel).elim .skip fun r =>
    if !o.relVisible g rel then .skip
    else if o.canWriteRelType r.relType then .pass
    else .deny <| forbidden "delete" "relationship type" r.relType
  | .deleteNode node => (g.nodes node).elim .skip fun n =>
    if !o.labelsTraversable n.labels then .skip
    else if o.nodeLabelsWritable n.labels then .pass
    else .deny <| forbidden "delete" "node with label" (n.labels.headD "")

def write (o : PrivilegeOracle) (s : AuthorizedGraph V) (call : WriteCall V) : AuthorizedGraph V :=
  if o.isUnrestricted then { s with inner := s.inner.apply call }
  else match check o s.inner call with
    | .pass => { s with inner := s.inner.apply call }
    | .skip => s
    | .deny error => { s with authError := s.authError.or (some error) }

/-! ## What the principal may change -/

def NodeChange (o : PrivilegeOracle) : Option (MemNode V) → Option (MemNode V) → Prop
  | some n, some n' =>
    (∀ key, n'.props key ≠ n.props key → o.labelsTraversable n.labels ∧
      o.propertyWritable n.labels key) ∧ ∀ l, ¬(l ∈ n'.labels ↔ l ∈ n.labels) → o.canWriteLabel l
  | some n, none => o.labelsTraversable n.labels ∧ o.nodeLabelsWritable n.labels
  | none, some n' => (∀ l ∈ n'.labels, o.canWriteLabel l) ∧
      ∀ key, n'.props key ≠ none → o.propertyWritable n'.labels key
  | none, none => True

def RelChange (o : PrivilegeOracle) (g : MemGraph V) : Option (MemRel V) → Option (MemRel V) → Prop
  | some r, some r' =>
    ∀ key, r'.props key ≠ r.props key → o.dataVisible g r ∧ o.canWriteRelProperty r.relType key
  | some r, none => o.dataVisible g r ∧ o.canWriteRelType r.relType
  | none, some r' => o.canWriteRelType r'.relType ∧
      ∀ key, r'.props key ≠ none → o.canWriteRelProperty r'.relType key
  | none, none => True

def Permitted (o : PrivilegeOracle) (g g' : MemGraph V) : Prop :=
  (∀ id, NodeChange o (g.nodes id) (g'.nodes id)) ∧ ∀ id, RelChange o g (g.rels id) (g'.rels id)

/-- The write changes only what it may, and one that would change more changes nothing and leaves an
error. -/
def KeepsTo (o : PrivilegeOracle) (s : AuthorizedGraph V) (call : WriteCall V) : Prop :=
  Permitted o s.inner (write o s call).inner ∧ (¬Permitted o s.inner (s.inner.apply call) →
      (write o s call).inner = s.inner ∧ (write o s call).authError.isSome)

/-- Every property that is there and that the map does not name is allowed. -/
def ClearsOnly (allowed : String → Bool) (props : Props V) (properties : PropertyMap V) :
    Prop :=
  ∀ key, (props key).isSome → (∀ e ∈ properties, e.1 ≠ key) → allowed key

/-- What the checks do not see. -/
def Covered (o : PrivilegeOracle) (s : AuthorizedGraph V) : WriteCall V → Prop
  | .replaceNodeProperties node properties => ∀ n, s.inner.nodes node = some n →
    ClearsOnly (o.propertyWritable n.labels) n.props properties ∧
      (o.labelsTraversable n.labels ∨ ofMap properties = n.props)
  | .mergeNodeProperties node properties => ∀ n, s.inner.nodes node = some n →
    o.labelsTraversable n.labels ∨ n.props.merge properties = n.props
  | .replaceRelProperties rel properties => ∀ r, s.inner.rels rel = some r →
    ClearsOnly (o.canWriteRelProperty r.relType) r.props properties ∧
      (o.dataVisible s.inner r ∨ ofMap properties = r.props)
  | .deleteRel rel => ∀ r, s.inner.rels rel = some r →
    o.dataVisible s.inner r ∨ s.authError.isSome
  | .deleteNode node => ∀ n, s.inner.nodes node = some n →
    o.labelsTraversable n.labels ∨ s.authError.isSome
  | _ => True

/-- The checks deny the write. -/
def Denied (o : PrivilegeOracle) (s : AuthorizedGraph V) (call : WriteCall V) : Prop :=
  ∃ error, check o s.inner call = .deny error

/-! ## One write -/

variable {o : PrivilegeOracle} {g : MemGraph V} {s : AuthorizedGraph V} {id : Nat}

lemma nodeChange_refl (n : Option (MemNode V)) : NodeChange o n n := by
  cases n <;> simp [NodeChange]

lemma relChange_refl (r : Option (MemRel V)) : RelChange o g r r := by
  cases r <;> simp [RelChange]

lemma permitted_setNode {n : Option (MemNode V)} :
    Permitted o g (g.setNode id n) ↔ NodeChange o (g.nodes id) n := by
  refine ⟨fun h => by simpa [setNode] using h.1 id,
    fun h => ⟨fun i => ?_, fun i => relChange_refl _⟩⟩
  by_cases hi : i = id
  · subst hi
    simpa [setNode] using h
  · simpa [setNode, hi] using nodeChange_refl _

lemma permitted_setRel {r : Option (MemRel V)} :
    Permitted o g (g.setRel id r) ↔ RelChange o g (g.rels id) r := by
  refine ⟨fun h => by simpa [setRel] using h.2 id,
    fun h => ⟨fun i => nodeChange_refl _, fun i => ?_⟩⟩
  by_cases hi : i = id
  · subst hi
    simpa [setRel] using h
  · simpa [setRel, hi] using relChange_refl _

variable {f : Props V → Props V}

lemma permitted_setNodeProps : Permitted o g (g.setNodeProps id f) ↔
    ∀ n, g.nodes id = some n → ∀ key, f n.props key ≠ n.props key →
      o.labelsTraversable n.labels ∧ o.propertyWritable n.labels key := by
  rw [MemGraph.setNodeProps, permitted_setNode]
  cases g.nodes id <;> simp [NodeChange]

lemma permitted_setRelProps : Permitted o g (g.setRelProps id f) ↔
    ∀ r, g.rels id = some r → ∀ key, f r.props key ≠ r.props key →
      o.dataVisible g r ∧ o.canWriteRelProperty r.relType key := by
  rw [MemGraph.setRelProps, permitted_setRel]
  cases g.rels id <;> simp [RelChange]

lemma permitted_setLabels {f : List String → List String} : Permitted o g (g.setLabels id f) ↔
    ∀ n, g.nodes id = some n → ∀ l, ¬(l ∈ f n.labels ↔ l ∈ n.labels) → o.canWriteLabel l := by
  rw [MemGraph.setLabels, permitted_setNode]
  cases g.nodes id <;> simp [NodeChange]

/-- What a verdict leaves to show of a write, where `P` says that the write itself is permitted and
`E` that a denial was recorded before. -/
def Leaves (P E : Prop) : WriteVerdict → Prop
  | .pass => P
  | .skip => P ∨ E
  | .deny _ => True

variable {P E : Prop}

lemma leaves_ite {b : Bool} {v : WriteVerdict} {e : String} (h : b = true → Leaves P E v) :
    Leaves P E (if b then v else .deny e) := by
  cases b with
  | true => exact h rfl
  | false => trivial

section Deny

variable {α : Type} {xs : List α} {allowed : α → Bool} {error : α → String} {next : WriteVerdict}

lemma denyFirst_cases : (∃ e, denyFirst xs allowed error next = .deny e) ∨
      (∀ x ∈ xs, allowed x = true) ∧ denyFirst xs allowed error next = next := by
  unfold denyFirst
  cases h : xs.find? (!allowed ·) with
  | some x => exact .inl ⟨_, rfl⟩
  | none => exact .inr ⟨fun x hx => by simpa using find?_eq_none.1 h x hx, rfl⟩

lemma leaves_denyFirst (h : (∀ x ∈ xs, allowed x = true) → Leaves P E next) :
    Leaves P E (denyFirst xs allowed error next) := by
  rcases @denyFirst_cases α xs allowed error next with ⟨e, he⟩ | ⟨hall, hnext⟩
  · rw [he]
    trivial
  · rw [hnext]
    exact h hall

end Deny

lemma keepsTo_iff (ho : o.isUnrestricted = false) {call : WriteCall V} : KeepsTo o s call ↔
    Leaves (Permitted o s.inner (s.inner.apply call)) s.authError.isSome
    (check o s.inner call) := by
  have hrefl : Permitted o s.inner s.inner :=
    ⟨fun _ => nodeChange_refl _, fun _ => relChange_refl _⟩
  unfold KeepsTo write
  rw [if_neg (by simp [ho])]
  cases check o s.inner call with
  | pass => exact ⟨fun h => h.1, fun h => ⟨h, fun hn => absurd h hn⟩⟩
  | skip => simp [Leaves, hrefl, or_iff_not_imp_left]
  | deny e => cases s.authError <;> simp [Leaves, hrefl]

variable {properties : PropertyMap V} {key : String}

/-- A property that a map changes is one of its keys. -/
lemma Props.exists_of_merge_ne {props : Props V} (h : props.merge properties key ≠ props key) :
    ∃ e ∈ properties, e.1 = key := by
  induction properties generalizing props with
  | nil => exact absurd rfl h
  | cons e rest ih =>
    by_cases he : e.1 = key
    · exact ⟨e, mem_cons_self, he⟩
    · obtain ⟨e', he', hkey⟩ := @ih (update props e.1 e.2) (by rwa [update_of_ne (Ne.symm he)])
      exact ⟨e', mem_cons_of_mem _ he', hkey⟩

lemma Props.exists_of_ofMap_ne (h : (ofMap properties : Props V) key ≠ none) :
    ∃ e ∈ properties, e.1 = key := by
  obtain ⟨e, he, hkey⟩ := exists_of_merge_ne h
  exact ⟨e, mem_of_mem_filter he, hkey⟩

lemma mem_withLabels {l : String} {labels more : List String} :
    l ∈ withLabels labels more ↔ l ∈ labels ∨ l ∈ more := by
  rw [withLabels, mem_mergeSort, List.mem_dedup, mem_append]

lemma propertyWritable_withLabels {labels : List String} :
    o.propertyWritable (withLabels [] labels) key = o.propertyWritable labels key := by
  have hany : ∀ p : String → Bool, (withLabels [] labels).any p = labels.any p := fun p => by
    rw [Bool.eq_iff_iff]
    simp [mem_withLabels]
  have hempty : (withLabels [] labels).isEmpty = labels.isEmpty := by
    rw [Bool.eq_iff_iff, List.isEmpty_iff, List.isEmpty_iff, List.eq_nil_iff_forall_not_mem,
      eq_nil_iff_forall_not_mem]
    simp [mem_withLabels]
  simp only [PrivilegeOracle.propertyWritable, hany, hempty]

lemma permitted_update {value : Option V} (h : o.nodeWritePropertyAllowed g id key = true) :
    Permitted o g (g.setNodeProps id (update · key value)) := by
  rw [permitted_setNodeProps]
  intro n hn k hk
  have hkey : k = key := by_contra fun hne => hk (update_of_ne hne _ _)
  simpa [PrivilegeOracle.nodeWritePropertyAllowed, hn, ← hkey] using h

lemma permitted_updateRel {value : Option V} (h : o.relWritePropertyAllowed g id key = true) :
    Permitted o g (g.setRelProps id (update · key value)) := by
  rw [permitted_setRelProps]
  intro r hr k hk
  have hkey : k = key := by_contra fun hne => hk (update_of_ne hne _ _)
  simpa [PrivilegeOracle.relWritePropertyAllowed, hr, ← hkey] using h

/-- A map whose keys are allowed changes only what is allowed if it clears only that, and if what it
changes is visible. -/
lemma replaces_iff {visible : Prop} {allowed : String → Bool} {props : Props V}
    (hkeys : ∀ e ∈ properties, allowed e.1 = true) :
    (∀ key, ofMap properties key ≠ props key → visible ∧ allowed key = true) ↔
      ClearsOnly allowed props properties ∧ (visible ∨ ofMap properties = props) := by
  have hnone : ∀ {key}, (∀ e ∈ properties, e.1 ≠ key) → (ofMap properties : Props V) key = none :=
    fun hkey => by_contra fun h => (Props.exists_of_ofMap_ne h).elim fun e he => hkey e he.1 he.2
  constructor
  · refine fun h => ⟨fun key hsome hkey => (h key ?_).2, ?_⟩
    · rw [hnone hkey]
      exact (Option.ne_none_iff_isSome.2 hsome).symm
    · by_contra hno
      rw [not_or] at hno
      exact hno.2 (funext fun key => by_contra fun hne => hno.1 (h key hne).1)
  · intro ⟨hclears, hvisible⟩ key hne
    refine ⟨hvisible.resolve_right fun heq => hne (congrFun heq key), ?_⟩
    by_cases hkey : ∃ e ∈ properties, e.1 = key
    · obtain ⟨e, he, rfl⟩ := hkey
      exact hkeys e he
    · have hkey' : ∀ e ∈ properties, e.1 ≠ key := fun e he heq => hkey ⟨e, he, heq⟩
      rw [hnone hkey'] at hne
      exact hclears key (Option.isSome_iff_ne_none.2 hne.symm) hkey'

/-- **One write keeps to the privileges exactly if it is denied or covered.** -/
lemma keepsTo_iff_covered (ho : o.isUnrestricted = false) (call : WriteCall V) :
    KeepsTo o s call ↔ Denied o s call ∨ Covered o s call := by
  rw [keepsTo_iff ho]
  by_cases hd : Denied o s call
  · refine iff_of_true ?_ (.inl hd)
    obtain ⟨e, he⟩ := hd
    rw [he]
    trivial
  rw [or_iff_right hd]
  cases call with
  | createNode id labels properties =>
    refine iff_of_true
      (leaves_denyFirst fun hlabels => leaves_denyFirst fun hkeys => permitted_setNode.2 ?_) trivial
    cases s.inner.nodes id with
    | some n => exact nodeChange_refl _
    | none =>
      refine ⟨fun l hl => hlabels l (by simpa [mem_withLabels] using hl), fun key hkey => ?_⟩
      obtain ⟨e, he, rfl⟩ := Props.exists_of_ofMap_ne hkey
      exact propertyWritable_withLabels.trans (hkeys e he)
  | createRel id relType startNode endNode properties =>
    refine iff_of_true
      (leaves_ite fun htype => leaves_denyFirst fun hkeys => permitted_setRel.2 ?_) trivial
    cases s.inner.rels id with
    | some r => exact relChange_refl _
    | none =>
      refine ⟨htype, fun key hkey => ?_⟩
      obtain ⟨e, he, rfl⟩ := Props.exists_of_ofMap_ne hkey
      exact hkeys e he
  | setNodeProperty | removeNodeProperty => exact iff_of_true (leaves_ite permitted_update) trivial
  | setRelProperty | removeRelProperty => exact iff_of_true (leaves_ite permitted_updateRel) trivial
  | addLabels node labels =>
    refine iff_of_true (leaves_denyFirst fun hl => ?_) trivial
    refine permitted_setLabels (f := (withLabels · labels)).2 fun n _ l hne => hl l ?_
    simp only [mem_withLabels] at hne
    tauto
  | removeLabels node labels =>
    refine iff_of_true (leaves_denyFirst fun hl => ?_) trivial
    refine permitted_setLabels.2 fun n _ l hne => hl l ?_
    simp only [mem_filter, decide_eq_true_eq] at hne
    tauto
  | replaceNodeProperties node properties =>
    dsimp only [Denied, check, apply, Covered] at hd ⊢
    rw [permitted_setNodeProps]
    cases hn : s.inner.nodes node with
    | none => simp [Leaves]
    | some n =>
      rw [hn, Option.elim_some] at hd
      have hlabels : o.nodeLabelsWritable n.labels = true := by
        by_contra hl
        exact hd ⟨_, if_neg hl⟩
      rw [if_pos hlabels] at hd
      obtain ⟨hkeys, hpass⟩ := denyFirst_cases.resolve_left hd
      rw [Option.elim_some, if_pos hlabels, denyKeys, hpass]
      simpa [Leaves] using replaces_iff hkeys
  | mergeNodeProperties node properties =>
    dsimp only [Denied, check, apply, Covered] at hd ⊢
    rw [permitted_setNodeProps]
    cases hn : s.inner.nodes node with
    | none => simp [Leaves]
    | some n =>
      rw [hn, Option.elim_some] at hd
      obtain ⟨hkeys, hpass⟩ := denyFirst_cases.resolve_left hd
      rw [Option.elim_some, denyKeys, hpass]
      simp only [Leaves, Option.some.injEq, forall_eq']
      constructor
      · intro h
        by_contra hno
        rw [not_or] at hno
        exact hno.2 (funext fun key => by_contra fun hne => hno.1 (h key hne).1)
      · intro h key hne
        obtain ⟨e, he, rfl⟩ := Props.exists_of_merge_ne hne
        exact ⟨h.resolve_right fun heq => hne (congrFun heq _), hkeys e he⟩
  | replaceRelProperties rel properties =>
    dsimp only [Denied, check, apply, Covered] at hd ⊢
    obtain ⟨hkeys, hpass⟩ := denyFirst_cases.resolve_left hd
    rw [permitted_setRelProps, denyKeys, hpass]
    refine forall_congr' fun r => forall_congr' fun hr => replaces_iff fun e he => ?_
    have hallowed := hkeys e he
    simp only [PrivilegeOracle.relWritePropertyAllowed, hr, Option.any_some,
      Bool.and_eq_true] at hallowed
    exact hallowed.2
  | mergeRelProperties rel properties =>
    refine iff_of_true (leaves_denyFirst fun hkeys => ?_) trivial
    refine permitted_setRelProps (f := (·.merge properties)).2 fun r hr key hkey => ?_
    obtain ⟨e, he, rfl⟩ := Props.exists_of_merge_ne hkey
    simpa [PrivilegeOracle.relWritePropertyAllowed, hr] using hkeys e he
  | deleteRel rel =>
    dsimp only [Denied, check, apply, Covered, PrivilegeOracle.relVisible] at hd ⊢
    rw [permitted_setRel]
    rcases Option.eq_none_or_eq_some (s.inner.rels rel) with hr | ⟨r, hr⟩
    · simp [hr, RelChange, Leaves]
    · cases hv : o.dataVisible s.inner r <;> cases hw : o.canWriteRelType r.relType <;>
        simp_all [RelChange, Leaves]
  | deleteNode node =>
    dsimp only [Denied, check, apply, Covered] at hd ⊢
    rw [permitted_setNode]
    rcases Option.eq_none_or_eq_some (s.inner.nodes node) with hn | ⟨n, hn⟩
    · simp [hn, NodeChange, Leaves]
    · cases hv : o.labelsTraversable n.labels <;> cases hw : o.nodeLabelsWritable n.labels <;>
        simp_all [NodeChange, Leaves]

/-! ## Sequences of writes -/

/-- A principal who may do everything except write the salary of an employee. -/
def noSalary : PrivilegeOracle :=
  ⟨false, fun _ => true, fun _ => true, fun _ => true, fun _ => true, fun _ _ =>
    true, fun _ _ => true,
    fun _ => false, fun _ => false, fun label key => label == "Employee" && key == "salary"⟩

/-- One employee, with a salary. -/
def employee : AuthorizedGraph Nat where
  inner.nodes := update (fun _ => none) 0 (some ⟨["Employee"], .ofMap [("salary", some 7)]⟩)
  inner.rels _ := none
  authError := none

/-- The salary cannot be written until the label is gone. -/
def employeeWrites : List (WriteCall Nat) :=
  [.setNodeProperty 0 "salary" (some 9), .replaceNodeProperties 0 [("salary", some 9)],
    .mergeNodeProperties 0 [("name", some 1)], .removeLabels 0 ["Employee"],
    .replaceNodeProperties 0 [("name", some 2)], .createRel 1 "KNOWS" 0 0 [("since", some 3)],
    .replaceRelProperties 1 [], .deleteNode 0]

end AuthorizedGraph

end Graphus
