import Graphus.Lib.Dict
import Graphus.Lib.Run

/-!
# Bearer tokens

A token names a user and carries the credential epoch it was issued at. It is accepted while the
user of that name has no higher epoch. The epoch alone does not tell two accounts of one name apart
(`dropped_account_token_accepted`), nor a password that was cleared and set again from the first
one.

**Theorem (`accepted_of_separated`).** After every run whose calls are `Separated`, an accepted
token is of the account that carries the name, none of whose passwords has been replaced since the
token was issued, and which is not suspended.

A token of the account is no newer than its epoch, and older once a password has been replaced; a
token of another account of the name is older (`Inv`).
-/

namespace Graphus.Auth

open Function List

inductive AuthError where
  | unauthenticated
  | alreadyExists (what : String)
  | notFound (what : String)
  | weakPassword (detail : String)
  | passwordHash (detail : String)

structure User where
  passwordHash : Option String := none
  /-- The credential epoch. -/
  credentialVersion : Nat := 0
  suspended : Bool := false

/-- The users of the catalog. -/
abbrev Catalog := Dict String User

def minPasswordLen : Nat := 8

/-- The hash of a password that is long enough. `argon2` is what the hash function has answered for
the salt it was given. -/
def hashPassword (plaintext : String) (argon2 : Except String String) : Except AuthError String :=
  if plaintext.length < minPasswordLen then
    .error (.weakPassword
      ("password must be at least " ++ toString minPasswordLen ++ " characters"))
  else argon2.mapError .passwordHash

/-- `u64::saturating_add(1)`. -/
def saturatingSucc (n : Nat) : Nat := if n < 2 ^ 64 - 1 then n + 1 else n

namespace Catalog

variable (c : Catalog) (name : String)

/-- A change of the user of a name. -/
def modifyUser (f : User → User) : Except AuthError Catalog :=
  match c.lookup name with
  | some u => .ok (c.insert name (f u))
  | none => .error (.notFound ("user " ++ name))

def createUser : Except AuthError Catalog :=
  if name ∈ c then .error (.alreadyExists ("user " ++ name)) else .ok (c.insert name {})

def dropUser : Except AuthError Catalog :=
  if name ∈ c then .ok (c.erase name) else .error (.notFound ("user " ++ name))

def setUserPasswordHash (hash : Option String) : Except AuthError Catalog :=
  c.modifyUser name fun u => { u with passwordHash := hash }

def credentialVersion : Option Nat := (c.lookup name).map User.credentialVersion

def setUserSuspended (suspended : Bool) : Except AuthError Catalog :=
  c.modifyUser name fun u => { u with suspended }

def isUserSuspended : Bool := (c.lookup name).any User.suspended

def bumpCredentialVersion : Except AuthError Catalog :=
  c.modifyUser name fun u => { u with credentialVersion := saturatingSucc u.credentialVersion }

def setCredentialVersion (version : Nat) : Except AuthError Catalog :=
  c.modifyUser name fun u => { u with credentialVersion := version }

def renameUser (toName : String) : Except AuthError Catalog :=
  if name = toName then
    if name ∈ c then .ok c else .error (.notFound ("user " ++ name))
  else if toName ∈ c then .error (.alreadyExists ("user " ++ toName))
  else match c.lookup name with
    | some u => .ok ((c.erase name).insert toName u)
    | none => .error (.notFound ("user " ++ name))

/-- The epoch moves only when there was a password before. -/
def setPassword (plaintext : String) (argon2 : Except String String) : Except AuthError Catalog :=
  match c.lookup name with
  | none => .error (.notFound ("user " ++ name))
  | some u => do
    let hash ← hashPassword plaintext argon2
    let c ← c.setUserPasswordHash name (some hash)
    if u.passwordHash.isSome then c.bumpCredentialVersion name else return c

def clearPassword : Except AuthError Catalog := c.setUserPasswordHash name none

end Catalog

/-! ## The security file -/

structure UserRecord where
  name : String
  passwordHash : Option String
  credentialVersion : Nat
  suspended : Bool

/-- The users to be saved, in some order. -/
def toFile (c : Catalog) : List UserRecord :=
  c.entries.reverse.map fun e => ⟨e.1, e.2.passwordHash, e.2.credentialVersion, e.2.suspended⟩

def loadUser (c : Catalog) (u : UserRecord) : Except AuthError Catalog := do
  let c ← c.createUser u.name
  let c ← if u.passwordHash.isSome then c.setUserPasswordHash u.name u.passwordHash else .ok c
  let c ← c.setCredentialVersion u.name u.credentialVersion
  if u.suspended then c.setUserSuspended u.name true else .ok c

def loadInto (file : List UserRecord) (c : Catalog) : Except AuthError Catalog :=
    file.foldlM loadUser c

lemma loadInto_toFile (c : Catalog) : loadInto (toFile c) ∅ = .ok c := by
  induction c using AList.insertRec with
  | H0 => rfl
  | IH n u c hn ih =>
    rw [toFile, AList.entries_insert_of_notMem hn, reverse_cons, map_append, loadInto,
      foldlM_append]
    change (loadInto (toFile c) ∅).bind _ = _
    rw [ih]
    obtain ⟨hash, version, suspended⟩ := u
    cases hash <;> cases suspended <;>
      simp [Except.bind, bind, pure, Except.pure, loadUser, hn, Catalog.createUser,
        Catalog.modifyUser,
        Catalog.setUserPasswordHash, Catalog.setCredentialVersion, Catalog.setUserSuspended]

/-! ## Tokens -/

structure Claims where
  sub : String
  jti : String
  ver : Nat

structure Authenticator where
  catalog : Catalog := ∅
  revokedJtis : List String := []

namespace Authenticator

variable (a : Authenticator)

/-- The checks on a token whose signature is good. -/
def authenticateBearer (claims : Claims) : Except AuthError Claims :=
  match a.catalog.credentialVersion claims.sub with
  | none => .error .unauthenticated
  | some current =>
    if claims.ver < current then .error .unauthenticated
    else if claims.jti ∈ a.revokedJtis then .error .unauthenticated
    else if a.catalog.isUserSuspended claims.sub then .error .unauthenticated
    else .ok claims

/-- The token of a user. `jti` is the fresh identifier that it was given. -/
def issueToken (user jti : String) : Except AuthError Claims :=
  match a.catalog.credentialVersion user with
  | none => .error (.notFound ("user " ++ user))
  | some ver => .ok { sub := user, jti, ver }

def revokeToken (jti : String) : Authenticator := { a with revokedJtis := jti :: a.revokedJtis }

end Authenticator

/-! ## Histories -/

/-- A token that was issued, with the number of the account it was issued for and how many of the
account's passwords had been replaced by then. -/
structure Issued extends Claims where
  account : Nat
  replaced : Nat

/-- Each account has a number, which follows it through renames. -/
structure World extends Authenticator where
  issued : List Issued := []
  /-- The account that carries a name, or was the last to. -/
  owner : String → Nat := fun _ => 0
  created : Nat := 0
  hadPassword : Nat → Bool := fun _ => false
  replaced : Nat → Nat := fun _ => 0

inductive Call where
  | createUser (name : String)
  | dropUser (name : String)
  | renameUser (name toName : String)
  | setUserSuspended (name : String) (suspended : Bool)
  | setPassword (name plaintext : String) (argon2 : Except String String)
  | clearPassword (name : String)
  | issueToken (name jti : String)
  | revokeToken (jti : String)
  | reload

namespace World

/-- The world after an operation; one that fails changes nothing. -/
def after {α : Type} (w : World) (f : α → World) : Except AuthError α → World
  | .ok a => f a
  | .error _ => w

/-- The account sets a password. -/
def newPassword (w : World) (account : Nat) : World :=
  { w with
    hadPassword := update w.hadPassword account true
    replaced := update w.replaced account
      (if w.hadPassword account then w.replaced account + 1 else w.replaced account) }

/-- A call. A reload starts from the saved file with no token revoked. -/
def step (w : World) : Call → Option World
  | .createUser n => w.after (fun c =>
      { w with catalog := c, owner := update w.owner n w.created, created := w.created + 1 })
      (w.catalog.createUser n)
  | .dropUser n => w.after (fun c => { w with catalog := c }) (w.catalog.dropUser n)
  | .renameUser n n' =>
      w.after (fun c => { w with catalog := c, owner := update w.owner n' (w.owner n) })
      (w.catalog.renameUser n n')
  | .setUserSuspended n suspended => w.after (fun c => { w with catalog := c })
      (w.catalog.setUserSuspended n suspended)
  | .setPassword n plaintext argon2 =>
      w.after (fun c => { w with catalog := c }.newPassword (w.owner n))
      (w.catalog.setPassword n plaintext argon2)
  | .clearPassword n => w.after (fun c => { w with catalog := c }) (w.catalog.clearPassword n)
  | .issueToken n jti => w.after (fun claims =>
      { w with issued := ⟨claims, w.owner n, w.replaced (w.owner n)⟩ :: w.issued })
          (w.issueToken n jti)
  | .revokeToken jti => some { w with toAuthenticator := w.revokeToken jti }
  | .reload =>
      w.after (fun c => { w with catalog := c, revokedJtis := [] }) (loadInto (toFile w.catalog) ∅)

/-- Where the epoch of a name or of an account does not move by itself, no token of an earlier
account of the name or of an earlier password has reached it. -/
def Separated (w : World) : Call → Prop
  | .createUser n => ∀ i ∈ w.issued, i.sub ≠ n
  | .renameUser n n' =>
      ∀ u ∈ w.catalog.lookup n, ∀ i ∈ w.issued, i.sub = n' → i.account ≠ w.owner n →
      i.ver < u.credentialVersion
  | .setPassword n _ _ => ∀ u ∈ w.catalog.lookup n, w.hadPassword (w.owner n) →
      u.passwordHash = none ∨ 2 ^ 64 - 1 ≤ u.credentialVersion →
        ∀ i ∈ w.issued, i.account = w.owner n → i.ver < u.credentialVersion
  | _ => True

instance (w : World) (call : Call) : Decidable (w.Separated call) := by
  unfold Separated
  split <;> infer_instance

structure Inv (w : World) : Prop where
  below : ∀ {n u}, w.catalog.lookup n = some u → w.owner n < w.created
  distinct : ∀ {n n' u u'}, w.catalog.lookup n = some u → w.catalog.lookup n' = some u' →
    w.owner n = w.owner n' → n = n'
  password : ∀ {n u}, w.catalog.lookup n = some u → u.passwordHash.isSome →
    w.hadPassword (w.owner n)
  earlier : ∀ i ∈ w.issued, i.account < w.created
  own : ∀ i ∈ w.issued, ∀ {n u}, w.catalog.lookup n = some u → w.owner n = i.account →
    i.ver ≤ u.credentialVersion ∧ (w.replaced i.account ≠ i.replaced → i.ver < u.credentialVersion)
  other : ∀ i ∈ w.issued, ∀ {u}, w.catalog.lookup i.sub = some u → w.owner i.sub ≠ i.account →
    i.ver < u.credentialVersion

variable {w w' : World} {n n' : String} {u u' : User}

section

variable (h : Inv w)

include h

/-- The user of a name changes, and perhaps the account's passwords with it. -/
lemma Inv.modify (hu : w.catalog.lookup n = some u)
    (hle : u.credentialVersion ≤ u'.credentialVersion) {had : Nat → Bool} {rep : Nat → Nat}
    (hhad : ∀ a, w.hadPassword a → had a) (hset : u'.passwordHash.isSome → had (w.owner n))
    (hrep : ∀ a, a ≠ w.owner n → rep a = w.replaced a)
    (hold : ∀ i ∈ w.issued, i.account = w.owner n → rep (w.owner n) ≠ i.replaced →
      i.ver < u'.credentialVersion) :
    Inv { w with catalog := w.catalog.insert n u', hadPassword := had, replaced := rep } := by
  obtain ⟨hbelow, hdistinct, hpassword, hearlier, hown, hother⟩ := h
  constructor <;> dsimp only <;> grind [Dict.lookup_insert]

lemma Inv.create (hsep : ∀ i ∈ w.issued, i.sub ≠ n) : Inv { w with
      catalog := w.catalog.insert n {}, owner := update w.owner n w.created, created :=
        w.created + 1 } := by
  obtain ⟨hbelow, hdistinct, hpassword, hearlier, hown, hother⟩ := h
  constructor <;> dsimp only <;> grind [Dict.lookup_insert, update_apply]

lemma Inv.erase : Inv { w with catalog := w.catalog.erase n } := by
  obtain ⟨hbelow, hdistinct, hpassword, hearlier, hown, hother⟩ := h
  constructor <;> dsimp only <;> grind [Dict.lookup_erase]

lemma Inv.rename (hu : w.catalog.lookup n = some u)
    (hsep : ∀ i ∈ w.issued, i.sub = n' → i.account ≠ w.owner n → i.ver < u.credentialVersion) :
    Inv { w with
      catalog := (w.catalog.erase n).insert n' u
      owner := update w.owner n' (w.owner n) } := by
  obtain ⟨hbelow, hdistinct, hpassword, hearlier, hown, hother⟩ := h
  constructor <;> dsimp only <;> grind [Dict.lookup_insert, Dict.lookup_erase, update_apply]

lemma Inv.issue (hu : w.catalog.lookup n = some u) {jti : String} : Inv { w with
      issued :=
        ⟨⟨n, jti, u.credentialVersion⟩, w.owner n, w.replaced (w.owner n)⟩ :: w.issued } := by
  obtain ⟨hbelow, hdistinct, hpassword, hearlier, hown, hother⟩ := h
  constructor <;> dsimp only <;> grind

/-- A change that keeps the epoch and sets no password. -/
lemma Inv.keep {f : User → User} {c : Catalog} (hc : w.catalog.modifyUser n f = .ok c)
    (hver : ∀ u, (f u).credentialVersion = u.credentialVersion)
    (hset : ∀ u, (f u).passwordHash.isSome → u.passwordHash.isSome) :
    Inv { w with catalog := c } := by
  unfold Catalog.modifyUser at hc
  split at hc <;> cases hc
  rename_i u hu
  refine h.modify hu (Nat.le_of_eq (hver u).symm) (fun _ => id)
    (fun hp => h.password hu (hset u hp)) (fun _ _ => rfl) ?_
  intro i hi hacc hne
  exact hver u ▸ (h.own i hi hu hacc.symm).2 (hacc ▸ hne)

/-- The epoch moves unless `Separated` speaks of it. -/
lemma Inv.setPassword {plaintext : String} {argon2 : Except String String} {c : Catalog}
    (hsep : w.Separated (.setPassword n plaintext argon2))
    (hc : w.catalog.setPassword n plaintext argon2 = .ok c) :
    Inv ({ w with catalog := c }.newPassword (w.owner n)) := by
  unfold Catalog.setPassword at hc
  split at hc
  · cases hc
  rename_i u hu
  cases hh : hashPassword plaintext argon2 with
  | error e => simp [hh, bind, Except.bind] at hc
  | ok hash =>
    obtain rfl : w.catalog.insert n { u with
        passwordHash := some hash
        credentialVersion := if u.passwordHash.isSome then saturatingSucc u.credentialVersion
          else u.credentialVersion } = c := by
      cases hp : u.passwordHash <;>
        simp_all [bind, Except.bind, pure, Except.pure, Catalog.setUserPasswordHash,
          Catalog.bumpCredentialVersion, Catalog.modifyUser]
    have hown := fun i hi hacc => h.own i hi hu hacc
    refine h.modify hu ?_ ?_ ?_ ?_ ?_ <;> dsimp only [World.Separated] at hsep ⊢ <;>
      grind [saturatingSucc, update_apply, Option.isSome_iff_ne_none]

end

lemma Inv.after {α : Type} {f : α → World} {r : Except AuthError α} (h : Inv w)
    (hf : ∀ a, r = .ok a → Inv (f a)) : Inv (w.after f r) := by
  cases r with
  | ok a => exact hf a rfl
  | error e => exact h

lemma Inv.step (h : Inv w) {call : Call} (hsep : w.Separated call) (hs : w.step call = some w') :
    Inv w' := by
  cases call <;> cases hs
  case createUser n =>
    refine h.after fun c hc => ?_
    unfold Catalog.createUser at hc
    split at hc <;> cases hc
    exact h.create hsep
  case dropUser n =>
    refine h.after fun c hc => ?_
    unfold Catalog.dropUser at hc
    split at hc <;> cases hc
    exact h.erase
  case renameUser n n' =>
    refine h.after fun c hc => ?_
    unfold Catalog.renameUser at hc
    split at hc
    · rename_i heq
      split at hc <;> cases hc
      rw [← heq, update_eq_self]
      exact h
    split at hc
    · cases hc
    split at hc <;> cases hc
    rename_i u hu
    exact h.rename hu (hsep u hu)
  case setUserSuspended n suspended =>
    exact h.after fun c hc => h.keep hc (fun _ => rfl) fun _ => id
  case setPassword n plaintext argon2 => exact h.after fun c hc => h.setPassword hsep hc
  case clearPassword n => exact h.after fun c hc => h.keep hc (fun _ => rfl) fun _ hp => by cases hp
  case issueToken n jti =>
    refine h.after fun claims hc => ?_
    unfold Authenticator.issueToken at hc
    split at hc <;> cases hc
    rename_i hver
    obtain ⟨u, hu, rfl⟩ := Option.map_eq_some_iff.1 hver
    exact h.issue hu
  case revokeToken jti => exact { h with }
  case reload =>
    rw [loadInto_toFile]
    exact { h with }

/-- **A token is good only for its account and credentials**, after calls that are all separated. -/
theorem accepted_of_separated {tr : List Call} (hsep : Run.Along step Separated {} tr)
    (hrun : Run.exec step {} tr = some w) :
    ∀ i ∈ w.issued, ∀ claims, w.authenticateBearer i.toClaims = .ok claims →
      w.owner i.sub = i.account ∧ w.replaced i.account = i.replaced ∧
        ∃ u, w.catalog.lookup i.sub = some u ∧ u.suspended = false := by
  have hstart : Inv {} := by constructor <;> nofun
  have h := Run.exec_preserves (fun hi hc hs => Inv.step hi hc hs) hstart hsep hrun
  intro i hi claims hacc
  unfold Authenticator.authenticateBearer Catalog.isUserSuspended at hacc
  split at hacc
  · cases hacc
  rename_i hver
  obtain ⟨u, hu, rfl⟩ := Option.map_eq_some_iff.1 hver
  rw [hu] at hacc
  split_ifs at hacc with hold hjti hsusp
  have howner : w.owner i.sub = i.account := by
    by_contra hne
    exact hold (h.other i hi hu hne)
  refine ⟨howner, ?_, u, hu, Bool.eq_false_iff.2 hsusp⟩
  by_contra hne
  exact hold ((h.own i hi hu howner).2 hne)

/-- The password is replaced, and a token is issued after that. -/
def replacedPassword : List Call :=
  [.createUser "alice", .setPassword "alice" "password" (.ok "a"),
    .setPassword "alice" "passw0rd" (.ok "b"), .issueToken "alice" "t", .reload]

theorem accepted_after_replaced_password : ∃ w, Run.exec step {} replacedPassword = some w ∧
    w.authenticateBearer ⟨"alice", "t", 1⟩ = .ok ⟨"alice", "t", 1⟩ ∧
    w.replaced (w.owner "alice") = 1 := by
  have hrun : Run.exec step {} replacedPassword = some _ := rfl
  refine ⟨_, hrun, rfl, ?_⟩
  obtain ⟨howner, hreplaced, -⟩ := accepted_of_separated (by decide) hrun
    ⟨⟨"alice", "t", 1⟩, 0, 1⟩ mem_cons_self _ rfl
  exact (congrArg _ howner).trans hreplaced

/-- A user is dropped and another of that name created: the first one's token is accepted as the
second's. -/
theorem dropped_account_token_accepted : ∃ w, ∃ i ∈ w.issued,
    Run.exec step {}
    [.createUser "alice", .issueToken "alice" "t", .dropUser "alice", .createUser "alice"] =
      some w ∧ w.authenticateBearer i.toClaims = .ok i.toClaims ∧ w.owner i.sub ≠ i.account :=
  ⟨_, ⟨⟨"alice", "t", 0⟩, 0, 0⟩, mem_cons_self, rfl, rfl, Nat.one_ne_zero⟩

end World

end Graphus.Auth
