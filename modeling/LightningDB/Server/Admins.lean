import LightningDB.Server.UserStore

/-!
# The last administrator

`update_user_handler` and `delete_user_handler` keep an administrator from disabling, demoting or
deleting oneself; nothing else stands between the store and a state without an administrator.  Whoever
acts was an enabled administrator when the request was authenticated, so the actor is the one who
remains, on two conditions that the code does not check: that the authority is the actor's own, and not
the role override of an API key, and that nobody acts on the actor while the request is running.

`admin_remains` says that these conditions are enough, in the table as well as in the cache; two
administrators who demote each other at the same time, and a key of a reader with the role override
`Admin`, leave neither an administrator (`no_admin_left`).

A request is a program of accesses to the store, as a call is; it authenticates, passes the check of the
role, and runs its handler.  The validation of an access token is a parameter.
-/

namespace LightningDB

open Framework AuthWorld Function List

/-! ## Requests -/

def Role.toText : Role → String
  | .reader => "reader"
  | .writer => "writer"
  | .admin => "admin"

/-- The requests on users that change their role, disable or delete them. -/
inductive AdminAction where
  | updateUser (userId : String) (role : Option String) (enabled : Option Bool)
  | deleteUser (userId : String)

/-- A request, with the token of its header. -/
structure AdminRequest where
  token : Option String
  action : AdminAction

def AdminRequest.userId (c : AdminRequest) : String :=
  match c.action with
  | .updateUser userId _ _ => userId
  | .deleteUser userId => userId

/-- `validate_access_token`: the subject of a token at a time. -/
abbrev ValidateToken := String → ℤ → Except String String

variable (H : Hashing) (validate : ValidateToken)

section Programs

open AuthStore Prog

/-- `authenticate_jwt`. -/
def authenticateJwt (token : String) : AuthM AuthenticatedUser := do
  let now : ℤ ← ask .now
  match validate token now with
  | .error e => fail e
  | .ok sub =>
    let found : Option User ← ask (.getUser sub)
    match found with
    | none => fail "user not found"
    | some user =>
      if !user.enabled then fail "user is disabled"
      else return ⟨user.id, user.username, user.role, .jwt⟩

/-- `auth_middleware`, in the mode in which users log in. -/
def authMiddleware : Option String → AuthM AuthenticatedUser
  | none => fail "authorization header required (Bearer token)"
  | some token => do
    let result ← attempt (authenticateJwt validate token)
    match result with
    | .ok user => return user
    | .error _ => authenticateApiKey H token

/-- `check_role`. -/
def checkRole (required : Role) (user : AuthenticatedUser) : Except String Unit :=
  if user.role.hasAtLeast required then .ok ()
  else
    .error ("insufficient permissions: required at least '" ++ required.toText ++ "', got '" ++
      user.role.toText ++ "'")

variable (auth : AuthenticatedUser) (userId : String)

/-- The checks of `update_user_handler` when users update themselves. -/
def checkSelf (role : Option String) (enabled : Option Bool) : Except String Unit :=
  if auth.userId = userId then
    if enabled = some false then .error "cannot disable yourself"
    else
      match role with
      | none => .ok ()
      | some r =>
        match Role.fromStr r with
        | .error e => .error e
        | .ok newRole =>
          if newRole.rank < Role.admin.rank then .error "cannot demote yourself below admin"
          else .ok ()
  else .ok ()

def parseRole : Option String → Except String (Option Role)
  | none => .ok none
  | some r => (Role.fromStr r).map some

/-- `update_user_handler`. -/
def updateUserHandler (role : Option String) (enabled : Option Bool) : AuthM Unit := do
  ret (checkSelf auth userId role enabled)
  let role ← ret (parseRole role)
  let _ ← updateUser userId role enabled
  return ()

/-- `delete_user_handler`. -/
def deleteUserHandler : AuthM Unit :=
  if auth.userId = userId then fail "cannot delete yourself" else deleteUser userId

def AdminAction.handler : AdminAction → AuthM Unit
  | .updateUser userId role enabled => updateUserHandler auth userId role enabled
  | .deleteUser userId => deleteUserHandler auth userId

def AdminRequest.program (c : AdminRequest) : AuthM Unit := do
  let auth ← authMiddleware H validate c.token
  ret (checkRole .admin auth)
  c.action.handler auth

end Programs

section Admins

def adminMachine : Machine Access Answer (Option String) AuthWorld AdminRequest ℕ String Unit where
  perform := perform H
  program := AdminRequest.program H validate
  begin _ w := some w
  elapse := (authMachine H).elapse
  restart := (authMachine H).restart

abbrev AdminPool := Pool Access Answer AuthWorld AdminRequest String Unit

def User.IsAdmin (u : User) : Prop := u.role = .admin ∧ u.enabled = true

instance (u : User) : Decidable u.IsAdmin := inferInstanceAs (Decidable (_ ∧ _))

/-- There is an administrator in the table and in the cache. -/
structure AuthWorld.HasAdmin (w : AuthWorld) : Prop where
  table : ∃ u ∈ w.db.users, u.IsAdmin
  cache : ∃ id x, w.cached id = some x ∧ x.IsAdmin

/-- Requests on a store that has been opened over tables with an administrator. -/
def adminSystem (db : AuthDb) : System AdminPool (PoolAction (Option String) AdminRequest ℕ) :=
  (adminMachine H validate).system fun w =>
    w.Opened H ∧ w.db = db ∧ (db.users.map User.id).Nodup ∧ ∃ u ∈ db.users, u.IsAdmin

/-! ## The conditions -/

variable (db : AuthDb) (c : AdminRequest) (id : String)

/-- The users as whom a request may act: the subject of its token, and the owner of its key. -/
def AdminRequest.Subject : Prop :=
  ∃ token, c.token = some token ∧
    ((∃ now, validate token now = .ok id) ∨
      ∃ k ∈ db.apiKeys, k.keyHash = H.hmac token ∧ k.userId = id)

/-- A request does not act on the user of another one, nor on whom that one acts as. -/
def AdminRequest.Apart (c d : AdminRequest) : Prop :=
  c.userId ≠ d.userId ∧ ¬ d.Subject H validate db c.userId

/-- The owner of a key that overrides the role with `Admin` is an administrator. -/
def AdminRequest.OwnAuthority (w : AuthWorld) : Prop :=
  ∀ token k, c.token = some token → k ∈ db.apiKeys → k.keyHash = H.hmac token →
    k.roleOverride = some .admin → ∀ u, w.cached k.userId = some u → u.role = .admin

/-- The condition on the steps of a run. -/
def AdminOk (s : AdminPool) : PoolAction (Option String) AdminRequest ℕ → Prop
  | .invoke c =>
    (∀ n d p, s.running n = some (d, p) →
      c.Apart H validate db d ∧ d.Apart H validate db c) ∧ c.OwnAuthority H db s.shared
  | .access _ _ => True
  | .finish _ => True
  | .elapse _ => True
  | .restart => False

/-! ## What a request guarantees -/

/-- The invariant of the requests. -/
structure AdminInv (w : AuthWorld) : Prop where
  keyed : ∀ id x, w.cached id = some x → x.id = id
  keys : ∀ h k, w.store.apiKeysCache.lookup h = some k → k ∈ db.apiKeys ∧ k.keyHash = h
  hasAdmin : w.HasAdmin

/-- A user is the same in the table and in the cache. -/
def Steady (w : AuthWorld) : Prop := View id (w.cached id) w

/-- A user is as before. -/
def SameAt (w w' : AuthWorld) : Prop :=
  w'.userRows id = w.userRows id ∧ w'.cached id = w.cached id

/-- A step of a request is on its user only. -/
structure AdminGuar (c : AdminRequest) (w w' : AuthWorld) : Prop where
  others : ∀ id, id ≠ c.userId → SameAt id w w'
  inv : AdminInv db w → AdminInv db w'

/-- A request relies on its user and on whom it acts as. -/
def AdminRely (w w' : AuthWorld) : Prop :=
  ∀ id, id = c.userId ∨ c.Subject H validate db id → SameAt id w w'

variable {H validate db} in
lemma AdminRely.trans {c : AdminRequest} {w w' w'' : AuthWorld} (h : AdminRely H validate db c w w')
    (h' : AdminRely H validate db c w' w'') : AdminRely H validate db c w w'' := fun id hid =>
  ⟨(h' id hid).1.trans (h id hid).1, (h' id hid).2.trans (h id hid).2⟩

def adminDiscipline : Discipline (adminMachine H validate) where
  inv := AdminInv db
  apart c d := c.Apart H validate db d
  begun _ _ := True
  may _ _ _ _ := True
  rely := AdminRely H validate db
  guar := AdminGuar db
  post _ _ _ _ := True
  final _ c _ w := Steady c.userId w
  rely_refl _ _ _ _ := ⟨rfl, rfl⟩
  rely_trans := AdminRely.trans
  inv_of_guar hw hg := hg.inv hw
  rely_of_guar hapart _ hg id hid := by
    refine hg.others id fun heq => ?_
    rcases hid with rfl | hsubject
    · exact hapart.1 heq.symm
    · exact hapart.2 (heq ▸ hsubject)
  begun_of_guar _ _ := trivial
  post_of_guar _ _ _ := trivial
  post_of_final _ _ := trivial

variable {H validate db} {c : AdminRequest} {w w' : AuthWorld} {id : String}

lemma Steady.of_same (h : Steady id w) (hs : SameAt id w w') : Steady id w' :=
  ⟨rfl, by rw [hs.1, h.2, hs.2]⟩

/-- An administrator, in the table and in the cache. -/
def AdminAt (id : String) (w : AuthWorld) : Prop := ∃ u, View id (some u) w ∧ u.IsAdmin

lemma AdminAt.of_same (h : AdminAt id w) (hs : SameAt id w w') : AdminAt id w' := by
  obtain ⟨u, hview, hadmin⟩ := h
  exact ⟨u, ⟨hs.2.trans hview.1, hs.1.trans hview.2⟩, hadmin⟩

lemma Steady.of_rely (h : Steady c.userId w) (hr : AdminRely H validate db c w w') :
    Steady c.userId w' :=
  h.of_same (hr c.userId (.inl rfl))

lemma AdminAt.of_rely (h : AdminAt id w) (hsubject : c.Subject H validate db id)
    (hr : AdminRely H validate db c w w') : AdminAt id w' :=
  h.of_same (hr id (.inr hsubject))

lemma mem_users_of_view {u : User} (h : w.userRows id = (some u).toList) : u ∈ w.db.users := by
  have hmem : u ∈ w.userRows id := by rw [h]; exact mem_singleton_self u
  exact (mem_filter.1 hmem).1

lemma AdminAt.table (h : AdminAt id w) : ∃ u ∈ w.db.users, u.IsAdmin := by
  obtain ⟨u, hview, hadmin⟩ := h
  exact ⟨u, mem_users_of_view hview.2, hadmin⟩

lemma AdminAt.cache (h : AdminAt id w) : ∃ id x, w.cached id = some x ∧ x.IsAdmin := by
  obtain ⟨u, hview, hadmin⟩ := h
  exact ⟨id, u, hview.1, hadmin⟩

/-! ## The accesses -/

lemma adminGuar_table (hcache : w'.store.usersCache = w.store.usersCache)
    (hkeys : ∀ h k, w'.store.apiKeysCache.lookup h = some k → w.store.apiKeysCache.lookup h = some k)
    (hothers : ∀ id, id ≠ c.userId → w'.userRows id = w.userRows id)
    (hadmin : w.HasAdmin → ∃ u ∈ w'.db.users, u.IsAdmin) : AdminGuar db c w w' := by
  have hcached : ∀ id, w'.cached id = w.cached id := fun id => by rw [cached, hcache, cached]
  exact
    { others := fun id hne => ⟨hothers id hne, hcached id⟩
      inv := fun hw =>
        { keyed := fun id x hx => hw.keyed id x (hcached id ▸ hx)
          keys := fun h k hk => hw.keys h k (hkeys h k hk)
          hasAdmin :=
            { table := hadmin hw.hasAdmin
              cache := by
                obtain ⟨id, x, hx, hx'⟩ := hw.hasAdmin.cache
                exact ⟨id, x, (hcached id).trans hx, hx'⟩ } } }

lemma adminGuar_of_same (h : SameUsers w w')
    (hkeys : ∀ h k, w'.store.apiKeysCache.lookup h = some k → w.store.apiKeysCache.lookup h = some k) :
    AdminGuar db c w w' :=
  adminGuar_table h.cache hkeys (fun id _ => h.rows_eq id) fun hadmin => h.users ▸ hadmin.table

variable {x : Option User}

lemma sameAt_of_write {id' : String} (h : CacheOnly id x w w') (hne : id' ≠ id) :
    SameAt id' w w' := ⟨by rw [userRows, h.users, userRows], h.others id' hne⟩

lemma adminGuar_cache (h : CacheOnly c.userId x w w')
    (hkeys : w'.store.apiKeysCache = w.store.apiKeysCache)
    (hkeyed : ∀ u, x = some u → u.id = c.userId)
    (hadmin : ∃ id x, w'.cached id = some x ∧ x.IsAdmin) : AdminGuar db c w w' where
  others _ := sameAt_of_write h
  inv hw :=
    { keyed := by
        intro id y hy
        by_cases heq : id = c.userId
        · rw [heq, h.entry] at hy
          rw [heq, hkeyed y hy]
        · exact hw.keyed id y (h.others id heq ▸ hy)
      keys := by rw [hkeys]; exact hw.keys
      hasAdmin := ⟨by rw [h.users]; exact hw.hasAdmin.table, hadmin⟩ }

lemma steady_of_write (h : CacheOnly id x w w') (hrows : w.userRows id = x.toList) :
    Steady id w' := by
  rw [Steady, h.entry]
  exact ⟨h.entry, by rw [userRows, h.users]; exact hrows⟩

section Leads

open AuthStore

variable {α : Type} {last : AuthPost α}

variable {a : Access} {token : String} {role : Option Role} {k : Answer a → AuthM α}

lemma admin_read (hsame : ∀ w₁ i, (perform H a i w₁).2 = w₁)
    (hk : ∀ w₁ i, AdminRely H validate db c w w₁ → AdminInv db w₁ →
      (adminDiscipline H validate db).Leads c last (k (perform H a i w₁).1) w₁) :
    (adminDiscipline H validate db).Leads c last (ask a >>= k) w := by
  intro w₁ i h₁ hinv₁ _
  have hstep : ((adminMachine H validate).perform a i w₁).2 = w₁ := hsame w₁ i
  rw [hstep]
  exact ⟨adminGuar_of_same .others fun _ _ hk => hk, hk w₁ i h₁ hinv₁⟩

lemma admin_ask (hsame : ∀ w₁ i, SameUsers w₁ (perform H a i w₁).2)
    (hkeys : ∀ w₁ i h k, (perform H a i w₁).2.store.apiKeysCache.lookup h = some k →
      w₁.store.apiKeysCache.lookup h = some k)
    (hk : ∀ w₁ x, AdminRely H validate db c w w₁ →
      (adminDiscipline H validate db).Leads c last (k x) w₁) :
    (adminDiscipline H validate db).Leads c last (ask a >>= k) w :=
  .perform (fun w₁ i _ _ _ => ⟨adminGuar_of_same (hsame w₁ i) (hkeys w₁ i),
    fun id _ => ⟨(hsame w₁ i).rows_eq id, (hsame w₁ i).cached_eq id⟩⟩) fun _ _ h₁ _ => hk _ _ h₁

variable {q : AuthStatement} {context : String}

lemma admin_execute {k : Unit → AuthM α}
    (herror : ∀ e w₁, AdminRely H validate db c w w₁ → last (.error e) w₁)
    (hguar : ∀ w₁, AdminRely H validate db c w w₁ → AdminInv db w₁ →
      AdminGuar db c w₁ (perform H (.execute q) none w₁).2)
    (hk : ∀ w₁, AdminRely H validate db c w w₁ → AdminInv db w₁ →
      (adminDiscipline H validate db).Leads c last (k ())
        (perform H (.execute q) none w₁).2) :
    (adminDiscipline H validate db).Leads c last (execute q context >>= k) w := by
  intro w₁ i h₁ hinv₁ _
  cases i with
  | none => exact ⟨hguar w₁ h₁ hinv₁, hk w₁ h₁ hinv₁⟩
  | some e =>
    refine ⟨adminGuar_of_same .others fun _ _ hk => hk, fun w₂ h₂ _ => ?_⟩
    exact herror _ w₂ (h₁.trans h₂)

lemma admin_executeSame {k : Unit → AuthM α}
    (hsame : ∀ w₁, SameUsers w₁ (perform H (.execute q) none w₁).2)
    (herror : ∀ e w₁, AdminRely H validate db c w w₁ → last (.error e) w₁)
    (hk : ∀ w₁, AdminRely H validate db c w w₁ →
      (adminDiscipline H validate db).Leads c last (k ()) w₁) :
    (adminDiscipline H validate db).Leads c last (execute q context >>= k) w :=
  admin_execute herror (fun w₁ _ _ => adminGuar_of_same (hsame w₁) fun _ _ hk => hk) fun w₁ h₁ _ =>
    hk _ (h₁.trans fun id _ => ⟨(hsame w₁).rows_eq id, (hsame w₁).cached_eq id⟩)

/-- What is known when a request begins: its user and whom it acts as are steady, and its authority is
its own. -/
structure Authority (H : Hashing) (validate : ValidateToken) (db : AuthDb) (c : AdminRequest)
    (w : AuthWorld) : Prop where
  steady : ∀ id, id = c.userId ∨ c.Subject H validate db id → Steady id w
  own : c.OwnAuthority H db w

lemma Authority.of_rely (h : Authority H validate db c w) (hr : AdminRely H validate db c w w') :
    Authority H validate db c w' where
  steady id hid := (h.steady id hid).of_same (hr id hid)
  own token k htoken hk hhash hrole u hu := by
    refine h.own token k htoken hk hhash hrole u ?_
    rw [← (hr k.userId (.inr ⟨token, htoken, .inr ⟨k, hk, hhash, rfl⟩⟩)).2]
    exact hu

/-- What authentication says: whom the request acts as, and that it is an administrator if it passes the
check of the role. -/
def ActsAs (H : Hashing) (validate : ValidateToken) (db : AuthDb) (c : AdminRequest)
    (auth : AuthenticatedUser) (w : AuthWorld) : Prop :=
  c.Subject H validate db auth.userId ∧ (auth.role = .admin → AdminAt auth.userId w)

variable {u : User} {auth : AuthenticatedUser} {enabled : Option Bool}

lemma Authority.actsAs (h : Authority H validate db c w)
    (hw : AdminInv db w) (hid : c.Subject H validate db id) (hu : w.cached id = some u)
    (henabled : u.enabled = true) (hauth : auth.userId = u.id)
    (hrole : auth.role = .admin → u.role = .admin) : ActsAs H validate db c auth w := by
  have hkey : auth.userId = id := hauth.trans (hw.keyed id u hu)
  have hsteady := h.steady id (.inr hid)
  rw [Steady, hu] at hsteady
  exact ⟨hkey ▸ hid, fun hadmin => ⟨u, hkey ▸ hsteady, hrole hadmin, henabled⟩⟩

lemma leads_checkHash {hash notIssued revoked : String}
    {last : AuthPost Unit} (h : Authority H validate db c w)
    (hlast : ∀ r w', Authority H validate db c w' → last r w') :
    (adminDiscipline H validate db).Leads c last (checkHash hash notIssued revoked) w := by
  refine admin_read (fun _ _ => rfl) fun w₁ i₁ h₁ _ => ?_
  have hauth₁ := h.of_rely h₁
  split
  · exact fun w₂ h₂ _ => hlast _ w₂ (hauth₁.of_rely h₂)
  · refine admin_read (fun _ _ => rfl) fun w₂ i₂ h₂ _ => ?_
    have hauth₂ := hauth₁.of_rely h₂
    split
    · exact fun w₃ h₃ _ => hlast _ w₃ (hauth₂.of_rely h₃)
    · exact fun w₃ h₃ _ => hlast _ w₃ (hauth₂.of_rely h₃)

lemma cached_of_enabledUser {i : Option String} (hw : AdminInv db w)
    (h : (perform H (.enabledUser id) i w).1 = some u) :
    w.cached id = some u ∧ u.enabled = true := by
  obtain ⟨hlookup, rfl, henabled⟩ := lookup_of_enabledUser hw.keyed h
  exact ⟨hlookup, henabled⟩

section Authentication

variable {last : AuthPost AuthenticatedUser}
  (herror : ∀ e w', Authority H validate db c w' → last (.error e) w')
  (hok : ∀ auth w', Authority H validate db c w' → ActsAs H validate db c auth w' → last (.ok auth) w')

include herror hok

lemma leads_authenticateJwt (htoken : c.token = some token) (h : Authority H validate db c w) :
    (adminDiscipline H validate db).Leads c last (authenticateJwt validate token) w := by
  refine admin_read (fun _ _ => rfl) fun w₁ i₁ h₁ _ => ?_
  have hauth₁ := h.of_rely h₁
  cases hsub : validate token (perform H .now i₁ w₁).1 with
  | error e => exact fun w₂ h₂ _ => herror e w₂ (hauth₁.of_rely h₂)
  | ok sub =>
    have hsubject : c.Subject H validate db sub := ⟨token, htoken, .inl ⟨_, hsub⟩⟩
    refine admin_read (fun _ _ => rfl) fun w₂ i₂ h₂ hinv₂ => ?_
    have hauth₂ := hauth₁.of_rely h₂
    cases hfound : (perform H (.getUser sub) i₂ w₂).1 with
    | none => exact fun w₃ h₃ _ => herror _ w₃ (hauth₂.of_rely h₃)
    | some user =>
      dsimp only
      split
      · exact fun w₃ h₃ _ => herror _ w₃ (hauth₂.of_rely h₃)
      next henabled =>
        refine fun w₃ h₃ hinv₃ => hok _ w₃ (hauth₂.of_rely h₃) ?_
        have hcached : w₃.cached sub = some user :=
          (h₃ sub (.inr hsubject)).2.trans hfound
        exact (hauth₂.of_rely h₃).actsAs hinv₃ hsubject hcached (by simpa using henabled) rfl
          fun hrole => hrole

lemma leads_authenticateApiKey (htoken : c.token = some token) (h : Authority H validate db c w) :
    (adminDiscipline H validate db).Leads c last (authenticateApiKey H token) w := by
  refine .bind (leads_checkHash h fun r w₁ hauth₁ => ?_)
  cases r with
  | error e => exact herror e w₁ hauth₁
  | ok _ =>
    refine admin_read (fun _ _ => rfl) fun w₂ i₂ h₂ _ => ?_
    have hauth₂ := hauth₁.of_rely h₂
    refine admin_read (fun _ _ => rfl) fun w₃ i₃ h₃ hinv₃ => ?_
    have hauth₃ := hauth₂.of_rely h₃
    cases hfound : (perform H (.getApiKey (H.hmac token)) i₃ w₃).1 with
    | none => exact fun w₄ h₄ _ => herror _ w₄ (hauth₃.of_rely h₄)
    | some stored =>
      obtain ⟨hmem, hhash⟩ := hinv₃.keys _ stored hfound
      have hsubject : c.Subject H validate db stored.userId :=
        ⟨token, htoken, .inr ⟨stored, hmem, hhash, rfl⟩⟩
      dsimp only
      split
      · exact fun w₄ h₄ _ => herror _ w₄ (hauth₃.of_rely h₄)
      refine admin_read (fun _ _ => rfl) fun w₄ i₄ h₄ hinv₄ => ?_
      have hauth₄ := hauth₃.of_rely h₄
      cases hfound' : (perform H (.enabledUser stored.userId) i₄ w₄).1 with
      | none => exact fun w₅ h₅ _ => herror _ w₅ (hauth₄.of_rely h₅)
      | some user =>
        refine fun w₅ h₅ hinv₅ => hok _ w₅ (hauth₄.of_rely h₅) ?_
        obtain ⟨hcached₄, henabled⟩ := cached_of_enabledUser hinv₄ hfound'
        have hcached₅ := (h₅ stored.userId (.inr hsubject)).2.trans hcached₄
        refine (hauth₄.of_rely h₅).actsAs hinv₅ hsubject hcached₅ henabled rfl fun hrole => ?_
        cases hoverride : stored.roleOverride with
        | none => rwa [hoverride] at hrole
        | some role =>
          rw [hoverride] at hrole
          cases hrole
          exact hauth₄.own token stored htoken hmem hhash hoverride user hcached₄

lemma leads_authMiddleware (h : Authority H validate db c w) :
    (adminDiscipline H validate db).Leads c last (authMiddleware H validate c.token) w := by
  cases htoken : c.token with
  | none => exact fun w₁ h₁ _ => herror _ w₁ (h.of_rely h₁)
  | some token =>
    refine .bind (.attempt (leads_authenticateJwt ?_ ?_ htoken h))
    · exact fun e w₁ hauth₁ => leads_authenticateApiKey herror hok htoken hauth₁
    · intro auth w₁ hauth₁ hacts w₂ h₂ _
      refine hok auth w₂ (hauth₁.of_rely h₂) ⟨hacts.1, fun hrole => ?_⟩
      exact (hacts.2 hrole).of_rely hacts.1 h₂

end Authentication

def updatedUser (role : Option Role) (enabled : Option Bool) (u : User) : User :=
  { u with role := role.getD u.role, enabled := enabled.getD u.enabled }

lemma isAdmin_updatedUser (h : u.IsAdmin) (henabled : enabled ≠ some false)
    (hrole : ∀ r, role = some r → r = .admin) : (updatedUser role enabled u).IsAdmin := by
  constructor
  · cases role with
    | none => exact h.1
    | some r => exact hrole r rfl
  · cases enabled with
    | none => exact h.2
    | some b =>
      cases b with
      | false => exact absurd rfl henabled
      | true => rfl

lemma leads_replaceUser {u' : User} {α : Type} {r : Except String α}
    {last : AuthPost α} (hsubject : c.Subject H validate db auth.userId)
    (hcached : w.cached c.userId = some u) (hid : u'.id = u.id)
    (hrows : w.userRows c.userId = (some u').toList)
    (hother : auth.userId ≠ c.userId → AdminAt auth.userId w)
    (hself : auth.userId = c.userId → u'.IsAdmin) (hlast : ∀ w', Steady c.userId w' → last r w') :
    (adminDiscipline H validate db).Leads c last
      (ask (.replaceUser c.userId u') >>= fun _ => Prog.ret r) w := by
  intro w₁ i₁ h₁ hinv₁ _
  have hcached₁ := (h₁ c.userId (.inl rfl)).2.trans hcached
  have hrows₁ := (h₁ c.userId (.inl rfl)).1.trans hrows
  have hwrite : CacheOnly c.userId (some u') w₁
      (perform H (.replaceUser c.userId u') i₁ w₁).2 :=
    cacheOnly_insert rfl rfl (fun _ => Iff.rfl) rfl
  refine ⟨adminGuar_cache hwrite rfl ?_ ?_, fun w₂ h₂ _ => hlast w₂ ?_⟩
  · intro x hx
    cases hx
    exact hid.trans (hinv₁.keyed _ u hcached₁)
  · by_cases heq : auth.userId = c.userId
    · exact ⟨c.userId, u', hwrite.entry, hself heq⟩
    · have hadmin₁ := (hother heq).of_rely hsubject h₁
      exact (hadmin₁.of_same (sameAt_of_write hwrite heq)).cache
  · exact (steady_of_write hwrite hrows₁).of_rely h₂

/-- `update_user` by an administrator who stays one. -/
lemma leads_adminUpdate {last : AuthPost User} (hsubject : c.Subject H validate db auth.userId)
    (hadmin : AdminAt auth.userId w) (hsteady : Steady c.userId w)
    (hself : auth.userId = c.userId → enabled ≠ some false ∧ ∀ r, role = some r → r = .admin)
    (hlast : ∀ r w', Steady c.userId w' → last r w') :
    (adminDiscipline H validate db).Leads c last (updateUser c.userId role enabled) w := by
  refine admin_read (fun _ _ => rfl) fun w₁ i₁ h₁ _ => ?_
  have hsteady₁ := hsteady.of_rely h₁
  have hadmin₁ := hadmin.of_rely hsubject h₁
  cases hfound : (perform H (.getUser c.userId) i₁ w₁).1 with
  | none => exact fun w₂ h₂ _ => hlast _ w₂ (hsteady₁.of_rely h₂)
  | some u =>
    have hcached₁ : w₁.cached c.userId = some u := hfound
    have hrows₁ : w₁.userRows c.userId = (some u).toList := hcached₁ ▸ hsteady₁.2
    have hupdated : auth.userId = c.userId → (updatedUser role enabled u).IsAdmin := by
      intro heq
      obtain ⟨x, hx, hx'⟩ := hadmin₁
      rw [heq, View, hcached₁, Option.some.injEq] at hx
      exact isAdmin_updatedUser (hx.1 ▸ hx') (hself heq).1 (hself heq).2
    -- the row of the actor when the row of somebody else is written
    have hsame : ∀ w₂ : AuthWorld, auth.userId ≠ c.userId → SameAt auth.userId w₂
        (perform H (.execute (.setUser c.userId role enabled)) none w₂).2 :=
      fun w₂ hne =>
        ⟨userRows_setRow_of_ne (f := updatedUser role enabled) rfl (fun _ => rfl) hne, rfl⟩
    have hset : ∀ w₂ : AuthWorld, AdminRely H validate db c w₁ w₂ →
        (perform H (.execute (.setUser c.userId role enabled)) none w₂).2.userRows c.userId =
          (some (updatedUser role enabled u)).toList := fun w₂ h₂ =>
      userRows_setRow (f := updatedUser role enabled) rfl (fun _ => rfl)
        ((h₂ c.userId (.inl rfl)).1.trans hrows₁)
    dsimp only
    split
    · refine admin_execute (fun e w₂ h₂ => hlast _ w₂ (hsteady₁.of_rely h₂))
        (fun w₂ h₂ _ => ?_) fun w₂ h₂ _ => ?_
      · refine adminGuar_table rfl (fun _ _ hk => hk) ?_ fun _ => ?_
        · exact fun id hne => userRows_setRow_of_ne rfl (fun _ => by rfl) hne
        · by_cases heq : auth.userId = c.userId
          · exact ⟨updatedUser role enabled u, mem_users_of_view (hset w₂ h₂), hupdated heq⟩
          · exact ((hadmin₁.of_rely hsubject h₂).of_same (hsame w₂ heq)).table
      · refine leads_replaceUser (u := u) hsubject ?_ rfl (hset w₂ h₂) ?_ hupdated (hlast _)
        · exact (h₂ c.userId (.inl rfl)).2.trans hcached₁
        · exact fun hne => (hadmin₁.of_rely hsubject h₂).of_same (hsame w₂ hne)
    next hnone =>
      have hrows : w₁.userRows c.userId = (some (updatedUser role enabled u)).toList :=
        hrows₁.trans (congrArg (fun u => (some u).toList) (updated_eq_self hnone).symm)
      exact leads_replaceUser hsubject hcached₁ rfl hrows (fun _ => hadmin₁) hupdated (hlast _)

/-- `delete_user` by an administrator, on somebody else. -/
lemma leads_adminDelete {last : AuthPost Unit}
    (hsubject : c.Subject H validate db auth.userId) (hadmin : AdminAt auth.userId w)
    (hsteady : Steady c.userId w) (hne : auth.userId ≠ c.userId)
    (hlast : ∀ r w', Steady c.userId w' → last r w') :
    (adminDiscipline H validate db).Leads c last (deleteUser c.userId) w := by
  refine admin_read (fun _ _ => rfl) fun w₁ i₁ h₁ _ => ?_
  have hsteady₁ := hsteady.of_rely h₁
  cases hfound : (perform H (.getUser c.userId) i₁ w₁).1 with
  | none => exact fun w₂ h₂ _ => hlast _ w₂ (hsteady₁.of_rely h₂)
  | some u =>
    refine admin_executeSame (fun _ => .others)
      (fun _ w₂ h₂ => hlast _ w₂ (hsteady₁.of_rely h₂)) fun w₂ h₂ => ?_
    have hsteady₂ := hsteady₁.of_rely h₂
    refine admin_executeSame (fun _ => .others)
      (fun _ w₃ h₃ => hlast _ w₃ (hsteady₂.of_rely h₃)) fun w₃ h₃ => ?_
    have hadmin₄ : ∀ w₄, AdminRely H validate db c w₃ w₄ → AdminAt auth.userId
        (perform H (.execute (.deleteUser c.userId)) none w₄).2 := fun w₄ h₄ =>
      (hadmin.of_rely hsubject (((h₁.trans h₂).trans h₃).trans h₄)).of_same
        ⟨userRows_deleteRow_of_ne rfl hne, rfl⟩
    refine admin_execute (fun e w₄ h₄ => hlast _ w₄ (hsteady₂.of_rely (h₃.trans h₄)))
      (fun w₄ h₄ _ => ?_) fun w₄ h₄ _ => ?_
    · exact adminGuar_table rfl (fun _ _ hk => hk)
        (fun id hne => userRows_deleteRow_of_ne rfl hne) fun _ => (hadmin₄ w₄ h₄).table
    have hrows₄ : (perform H (.execute (.deleteUser c.userId)) none w₄).2.userRows
        c.userId = [] := userRows_deleteRow (w := w₄) rfl
    refine admin_ask (fun _ _ => .others) (fun _ _ _ _ hk => hk)
      fun w₅ _ h₅ => ?_
    refine admin_ask (fun _ _ => .others)
      (fun _ _ _ _ hk => (lookup_of_keepIf hk).1) fun w₆ _ h₆ => ?_
    intro w₇ i₇ h₇ _ _
    have h₄₇ := (h₅.trans h₆).trans h₇
    have hrows₇ := (h₄₇ c.userId (.inl rfl)).1.trans hrows₄
    have hadmin₇ := (hadmin₄ w₄ h₄).of_rely hsubject h₄₇
    have hwrite := cacheOnly_removeUser (H := H) w₇ c.userId u.username i₇
    refine ⟨adminGuar_cache hwrite rfl nofun ?_, fun w₈ h₈ _ => hlast _ w₈ ?_⟩
    · exact (hadmin₇.of_same (sameAt_of_write hwrite hne)).cache
    · exact (steady_of_write hwrite hrows₇).of_rely h₈

lemma role_of_checkRole (h : checkRole .admin auth = .ok ()) : auth.role = .admin := by
  cases hrole : auth.role with
  | admin => rfl
  | _ =>
    rw [checkRole, hrole] at h
    cases h

/-- Those who update themselves stay enabled administrators. -/
lemma stays_of_checkSelf {userId : String} {role : Option String} {role' : Option Role}
    (hself : checkSelf auth userId role enabled = .ok ()) (hparse : parseRole role = .ok role')
    (heq : auth.userId = userId) : enabled ≠ some false ∧ ∀ r, role' = some r → r = .admin := by
  unfold checkSelf at hself
  rw [if_pos heq] at hself
  split at hself
  · cases hself
  rename_i henabled
  refine ⟨henabled, fun r hr => ?_⟩
  cases role with
  | none =>
    cases hparse
    cases hr
  | some text =>
    rw [parseRole, hr] at hparse
    cases hrole : Role.fromStr text with
    | error e =>
      rw [hrole] at hparse
      cases hparse
    | ok newRole =>
      rw [hrole] at hparse
      cases hparse
      simp only [hrole] at hself
      cases r with
      | admin => rfl
      | _ => cases hself

lemma leads_handler (hsubject : c.Subject H validate db auth.userId)
    (hadmin : AdminAt auth.userId w) (hsteady : Steady c.userId w) :
    (adminDiscipline H validate db).Leads c (fun _ w' => Steady c.userId w')
      (c.action.handler auth) w := by
  have hreturn : ∀ r : Except String Unit, (adminDiscipline H validate db).Leads c
      (fun _ w' => Steady c.userId w') (Prog.ret r) w :=
    fun r w₁ h₁ _ => hsteady.of_rely h₁
  cases haction : c.action with
  | updateUser userId role enabled =>
    have hid : c.userId = userId := by rw [AdminRequest.userId, haction]
    rw [AdminAction.handler, updateUserHandler]
    cases hself : checkSelf auth userId role enabled with
    | error e => exact hreturn _
    | ok _ =>
      cases hparse : parseRole role with
      | error e => exact hreturn _
      | ok role' =>
        subst hid
        rw [Prog.ok_bind, Prog.ok_bind]
        refine .bind (leads_adminUpdate hsubject hadmin hsteady
          (stays_of_checkSelf hself hparse) fun r w₁ hsteady₁ => ?_)
        cases r with
        | error e => exact hsteady₁
        | ok _ => exact fun w₂ h₂ _ => hsteady₁.of_rely h₂
  | deleteUser userId =>
    have hid : c.userId = userId := by rw [AdminRequest.userId, haction]
    rw [AdminAction.handler, deleteUserHandler]
    split
    · exact hreturn _
    next hne =>
      subst hid
      exact leads_adminDelete hsubject hadmin hsteady hne fun _ _ h => h

lemma leads_adminRequest (h : Authority H validate db c w) :
    (adminDiscipline H validate db).Leads c (fun _ w' => Steady c.userId w')
      (c.program H validate) w := by
  refine .bind (leads_authMiddleware (fun e w' h' => h'.steady _ (.inl rfl)) ?_ h)
  intro auth w₁ hauth₁ hacts
  dsimp only
  have hsteady₁ := hauth₁.steady c.userId (.inl rfl)
  cases hcheck : checkRole .admin auth with
  | error e => exact fun w₂ h₂ _ => hsteady₁.of_rely h₂
  | ok _ => exact leads_handler hacts.1 (hacts.2 (role_of_checkRole hcheck)) hsteady₁

end Leads

/-! ## Runs -/

/-- The state of a run: users on whom no request is running are steady. -/
structure AdminSound (H : Hashing) (validate : ValidateToken) (db : AuthDb) (s : AdminPool) :
    Prop where
  sound : (adminDiscipline H validate db).Sound s
  idle : ∀ id, (∀ n c p, s.running n = some (c, p) → c.userId ≠ id) → Steady id s.shared

lemma adminSound_of_init {s : AdminPool} (h : (adminSystem H validate db).init s) :
    AdminSound H validate db s := by
  obtain ⟨⟨hopened, hdb, hids, u, hu, hadmin⟩, hrunning, -, hreturned⟩ := h
  have hcached : ∀ id, s.shared.cached id = db.users.find? fun u => decide (u.id = id) := by
    intro id
    rw [cached, hopened.store, ← lookup_insertAll_id hids, ← hdb]
    rfl
  have hinv : AdminInv db s.shared :=
    { keyed := by
        intro id x hx
        rw [hcached] at hx
        exact of_decide_eq_true (find?_some (p := fun u : User => decide (u.id = id)) hx)
      keys := by
        intro h k hk
        rw [hopened.store] at hk
        obtain ⟨k', hk', hhash, rfl⟩ := mem_of_insertAll hk
        exact ⟨hdb ▸ (mem_filter.1 hk').1, hhash⟩
      hasAdmin :=
        { table := ⟨u, hdb ▸ hu, hadmin⟩
          cache := by
            refine ⟨u.id, u, ?_, hadmin⟩
            rw [hcached, ← lookup_insertAll_id hids, lookup_insertAll_of_mem hids hu] } }
  refine ⟨Discipline.sound_of_none hinv hrunning hreturned, fun id _ => ⟨rfl, ?_⟩⟩
  rw [hcached, userRows, hdb]
  exact filter_id_eq hids id

lemma admin_outer (h : SameUsers w w') (hkeys : w'.store.apiKeysCache = w.store.apiKeysCache) :
    (adminDiscipline H validate db).Outer w w' where
  inv hw := (adminGuar_of_same (c := ⟨none, .deleteUser ""⟩) h fun _ _ hk => hkeys ▸ hk).inv hw
  rely _ _ _ id _ := ⟨h.rows_eq id, h.cached_eq id⟩
  begun _ _ := trivial
  post _ _ _ _ _ := trivial

/-- **The step of the requests.** -/
lemma AdminSound.step {s s' : AdminPool} {a : PoolAction (Option String) AdminRequest ℕ}
    (h : AdminSound H validate db s) (hok : AdminOk H validate db s a)
    (hstep : (adminMachine H validate).step s a = some s') : AdminSound H validate db s' := by
  have hmoves := Machine.moves_of_step hstep
  have hpermits : (adminDiscipline H validate db).Permits s a := by
    cases a with
    | invoke c =>
      intro w hw _
      cases hw
      refine ⟨fun n d p hrun _ => hok.1 n d p hrun,
        admin_outer .others rfl, trivial, fun _ => ?_⟩
      refine leads_adminRequest ⟨fun id hid => h.idle id fun n d p hrun heq => ?_, hok.2⟩
      obtain ⟨-, hd⟩ := hok.1 n d p hrun
      rcases hid with rfl | hsubject
      · exact hd.1 heq
      · exact hd.2 (heq ▸ hsubject)
    | access n i => exact fun _ _ _ _ => trivial
    | finish n => trivial
    | elapse e => exact admin_outer .others rfl
    | restart => exact hok.elim
  refine ⟨h.sound.step hmoves hpermits, ?_⟩
  cases hmoves with
  | @invoke c w hbegin =>
    cases hbegin
    intro id hid
    refine h.idle id fun n d p hrun => hid n d p ?_
    have hne : n ≠ s.next := ne_of_lt (h.sound.below n d p hrun)
    simp only [update_of_ne hne, hrun]
  | @access n i c a next hrun =>
    intro id hid
    obtain ⟨hguar, -⟩ := h.sound.leads n c _ hrun s.shared i (fun _ _ => ⟨rfl, rfl⟩) h.sound.inv trivial
    have hne : id ≠ c.userId := fun heq => hid n c _ (update_self _ _ _) heq.symm
    refine (h.idle id fun m d p hm heq => ?_).of_same (hguar.others id hne)
    obtain ⟨q, hq⟩ := (Machine.exists_running_update hrun).2 ⟨p, hm⟩
    exact hid m d q hq heq
  | @finish n c r hrun =>
    intro id hid
    by_cases heq : c.userId = id
    · exact heq ▸ h.sound.final hrun
    · refine h.idle id fun m d p hm => ?_
      by_cases hmn : m = n
      · subst hmn
        rw [hrun] at hm
        cases hm
        exact heq
      · refine hid m d p ?_
        simp only [update_of_ne hmn, hm]
  | elapse => exact fun id hid => (h.idle id hid).of_same ⟨rfl, rfl⟩
  | restart => exact hok.elim

lemma adminSound_of_reachable {s : AdminPool}
    (h : (adminSystem H validate db).ReachableBy (AdminOk H validate db) s) :
    AdminSound H validate db s :=
  System.ReachableBy.invariant h (fun _ => adminSound_of_init) fun _ _ _ _ hs => hs.step

/-- **An administrator remains.**  In every run of requests whose steps meet the condition, from tables
with an enabled administrator, there is an enabled administrator in the table and in the cache. -/
theorem admin_remains {s : AdminPool}
    (h : (adminSystem H validate db).ReachableBy (AdminOk H validate db) s) : s.shared.HasAdmin :=
  (adminSound_of_reachable h).sound.inv.hasAdmin

end Admins

/-! ## A condition that is met, and two that are not -/

/-- Every token is valid, and names its subject. -/
def plainTokens : ValidateToken := fun token _ => .ok token

def noTokens : ValidateToken := fun _ _ => .error "invalid token"

def twoAdmins : AuthDb :=
  ⟨[⟨"a", "first", "", .admin, true, 0, none⟩, ⟨"b", "second", "", .admin, true, 0, none⟩], [], []⟩

/-- One administrator, and a reader with a key whose role override is `Admin`.  With the token of the
reader the filter holds the hash of the key. -/
def overridingKey : AuthDb :=
  ⟨[⟨"a", "admin", "", .admin, true, 0, none⟩, ⟨"r", "reader", "", .reader, true, 0, none⟩],
    [⟨"t", "r", "t", 60, false, 0⟩], [⟨"k", "r", "key", "", "key", some .admin, none, 0, false⟩]⟩

/-- The requests on tables that have just been opened. -/
def openedAdmins (db : AuthDb) : AdminPool where
  shared := (openedStore plainHashing db).shared
  running _ := none
  next := 0
  returned := []

def demote (token userId : String) : AdminRequest := ⟨some token, .updateUser userId (some "reader") none⟩

variable {validate} {db : AuthDb}

lemma init_openedAdmins (hids : (db.users.map User.id).Nodup) (hadmin : ∃ u ∈ db.users, u.IsAdmin) :
    (adminSystem plainHashing validate db).init (openedAdmins db) :=
  ⟨⟨(init_openedStore plainHashing db).1, rfl, hids, hadmin⟩, rfl, rfl, rfl⟩

/-- A check for the condition, where the token is the subject: no request is on the user of another
one, or on whom that one acts as. -/
def requestsApart (s : AdminPool) : PoolAction (Option String) AdminRequest ℕ → Bool
  | .invoke c => (range s.next).all fun n => (s.running n).all fun x =>
      c.userId ≠ x.1.userId ∧ x.1.token ≠ some c.userId ∧ c.token ≠ some x.1.userId
  | .restart => false
  | _ => true

lemma adminOk_of_requestsApart {H : Hashing} {s : AdminPool}
    {a : PoolAction (Option String) AdminRequest ℕ} (hkeys : db.apiKeys = [])
    (hs : (adminSystem H plainTokens db).ReachableBy (AdminOk H plainTokens db) s)
    (h : requestsApart s a = true) : AdminOk H plainTokens db s a := by
  have hnone : ∀ k, k ∉ db.apiKeys := by simp [hkeys]
  cases a with
  | invoke c =>
    refine ⟨fun n d p hn => ?_, fun _ k _ hk => absurd hk (hnone k)⟩
    have hsubject : ∀ {d : AdminRequest} {id}, d.Subject H plainTokens db id → d.token = some id := by
      rintro d id ⟨token, htoken, ⟨now, heq⟩ | ⟨k, hk, -⟩⟩
      · cases heq
        exact htoken
      · exact absurd hk (hnone k)
    have hlt := (adminSound_of_reachable hs).sound.below n d p hn
    have happart := all_eq_true.1 h n (mem_range.2 hlt)
    rw [hn] at happart
    obtain ⟨hne, hacts, hacts'⟩ := of_decide_eq_true happart
    exact ⟨⟨hne, fun h => hacts (hsubject h)⟩, hne.symm, fun h => hacts' (hsubject h)⟩
  | restart => cases h
  | _ => trivial

def threeAdmins : AuthDb :=
  { twoAdmins with users := twoAdmins.users ++ [⟨"c", "third", "", .admin, true, 0, none⟩] }

/-- One administrator demotes the other two, with both requests under way at the same time. -/
theorem admin_remains_after_demote : ∃ s : AdminPool,
      (adminSystem plainHashing plainTokens threeAdmins).ReachableBy
        (AdminOk plainHashing plainTokens threeAdmins) s ∧
      s.returned.length = 2 ∧
      s.shared.cached "b" = some ⟨"b", "second", "", .reader, true, 0, none⟩ ∧
      s.shared.cached "c" = some ⟨"c", "third", "", .reader, true, 0, none⟩ ∧ s.shared.HasAdmin := by
  have hrun := System.ReachableBy.execIf (fun s a => adminOk_of_requestsApart rfl)
    (.init (init_openedAdmins (by decide) (by decide)))
    (rfl : (adminSystem plainHashing plainTokens threeAdmins).execIf requestsApart
      (openedAdmins threeAdmins)
      ([.invoke (demote "a" "b"), .invoke (demote "a" "c")] ++ replicate 3 (.access 0 none) ++
        replicate 5 (.access 1 none) ++ replicate 2 (.access 0 none) ++ [.finish 0, .finish 1]) = some _)
  exact ⟨_, hrun, rfl, rfl, rfl, admin_remains hrun⟩

/-- Two administrators who demote each other at the same time, and a key of a reader that deletes the
only administrator, leave no administrator in the table and in the cache. -/
theorem no_admin_left :
    (∃ s : AdminPool, (adminSystem plainHashing plainTokens twoAdmins).init (openedAdmins twoAdmins) ∧
      (adminSystem plainHashing plainTokens twoAdmins).exec (openedAdmins twoAdmins)
        ([.invoke (demote "a" "b"), .invoke (demote "b" "a")] ++
          replicate 2 (.access 0 none) ++ replicate 5 (.access 1 none) ++
          replicate 3 (.access 0 none) ++ [.finish 0, .finish 1]) = some s ∧
      (∀ u ∈ s.shared.db.users, ¬ u.IsAdmin) ∧
      ∀ u ∈ values s.shared.store.usersCache, ¬ u.IsAdmin) ∧
    ∃ s : AdminPool, (adminSystem plainHashing noTokens overridingKey).init (openedAdmins overridingKey) ∧
      (adminSystem plainHashing noTokens overridingKey).exec (openedAdmins overridingKey)
        ([.invoke ⟨some "key", .deleteUser "a"⟩] ++ replicate 13 (.access 0 none) ++
          [.finish 0]) = some s ∧
      (∀ u ∈ s.shared.db.users, ¬ u.IsAdmin) ∧
      ∀ u ∈ values s.shared.store.usersCache, ¬ u.IsAdmin := by
  refine ⟨⟨_, init_openedAdmins (by decide) (by decide), rfl, ?_, ?_⟩,
    _, init_openedAdmins (by decide) (by decide), rfl, ?_, ?_⟩
  all_goals decide

end LightningDB
