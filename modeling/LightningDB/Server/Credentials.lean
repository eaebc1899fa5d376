import LightningDB.Server.AuthStore
import Mathlib.Data.List.Induction

/-!
# Where credentials come from

Refresh tokens and API keys live in a table and in a cache, and both are found by a hash.  Seen from
there they are one thing (`Credential`), and a run can only add those that were drawn by the call that
adds them: everything else removes rows and entries, or leaves them alone.  `Later` is that relation,
with the same for users; it is what every call of the store guarantees and relies on, whatever the
order of their accesses (`leads_program`).

A user that is in no cache and in no table can come back by one call only, an `update_user` that read
the user before.  `Later` therefore names the users of which no such call is running.
-/

namespace LightningDB

open Framework List Option FinMap StoredRefreshToken

/-! ## Finite maps -/

variable {β : Type} {k : String} {m : FinMap String β} {x : β}

lemma lookup_keepIf (p : β → Bool) (m : FinMap String β) (k : String) :
    (keepIf p m).lookup k = (m.lookup k).filter p := by
  rw [keepIf, lookup_retain]
  cases m.lookup k with
  | none => rfl
  | some x => by_cases h : p x <;> simp [Option.filter]

lemma lookup_of_keepIf {p : β → Bool}
    (h : (keepIf p m).lookup k = some x) : m.lookup k = some x ∧ p x = true := by
  rw [lookup_keepIf, filter_eq_some_iff] at h
  exact h

lemma error_ne_ok {α : Type} {e : String} : ¬ ∃ a : α, (.error e : Except String α) = .ok a := by
  rintro ⟨a, h⟩
  cases h

variable {γ : Type} {l : List β}

lemma mem_of_insertAll {key : β → String} {value : β → γ} {v : γ}
    (h : (insertAll key value l).lookup k = some v) : ∃ x ∈ l, key x = k ∧ value x = v := by
  -- from the end of the list, as the last value under a key stays
  induction l using reverseRecOn with
  | nil => simp [insertAll] at h
  | append_singleton l x ih =>
    rw [insertAll, foldl_append] at h
    rcases of_lookup_insert h with ⟨hk, hv⟩ | ⟨-, h⟩
    · exact ⟨x, by simp, hk.symm, hv⟩
    · obtain ⟨y, hy, hkey, hval⟩ := ih h
      exact ⟨y, mem_append_left _ hy, hkey, hval⟩

lemma lookup_insertAll (key : β → String) (value : β → γ)
    (hx : x ∈ l) : ∃ y ∈ l, key y = key x ∧ (insertAll key value l).lookup (key x) = some (value y) := by
  induction l using reverseRecOn with
  | nil => cases hx
  | append_singleton l z ih =>
    rw [insertAll, foldl_append, foldl_cons, foldl_nil, lookup_insert_eq_ite]
    by_cases hz : key x = key z
    · exact ⟨z, by simp, hz.symm, if_pos hz⟩
    · rcases mem_append.1 hx with hx | hx
      · obtain ⟨y, hy, hkey, hlookup⟩ := ih hx
        exact ⟨y, mem_append_left _ hy, hkey, by rw [if_neg hz]; exact hlookup⟩
      · exact absurd (by rw [mem_singleton.1 hx]) hz

lemma lookup_of_mem_values (h : x ∈ values m) : ∃ k, m.lookup k = some x := by
  obtain ⟨e, he, rfl⟩ := mem_map.1 h
  exact ⟨e.1, AList.mem_lookup_iff.2 he⟩

lemma mem_values_of_lookup (h : m.lookup k = some x) : x ∈ values m :=
  mem_map.2 ⟨⟨k, x⟩, AList.mem_lookup_iff.1 h, rfl⟩

/-! ## Credentials -/

/-- What refresh tokens and API keys have in common. -/
structure Credential where
  kind : Kind
  hash : String
  userId : String
  id : String
  expiresAt : Option ℤ

def StoredRefreshToken.credential (t : StoredRefreshToken) : Credential :=
  ⟨.token, t.tokenHash, t.userId, t.id, some t.expiresAt⟩

def ApiKey.credential (k : ApiKey) : Credential := ⟨.apiKey, k.keyHash, k.userId, k.id, k.expiresAt⟩

/-- The hash of a credential, and the identifier of a key. -/
def Credential.marks (x : Credential) : List (Kind × String) :=
  (x.kind, x.hash) :: if x.kind = .apiKey then [(.apiKeyId, x.id)] else []

variable {Out : String → Prop} {w w' w'' : AuthWorld} {H : Hashing} {c d : AuthCall}
  {J : AuthWorld → Prop}

namespace AuthWorld

variable (w)

def rows : List Credential :=
  w.db.refreshTokens.map credential ++ w.db.apiKeys.map ApiKey.credential

/-- What is cached under a hash. -/
def entry : Kind → String → Option Credential
  | .token, hash => (w.store.tokensCache.lookup hash).map credential
  | .apiKey, hash => (w.store.apiKeysCache.lookup hash).map ApiKey.credential
  | _, _ => none

/-- Nothing has been put into a cache under this hash or identifier. -/
def NotEntered (y : String) : Prop := ∀ k, (k, y) ∉ w.entered

/-- Nothing of a credential has been put into a cache. -/
def IsFresh (x : Credential) : Prop := ∀ p ∈ x.marks, w.NotEntered p.2

variable {w} {x : Credential}

lemma mem_rows : x ∈ w.rows ↔ (∃ t ∈ w.db.refreshTokens, t.credential = x) ∨
      ∃ k ∈ w.db.apiKeys, k.credential = x := by
  rw [rows, mem_append, List.mem_map, List.mem_map]

lemma mem_keys {p : Kind × String} :
    p ∈ w.db.keys ↔ (∃ x ∈ w.rows, p ∈ x.marks) ∨ ∃ u ∈ w.db.users, p = (.user, u.id) := by
  simp only [AuthDb.keys, mem_append, List.mem_map, mem_flatMap, mem_rows]
  constructor
  · rintro ((⟨t, ht, rfl⟩ | ⟨k, hk, hp⟩) | ⟨u, hu, rfl⟩)
    · exact .inl ⟨_, .inl ⟨t, ht, rfl⟩, by simp [Credential.marks, credential]⟩
    · exact .inl ⟨_, .inr ⟨k, hk, rfl⟩, by simpa [Credential.marks, ApiKey.credential] using hp⟩
    · exact .inr ⟨u, hu, rfl⟩
  · rintro (⟨x, ⟨t, ht, rfl⟩ | ⟨k, hk, rfl⟩, hp⟩ | ⟨u, hu, rfl⟩)
    · refine .inl (.inl ⟨t, ht, ?_⟩)
      simpa [Credential.marks, credential, eq_comm] using hp
    · exact .inl (.inr ⟨k, hk, by simpa [Credential.marks, ApiKey.credential] using hp⟩)
    · exact .inr ⟨u, hu, rfl⟩

/-- The caches are of what has been put into them, under its own hash, and of what has been drawn. -/
structure Inv (w : AuthWorld) : Prop where
  entries : ∀ k h x, w.entry k h = some x → x.kind = k ∧ x.hash = h ∧ ∀ p ∈ x.marks, p ∈ w.entered
  users : ∀ u x, w.store.usersCache.lookup u = some x → x.id = u ∧ (.user, u) ∈ w.entered
  entered : ∀ p ∈ w.entered, p.2 ∈ w.drawn
  keys : ∀ p ∈ w.db.keys, p.2 ∈ w.drawn

lemma Inv.entered_of_entry (hw : Inv w) {k : Kind} {hash : String} (h : w.entry k hash = some x) :
    (k, hash) ∈ w.entered := by
  obtain ⟨rfl, rfl, hmarks⟩ := hw.entries k hash x h
  exact hmarks _ mem_cons_self

/-- What may have happened since: credentials and users that were never cached may be new, the others
may only be gone.  Of the users in `Out` none comes back into the cache. -/
structure Later (Out : String → Prop) (w w' : AuthWorld) : Prop where
  entered : ∀ p ∈ w.entered, p ∈ w'.entered
  onlyNew : ∀ p ∈ w'.entered, p ∈ w.entered ∨ w.NotEntered p.2
  drawn : ∀ y ∈ w.drawn, y ∈ w'.drawn
  rows : ∀ x ∈ w'.rows, x ∈ w.rows ∨ w.IsFresh x
  entries : ∀ k h x, w'.entry k h = some x →
    w.entry k h = some x ∨ w.IsFresh x ∧ w.NotEntered h
  userRows : ∀ u ∈ w'.db.users, (∃ u₀ ∈ w.db.users, u₀.id = u.id) ∨ w.NotEntered u.id
  userEntries : ∀ u, Out u → (.user, u) ∈ w.entered → w.store.usersCache.lookup u = none →
    w'.store.usersCache.lookup u = none

lemma NotEntered.of_later (h : Later Out w w') {y : String} (hy : w'.NotEntered y) :
    w.NotEntered y := fun k hk => hy k (h.entered _ hk)

lemma IsFresh.of_later (h : Later Out w w') (hx : w'.IsFresh x) : w.IsFresh x :=
  fun p hp => (hx p hp).of_later h

lemma Later.refl (Out : String → Prop) (w : AuthWorld) : Later Out w w where
  entered _ hp := hp
  onlyNew _ hp := .inl hp
  drawn _ hy := hy
  rows _ hx := .inl hx
  entries _ _ _ hx := .inl hx
  userRows u hu := .inl ⟨u, hu, rfl⟩
  userEntries _ _ _ hu := hu

lemma Later.trans (h : Later Out w w') (h' : Later Out w' w'') : Later Out w w'' where
  entered p hp := h'.entered p (h.entered p hp)
  onlyNew p hp := by
    rcases h'.onlyNew p hp with hp | hp
    · exact h.onlyNew p hp
    · exact .inr (hp.of_later h)
  drawn y hy := h'.drawn y (h.drawn y hy)
  rows x hx := by
    rcases h'.rows x hx with hx | hx
    · exact h.rows x hx
    · exact .inr (hx.of_later h)
  entries k hash x hx := by
    rcases h'.entries k hash x hx with hx | ⟨hx, hnot⟩
    · exact h.entries k hash x hx
    · exact .inr ⟨hx.of_later h, hnot.of_later h⟩
  userRows u hu := by
    rcases h'.userRows u hu with ⟨u₁, hu₁, hid⟩ | hu
    · rw [← hid]
      exact h.userRows u₁ hu₁
    · exact .inr (hu.of_later h)
  userEntries u hout hu hnone :=
    h'.userEntries u hout (h.entered _ hu) (h.userEntries u hout hu hnone)

end AuthWorld

/-- The calls that write a user back into the cache. -/
def AuthCall.Updates : AuthCall → String → Prop
  | .updateUser userId _ _, u => userId = u
  | _, _ => False

namespace AuthWorld

variable (H)

/-- What a step of a call guarantees: what it adds it has drawn. -/
structure Guar (Out : String → Prop) (c : AuthCall) (w w' : AuthWorld) : Prop
    extends Later Out w w' where
  inv : Inv w → Inv w'
  otherUsers : ∀ u, ¬ c.Updates u → (.user, u) ∈ w.entered →
    w.store.usersCache.lookup u = none → w'.store.usersCache.lookup u = none
  newEntered : ∀ p ∈ w'.entered, p ∈ w.entered ∨ p.2 ∈ c.draws H
  newRows : ∀ x ∈ w'.rows, x ∈ w.rows ∨ ∀ p ∈ x.marks, p.2 ∈ c.draws H

/-- What a call relies on: nothing is added of what it has drawn. -/
structure Rely (Out : String → Prop) (c : AuthCall) (w w' : AuthWorld) : Prop
    extends Later Out w w' where
  ownEntered : ∀ y ∈ c.draws H, w.NotEntered y → w'.NotEntered y
  ownRows : ∀ x ∈ w'.rows, x ∈ w.rows ∨ ∀ p ∈ x.marks, p.2 ∉ c.draws H

variable {H}

lemma Rely.refl (Out : String → Prop) (c : AuthCall) (w : AuthWorld) : Rely H Out c w w where
  toLater := .refl Out w
  ownEntered _ _ hy := hy
  ownRows _ hx := .inl hx

lemma Rely.trans (h : Rely H Out c w w') (h' : Rely H Out c w' w'') : Rely H Out c w w'' where
  toLater := h.toLater.trans h'.toLater
  ownEntered y hy hw := h'.ownEntered y hy (h.ownEntered y hy hw)
  ownRows x hx := by
    rcases h'.ownRows x hx with hx | hx
    · exact h.ownRows x hx
    · exact .inr hx

/-- Calls that have drawn different things may rely on each other's guarantee. -/
lemma Guar.rely (h : Guar H Out c w w') (hapart : List.Disjoint (c.draws H) (d.draws H)) :
    Rely H Out d w w' where
  toLater := h.toLater
  ownEntered y hy hw k hk := by
    rcases h.newEntered _ hk with hk | hk
    · exact hw k hk
    · exact hapart hk hy
  ownRows x hx := by
    rcases h.newRows x hx with hx | hx
    · exact .inl hx
    · exact .inr fun p hp hd => hapart (hx p hp) hd

/-! ## Accesses that add nothing -/

/-- Nothing is new in the tables or in the caches. -/
structure Shrinks (w w' : AuthWorld) : Prop where
  entered : w'.entered = w.entered
  drawn : w'.drawn = w.drawn
  rows : ∀ x ∈ w'.rows, x ∈ w.rows
  entries : ∀ k h x, w'.entry k h = some x → w.entry k h = some x
  userRows : ∀ u ∈ w'.db.users, ∃ u₀ ∈ w.db.users, u₀.id = u.id
  userEntries : ∀ u x', w'.store.usersCache.lookup u = some x' →
    ∃ x, w.store.usersCache.lookup u = some x ∧ x'.id = x.id

lemma Shrinks.inv (h : Shrinks w w') (hw : Inv w) : Inv w' where
  entries k hash x hx := by
    rw [h.entered]
    exact hw.entries k hash x (h.entries k hash x hx)
  users u x' hx' := by
    obtain ⟨x, hx, hid⟩ := h.userEntries u x' hx'
    rw [h.entered, hid]
    exact hw.users u x hx
  entered := by
    rw [h.entered, h.drawn]
    exact hw.entered
  keys p hp := by
    rw [h.drawn]
    refine hw.keys p (mem_keys.2 ?_)
    rcases mem_keys.1 hp with ⟨x, hx, hp⟩ | ⟨u, hu, rfl⟩
    · exact .inl ⟨x, h.rows x hx, hp⟩
    · obtain ⟨u₀, hu₀, hid⟩ := h.userRows u hu
      exact .inr ⟨u₀, hu₀, by rw [hid]⟩

variable {u id : String} {db : AuthDb} {f : User → User}

lemma Shrinks.lookup_eq_none (h : Shrinks w w')
    (hnone : w.store.usersCache.lookup u = none) : w'.store.usersCache.lookup u = none := by
  refine eq_none_iff_forall_ne_some.2 fun x' hx' => ?_
  obtain ⟨x, hx, -⟩ := h.userEntries u x' hx'
  rw [hnone] at hx
  cases hx

lemma Shrinks.later (h : Shrinks w w') (Out : String → Prop) : Later Out w w' where
  entered p hp := by rwa [h.entered]
  onlyNew p hp := .inl (h.entered ▸ hp)
  drawn y hy := by rwa [h.drawn]
  rows x hx := .inl (h.rows x hx)
  entries k hash x hx := .inl (h.entries k hash x hx)
  userRows u hu := .inl (h.userRows u hu)
  userEntries _ _ _ := h.lookup_eq_none

lemma Shrinks.guar (h : Shrinks w w') (Out : String → Prop) (c : AuthCall) : Guar H Out c w w' where
  toLater := h.later Out
  otherUsers _ _ _ := h.lookup_eq_none
  inv := h.inv
  newEntered p hp := by
    rw [h.entered] at hp
    exact .inl hp
  newRows x hx := .inl (h.rows x hx)

lemma Shrinks.rely (h : Shrinks w w') (Out : String → Prop) (d : AuthCall) : Rely H Out d w w' :=
  (h.guar (H := H) Out .purgeExpired).rely (disjoint_nil_left _)

lemma Shrinks.refl (w : AuthWorld) : Shrinks w w where
  entered := rfl
  drawn := rfl
  rows _ hx := hx
  entries _ _ _ hx := hx
  userRows u hu := ⟨u, hu, rfl⟩
  userEntries _ x hx := ⟨x, hx, rfl⟩

lemma Shrinks.of_db {executed : List AuthStatement}
    (htokens : ∀ t ∈ db.refreshTokens, t ∈ w.db.refreshTokens)
    (hkeys : ∀ k ∈ db.apiKeys, k ∈ w.db.apiKeys)
    (husers : ∀ u ∈ db.users, ∃ u₀ ∈ w.db.users, u₀.id = u.id) :
    Shrinks w { w with db := db, executed := executed } where
  entered := rfl
  drawn := rfl
  rows x hx := by
    rcases mem_rows.1 hx with ⟨t, ht, rfl⟩ | ⟨k, hk, rfl⟩
    · exact mem_rows.2 (.inl ⟨t, htokens t ht, rfl⟩)
    · exact mem_rows.2 (.inr ⟨k, hkeys k hk, rfl⟩)
  entries _ _ _ hx := hx
  userRows := husers
  userEntries _ x hx := ⟨x, hx, rfl⟩

lemma Shrinks.of_caches {store : AuthStore}
    (htokens : ∀ h t, store.tokensCache.lookup h = some t → w.store.tokensCache.lookup h = some t)
    (hkeys : ∀ h k, store.apiKeysCache.lookup h = some k → w.store.apiKeysCache.lookup h = some k)
    (husers : ∀ u x', store.usersCache.lookup u = some x' →
      ∃ x, w.store.usersCache.lookup u = some x ∧ x'.id = x.id) :
    Shrinks w { w with store := store } where
  entered := rfl
  drawn := rfl
  rows _ hx := hx
  entries k h x hx := by
    cases k with
    | token =>
      obtain ⟨t, ht, rfl⟩ := map_eq_some_iff.1 hx
      exact map_eq_some_iff.2 ⟨t, htokens h t ht, rfl⟩
    | apiKey =>
      obtain ⟨k, hk, rfl⟩ := map_eq_some_iff.1 hx
      exact map_eq_some_iff.2 ⟨k, hkeys h k hk, rfl⟩
    | apiKeyId | user => cases hx
  userRows u hu := ⟨u, hu, rfl⟩
  userEntries := husers

lemma mem_setUserRow (hf : ∀ u, (f u).id = u.id)
    {u : User} (hu : u ∈ (db.setUserRow id f).users) : ∃ u₀ ∈ db.users, u₀.id = u.id := by
  obtain ⟨u₀, hu₀, rfl⟩ := mem_map.1 hu
  refine ⟨u₀, hu₀, ?_⟩
  split
  · exact (hf u₀).symm
  · rfl

lemma lookup_of_changed {m : FinMap String User} {x' : User} (hf : ∀ x, (f x).id = x.id)
    (h : (match m.lookup id with | some x => m.insert id (f x) | none => m).lookup u = some x') :
    ∃ x, m.lookup u = some x ∧ x'.id = x.id := by
  split at h
  next x hx =>
    rcases of_lookup_insert h with ⟨rfl, rfl⟩ | ⟨-, h⟩
    · exact ⟨x, hx, hf x⟩
    · exact ⟨x', h, rfl⟩
  · exact ⟨x', h, rfl⟩

end AuthWorld

def Access.Adds : Access → Prop
  | .execute (.createUser _) => True
  | .execute (.createToken _) => True
  | .execute (.createApiKey _) => True
  | .insertUser _ => True
  | .replaceUser _ _ => True
  | .insertToken _ => True
  | .insertApiKey _ => True
  | _ => False

namespace AuthWorld

lemma shrinks_execute {q : AuthStatement} (hq : ¬ (Access.execute q).Adds) :
    Shrinks w { w with db := w.db.apply q, executed := q :: w.executed } := by
  have hsame : ∀ u ∈ w.db.users, ∃ u₀ ∈ w.db.users, u₀.id = u.id := fun u hu => ⟨u, hu, rfl⟩
  cases q with
  | createUser | createToken | createApiKey => exact absurd trivial hq
  | setUser | setPasswordHash | setLastLogin =>
    exact .of_db (fun _ h => h) (fun _ h => h) fun u hu =>
      mem_setUserRow (by intro; rfl) hu
  | deleteUser id =>
    exact .of_db (fun _ h => h) (fun _ h => h) fun u hu => hsame u (mem_of_mem_filter hu)
  | deleteTokensOf | deleteToken | purgeTokens =>
    exact .of_db (fun _ => mem_of_mem_filter) (fun _ h => h) hsame
  | deleteApiKeysOf | deleteApiKey | purgeApiKeys =>
    exact .of_db (fun _ h => h) (fun _ => mem_of_mem_filter) hsame

/-- **What an access adds.**  All but seven kinds of accesses add nothing. -/
lemma shrinks_perform {a : Access} (ha : ¬ a.Adds) (i : Option String) :
    Shrinks w (perform H a i w).2 := by
  have hsame : ∀ u x, w.store.usersCache.lookup u = some x →
      ∃ x₀, w.store.usersCache.lookup u = some x₀ ∧ x.id = x₀.id := fun _ x hx => ⟨x, hx, rfl⟩
  cases a with
  | execute q =>
    cases i with
    | none => exact shrinks_execute ha
    | some e => exact .refl w
  | insertUser | replaceUser | insertToken | insertApiKey => exact absurd trivial ha
  | now | usernameTaken | bootstrapCheck | getUser | enabledUser | getToken | tokenHashes | getApiKey
  | findApiKey | apiKeyHashes | bloomContains | isRevoked => exact .refl w
  | insertUsername | bloomInsert | markRevoked | rebuildBloom | clearRevoked =>
    exact .of_caches (fun _ _ h => h) (fun _ _ h => h) hsame
  | setPasswordHash | setLastLogin =>
    exact .of_caches (fun _ _ h => h) (fun _ _ h => h) fun u x' =>
      lookup_of_changed fun _ => rfl
  | removeUser id username =>
    exact .of_caches (fun _ _ h => h) (fun _ _ h => h) fun u x' h =>
      hsame u x' (of_lookup_erase h).2
  | removeToken hash =>
    exact .of_caches (fun _ _ h => (of_lookup_erase h).2) (fun _ _ h => h) hsame
  | dropTokensOf | revokeTokensOf | retainTokens =>
    exact .of_caches (fun _ _ h => (lookup_of_keepIf h).1) (fun _ _ h => h) hsame
  | removeApiKey hash =>
    exact .of_caches (fun _ _ h => h) (fun _ _ h => (of_lookup_erase h).2) hsame
  | dropApiKeysOf | retainApiKeys =>
    exact .of_caches (fun _ _ h => h) (fun _ _ h => (lookup_of_keepIf h).1) hsame

/-! ## Accesses that add something -/

variable {x : Credential} {t : StoredRefreshToken} {k : ApiKey} {y : String}

/-- The call has drawn the value, and it is new. -/
def Mints (H : Hashing) (c : AuthCall) (w : AuthWorld) (y : String) : Prop :=
  y ∈ c.draws H ∧ w.NotEntered y ∧ y ∈ w.drawn

lemma guar_of_row {db : AuthDb} {executed : List AuthStatement}
    (hrows : ∀ y ∈ AuthWorld.rows { w with db := db, executed := executed }, y ∈ w.rows ∨ y = x)
    (husers : db.users = w.db.users) (hmints : ∀ p ∈ x.marks, Mints H c w p.2) :
    Guar H Out c w { w with db := db, executed := executed } where
  __ := (Shrinks.refl w).guar Out c
  rows y hy := by
    rcases hrows y hy with hy | rfl
    · exact .inl hy
    · exact .inr fun p hp => (hmints p hp).2.1
  userRows u hu := .inl ⟨u, husers ▸ hu, rfl⟩
  newRows y hy := by
    rcases hrows y hy with hy | rfl
    · exact .inl hy
    · exact .inr fun p hp => (hmints p hp).1
  inv hw := by
    refine ⟨hw.entries, hw.users, hw.entered, fun p hp => ?_⟩
    rcases mem_keys.1 hp with ⟨y, hy, hp⟩ | ⟨u, hu, rfl⟩
    · rcases hrows y hy with hy | rfl
      · exact hw.keys p (mem_keys.2 (.inl ⟨y, hy, hp⟩))
      · exact (hmints p hp).2.2
    · exact hw.keys _ (mem_keys.2 (.inr ⟨u, husers ▸ hu, rfl⟩))

lemma rows_createToken :
    ∀ x ∈ (perform H (.execute (.createToken t)) none w).2.rows, x ∈ w.rows ∨ x = t.credential := by
  intro x hx
  rcases mem_rows.1 hx with ⟨t', ht', rfl⟩ | hk
  · rcases mem_append.1 ht' with ht' | ht'
    · exact .inl (mem_rows.2 (.inl ⟨t', ht', rfl⟩))
    · rw [mem_singleton.1 ht']
      exact .inr rfl
  · exact .inl (mem_rows.2 (.inr hk))

/-- An expiry of `0` is none. -/
lemma rows_createApiKey : ∀ x ∈ (perform H (.execute (.createApiKey k)) none w).2.rows,
      x ∈ w.rows ∨ x = { k.credential with expiresAt := k.expiresAt.filter (· ≠ 0) } := by
  intro x hx
  rcases mem_rows.1 hx with ht | ⟨k', hk', rfl⟩
  · exact .inl (mem_rows.2 (.inl ht))
  · rcases mem_append.1 hk' with hk' | hk'
    · exact .inl (mem_rows.2 (.inr ⟨k', hk', rfl⟩))
    · rw [mem_singleton.1 hk']
      exact .inr rfl

lemma guar_createToken (h : Mints H c w t.tokenHash) :
    Guar H Out c w (perform H (.execute (.createToken t)) none w).2 := by
  refine guar_of_row (x := t.credential) (rows_createToken (H := H)) rfl ?_
  simpa [Credential.marks, credential] using h

lemma guar_createApiKey (h : Mints H c w k.keyHash ∧ Mints H c w k.id) :
    Guar H Out c w (perform H (.execute (.createApiKey k)) none w).2 := by
  refine guar_of_row (rows_createApiKey (H := H)) rfl ?_
  simpa [Credential.marks, ApiKey.credential] using h

lemma guar_of_entry {f : AuthStore → AuthStore}
    (hentries : ∀ k h y, (w.enter x.marks f).entry k h = some y →
      w.entry k h = some y ∨ y = x ∧ k = x.kind ∧ h = x.hash)
    (husers : (f w.store).usersCache = w.store.usersCache) (hmints : ∀ p ∈ x.marks, Mints H c w p.2) :
    Guar H Out c w (w.enter x.marks f) where
  entered _ hp := mem_append_right _ hp
  onlyNew p hp := (mem_append.1 hp).symm.imp_right fun hp => (hmints p hp).2.1
  drawn _ hy := hy
  rows _ hy := .inl hy
  entries k h y hy := by
    rcases hentries k h y hy with hy | ⟨rfl, -, rfl⟩
    · exact .inl hy
    · exact .inr ⟨fun p hp => (hmints p hp).2.1, (hmints _ mem_cons_self).2.1⟩
  userRows u hu := .inl ⟨u, hu, rfl⟩
  userEntries u _ _ hnone := by
    show (f w.store).usersCache.lookup u = none
    rw [husers, hnone]
  otherUsers u _ _ hnone := by
    show (f w.store).usersCache.lookup u = none
    rw [husers, hnone]
  newEntered p hp := by
    rcases mem_append.1 hp with hp | hp
    · exact .inr (hmints p hp).1
    · exact .inl hp
  newRows _ hy := .inl hy
  inv hw := by
    refine ⟨fun k h y hy => ?_, fun u y hy => ?_, fun p hp => ?_, hw.keys⟩
    · rcases hentries k h y hy with hy | ⟨rfl, rfl, rfl⟩
      · obtain ⟨hk, hh, hmarks⟩ := hw.entries k h y hy
        exact ⟨hk, hh, fun p hp => mem_append_right _ (hmarks p hp)⟩
      · exact ⟨rfl, rfl, fun p hp => mem_append_left _ hp⟩
    · have hy' : w.store.usersCache.lookup u = some y := by
        rw [← husers]
        exact hy
      exact (hw.users u y hy').imp_right (mem_append_right _)
    · rcases mem_append.1 hp with hp | hp
      · exact (hmints p hp).2.2
      · exact hw.entered p hp

variable {i : Option String} {u : User} {x₀ : Credential}

lemma entries_insertToken : ∀ k h x, (perform H (.insertToken t) i w).2.entry k h = some x →
      w.entry k h = some x ∨ x = t.credential ∧ k = t.credential.kind ∧ h = t.credential.hash := by
  intro k h x hx
  cases k with
  | token =>
    obtain ⟨t', ht', rfl⟩ := map_eq_some_iff.1 hx
    rcases of_lookup_insert ht' with ⟨hh, rfl⟩ | ⟨-, ht'⟩
    · exact .inr ⟨rfl, rfl, hh⟩
    · exact .inl (map_eq_some_iff.2 ⟨t', ht', rfl⟩)
  | apiKey => exact .inl hx
  | apiKeyId | user => cases hx

lemma entries_insertApiKey {k₀ : ApiKey} :
    ∀ k h x, (perform H (.insertApiKey k₀) i w).2.entry k h = some x →
      w.entry k h = some x ∨
        x = k₀.credential ∧ k = k₀.credential.kind ∧ h = k₀.credential.hash := by
  intro k h x hx
  cases k with
  | token => exact .inl hx
  | apiKey =>
    obtain ⟨k', hk', rfl⟩ := map_eq_some_iff.1 hx
    rcases of_lookup_insert hk' with ⟨hh, rfl⟩ | ⟨-, hk'⟩
    · exact .inr ⟨rfl, rfl, hh⟩
    · exact .inl (map_eq_some_iff.2 ⟨k', hk', rfl⟩)
  | apiKeyId | user => cases hx

lemma guar_insertToken (i : Option String) (h : Mints H c w t.tokenHash) :
    Guar H Out c w (perform H (.insertToken t) i w).2 := by
  refine guar_of_entry (x := t.credential) (entries_insertToken (H := H) (i := i)) rfl ?_
  simpa [Credential.marks, credential] using h

lemma guar_insertApiKey (i : Option String) (h : Mints H c w k.keyHash ∧ Mints H c w k.id) :
    Guar H Out c w (perform H (.insertApiKey k) i w).2 := by
  refine guar_of_entry (x := k.credential) (entries_insertApiKey (H := H) (i := i)) rfl ?_
  simpa [Credential.marks, ApiKey.credential] using h

lemma guar_createUser (h : Mints H c w u.id) :
    Guar H Out c w (perform H (.execute (.createUser u)) none w).2 where
  __ := (Shrinks.refl w).guar Out c
  userRows u' hu' := by
    rcases mem_append.1 hu' with hu' | hu'
    · exact .inl ⟨u', hu', rfl⟩
    · exact .inr (mem_singleton.1 hu' ▸ h.2.1)
  inv hw := by
    refine ⟨hw.entries, hw.users, hw.entered, fun p hp => ?_⟩
    rcases mem_keys.1 hp with hx | ⟨u', hu', rfl⟩
    · exact hw.keys p (mem_keys.2 (.inl hx))
    · rcases mem_append.1 hu' with hu' | hu'
      · exact hw.keys _ (mem_keys.2 (.inr ⟨u', hu', rfl⟩))
      · exact mem_singleton.1 hu' ▸ h.2.2

/-- A user is put into the cache: a new one, or one that has been there. -/
lemma guar_of_user {id : String} (hid : u.id = id)
    (hdraws : (.user, id) ∈ w.entered ∨ id ∈ c.draws H ∧ w.NotEntered id) (hdrawn : id ∈ w.drawn)
    (hout : Out id ∨ ¬ c.Updates id → (.user, id) ∈ w.entered →
      w.store.usersCache.lookup id ≠ none) : Guar H Out c w
      (w.enter [(.user, id)] fun s => { s with usersCache := s.usersCache.insert id u }) where
  entered _ hp := mem_cons_of_mem _ hp
  onlyNew p hp := by
    rcases mem_cons.1 hp with rfl | hp
    · exact hdraws.imp_right And.right
    · exact .inl hp
  drawn _ hy := hy
  rows _ hy := .inl hy
  entries _ _ _ hx := .inl hx
  userRows u' hu' := .inl ⟨u', hu', rfl⟩
  userEntries u' ho hu' hnone := by
    refine (AList.lookup_insert_ne ?_).trans hnone
    rintro rfl
    exact hout (.inl ho) hu' hnone
  otherUsers u' ho hu' hnone := by
    refine (AList.lookup_insert_ne ?_).trans hnone
    rintro rfl
    exact hout (.inr ho) hu' hnone
  newEntered p hp := by
    rcases mem_cons.1 hp with rfl | hp
    · exact hdraws.imp_right And.left
    · exact .inl hp
  newRows _ hy := .inl hy
  inv hw := by
    refine ⟨fun k h y hy => ?_, fun u' y hy => ?_, forall_mem_cons.2 ⟨hdrawn, hw.entered⟩, hw.keys⟩
    · obtain ⟨hk, hh, hmarks⟩ := hw.entries k h y hy
      exact ⟨hk, hh, fun p hp => mem_cons_of_mem _ (hmarks p hp)⟩
    · rcases of_lookup_insert hy with ⟨rfl, rfl⟩ | ⟨-, hy⟩
      · exact ⟨hid, mem_cons_self⟩
      · exact (hw.users u' y hy).imp_right (mem_cons_of_mem _)

/-! ## What is settled -/

/-- A credential in a table or in a cache. -/
def Holds (w : AuthWorld) (x : Credential) : Prop := x ∈ w.rows ∨ ∃ k h, w.entry k h = some x

/-- A hash or identifier has been in a cache, and every credential that has it meets `P`.  Nothing
new can have it, so that this stays. -/
def Settled (p : Kind × String) (P : Credential → Prop) (w : AuthWorld) : Prop :=
  p ∈ w.entered ∧ ∀ x, w.Holds x → p ∈ x.marks → P x

/-- The same for the rows only. -/
def RowsSettled (p : Kind × String) (P : Credential → Prop) (w : AuthWorld) : Prop :=
  p ∈ w.entered ∧ ∀ x ∈ w.rows, p ∈ x.marks → P x

variable {p : Kind × String} {P Q : Credential → Prop}

lemma Settled.rows (h : Settled p P w) : RowsSettled p P w :=
  ⟨h.1, fun x hx hp => h.2 x (.inl hx) hp⟩

lemma not_isFresh (hp : p ∈ w.entered) (hx : p ∈ x.marks) : ¬ w.IsFresh x :=
  fun hfresh => hfresh p hx p.1 hp

lemma RowsSettled.of_later (h : RowsSettled p P w) (hl : Later Out w w') : RowsSettled p P w' := by
  refine ⟨hl.entered p h.1, fun x hx hp => ?_⟩
  rcases hl.rows x hx with hx | hx
  · exact h.2 x hx hp
  · exact absurd hx (not_isFresh h.1 hp)

lemma Settled.of_later (h : Settled p P w) (hl : Later Out w w') : Settled p P w' := by
  refine ⟨hl.entered p h.1, fun x hx hp => ?_⟩
  rcases hx with hx | ⟨k, hash, hx⟩
  · exact (h.rows.of_later hl).2 x hx hp
  · rcases hl.entries k hash x hx with hx | ⟨hx, -⟩
    · exact h.2 x (.inr ⟨k, hash, hx⟩) hp
    · exact absurd hx (not_isFresh h.1 hp)

lemma row_of_restart {k : Kind} {hash : String} (h : ((authMachine H).restart w).entry k hash = some x) :
    x ∈ w.rows ∧ x.kind = k ∧ x.hash = hash := by
  cases k with
  | token =>
    obtain ⟨t, ht, rfl⟩ := map_eq_some_iff.1 h
    obtain ⟨t, hmem, rfl, rfl⟩ := mem_of_insertAll ht
    exact ⟨mem_rows.2 (.inl ⟨t, mem_of_mem_filter hmem, rfl⟩), rfl, rfl⟩
  | apiKey =>
    obtain ⟨k, hk, rfl⟩ := map_eq_some_iff.1 h
    obtain ⟨k, hmem, rfl, rfl⟩ := mem_of_insertAll hk
    exact ⟨mem_rows.2 (.inr ⟨k, mem_of_mem_filter hmem, rfl⟩), rfl, rfl⟩
  | apiKeyId | user => cases h

lemma user_of_restart {u : String} {x : User}
    (h : ((authMachine H).restart w).store.usersCache.lookup u = some x) :
    x ∈ w.db.users ∧ x.id = u := by
  obtain ⟨x, hmem, rfl, rfl⟩ := mem_of_insertAll h
  exact ⟨hmem, rfl⟩

lemma RowsSettled.restart (h : RowsSettled p P w) : Settled p P ((authMachine H).restart w) := by
  refine ⟨mem_append_right _ h.1, fun x hx hp => ?_⟩
  rcases hx with hx | ⟨k, hash, hx⟩
  · exact h.2 x hx hp
  · exact h.2 x (row_of_restart hx).1 hp

lemma Inv.restart (hw : Inv w) : Inv ((authMachine H).restart w) where
  entries k hash x hx := by
    obtain ⟨hrow, hk, hh⟩ := row_of_restart hx
    exact ⟨hk, hh, fun p hp => mem_append_left _ (mem_keys.2 (.inl ⟨x, hrow, hp⟩))⟩
  users u x hx := by
    obtain ⟨hrow, rfl⟩ := user_of_restart hx
    exact ⟨rfl, mem_append_left _ (mem_keys.2 (.inr ⟨x, hrow, rfl⟩))⟩
  entered := forall_mem_append.2 ⟨hw.keys, hw.entered⟩
  keys := hw.keys

/-- A fact that no call and no restart ends. -/
structure Lasting (H : Hashing) (Out : String → Prop) (J : AuthWorld → Prop) : Prop where
  later : ∀ w w', Later Out w w' → J w → J w'
  restart : ∀ w, J w → J ((authMachine H).restart w)

lemma lasting_true : Lasting H Out fun _ => True := ⟨fun _ _ _ _ => trivial, fun _ _ => trivial⟩

lemma lasting_settled (p : Kind × String) (P : Credential → Prop) : Lasting H Out (Settled p P) :=
  ⟨fun _ _ hl h => h.of_later hl, fun _ h => h.rows.restart⟩

lemma Lasting.imp {J : AuthWorld → Prop} (h : Lasting H Out J) (q : Prop) :
    Lasting H Out fun w => q → J w :=
  ⟨fun w w' hl hJ hq => h.later w w' hl (hJ hq), fun w hJ hq => h.restart w (hJ hq)⟩

/-! ## The discipline of the store -/

/-- Something drawn is in no cache yet, and the rows that have it meet `P`. -/
def Pending (y : String) (P : Credential → Prop) (w : AuthWorld) : Prop :=
  y ∈ w.drawn ∧ w.NotEntered y ∧ ∀ x ∈ w.rows, ∀ p ∈ x.marks, p.2 = y → P x

lemma Pending.mints (h : Pending y P w) (hy : y ∈ c.draws H) : Mints H c w y := ⟨hy, h.2.1, h.1⟩

lemma Pending.of_rely (h : Pending y P w) (hy : y ∈ c.draws H)
    (hrely : Rely H Out c w w') : Pending y P w' := by
  obtain ⟨hdrawn, hnot, hrows⟩ := h
  refine ⟨hrely.drawn y hdrawn, hrely.ownEntered y hy hnot, fun x hx p hp hpy => ?_⟩
  rcases hrely.ownRows x hx with hx | hx
  · exact hrows x hx p hp hpy
  · exact absurd (hpy ▸ hy) (hx p hp)

/-- What a call has drawn is in no cache and in no table yet. -/
def Reserved (H : Hashing) (c : AuthCall) (w : AuthWorld) : Prop :=
  ∀ y ∈ c.draws H, y ∈ w.drawn ∧ w.NotEntered y ∧ ∀ x ∈ w.rows, ∀ p ∈ x.marks, p.2 ≠ y

lemma Reserved.pending_false (h : Reserved H c w) (hy : y ∈ c.draws H) : Pending y (fun _ => False) w :=
  h y hy

lemma Reserved.mints (h : Reserved H c w) (hy : y ∈ c.draws H) : Mints H c w y :=
  (h.pending_false hy).mints hy

lemma Reserved.of_rely (h : Reserved H c w) (hrely : Rely H Out c w w') : Reserved H c w' :=
  fun _ hy => (h.pending_false hy).of_rely hy hrely

lemma reserved_of_begin (hw : Inv w) (h : c.begin H w = some w') : Reserved H c w' := by
  rw [AuthCall.begin] at h
  split at h
  next hnew =>
    cases h
    refine fun y hy => ⟨mem_append_left _ hy, fun k hk => ?_, fun x hx p hp hpy => ?_⟩
    · exact hnew.2 y hy (hw.entered _ hk)
    · exact hnew.2 y hy (hpy ▸ hw.keys p (mem_keys.2 (.inl ⟨x, hx, hp⟩)))
  · cases h

lemma Reserved.pending (h : Reserved H c w) (hy : y ∈ c.draws H)
    (hrows : ∀ x ∈ w'.rows, x ∈ w.rows ∨ x = x₀) (hentered : w'.entered = w.entered)
    (hdrawn : w'.drawn = w.drawn) (hP : P x₀) : Pending y P w' := by
  obtain ⟨hdrawn₀, hnot, hold⟩ := h y hy
  refine ⟨hdrawn ▸ hdrawn₀, ?_, fun x hx p hp hpy => ?_⟩
  · rw [NotEntered, hentered]
    exact hnot
  · rcases hrows x hx with hx | rfl
    · exact absurd hpy (hold x hx p hp)
    · exact hP

lemma Pending.settled {k : Kind} (h : Pending y P w) (hw : Inv w) (hentries : ∀ k h x, w'.entry k h = some x →
      w.entry k h = some x ∨ x = x₀ ∧ k = x₀.kind ∧ h = x₀.hash)
    (hrows : w'.rows = w.rows) (hentered : w'.entered = x₀.marks ++ w.entered)
    (hP : P x₀) (hmark : (k, y) ∈ x₀.marks) : Settled (k, y) P w' := by
  obtain ⟨-, hnot, hold⟩ := h
  refine ⟨hentered ▸ mem_append_left _ hmark, fun x hx hp => ?_⟩
  rcases hx with hx | ⟨k', hash, hx⟩
  · exact hold x (hrows ▸ hx) _ hp rfl
  · rcases hentries k' hash x hx with hx | ⟨rfl, -⟩
    · exact absurd ((hw.entries k' hash x hx).2.2 _ hp) (hnot k)
    · exact hP

lemma lookup_of_enabledUser {id : String}
    (hkeyed : ∀ k x, w.store.usersCache.lookup k = some x → x.id = k)
    (h : (perform H (.enabledUser id) i w).1 = some u) :
    w.store.usersCache.lookup u.id = some u ∧ u.id = id ∧ u.enabled = true := by
  have hfind : (values w.store.usersCache).find? (fun u => u.id = id && u.enabled) = some u := h
  have hp := find?_some hfind
  simp only [Bool.and_eq_true, decide_eq_true_eq] at hp
  obtain ⟨k, hk⟩ := lookup_of_mem_values (mem_of_find?_eq_some hfind)
  refine ⟨?_, hp⟩
  rw [hkeyed k u hk, hk]

end AuthWorld

open AuthWorld

/-- When `refresh` returns, the token that it hands out is stored for one user, or is stored nowhere. -/
def HandedOut (H : Hashing) : AuthCall → Except String AuthReply → AuthWorld → Prop
  | .refresh _ _ _ newToken _, .ok _, w => Pending (H.hmac newToken) (fun _ => False) w ∨
      ∃ userId, Settled (.token, H.hmac newToken) (·.userId = userId) w
  | _, _, _ => True

/-- The discipline of the store, with a fact `J` that is never lost, and with what holds from when a
call has returned. -/
def storeDiscipline (H : Hashing) (Out : String → Prop) (J : AuthWorld → Prop)
    (hJ : ∀ w w', Later Out w w' → J w → J w')
    (post : ℕ → AuthCall → Except String AuthReply → AuthWorld → Prop)
    (hpost : ∀ n c r w w', Later Out w w' → post n c r w → post n c r w') :
    Discipline (authMachine H) where
  inv w := w.Inv ∧ J w
  apart c d := List.Disjoint (c.draws H) (d.draws H)
  begun c w := ∀ y ∈ c.draws H, y ∈ w.drawn
  may _ _ _ _ := True
  rely := Rely H Out
  guar := Guar H Out
  post := post
  final n c r w := post n c r w ∧ HandedOut H c r w
  rely_refl := Rely.refl Out
  rely_trans := Rely.trans
  inv_of_guar hinv hg := ⟨hg.inv hinv.1, hJ _ _ hg.toLater hinv.2⟩
  rely_of_guar hapart _ hg := hg.rely hapart
  begun_of_guar hg hb y hy := hg.drawn y (hb y hy)
  post_of_guar _ hg hp := hpost _ _ _ _ _ hg.toLater hp
  post_of_final _ h := h.1

/-! ## The operations keep to the discipline -/

/-- A property of what a program returns, and of the world then. -/
abbrev AuthPost (α : Type) := Except String α → AuthWorld → Prop

namespace AuthStore

open Prog

section Plain

variable {q : AuthStatement} {context : String} {α : Type}

lemma always_ask {a : Access} {k : Answer a → AuthM α} {P : Access → Prop} (ha : P a)
    (hk : ∀ b, (k b).Always P) : (ask a >>= k).Always P := ⟨ha, hk⟩

lemma always_execute (hq : ¬ (Access.execute q).Adds) :
    (execute q context).Always fun a => ¬ a.Adds := by
  refine always_ask hq fun r => ?_
  cases r with
  | ok | error => trivial

lemma always_checkHash (hash notIssued revoked : String) :
    (checkHash hash notIssued revoked).Always fun a => ¬ a.Adds := by
  refine always_ask id fun known => ?_
  cases known with
  | false => trivial
  | true =>
    refine always_ask id fun marked => ?_
    cases marked with
    | false | true => trivial

lemma always_validateRefreshToken (rawToken : String) :
    (validateRefreshToken H rawToken).Always fun a => ¬ a.Adds := by
  refine (always_checkHash _ _ _).bind fun _ => always_ask id fun now => always_ask id fun found => ?_
  split
  · trivial
  · refine always_ask id fun user => ?_
    cases user with
    | none | some => trivial

lemma always_revokeRefreshToken (rawToken : String) :
    (revokeRefreshToken H rawToken).Always fun a => ¬ a.Adds := by
  refine always_ask id fun found => ?_
  split
  · trivial
  · exact (always_execute id).bind fun _ => always_ask id fun _ => ⟨id, fun _ => trivial⟩

lemma always_revokeApiKey (keyId : String) : (revokeApiKey keyId).Always fun a => ¬ a.Adds := by
  refine always_ask id fun found => ?_
  cases found with
  | none => trivial
  | some hash => exact (always_execute id).bind fun _ => ⟨id, fun _ => trivial⟩

lemma always_authenticateApiKey (key : String) :
    (authenticateApiKey H key).Always fun a => ¬ a.Adds := by
  refine (always_checkHash _ _ _).bind fun _ => always_ask id fun now => always_ask id fun found => ?_
  cases found with
  | none => trivial
  | some stored =>
    dsimp only
    split
    · trivial
    · refine always_ask id fun user => ?_
      cases user with
      | none | some => trivial

lemma always_purgeExpired : purgeExpired.Always fun a => ¬ a.Adds := by
  refine always_ask id fun now => (always_execute id).bind fun _ => (always_execute id).bind fun _ =>
    always_ask id fun _ => always_ask id fun _ => ?_
  exact always_ask id fun _ => always_ask id fun _ => always_ask id fun _ => ⟨id, fun _ => trivial⟩

variable (userId : String)

lemma always_deleteUser : (deleteUser userId).Always fun a => ¬ a.Adds := by
  refine always_ask id fun found => ?_
  cases found with
  | none => trivial
  | some user =>
    refine (always_execute id).bind fun _ => (always_execute id).bind fun _ =>
      (always_execute id).bind fun _ => ?_
    exact always_ask id fun _ => always_ask id fun _ => ⟨id, fun _ => trivial⟩

lemma always_resetPassword (hashed : Except String String) :
    (resetPassword userId hashed).Always fun a => ¬ a.Adds := by
  cases hashed with
  | error e => trivial
  | ok passwordHash =>
    exact (always_execute id).bind fun _ => (always_execute id).bind fun _ =>
      always_ask id fun _ => ⟨id, fun _ => trivial⟩

lemma always_recordLogin : (recordLogin userId).Always fun a => ¬ a.Adds := by
  refine always_ask id fun now => always_ask id fun known => ?_
  cases known with
  | false => trivial
  | true => exact always_execute id

end Plain

section Leads

variable {hJ : ∀ w w', Later Out w w' → J w → J w'}
  {post : ℕ → AuthCall → Except String AuthReply → AuthWorld → Prop}
  {hpost : ∀ n c r w w', Later Out w w' → post n c r w → post n c r w'}
  {α : Type} {last : AuthPost α}

lemma leads_ask {a : Access} {k : Answer a → AuthM α} (ha : ¬ a.Adds)
    (hk : ∀ w₁ i, Rely H Out c w (perform H a i w₁).2 → (perform H a i w₁).2.Inv →
      J (perform H a i w₁).2 → (storeDiscipline H Out J hJ post hpost).Leads c last
        (k (perform H a i w₁).1) (perform H a i w₁).2) :
    (storeDiscipline H Out J hJ post hpost).Leads c last (ask a >>= k) w :=
  .perform (fun _ i _ _ _ => ⟨(shrinks_perform ha i).guar Out c, (shrinks_perform ha i).rely Out c⟩)
    fun w₁ i h₁ hinv₁ => hk w₁ i h₁ hinv₁.1 hinv₁.2

lemma leads_last {a : Access} {last : AuthPost (Answer a)} (ha : ¬ a.Adds)
    (hlast : ∀ b w', Rely H Out c w w' → last (.ok b) w') :
    (storeDiscipline H Out J hJ post hpost).Leads c last (ask a) w :=
  leads_ask (k := pure) ha fun _ _ h₁ _ _ w₂ h₂ _ => hlast _ w₂ (h₁.trans h₂)

variable {q : AuthStatement} {context key username : String} {k : Unit → AuthM α} {p : AuthM α}
  {ttlSecs : ℕ} {u : User} {hashed : Except String String} {role : Role}

lemma leads_execute (herror : ∀ e w₁, Rely H Out c w w₁ → last (.error e) w₁)
    (hk : ∀ w₁, Rely H Out c w w₁ → w₁.Inv → J w₁ →
      Guar H Out c w₁ (perform H (.execute q) none w₁).2 ∧
        (storeDiscipline H Out J hJ post hpost).Leads c last (k ())
          (perform H (.execute q) none w₁).2) :
    (storeDiscipline H Out J hJ post hpost).Leads c last (execute q context >>= k) w := by
  intro w₁ i hrely hinv _
  cases i with
  | none => exact hk w₁ hrely hinv.1 hinv.2
  | some e => exact ⟨(Shrinks.refl w₁).guar Out c, fun w₂ h₂ _ => herror _ w₂ (hrely.trans h₂)⟩

lemma leads_plain (hq : ¬ (Access.execute q).Adds) (herror : ∀ e w₁, last (.error e) w₁)
    (hk : ∀ w₁, Rely H Out c w (perform H (.execute q) none w₁).2 →
      J (perform H (.execute q) none w₁).2 → (storeDiscipline H Out J hJ post hpost).Leads c last
        (k ()) (perform H (.execute q) none w₁).2) :
    (storeDiscipline H Out J hJ post hpost).Leads c last (execute q context >>= k) w := by
  refine leads_execute (fun e w₁ _ => herror e w₁) fun w₁ h₁ _ hJ₁ => ?_
  have hs := shrinks_execute (w := w₁) hq
  exact ⟨hs.guar Out c, hk w₁ (h₁.trans (hs.rely Out c)) (hJ _ _ (hs.later Out) hJ₁)⟩

lemma leads_of_always (hp : p.Always fun a => ¬ a.Adds) (hres : Reserved H c w)
    (hlast : ∀ r w', Reserved H c w' → last r w') :
    (storeDiscipline H Out J hJ post hpost).Leads c last p w := by
  induction p generalizing w with
  | ret r => exact fun w' hrely _ => hlast r w' (hres.of_rely hrely)
  | access a next ih =>
    intro w' i hrely _ _
    have hs := shrinks_perform (w := w') (H := H) hp.1 i
    exact ⟨hs.guar Out c, ih _ (hp.2 _) (hres.of_rely (hrely.trans (hs.rely Out c)))⟩

variable {id userId : String}

/-- The end of `store_refresh_token`: the row is the only one with the hash, and then the entry is. -/
lemma leads_enterToken {t : StoredRefreshToken} {last : AuthPost String}
    (hdraws : t.tokenHash ∈ c.draws H) (hpend : Pending t.tokenHash (·.userId = t.userId) w)
    (hok : ∀ r w', Settled (.token, t.tokenHash) (·.userId = t.userId) w' → last (.ok r) w') :
    (storeDiscipline H Out J hJ post hpost).Leads c last
      (do ask (.bloomInsert t.tokenHash); ask (.insertToken t); return id) w := by
  refine leads_ask not_false fun w₁ i₁ h₁ _ _ => ?_
  intro w₂ i₂ h₂ hinv₂ _
  have hpend₂ := hpend.of_rely hdraws (h₁.trans h₂)
  refine ⟨guar_insertToken i₂ (hpend₂.mints hdraws), fun w₃ h₃ _ => hok _ w₃ ?_⟩
  have hset := hpend₂.settled hinv₂.1
    (entries_insertToken (H := H) (i := i₂)) rfl rfl rfl mem_cons_self
  exact hset.of_later h₃.toLater

lemma leads_storeRefreshToken {hash : String} {last : AuthPost String}
    (hdraws : hash ∈ c.draws H) (hres : Reserved H c w)
    (herror : ∀ e w', Reserved H c w' → last (.error e) w')
    (hok : ∀ r w', Settled (.token, hash) (·.userId = userId) w' → last (.ok r) w') :
    (storeDiscipline H Out J hJ post hpost).Leads c last
      (storeRefreshToken userId hash ttlSecs id) w := by
  refine leads_ask not_false fun w₁ i₁ h₁ _ _ => ?_
  refine leads_execute (fun e w₂ h₂ => herror e w₂ (hres.of_rely (h₁.trans h₂))) fun w₂ h₂ _ _ => ?_
  have hres₂ := hres.of_rely (h₁.trans h₂)
  refine ⟨guar_createToken (hres₂.mints hdraws), ?_⟩
  refine leads_enterToken (t := ⟨id, userId, hash, _, false, _⟩) hdraws ?_ hok
  exact hres₂.pending hdraws (rows_createToken (H := H)) rfl rfl rfl

lemma leads_enterApiKey {k : ApiKey} {last : AuthPost (String × ApiKey)}
    (hdraws : k.keyHash ∈ c.draws H ∧ k.id ∈ c.draws H)
    (hpend : Pending k.keyHash (·.userId = k.userId) w)
    (hpend' : Pending k.id (·.hash = k.keyHash) w)
    (hok : ∀ r w', Settled (.apiKey, k.keyHash) (·.userId = k.userId) w' →
      Settled (.apiKeyId, k.id) (·.hash = k.keyHash) w' → last (.ok r) w') :
    (storeDiscipline H Out J hJ post hpost).Leads c last
      (do ask (.bloomInsert k.keyHash); ask (.insertApiKey k); return (key, k)) w := by
  refine leads_ask not_false fun w₁ i₁ h₁ _ _ => ?_
  intro w₂ i₂ h₂ hinv₂ _
  have hpend₂ := hpend.of_rely hdraws.1 (h₁.trans h₂)
  have hpend₂' := hpend'.of_rely hdraws.2 (h₁.trans h₂)
  refine ⟨guar_insertApiKey i₂ ⟨hpend₂.mints hdraws.1, hpend₂'.mints hdraws.2⟩,
    fun w₃ h₃ _ => hok _ w₃ ?_ ?_⟩
  · have hset := hpend₂.settled hinv₂.1
      (entries_insertApiKey (H := H) (i := i₂)) rfl rfl rfl mem_cons_self
    exact hset.of_later h₃.toLater
  · have hset := hpend₂'.settled hinv₂.1
      (entries_insertApiKey (H := H) (i := i₂)) rfl rfl rfl (mem_cons_of_mem _ mem_cons_self)
    exact hset.of_later h₃.toLater

lemma leads_createApiKey {name : String} {roleOverride : Option Role} {expiresAt : Option ℤ}
    {last : AuthPost (String × ApiKey)}
    (hdraws : H.hmac key ∈ c.draws H ∧ id ∈ c.draws H) (hres : Reserved H c w)
    (herror : ∀ e w', last (.error e) w')
    (hok : ∀ r w', Settled (.apiKey, H.hmac key) (·.userId = userId) w' →
      Settled (.apiKeyId, id) (·.hash = H.hmac key) w' → last (.ok r) w') :
    (storeDiscipline H Out J hJ post hpost).Leads c last
      (createApiKey H userId name roleOverride expiresAt key id) w := by
  refine leads_ask not_false fun w₁ i₁ h₁ _ _ => ?_
  split
  · exact fun w' _ _ => herror _ w'
  refine leads_ask not_false fun w₂ i₂ h₂ _ _ => ?_
  refine leads_execute (fun e w₁ _ => herror e w₁) fun w₃ h₃ _ _ => ?_
  have hres₃ := hres.of_rely ((h₁.trans h₂).trans h₃)
  refine ⟨guar_createApiKey ⟨hres₃.mints hdraws.1, hres₃.mints hdraws.2⟩, ?_⟩
  refine leads_enterApiKey (k := ⟨id, userId, H.hmac key, name, _, roleOverride, expiresAt, _, _⟩)
    hdraws ?_ ?_ hok
  · exact hres₃.pending hdraws.1 (rows_createApiKey (H := H)) rfl rfl rfl
  · exact hres₃.pending hdraws.2 (rows_createApiKey (H := H)) rfl rfl rfl

lemma leads_addUser {last : AuthPost User}
    (hdraws : u.id ∈ c.draws H) (hres : Reserved H c w) (hlast : ∀ r w', last r w') :
    (storeDiscipline H Out J hJ post hpost).Leads c last (addUser u) w := by
  refine leads_execute (fun _ _ _ => hlast _ _) fun w₁ h₁ _ _ => ?_
  have hmints₁ := (hres.of_rely h₁).mints hdraws
  refine ⟨guar_createUser hmints₁, fun w₂ i₂ h₂ _ _ => ⟨?_, ?_⟩⟩
  · have hnot₂ : w₂.NotEntered u.id := h₂.ownEntered _ hdraws hmints₁.2.1
    exact guar_of_user rfl (.inr ⟨hdraws, hnot₂⟩) (h₂.drawn _ hmints₁.2.2) fun _ hu =>
      absurd hu (hnot₂ _)
  · exact leads_ask not_false fun w₃ i₃ _ _ _ => fun w₄ _ _ => hlast _ w₄

lemma leads_createUser {last : AuthPost User} (hdraws : id ∈ c.draws H) (hres : Reserved H c w)
    (hlast : ∀ r w', last r w') : (storeDiscipline H Out J hJ post hpost).Leads c last
      (createUser username hashed role id) w := by
  refine leads_ask not_false fun w₁ i₁ h₁ _ _ => ?_
  split
  · exact fun w' _ _ => hlast _ w'
  cases hashed with
  | error e => exact fun w' _ _ => hlast _ w'
  | ok passwordHash =>
    refine leads_ask not_false fun w₂ i₂ h₂ _ _ => ?_
    exact leads_addUser hdraws (hres.of_rely (h₁.trans h₂)) hlast

lemma leads_bootstrapAdmin {last : AuthPost User} (hdraws : id ∈ c.draws H)
    (hres : Reserved H c w) (hlast : ∀ r w', last r w') :
    (storeDiscipline H Out J hJ post hpost).Leads c last
      (bootstrapAdmin username hashed role id) w := by
  refine leads_ask not_false fun w₁ i₁ h₁ _ _ => ?_
  split
  · exact fun w' _ _ => hlast _ w'
  split
  · exact fun w' _ _ => hlast _ w'
  cases hashed with
  | error e => exact fun w' _ _ => hlast _ w'
  | ok passwordHash =>
    refine leads_ask not_false fun w₂ i₂ h₂ _ _ => ?_
    exact leads_addUser hdraws (hres.of_rely (h₁.trans h₂)) hlast

lemma leads_replaceUser {last : AuthPost User}
    (hupdates : c.Updates u.id) (hnotOut : ¬ Out u.id) (hentered : (.user, u.id) ∈ w.entered)
    (hlast : ∀ r w', last r w') : (storeDiscipline H Out J hJ post hpost).Leads c last
      (do ask (.replaceUser u.id u); return u) w := by
  intro w₁ i₁ h₁ hinv₁ _
  have hentered₁ := h₁.entered _ hentered
  refine ⟨guar_of_user rfl (.inl hentered₁) (hinv₁.1.entered _ hentered₁) ?_,
    fun w' _ _ => hlast _ w'⟩
  rintro (ho | hnot)
  · exact absurd ho hnotOut
  · exact absurd hupdates hnot

/-- An update of a user writes back the user it has read, who may be gone by then. -/
lemma leads_updateUser {role : Option Role} {enabled : Option Bool}
    {last : AuthPost User} (hupdates : c.Updates userId)
    (hout : Out userId → ∀ w, J w → w.store.usersCache.lookup userId = none)
    (hlast : ∀ r w', last r w') :
    (storeDiscipline H Out J hJ post hpost).Leads c last (updateUser userId role enabled) w := by
  refine leads_ask not_false fun w₁ i₁ h₁ hinv₁ hJ₁ => ?_
  cases hfound : (perform H (.getUser userId) i₁ w₁).1 with
  | none => exact fun w' _ _ => hlast _ w'
  | some u =>
    obtain ⟨rfl, hentered⟩ := hinv₁.users _ _ hfound
    have hnotOut : ¬ Out u.id := fun ho => nomatch (hout ho w₁ hJ₁).symm.trans hfound
    have hreplace : ∀ w₂ : AuthWorld, (.user, u.id) ∈ w₂.entered →
        (storeDiscipline H Out J hJ post hpost).Leads c last _ w₂ := fun w₂ hw₂ =>
      leads_replaceUser (u := { u with role := role.getD u.role, enabled := enabled.getD u.enabled })
        hupdates hnotOut hw₂ hlast
    dsimp only
    split
    · exact leads_plain not_false (fun _ _ => hlast _ _) fun w₂ h₂ _ =>
        hreplace _ (h₂.entered _ hentered)
    · exact hreplace _ hentered

lemma leads_refresh {rawToken : String} {accessToken : Except String String}
    {newToken newId : String} {last : AuthPost (String × String)}
    (hdraws : H.hmac newToken ∈ c.draws H) (hres : Reserved H c w) (herror : ∀ e w', last (.error e) w')
    (hok : ∀ r w', Reserved H c w' ∨ (∃ userId, Settled (.token, H.hmac newToken) (·.userId = userId) w') →
      last (.ok r) w') :
    (storeDiscipline H Out J hJ post hpost).Leads c last
      (refresh H rawToken accessToken ttlSecs newToken newId) w := by
  refine .bind (leads_of_always (always_validateRefreshToken rawToken) hres fun r w₁ hres₁ => ?_)
  cases r with
  | error e => exact herror _ w₁
  | ok found =>
    refine .bind (leads_of_always (always_revokeRefreshToken rawToken).attempt hres₁
      fun r w₂ hres₂ => ?_)
    cases r with
    | error e => exact herror _ w₂
    | ok _ =>
      cases accessToken with
      | error e => exact fun w' _ _ => herror _ w'
      | ok accessToken =>
        refine .bind (.attempt (leads_storeRefreshToken hdraws hres₂ (fun _ w₃ h₃ => ?_) fun _ w₃ h₃ => ?_))
        · exact fun w' h' _ => hok _ w' (.inl (h₃.of_rely h'))
        · exact fun w' h' _ => hok _ w' (.inr ⟨_, h₃.of_later h'.toLater⟩)

lemma leads_plainCall {f : α → AuthReply} (hp : p.Always fun a => ¬ a.Adds) (hres : Reserved H c w) :
    (storeDiscipline H Out J hJ post hpost).Leads c (fun _ _ => True)
      (p >>= fun a => pure (f a)) w :=
  leads_of_always (hp.bind fun _ => trivial) hres fun _ _ _ => trivial

/-- **The calls keep to the discipline.**  An update of a user in `Out` may only be made when it finds
no user. -/
lemma leads_program (hres : Reserved H c w)
    (hout : ∀ u, Out u → c.Updates u → ∀ w, J w → w.store.usersCache.lookup u = none) :
    (storeDiscipline H Out J hJ post hpost).Leads c (HandedOut H c) (c.program H) w := by
  cases c with
  | storeRefreshToken userId tokenHash ttlSecs id =>
    exact .done (fun _ _ => trivial) fun _ hlast => leads_storeRefreshToken (by simp [AuthCall.draws]) hres
      (fun _ _ _ => hlast _ _) fun _ _ _ => hlast _ _
  | createApiKey userId name roleOverride expiresAt key id =>
    exact .done (fun _ _ => trivial) fun _ hlast => leads_createApiKey (by simp [AuthCall.draws]) hres
      (fun _ _ => hlast _ _) fun _ _ _ _ => hlast _ _
  | bootstrapAdmin username hashed role id =>
    exact .done (fun _ _ => trivial) fun _ => leads_bootstrapAdmin (by simp [AuthCall.draws]) hres
  | createUser username hashed role id =>
    exact .done (fun _ _ => trivial) fun _ => leads_createUser (by simp [AuthCall.draws]) hres
  | updateUser userId role enabled =>
    exact .done (fun _ _ => trivial) fun _ => leads_updateUser rfl fun ho => hout userId ho rfl
  | refresh rawToken accessToken ttlSecs newToken newId =>
    refine .bind (leads_refresh (by simp [AuthCall.draws]) hres (fun _ _ => trivial) fun _ w₁ h₁ => ?_)
    refine fun w₂ h₂ _ => h₁.imp (fun h => ?_) fun ⟨userId, h⟩ => ⟨userId, h.of_later h₂.toLater⟩
    exact (h.of_rely h₂).pending_false (by simp [AuthCall.draws])
  | validateRefreshToken rawToken => exact leads_plainCall (always_validateRefreshToken rawToken) hres
  | revokeRefreshToken rawToken => exact leads_plainCall (always_revokeRefreshToken rawToken) hres
  | revokeApiKey keyId => exact leads_plainCall (always_revokeApiKey keyId) hres
  | authenticateApiKey key => exact leads_plainCall (always_authenticateApiKey key) hres
  | purgeExpired => exact leads_plainCall always_purgeExpired hres
  | deleteUser userId => exact leads_plainCall (always_deleteUser userId) hres
  | resetPassword userId hashed => exact leads_plainCall (always_resetPassword userId hashed) hres
  | recordLogin userId => exact leads_plainCall (always_recordLogin userId) hres

end Leads

end AuthStore

/-! ## Phases of a run -/

section Phases

variable {drawn : List String} {clock : ℕ}

lemma rely_of_drawn (hdrawn : ∀ y ∈ w.drawn, y ∈ drawn) :
    Rely H Out d w { w with drawn := drawn, clock := clock } where
  __ := Rely.refl Out d w
  drawn := hdrawn

lemma inv_of_drawn (hw : w.Inv) (hdrawn : ∀ y ∈ w.drawn, y ∈ drawn) :
    AuthWorld.Inv { w with drawn := drawn, clock := clock } where
  entries := hw.entries
  users := hw.users
  entered p hp := hdrawn _ (hw.entered p hp)
  keys p hp := hdrawn _ (hw.keys p hp)

/-- What is drawn from outside disturbs no call. -/
lemma store_outer (hdrawn : ∀ y ∈ w.drawn, y ∈ drawn) :
    (storeDiscipline H Out J hJ post hpost).Outer w { w with drawn := drawn, clock := clock } where
  inv hw := ⟨inv_of_drawn hw.1 hdrawn,
    hJ w _ (rely_of_drawn (H := H) (d := .purgeExpired) hdrawn).toLater hw.2⟩
  rely _ _ _ := rely_of_drawn hdrawn
  begun _ hb y hy := hdrawn y (hb y hy)
  post n c r _ hp := hpost n c r w _ (rely_of_drawn (H := H) (d := c) hdrawn).toLater hp

lemma eq_of_begin (h : c.begin H w = some w') :
    w' = { w with drawn := c.draws H ++ w.drawn } ∧ ∀ y ∈ c.draws H, y ∉ w.drawn := by
  rw [AuthCall.begin] at h
  split at h
  next hnew =>
    cases h
    exact ⟨rfl, hnew.2⟩
  · cases h

/-- What calls that begin in a phase of a run have to show when they return: `N` calls have begun
before, and `J` lasts from there. -/
def phase (hJ : Lasting H Out J) (N : ℕ) {K : AuthCall → Except String AuthReply → AuthWorld → Prop}
    (hK : ∀ c r, Lasting H Out (K c r)) : Discipline (authMachine H) :=
  storeDiscipline H Out J hJ.later (fun n c r w => N ≤ n → K c r w) fun _ c r w w' hl h hn =>
    (hK c r).later w w' hl (h hn)

variable {hJ : Lasting H Out J} {N : ℕ} {K : AuthCall → Except String AuthReply → AuthWorld → Prop}
  {hK : ∀ c r, Lasting H Out (K c r)}

/-- A call may begin if it keeps to the discipline. -/
def Fits (Out : String → Prop) (J : AuthWorld → Prop) (c : AuthCall) : Prop :=
  ∀ u, Out u → c.Updates u → ∀ w, J w → w.store.usersCache.lookup u = none

def BeginsOnly (P : AuthCall → Prop) : PoolAction (Option String) AuthCall ℕ → Prop
  | .invoke c => P c
  | _ => True

variable {s s' : AuthPool}

/-- **The step of a phase.** -/
lemma phase_step {a : PoolAction (Option String) AuthCall ℕ}
    (hleads : ∀ c w, Fits Out J c → w.Inv → J w → Reserved H c w →
      (phase hJ N hK).Leads c (K c) (c.program H) w)
    (hs : (phase hJ N hK).Sound s) (ha : BeginsOnly (Fits Out J) a)
    (hstep : (authSystem H).step s a = some s') : (phase hJ N hK).Sound s' := by
  refine hs.step (Machine.moves_of_step hstep) ?_
  cases a with
  | invoke c =>
    intro w hbegin hinv
    obtain ⟨rfl, hnew⟩ := eq_of_begin hbegin
    refine ⟨fun n d p hrun hd => ⟨?_, ?_⟩, ?_, ?_, fun hinv' => ?_⟩
    · exact fun y hy hy' => hnew y hy (hd y hy')
    · exact fun y hy' hy => hnew y hy (hd y hy')
    · exact store_outer fun _ hy => mem_append_right _ hy
    · exact fun y hy => mem_append_left _ hy
    · have hres := reserved_of_begin hinv.1 hbegin
      exact ((hleads c _ ha hinv'.1 hinv'.2 hres).and (AuthStore.leads_program hres ha)).mono
        fun _ _ h => ⟨fun _ => h.1, h.2⟩
  | access n i => exact fun _ _ _ _ => trivial
  | finish n => trivial
  | elapse e => exact store_outer fun _ hy => hy
  | restart =>
    exact ⟨⟨hs.inv.1.restart, hJ.restart _ hs.inv.2⟩,
      fun n c r hp hn => (hK c r).restart _ (hp hn)⟩

/-- The start of a phase: the calls that are running have only to keep to what they kept to before. -/
lemma phase_start {Out' : String → Prop} {J' : AuthWorld → Prop} {hJ' : Lasting H Out' J'} {N' : ℕ}
    {K' : AuthCall → Except String AuthReply → AuthWorld → Prop}
    {hK' : ∀ c r, Lasting H Out' (K' c r)} (hs : (phase hJ' N' hK').Sound s)
    (hsub : ∀ w, J w → J' w) (hout : ∀ u, Out' u → Out u)
    (hrun : ∀ n c p, s.running n = some (c, p) → ∀ u, Out u → ¬ Out' u → ¬ c.Updates u)
    (hJs : J s.shared) : (phase hJ s.next hK).Sound s where
  __ := hs
  inv := ⟨hs.inv.1, hJs⟩
  leads n c p hn := by
    refine (hs.leads n c p hn).transfer ?_ ?_ ?_ ?_ ?_
    · exact fun w w' hr => { hr with userEntries := fun u ho => hr.userEntries u (hout u ho) }
    · exact fun w hw => ⟨hw.1, hsub w hw.2⟩
    · exact fun _ _ _ _ _ => trivial
    · intro w w' _ hg
      refine { hg with userEntries := fun u ho hu hnone => ?_ }
      by_cases ho' : Out' u
      · exact hg.userEntries u ho' hu hnone
      · exact hg.otherUsers u (hrun n c p hn u ho ho') hu hnone
    · exact fun r w _ h => ⟨fun hge => absurd (hs.below n c p hn) (not_lt.2 hge), h.2⟩
  post n c r hmem hge := absurd (hs.returnedBelow n c r hmem) (not_lt.2 hge)

/-- **A phase of a run.**  From a state with `J` on, the calls that begin and return show `K`. -/
theorem phase_run {as : List (PoolAction (Option String) AuthCall ℕ)}
    (hleads : ∀ c w, Fits Out J c → w.Inv → J w → Reserved H c w →
      (phase hJ N hK).Leads c (K c) (c.program H) w)
    (hs : (phase hJ N hK).Sound s) (has : ∀ a ∈ as, BeginsOnly (Fits Out J) a)
    (hrun : (authSystem H).exec s as = some s') : (phase hJ N hK).Sound s' := by
  induction as generalizing s with
  | nil =>
    rw [System.exec_nil, some.injEq] at hrun
    exact hrun ▸ hs
  | cons a as ih =>
    rw [System.exec_cons, bind_eq_some_iff] at hrun
    obtain ⟨t, hstep, hrest⟩ := hrun
    exact ih (phase_step hleads hs (has a mem_cons_self) hstep)
      (fun b hb => has b (mem_cons_of_mem _ hb)) hrest

lemma inv_of_opened (h : w.Opened H) : w.Inv where
  entries k hash x hx := by
    have hsame : w.entry k hash = ((authMachine H).restart w).entry k hash := by
      cases k <;> simp only [AuthWorld.entry, h.store, authMachine]
    obtain ⟨hrow, hk, hh⟩ := row_of_restart (H := H) (hsame ▸ hx)
    refine ⟨hk, hh, fun p hp => ?_⟩
    rw [h.entered]
    exact mem_keys.2 (.inl ⟨x, hrow, hp⟩)
  users u x hx := by
    rw [h.store] at hx
    obtain ⟨hrow, rfl⟩ := user_of_restart (H := H) hx
    refine ⟨rfl, ?_⟩
    rw [h.entered]
    exact mem_keys.2 (.inr ⟨x, hrow, rfl⟩)
  entered p hp := h.drawn p (h.entered ▸ hp)
  keys := h.drawn

end Phases

end LightningDB
