import LightningDB.Server.Credentials

/-!
# Live credentials are accepted

To be accepted a credential has to be in its cache, its hash in the filter and not marked as revoked,
and at the next start the cache is read from the table.  A row is created before the hash is put into
the filter and the entry into the cache; it is deleted before the entry is removed and the hash marked.
So a credential that has been given out, has not expired and has not been deleted is in all of them
(`AuthWorld.Kept`), but for the filter:

* `AuthStore::new` builds it from the refresh tokens only, and an API key passes it after a restart only
  if the bits of its hash happen to be set;
* `purge_expired` replaces it by one for the hashes it has read from the caches before.  A hash that was
  put into the filter before the replacement and into its cache after the read is lost.

So the condition (`LiveOk`) is on the order of the steps: a restart finds no live API key in the table, and
the time from the read of a purge to its replacement does not meet the time in which a new hash is in the
filter and not yet in its cache.  That the replacements of such a run keep what is live is an invariant of
the calls that are running (`Windows`).
-/

namespace LightningDB

open Framework AuthWorld List Option

/-! ## What a step keeps -/

def Credential.deletion (x : Credential) : AuthStatement :=
  if x.kind = .token then .deleteToken x.hash else .deleteApiKey x.hash

def AuthStatement.creates : AuthStatement → Option String
  | .createToken t => some t.tokenHash
  | .createApiKey k => some k.keyHash
  | _ => none

namespace AuthWorld

/-- The credential has expired, or it has been revoked. -/
def Gone (x : Credential) (w : AuthWorld) : Prop :=
  (∃ e, x.expiresAt = some e ∧ e ≤ w.clock) ∨ x.deletion ∈ w.executed

variable (H : Hashing)

/-- Of a credential that is not gone afterwards, a step keeps the row and the entry, and the hash in the
filter if there is an entry; only hashes of deleted tokens are marked. -/
structure Preserves (w w' : AuthWorld) : Prop where
  clock : w.clock ≤ w'.clock
  executed : ∀ q ∈ w.executed, q ∈ w'.executed
  liveRows : ∀ x, ¬ Gone x w' → x ∈ w.rows → x ∈ w'.rows
  liveEntries : ∀ x, ¬ Gone x w' → w.entry x.kind x.hash = some x → w'.entry x.kind x.hash = some x
  liveBloom : ∀ x, ¬ Gone x w' → w.entry x.kind x.hash = some x →
    w.store.tokenBloom.contains H x.hash = true → w'.store.tokenBloom.contains H x.hash = true
  marked : ∀ h ∈ w'.store.tokenBloom.revoked, h ∈ w.store.tokenBloom.revoked ∨
    .deleteToken h ∈ w'.executed

variable {H} {w w' w'' : AuthWorld} {x : Credential}

lemma Gone.mono (h : Gone x w) (hclock : w.clock ≤ w'.clock)
    (hexecuted : ∀ q ∈ w.executed, q ∈ w'.executed) : Gone x w' := by
  rcases h with ⟨e, he, hle⟩ | h
  · exact .inl ⟨e, he, hle.trans (Int.ofNat_le.2 hclock)⟩
  · exact .inr (hexecuted _ h)

lemma Preserves.not_gone (h : Preserves H w w') (hx : ¬ Gone x w') : ¬ Gone x w :=
  fun hg => hx (hg.mono h.clock h.executed)

lemma Preserves.refl (w : AuthWorld) : Preserves H w w where
  clock := le_refl _
  executed _ hq := hq
  liveRows _ _ hx := hx
  liveEntries _ _ hx := hx
  liveBloom _ _ _ hx := hx
  marked _ hh := .inl hh

lemma Preserves.trans (h : Preserves H w w') (h' : Preserves H w' w'') : Preserves H w w'' where
  clock := h.clock.trans h'.clock
  executed q hq := h'.executed q (h.executed q hq)
  liveRows x hx hrow := h'.liveRows x hx (h.liveRows x (h'.not_gone hx) hrow)
  liveEntries x hx hentry := h'.liveEntries x hx (h.liveEntries x (h'.not_gone hx) hentry)
  liveBloom x hx hentry hbloom :=
    h'.liveBloom x hx (h.liveEntries x (h'.not_gone hx) hentry)
      (h.liveBloom x (h'.not_gone hx) hentry hbloom)
  marked hash hh := by
    rcases h'.marked hash hh with hh | hh
    · exact (h.marked hash hh).imp_right (h'.executed _)
    · exact .inr hh

lemma Preserves.of_store {store : AuthStore} {entered : List (Kind × String)}
    (hentries : ∀ x, ¬ Gone x w → w.entry x.kind x.hash = some x →
      AuthWorld.entry { w with store := store, entered := entered } x.kind x.hash = some x)
    (hbloom : store.tokenBloom = w.store.tokenBloom) :
    Preserves H w { w with store := store, entered := entered } where
  clock := le_refl _
  executed _ hq := hq
  liveRows _ _ hx := hx
  liveEntries := hentries
  liveBloom x _ _ hx := by rwa [hbloom]
  marked h hh := .inl (hbloom ▸ hh)

lemma Preserves.of_bloom {bloom : TokenCache}
    (hbloom : ∀ x, ¬ Gone x w → w.entry x.kind x.hash = some x →
      w.store.tokenBloom.contains H x.hash = true → bloom.contains H x.hash = true)
    (hrevoked : ∀ h ∈ bloom.revoked, h ∈ w.store.tokenBloom.revoked ∨ .deleteToken h ∈ w.executed) :
    Preserves H w (w.setStore fun s => { s with tokenBloom := bloom }) where
  clock := le_refl _
  executed _ hq := hq
  liveRows _ _ hx := hx
  liveEntries x _ hx := by
    cases hk : x.kind <;> rw [hk] at hx <;> exact hx
  liveBloom := hbloom
  marked := hrevoked

/-- What has to hold for an access to keep what is live. -/
def Careful (H : Hashing) (c : AuthCall) (w : AuthWorld) : Access → Prop
  | .execute (.createToken t) =>
    t.tokenHash ∈ c.draws H ∧ w.NotEntered t.tokenHash ∧ t.tokenHash ∈ w.drawn
  | .execute (.createApiKey k) => k.keyHash ∈ c.draws H ∧ w.NotEntered k.keyHash ∧ k.keyHash ∈ w.drawn
  | .execute (.purgeTokens now) => now ≤ w.clock
  | .execute (.purgeApiKeys now) => now ≤ w.clock
  | .execute (.deleteTokensOf _) => False
  | .execute (.deleteApiKeysOf _) => False
  | .insertToken t => w.NotEntered t.tokenHash
  | .insertApiKey k => w.NotEntered k.keyHash
  | .removeToken hash => .deleteToken hash ∈ w.executed
  | .removeApiKey hash => .deleteApiKey hash ∈ w.executed
  | .markRevoked hash => .deleteToken hash ∈ w.executed ∧ (.token, hash) ∈ w.entered
  | .retainTokens now => now ≤ w.clock
  | .retainApiKeys now => now ≤ w.clock
  | .rebuildBloom hashes => ∀ x, ¬ Gone x w → w.entry x.kind x.hash = some x → x.hash ∈ hashes
  | .dropTokensOf _ => False
  | .revokeTokensOf _ => False
  | .dropApiKeysOf _ => False
  | _ => True

variable {c : AuthCall}

variable {t : StoredRefreshToken} {q : AuthStatement} {b : TokenCache}

lemma gone_token (h : t.expiresAt ≤ w.clock) : Gone t.credential w :=
  .inl ⟨t.expiresAt, rfl, h⟩

variable {k : ApiKey} {h : String} {a : Access} {i : Option String} {row : Credential}

lemma gone_apiKey {e : ℤ} (hk : k.expiresAt = some e) (h : e ≤ w.clock) : Gone k.credential w :=
  .inl ⟨e, hk, h⟩

/-- The expiry of a key that has not expired is not `0`. -/
lemma filter_expiresAt (h : ¬ Gone k.credential w) : k.expiresAt.filter (· ≠ 0) = k.expiresAt := by
  cases he : k.expiresAt with
  | none => rfl
  | some e =>
    rw [filter_some, if_pos]
    refine decide_eq_true fun h0 => h (gone_apiKey he ?_)
    rw [h0]
    exact Int.natCast_nonneg _

/-- A statement keeps the rows of what is live. -/
lemma preserves_execute (hq : Careful H c w (.execute q)) :
    Preserves H w { w with db := w.db.apply q, executed := q :: w.executed } := by
  refine
    { clock := le_refl _
      executed := fun _ h => mem_cons_of_mem _ h
      liveRows := fun x hx hrow => mem_rows.2 ?_
      liveEntries := fun _ _ hx => hx
      liveBloom := fun _ _ _ hx => hx
      marked := fun _ hh => .inl hh }
  rcases mem_rows.1 hrow with ⟨t, ht, rfl⟩ | ⟨k, hk, rfl⟩
  · refine .inl ⟨t, ?_, rfl⟩
    cases q with
    | createToken t' => exact mem_append_left _ ht
    | deleteToken hash =>
      refine mem_filter.2 ⟨ht, decide_eq_true ?_⟩
      rintro rfl
      exact hx (.inr mem_cons_self)
    | purgeTokens now =>
      refine mem_filter.2 ⟨ht, ?_⟩
      rw [Bool.not_eq_true', decide_eq_false_iff_not]
      exact fun hle => hx (gone_token (hle.trans hq))
    | deleteTokensOf userId => exact hq.elim
    | _ => exact ht
  · refine .inr ⟨k, ?_, rfl⟩
    cases q with
    | createApiKey k' => exact mem_append_left _ hk
    | deleteApiKey hash =>
      refine mem_filter.2 ⟨hk, decide_eq_true ?_⟩
      rintro rfl
      exact hx (.inr mem_cons_self)
    | purgeApiKeys now =>
      refine mem_filter.2 ⟨hk, ?_⟩
      cases he : k.expiresAt with
      | none => rfl
      | some e =>
        rw [any_some, Bool.not_eq_true', Bool.and_eq_false_imp]
        intro _
        rw [decide_eq_false_iff_not]
        exact fun hle => hx (gone_apiKey he (hle.trans hq))
    | deleteApiKeysOf userId => exact hq.elim
    | _ => exact hk

lemma contains_insert {h' : String} (hb : b.contains H h = true) :
    (b.insert H h').contains H h = true := by
  rw [TokenCache.contains, List.all_eq_true] at hb ⊢
  exact fun n hn => decide_eq_true (mem_append_right _ (of_decide_eq_true (hb n hn)))

lemma contains_insert_self (b : TokenCache) (h : String) : (b.insert H h).contains H h = true := by
  rw [TokenCache.contains, List.all_eq_true]
  exact fun n hn => decide_eq_true (mem_append_left _ hn)

lemma contains_rebuildBloom {hashes : List String} (hh : h ∈ hashes) :
    (b.rebuildBloom H hashes).contains H h = true := by
  rw [TokenCache.contains, List.all_eq_true]
  exact fun n hn => decide_eq_true (mem_flatMap.2 ⟨h, hh, hn⟩)

lemma entries_of_caches
    (htokens : ∀ t, ¬ Gone t.credential w → w.store.tokensCache.lookup t.tokenHash = some t →
      w'.store.tokensCache.lookup t.tokenHash = some t)
    (hkeys : ∀ k, ¬ Gone k.credential w → w.store.apiKeysCache.lookup k.keyHash = some k →
      w'.store.apiKeysCache.lookup k.keyHash = some k) :
    ∀ x, ¬ Gone x w → w.entry x.kind x.hash = some x → w'.entry x.kind x.hash = some x := by
  intro x hx hentry
  cases hk : x.kind <;> rw [hk] at hentry
  case token =>
    obtain ⟨t, ht, rfl⟩ := map_eq_some_iff.1 hentry
    exact map_eq_some_iff.2 ⟨t, htokens t hx ht, rfl⟩
  case apiKey =>
    obtain ⟨k, hlookup, rfl⟩ := map_eq_some_iff.1 hentry
    exact map_eq_some_iff.2 ⟨k, hkeys k hx hlookup, rfl⟩
  case apiKeyId => cases hentry
  case user => cases hentry

/-- **What an access keeps.** -/
lemma preserves_perform (hw : Inv w) (ha : Careful H c w a) (i : Option String) :
    Preserves H w (perform H a i w).2 := by
  cases a with
  | execute q =>
    cases i with
    | none => exact preserves_execute ha
    | some e => exact .refl w
  | insertToken t =>
    refine .of_store (entries_of_caches (fun t' _ ht' => ?_) fun _ _ h => h) rfl
    refine (AList.lookup_insert_ne fun heq => ?_).trans ht'
    have hmem := hw.entered_of_entry (k := .token) (map_eq_some_iff.2 ⟨t', ht', rfl⟩)
    exact ha _ (heq ▸ hmem)
  | insertApiKey k =>
    refine .of_store (entries_of_caches (fun _ _ h => h) fun k' _ hk' => ?_) rfl
    refine (AList.lookup_insert_ne fun heq => ?_).trans hk'
    have hmem := hw.entered_of_entry (k := .apiKey) (map_eq_some_iff.2 ⟨k', hk', rfl⟩)
    exact ha _ (heq ▸ hmem)
  | removeToken hash =>
    refine .of_store (entries_of_caches (fun t' ht hlookup => ?_) fun _ _ h => h) rfl
    refine (AList.lookup_erase_ne ?_).trans hlookup
    rintro rfl
    exact ht (.inr ha)
  | removeApiKey hash =>
    refine .of_store (entries_of_caches (fun _ _ h => h) fun k' hk hlookup => ?_) rfl
    refine (AList.lookup_erase_ne ?_).trans hlookup
    rintro rfl
    exact hk (.inr ha)
  | retainTokens now =>
    refine .of_store (entries_of_caches (fun t' ht hlookup => ?_) fun _ _ h => h) rfl
    rw [lookup_keepIf, hlookup, filter_some, if_pos]
    refine decide_eq_true (lt_of_not_ge fun hle => ht (gone_token (hle.trans ha)))
  | retainApiKeys now =>
    refine .of_store (entries_of_caches (fun _ _ h => h) fun k' hk hlookup => ?_) rfl
    rw [lookup_keepIf, hlookup, filter_some, if_pos]
    cases he : k'.expiresAt with
    | none => rfl
    | some e =>
      refine decide_eq_true (lt_of_not_ge fun hle => hk (gone_apiKey he (hle.trans ha)))
  | markRevoked hash =>
    refine .of_bloom (fun x _ _ hx => hx) fun h hh => ?_
    rcases mem_cons.1 hh with rfl | hh
    · exact .inr ha.1
    · exact .inl hh
  | bloomInsert hash => exact .of_bloom (fun x _ _ hx => contains_insert hx) fun h hh => .inl hh
  | rebuildBloom hashes =>
    exact .of_bloom (fun x hx hentry _ => contains_rebuildBloom (ha x hx hentry)) fun h hh => .inl hh
  | clearRevoked => exact .of_bloom (fun x _ _ hx => hx) fun h hh => absurd hh not_mem_nil
  | dropTokensOf | revokeTokensOf | dropApiKeysOf => exact ha.elim
  | insertUser | insertUsername | replaceUser | setPasswordHash | setLastLogin | removeUser =>
    exact .of_store (entries_of_caches (fun _ _ h => h) fun _ _ h => h) rfl
  | now | usernameTaken | bootstrapCheck | getUser | enabledUser | getToken | tokenHashes | getApiKey
  | findApiKey | apiKeyHashes | bloomContains | isRevoked => exact .refl w

/-! ## The discipline -/

/-- Only hashes of tokens are marked, and only what has been drawn is created. -/
structure LiveInv (w : AuthWorld) : Prop extends Inv w where
  revoked : ∀ h ∈ w.store.tokenBloom.revoked, (.token, h) ∈ w.entered
  created : ∀ q ∈ w.executed, ∀ y, q.creates = some y → y ∈ w.drawn

structure LiveGuar (H : Hashing) (c : AuthCall) (w w' : AuthWorld) : Prop
    extends Guar H (fun _ => False) c w w', Preserves H w w' where
  newCreated : ∀ q ∈ w'.executed, q ∈ w.executed ∨
    ∀ y, q.creates = some y → y ∈ c.draws H ∧ w.NotEntered y
  liveInv : LiveInv w → LiveInv w'

structure LiveRely (H : Hashing) (c : AuthCall) (w w' : AuthWorld) : Prop
    extends Rely H (fun _ => False) c w w', Preserves H w w' where
  ownCreated : ∀ q ∈ w'.executed, q ∈ w.executed ∨ ∀ y, q.creates = some y → y ∉ c.draws H

lemma LiveRely.refl (c : AuthCall) (w : AuthWorld) : LiveRely H c w w where
  toRely := .refl _ c w
  toPreserves := .refl w
  ownCreated _ hq := .inl hq

lemma LiveRely.trans (h : LiveRely H c w w') (h' : LiveRely H c w' w'') : LiveRely H c w w'' where
  toRely := h.toRely.trans h'.toRely
  toPreserves := h.toPreserves.trans h'.toPreserves
  ownCreated q hq := by
    rcases h'.ownCreated q hq with hq | hq
    · exact h.ownCreated q hq
    · exact .inr hq

lemma LiveGuar.rely {d : AuthCall} (h : LiveGuar H c w w')
    (hapart : List.Disjoint (c.draws H) (d.draws H)) : LiveRely H d w w' where
  toRely := h.toGuar.rely hapart
  toPreserves := h.toPreserves
  ownCreated q hq := by
    rcases h.newCreated q hq with hq | hq
    · exact .inl hq
    · exact .inr fun y hy hd => hapart (hq y hy).1 hd

lemma executed_perform
    (hq : q ∈ (perform H a i w).2.executed) : q ∈ w.executed ∨ a = .execute q := by
  cases a with
  | execute q' =>
    cases i with
    | none =>
      rcases mem_cons.1 hq with rfl | hq
      · exact .inr rfl
      · exact .inl hq
    | some e => exact .inl hq
  | _ => exact .inl hq

lemma revoked_perform (ha : Careful H c w a)
    (hh : h ∈ (perform H a i w).2.store.tokenBloom.revoked) :
    h ∈ w.store.tokenBloom.revoked ∨ a = .markRevoked h := by
  cases a with
  | execute q =>
    cases i with
    | none | some => exact .inl hh
  | markRevoked hash =>
    rcases mem_cons.1 hh with rfl | hh
    · exact .inr rfl
    · exact .inl hh
  | clearRevoked => cases hh
  | revokeTokensOf userId => exact ha.elim
  | _ => exact .inl hh

lemma drawn_perform (a : Access) (i : Option String) : (perform H a i w).2.drawn = w.drawn := by
  cases a with
  | execute q => cases i <;> rfl
  | _ => rfl

lemma liveGuar_of_careful (hw : LiveInv w) (ha : Careful H c w a)
    (hg : Guar H (fun _ => False) c w (perform H a i w).2) : LiveGuar H c w (perform H a i w).2 where
  toGuar := hg
  toPreserves := preserves_perform hw.toInv ha i
  newCreated q hq := by
    rcases executed_perform hq with hq | rfl
    · exact .inl hq
    · refine .inr fun y hy => ?_
      cases q with
      | createToken | createApiKey => cases hy; exact ⟨ha.1, ha.2.1⟩
      | _ => cases hy
  liveInv _ := by
    refine ⟨hg.inv hw.toInv, fun h hh => ?_, fun q hq y hy => ?_⟩
    · rcases revoked_perform ha hh with hh | rfl
      · exact hg.entered _ (hw.revoked h hh)
      · exact ha.2
    · rw [drawn_perform]
      rcases executed_perform hq with hq | rfl
      · exact hw.created q hq y hy
      · cases q with
        | createToken | createApiKey => cases hy; exact ha.2.2
        | _ => cases hy

lemma liveRely_of_careful (hw : LiveInv w) (hadds : ¬ a.Adds) (ha : Careful H c w a) :
    LiveRely H c w (perform H a i w).2 where
  toRely := (shrinks_perform hadds i).rely _ c
  toPreserves := preserves_perform hw.toInv ha i
  ownCreated q hq := by
    rcases executed_perform hq with hq | rfl
    · exact .inl hq
    · refine .inr fun y hy => ?_
      cases q with
      | createToken | createApiKey => exact absurd trivial hadds
      | _ => cases hy

/-! ## Where a live credential is -/

/-- A credential is in its table, in its cache and in the filter, and it is not marked. -/
structure Stored (H : Hashing) (x : Credential) (w : AuthWorld) : Prop where
  row : x ∈ w.rows
  only : ∀ y ∈ w.rows, ∀ p ∈ y.marks, p.2 = x.hash → y = x
  noToken : x.kind = .apiKey → (.token, x.hash) ∉ w.entered
  entry : w.entry x.kind x.hash = some x
  bloom : w.store.tokenBloom.contains H x.hash = true
  unmarked : x.hash ∉ w.store.tokenBloom.revoked

/-- The credential is stored until it is gone. -/
structure Kept (H : Hashing) (x : Credential) (w : AuthWorld) : Prop where
  kind : x.kind = .token ∨ x.kind = .apiKey
  entered : (x.kind, x.hash) ∈ w.entered
  live : ¬ Gone x w → Stored H x w

lemma Kept.of_preserves (h : Kept H x w) (hw' : LiveInv w') (hl : Later (fun _ => False) w w')
    (hp : Preserves H w w') : Kept H x w' := by
  refine ⟨h.kind, hl.entered _ h.entered, fun hx => ?_⟩
  have hold := h.live (hp.not_gone hx)
  have hnotNew : ¬ w.NotEntered x.hash := fun hnot => hnot _ h.entered
  have hnoToken : x.kind = .apiKey → (.token, x.hash) ∉ w'.entered := by
    intro hk hmem
    rcases hl.onlyNew _ hmem with hmem | hnot
    · exact hold.noToken hk hmem
    · exact hnotNew hnot
  refine ⟨hp.liveRows x hx hold.row, fun y hy p hp' hpx => ?_, hnoToken, hp.liveEntries x hx hold.entry,
    hp.liveBloom x hx hold.entry hold.bloom, fun hmem => ?_⟩
  · rcases hl.rows y hy with hy | hfresh
    · exact hold.only y hy p hp' hpx
    · exact absurd (hpx ▸ hfresh p hp') hnotNew
  · rcases hp.marked _ hmem with hmem' | hdel
    · exact hold.unmarked hmem'
    · rcases h.kind with hk | hk
      · refine hx (.inr ?_)
        rwa [Credential.deletion, if_pos hk]
      · exact hnoToken hk (hw'.revoked _ hmem)

/-! ### Restarts -/

lemma mem_loadTokens (ht : t ∈ w.db.refreshTokens)
    (hlive : ¬ Gone t.credential w) : t ∈ w.db.loadTokens w.clock := by
  refine mem_filter.2 ⟨ht, ?_⟩
  rw [Bool.not_eq_true', decide_eq_false_iff_not]
  exact fun hle => hlive (gone_token hle)

lemma mem_loadApiKeys (hk : k ∈ w.db.apiKeys) (hlive : ¬ Gone k.credential w) :
    k ∈ w.db.loadApiKeys w.clock := by
  refine mem_filter.2 ⟨hk, ?_⟩
  cases he : k.expiresAt with
  | none => rfl
  | some e =>
    rw [any_some, Bool.not_eq_true', decide_eq_false_iff_not]
    exact fun hle => hlive (gone_apiKey he hle)

/-- Every API key of the table has expired. -/
def KeysExpired (w : AuthWorld) : Prop :=
  ∀ k ∈ w.db.apiKeys, ∃ e, k.expiresAt = some e ∧ e ≤ w.clock

lemma Kept.restart (h : Kept H x w) (hkeys : KeysExpired w) :
    Kept H x ((authMachine H).restart w) := by
  refine ⟨h.kind, mem_append_right _ h.entered, fun hx => ?_⟩
  have hold := h.live hx
  have hnoToken : x.kind = .apiKey → (.token, x.hash) ∉ ((authMachine H).restart w).entered := by
    intro hk hmem
    rcases mem_append.1 hmem with hmem | hmem
    · rcases mem_keys.1 hmem with ⟨y, hy, hp⟩ | ⟨u, -, hu⟩
      · obtain rfl := hold.only y hy _ hp rfl
        simp [Credential.marks, hk] at hp
      · cases hu
    · exact hold.noToken hk hmem
  refine ⟨hold.row, hold.only, hnoToken, ?_, ?_, not_mem_nil⟩
  · rcases mem_rows.1 hold.row with ⟨t, ht, rfl⟩ | ⟨k, hk, rfl⟩
    · obtain ⟨t', ht', hhash, hlookup⟩ :=
        lookup_insertAll StoredRefreshToken.tokenHash id (mem_loadTokens ht hx)
      have hsame : t'.credential = t.credential :=
        hold.only _ (mem_rows.2 (.inl ⟨t', mem_of_mem_filter ht', rfl⟩)) _ mem_cons_self
          hhash
      exact map_eq_some_iff.2 ⟨t', hlookup, hsame⟩
    · obtain ⟨k', hk', hhash, hlookup⟩ := lookup_insertAll ApiKey.keyHash id (mem_loadApiKeys hk hx)
      have hsame : k'.credential = k.credential :=
        hold.only _ (mem_rows.2 (.inr ⟨k', mem_of_mem_filter hk', rfl⟩)) _ mem_cons_self
          hhash
      exact map_eq_some_iff.2 ⟨k', hlookup, hsame⟩
  · rcases mem_rows.1 hold.row with ⟨t, ht, rfl⟩ | ⟨k, hk, rfl⟩
    · exact contains_rebuildBloom (b := ⟨[], [], 0⟩) (mem_map.2 ⟨t, mem_loadTokens ht hx, rfl⟩)
    · exact absurd (.inl (hkeys k hk)) hx

/-! ### The stages of a new credential -/

/-- The row of a new credential is there, and nothing else under its hash. -/
structure Entering (x row : Credential) (w : AuthWorld) : Prop where
  pending : Pending x.hash (· = row) w
  live : ¬ Gone x w → row = x ∧ x ∈ w.rows

lemma Entering.of_rely (h : Entering x row w) (hx : x.hash ∈ c.draws H)
    (hr : LiveRely H c w w') : Entering x row w' where
  pending := h.pending.of_rely hx hr.toRely
  live hlive :=
    let h' := h.live (hr.not_gone hlive)
    ⟨h'.1, hr.liveRows x hlive h'.2⟩

/-- The entry of a new credential is put into its cache. -/
lemma Entering.kept (h : Entering x row w) (hw : LiveInv w)
    (hkind : x.kind = .token ∨ x.kind = .apiKey)
    (hbloom : w.store.tokenBloom.contains H x.hash = true) (hrows : w'.rows = w.rows)
    (hentered : w'.entered = x.marks ++ w.entered) (hentry : w'.entry x.kind x.hash = some x)
    (htokens : w'.store.tokenBloom = w.store.tokenBloom) (hgone : Gone x w → Gone x w') :
    Kept H x w' := by
  obtain ⟨-, hnot, hold⟩ := h.pending
  refine ⟨hkind, hentered ▸ mem_append_left _ mem_cons_self, fun hx => ?_⟩
  have hx : ¬ Gone x w := fun hg => hx (hgone hg)
  obtain ⟨rfl, hrow⟩ := h.live hx
  refine ⟨hrows ▸ hrow, fun y hy p hp hpx => hold y (hrows ▸ hy) p hp hpx, fun hk hmem => ?_, hentry,
    htokens ▸ hbloom, fun hmem => ?_⟩
  · rw [hentered] at hmem
    rcases mem_append.1 hmem with hmem | hmem
    · simp [Credential.marks, hk] at hmem
    · exact hnot _ hmem
  · rw [htokens] at hmem
    exact hnot _ (hw.revoked _ hmem)

end AuthWorld

variable (H : Hashing)

def TokenKept (hash : String) (w : AuthWorld) : Prop :=
  (.token, hash) ∈ w.entered ∧
    ∀ t, .createToken t ∈ w.executed → t.tokenHash = hash → Kept H t.credential w

/-- What holds from when a credential has been given out. -/
def GivenOut : AuthCall → Except String AuthReply → AuthWorld → Prop
  | .storeRefreshToken _ hash _ _, .ok _, w => TokenKept H hash w
  | .createApiKey _ _ _ _ key _, .ok (.apiKey _ k), w => k.keyHash = H.hmac key ∧ Kept H k.credential w
  | _, _, _ => True

/-- An access comes at a time at which nothing is lost: what is put into a cache is in the filter, and what
the filter is replaced by has the hashes of the live entries. -/
def Timely (w : AuthWorld) : Access → Prop
  | .insertToken t => w.store.tokenBloom.contains H t.tokenHash = true
  | .insertApiKey k => w.store.tokenBloom.contains H k.keyHash = true
  | .rebuildBloom hashes => ∀ x, ¬ Gone x w → w.entry x.kind x.hash = some x → x.hash ∈ hashes
  | _ => True

variable {H} {c : AuthCall} {w w' : AuthWorld} {r : Except String AuthReply}

lemma GivenOut.of_guar {d : AuthCall} (hw : LiveInv w)
    (hg : LiveGuar H c w w') (h : GivenOut H d r w) : GivenOut H d r w' := by
  have hkept : ∀ x, Kept H x w → Kept H x w' := fun x hx =>
    hx.of_preserves (hg.liveInv hw) hg.toLater hg.toPreserves
  cases r with
  | error e => cases d <;> trivial
  | ok a =>
    cases d with
    | storeRefreshToken userId hash ttlSecs id =>
      refine ⟨hg.entered _ h.1, fun t ht hhash => ?_⟩
      rcases hg.newCreated _ ht with ht | hnew
      · exact hkept _ (h.2 t ht hhash)
      · exact absurd h.1 (hhash ▸ (hnew _ rfl).2 _)
    | createApiKey userId name roleOverride expiresAt key id =>
      cases a with
      | apiKey key' k => exact ⟨h.1, hkept _ h.2⟩
      | _ => trivial
    | _ => trivial

/-- The discipline of the calls that give out and revoke credentials. -/
def liveDiscipline (H : Hashing) : Discipline (authMachine H) where
  inv := LiveInv
  apart c d := List.Disjoint (c.draws H) (d.draws H)
  begun c w := ∀ y ∈ c.draws H, y ∈ w.drawn
  may _ a _ w := Timely H w a
  rely := LiveRely H
  guar := LiveGuar H
  post _ := GivenOut H
  rely_refl := LiveRely.refl
  rely_trans := LiveRely.trans
  inv_of_guar hinv hg := hg.liveInv hinv
  rely_of_guar hapart _ hg := hg.rely hapart
  begun_of_guar hg hb y hy := hg.drawn y (hb y hy)
  post_of_guar hinv hg hp := hp.of_guar hinv hg

section Leads

open AuthStore

variable {α : Type} {last : AuthPost α}

variable {a : Access} {q : AuthStatement} {context id userId key : String} {k : Unit → AuthM α}

lemma live_ask {k : Answer a → AuthM α} (ha : ¬ a.Adds)
    (hcare : ∀ w₁, LiveRely H c w w₁ → Timely H w₁ a → Careful H c w₁ a)
    (hk : ∀ w₁ i, LiveRely H c w (perform H a i w₁).2 → LiveInv (perform H a i w₁).2 →
      (liveDiscipline H).Leads c last (k (perform H a i w₁).1) (perform H a i w₁).2) :
    (liveDiscipline H).Leads c last (ask a >>= k) w := by
  refine .perform (fun w₁ i h₁ hinv₁ hmay => ?_) hk
  have hcareful := hcare w₁ h₁ hmay
  exact ⟨liveGuar_of_careful hinv₁ hcareful ((shrinks_perform ha i).guar _ c),
    liveRely_of_careful hinv₁ ha hcareful⟩

lemma live_last {last : AuthPost (Answer a)} (ha : ¬ a.Adds)
    (hcare : ∀ w₁, LiveRely H c w w₁ → Careful H c w₁ a) (hlast : ∀ r w', last r w') :
    (liveDiscipline H).Leads c last (ask a) w :=
  live_ask (k := pure) ha (fun w₁ h₁ _ => hcare w₁ h₁) fun _ _ _ _ w' _ _ => hlast _ w'

lemma live_execute (herror : ∀ e w₁, last (.error e) w₁)
    (hcare : ∀ w₁, LiveRely H c w w₁ → Careful H c w₁ (.execute q) ∧
      Guar H (fun _ => False) c w₁ (perform H (.execute q) none w₁).2)
    (hk : ∀ w₁, LiveRely H c w w₁ → LiveInv w₁ →
      (liveDiscipline H).Leads c last (k ()) (perform H (.execute q) none w₁).2) :
    (liveDiscipline H).Leads c last (execute q context >>= k) w := by
  intro w₁ i h₁ hinv₁ _
  obtain ⟨hcareful, hguar⟩ := hcare w₁ h₁
  cases i with
  | none => exact ⟨liveGuar_of_careful (i := none) hinv₁ hcareful hguar, hk w₁ h₁ hinv₁⟩
  | some e =>
    have hg := liveGuar_of_careful (i := some e) hinv₁ hcareful ((Shrinks.refl w₁).guar _ c)
    exact ⟨hg, fun w₂ _ _ => herror _ w₂⟩

lemma live_plain (hq : ¬ (Access.execute q).Adds) (herror : ∀ e w₁, last (.error e) w₁)
    (hcare : ∀ w₁, LiveRely H c w w₁ → Careful H c w₁ (.execute q))
    (hk : ∀ w₁, LiveRely H c w (perform H (.execute q) none w₁).2 →
      (liveDiscipline H).Leads c last (k ()) (perform H (.execute q) none w₁).2) :
    (liveDiscipline H).Leads c last (execute q context >>= k) w :=
  live_execute herror (fun w₁ h₁ => ⟨hcare w₁ h₁, (shrinks_execute hq).guar _ c⟩) fun w₁ h₁ hinv₁ =>
    hk w₁ (h₁.trans (liveRely_of_careful (i := none) hinv₁ hq (hcare w₁ h₁)))

lemma live_revokeRefreshToken {rawToken : String} {last : AuthPost Unit}
    (hlast : ∀ r w', last r w') :
    (liveDiscipline H).Leads c last (revokeRefreshToken H rawToken) w := by
  refine live_ask not_false (fun _ _ _ => trivial) fun w₁ i₁ h₁ hinv₁ => ?_
  cases hfound : (perform H (.getToken (H.hmac rawToken)) i₁ w₁).1 with
  | none => exact fun w' _ _ => hlast _ w'
  | some t =>
    have hentered := hinv₁.entered_of_entry (k := .token) (map_eq_some_iff.2 ⟨t, hfound, rfl⟩)
    refine live_plain not_false (fun _ _ => hlast _ _) (fun _ _ => trivial) fun w₂ h₂ => ?_
    -- from here on the token is gone
    have hdeleted : .deleteToken (H.hmac rawToken) ∈
        (perform H (.execute (.deleteToken (H.hmac rawToken))) none w₂).2.executed :=
      mem_cons_self
    refine live_ask not_false (fun w₃ h₃ _ => h₃.executed _ hdeleted) fun w₃ i₃ h₃ _ => ?_
    refine live_last not_false (fun w₄ h₄ => ⟨?_, ?_⟩) hlast
    · exact (h₃.trans h₄).executed _ hdeleted
    · exact ((h₂.trans h₃).trans h₄).entered _ hentered

lemma live_revokeApiKey {keyId : String} {last : AuthPost Unit}
    (hlast : ∀ r w', last r w') : (liveDiscipline H).Leads c last (revokeApiKey keyId) w := by
  refine live_ask not_false (fun _ _ _ => trivial) fun w₁ i₁ _ _ => ?_
  split
  · exact fun w' _ _ => hlast _ w'
  next hash _ =>
    refine live_plain not_false (fun _ _ => hlast _ _) (fun _ _ => trivial) fun w₂ h₂ => ?_
    have hdeleted : .deleteApiKey hash ∈
        (perform H (.execute (.deleteApiKey hash)) none w₂).2.executed := mem_cons_self
    exact live_last not_false (fun w₃ h₃ => h₃.executed _ hdeleted) hlast

lemma live_purgeExpired {last : AuthPost Unit} (hlast : ∀ r w', last r w') :
    (liveDiscipline H).Leads c last purgeExpired w := by
  refine live_ask not_false (fun _ _ _ => trivial) fun w₁ i₁ _ _ => ?_
  -- the time that has been read is not after any later time of the clock
  have hle : ∀ {w' : AuthWorld}, LiveRely H c w₁ w' → (w₁.clock : ℤ) ≤ w'.clock :=
    fun h => Int.ofNat_le.2 h.clock
  refine live_plain not_false (fun _ _ => hlast _ _) (fun w₂ h₂ => hle h₂) fun w₂ h₂ => ?_
  refine live_plain not_false (fun _ _ => hlast _ _) (fun w₃ h₃ => hle (h₂.trans h₃)) fun w₃ h₃ => ?_
  have h₁₃ := h₂.trans h₃
  refine live_ask not_false (fun w₄ h₄ _ => hle (h₁₃.trans h₄)) fun w₄ i₄ h₄ _ => ?_
  refine live_ask not_false (fun w₅ h₅ _ => hle ((h₁₃.trans h₄).trans h₅)) fun w₅ i₅ _ _ => ?_
  refine live_ask not_false (fun _ _ _ => trivial) fun w₆ i₆ _ _ => ?_
  refine live_ask not_false (fun _ _ _ => trivial) fun w₇ i₇ _ _ => ?_
  refine live_ask not_false (fun w₈ _ htimely => htimely) fun w₈ i₈ _ _ => ?_
  exact live_last not_false (fun _ _ => trivial) hlast

def NotCreated (H : Hashing) (c : AuthCall) (w : AuthWorld) : Prop :=
  ∀ q ∈ w.executed, ∀ y, q.creates = some y → y ∉ c.draws H

lemma NotCreated.of_rely (h : NotCreated H c w) (hr : LiveRely H c w w') : NotCreated H c w' := by
  intro q hq
  rcases hr.ownCreated q hq with hq | hq
  · exact h q hq
  · exact hq

lemma live_enterToken {t : StoredRefreshToken} {last : AuthPost String}
    (hdraws : t.tokenHash ∈ c.draws H) (hentering : Entering t.credential t.credential w)
    (honly : ∀ t', .createToken t' ∈ w.executed → t'.tokenHash = t.tokenHash → t' = t)
    (hok : ∀ w', TokenKept H t.tokenHash w' → last (.ok id) w') : (liveDiscipline H).Leads c last
      (do ask (.bloomInsert t.tokenHash); ask (.insertToken t); return id) w := by
  have hstill : ∀ {w w'}, LiveRely H c w w' →
      (∀ t', .createToken t' ∈ w.executed → t'.tokenHash = t.tokenHash → t' = t) →
      ∀ t', .createToken t' ∈ w'.executed → t'.tokenHash = t.tokenHash → t' = t := by
    intro w w' hr h t' ht' hhash
    rcases hr.ownCreated _ ht' with ht' | hnot
    · exact h t' ht' hhash
    · exact absurd (hhash ▸ hdraws) (hnot _ rfl)
  refine live_ask not_false (fun _ _ _ => trivial) fun w₁ i₁ h₁ _ => ?_
  have hentering₁ := hentering.of_rely hdraws h₁
  intro w₂ i₂ h₂ hinv₂ hbloom₂
  have hentering₂ := hentering₁.of_rely hdraws h₂
  have hnot₂ := hentering₂.pending.2.1
  refine ⟨liveGuar_of_careful hinv₂ hnot₂ (guar_insertToken i₂ (hentering₂.pending.mints hdraws)), ?_⟩
  have hkept : Kept H t.credential (perform H (.insertToken t) i₂ w₂).2 := by
    refine hentering₂.kept hinv₂ (.inl rfl) hbloom₂ rfl rfl ?_ rfl fun h => h
    exact map_eq_some_iff.2 ⟨t, AList.lookup_insert _, rfl⟩
  have honly₂ := hstill (h₁.trans h₂) honly
  intro w₃ h₃ hinv₃
  refine hok w₃ ⟨h₃.entered _ hkept.entered, fun t' ht' hhash => ?_⟩
  obtain rfl := hstill h₃ honly₂ t' ht' hhash
  exact hkept.of_preserves hinv₃ h₃.toLater h₃.toPreserves

lemma live_storeRefreshToken {hash : String} {ttlSecs : ℕ}
    {last : AuthPost String} (hdraws : hash ∈ c.draws H)
    (hres : Reserved H c w) (hnew : NotCreated H c w) (herror : ∀ e w', last (.error e) w')
    (hok : ∀ w', TokenKept H hash w' → last (.ok id) w') :
    (liveDiscipline H).Leads c last (storeRefreshToken userId hash ttlSecs id) w := by
  refine live_ask not_false (fun _ _ _ => trivial) fun w₁ i₁ h₁ _ => ?_
  have hres₁ := hres.of_rely h₁.toRely
  have hnew₁ := hnew.of_rely h₁
  refine live_execute herror (fun w₂ h₂ => ?_) fun w₂ h₂ _ => ?_
  · have hmints := (hres₁.of_rely h₂.toRely).mints hdraws
    exact ⟨hmints, guar_createToken hmints⟩
  · refine live_enterToken (t := ⟨id, userId, hash, _, false, _⟩) hdraws ⟨?_, fun _ => ⟨rfl, ?_⟩⟩ ?_ hok
    · exact (hres₁.of_rely h₂.toRely).pending hdraws (rows_createToken (H := H)) rfl rfl rfl
    · exact mem_rows.2 (.inl ⟨_, mem_append_right _ mem_cons_self, rfl⟩)
    · intro t' ht' hhash
      rcases mem_cons.1 ht' with heq | ht'
      · exact AuthStatement.createToken.inj heq
      · exact absurd (hhash ▸ hdraws) (hnew₁.of_rely h₂ _ ht' _ rfl)

lemma live_enterApiKey {k : ApiKey} {last : AuthPost (String × ApiKey)}
    (hdraws : k.keyHash ∈ c.draws H ∧ k.id ∈ c.draws H) {row : Credential}
    (hentering : Entering k.credential row w) (hpend : Pending k.id (fun _ => True) w)
    (hok : ∀ w', Kept H k.credential w' → last (.ok (key, k)) w') : (liveDiscipline H).Leads c last
      (do ask (.bloomInsert k.keyHash); ask (.insertApiKey k); return (key, k)) w := by
  refine live_ask not_false (fun _ _ _ => trivial) fun w₁ i₁ h₁ _ => ?_
  have hentering₁ := hentering.of_rely hdraws.1 h₁
  intro w₂ i₂ h₂ hinv₂ hbloom₂
  have hentering₂ := hentering₁.of_rely hdraws.1 h₂
  have hpend₂ := hpend.of_rely hdraws.2 (h₁.trans h₂).toRely
  have hnot₂ := hentering₂.pending.2.1
  refine ⟨liveGuar_of_careful hinv₂ hnot₂ (guar_insertApiKey i₂
    ⟨hentering₂.pending.mints hdraws.1, hpend₂.mints hdraws.2⟩), fun w₃ h₃ hinv₃ => hok w₃ ?_⟩
  have hkept : Kept H k.credential (perform H (.insertApiKey k) i₂ w₂).2 := by
    refine hentering₂.kept hinv₂ (.inr rfl) hbloom₂ rfl rfl ?_ rfl fun h => h
    exact map_eq_some_iff.2 ⟨k, AList.lookup_insert _, rfl⟩
  exact hkept.of_preserves hinv₃ h₃.toLater h₃.toPreserves

lemma live_createApiKey {name : String} {roleOverride : Option Role} {expiresAt : Option ℤ}
    {last : AuthPost (String × ApiKey)}
    (hdraws : H.hmac key ∈ c.draws H ∧ id ∈ c.draws H) (hres : Reserved H c w)
    (herror : ∀ e w', last (.error e) w')
    (hok : ∀ k w', k.keyHash = H.hmac key → Kept H k.credential w' → last (.ok (key, k)) w') :
    (liveDiscipline H).Leads c last
      (createApiKey H userId name roleOverride expiresAt key id) w := by
  refine live_ask not_false (fun _ _ _ => trivial) fun w₁ i₁ h₁ _ => ?_
  split
  · exact fun w' _ _ => herror _ w'
  refine live_ask not_false (fun _ _ _ => trivial) fun w₂ i₂ h₂ _ => ?_
  have hres₂ := hres.of_rely (h₁.trans h₂).toRely
  refine live_execute herror (fun w₃ h₃ => ?_) fun w₃ h₃ _ => ?_
  · have hres₃ := hres₂.of_rely h₃.toRely
    exact ⟨hres₃.mints hdraws.1, guar_createApiKey ⟨hres₃.mints hdraws.1, hres₃.mints hdraws.2⟩⟩
  · have hres₃ := hres₂.of_rely h₃.toRely
    refine live_enterApiKey
      (k := ⟨id, userId, H.hmac key, name, _, roleOverride, expiresAt, _, false⟩) hdraws
      ⟨hres₃.pending hdraws.1 (rows_createApiKey (H := H)) rfl rfl rfl, fun hlive => ⟨?_, ?_⟩⟩
      (hres₃.pending hdraws.2 (rows_createApiKey (H := H)) rfl rfl trivial)
      fun w' => hok _ w' rfl
    · rw [filter_expiresAt hlive]
      rfl
    · refine mem_rows.2 (.inr ⟨_, mem_append_right _ mem_cons_self, ?_⟩)
      rw [filter_expiresAt hlive]

end Leads

/-! ## Runs -/

/-- The calls that give out, revoke and purge credentials. -/
def AuthCall.OfCredentials : AuthCall → Prop
  | .storeRefreshToken _ _ _ _ => True
  | .createApiKey _ _ _ _ _ _ => True
  | .revokeRefreshToken _ => True
  | .revokeApiKey _ => True
  | .purgeExpired => True
  | _ => False

/-! ## Replacements of the filter -/

/-- The hash of the entry that an access puts into a cache. -/
def Access.enters : Access → Option String
  | .insertToken t => some t.tokenHash
  | .insertApiKey k => some k.keyHash
  | _ => none

/-- The accesses of a purge that has read the hashes of the tokens, up to the replacement of the filter. -/
def Access.hasRead : Access → Bool
  | .apiKeyHashes => true
  | .rebuildBloom _ => true
  | _ => false

def AboutTo (s : AuthPool) (a : Access) : Prop :=
  ∃ n c p, s.running n = some (c, p) ∧ p.first = some a

/-- **The condition on the order of the steps** of a run of these calls.  When a purge begins to read the
hashes, no call has put a hash into the filter and not yet into its cache; until the purge has replaced the
filter, none puts a hash into it; and at a restart every API key has expired. -/
def LiveOk (s : AuthPool) : PoolAction (Option String) AuthCall ℕ → Prop
  | .invoke c => c.OfCredentials
  | .access n _ => ∀ c a next, s.running n = some (c, .access a next) →
      (a = .tokenHashes → ∀ b, AboutTo s b → b.enters = none) ∧
        ∀ hash, a = .bloomInsert hash → ∀ b, AboutTo s b → b.hasRead = false
  | .restart => KeysExpired s.shared
  | _ => True

/-- Where a call is: a hash is in the filter and not yet in its cache, or hashes have been read that the
filter is to be replaced by. -/
inductive Phase where
  | idle
  | filtered (hash : String)
  | readTokens (hashes : List String)
  | readAll (hashes : List String)

namespace Phase

def Allows : Phase → Access → Prop
  | idle, a => a.enters = none ∧ a.hasRead = false
  | filtered hash, a => a.enters = some hash
  | readTokens _, a => a = .apiKeyHashes
  | readAll hashes, a => a = .rebuildBloom hashes

def next : Phase → (a : Access) → Answer a → Phase
  | _, .bloomInsert hash, _ => filtered hash
  | _, .tokenHashes, hashes => readTokens hashes
  | readTokens hashes, .apiKeyHashes, keyHashes => readAll (hashes ++ keyHashes)
  | _, _, _ => idle

/-- A list has the hashes of the live entries of a kind. -/
def Covers (w : AuthWorld) (k : Kind) (l : List String) : Prop :=
  ∀ x, ¬ Gone x w → w.entry k x.hash = some x → x.hash ∈ l

lemma covers_tokens (w : AuthWorld) :
    Covers w .token ((values w.store.tokensCache).map StoredRefreshToken.tokenHash) := by
  intro x _ hentry
  obtain ⟨t, ht, rfl⟩ := map_eq_some_iff.1 hentry
  exact mem_map.2 ⟨t, mem_values_of_lookup ht, rfl⟩

lemma covers_apiKeys (w : AuthWorld) :
    Covers w .apiKey ((values w.store.apiKeysCache).map ApiKey.keyHash) := by
  intro x _ hentry
  obtain ⟨k, hk, rfl⟩ := map_eq_some_iff.1 hentry
  exact mem_map.2 ⟨k, mem_values_of_lookup hk, rfl⟩

def Ok (H : Hashing) (w : AuthWorld) : Phase → Prop
  | idle => True
  | filtered hash => w.store.tokenBloom.contains H hash = true
  | readTokens hashes => Covers w .token hashes
  | readAll hashes => ∀ k, Covers w k hashes

end Phase

/-- The accesses that the program may make follow the phases. -/
def Ordered {α : Type} : Phase → AuthM α → Prop
  | φ, .ret _ => φ = .idle
  | φ, .access a next => φ.Allows a ∧ ∀ b, Ordered (φ.next a b) (next b)

section Ordered

open AuthStore

variable {α β : Type} {p : AuthM α} {φ : Phase} {a : Access} {context : String}

lemma Ordered.bind {k : α → AuthM β} (hp : Ordered φ p) (hk : ∀ a, Ordered .idle (k a)) :
    Ordered φ (p >>= k) := by
  induction p generalizing φ with
  | ret r =>
    obtain rfl : φ = .idle := hp
    cases r with
    | ok a => exact hk a
    | error e => rfl
  | access a next ih => exact ⟨hp.1, fun b => ih b (hp.2 b)⟩

lemma ordered_ask {k : Answer a → AuthM α} (ha : φ.Allows a) (hk : ∀ b, Ordered (φ.next a b) (k b)) :
    Ordered φ (ask a >>= k) := ⟨ha, hk⟩

lemma ordered_execute {q : AuthStatement} : Ordered .idle (execute q context) := by
  refine ordered_ask ⟨rfl, rfl⟩ fun r => ?_
  cases r with
  | ok | error => rfl

lemma ordered_createApiKey {userId name : String} {roleOverride : Option Role} {expiresAt : Option ℤ}
    {key id : String} :
    Ordered .idle (createApiKey H userId name roleOverride expiresAt key id) := by
  refine ordered_ask ⟨rfl, rfl⟩ fun user => ?_
  split
  · rfl
  · exact ordered_ask ⟨rfl, rfl⟩ fun now => ordered_execute.bind fun _ => ordered_ask ⟨rfl, rfl⟩ fun _ =>
      ordered_ask rfl fun _ => rfl

lemma ordered_revokeRefreshToken {rawToken : String} :
    Ordered .idle (revokeRefreshToken H rawToken) := by
  refine ordered_ask ⟨rfl, rfl⟩ fun found => ?_
  split
  · rfl
  · exact ordered_execute.bind fun _ => ordered_ask ⟨rfl, rfl⟩ fun _ => ⟨⟨rfl, rfl⟩, fun _ => rfl⟩

lemma ordered_revokeApiKey {keyId : String} : Ordered .idle (revokeApiKey keyId) := by
  refine ordered_ask ⟨rfl, rfl⟩ fun found => ?_
  cases found with
  | none => rfl
  | some hash => exact ordered_execute.bind fun _ => ⟨⟨rfl, rfl⟩, fun _ => rfl⟩

lemma ordered_purgeExpired : Ordered .idle purgeExpired := by
  refine ordered_ask ⟨rfl, rfl⟩ fun now => ordered_execute.bind fun _ => ordered_execute.bind fun _ =>
    ordered_ask ⟨rfl, rfl⟩ fun _ => ordered_ask ⟨rfl, rfl⟩ fun _ => ?_
  exact ordered_ask ⟨rfl, rfl⟩ fun _ => ordered_ask rfl fun _ => ordered_ask rfl fun _ =>
    ⟨⟨rfl, rfl⟩, fun _ => rfl⟩

lemma ordered_program (hc : c.OfCredentials) : Ordered .idle (c.program H) := by
  cases c with
  | storeRefreshToken userId hash ttlSecs id =>
    exact .bind (ordered_ask ⟨rfl, rfl⟩ fun now => ordered_execute.bind fun _ =>
      ordered_ask ⟨rfl, rfl⟩ fun _ => ordered_ask rfl fun _ => rfl) fun _ => rfl
  | createApiKey => exact ordered_createApiKey.bind fun _ => rfl
  | revokeRefreshToken => exact ordered_revokeRefreshToken.bind fun _ => rfl
  | revokeApiKey => exact ordered_revokeApiKey.bind fun _ => rfl
  | purgeExpired => exact ordered_purgeExpired.bind fun _ => rfl
  | _ => exact hc.elim

end Ordered

section Phases

variable {a b : Access} {i : Option String} {φ : Phase} {s : AuthPool} {p : AuthM AuthReply}

/-- Only a replacement takes hashes out of the filter. -/
lemma contains_perform {hash : String} (ha : a.hasRead = false)
    (h : w.store.tokenBloom.contains H hash = true) :
    (perform H a i w).2.store.tokenBloom.contains H hash = true := by
  cases a with
  | execute q => cases i <;> exact h
  | bloomInsert hash' => exact contains_insert h
  | rebuildBloom hashes => cases ha
  | revokeTokensOf userId =>
    exact foldlRecOn (motive := fun b : TokenCache => b.contains H hash = true) _ _ h
      fun _ hb _ _ => hb
  | _ => exact h

lemma Access.hasRead_of_enters (h : a.enters ≠ none) : a.hasRead = false := by
  cases a with
  | insertToken | insertApiKey => rfl
  | _ => exact absurd rfl h

namespace Phase

lemma allows_of_first {α : Type} {p : AuthM α} (hp : Ordered φ p) (ha : p.first = some a) :
    φ.Allows a := by
  cases p with
  | ret r => cases ha
  | access a next =>
    cases ha
    exact hp.1

/-- A call that is about to enter something has put its hash into the filter. -/
lemma eq_bloomInsert_of_enters {r : Answer a} (hb : (φ.next a r).Allows b) (h : b.enters ≠ none) :
    ∃ hash, a = .bloomInsert hash := by
  cases a with
  | bloomInsert hash => exact ⟨hash, rfl⟩
  | tokenHashes => exact absurd (congrArg Access.enters hb) h
  | apiKeyHashes =>
    cases φ with
    | readTokens l => exact absurd (congrArg Access.enters hb) h
    | _ => exact absurd hb.1 h
  | _ => exact absurd hb.1 h

/-- A call that is about to replace the filter has read the hashes. -/
lemma eq_of_hasRead {r : Answer a} (hb : (φ.next a r).Allows b) (h : b.hasRead = true) :
    a = .tokenHashes ∨ a = .apiKeyHashes := by
  cases a with
  | bloomInsert hash =>
    have hread := Access.hasRead_of_enters (a := b) (by rw [show b.enters = some hash from hb]; simp)
    exact absurd (hread.symm.trans h) Bool.false_ne_true
  | tokenHashes => exact .inl rfl
  | apiKeyHashes => exact .inr rfl
  | _ => exact absurd (hb.2.symm.trans h) Bool.false_ne_true

/-- Only an entry adds to what is live. -/
lemma Covers.perform {k : Kind} {l : List String} (h : Covers w k l) (ha : a.enters = none) :
    Covers (perform H a i w).2 k l := by
  intro x hx hentry
  refine h x (fun hg => hx (hg.mono ?_ fun q hq => ?_)) ?_
  · cases a with
    | execute => cases i <;> exact le_refl _
    | _ => exact le_refl _
  · cases a with
    | execute =>
      cases i with
      | none => exact mem_cons_of_mem _ hq
      | some => exact hq
    | _ => exact hq
  · cases a with
    | insertToken | insertApiKey => cases ha
    | insertUser | replaceUser => cases k <;> exact hentry
    | execute => cases i <;> exact hentry
    | _ => exact (shrinks_perform id i).entries _ _ _ hentry

/-- An access of another call leaves a phase as it is, if not one of them is to put a hash into its cache
and the other to replace the filter. -/
lemma Ok.perform (h : φ.Ok H w) (hb : φ.Allows b) (hfilter : b.enters ≠ none → a.hasRead = false)
    (hcache : b.hasRead = true → a.enters = none) : φ.Ok H (AuthWorld.perform H a i w).2 := by
  cases φ with
  | idle => trivial
  | filtered hash => exact contains_perform (hfilter (ne_none_iff_exists'.2 ⟨hash, hb⟩)) h
  | readTokens l =>
    obtain rfl : b = .apiKeyHashes := hb
    exact Covers.perform h (hcache rfl)
  | readAll l =>
    obtain rfl : b = .rebuildBloom l := hb
    exact fun k => (h k).perform (hcache rfl)

lemma Ok.next (h : φ.Ok H w) (ha : φ.Allows a) (i : Option String) :
    (φ.next a (AuthWorld.perform H a i w).1).Ok H (AuthWorld.perform H a i w).2 := by
  cases a with
  | bloomInsert hash => exact contains_insert_self _ _
  | tokenHashes => exact covers_tokens w
  | apiKeyHashes =>
    cases φ with
    | readTokens l =>
      intro k x hx hentry
      cases k with
      | token => exact mem_append_left _ (h x hx hentry)
      | apiKey => exact mem_append_right _ (covers_apiKeys w x hx hentry)
      | apiKeyId | user => cases hentry
    | idle => cases ha.2
    | filtered | readAll => cases ha
  | _ => trivial

lemma Ok.later (h : φ.Ok H w) {drawn : List String} {clock : ℕ} (hclock : w.clock ≤ clock) :
    φ.Ok H { w with drawn := drawn, clock := clock } := by
  have hcovers : ∀ {k l}, Covers w k l → Covers { w with drawn := drawn, clock := clock } k l := by
    intro k l h x hx hentry
    refine h x (fun hg => hx (hg.mono hclock fun _ hq => hq)) ?_
    cases k <;> exact hentry
  cases φ with
  | idle => trivial
  | filtered hash => exact h
  | readTokens l => exact hcovers h
  | readAll l => exact fun k => hcovers (h k)

lemma Ok.timely (h : φ.Ok H w) (ha : φ.Allows a) : Timely H w a := by
  cases a with
  | insertToken | insertApiKey =>
    cases φ with
    | filtered hash =>
      cases ha
      exact h
    | idle => cases ha.1
    | readTokens | readAll => cases ha
  | rebuildBloom l =>
    cases φ with
    | readAll l' =>
      cases ha
      exact fun x hx hentry => h x.kind x hx hentry
    | idle => cases ha.2
    | filtered | readTokens => cases ha
  | _ => trivial

end Phase

/-- Each call that is running is in a phase, and while one of them replaces the filter none has a hash in
the filter only. -/
structure Windows (H : Hashing) (s : AuthPool) : Prop where
  phase : ∀ n c p, s.running n = some (c, p) → ∃ φ : Phase, Ordered φ p ∧ φ.Ok H s.shared
  apart : ∀ a b, AboutTo s a → AboutTo s b → a.enters ≠ none → b.hasRead = false

lemma aboutTo_of_update {shared : AuthWorld} {n next : ℕ} {returned : List (ℕ × AuthCall × Except String AuthReply)}
    (h : AboutTo ⟨shared, Function.update s.running n (some (c, p)), next, returned⟩ b) :
    p.first = some b ∨ AboutTo s b := by
  obtain ⟨m, d, q, hm, hb⟩ := h
  rcases of_update hm with ⟨-, ⟨⟩⟩ | ⟨-, hm⟩
  · exact .inl hb
  · exact .inr ⟨m, d, q, hm, hb⟩

lemma Windows.access {n : ℕ} {next : Answer a → AuthM AuthReply} (h : Windows H s)
    (hok : LiveOk s (.access n i)) (hrun : s.running n = some (c, .access a next)) :
    Windows H
      { s with
        shared := (perform H a i s.shared).2
        running := Function.update s.running n (some (c, next (perform H a i s.shared).1)) } := by
  obtain ⟨φ, ⟨hallows, hnext⟩, hφ⟩ := h.phase n c _ hrun
  obtain ⟨hreads, hfilters⟩ := hok c a next hrun
  have habout : AboutTo s a := ⟨n, c, _, hrun, rfl⟩
  refine ⟨fun m d p hm => ?_, fun b b' hb hb' henters => ?_⟩
  · rcases of_update hm with ⟨-, ⟨⟩⟩ | ⟨-, hm⟩
    · exact ⟨_, hnext _, hφ.next hallows i⟩
    · obtain ⟨ψ, hψ, hokψ⟩ := h.phase m d p hm
      refine ⟨ψ, hψ, ?_⟩
      cases p with
      | ret r =>
        obtain rfl : ψ = .idle := hψ
        trivial
      | access b next' =>
        have hb : AboutTo s b := ⟨m, d, _, hm, rfl⟩
        refine hokψ.perform hψ.1 (h.apart b a hb habout) fun hread => ?_
        by_contra henters
        exact absurd ((h.apart a b habout hb henters).symm.trans hread) Bool.false_ne_true
  · have hallows' : ∀ {b}, (next (perform H a i s.shared).1).first = some b →
        (φ.next a (perform H a i s.shared).1).Allows b := fun hb => Phase.allows_of_first (hnext _) hb
    rcases aboutTo_of_update hb with hnew | hold
    · obtain ⟨hash, heq⟩ := Phase.eq_bloomInsert_of_enters (hallows' hnew) henters
      rcases aboutTo_of_update hb' with hnew' | hold'
      · obtain rfl : b = b' := some.inj (hnew.symm.trans hnew')
        exact Access.hasRead_of_enters henters
      · exact hfilters hash heq b' hold'
    · rcases aboutTo_of_update hb' with hnew' | hold'
      · by_contra hread
        rcases Phase.eq_of_hasRead (hallows' hnew') (Bool.eq_true_of_not_eq_false hread) with heq | heq
        · exact henters (hreads heq b hold)
        · subst heq
          cases h.apart b _ hold habout henters
      · exact h.apart b b' hold hold' henters

lemma Windows.step {s' : AuthPool} {act : PoolAction (Option String) AuthCall ℕ} (h : Windows H s)
    (hmoves : (authMachine H).Moves s act s') (hok : LiveOk s act) : Windows H s' := by
  cases hmoves with
  | @invoke c w hbegin =>
    obtain ⟨rfl, -⟩ := eq_of_begin hbegin
    have hidle : ∀ {b}, (c.program H).first = some b → Phase.idle.Allows b :=
      fun hb => Phase.allows_of_first (ordered_program hok) hb
    refine ⟨fun m d p hm => ?_, fun b b' hb hb' henters => ?_⟩
    · rcases of_update hm with ⟨-, ⟨⟩⟩ | ⟨-, hm⟩
      · exact ⟨.idle, ordered_program hok, trivial⟩
      · obtain ⟨φ, hφ, hokφ⟩ := h.phase m d p hm
        exact ⟨φ, hφ, hokφ.later (le_refl _)⟩
    · rcases aboutTo_of_update hb with hb | hb
      · exact absurd (hidle hb).1 henters
      rcases aboutTo_of_update hb' with hb' | hb'
      · exact (hidle hb').2
      · exact h.apart b b' hb hb' henters
  | access hrun => exact h.access hok hrun
  | @finish n c r hrun =>
    have hsub : ∀ {m d p}, Function.update s.running n none m = some (d, p) →
        s.running m = some (d, p) := by
      intro m d p hm
      rcases of_update hm with ⟨-, ⟨⟩⟩ | ⟨-, hm⟩
      exact hm
    exact ⟨fun m d p hm => h.phase m d p (hsub hm), fun b b' ⟨m, d, p, hm, hb⟩ ⟨m', d', p', hm', hb'⟩ =>
      h.apart b b' ⟨m, d, p, hsub hm, hb⟩ ⟨m', d', p', hsub hm', hb'⟩⟩
  | elapse =>
    refine ⟨fun m d p hm => ?_, h.apart⟩
    obtain ⟨φ, hφ, hokφ⟩ := h.phase m d p hm
    exact ⟨φ, hφ, hokφ.later (Nat.le_add_right _ _)⟩
  | restart => exact ⟨nofun, fun b b' ⟨_, _, _, hm, _⟩ => nomatch hm⟩

end Phases

open AuthStore in
lemma live_program {n : ℕ} (hc : c.OfCredentials) (hres : Reserved H c w) (hnew : NotCreated H c w) :
    (liveDiscipline H).Leads c ((liveDiscipline H).post n c) (c.program H) w := by
  cases c with
  | storeRefreshToken userId hash ttlSecs id =>
    refine .bind (live_storeRefreshToken (by simp [AuthCall.draws]) hres hnew (fun _ _ => trivial) ?_)
    intro w₁ hkept w₂ h₂ hinv₂
    refine ⟨h₂.entered _ hkept.1, fun t ht hhash => ?_⟩
    rcases h₂.ownCreated _ ht with ht | hnot
    · exact (hkept.2 t ht hhash).of_preserves hinv₂ h₂.toLater h₂.toPreserves
    · exact absurd (by simp [AuthCall.draws, hhash]) (hnot _ rfl)
  | createApiKey userId name roleOverride expiresAt key id =>
    refine .bind (live_createApiKey (by simp [AuthCall.draws]) hres (fun _ _ => trivial) ?_)
    exact fun k w₁ hhash hkept w₂ h₂ hinv₂ =>
      ⟨hhash, hkept.of_preserves hinv₂ h₂.toLater h₂.toPreserves⟩
  | revokeRefreshToken rawToken => exact .done (fun _ _ => trivial) fun _ => live_revokeRefreshToken
  | revokeApiKey keyId => exact .done (fun _ _ => trivial) fun _ => live_revokeApiKey
  | purgeExpired => exact .done (fun _ _ => trivial) fun _ => live_purgeExpired
  | _ => exact hc.elim

lemma live_outer {drawn : List String} {clock : ℕ} (hdrawn : ∀ y ∈ w.drawn, y ∈ drawn)
    (hclock : w.clock ≤ clock) :
    (liveDiscipline H).Outer w { w with drawn := drawn, clock := clock } := by
  have hpreserves : Preserves H w { w with drawn := drawn, clock := clock } :=
    { clock := hclock
      executed := fun _ hq => hq
      liveRows := fun _ _ hx => hx
      liveEntries := fun _ _ hx => hx
      liveBloom := fun _ _ _ hx => hx
      marked := fun _ hh => .inl hh }
  have hinv : LiveInv w → LiveInv { w with drawn := drawn, clock := clock } := fun hw =>
    { inv_of_drawn hw.toInv hdrawn with
      revoked := hw.revoked
      created := fun q hq y hy => hdrawn y (hw.created q hq y hy) }
  refine ⟨hinv, fun c _ _ => ?_, fun c hb y hy => hdrawn y (hb y hy), fun n c r hw hp => ?_⟩
  · exact { rely_of_drawn hdrawn, hpreserves with ownCreated := fun q hq => .inl hq }
  · have hguar : LiveGuar H .purgeExpired w { w with drawn := drawn, clock := clock } :=
      { (Shrinks.refl w).guar _ .purgeExpired, hpreserves with
        drawn := hdrawn
        inv := fun _ => (hinv hw).toInv
        newCreated := fun q hq => .inl hq
        liveInv := hinv }
    exact hp.of_guar hw hguar

lemma GivenOut.restart (h : GivenOut H c r w) (hkeys : KeysExpired w) :
    GivenOut H c r ((authMachine H).restart w) := by
  cases r with
  | error e => cases c <;> trivial
  | ok a =>
    cases c with
    | storeRefreshToken userId hash ttlSecs id =>
      exact ⟨mem_append_right _ h.1, fun t ht hhash => (h.2 t ht hhash).restart hkeys⟩
    | createApiKey userId name roleOverride expiresAt key id =>
      cases a with
      | apiKey key' k => exact ⟨h.1, h.2.restart hkeys⟩
      | _ => trivial
    | _ => trivial

lemma live_of_reachable {s : AuthPool} (h : (authSystem H).ReachableBy LiveOk s) :
    (liveDiscipline H).Sound s ∧ Windows H s := by
  refine h.invariant (I := fun s => (liveDiscipline H).Sound s ∧ Windows H s) ?_ ?_
  · rintro s ⟨hopened, hrunning, -, hreturned⟩
    refine ⟨Discipline.sound_of_none ⟨inv_of_opened hopened, ?_, ?_⟩ hrunning hreturned, ?_, ?_⟩
    · rw [hopened.store]
      exact fun h hh => nomatch hh
    · rw [hopened.executed]
      exact fun q hq => nomatch hq
    · rw [hrunning]
      exact nofun
    · rintro a b ⟨n, c, p, hn, -⟩
      rw [hrunning] at hn
      cases hn
  · rintro s a s' - ⟨hs, hwindows⟩ hok hstep
    have hmoves := Machine.moves_of_step hstep
    refine ⟨hs.step hmoves ?_, hwindows.step hmoves hok⟩
    cases a with
    | invoke c =>
      intro w hbegin hinv
      obtain ⟨rfl, hnew⟩ := eq_of_begin hbegin
      refine ⟨fun n d p hrun hd => ⟨?_, ?_⟩, ?_, ?_, fun _ => live_program (n := s.next) hok ?_ ?_⟩
      · exact fun y hy hy' => hnew y hy (hd y hy')
      · exact fun y hy' hy => hnew y hy (hd y hy')
      · exact live_outer (fun _ hy => mem_append_right _ hy) (le_refl _)
      · exact fun y hy => mem_append_left _ hy
      · exact reserved_of_begin hinv.toInv hbegin
      · exact fun q hq y hy hd => hnew y hd (hinv.created q hq y hy)
    | access n i =>
      intro c a next hrun
      obtain ⟨φ, hφ, hokφ⟩ := hwindows.phase n c _ hrun
      exact hokφ.timely hφ.1
    | finish n => trivial
    | elapse e => exact live_outer (fun _ hy => hy) (Nat.le_add_right _ _)
    | restart =>
      refine ⟨⟨hs.inv.toInv.restart, fun h hh => absurd hh not_mem_nil, hs.inv.created⟩,
        fun n c r hp => ?_⟩
      exact GivenOut.restart hp hok

/-! ## Acceptance -/

def AuthWorld.Enabled (w : AuthWorld) (userId : String) : Prop :=
  ∃ u, w.store.usersCache.lookup userId = some u ∧ u.enabled = true

/-- A refresh token passes the check and is accepted. -/
def AcceptsToken (H : Hashing) (w : AuthWorld) (rawToken : String) : Prop :=
  w.store.tokenBloom.check H (H.hmac rawToken) = .maybeValid ∧
    ∃ r, (Prog.alone (perform H) none (AuthStore.validateRefreshToken H rawToken) w).1 = .ok r

def AcceptsApiKey (H : Hashing) (w : AuthWorld) (key : String) : Prop :=
  w.store.tokenBloom.check H (H.hmac key) = .maybeValid ∧
    ∃ r, (Prog.alone (perform H) none (AuthStore.authenticateApiKey H key) w).1 = .ok r

section Acceptance

open AuthStore

lemma check_of_stored {x : Credential} {hash : String} (h : Stored H x w) (hhash : hash = x.hash) :
    w.store.tokenBloom.check H hash = .maybeValid := by
  rw [hhash, TokenCache.check, h.bloom, if_neg (by simp), if_neg h.unmarked]

lemma alone_ask {α : Type} (a : Access) (k : Answer a → AuthM α) (w : AuthWorld) :
    (ask a >>= k).alone (perform H) none w =
      (k (perform H a none w).1).alone (perform H) none
        (perform H a none w).2 := rfl

lemma alone_checkHash {x : Credential} {hash : String} (h : Stored H x w) (hhash : hash = x.hash)
    (notIssued revoked : String) :
    (checkHash hash notIssued revoked).alone (perform H) none w = (.ok (), w) := by
  subst hhash
  have hknown : (perform H (.bloomContains x.hash) none w).1 = true := h.bloom
  have hmarked : (perform H (.isRevoked x.hash) none w).1 = false :=
    decide_eq_false h.unmarked
  have hsame : (perform H (.bloomContains x.hash) none w).2 = w := rfl
  rw [checkHash, alone_ask, hknown, Bool.not_true, if_neg Bool.false_ne_true, alone_ask, hsame,
    hmarked]
  rfl

lemma enabledUser_of_enabled {userId : String} (hw : w.Inv) (h : w.Enabled userId) :
    ∃ u, (perform H (.enabledUser userId) none w).1 = some u := by
  obtain ⟨u, hlookup, henabled⟩ := h
  refine isSome_iff_exists.1 (find?_isSome.2 ⟨u, mem_values_of_lookup hlookup, ?_⟩)
  rw [Bool.and_eq_true]
  exact ⟨decide_eq_true (hw.users _ _ hlookup).1, henabled⟩

lemma acceptsToken_of_stored {t : StoredRefreshToken} {rawToken : String} (hw : w.Inv)
    (h : Stored H t.credential w) (hraw : H.hmac rawToken = t.tokenHash)
    (hlive : (w.clock : ℤ) < t.expiresAt) (huser : w.Enabled t.userId) :
    AcceptsToken H w rawToken := by
  refine ⟨check_of_stored h hraw, ?_⟩
  obtain ⟨t', ht', hsame⟩ := map_eq_some_iff.1 h.entry
  obtain ⟨-, -, huserId, -, hexpires⟩ := Credential.mk.inj hsame
  obtain ⟨u, hu⟩ := enabledUser_of_enabled (H := H) hw (huserId ▸ huser)
  have hfound : (perform H (.getToken (H.hmac rawToken)) none w).1 = some t' := hraw ▸ ht'
  have hfilter : Option.filter (fun x : StoredRefreshToken =>
      decide ((perform H .now none w).1 < x.expiresAt)) (some t') = some t' := by
    rw [filter_some, if_pos]
    rw [Option.some.inj hexpires]
    exact decide_eq_true hlive
  have hnow : (perform H .now none w).2 = w := rfl
  have hget : (perform H (.getToken (H.hmac rawToken)) none w).2 = w := rfl
  refine ⟨(u, t'.id), ?_⟩
  rw [validateRefreshToken, Prog.alone_bind (alone_checkHash h hraw _ _), alone_ask, alone_ask, hnow,
    hget, hfound, hfilter]
  rw [alone_ask, hu]
  rfl

lemma acceptsApiKey_of_stored {k : ApiKey} {key : String} (hw : w.Inv) (h : Stored H k.credential w)
    (hkey : H.hmac key = k.keyHash) (hlive : ∀ e, k.expiresAt = some e → (w.clock : ℤ) < e)
    (huser : w.Enabled k.userId) : AcceptsApiKey H w key := by
  refine ⟨check_of_stored h hkey, ?_⟩
  obtain ⟨k', hk', hsame⟩ := map_eq_some_iff.1 h.entry
  obtain ⟨-, -, huserId, -, hexpires⟩ := Credential.mk.inj hsame
  obtain ⟨u, hu⟩ := enabledUser_of_enabled (H := H) hw (huserId ▸ huser)
  have hfound : (perform H (.getApiKey (H.hmac key)) none w).1 = some k' := hkey ▸ hk'
  have hnot : ¬ (k'.expiresAt.any fun e => decide (e < (perform H .now none w).1)) = true := by
    rw [hexpires]
    cases he : k.expiresAt with
    | none => simp
    | some e =>
      rw [any_some, decide_eq_true_eq]
      exact (hlive e he).not_gt
  have hnow : (perform H .now none w).2 = w := rfl
  have hget : (perform H (.getApiKey (H.hmac key)) none w).2 = w := rfl
  refine ⟨⟨u.id, u.username, k'.roleOverride.getD u.role, .apiKey⟩, ?_⟩
  rw [authenticateApiKey, Prog.alone_bind (alone_checkHash h hkey _ _), alone_ask, alone_ask, hnow,
    hget, hfound]
  dsimp only
  rw [if_neg hnot, alone_ask, hu]
  rfl

end Acceptance

/-- **Live credentials are accepted.**  In every run whose steps meet the condition: a refresh token or
an API key that has been given out, has not expired, has not been deleted and whose user is enabled
passes the check and is accepted. -/
theorem live_credentials_accepted {s : AuthPool} (h : (authSystem H).ReachableBy LiveOk s) :
    (∀ n userId hash ttlSecs id r,
      (n, .storeRefreshToken userId hash ttlSecs id, .ok r) ∈ s.returned →
      ∀ t, .createToken t ∈ s.shared.executed → t.tokenHash = hash →
        (s.shared.clock : ℤ) < t.expiresAt → .deleteToken hash ∉ s.shared.executed →
        s.shared.Enabled t.userId →
        ∀ rawToken, H.hmac rawToken = hash → AcceptsToken H s.shared rawToken) ∧
    ∀ n userId name roleOverride expiresAt key id key' k,
      (n, .createApiKey userId name roleOverride expiresAt key id, .ok (.apiKey key' k)) ∈ s.returned →
        (∀ e, k.expiresAt = some e → (s.shared.clock : ℤ) < e) →
        .deleteApiKey k.keyHash ∉ s.shared.executed → s.shared.Enabled k.userId →
        AcceptsApiKey H s.shared key := by
  obtain ⟨hs, -⟩ := live_of_reachable h
  refine ⟨?_, ?_⟩
  · intro n userId hash ttlSecs id r hr t ht hhash hlive hnot huser rawToken hraw
    have hkept := (hs.post n _ _ hr).2 t ht hhash
    refine acceptsToken_of_stored hs.inv.toInv (hkept.live ?_) (hraw.trans hhash.symm) hlive huser
    rintro (⟨e, he, hle⟩ | hdeleted)
    · cases he
      exact hlive.not_ge hle
    · exact hnot (hhash ▸ hdeleted)
  · intro n userId name roleOverride expiresAt key id key' k hr hlive hnot huser
    obtain ⟨hkey, hkept⟩ := hs.post n _ _ hr
    refine acceptsApiKey_of_stored hs.inv.toInv (hkept.live ?_) hkey.symm hlive huser
    rintro (⟨e, he, hle⟩ | hdeleted)
    · exact (hlive e he).not_ge hle
    · exact hnot hdeleted

/-- A check for the condition. -/
def inTurn (s : AuthPool) : PoolAction (Option String) AuthCall ℕ → Bool
  | .invoke (.storeRefreshToken _ _ _ _) => true
  | .invoke (.createApiKey _ _ _ _ _ _) => true
  | .invoke .purgeExpired => true
  | .invoke _ => false
  | .access n _ =>
    match s.running n with
    | some (_, .access .tokenHashes _) => (range s.next).all fun m =>
        (s.running m).all fun x => x.2.first.all (·.enters = none)
    | some (_, .access (.bloomInsert _) _) => (range s.next).all fun m =>
        (s.running m).all fun x => x.2.first.all (·.hasRead = false)
    | _ => true
  | .restart => s.shared.db.apiKeys.isEmpty
  | _ => true

lemma liveOk_of_inTurn {s : AuthPool} {a : PoolAction (Option String) AuthCall ℕ}
    (hs : (authSystem H).ReachableBy LiveOk s) (h : inTurn s a = true) : LiveOk s a := by
  -- the calls that are running have been counted
  have hall : ∀ {P : Access → Bool}, ((range s.next).all fun m =>
      (s.running m).all fun x => x.2.first.all P) = true → ∀ b, AboutTo s b → P b = true := by
    rintro P hP b ⟨m, c, p, hm, hb⟩
    have hmem := List.all_eq_true.1 hP m (mem_range.2 ((live_of_reachable hs).1.below m c p hm))
    rw [hm, all_some, hb, all_some] at hmem
    exact hmem
  cases a with
  | invoke c =>
    cases c with
    | storeRefreshToken | createApiKey | purgeExpired => trivial
    | _ => cases h
  | access n i =>
    intro c a next hrun
    rw [inTurn, hrun] at h
    refine ⟨?_, ?_⟩
    · rintro rfl b hb
      exact of_decide_eq_true (hall h b hb)
    · rintro hash rfl b hb
      exact of_decide_eq_true (hall h b hb)
  | restart =>
    intro k hk
    rw [inTurn, List.isEmpty_iff] at h
    rw [h] at hk
    cases hk
  | finish | elapse => trivial

/-- A token is stored; another one while a purge is running, before it has read the hashes; then there is a
restart and an API key is created, and a last purge.  Both tokens and the key are accepted. -/
theorem stored_credentials_accepted :
    ∃ s : AuthPool, (authSystem plainHashing).ReachableBy LiveOk s ∧
      AcceptsToken plainHashing s.shared "t" ∧ AcceptsToken plainHashing s.shared "t'" ∧
      AcceptsApiKey plainHashing s.shared "key" := by
  have hrun := System.ReachableBy.execIf (fun s a hs => liveOk_of_inTurn hs)
    (.init (init_openedStore plainHashing oneUser))
    (rfl : (authSystem plainHashing).execIf inTurn (openedStore plainHashing oneUser)
      (callSteps (.storeRefreshToken "u" "t" 60 "i") 0 4 ++ [.elapse 20, .invoke .purgeExpired] ++
        accesses 1 5 ++ callSteps (.storeRefreshToken "u" "t'" 60 "i'") 2 4 ++ accesses 1 4 ++
        [.finish 1, .restart] ++ callSteps (.createApiKey "u" "name" none none "key" "k") 3 5 ++
        callSteps .purgeExpired 4 9) = some _)
  obtain ⟨htokens, hkeys⟩ := live_credentials_accepted hrun
  refine ⟨_, hrun, ?_, ?_, ?_⟩
  · exact htokens 0 "u" "t" 60 "i" (.tokenId "i") (by simp) ⟨"i", "u", "t", 60, false, 0⟩ (by decide) rfl
      (by decide) (by decide) ⟨_, rfl, rfl⟩ "t" rfl
  · exact htokens 2 "u" "t'" 60 "i'" (.tokenId "i'") (by simp) ⟨"i'", "u", "t'", 80, false, 20⟩ (by decide)
      rfl (by decide) (by decide) ⟨_, rfl, rfl⟩ "t'" rfl
  · exact hkeys 3 "u" "name" none none "key" "k" "key"
      ⟨"k", "u", "key", "name", "key", none, none, 20, false⟩ (mem_cons_of_mem _ mem_cons_self) nofun (by decide) ⟨_, rfl, rfl⟩

/-- An API key after a restart, and a token that was stored while a purge was running: neither passes
the check. -/
theorem live_credentials_refused :
    (∃ s : AuthPool, (authSystem plainHashing).exec (openedStore plainHashing oneUser)
        (callSteps (.createApiKey "u" "name" none none "key" "i") 0 5 ++ [.restart]) = some s ∧
      s.returned.length = 1 ∧ s.shared.db.apiKeys.length = 1 ∧ s.shared.Enabled "u" ∧
      s.shared.store.tokenBloom.check plainHashing "key" = .definitelyNotIssued ∧
      (Prog.alone (perform plainHashing) none
        (AuthStore.authenticateApiKey plainHashing "key") s.shared).1 = .error "invalid API key") ∧
    ∃ s : AuthPool, (authSystem plainHashing).exec (openedStore plainHashing oneUser)
        ([.invoke .purgeExpired] ++ accesses 0 7 ++ callSteps (.storeRefreshToken "u" "t" 60 "i") 1 4 ++
          accesses 0 2 ++ [.finish 0]) = some s ∧
      s.returned.length = 2 ∧ s.shared.db.refreshTokens.length = 1 ∧ s.shared.Enabled "u" ∧
      s.shared.store.tokenBloom.check plainHashing "t" = .definitelyNotIssued ∧
      (Prog.alone (perform plainHashing) none
        (AuthStore.validateRefreshToken plainHashing "t") s.shared).1 =
          .error "invalid or expired refresh token" :=
  ⟨⟨_, rfl, rfl, rfl, ⟨_, rfl, rfl⟩, rfl, rfl⟩, _, rfl, rfl, rfl, ⟨_, rfl, rfl⟩, rfl, rfl⟩

end LightningDB
