import LightningDB.Server.Credentials

/-!
# Revocation is permanent

The set of revoked hashes is emptied by every purge and at every start, so that it cannot be what keeps
a revoked credential out.  What does is that the revoking calls remove the credential from its table
and then from its cache (`AuthWorld.Dead`): under a hash that has been used nothing new can be stored,
and a restart reads the tables.

A deleted user is another matter.  An `update_user` that has read the user before the deletion puts the
user back into the cache after it; without such a call a deleted user stays away, and no key of theirs
is accepted, not even one that was being created while the user was deleted.
-/

namespace LightningDB

open Framework AuthWorld List Option

variable {H : Hashing} {Out : String → Prop} {J : AuthWorld → Prop} {c : AuthCall}
  {w w' : AuthWorld} {hash userId : String} {k : Kind}

namespace AuthWorld

/-- Nothing is stored under the hash any more. -/
def Dead (k : Kind) (hash : String) (w : AuthWorld) : Prop := Settled (k, hash) (fun _ => False) w

/-- The hash has been given out, and what is stored under it is the user's. -/
def IssuedTo (k : Kind) (hash userId : String) (w : AuthWorld) : Prop :=
  Settled (k, hash) (·.userId = userId) w

/-- The user has been there and is in no row. -/
def NoUserRow (userId : String) (w : AuthWorld) : Prop :=
  (.user, userId) ∈ w.entered ∧ ∀ u ∈ w.db.users, u.id ≠ userId

/-- The user has been there and is in no table and in no cache. -/
def NoUser (userId : String) (w : AuthWorld) : Prop :=
  NoUserRow userId w ∧ w.store.usersCache.lookup userId = none

lemma NoUserRow.of_later (h : NoUserRow userId w) (hl : Later Out w w') : NoUserRow userId w' := by
  refine ⟨hl.entered _ h.1, fun u hu hid => ?_⟩
  rcases hl.userRows u hu with ⟨u₀, hu₀, hid₀⟩ | hnot
  · exact h.2 u₀ hu₀ (hid₀.trans hid)
  · exact hnot .user (hid ▸ h.1)

lemma lasting_noUser (hout : Out userId) : Lasting H Out (NoUser userId) where
  later w w' hl h := ⟨h.1.of_later hl, hl.userEntries userId hout h.1.1 h.2⟩
  restart w h := by
    refine ⟨⟨mem_append_right _ h.1.1, h.1.2⟩, ?_⟩
    refine eq_none_iff_forall_ne_some.2 fun x hx => ?_
    obtain ⟨hrow, hid⟩ := user_of_restart hx
    exact h.1.2 x hrow hid

/-! ### What the deletions remove -/

variable (hk : k ≠ .apiKeyId)

include hk

lemma mem_marks {x : Credential} : (k, hash) ∈ x.marks ↔ x.kind = k ∧ x.hash = hash := by
  rw [Credential.marks, mem_cons, Prod.mk.injEq]
  constructor
  · rintro (⟨rfl, rfl⟩ | h)
    · exact ⟨rfl, rfl⟩
    · split at h
      · exact absurd (Prod.mk.inj (mem_singleton.1 h)).1 hk
      · cases h
  · rintro ⟨rfl, rfl⟩
    exact .inl ⟨rfl, rfl⟩

lemma dead_of_rows (hw : w.Inv)
    (hrows : RowsSettled (k, hash) (fun _ => False) w) (hentry : w.entry k hash = none) :
    Dead k hash w := by
  refine ⟨hrows.1, fun x hx hp => ?_⟩
  rcases hx with hx | ⟨k', hash', hx⟩
  · exact hrows.2 x hx hp
  · obtain ⟨hk', hh', -⟩ := hw.entries k' hash' x hx
    obtain ⟨rfl, rfl⟩ := (mem_marks hk).1 hp
    rw [← hk', ← hh', hentry] at hx
    cases hx

lemma Dead.entry_eq_none (hw : w.Inv) (h : Dead k hash w) : w.entry k hash = none := by
  refine eq_none_iff_forall_ne_some.2 fun x hx => ?_
  obtain ⟨hkind, hhash, -⟩ := hw.entries k hash x hx
  exact h.2 x (.inr ⟨k, hash, hx⟩) ((mem_marks hk).2 ⟨hkind, hhash⟩)

variable {q : AuthStatement}

lemma rows_deleteHash
    (hq : k = .token ∧ q = .deleteToken hash ∨ k = .apiKey ∧ q = .deleteApiKey hash)
    (hentered : (k, hash) ∈ w.entered) :
    RowsSettled (k, hash) (fun _ => False) (perform H (.execute q) none w).2 := by
  refine ⟨hentered, fun x hx hp => ?_⟩
  obtain ⟨hkind, hhash⟩ := (mem_marks hk).1 hp
  rcases hq with ⟨rfl, rfl⟩ | ⟨rfl, rfl⟩
  · rcases mem_rows.1 hx with ⟨t, ht, rfl⟩ | ⟨k, -, rfl⟩
    · exact of_decide_eq_true (mem_filter.1 ht).2 hhash
    · cases hkind
  · rcases mem_rows.1 hx with ⟨t, -, rfl⟩ | ⟨k, hmem, rfl⟩
    · cases hkind
    · exact of_decide_eq_true (mem_filter.1 hmem).2 hhash

lemma rows_deleteOf
    (hq : k = .token ∧ q = .deleteTokensOf userId ∨ k = .apiKey ∧ q = .deleteApiKeysOf userId)
    (hissued : IssuedTo k hash userId (perform H (.execute q) none w).2) :
    RowsSettled (k, hash) (fun _ => False) (perform H (.execute q) none w).2 := by
  refine ⟨hissued.1, fun x hx hp => ?_⟩
  have hid := hissued.2 x (.inl hx) hp
  obtain ⟨hkind, -⟩ := (mem_marks hk).1 hp
  rcases hq with ⟨rfl, rfl⟩ | ⟨rfl, rfl⟩
  · rcases mem_rows.1 hx with ⟨t, ht, rfl⟩ | ⟨k, -, rfl⟩
    · exact of_decide_eq_true (mem_filter.1 ht).2 hid
    · cases hkind
  · rcases mem_rows.1 hx with ⟨t, -, rfl⟩ | ⟨k, hmem, rfl⟩
    · cases hkind
    · exact of_decide_eq_true (mem_filter.1 hmem).2 hid

lemma entry_dropOf {a : Access} {i : Option String} (hw : (perform H a i w).2.Inv)
    (ha : k = .token ∧ (a = .dropTokensOf userId ∨ a = .revokeTokensOf userId) ∨
      k = .apiKey ∧ a = .dropApiKeysOf userId)
    (hissued : IssuedTo k hash userId (perform H a i w).2) :
    (perform H a i w).2.entry k hash = none := by
  refine eq_none_iff_forall_ne_some.2 fun x hx => ?_
  obtain ⟨hkind, hhash, -⟩ := hw.entries k hash x hx
  have hid := hissued.2 x (.inr ⟨k, hash, hx⟩) ((mem_marks hk).2 ⟨hkind, hhash⟩)
  rcases ha with ⟨rfl, rfl | rfl⟩ | ⟨rfl, rfl⟩ <;>
  · obtain ⟨t, ht, rfl⟩ := map_eq_some_iff.1 hx
    exact of_decide_eq_true (lookup_of_keepIf ht).2 hid

end AuthWorld

/-! ## The revoking calls -/

namespace AuthStore

open Prog

section Leads

variable {hJ : ∀ w w', Later Out w w' → J w → J w'}
  {post : ℕ → AuthCall → Except String AuthReply → AuthWorld → Prop}
  {hpost : ∀ n c r w w', Later Out w w' → post n c r w → post n c r w'}
  {last : AuthPost Unit} {a : Access} {rawToken key : String}

lemma leads_revokeRefreshToken (herror : ∀ e w', last (.error e) w')
    (hok : ∀ w', Dead .token (H.hmac rawToken) w' → last (.ok ()) w') :
    (storeDiscipline H Out J hJ post hpost).Leads c last (revokeRefreshToken H rawToken) w := by
  refine leads_ask not_false fun w₁ i₁ h₁ hinv₁ _ => ?_
  cases hfound : (perform H (.getToken (H.hmac rawToken)) i₁ w₁).1 with
  | none => exact fun w' _ _ => herror _ w'
  | some t =>
    have hentered := hinv₁.entered_of_entry (k := .token) (map_eq_some_iff.2 ⟨t, hfound, rfl⟩)
    refine leads_plain not_false herror fun w₂ h₂ _ => ?_
    have hrows₂ := rows_deleteHash (H := H) (w := w₂) (k := .token) (by simp) (.inl ⟨rfl, rfl⟩)
      (h₂.entered _ hentered)
    refine leads_ask not_false fun w₃ i₃ h₃ hinv₃ _ => ?_
    have hdead := dead_of_rows (by simp) hinv₃ (hrows₂.of_later h₃.toLater)
      (by simp [AuthWorld.entry, AuthWorld.perform, setStore])
    exact leads_last not_false fun _ w₄ h₄ => hok w₄ (hdead.of_later h₄.toLater)

lemma leads_revokeApiKey {keyId : String} (hash : String) (herror : ∀ e w', last (.error e) w')
    (hkey : ∀ w, J w → Settled (.apiKeyId, keyId) (·.hash = hash) w)
    (hok : ∀ w', Dead .apiKey hash w' → last (.ok ()) w') :
    (storeDiscipline H Out J hJ post hpost).Leads c last (revokeApiKey keyId) w := by
  refine leads_ask not_false fun w₁ i₁ h₁ hinv₁ hJ₁ => ?_
  cases hfound : (perform H (.findApiKey keyId) i₁ w₁).1 with
  | none => exact fun w' _ _ => herror _ w'
  | some hash' =>
    obtain ⟨e, he, rfl⟩ := map_eq_some_iff.1 hfound
    have hid : e.2.id = keyId := by simpa using find?_some he
    have hlookup := AList.mem_lookup_iff.2 (mem_of_find?_eq_some he)
    have hentry : w₁.entry .apiKey e.1 = some e.2.credential :=
      map_eq_some_iff.2 ⟨e.2, hlookup, rfl⟩
    -- the key with this identifier has the hash it was given out with
    obtain rfl : e.1 = hash := by
      rw [← (hinv₁.entries _ _ _ hentry).2.1]
      refine (hkey w₁ hJ₁).2 _ (.inr ⟨_, _, hentry⟩) ?_
      rw [← hid]
      exact mem_cons_of_mem _ mem_cons_self
    have hentered := hinv₁.entered_of_entry hentry
    refine leads_plain not_false herror fun w₂ h₂ _ => ?_
    have hrows₂ := rows_deleteHash (H := H) (w := w₂) (k := .apiKey) (by simp) (.inr ⟨rfl, rfl⟩)
      (h₂.entered _ hentered)
    refine leads_ask (k := pure) not_false fun w₃ i₃ h₃ hinv₃ _ w₄ h₄ _ => hok w₄ ?_
    have hdead := dead_of_rows (by simp) hinv₃ (hrows₂.of_later h₃.toLater)
      (by simp [AuthWorld.entry, AuthWorld.perform, setStore])
    exact hdead.of_later h₄.toLater

lemma leads_resetPassword {hashed : Except String String} (hash : String)
    (herror : ∀ e w', last (.error e) w') (hissued : ∀ w, J w → IssuedTo .token hash userId w)
    (hok : ∀ w', Dead .token hash w' → last (.ok ()) w') :
    (storeDiscipline H Out J hJ post hpost).Leads c last (resetPassword userId hashed) w := by
  cases hashed with
  | error e => exact fun w' _ _ => herror _ w'
  | ok passwordHash =>
    refine leads_plain not_false herror fun w₁ h₁ _ => ?_
    refine leads_plain not_false herror fun w₂ h₂ hJ₂ => ?_
    have hrows₂ := rows_deleteOf (k := .token) (by simp) (.inl ⟨rfl, rfl⟩) (hissued _ hJ₂)
    refine leads_ask not_false fun w₃ i₃ h₃ hinv₃ hJ₃ => ?_
    have hdead := dead_of_rows (by simp) hinv₃ (hrows₂.of_later h₃.toLater)
      (entry_dropOf (by simp) hinv₃ (.inl ⟨rfl, .inr rfl⟩) (hissued _ hJ₃))
    exact leads_last not_false fun _ w₄ h₄ => hok w₄ (hdead.of_later h₄.toLater)

/-- `delete_user` ends with the credentials of the user gone, and with the user gone if no one puts
the user back. -/
lemma leads_deleteUser (herror : ∀ e w', last (.error e) w')
    (hok : ∀ w', (∀ k hash, k ≠ .apiKeyId → k ≠ .user → (∀ w, J w → IssuedTo k hash userId w) →
      Dead k hash w') → (Out userId → NoUser userId w') → last (.ok ()) w') :
    (storeDiscipline H Out J hJ post hpost).Leads c last (deleteUser userId) w := by
  refine leads_ask not_false fun w₁ i₁ h₁ hinv₁ _ => ?_
  cases hfound : (perform H (.getUser userId) i₁ w₁).1 with
  | none => exact fun w' _ _ => herror _ w'
  | some u =>
    have hentered := (hinv₁.users _ _ hfound).2
    refine leads_plain not_false herror fun w₂ h₂ hJ₂ => ?_
    refine leads_plain not_false herror fun w₃ h₃ hJ₃ => ?_
    refine leads_plain not_false herror fun w₄ h₄ _ => ?_
    refine leads_ask not_false fun w₅ i₅ h₅ hinv₅ hJ₅ => ?_
    refine leads_ask not_false fun w₆ i₆ h₆ hinv₆ hJ₆ => ?_
    intro w₇ i₇ h₇ hinv₇ _
    have hs₇ := shrinks_perform (w := w₇) (H := H) (a := .removeUser userId u.username) not_false i₇
    refine ⟨hs₇.guar Out c, fun w₈ h₈ _ => hok w₈ ?_ fun ho => ?_⟩
    · have hl₆₈ := h₇.toLater.trans ((hs₇.later Out).trans h₈.toLater)
      intro k hash hk hk' hissued
      cases k with
      | token =>
        have hrows := rows_deleteOf hk (.inl ⟨rfl, rfl⟩) (hissued _ hJ₂)
        have hdead := dead_of_rows hk hinv₅ (hrows.of_later ((h₃.trans h₄).trans h₅).toLater)
          (entry_dropOf hk hinv₅ (.inl ⟨rfl, .inl rfl⟩) (hissued _ hJ₅))
        exact hdead.of_later (h₆.toLater.trans hl₆₈)
      | apiKey =>
        have hrows := rows_deleteOf hk (.inr ⟨rfl, rfl⟩) (hissued _ hJ₃)
        have hdead := dead_of_rows hk hinv₆ (hrows.of_later ((h₄.trans h₅).trans h₆).toLater)
          (entry_dropOf hk hinv₆ (.inr ⟨rfl, rfl⟩) (hissued _ hJ₆))
        exact hdead.of_later hl₆₈
      | apiKeyId => exact absurd rfl hk
      | user => exact absurd rfl hk'
    · have hrow : NoUserRow userId (perform H (.execute (.deleteUser userId)) none w₄).2 :=
        ⟨((h₂.trans h₃).trans h₄).entered _ hentered,
          fun u hu => of_decide_eq_true (mem_filter.1 hu).2⟩
      have hrow₇ := hrow.of_later ((h₅.trans h₆).trans h₇).toLater
      refine (lasting_noUser (H := H) ho).later _ _ h₈.toLater ⟨hrow₇, ?_⟩
      exact AList.lookup_erase userId w₇.store.usersCache

/-! ## The calls that are refused -/

lemma leads_search_none {absent : Answer a} {k : ℤ → Answer a → AuthM α}
    {hash e₁ e₂ e₃ : String} {last : AuthPost α} (ha : ¬ a.Adds) (hres : Reserved H c w)
    (hnone : ∀ w i, (perform H a i w).2.Inv → J (perform H a i w).2 → (perform H a i w).1 = absent)
    (hk : ∀ now, k now absent = fail e₃) (herror : ∀ e w', last (.error e) w') :
    (storeDiscipline H Out J hJ post hpost).Leads c last
      (checkHash hash e₁ e₂ >>= fun _ => ask .now >>= fun now => ask a >>= k now) w := by
  refine .bind (leads_of_always (always_checkHash _ _ _) hres fun r w₁ _ => ?_)
  cases r with
  | error e => exact herror _ w₁
  | ok _ =>
    refine leads_ask not_false fun w₂ i₂ _ _ _ => ?_
    refine leads_ask ha fun w₃ i₃ _ hinv₃ hJ₃ => ?_
    rw [hnone w₃ i₃ hinv₃ hJ₃, hk]
    exact fun w' _ _ => herror _ w'

lemma leads_validate_none {last : AuthPost (User × String)}
    (hres : Reserved H c w) (hnone : ∀ w, w.Inv → J w → w.entry .token (H.hmac rawToken) = none)
    (herror : ∀ e w', last (.error e) w') :
    (storeDiscipline H Out J hJ post hpost).Leads c last (validateRefreshToken H rawToken) w :=
  leads_search_none not_false hres (fun w _ hinv hJ => map_eq_none_iff.1 (hnone w hinv hJ))
    (fun _ => rfl) herror

lemma leads_authenticate_noUser {last : AuthPost AuthenticatedUser}
    (hres : Reserved H c w) (hgone : ∀ w, J w → NoUser userId w)
    (herror : ∀ e w', last (.error e) w') (hok : ∀ a w', a.userId ≠ userId → last (.ok a) w') :
    (storeDiscipline H Out J hJ post hpost).Leads c last (authenticateApiKey H key) w := by
  refine .bind (leads_of_always (always_checkHash _ _ _) hres fun r w₁ _ => ?_)
  cases r with
  | error e => exact herror _ w₁
  | ok _ =>
    refine leads_ask not_false fun w₂ i₂ _ _ _ => ?_
    refine leads_ask not_false fun w₃ i₃ _ _ _ => ?_
    split
    · exact fun w' _ _ => herror _ w'
    split
    · exact fun w' _ _ => herror _ w'
    refine leads_ask not_false fun w₄ i₄ h₄ hinv₄ hJ₄ => ?_
    split
    · exact fun w' _ _ => herror _ w'
    next user huser =>
      refine fun w' _ _ => hok _ w' fun hid => ?_
      obtain ⟨hlookup, -⟩ := lookup_of_enabledUser (fun k x hx => (hinv₄.users k x hx).1) huser
      rw [show user.id = userId from hid, (hgone _ hJ₄).2] at hlookup
      cases hlookup

end Leads

end AuthStore

/-! ## Runs -/

variable (H)

/-- The credential that a call presents, and gets nothing for unless it is accepted. -/
def AuthCall.presents : AuthCall → Option (Kind × String)
  | .validateRefreshToken rawToken => some (.token, H.hmac rawToken)
  | .refresh rawToken _ _ _ _ => some (.token, H.hmac rawToken)
  | .authenticateApiKey key => some (.apiKey, H.hmac key)
  | _ => none

def AuthCall.Revokes (x : Credential) : AuthCall → Prop
  | .revokeRefreshToken rawToken => x.kind = .token ∧ x.hash = H.hmac rawToken
  | .revokeApiKey keyId => x.kind = .apiKey ∧ x.id = keyId
  | .resetPassword userId _ => x.kind = .token ∧ x.userId = userId
  | .deleteUser userId => x.userId = userId
  | _ => False

/-- A credential has been given out: what is stored under its hash is its user's, and the hash of a
key is the one that is stored with its identifier. -/
structure Issued (x : Credential) (w : AuthWorld) : Prop where
  kind : x.kind = .token ∨ x.kind = .apiKey
  user : IssuedTo x.kind x.hash x.userId w
  id : x.kind = .apiKey → Settled (.apiKeyId, x.id) (·.hash = x.hash) w

/-- Every call that begins after `s` and presents the credential has returned an error in `s'`. -/
def Refuses (s s' : AuthPool) (k : Kind) (hash : String) : Prop :=
  ∀ n c r, s.next ≤ n → (n, c, r) ∈ s'.returned → c.presents H = some (k, hash) → ∃ e, r = .error e

/-- What the calls of a run leave behind that returned without an error. -/
def Records : AuthCall → Except String AuthReply → AuthWorld → Prop
  | .storeRefreshToken userId hash _ id, .ok _, w => Issued ⟨.token, hash, userId, id, none⟩ w
  | .createApiKey userId _ _ _ key id, .ok _, w => Issued ⟨.apiKey, H.hmac key, userId, id, none⟩ w
  | .revokeRefreshToken rawToken, .ok _, w => Dead .token (H.hmac rawToken) w
  | _, _, _ => True

variable {H} {x : Credential}

lemma lasting_issued (x : Credential) : Lasting H Out (Issued x) where
  later _ _ hl h := ⟨h.kind, h.user.of_later hl, fun hk => (h.id hk).of_later hl⟩
  restart _ h := ⟨h.kind, h.user.rows.restart, fun hk => (h.id hk).rows.restart⟩

lemma lasting_records (c : AuthCall) (r : Except String AuthReply) : Lasting H Out (Records H c r) := by
  cases r with
  | error e => cases c <;> exact lasting_true
  | ok a =>
    cases c with
    | storeRefreshToken | createApiKey => exact lasting_issued _
    | revokeRefreshToken => exact lasting_settled _ _
    | _ => exact lasting_true

variable {N : ℕ}

open AuthStore in
lemma leads_records {hJ : Lasting H Out J} (hfits : Fits Out J c) (hres : Reserved H c w) :
    (phase hJ N (lasting_records (H := H))).Leads c (Records H c) (c.program H) w := by
  cases c with
  | storeRefreshToken userId tokenHash ttlSecs id =>
    refine .bind (leads_storeRefreshToken (by simp [AuthCall.draws]) hres (fun _ _ _ => trivial) ?_)
    intro r w₁ hset w₂ h₂ _
    exact ⟨.inl rfl, hset.of_later h₂.toLater, fun h => by cases h⟩
  | createApiKey userId name roleOverride expiresAt key id =>
    refine .bind (leads_createApiKey (by simp [AuthCall.draws]) hres (fun _ _ => trivial) ?_)
    intro r w₁ hset hset' w₂ h₂ _
    exact ⟨.inr rfl, hset.of_later h₂.toLater, fun _ => hset'.of_later h₂.toLater⟩
  | revokeRefreshToken rawToken =>
    refine .bind (leads_revokeRefreshToken (fun _ _ => trivial) ?_)
    exact fun w₁ hdead w₂ h₂ _ => hdead.of_later h₂.toLater
  | _ => exact (leads_program hres hfits).mono fun r _ _ => by cases r <;> trivial

/-- A phase without users that have to stay away may have any calls. -/
lemma fits_all (a : PoolAction (Option String) AuthCall ℕ) :
    BeginsOnly (Fits (fun _ => False) J) a := by
  cases a with
  | invoke c => exact fun u ho => ho.elim
  | _ => trivial

lemma records_of_reachable {s : AuthPool} (h : (authSystem H).Reachable s) :
    (phase (lasting_true : Lasting H (fun _ => False) _) 0 lasting_records).Sound s := by
  refine System.ReachableBy.invariant h ?_ ?_
  · rintro s ⟨hopened, hrunning, -, hreturned⟩
    exact Discipline.sound_of_none ⟨inv_of_opened hopened, trivial⟩ hrunning hreturned
  · intro s a s' _ hs _ hstep
    exact phase_step (fun c w hfits _ _ hres => leads_records hfits hres) hs (fits_all a) hstep

def Revoked (H : Hashing) (x : Credential) (c : AuthCall) (r : Except String AuthReply)
    (w : AuthWorld) : Prop :=
  c.Revokes H x ∧ (∃ a, r = .ok a) → Dead x.kind x.hash w

lemma lasting_revoked (x : Credential) (c : AuthCall) (r : Except String AuthReply) :
    Lasting H Out (Revoked H x c r) :=
  (lasting_settled _ _).imp _

open AuthStore in
lemma leads_revoked (hfits : Fits Out (Issued x) c) (hres : Reserved H c w) :
    (phase (lasting_issued x : Lasting H Out _) N (lasting_revoked x)).Leads c (Revoked H x c)
      (c.program H) w := by
  have herror : ∀ c e w, Revoked H x c (.error e) w := fun c e w h => nomatch h.2
  by_cases hc : c.Revokes H x
  · cases c with
    | revokeRefreshToken rawToken =>
      refine .bind (leads_revokeRefreshToken (herror _) fun w₁ hdead w₂ h₂ _ _ => ?_)
      rw [hc.1, hc.2]
      exact hdead.of_later h₂.toLater
    | revokeApiKey keyId =>
      refine .bind (leads_revokeApiKey x.hash (herror _) ?_ fun w₁ hdead w₂ h₂ _ _ => ?_)
      · exact fun w hw => hc.2 ▸ hw.id hc.1
      · rw [hc.1]
        exact hdead.of_later h₂.toLater
    | resetPassword userId hashed =>
      refine .bind (leads_resetPassword x.hash (herror _) ?_ fun w₁ hdead w₂ h₂ _ _ => ?_)
      · exact fun w hw => hc.1 ▸ hc.2 ▸ hw.user
      · rw [hc.1]
        exact hdead.of_later h₂.toLater
    | deleteUser userId =>
      refine .bind (leads_deleteUser (herror _) fun w₁ hdead _ w₂ h₂ hinv₂ _ => ?_)
      have hkind := hinv₂.2.kind
      refine (hdead x.kind x.hash ?_ ?_ fun w hw => hc ▸ hw.user).of_later h₂.toLater
      · rcases hkind with h | h <;> simp [h]
      · rcases hkind with h | h <;> simp [h]
    | _ => exact absurd hc not_false
  · exact (leads_program hres hfits).mono fun r _ _ h => absurd h.1 hc

/-- What a call that presents a credential shows once the credential is dead. -/
def Refused (H : Hashing) (k : Kind) (hash : String) (c : AuthCall) (r : Except String AuthReply)
    (_ : AuthWorld) : Prop :=
  c.presents H = some (k, hash) → ∃ e, r = .error e

lemma lasting_refused (k : Kind) (hash : String) (c : AuthCall) (r : Except String AuthReply) :
    Lasting H Out (Refused H k hash c r) :=
  ⟨fun _ _ _ h => h, fun _ h => h⟩

variable {n : ℕ} {r : AuthReply}

open AuthStore in
lemma leads_refused (hfits : Fits Out (Dead k hash) c) (hres : Reserved H c w) :
    (phase (lasting_settled (k, hash) (fun _ => False) : Lasting H Out _) N
      (lasting_refused k hash)).Leads c (Refused H k hash c) (c.program H) w := by
  have herror : ∀ c e w, Refused H k hash c (.error e) w := fun c e w _ => ⟨e, rfl⟩
  by_cases hc : c.presents H = some (k, hash)
  · cases c with
    | validateRefreshToken rawToken =>
      cases hc
      exact .bind (leads_validate_none hres (fun w hw => Dead.entry_eq_none (by simp) hw) (herror _))
    | refresh rawToken accessToken ttlSecs newToken newId =>
      cases hc
      exact .bind (.bind (leads_validate_none hres (fun w hw => Dead.entry_eq_none (by simp) hw)
        (herror _)))
    | authenticateApiKey key =>
      cases hc
      exact .bind (leads_search_none not_false hres (fun w _ hw hJ =>
        map_eq_none_iff.1 (Dead.entry_eq_none (by simp) hw hJ)) (fun _ => rfl) (herror _))
    | _ => cases hc
  · exact (leads_program hres hfits).mono fun r _ _ h => absurd h hc

def Deleted (userId : String) (c : AuthCall) (r : Except String AuthReply) (w : AuthWorld) : Prop :=
  c = .deleteUser userId ∧ (∃ a, r = .ok a) → NoUser userId w

lemma lasting_deleted (userId : String) (c : AuthCall) (r : Except String AuthReply) :
    Lasting H (Eq userId) (Deleted userId c r) :=
  (lasting_noUser rfl).imp _

open AuthStore in
lemma leads_deleted (hfits : Fits (Eq userId) (fun _ => True) c) (hres : Reserved H c w) :
    (phase lasting_true N (lasting_deleted (H := H) userId)).Leads c (Deleted userId c)
      (c.program H) w := by
  by_cases hc : c = .deleteUser userId
  · subst hc
    refine .bind (leads_deleteUser (fun _ _ h => nomatch h.2) fun w₁ _ hgone w₂ h₂ _ _ => ?_)
    exact (lasting_noUser (H := H) rfl).later _ _ h₂.toLater (hgone rfl)
  · exact (leads_program hres hfits).mono fun r _ _ h => absurd h.1 hc

/-- What an authentication shows once a user is gone. -/
def NotOf (userId : String) (c : AuthCall) (r : Except String AuthReply) (_ : AuthWorld) : Prop :=
  ∀ key a, c = .authenticateApiKey key → r = .ok (.authenticated a) → a.userId ≠ userId

lemma lasting_notOf (userId : String) (c : AuthCall) (r : Except String AuthReply) :
    Lasting H (Eq userId) (NotOf userId c r) :=
  ⟨fun _ _ _ h => h, fun _ h => h⟩

open AuthStore in
lemma leads_notOf (hfits : Fits (Eq userId) (NoUser userId) c) (hres : Reserved H c w) :
    (phase (lasting_noUser rfl) N (lasting_notOf (H := H) userId)).Leads c (NotOf userId c)
      (c.program H) w := by
  by_cases hc : ∃ key, c = .authenticateApiKey key
  · obtain ⟨key, rfl⟩ := hc
    refine .bind (leads_authenticate_noUser hres (fun w hw => hw) ?_ fun a w₁ hne w₂ _ _ => ?_)
    · exact fun e w key a _ h => nomatch h
    · rintro key' a' - h
      cases h
      exact hne
  · exact (leads_program hres hfits).mono fun r _ _ key a h => absurd ⟨key, h⟩ hc

variable {s₀ s₁ s₂ : AuthPool} {as bs : List (PoolAction (Option String) AuthCall ℕ)}

lemma phase_of_reachable (h : (authSystem H).Reachable s₀) (hJ : Lasting H (fun _ => False) J)
    {K : AuthCall → Except String AuthReply → AuthWorld → Prop}
    (hK : ∀ c r, Lasting H (fun _ => False) (K c r)) (hJs : J s₀.shared) :
    (phase hJ s₀.next hK).Sound s₀ :=
  phase_start (records_of_reachable h) (fun _ _ => trivial) (fun _ ho => ho) (fun _ _ _ _ _ ho => ho.elim)
    hJs

/-- A call that revokes a credential given out before leaves nothing of it. -/
lemma dead_of_revoked (h₀ : (authSystem H).Reachable s₀) (hx : Issued x s₀.shared)
    (h₁ : (authSystem H).exec s₀ as = some s₁) (hc : c.Revokes H x) (hn : s₀.next ≤ n)
    (hr : (n, c, .ok r) ∈ s₁.returned) : Dead x.kind x.hash s₁.shared := by
  have hs₀ := phase_of_reachable h₀ (lasting_issued x) (lasting_revoked x) hx
  have hs₁ := phase_run (fun c w hfits _ _ hres => leads_revoked hfits hres) hs₀
    (fun a _ => fits_all a) h₁
  exact hs₁.post n c _ hr hn ⟨hc, r, rfl⟩

lemma refuses_of_dead (h₁ : (authSystem H).Reachable s₁) (hdead : Dead k hash s₁.shared)
    (h₂ : (authSystem H).exec s₁ bs = some s₂) : Refuses H s₁ s₂ k hash := by
  have hs₁ := phase_of_reachable h₁ (lasting_settled (k, hash) fun _ => False)
    (lasting_refused k hash) hdead
  have hs₂ := phase_run (fun c w hfits _ _ hres => leads_refused hfits hres) hs₁
    (fun a _ => fits_all a) h₂
  exact fun n c r hn hr => hs₂.post n c r hr hn

lemma not_authenticated_of_deleted (h₀ : (authSystem H).Reachable s₀)
    (hrunning : ∀ n c p, s₀.running n = some (c, p) → ¬ c.Updates userId)
    (has : ∀ a ∈ as, BeginsOnly (fun c => ¬ c.Updates userId) a)
    (h₁ : (authSystem H).exec s₀ as = some s₁) (hn : s₀.next ≤ n)
    (hr : (n, .deleteUser userId, .ok r) ∈ s₁.returned) (h₂ : (authSystem H).exec s₁ bs = some s₂)
    {m : ℕ} {key : String} {a : AuthenticatedUser} (hm : s₁.next ≤ m)
    (ha : (m, .authenticateApiKey key, .ok (.authenticated a)) ∈ s₂.returned) :
    a.userId ≠ userId := by
  -- up to the deletion no update of the user is running, afterwards none finds the user
  have hs₀ : (phase lasting_true s₀.next (lasting_deleted (H := H) userId)).Sound s₀ :=
    phase_start (records_of_reachable h₀) (fun _ _ => trivial) (fun _ ho => ho.elim)
      (fun n c p hrun u hu _ => hu ▸ hrunning n c p hrun) trivial
  have hs₁ := phase_run (fun c w hfits _ _ hres => leads_deleted hfits hres) hs₀ ?_ h₁
  · have hgone := hs₁.post n _ _ hr hn ⟨rfl, r, rfl⟩
    have hs₁' : (phase (lasting_noUser rfl) s₁.next (lasting_notOf (H := H) userId)).Sound s₁ :=
      phase_start hs₁ (fun _ _ => trivial) (fun _ ho => ho) (fun _ _ _ _ _ ho ho' => absurd ho ho')
        hgone
    have hs₂ := phase_run (fun c w hfits _ _ hres => leads_notOf hfits hres) hs₁' ?_ h₂
    · exact hs₂.post m _ _ ha hm key a rfl rfl
    · intro b _
      cases b with
      | invoke c => exact fun u hu _ w hw => hu ▸ hw.2
      | _ => trivial
  · intro b hb
    cases b with
    | invoke c => exact fun u hu hupd => absurd (hu ▸ hupd) (has _ hb)
    | _ => trivial

def oneToken : AuthDb :=
  ⟨[⟨"u", "user", "", .reader, true, 0, none⟩], [⟨"i", "u", "t", 60, false, 0⟩], []⟩

end LightningDB
