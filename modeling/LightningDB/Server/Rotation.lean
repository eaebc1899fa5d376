import LightningDB.Server.Revocation

/-!
# Exchanging refresh tokens

`refresh_handler` validates a refresh token, revokes it and stores a new one, and does not look at how
the revocation ends.  Two handlers that have validated one token before either has revoked it both hand
out a new pair; so do two handlers one after the other, if the DELETE of the first revocation fails.

Without these, a token is exchanged once: the handler that returns leaves no entry of the token in the
cache, whoever removed it, and a handler that begins later does not find one.
-/

namespace LightningDB

open Framework AuthWorld List Option

namespace AuthWorld

variable {Out : String → Prop} {w w' : AuthWorld} {hash : String}

/-- The token has been in the cache and is not there. -/
def NoEntry (hash : String) (w : AuthWorld) : Prop :=
  (.token, hash) ∈ w.entered ∧ w.entry .token hash = none

lemma NoEntry.of_later (h : NoEntry hash w) (hl : Later Out w w') : NoEntry hash w' := by
  refine ⟨hl.entered _ h.1, ?_⟩
  refine eq_none_iff_forall_ne_some.2 fun x hx => ?_
  rcases hl.entries .token hash x hx with hx | ⟨-, hnot⟩
  · rw [h.2] at hx
    cases hx
  · exact hnot _ h.1

end AuthWorld

/-! ## The discipline of the handlers -/

variable (H : Hashing)

/-- The hash of the token that a call exchanges. -/
def AuthCall.rotates : AuthCall → Option String
  | .refresh rawToken _ _ _ _ => some (H.hmac rawToken)
  | _ => none

/-- The DELETE of the revocation in a handler does not fail. -/
def DeletesToken (c : AuthCall) (a : Access) (i : Option String) (_ : AuthWorld) : Prop :=
  ∀ hash, c.rotates H = some hash → a = .execute (.deleteToken hash) → i = none

/-- Calls that do not exchange the same token. -/
def RotatesApart (c d : AuthCall) : Prop :=
  ∀ hash, c.rotates H = some hash → d.rotates H ≠ some hash

/-- The discipline of the store for handlers that run one at a time for each token, and whose DELETE
does not fail. -/
def handlers (J : AuthWorld → Prop) (hJ : ∀ w w', Later (fun _ => False) w w' → J w → J w')
    (post : ℕ → AuthCall → Except String AuthReply → AuthWorld → Prop)
    (hpost : ∀ n c r w w', Later (fun _ => False) w w' → post n c r w → post n c r w') :
    Discipline (authMachine H) :=
  { storeDiscipline H (fun _ => False) J hJ post hpost with
    apart := fun c d => List.Disjoint (c.draws H) (d.draws H) ∧ RotatesApart H c d
    may := DeletesToken H
    final := post
    post_of_final := fun _ h => h
    rely_of_guar := fun hapart _ hg => hg.rely hapart.1 }

variable {H} {J : AuthWorld → Prop} {hJ : ∀ w w', Later (fun _ => False) w w' → J w → J w'}
  {post : ℕ → AuthCall → Except String AuthReply → AuthWorld → Prop}
  {hpost : ∀ n c r w w', Later (fun _ => False) w w' → post n c r w → post n c r w'}
  {c : AuthCall} {w : AuthWorld}

section Leads

variable {α : Type} {q : Except String α → AuthWorld → Prop} {p : AuthM α}

lemma handlers_of_store (h : (storeDiscipline H (fun _ => False) J hJ post hpost).Leads c q p w) :
    (handlers H J hJ post hpost).Leads c q p w :=
  h.transfer (fun _ _ hr => hr) (fun _ hw => hw) (fun _ _ _ _ _ => trivial) (fun _ _ _ hg => hg)
    fun _ _ _ hq => hq

open AuthStore

variable {rawToken : String}

/-- A token that is accepted has been in the cache. -/
lemma leads_validate_entered (hres : Reserved H c w) :
    (storeDiscipline H (fun _ => False) J hJ post hpost).Leads c
      (fun r w' => Reserved H c w' ∧ ((∃ a, r = .ok a) → (.token, H.hmac rawToken) ∈ w'.entered))
      (validateRefreshToken H rawToken) w := by
  refine .bind (leads_of_always (always_checkHash _ _ _) hres fun r w₁ hres₁ => ?_)
  cases r with
  | error e => exact ⟨hres₁, fun h => (error_ne_ok h).elim⟩
  | ok _ =>
    refine leads_ask not_false fun w₂ i₂ h₂ _ _ => ?_
    refine leads_ask not_false fun w₃ i₃ h₃ hinv₃ _ => ?_
    have hres₃ := hres₁.of_rely (h₂.trans h₃)
    split
    · exact fun w' h' _ => ⟨hres₃.of_rely h', fun h => (error_ne_ok h).elim⟩
    next stored hstored =>
      have hlookup : w₃.store.tokensCache.lookup (H.hmac rawToken) = some stored :=
        (filter_eq_some_iff.1 hstored).1
      have hentered :=
        hinv₃.entered_of_entry (k := .token) (map_eq_some_iff.2 ⟨stored, hlookup, rfl⟩)
      refine leads_ask not_false fun w₄ i₄ h₄ _ _ => ?_
      have hres₄ := hres₃.of_rely h₄
      split
      · exact fun w' h' _ => ⟨hres₄.of_rely h', fun h => (error_ne_ok h).elim⟩
      · exact fun w' h' _ => ⟨hres₄.of_rely h', fun _ => h'.entered _ (h₄.entered _ hentered)⟩

lemma handlers_ask {a : Access} {k : Answer a → AuthM α} (ha : ¬ a.Adds)
    (hk : ∀ w₁ i, Rely H (fun _ => False) c w (perform H a i w₁).2 →
      (handlers H J hJ post hpost).Leads c q (k (perform H a i w₁).1)
        (perform H a i w₁).2) : (handlers H J hJ post hpost).Leads c q (ask a >>= k) w :=
  .perform (fun _ i _ _ _ => ⟨(shrinks_perform ha i).guar _ c, (shrinks_perform ha i).rely _ c⟩)
    fun w₁ i h₁ _ => hk w₁ i h₁

/-- However the revocation in a handler ends, the token is not in the cache. -/
lemma leads_revoke_noEntry (hrotates : c.rotates H = some (H.hmac rawToken)) (hres : Reserved H c w)
    (hentered : (.token, H.hmac rawToken) ∈ w.entered) : (handlers H J hJ post hpost).Leads c
      (fun _ w' => Reserved H c w' ∧ NoEntry (H.hmac rawToken) w') (revokeRefreshToken H rawToken)
      w := by
  refine handlers_ask not_false fun w₁ i₁ h₁ => ?_
  cases hfound : (perform H (.getToken (H.hmac rawToken)) i₁ w₁).1 with
  | none =>
    have hnone : NoEntry (H.hmac rawToken) w₁ :=
      ⟨h₁.entered _ hentered, map_eq_none_iff.2 hfound⟩
    exact fun w' h' _ => ⟨hres.of_rely (h₁.trans h'), hnone.of_later h'.toLater⟩
  | some t =>
    intro w₂ i₂ h₂ _ hmay
    obtain rfl := hmay _ hrotates rfl
    have hs₂ := shrinks_perform (w := w₂) (H := H)
      (a := .execute (.deleteToken (H.hmac rawToken))) not_false none
    refine ⟨hs₂.guar _ c, handlers_ask not_false fun w₃ i₃ h₃ => ?_⟩
    have h₀₃ := (h₁.trans (h₂.trans (hs₂.rely _ c))).trans h₃
    have hnone : NoEntry (H.hmac rawToken)
        (perform H (.removeToken (H.hmac rawToken)) i₃ w₃).2 :=
      ⟨h₀₃.entered _ hentered, map_eq_none_iff.2 (AList.lookup_erase _ _)⟩
    refine handlers_ask (k := pure) not_false fun w₄ i₄ h₄ w₅ h₅ _ => ⟨?_, ?_⟩
    · exact hres.of_rely ((h₀₃.trans h₄).trans h₅)
    · exact hnone.of_later (h₄.trans h₅).toLater

/-- A handler that hands out a pair leaves no entry of the token. -/
lemma leads_refresh_noEntry {accessToken : Except String String} {ttlSecs : ℕ}
    {newToken newId : String} (hrotates : c.rotates H = some (H.hmac rawToken))
    (hdraws : H.hmac newToken ∈ c.draws H) (hres : Reserved H c w) :
    (handlers H J hJ post hpost).Leads c
      (fun r w' => (∃ a, r = .ok a) → NoEntry (H.hmac rawToken) w')
      (refresh H rawToken accessToken ttlSecs newToken newId) w := by
  refine .bind ((handlers_of_store (leads_validate_entered hres)).mono fun r w₁ h₁ => ?_)
  cases r with
  | error e => exact nofun
  | ok found =>
    refine .bind (.attempt ((leads_revoke_noEntry hrotates h₁.1 (h₁.2 ⟨found, rfl⟩)).mono
      fun r w₂ h₂ => ?_))
    cases accessToken with
    | error e => exact fun w' _ _ => nofun
    | ok accessToken =>
      have hstore : (handlers H J hJ post hpost).Leads c (fun _ _ => True)
          (storeRefreshToken found.1.id (H.hmac newToken) ttlSecs newId) w₂ :=
        handlers_of_store
          (leads_storeRefreshToken hdraws h₂.1 (fun _ _ _ => trivial) fun _ _ _ => trivial)
      refine .bind (.attempt ((hstore.frame ?_ ?_ h₂.2).mono fun r w₃ h₃ => ?_))
      · exact fun w w' h hr => h.of_later hr.toLater
      · exact fun w w' h _ hg => h.of_later hg.toLater
      · exact fun w' h' _ _ => h₃.2.of_later h'.toLater

end Leads

/-! ## Runs -/

variable (H)

/-- The condition on the steps of a run: a handler does not begin while another one has the same token,
its DELETE does not fail, and a restart brings no token back that has left the cache. -/
def RotationOk (s : AuthPool) : PoolAction (Option String) AuthCall ℕ → Prop
  | .invoke c => ∀ n d p, s.running n = some (d, p) → RotatesApart H c d
  | .access n i => ∀ c a next, s.running n = some (c, .access a next) → DeletesToken H c a i s.shared
  | .restart =>
    ∀ hash, NoEntry hash s.shared → ((authMachine H).restart s.shared).entry .token hash = none
  | _ => True

def exchanged (hash : String) (x : ℕ × AuthCall × Except String AuthReply) : Bool :=
  x.2.1.rotates H = some hash && x.2.2.isOk

/-- The pairs that have been handed out for a token. -/
def exchanges (s : AuthPool) (hash : String) : List (ℕ × AuthCall × Except String AuthReply) :=
  s.returned.filter (exchanged H hash)

/-- Handlers that return leave no entry of their token. -/
def rotation : Discipline (authMachine H) :=
  handlers H (fun _ => True) (fun _ _ _ _ => trivial)
    (fun _ c r w => ∀ hash, c.rotates H = some hash → (∃ a, r = .ok a) → NoEntry hash w)
    fun _ _ _ _ _ hl h hash hc hr => (h hash hc hr).of_later hl

/-- Handlers that begin when there is no entry of their token fail. -/
def spent (hash : String) (N : ℕ) : Discipline (authMachine H) :=
  handlers H (NoEntry hash) (fun _ _ hl h => h.of_later hl)
    (fun n c r _ => N ≤ n → c.rotates H = some hash → ∃ e, r = .error e) fun _ _ _ _ _ _ h => h

variable {H}

lemma handlers_outer {w w' : AuthWorld} (h : (storeDiscipline H (fun _ => False) J hJ post hpost).Outer w w') :
    (handlers H J hJ post hpost).Outer w w' := ⟨h.inv, h.rely, h.begun, h.post⟩

lemma handlers_step {s s' : AuthPool} {a : PoolAction (Option String) AuthCall ℕ}
    (hleads : ∀ c w, Reserved H c w →
      (handlers H J hJ post hpost).Leads c (post s.next c) (c.program H) w)
    (hrestart : J s.shared → a = .restart → J ((authMachine H).restart s.shared) ∧
      ∀ n c r, post n c r s.shared → post n c r ((authMachine H).restart s.shared))
    (hs : (handlers H J hJ post hpost).Sound s) (hok : RotationOk H s a)
    (hstep : (authSystem H).step s a = some s') : (handlers H J hJ post hpost).Sound s' := by
  refine hs.step (Machine.moves_of_step hstep) ?_
  cases a with
  | invoke c =>
    intro w hbegin hinv
    obtain ⟨rfl, hnew⟩ := eq_of_begin hbegin
    refine ⟨fun n d p hrun hd => ⟨⟨?_, hok n d p hrun⟩, ?_, fun x hx hx' => hok n d p hrun x hx' hx⟩,
      ?_, ?_, fun _ => ?_⟩
    · exact fun y hy hy' => hnew y hy (hd y hy')
    · exact fun y hy' hy => hnew y hy (hd y hy')
    · exact handlers_outer (store_outer fun _ hy => mem_append_right _ hy)
    · exact fun y hy => mem_append_left _ hy
    · exact hleads c _ (reserved_of_begin hinv.1 hbegin)
  | access n i => exact hok
  | finish n => trivial
  | elapse e => exact handlers_outer (store_outer fun _ hy => hy)
  | restart =>
    obtain ⟨hJ', hpost'⟩ := hrestart hs.inv.2 rfl
    exact ⟨⟨hs.inv.1.restart, hJ'⟩, hpost'⟩

variable {n : ℕ} {hash : String} {s' : AuthPool}

open AuthStore in
lemma leads_rotation (hres : Reserved H c w) :
    (rotation H).Leads c ((rotation H).post n c) (c.program H) w := by
  cases hc : c.rotates H with
  | none =>
    refine (handlers_of_store (leads_program hres fun _ ho => ho.elim)).mono ?_
    exact fun r w' _ hash hrotates => by rw [hc] at hrotates; cases hrotates
  | some hash =>
    cases c with
    | refresh rawToken accessToken ttlSecs newToken newId =>
      cases hc
      refine .bind ((leads_refresh_noEntry rfl (by simp [AuthCall.draws]) hres).mono fun r w₁ h₁ => ?_)
      cases r with
      | error e => exact fun _ _ h => (error_ne_ok h).elim
      | ok pair =>
        intro w₂ h₂ _ hash hhash _
        cases hhash
        exact (h₁ ⟨pair, rfl⟩).of_later h₂.toLater
    | _ => cases hc

open AuthStore in
lemma leads_spent {N : ℕ} (hres : Reserved H c w) :
    (spent H hash N).Leads c ((spent H hash N).post n c) (c.program H) w := by
  by_cases hc : c.rotates H = some hash
  · cases c with
    | refresh rawToken accessToken ttlSecs newToken newId =>
      cases hc
      refine handlers_of_store (.bind (.bind (leads_validate_none hres ?_ ?_)))
      · exact fun w _ hw => hw.2
      · exact fun e w _ _ => ⟨e, rfl⟩
    | _ => cases hc
  · refine (handlers_of_store (leads_program hres fun _ ho => ho.elim)).mono ?_
    exact fun r w' _ _ hrotates => absurd hrotates hc

/-- What a run of handlers keeps: a token that has been exchanged has no entry, and every handler that
still has the token began after that. -/
structure Rotated (H : Hashing) (s : AuthPool) : Prop where
  sound : (rotation H).Sound s
  once : ∀ hash, exchanges H s hash = [] ∨ (exchanges H s hash).length = 1 ∧
    ∃ N ≤ s.next, (spent H hash N).Sound s ∧
      ∀ n c p, s.running n = some (c, p) → c.rotates H = some hash → N ≤ n

variable {s : AuthPool} {a : PoolAction (Option String) AuthCall ℕ}

/-- What a step does to the pairs that have been handed out. -/
lemma exchanges_of_moves (h : (authMachine H).Moves s a s') (hash : String) :
    exchanges H s' hash = exchanges H s hash ∨
      ∃ n c r, s.running n = some (c, .ret r) ∧ s'.returned = (n, c, r) :: s.returned ∧
        s'.running = Function.update s.running n none ∧ s'.shared = s.shared ∧ s'.next = s.next ∧
        c.rotates H = some hash ∧ ∃ x, r = .ok x := by
  cases h with
  | invoke | access | elapse | restart => exact .inl rfl
  | @finish n c r hrun =>
    by_cases hx : exchanged H hash (n, c, r)
    · refine .inr ⟨n, c, r, hrun, rfl, rfl, rfl, rfl, ?_⟩
      rw [exchanged, Bool.and_eq_true, decide_eq_true_eq] at hx
      refine ⟨hx.1, ?_⟩
      cases r with
      | ok x => exact ⟨x, rfl⟩
      | error e => cases hx.2
    · exact .inl (filter_cons_of_neg hx)

/-- The handlers that run when a token has been exchanged keep to the discipline. -/
lemma spent_of_rotation (hs : (rotation H).Sound s)
    (hnone : NoEntry hash s.shared) : (spent H hash s.next).Sound s where
  __ := hs
  inv := ⟨hs.inv.1, hnone⟩
  leads n c p hn := by
    refine (hs.leads n c p hn).transfer (fun _ _ hr => hr) (fun _ hw => ⟨hw.1, trivial⟩)
      (fun _ _ _ _ hm => hm) (fun _ _ _ hg => hg) fun r w _ _ hge => ?_
    exact absurd (hs.below n c p hn) (not_lt.2 hge)
  post n c r hmem hge := absurd (hs.returnedBelow n c r hmem) (not_lt.2 hge)

/-- **The step of a run of handlers.** -/
lemma Rotated.step (h : Rotated H s)
    (hok : RotationOk H s a) (hstep : (authSystem H).step s a = some s') : Rotated H s' := by
  have hmoves := Machine.moves_of_step hstep
  have hnoEntry : a = .restart → ∀ hash, NoEntry hash s.shared →
      NoEntry hash ((authMachine H).restart s.shared) := by
    rintro rfl hash hnone
    exact ⟨mem_append_right _ hnone.1, hok hash hnone⟩
  have hsound : (rotation H).Sound s' := by
    refine handlers_step (fun c w => leads_rotation (n := s.next)) (fun _ ha => ⟨trivial, ?_⟩) h.sound hok hstep
    exact fun n c r hpost hash hc hr => hnoEntry ha hash (hpost hash hc hr)
  refine ⟨hsound, fun hash => ?_⟩
  rcases exchanges_of_moves hmoves hash with heq | ⟨n, c, r, hrun, hret, hrunning, -, -, hc, x, rfl⟩
  · rw [heq]
    refine (h.once hash).imp_right ?_
    rintro ⟨hlength, N, hN, hspent, hbegan⟩
    refine ⟨hlength, N, hN.trans hmoves.next_le, ?_, fun n c p hn hc => ?_⟩
    · exact handlers_step (fun c w => leads_spent (n := s.next)) (fun hnone ha => ⟨hnoEntry ha hash hnone,
        fun _ _ _ h => h⟩) hspent hok hstep
    · rcases hmoves.running_of hn with rfl | ⟨p', hp'⟩
      · exact hN
      · exact hbegan n c p' hp' hc
  · right
    rcases h.once hash with hnil | ⟨-, N, -, hspent, hbegan⟩
    · -- the first exchange: no other handler has the token, so that no one may still have accepted it
      refine ⟨?_, s'.next, le_refl _, ?_, fun m d q hm hd => ?_⟩
      · have hx : exchanged H hash (n, c, .ok x) := by
          rw [exchanged, Bool.and_eq_true, decide_eq_true_eq]
          exact ⟨hc, rfl⟩
        rw [exchanges, hret, filter_cons_of_pos hx, length_cons]
        rw [exchanges] at hnil
        rw [hnil, length_nil]
      · refine spent_of_rotation hsound (hsound.post n c _ ?_ hash hc ⟨x, rfl⟩)
        rw [hret]
        exact mem_cons_self
      · rw [hrunning, Function.update_apply] at hm
        split at hm
        · cases hm
        next hne => exact absurd hd ((h.sound.apart n m c d _ q (Ne.symm hne) hrun hm).2 hash hc)
    · obtain ⟨e, he⟩ := hspent.leads n c _ hrun s.shared ((spent H hash N).rely_refl c s.shared)
        hspent.inv (hbegan n c _ hrun hc) hc
      cases he

lemma rotated_of_reachable (h : (authSystem H).ReachableBy (RotationOk H) s) : Rotated H s := by
  refine h.invariant ?_ fun s a s' _ hs hok hstep => hs.step hok hstep
  rintro s ⟨hopened, hrunning, -, hreturned⟩
  refine ⟨Discipline.sound_of_none ⟨inv_of_opened hopened, trivial⟩ hrunning hreturned, fun hash => ?_⟩
  exact .inl (by rw [exchanges, hreturned, filter_nil])

/-- **Rotation is single use.**  In every run whose steps meet the condition a token is exchanged at
most once. -/
theorem exchanged_at_most_once {s : AuthPool} (h : (authSystem H).ReachableBy (RotationOk H) s)
    (hash : String) : (exchanges H s hash).length ≤ 1 := by
  rcases (rotated_of_reachable h).once hash with hnil | ⟨hlength, -⟩
  · rw [hnil]
    exact Nat.zero_le 1
  · exact hlength.le

/-- A check for the condition: one call at a time, and no statement fails. -/
def oneAtATime (s : AuthPool) : PoolAction (Option String) AuthCall ℕ → Bool
  | .invoke _ => (List.range s.next).all fun n => (s.running n).isNone
  | .access _ i => i.isNone
  | .restart => false
  | _ => true

lemma rotationOk_of_oneAtATime (hs : (authSystem H).ReachableBy (RotationOk H) s)
    (h : oneAtATime s a = true) : RotationOk H s a := by
  cases a with
  | invoke c =>
    intro n d p hn
    have hlt := (rotated_of_reachable hs).sound.below n d p hn
    have hnone := all_eq_true.1 h n (mem_range.2 hlt)
    rw [hn] at hnone
    cases hnone
  | access n i => exact fun _ _ _ _ _ _ _ => isNone_iff_eq_none.1 h
  | finish | elapse => trivial
  | restart => cases h

/-- A handler that exchanges the token `t` for the given one. -/
def refreshTo (newToken : String) : AuthCall := .refresh "t" (.ok "access") 60 newToken newToken

/-- Two handlers, one after the other: the second one is refused. -/
theorem second_handler_refused :
    ∃ s : AuthPool, (authSystem plainHashing).ReachableBy (RotationOk plainHashing) s ∧
      s.returned.length = 2 ∧ (exchanges plainHashing s "t").length ≤ 1 := by
  have hrun := System.ReachableBy.execIf (fun s a => rotationOk_of_oneAtATime)
    (.init (init_openedStore plainHashing oneToken))
    (rfl : (authSystem plainHashing).execIf oneAtATime (openedStore plainHashing oneToken)
      (callSteps (refreshTo "t1") 0 13 ++ callSteps (refreshTo "t2") 1 2) = some _)
  exact ⟨_, hrun, rfl, exchanged_at_most_once hrun "t"⟩

/-- Two handlers that validate before either revokes, and two handlers of which the first one cannot
delete the row: both hand out a pair. -/
theorem token_exchanged_twice :
    (∃ s : AuthPool, (authSystem plainHashing).exec (openedStore plainHashing oneToken)
        ([.invoke (refreshTo "t1"), .invoke (refreshTo "t2")] ++ accesses 0 5 ++ accesses 1 5 ++
          accesses 0 8 ++ [.finish 0] ++ accesses 1 5 ++ [.finish 1]) = some s ∧
      (exchanges plainHashing s "t").length = 2) ∧
    ∃ s : AuthPool, (authSystem plainHashing).exec (openedStore plainHashing oneToken)
        ([.invoke (refreshTo "t1")] ++ accesses 0 6 ++ [.access 0 (some "disk full")] ++
          accesses 0 4 ++ [.finish 0] ++ callSteps (refreshTo "t2") 1 13) = some s ∧
      (exchanges plainHashing s "t").length = 2 :=
  ⟨⟨_, rfl, rfl⟩, _, rfl, rfl⟩

end LightningDB
