import LightningDB.Framework.RateLimit
import LightningDB.Framework.Runs
import LightningDB.Server.AuthStore

/-!
# Login and lockout

`try_login` keeps a record of attempts for each client address and one for each username.  An attempt
first has to pass the record of its address, then the one of its username, and only then is the password
checked; a login that succeeds removes the record of the username.

A record is the sliding window of `Framework.Limits`, and a removal is forgiveness.  The bound over every
window follows from the step of the limiter: per address always, and per username over the windows in
which no login of it succeeds (`login_attempts_bounded`).  The lock lasts as long as the window, which is
just enough: the attempt at which a lock expires is in no window with the attempts before it.
-/

namespace LightningDB

open Framework List

/-- `MAX_LOGIN_ATTEMPTS`, `LOGIN_WINDOW_SECS` and `LOCKOUT_DURATION_SECS`. -/
def loginLimits : Limits := ⟨5, 900, 900⟩

/-- `LoginRecord`. -/
abbrev LoginRecord := AttemptRecord

/-- `login_attempts` and `login_ip_attempts`. -/
structure LoginTables (Ip : Type) [DecidableEq Ip] where
  loginAttempts : FinMap String LoginRecord
  loginIpAttempts : FinMap Ip LoginRecord

/-- A call of `try_login`, with the two readings of the clock and the users cache at that time. -/
structure LoginCall (Ip : Type) where
  username : String
  password : String
  clientIp : Ip
  ipNow : ℤ
  now : ℤ
  users : List User

open LoginCall

/-- The answer when the record of the address refuses. -/
def ipRefused : String := "too many login attempts from this IP"

/-- The answer when the record of the username refuses. -/
def accountLocked : String := "account temporarily locked due to too many failed attempts"

/-- The answer when the password check fails. -/
def invalidLogin : String := "invalid username or password"

/-- `verify_password`, and the hash that stands in for an unknown user. -/
structure Passwords where
  verify : String → String → Except String Bool
  dummyHash : String

section Login

variable {Ip : Type} [DecidableEq Ip] (P : Passwords)

namespace LoginTables

/-- The record of an address; there is an empty one if there is none. -/
def ipRecord (t : LoginTables Ip) (ip : Ip) : LoginRecord := (t.loginIpAttempts.lookup ip).getD ∅

def userRecord (t : LoginTables Ip) (username : String) : LoginRecord :=
  (t.loginAttempts.lookup username).getD ∅

end LoginTables

open LoginTables

/-- The password check, for a user or for the hash that stands in for one. -/
def LoginCall.checkPassword (c : LoginCall Ip) : Except String User :=
  let user := c.users.find? fun u => u.username = c.username && u.enabled
  match P.verify c.password ((user.map User.passwordHash).getD P.dummyHash) with
  | .error _ => .error invalidLogin
  | .ok false => .error invalidLogin
  | .ok true =>
    match user with
    | none => .error invalidLogin
    | some u => .ok u

/-- `try_login`. -/
def tryLogin (t : LoginTables Ip) (c : LoginCall Ip) : Except String User × LoginTables Ip :=
  let ip := loginLimits.allow (t.ipRecord c.clientIp) c.ipNow
  let t := { t with loginIpAttempts := t.loginIpAttempts.insert c.clientIp ip.2 }
  if !ip.1 then (.error ipRefused, t)
  else
    let user := loginLimits.allow (t.userRecord c.username) c.now
    let t := { t with loginAttempts := t.loginAttempts.insert c.username user.2 }
    if !user.1 then (.error accountLocked, t)
    else
      match c.checkPassword P with
      | .error e => (.error e, t)
      | .ok u => (.ok u, { t with loginAttempts := t.loginAttempts.erase c.username })

/-! ## Runs -/

/-- The tables, the time, and the calls so far with what they returned, newest first. -/
structure LoginState (Ip : Type) [DecidableEq Ip] where
  tables : LoginTables Ip
  clock : ℤ
  log : List (LoginCall Ip × Except String User)

/-- A call, if the clock has not gone back. -/
def loginStep (s : LoginState Ip) (c : LoginCall Ip) : Option (LoginState Ip) :=
  if s.clock ≤ c.ipNow ∧ c.ipNow ≤ c.now then
    some ⟨(tryLogin P s.tables c).2, c.now, (c, (tryLogin P s.tables c).1) :: s.log⟩
  else none

/-- Sequences of calls on a new store. -/
def loginSystem : System (LoginState Ip) (LoginCall Ip) where
  init s := s.tables = ⟨∅, ∅⟩ ∧ s.log = []
  step := loginStep P

/-- The call got past the check of its address. -/
def pastIp : Except String User → Bool
  | .ok _ => true
  | .error e => e ≠ ipRefused

def reachesPassword : Except String User → Bool
  | .ok _ => true
  | .error e => e = invalidLogin

def loggedIn : Except String User → Bool
  | .ok _ => true
  | .error _ => false

variable (time : LoginCall Ip → ℤ) (p : LoginCall Ip × Except String User → Bool)

def timesOf (log : List (LoginCall Ip × Except String User)) : List ℤ :=
  (log.filter p).map fun e => time e.1

/-- An address got past its check. -/
def ofIp (ip : Ip) (e : LoginCall Ip × Except String User) : Bool :=
  e.1.clientIp = ip && pastIp e.2

/-- The password check was reached for a username. -/
def ofUser (username : String) (e : LoginCall Ip × Except String User) : Bool :=
  e.1.username = username && reachesPassword e.2

def loginOf (username : String) (e : LoginCall Ip × Except String User) : Bool :=
  e.1.username = username && loggedIn e.2

/-- Every record is bounded by what it has let through. -/
structure LoginState.Bounded (s : LoginState Ip) : Prop where
  ip : ∀ ip, loginLimits.Bounded s.clock (timesOf ipNow (ofIp ip) s.log) []
    (s.tables.ipRecord ip)
  user : ∀ u, loginLimits.Bounded s.clock (timesOf now (ofUser u) s.log)
    (timesOf now (loginOf u) s.log) (s.tables.userRecord u)

variable {P} {s s' : LoginState Ip} {c : LoginCall Ip}

omit [DecidableEq Ip] in
lemma checkPassword_error {e : String} (h : c.checkPassword P = .error e) : e = invalidLogin := by
  rw [checkPassword] at h
  split at h
  · cases h
    rfl
  · cases h
    rfl
  · split at h
    · cases h
      rfl
    · cases h

/-- What a call can do: it is refused by its address, by its username, or checks the password. -/
inductive LoginMoves (P : Passwords) (t : LoginTables Ip) (c : LoginCall Ip) :
    Except String User → LoginTables Ip → Prop where
  | ipRefused (h : (loginLimits.allow (t.ipRecord c.clientIp) c.ipNow).1 = false) :
      LoginMoves P t c (.error ipRefused)
        { t with
          loginIpAttempts := t.loginIpAttempts.insert c.clientIp
            (loginLimits.allow (t.ipRecord c.clientIp) c.ipNow).2 }
  | locked (hip : (loginLimits.allow (t.ipRecord c.clientIp) c.ipNow).1 = true)
      (h : (loginLimits.allow (t.userRecord c.username) c.now).1 = false) :
      LoginMoves P t c (.error accountLocked)
        ⟨t.loginAttempts.insert c.username (loginLimits.allow (t.userRecord c.username) c.now).2,
          t.loginIpAttempts.insert c.clientIp
            (loginLimits.allow (t.ipRecord c.clientIp) c.ipNow).2⟩
  | rejected (hip : (loginLimits.allow (t.ipRecord c.clientIp) c.ipNow).1 = true)
      (huser : (loginLimits.allow (t.userRecord c.username) c.now).1 = true) :
      LoginMoves P t c (.error invalidLogin)
        ⟨t.loginAttempts.insert c.username (loginLimits.allow (t.userRecord c.username) c.now).2,
          t.loginIpAttempts.insert c.clientIp
            (loginLimits.allow (t.ipRecord c.clientIp) c.ipNow).2⟩
  | loggedIn {u : User} (hip : (loginLimits.allow (t.ipRecord c.clientIp) c.ipNow).1 = true)
      (huser : (loginLimits.allow (t.userRecord c.username) c.now).1 = true)
      (h : c.checkPassword P = .ok u) :
      LoginMoves P t c (.ok u)
        ⟨(t.loginAttempts.insert c.username
            (loginLimits.allow (t.userRecord c.username) c.now).2).erase c.username,
          t.loginIpAttempts.insert c.clientIp
            (loginLimits.allow (t.ipRecord c.clientIp) c.ipNow).2⟩

variable (t : LoginTables Ip)

lemma moves_tryLogin (c : LoginCall Ip) :
    LoginMoves P t c (tryLogin P t c).1 (tryLogin P t c).2 := by
  have hrecord : ∀ m : FinMap Ip LoginRecord,
      userRecord ⟨t.loginAttempts, m⟩ c.username = t.userRecord c.username :=
    fun _ => rfl
  rw [tryLogin]
  dsimp only
  cases hip : (loginLimits.allow (t.ipRecord c.clientIp) c.ipNow).1 with
  | false => exact .ipRefused hip
  | true =>
    rw [hrecord]
    cases huser : (loginLimits.allow (t.userRecord c.username) c.now).1 with
    | false => exact .locked hip huser
    | true =>
      cases hpassword : c.checkPassword P with
      | error e =>
        rw [checkPassword_error hpassword]
        exact .rejected hip huser
      | ok u => exact .loggedIn hip huser hpassword

lemma ipRecord_insert (attempts : FinMap String LoginRecord) (k ip : Ip)
    (r : LoginRecord) : ipRecord ⟨attempts, t.loginIpAttempts.insert k r⟩ ip =
      if ip = k then r else t.ipRecord ip := by
  rw [ipRecord, FinMap.lookup_insert_eq_ite]
  split
  · rfl
  · rfl

lemma userRecord_insert (m : FinMap Ip LoginRecord) (k username : String)
    (r : LoginRecord) : userRecord ⟨t.loginAttempts.insert k r, m⟩ username =
      if username = k then r else t.userRecord username := by
  rw [userRecord, FinMap.lookup_insert_eq_ite]
  split
  · rfl
  · rfl

lemma userRecord_erase (attempts : FinMap String LoginRecord) (m : FinMap Ip LoginRecord)
    (k username : String) : userRecord ⟨attempts.erase k, m⟩ username =
      if username = k then ∅ else userRecord ⟨attempts, m⟩ username := by
  rw [userRecord, FinMap.lookup_erase_eq_ite]
  split
  · rfl
  · rfl

omit [DecidableEq Ip] in
lemma timesOf_cons
    (e : LoginCall Ip × Except String User) (log : List (LoginCall Ip × Except String User)) :
    timesOf time p (e :: log) = if p e then time e.1 :: timesOf time p log else timesOf time p log := by
  rw [timesOf, filter_cons]
  split
  · rfl
  · rfl

lemma bounded_ip (h : s.Bounded) (hip : s.clock ≤ c.ipNow) (hnow : c.ipNow ≤ c.now)
    (attempts : FinMap String LoginRecord) {r : Except String User}
    (hr : pastIp r = (loginLimits.allow (s.tables.ipRecord c.clientIp) c.ipNow).1) (ip : Ip) :
    loginLimits.Bounded c.now (timesOf ipNow (ofIp ip) ((c, r) :: s.log)) []
      (ipRecord ⟨attempts, s.tables.loginIpAttempts.insert c.clientIp
        (loginLimits.allow (s.tables.ipRecord c.clientIp) c.ipNow).2⟩ ip) := by
  have hold := (h.ip ip).elapse hip
  rw [ipRecord_insert, timesOf_cons, ofIp, hr]
  by_cases heq : c.clientIp = ip
  · subst heq
    rw [decide_eq_true rfl, if_pos rfl]
    exact (hold.allow (by decide)).elapse hnow
  · rw [decide_eq_false heq, Bool.false_and, if_neg Bool.false_ne_true,
      if_neg fun hip' => heq hip'.symm]
    exact hold.elapse hnow

/-- The records of the usernames after a call that passed its address, before a login is looked at. -/
lemma bounded_user (h : s.Bounded) (hnow : s.clock ≤ c.now) (m : FinMap Ip LoginRecord)
    (r : Except String User)
    (hr : reachesPassword r = (loginLimits.allow (s.tables.userRecord c.username) c.now).1)
    (u : String) : loginLimits.Bounded c.now (timesOf now (ofUser u) ((c, r) :: s.log))
      (timesOf now (loginOf u) s.log)
      (userRecord ⟨s.tables.loginAttempts.insert c.username
        (loginLimits.allow (s.tables.userRecord c.username) c.now).2, m⟩ u) := by
  have hold := (h.user u).elapse hnow
  rw [userRecord_insert, timesOf_cons, ofUser, hr]
  by_cases heq : c.username = u
  · subst heq
    rw [decide_eq_true rfl, if_pos rfl]
    exact hold.allow (by decide)
  · rw [decide_eq_false heq, Bool.false_and, if_neg Bool.false_ne_true,
      if_neg fun hu => heq hu.symm]
    exact hold

omit [DecidableEq Ip] in
lemma timesOf_loginOf_error {e : String} (u : String)
    (log : List (LoginCall Ip × Except String User)) :
    timesOf now (loginOf u) ((c, .error e) :: log) =
      timesOf now (loginOf u) log := by
  rw [timesOf_cons, loginOf, loggedIn, Bool.and_false, if_neg Bool.false_ne_true]

/-- **The step of the lockout.** -/
lemma LoginState.Bounded.step (h : s.Bounded) (hstep : loginStep P s c = some s') : s'.Bounded := by
  rw [loginStep] at hstep
  split at hstep
  next htime =>
    obtain ⟨hip, hnow⟩ := htime
    have hclock := Int.le_trans hip hnow
    cases hstep
    generalize hr : (tryLogin P s.tables c).1 = r
    generalize ht : (tryLogin P s.tables c).2 = t
    have hmoves := moves_tryLogin (P := P) s.tables c
    rw [hr, ht] at hmoves
    cases hmoves with
    | ipRefused hallow =>
      refine ⟨bounded_ip h hip hnow _ hallow.symm, fun u => ?_⟩
      have hnot : reachesPassword (.error ipRefused) = false := rfl
      rw [timesOf_loginOf_error, timesOf_cons, ofUser, hnot, Bool.and_false]
      exact (h.user u).elapse hclock
    | locked hallow huser =>
      refine ⟨bounded_ip h hip hnow _ hallow.symm, fun u => ?_⟩
      rw [timesOf_loginOf_error]
      exact bounded_user h hclock _ (.error accountLocked) huser.symm u
    | rejected hallow huser =>
      refine ⟨bounded_ip h hip hnow _ hallow.symm, fun u => ?_⟩
      rw [timesOf_loginOf_error]
      exact bounded_user h hclock _ (.error invalidLogin) huser.symm u
    | @loggedIn user hallow huser _ =>
      refine ⟨bounded_ip h hip hnow _ hallow.symm, fun u => ?_⟩
      have hpassed := bounded_user h hclock
        (s.tables.loginIpAttempts.insert c.clientIp
          (loginLimits.allow (s.tables.ipRecord c.clientIp) c.ipNow).2) (.ok user) huser.symm u
      rw [userRecord_erase, timesOf_cons now (loginOf u), loginOf]
      by_cases heq : c.username = u
      · subst heq
        rw [decide_eq_true rfl, if_pos rfl]
        exact hpassed.forgive
      · rw [decide_eq_false heq, Bool.false_and, if_neg Bool.false_ne_true,
          if_neg fun hu => heq hu.symm]
        exact hpassed
  · cases hstep

lemma bounded_of_reachable (h : (loginSystem P).Reachable s) : s.Bounded := by
  refine System.ReachableBy.invariant h ?_ fun s c s' _ hs _ hstep => hs.step hstep
  rintro s ⟨htables, hlog⟩
  have hip : ∀ ip, s.tables.ipRecord ip = ∅ := by simp [htables, ipRecord]
  have huser : ∀ u, s.tables.userRecord u = ∅ := by simp [htables, userRecord]
  refine ⟨fun ip => ?_, fun u => ?_⟩
  · rw [hlog, hip]
    exact Limits.bounded_empty (by decide) _
  · rw [hlog, huser]
    exact Limits.bounded_empty (by decide) _

omit [DecidableEq Ip] in
lemma countP_timesOf (q : ℤ → Bool) (log : List (LoginCall Ip × Except String User)) :
    (timesOf time p log).countP q = log.countP fun e => p e && q (time e.1) := by
  rw [timesOf, countP_map, countP_filter]
  refine countP_congr fun e _ => ?_
  rw [Bool.and_comm]
  exact Iff.rfl

/-- **The lockout bounds the attempts.**  After any sequence of calls: in every window of 900 seconds in
which no login of a username succeeds, at most four calls for it reach the password check, and in every
window at most four calls from one address get past its check. -/
theorem login_attempts_bounded (h : (loginSystem P).Reachable s) (t : ℤ) :
    (∀ u, (∀ e ∈ s.log, loginOf u e = true → ¬ (t - 900 < e.1.now ∧ e.1.now ≤ t)) →
      s.log.countP (fun e => ofUser u e && decide (t - 900 < e.1.now ∧ e.1.now ≤ t)) ≤ 4) ∧
    ∀ ip, s.log.countP
      (fun e => ofIp ip e && decide (t - 900 < e.1.ipNow ∧ e.1.ipNow ≤ t)) ≤ 4 := by
  have hs := bounded_of_reachable h
  refine ⟨fun u hnone => ?_, fun ip => ?_⟩
  · have hbound := (hs.user u).bound t ?_
    · rw [countP_timesOf] at hbound
      exact Nat.lt_succ_iff.1 hbound
    · intro y hy
      obtain ⟨e, he, rfl⟩ := mem_map.1 hy
      obtain ⟨hmem, hlogin⟩ := mem_filter.1 he
      exact hnone e hmem hlogin
  · have hbound := (hs.ip ip).bound t nofun
    rw [countP_timesOf] at hbound
    exact Nat.lt_succ_iff.1 hbound

end Login

def noPassword : Passwords := ⟨fun _ _ => .ok false, ""⟩

/-- An attempt at a time, from one address for one user. -/
def guessAt (now : ℤ) : LoginCall ℕ := ⟨"user", "guess", 0, now, now, []⟩

/-- Four attempts reach the password check, the fifth locks, and the lock expires when the first four are
out of the window. -/
theorem login_attempts_bounded_guesses : ∃ s : LoginState ℕ,
      (loginSystem noPassword).exec ⟨⟨∅, ∅⟩, 0, []⟩
        [guessAt 0, guessAt 0, guessAt 0, guessAt 0, guessAt 0, guessAt 899, guessAt 900] = some s ∧
      s.log.map (fun e => reachesPassword e.2) = [true, false, false, true, true, true, true] ∧
      s.log.countP (fun e => ofUser "user" e && decide ((0 : ℤ) < e.1.now ∧ e.1.now ≤ 900)) ≤ 4 := by
  have hrun : (loginSystem noPassword).exec ⟨⟨∅, ∅⟩, 0, []⟩ [guessAt 0, guessAt 0, guessAt 0, guessAt 0,
    guessAt 0, guessAt 899, guessAt 900] = some _ := rfl
  have hreach : (loginSystem noPassword).Reachable _ :=
    System.Reachable.exec (.init ⟨rfl, rfl⟩) hrun
  refine ⟨_, hrun, rfl, (login_attempts_bounded hreach 900).1 "user" ?_⟩
  decide

end LightningDB
