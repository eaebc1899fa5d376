import LightningDB.Framework.FinMap
import LightningDB.Framework.Interleaving

/-!
# The authentication store

`AuthStore` keeps users, refresh tokens and API keys in three system tables and in caches that are
read on every request.  No lock spans an operation: a cache is read or written under its own lock, and
a statement is one call of the database.  An operation is therefore a program of such accesses
(`Access`), and the operations of concurrent requests interleave between them.

A statement is executed or it fails without effect, as the input of the access says.  What is drawn at
random (the tokens, the keys and the identifiers) comes with the call, and a call that draws what has
been drawn before is not made.

`executed`, `entered` and `drawn` are not in the source: they list the statements that have been
executed, what has been put into the caches, and what has been drawn.
-/

namespace LightningDB

open Framework

/-! ## Users, tokens and keys -/

/-- `Role`. -/
inductive Role where
  | reader
  | writer
  | admin
deriving DecidableEq

/-- The order of roles. -/
def Role.rank : Role → ℕ
  | .reader => 0
  | .writer => 1
  | .admin => 2

/-- `Role::has_at_least`. -/
def Role.hasAtLeast (r minimum : Role) : Bool := minimum.rank ≤ r.rank

/-- `Role::from_str`. -/
def Role.fromStr (s : String) : Except String Role :=
  if s = "reader" ∨ s = "read" then .ok .reader
  else if s = "writer" ∨ s = "write" then .ok .writer
  else if s = "admin" ∨ s = "administrator" then .ok .admin
  else .error ("invalid role: " ++ s)

/-- `User`. -/
structure User where
  id : String
  username : String
  passwordHash : String
  role : Role
  enabled : Bool
  createdAt : ℤ
  lastLogin : Option ℤ
deriving DecidableEq

/-- `StoredRefreshToken`. -/
structure StoredRefreshToken where
  id : String
  userId : String
  tokenHash : String
  expiresAt : ℤ
  revoked : Bool
  createdAt : ℤ
deriving DecidableEq

/-- `ApiKey`. -/
structure ApiKey where
  id : String
  userId : String
  keyHash : String
  name : String
  keyPrefix : String
  roleOverride : Option Role
  expiresAt : Option ℤ
  createdAt : ℤ
  revoked : Bool
deriving DecidableEq

/-- `AuthMethod`, as far as the store uses it. -/
inductive AuthMethod where
  | jwt
  | apiKey
deriving DecidableEq

/-- `AuthenticatedUser`. -/
structure AuthenticatedUser where
  userId : String
  username : String
  role : Role
  authMethod : AuthMethod
deriving DecidableEq

/-! ## The system tables -/

/-- The tables, as `load_users`, `load_tokens` and `load_api_keys` read them: a last login and an
expiry of `0` stand for none. -/
structure AuthDb where
  users : List User
  refreshTokens : List StoredRefreshToken
  apiKeys : List ApiKey
deriving DecidableEq

inductive AuthStatement where
  | createUser (u : User)
  | createToken (t : StoredRefreshToken)
  | createApiKey (k : ApiKey)
  | setUser (id : String) (role : Option Role) (enabled : Option Bool)
  | setPasswordHash (id hash : String)
  | setLastLogin (id : String) (now : ℤ)
  | deleteUser (id : String)
  | deleteTokensOf (userId : String)
  | deleteApiKeysOf (userId : String)
  | deleteToken (hash : String)
  | deleteApiKey (hash : String)
  | purgeTokens (now : ℤ)
  | purgeApiKeys (now : ℤ)
deriving DecidableEq

def AuthDb.setUserRow (db : AuthDb) (id : String) (f : User → User) : AuthDb :=
  { db with users := db.users.map fun u => if u.id = id then f u else u }

def AuthDb.apply (db : AuthDb) : AuthStatement → AuthDb
  | .createUser u => { db with users := db.users ++ [{ u with lastLogin := none }] }
  | .createToken t =>
    { db with refreshTokens := db.refreshTokens ++ [{ t with revoked := false }] }
  | .createApiKey k =>
    { db with
      apiKeys := db.apiKeys ++
        [{ k with expiresAt := k.expiresAt.filter (· ≠ 0), revoked := false }] }
  | .setUser id role enabled =>
    db.setUserRow id fun u => { u with role := role.getD u.role, enabled := enabled.getD u.enabled }
  | .setPasswordHash id hash => db.setUserRow id fun u => { u with passwordHash := hash }
  | .setLastLogin id now =>
    db.setUserRow id fun u => { u with lastLogin := if now = 0 then none else some now }
  | .deleteUser id => { db with users := db.users.filter (·.id ≠ id) }
  | .deleteTokensOf userId =>
    { db with refreshTokens := db.refreshTokens.filter (·.userId ≠ userId) }
  | .deleteApiKeysOf userId => { db with apiKeys := db.apiKeys.filter (·.userId ≠ userId) }
  | .deleteToken hash =>
    { db with refreshTokens := db.refreshTokens.filter (·.tokenHash ≠ hash) }
  | .deleteApiKey hash => { db with apiKeys := db.apiKeys.filter (·.keyHash ≠ hash) }
  | .purgeTokens now =>
    { db with refreshTokens := db.refreshTokens.filter fun t => !decide (t.expiresAt ≤ now) }
  | .purgeApiKeys now =>
    { db with
      apiKeys := db.apiKeys.filter fun k => !k.expiresAt.any fun e => 0 < e && e ≤ now }

/-! ## The token cache -/

structure Hashing where
  /-- SHA-256, as four words. -/
  sha256 : String → Fin 4 → UInt64
  /-- `jwt::hmac_hash` under the secret of the deployment. -/
  hmac : String → String

/-- `CacheResult`. -/
inductive CacheResult where
  | definitelyNotIssued
  | revoked
  | maybeValid
deriving DecidableEq

/-- `TokenCache`: the positions of the bits that are set, and the hashes marked as revoked. -/
structure TokenCache where
  bloom : List ℕ
  revoked : List String
  generation : ℕ

/-- `BLOOM_NUM_BITS - 1`. -/
def bloomMask : UInt64 := 1048575

variable (H : Hashing)

def Hashing.bloomBits (item : String) : List ℕ :=
  [0, 1, 2, 3].map fun i => (H.sha256 item i &&& bloomMask).toNat

namespace TokenCache

variable (c : TokenCache)

/-- `BloomFilter::contains`. -/
def contains (hash : String) : Bool := (H.bloomBits hash).all (· ∈ c.bloom)

/-- `TokenCache::insert`. -/
def insert (hash : String) : TokenCache :=
  { c with bloom := H.bloomBits hash ++ c.bloom }

/-- `mark_revoked`. -/
def markRevoked (hash : String) : TokenCache :=
  { c with revoked := hash :: c.revoked }

/-- The filter of `rebuild`. -/
def rebuildBloom (hashes : List String) : TokenCache :=
  { c with bloom := hashes.flatMap H.bloomBits }

/-- The end of `rebuild`, as it is called: no hash is marked as revoked. -/
def clearRevoked : TokenCache :=
  { c with revoked := [], generation := c.generation + 1 }

/-- `TokenCache::check`. -/
def check (hash : String) : CacheResult :=
  if !c.contains H hash then .definitelyNotIssued
  else if hash ∈ c.revoked then .revoked
  else .maybeValid

end TokenCache

/-! ## The store -/

/-- `AuthStore`, without the login records. -/
structure AuthStore where
  usersCache : FinMap String User
  usernamesCache : FinMap String String
  tokensCache : FinMap String StoredRefreshToken
  apiKeysCache : FinMap String ApiKey
  tokenBloom : TokenCache

def insertAll {β γ : Type} (key : β → String) (value : β → γ) (l : List β) : FinMap String γ :=
  l.foldl (fun m x => m.insert (key x) (value x)) ∅

variable (db : AuthDb) (now : ℤ)

/-- `load_tokens`. -/
def AuthDb.loadTokens : List StoredRefreshToken :=
  db.refreshTokens.filter fun t => !decide (t.expiresAt ≤ now)

/-- `load_api_keys`. -/
def AuthDb.loadApiKeys : List ApiKey :=
  db.apiKeys.filter fun k => !k.expiresAt.any (· ≤ now)

/-- `AuthStore::new`.  The filter holds the hashes of the tokens only. -/
def AuthStore.new : AuthStore where
  usersCache := insertAll User.id id db.users
  usernamesCache := insertAll User.username User.id db.users
  tokensCache := insertAll StoredRefreshToken.tokenHash id (db.loadTokens now)
  apiKeysCache := insertAll ApiKey.keyHash id (db.loadApiKeys now)
  tokenBloom :=
    ((⟨[], [], 0⟩ : TokenCache).rebuildBloom H
      ((db.loadTokens now).map StoredRefreshToken.tokenHash)).clearRevoked

/-- What a hash or an identifier is of. -/
inductive Kind where
  | token
  | apiKey
  | apiKeyId
  | user
deriving DecidableEq

/-- The hashes and identifiers in the tables. -/
def AuthDb.keys : List (Kind × String) :=
  db.refreshTokens.map (fun t => (.token, t.tokenHash)) ++
    db.apiKeys.flatMap (fun k => [(.apiKey, k.keyHash), (.apiKeyId, k.id)]) ++
      db.users.map fun u => (.user, u.id)

/-- The store, the tables and the clock. -/
structure AuthWorld where
  db : AuthDb
  store : AuthStore
  clock : ℕ
  executed : List AuthStatement
  entered : List (Kind × String)
  drawn : List String

/-! ## Accesses -/

/-- The accesses of the operations: the clock, the database, and each cache under its lock. -/
inductive Access where
  | now
  | execute (q : AuthStatement)
  -- `users_cache` and `usernames_cache`
  | usernameTaken (username : String)
  | bootstrapCheck (username : String)
  | getUser (id : String)
  | enabledUser (id : String)
  | insertUser (u : User)
  | insertUsername (username id : String)
  | replaceUser (id : String) (u : User)
  | setPasswordHash (id hash : String)
  | setLastLogin (id : String) (now : ℤ)
  | removeUser (id username : String)
  -- `tokens_cache`
  | getToken (hash : String)
  | tokenHashes
  | insertToken (t : StoredRefreshToken)
  | removeToken (hash : String)
  | dropTokensOf (userId : String)
  | revokeTokensOf (userId : String)
  | retainTokens (now : ℤ)
  -- `api_keys_cache`
  | getApiKey (hash : String)
  | findApiKey (id : String)
  | apiKeyHashes
  | insertApiKey (k : ApiKey)
  | removeApiKey (hash : String)
  | dropApiKeysOf (userId : String)
  | retainApiKeys (now : ℤ)
  -- `token_bloom`
  | bloomContains (hash : String)
  | isRevoked (hash : String)
  | bloomInsert (hash : String)
  | markRevoked (hash : String)
  | rebuildBloom (hashes : List String)
  | clearRevoked
deriving DecidableEq

abbrev Answer : Access → Type
  | .now => ℤ
  | .execute _ => Except String Unit
  | .usernameTaken _ => Bool
  | .bootstrapCheck _ => Bool × Bool
  | .getUser _ => Option User
  | .enabledUser _ => Option User
  | .getToken _ => Option StoredRefreshToken
  | .tokenHashes => List String
  | .getApiKey _ => Option ApiKey
  | .findApiKey _ => Option String
  | .apiKeyHashes => List String
  | .setLastLogin _ _ => Bool
  | .bloomContains _ => Bool
  | .isRevoked _ => Bool
  | _ => Unit

def values {β : Type} (m : FinMap String β) : List β := m.entries.map (·.2)

/-- Keep the entries that meet a condition. -/
def keepIf {β : Type} (p : β → Bool) (m : FinMap String β) : FinMap String β :=
  m.retain fun _ x => if p x then some x else none

namespace AuthWorld

def setStore (w : AuthWorld) (f : AuthStore → AuthStore) : AuthWorld := { w with store := f w.store }

/-- Something is put into a cache. -/
def enter (w : AuthWorld) (keys : List (Kind × String)) (f : AuthStore → AuthStore) : AuthWorld :=
  { w with store := f w.store, entered := keys ++ w.entered }

/-- What an access answers, and does.  A statement fails with the error in the input, if there is
one. -/
def perform : (a : Access) → Option String → AuthWorld → Answer a × AuthWorld
  | .now, _, w => (w.clock, w)
  | .execute q, none, w => (.ok (), { w with db := w.db.apply q, executed := q :: w.executed })
  | .execute _, some e, w => (.error e, w)
  | .usernameTaken username, _, w =>
    ((values w.store.usersCache).any (·.username = username), w)
  | .bootstrapCheck username, _, w =>
    (((values w.store.usersCache).any (·.username = username),
      (values w.store.usersCache).any (·.role = .admin)), w)
  | .getUser id, _, w => (w.store.usersCache.lookup id, w)
  | .enabledUser id, _, w =>
    ((values w.store.usersCache).find? fun u => u.id = id && u.enabled, w)
  | .insertUser u, _, w =>
    ((), w.enter [(.user, u.id)] fun s => { s with usersCache := s.usersCache.insert u.id u })
  | .insertUsername username id, _, w =>
    ((), w.setStore fun s => { s with usernamesCache := s.usernamesCache.insert username id })
  | .replaceUser id u, _, w =>
    ((), w.enter [(.user, id)] fun s => { s with usersCache := s.usersCache.insert id u })
  | .setPasswordHash id hash, _, w =>
    ((), w.setStore fun s =>
      { s with
        usersCache := match s.usersCache.lookup id with
          | some u => s.usersCache.insert id { u with passwordHash := hash }
          | none => s.usersCache })
  | .setLastLogin id now, _, w =>
    ((w.store.usersCache.lookup id).isSome, w.setStore fun s =>
      { s with
        usersCache := match s.usersCache.lookup id with
          | some u => s.usersCache.insert id { u with lastLogin := some now }
          | none => s.usersCache })
  | .removeUser id username, _, w =>
    ((), w.setStore fun s =>
      { s with
        usersCache := s.usersCache.erase id, usernamesCache := s.usernamesCache.erase username })
  | .getToken hash, _, w => (w.store.tokensCache.lookup hash, w)
  | .tokenHashes, _, w => ((values w.store.tokensCache).map StoredRefreshToken.tokenHash, w)
  | .insertToken t, _, w =>
    ((), w.enter [(.token, t.tokenHash)] fun s =>
      { s with tokensCache := s.tokensCache.insert t.tokenHash t })
  | .removeToken hash, _, w =>
    ((), w.setStore fun s => { s with tokensCache := s.tokensCache.erase hash })
  | .dropTokensOf userId, _, w =>
    ((), w.setStore fun s => { s with tokensCache := keepIf (·.userId ≠ userId) s.tokensCache })
  | .revokeTokensOf userId, _, w =>
    ((), w.setStore fun s =>
      { s with
        tokenBloom := ((values s.tokensCache).filter (·.userId = userId)).foldl
          (fun c t => c.markRevoked t.tokenHash) s.tokenBloom
        tokensCache := keepIf (·.userId ≠ userId) s.tokensCache })
  | .retainTokens now, _, w =>
    ((), w.setStore fun s => { s with tokensCache := keepIf (now < ·.expiresAt) s.tokensCache })
  | .getApiKey hash, _, w => (w.store.apiKeysCache.lookup hash, w)
  | .findApiKey id, _, w =>
    ((w.store.apiKeysCache.entries.find? (·.2.id = id)).map (·.1), w)
  | .apiKeyHashes, _, w => ((values w.store.apiKeysCache).map ApiKey.keyHash, w)
  | .insertApiKey k, _, w =>
    ((), w.enter [(.apiKey, k.keyHash), (.apiKeyId, k.id)] fun s =>
      { s with apiKeysCache := s.apiKeysCache.insert k.keyHash k })
  | .removeApiKey hash, _, w =>
    ((), w.setStore fun s => { s with apiKeysCache := s.apiKeysCache.erase hash })
  | .dropApiKeysOf userId, _, w =>
    ((), w.setStore fun s => { s with apiKeysCache := keepIf (·.userId ≠ userId) s.apiKeysCache })
  | .retainApiKeys now, _, w =>
    ((), w.setStore fun s =>
      { s with apiKeysCache := keepIf (fun k => k.expiresAt.all (now < ·)) s.apiKeysCache })
  | .bloomContains hash, _, w => (w.store.tokenBloom.contains H hash, w)
  | .isRevoked hash, _, w => (decide (hash ∈ w.store.tokenBloom.revoked), w)
  | .bloomInsert hash, _, w =>
    ((), w.setStore fun s => { s with tokenBloom := s.tokenBloom.insert H hash })
  | .markRevoked hash, _, w =>
    ((), w.setStore fun s => { s with tokenBloom := s.tokenBloom.markRevoked hash })
  | .rebuildBloom hashes, _, w =>
    ((), w.setStore fun s => { s with tokenBloom := s.tokenBloom.rebuildBloom H hashes })
  | .clearRevoked, _, w =>
    ((), w.setStore fun s => { s with tokenBloom := s.tokenBloom.clearRevoked })

end AuthWorld

/-! ## Operations -/

abbrev AuthM (α : Type) := Prog Access Answer String α

namespace AuthStore

open Prog

def ask (a : Access) : AuthM (Answer a) := perform a

/-- A statement, with what its failure is reported as. -/
def execute (q : AuthStatement) (context : String) : AuthM Unit := do
  let r : Except String Unit ← ask (.execute q)
  match r with
  | .ok () => return ()
  | .error e => fail (context ++ e)

/-- The check of a hash against the token cache. -/
def checkHash (hash notIssued revoked : String) : AuthM Unit := do
  let known : Bool ← ask (.bloomContains hash)
  if !known then fail notIssued
  else
    let marked : Bool ← ask (.isRevoked hash)
    if marked then fail revoked else return ()

/-- `store_refresh_token`. -/
def storeRefreshToken (userId tokenHash : String) (ttlSecs : ℕ) (id : String) : AuthM String := do
  let now : ℤ ← ask .now
  let stored : StoredRefreshToken := ⟨id, userId, tokenHash, now + ttlSecs, false, now⟩
  execute (.createToken stored) "failed to store refresh token: "
  ask (.bloomInsert tokenHash)
  ask (.insertToken stored)
  return id

variable (rawToken : String)

/-- `validate_refresh_token`. -/
def validateRefreshToken : AuthM (User × String) := do
  let hash := H.hmac rawToken
  checkHash hash "invalid or expired refresh token" "refresh token has been revoked"
  let now : ℤ ← ask .now
  let found : Option StoredRefreshToken ← ask (.getToken hash)
  match found.filter (now < ·.expiresAt) with
  | none => fail "invalid or expired refresh token"
  | some stored =>
    let user : Option User ← ask (.enabledUser stored.userId)
    match user with
    | none => fail "user not found or disabled"
    | some user => return (user, stored.id)

/-- `revoke_refresh_token`. -/
def revokeRefreshToken : AuthM Unit := do
  let hash := H.hmac rawToken
  let found : Option StoredRefreshToken ← ask (.getToken hash)
  if found.isNone then fail "refresh token not found"
  else
    execute (.deleteToken hash) "failed to revoke refresh token: "
    ask (.removeToken hash)
    ask (.markRevoked hash)

/-- `create_api_key`, with the key that is drawn. -/
def createApiKey (userId name : String) (roleOverride : Option Role) (expiresAt : Option ℤ)
    (key id : String) : AuthM (String × ApiKey) := do
  let user : Option User ← ask (.enabledUser userId)
  if user.isNone then fail "user not found or disabled"
  else
    let now : ℤ ← ask .now
    let apiKey : ApiKey :=
      ⟨id, userId, H.hmac key, name, String.ofList (key.toList.take 12), roleOverride, expiresAt,
        now, false⟩
    execute (.createApiKey apiKey) "failed to create API key: "
    ask (.bloomInsert apiKey.keyHash)
    ask (.insertApiKey apiKey)
    return (key, apiKey)

/-- `revoke_api_key`. -/
def revokeApiKey (keyId : String) : AuthM Unit := do
  let found : Option String ← ask (.findApiKey keyId)
  match found with
  | none => fail ("API key '" ++ keyId ++ "' not found")
  | some hash =>
    execute (.deleteApiKey hash) "failed to revoke API key: "
    ask (.removeApiKey hash)

/-- `authenticate_api_key`. -/
def authenticateApiKey (key : String) : AuthM AuthenticatedUser := do
  let hash := H.hmac key
  checkHash hash "invalid API key" "API key has been revoked"
  let now : ℤ ← ask .now
  let found : Option ApiKey ← ask (.getApiKey hash)
  match found with
  | none => fail "invalid API key"
  | some stored =>
    if stored.expiresAt.any (· < now) then fail "API key expired"
    else
      let user : Option User ← ask (.enabledUser stored.userId)
      match user with
      | none => fail "user not found or disabled"
      | some user => return ⟨user.id, user.username, stored.roleOverride.getD user.role, .apiKey⟩

/-- `rebuild_cache`. -/
def rebuildCache : AuthM Unit := do
  let allHashes : List String ← ask .tokenHashes
  let allKeyHashes : List String ← ask .apiKeyHashes
  ask (.rebuildBloom (allHashes ++ allKeyHashes))
  ask .clearRevoked

/-- `purge_expired`. -/
def purgeExpired : AuthM Unit := do
  let now : ℤ ← ask .now
  execute (.purgeTokens now) "failed to purge expired tokens: "
  execute (.purgeApiKeys now) "failed to purge expired API keys: "
  ask (.retainTokens now)
  ask (.retainApiKeys now)
  rebuildCache

/-- The end of `create_user` and of `bootstrap_admin`: the row, then the caches. -/
def addUser (user : User) : AuthM User := do
  execute (.createUser user) "failed to create user: "
  ask (.insertUser user)
  ask (.insertUsername user.username user.id)
  return user

/-- `create_user`, with the hash of the password and the identifier that is drawn. -/
def createUser (username : String) (hashed : Except String String) (role : Role) (id : String) :
    AuthM User := do
  let taken : Bool ← ask (.usernameTaken username)
  if taken then fail ("user '" ++ username ++ "' already exists")
  else
    match hashed with
    | .error e => fail e
    | .ok passwordHash =>
      let now : ℤ ← ask .now
      addUser ⟨id, username, passwordHash, role, true, now, none⟩

/-- `bootstrap_admin`. -/
def bootstrapAdmin (username : String) (hashed : Except String String) (role : Role) (id : String) :
    AuthM User := do
  let found : Bool × Bool ← ask (.bootstrapCheck username)
  if found.1 then fail ("user '" ++ username ++ "' already exists")
  else if found.2 then fail "an admin user already exists, cannot bootstrap another"
  else
    match hashed with
    | .error e => fail e
    | .ok passwordHash =>
      let now : ℤ ← ask .now
      addUser ⟨id, username, passwordHash, role, true, now, none⟩

variable (userId : String)

/-- `update_user`. -/
def updateUser (role : Option Role) (enabled : Option Bool) : AuthM User := do
  let found : Option User ← ask (.getUser userId)
  match found with
  | none => fail ("user '" ++ userId ++ "' not found")
  | some u =>
    let updated := { u with role := role.getD u.role, enabled := enabled.getD u.enabled }
    if role.isSome || enabled.isSome then
      execute (.setUser userId role enabled) "failed to update user: "
    ask (.replaceUser userId updated)
    return updated

/-- `delete_user`. -/
def deleteUser : AuthM Unit := do
  let found : Option User ← ask (.getUser userId)
  match found with
  | none => fail ("user '" ++ userId ++ "' not found")
  | some user =>
    execute (.deleteTokensOf userId) "failed to delete user tokens: "
    execute (.deleteApiKeysOf userId) "failed to delete user keys: "
    execute (.deleteUser userId) "failed to delete user: "
    ask (.dropTokensOf userId)
    ask (.dropApiKeysOf userId)
    ask (.removeUser userId user.username)

/-- `reset_password`, with the hash of the new password. -/
def resetPassword (hashed : Except String String) : AuthM Unit :=
  match hashed with
  | .error e => fail e
  | .ok passwordHash => do
    execute (.setPasswordHash userId passwordHash) "failed to update password: "
    execute (.deleteTokensOf userId) "failed to revoke user tokens: "
    ask (.revokeTokensOf userId)
    ask (.setPasswordHash userId passwordHash)

/-- `record_login`. -/
def recordLogin : AuthM Unit := do
  let now : ℤ ← ask .now
  let known : Bool ← ask (.setLastLogin userId now)
  if known then execute (.setLastLogin userId now) "failed to record login: " else return ()

/-- `refresh_handler`, with the access token or the error of `create_access_token`, and the new
refresh token that is drawn.  How the revocation and the storing of the new token end is not
looked at. -/
def refresh (accessToken : Except String String) (ttlSecs : ℕ)
    (newToken newId : String) : AuthM (String × String) := do
  let (user, _) ← validateRefreshToken H rawToken
  let _ ← attempt (revokeRefreshToken H rawToken)
  match accessToken with
  | .error e => fail e
  | .ok accessToken =>
    let _ ← attempt (storeRefreshToken user.id (H.hmac newToken) ttlSecs newId)
    return (accessToken, newToken)

end AuthStore

/-! ## Calls -/

/-- The calls on the store, with what they draw. -/
inductive AuthCall where
  | storeRefreshToken (userId tokenHash : String) (ttlSecs : ℕ) (id : String)
  | validateRefreshToken (rawToken : String)
  | revokeRefreshToken (rawToken : String)
  | createApiKey (userId name : String) (roleOverride : Option Role) (expiresAt : Option ℤ)
      (key id : String)
  | revokeApiKey (keyId : String)
  | authenticateApiKey (key : String)
  | purgeExpired
  | bootstrapAdmin (username : String) (hashed : Except String String) (role : Role) (id : String)
  | createUser (username : String) (hashed : Except String String) (role : Role) (id : String)
  | updateUser (userId : String) (role : Option Role) (enabled : Option Bool)
  | deleteUser (userId : String)
  | resetPassword (userId : String) (hashed : Except String String)
  | recordLogin (userId : String)
  | refresh (rawToken : String) (accessToken : Except String String) (ttlSecs : ℕ)
      (newToken newId : String)

/-- What a call returns. -/
inductive AuthReply where
  | done
  | tokenId (id : String)
  | validated (user : User) (tokenId : String)
  | apiKey (key : String) (stored : ApiKey)
  | authenticated (user : AuthenticatedUser)
  | user (u : User)
  | tokens (accessToken refreshToken : String)

namespace AuthCall

def program : AuthCall → AuthM AuthReply
  | .storeRefreshToken userId tokenHash ttlSecs id =>
    .tokenId <$> AuthStore.storeRefreshToken userId tokenHash ttlSecs id
  | .validateRefreshToken rawToken => do
    let (user, tokenId) ← AuthStore.validateRefreshToken H rawToken
    return .validated user tokenId
  | .revokeRefreshToken rawToken => do AuthStore.revokeRefreshToken H rawToken; return .done
  | .createApiKey userId name roleOverride expiresAt key id => do
    let (key, stored) ← AuthStore.createApiKey H userId name roleOverride expiresAt key id
    return .apiKey key stored
  | .revokeApiKey keyId => do AuthStore.revokeApiKey keyId; return .done
  | .authenticateApiKey key => .authenticated <$> AuthStore.authenticateApiKey H key
  | .purgeExpired => do AuthStore.purgeExpired; return .done
  | .bootstrapAdmin username hashed role id =>
    .user <$> AuthStore.bootstrapAdmin username hashed role id
  | .createUser username hashed role id => .user <$> AuthStore.createUser username hashed role id
  | .updateUser userId role enabled => .user <$> AuthStore.updateUser userId role enabled
  | .deleteUser userId => do AuthStore.deleteUser userId; return .done
  | .resetPassword userId hashed => do AuthStore.resetPassword userId hashed; return .done
  | .recordLogin userId => do AuthStore.recordLogin userId; return .done
  | .refresh rawToken accessToken ttlSecs newToken newId => do
    let (access, new) ← AuthStore.refresh H rawToken accessToken ttlSecs newToken newId
    return .tokens access new

/-- What a call draws: the hashes of its tokens and keys, and the identifiers of keys and users. -/
def draws : AuthCall → List String
  | .storeRefreshToken _ tokenHash _ _ => [tokenHash]
  | .createApiKey _ _ _ _ key id => [H.hmac key, id]
  | .bootstrapAdmin _ _ _ id => [id]
  | .createUser _ _ _ id => [id]
  | .refresh _ _ _ newToken _ => [H.hmac newToken]
  | _ => []

/-- A call draws what has not been drawn before. -/
def begin (c : AuthCall) (w : AuthWorld) : Option AuthWorld :=
  if (c.draws H).Nodup ∧ ∀ x ∈ c.draws H, x ∉ w.drawn then
    some { w with drawn := c.draws H ++ w.drawn }
  else none

end AuthCall

/-- The store as concurrent requests use it. -/
def authMachine : Machine Access Answer (Option String) AuthWorld AuthCall ℕ String AuthReply where
  perform := AuthWorld.perform H
  program := AuthCall.program H
  begin := AuthCall.begin H
  elapse secs w := { w with clock := w.clock + secs }
  restart w :=
    { w with store := AuthStore.new H w.db w.clock, entered := w.db.keys ++ w.entered }

/-- A store that has been opened.  The tables may have rows from before; what has been drawn for them
is not drawn again. -/
structure AuthWorld.Opened (w : AuthWorld) : Prop where
  store : w.store = AuthStore.new H w.db w.clock
  executed : w.executed = []
  entered : w.entered = w.db.keys
  drawn : ∀ x ∈ w.db.keys, x.2 ∈ w.drawn

abbrev AuthPool := Pool Access Answer AuthWorld AuthCall String AuthReply

/-- The store with any number of concurrent calls. -/
def authSystem : System AuthPool (PoolAction (Option String) AuthCall ℕ) :=
  (authMachine H).system (AuthWorld.Opened H)

/-! ## Runs on given tables -/

/-- A store opened over some tables at time `0`. -/
def openedStore : AuthPool where
  shared := ⟨db, AuthStore.new H db 0, 0, [], db.keys, db.keys.map (·.2)⟩
  running _ := none
  next := 0
  returned := []

lemma init_openedStore : (authSystem H).init (openedStore H db) :=
  ⟨⟨rfl, rfl, rfl, fun x hx => List.mem_map.2 ⟨x, hx, rfl⟩⟩, rfl, rfl, rfl⟩

/-- The accesses of a call, none of them failing. -/
def accesses (n count : ℕ) : List (PoolAction (Option String) AuthCall ℕ) :=
  List.replicate count (.access n none)

/-- A call from its beginning to its end, with nothing in between. -/
def callSteps (c : AuthCall) (n count : ℕ) : List (PoolAction (Option String) AuthCall ℕ) :=
  .invoke c :: (accesses n count ++ [.finish n])

/-- A hashing with every bit of the filter shared. -/
def plainHashing : Hashing := ⟨fun _ _ => 0, id⟩

def oneUser : AuthDb := ⟨[⟨"u", "user", "", .reader, true, 0, none⟩], [], []⟩

end LightningDB
