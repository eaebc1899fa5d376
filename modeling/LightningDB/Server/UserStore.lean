import LightningDB.Server.Credentials
import Mathlib.Data.List.Nodup

/-!
# The user store

A user is in a row of the users table and in an entry of the users cache.  `create_user`, `update_user`,
`reset_password` and `delete_user` read the cache, write the table and then the cache, with no lock from
the first of these to the last, so that calls that overlap leave the two different: an update writes back
the whole entry it has read, two creations of one name do not see each other, an update puts a deleted
user back into the cache, and a `reset_password` whose second statement fails has changed the table only.

Calls on one user that do not overlap are as good as atomic.  `usersAfter` is the map of users that the
completed calls leave when each takes effect at once, in the order in which they returned; if no two
calls on one user and no two creations of one name run at the same time, and the second statement of
`reset_password` does not fail, then table and cache are that map whenever no call is running
(`users_coherent`).
-/

namespace LightningDB

open Framework Function List Option

/-! ## The map of users -/

namespace AuthCall

def target : AuthCall → Option String
  | .createUser _ _ _ id => some id
  | .updateUser userId _ _ => some userId
  | .resetPassword userId _ => some userId
  | .deleteUser userId => some userId
  | _ => none

def newName : AuthCall → Option String
  | .createUser username _ _ _ => some username
  | _ => none

def effect (c : AuthCall) (r : Except String AuthReply) (v : Option User) : Option User :=
  match c, r with
  | .createUser _ _ _ _, .ok (.user u) => some u
  | .updateUser _ role enabled, .ok _ =>
    v.map fun u => { u with role := role.getD u.role, enabled := enabled.getD u.enabled }
  | .resetPassword _ (.ok hash), .ok _ => v.map fun u => { u with passwordHash := hash }
  | .deleteUser _, .ok _ => none
  | _, _ => v

end AuthCall

/-- The users after the calls that have returned, newest first, each with its effect at once. -/
def usersAfter (users : List User) :
    List (ℕ × AuthCall × Except String AuthReply) → String → Option User
  | [], id => users.find? (·.id = id)
  | (_, c, r) :: rest, id =>
    if c.target = some id then c.effect r (usersAfter users rest id) else usersAfter users rest id

namespace AuthWorld

def userRows (w : AuthWorld) (id : String) : List User := w.db.users.filter (·.id = id)

def cached (w : AuthWorld) (id : String) : Option User := w.store.usersCache.lookup id

/-- The user is the same in the table and in the cache. -/
def View (id : String) (v : Option User) (w : AuthWorld) : Prop :=
  w.cached id = v ∧ w.userRows id = v.toList

/-! ## What a call guarantees -/

/-- Identifiers and names are given once, and a row that has been in the cache is still there. -/
structure UserInv (w : AuthWorld) : Prop where
  ids : (w.db.users.map User.id).Nodup
  names : ∀ u ∈ w.db.users, ∀ v ∈ w.db.users, u.username = v.username → u = v
  keyed : ∀ id x, w.cached id = some x → x.id = id ∧ (.user, id) ∈ w.entered
  cachedNames : ∀ id id' x y, w.cached id = some x → w.cached id' = some y →
    x.username = y.username → id = id'
  rowsCached : ∀ u ∈ w.db.users, (.user, u.id) ∈ w.entered →
    ∃ x, w.cached u.id = some x ∧ x.username = u.username
  rowsDrawn : ∀ u ∈ w.db.users, u.id ∈ w.drawn
  enteredDrawn : ∀ id, (.user, id) ∈ w.entered → id ∈ w.drawn

lemma UserInv.cached_names_nodup {w : AuthWorld} (h : UserInv w) :
    ((values w.store.usersCache).map User.username).Nodup := by
  rw [values, List.map_map]
  refine w.store.usersCache.nodupKeys.nodup.map_on fun e he e' he' hname => ?_
  have hlookup : w.cached e.1 = some e.2 := AList.mem_lookup_iff.2 he
  have hlookup' : w.cached e'.1 = some e'.2 := AList.mem_lookup_iff.2 he'
  have hkey := h.cachedNames e.1 e'.1 e.2 e'.2 hlookup hlookup' hname
  rw [hkey, hlookup', some.injEq] at hlookup
  exact Sigma.ext hkey (heq_of_eq hlookup.symm)

/-- What a step of a call guarantees: it changes its own user, and only a creation brings a name. -/
structure UserGuar (c : AuthCall) (w w' : AuthWorld) : Prop where
  drawn : ∀ y ∈ w.drawn, y ∈ w'.drawn
  entered : ∀ p ∈ w.entered, p ∈ w'.entered
  others : ∀ id, c.target ≠ some id → w'.userRows id = w.userRows id ∧ w'.cached id = w.cached id ∧
    ((.user, id) ∈ w'.entered → (.user, id) ∈ w.entered)
  names : ∀ u ∈ w'.db.users, c.newName = some u.username ∨
    ∃ u₀ ∈ w.db.users, u₀.id = u.id ∧ u₀.username = u.username
  cachedNames : ∀ id x, w'.cached id = some x → c.newName = some x.username ∨
    ∃ x₀, w.cached id = some x₀ ∧ x₀.username = x.username
  inv : UserInv w → UserInv w'

/-- What a call relies on: its user is its own, and so is the name it takes. -/
structure UserRely (c : AuthCall) (w w' : AuthWorld) : Prop where
  drawn : ∀ y ∈ w.drawn, y ∈ w'.drawn
  entered : ∀ p ∈ w.entered, p ∈ w'.entered
  own : ∀ id, c.target = some id → w'.userRows id = w.userRows id ∧ w'.cached id = w.cached id ∧
    ((.user, id) ∈ w'.entered → (.user, id) ∈ w.entered)
  names : ∀ u ∈ w'.db.users, c.newName = some u.username →
    ∃ u₀ ∈ w.db.users, u₀.id = u.id ∧ u₀.username = u.username
  cachedNames : ∀ id x, w'.cached id = some x → c.newName = some x.username →
    ∃ x₀, w.cached id = some x₀ ∧ x₀.username = x.username

variable {c d : AuthCall} {w w' w'' : AuthWorld}

lemma UserRely.refl (c : AuthCall) (w : AuthWorld) : UserRely c w w where
  drawn _ hy := hy
  entered _ hp := hp
  own _ _ := ⟨rfl, rfl, fun h => h⟩
  names u hu _ := ⟨u, hu, rfl, rfl⟩
  cachedNames _ x hx _ := ⟨x, hx, rfl⟩

lemma UserRely.trans (h : UserRely c w w') (h' : UserRely c w' w'') : UserRely c w w'' where
  drawn y hy := h'.drawn y (h.drawn y hy)
  entered p hp := h'.entered p (h.entered p hp)
  own id hid := by
    obtain ⟨hrows, hcached, hentered⟩ := h.own id hid
    obtain ⟨hrows', hcached', hentered'⟩ := h'.own id hid
    exact ⟨hrows'.trans hrows, hcached'.trans hcached, fun hmem => hentered (hentered' hmem)⟩
  names u hu hname := by
    obtain ⟨u₁, hu₁, hid₁, hname₁⟩ := h'.names u hu hname
    obtain ⟨u₀, hu₀, hid₀, hname₀⟩ := h.names u₁ hu₁ (hname₁ ▸ hname)
    exact ⟨u₀, hu₀, hid₀.trans hid₁, hname₀.trans hname₁⟩
  cachedNames id x hx hname := by
    obtain ⟨x₁, hx₁, hname₁⟩ := h'.cachedNames id x hx hname
    obtain ⟨x₀, hx₀, hname₀⟩ := h.cachedNames id x₁ hx₁ (hname₁ ▸ hname)
    exact ⟨x₀, hx₀, hname₀.trans hname₁⟩

/-- Calls on different users that do not take the same name. -/
def UsersApart (c d : AuthCall) : Prop :=
  (∀ id, c.target = some id → d.target ≠ some id) ∧
    ∀ name, c.newName = some name → d.newName ≠ some name

lemma UsersApart.symm (h : UsersApart c d) : UsersApart d c :=
  ⟨fun id hd hc => h.1 id hc hd, fun name hd hc => h.2 name hc hd⟩

lemma UserGuar.rely (h : UserGuar c w w') (hapart : UsersApart c d) : UserRely d w w' where
  drawn := h.drawn
  entered := h.entered
  own id hid := h.others id fun hc => hapart.1 id hc hid
  names u hu hname := (h.names u hu).resolve_left fun hc => hapart.2 _ hc hname
  cachedNames id x hx hname := (h.cachedNames id x hx).resolve_left fun hc => hapart.2 _ hc hname

/-- What is in the cache and in the table of a user. -/
def Found (id : String) (x : Option User) (rows : List User) (w : AuthWorld) : Prop :=
  w.cached id = x ∧ w.userRows id = rows

lemma Found.of_rely {id : String} {x : Option User} {rows : List User} (h : Found id x rows w)
    (hid : c.target = some id) (hr : UserRely c w w') : Found id x rows w' := by
  obtain ⟨hrows, hcached, -⟩ := hr.own id hid
  exact ⟨hcached.trans h.1, hrows.trans h.2⟩

lemma View.of_rely {id : String} {v : Option User} (h : View id v w) (hid : c.target = some id)
    (hr : UserRely c w w') : View id v w' := Found.of_rely h hid hr

/-! ## The accesses -/

structure SameUsers (w w' : AuthWorld) : Prop where
  users : w'.db.users = w.db.users
  cache : w'.store.usersCache = w.store.usersCache
  entered : w'.entered = w.entered
  drawn : ∀ y ∈ w.drawn, y ∈ w'.drawn

namespace SameUsers

lemma others {db : AuthDb} {store : AuthStore} {clock : ℕ} {executed : List AuthStatement}
    (hdb : db.users = w.db.users := by rfl) (hstore : store.usersCache = w.store.usersCache := by rfl) :
    SameUsers w { w with db := db, store := store, clock := clock, executed := executed } :=
  ⟨hdb, hstore, rfl, fun _ hy => hy⟩

lemma rows_eq (h : SameUsers w w') (id : String) : w'.userRows id = w.userRows id := by
  rw [userRows, h.users, userRows]

lemma cached_eq (h : SameUsers w w') (id : String) : w'.cached id = w.cached id := by
  rw [cached, h.cache, cached]

lemma found {id : String} {x : Option User} {rows : List User} (h : SameUsers w w')
    (hv : Found id x rows w) : Found id x rows w' :=
  ⟨(h.cached_eq id).trans hv.1, (h.rows_eq id).trans hv.2⟩

lemma view {id : String} {v : Option User} (h : SameUsers w w') (hv : View id v w) : View id v w' :=
  h.found hv

end SameUsers

/-- A statement on users leaves the cache alone. -/
structure TableOnly (w w' : AuthWorld) : Prop where
  cache : w'.store.usersCache = w.store.usersCache
  entered : w'.entered = w.entered
  drawn : w'.drawn = w.drawn

variable {id : String} {u x : User} {f : User → User}

lemma eq_of_userRows (hu : u ∈ w.db.users) (hid : u.id = id)
    (hrows : w.userRows id = [x]) : u = x := by
  have hmem : u ∈ w.userRows id := mem_filter.2 ⟨hu, decide_eq_true hid⟩
  rw [hrows] at hmem
  exact mem_singleton.1 hmem

lemma ne_of_userRows (hu : u ∈ w.db.users) (hrows : w.userRows id = []) : u.id ≠ id := by
  intro hid
  have hmem : u ∈ w.userRows id := mem_filter.2 ⟨hu, decide_eq_true hid⟩
  rw [hrows] at hmem
  cases hmem

section SetRow

variable (husers : w'.db.users = w.db.users.map fun u => if u.id = id then f u else u)
  (hf : ∀ u, (f u).id = u.id)
include husers hf

lemma userRows_setRow_eq (id' : String) :
    w'.userRows id' = (w.userRows id').map fun u => if u.id = id then f u else u := by
  rw [userRows, husers, List.filter_map]
  refine congrArg (map _) (filter_congr fun u _ => ?_)
  simp only [comp_apply]
  split
  · rw [hf]
  · rfl

lemma userRows_setRow {v : Option User} (hrows : w.userRows id = v.toList) :
    w'.userRows id = (v.map f).toList := by
  have hmap : w'.userRows id = (w.userRows id).map f := by
    rw [userRows_setRow_eq husers hf id]
    exact map_congr_left fun u hu => if_pos (of_decide_eq_true (mem_filter.1 hu).2)
  rw [hmap, hrows]
  cases v <;> rfl

lemma userRows_setRow_of_ne {id' : String} (hne : id' ≠ id) : w'.userRows id' = w.userRows id' := by
  rw [userRows_setRow_eq husers hf id', List.map_congr_left, List.map_id]
  intro u hu
  have hu : u.id = id' := of_decide_eq_true (mem_filter.1 hu).2
  exact if_neg fun heq => hne (hu.symm.trans heq)

end SetRow

lemma userRows_deleteRow (husers : w'.db.users = w.db.users.filter (·.id ≠ id)) :
    w'.userRows id = [] := by
  rw [userRows, husers]
  refine filter_eq_nil_iff.2 fun u hu => ?_
  have hne := (mem_filter.1 hu).2
  simpa using hne

lemma userRows_deleteRow_of_ne {id' : String} (husers : w'.db.users = w.db.users.filter (·.id ≠ id))
    (hne : id' ≠ id) : w'.userRows id' = w.userRows id' := by
  rw [userRows, husers, List.filter_filter]
  refine filter_congr fun u _ => ?_
  by_cases hu : u.id = id'
  · have hid : u.id ≠ id := hu ▸ hne
    simp [hid]
  · simp [hu]

/-- A step on the table: a row after it has the identifier and the name of an earlier one, or is the row
of a new user. -/
lemma userGuar_of_rows (hcache : w'.store.usersCache = w.store.usersCache)
    (hentered : w'.entered = w.entered) (hdrawn : ∀ y ∈ w.drawn, y ∈ w'.drawn)
    (hothers : ∀ id, c.target ≠ some id → w'.userRows id = w.userRows id)
    (hrows : ∀ u ∈ w'.db.users, (∃ u₀ ∈ w.db.users, u₀.id = u.id ∧ u₀.username = u.username) ∨
      c.newName = some u.username ∧ (.user, u.id) ∉ w.entered ∧ u.id ∈ w.drawn)
    (hids : UserInv w → (w'.db.users.map User.id).Nodup)
    (hnames : UserInv w → ∀ u ∈ w'.db.users, ∀ v ∈ w'.db.users, u.username = v.username → u = v) :
    UserGuar c w w' := by
  have hcached : ∀ id, w'.cached id = w.cached id := fun id => by rw [cached, hcache, cached]
  exact
    { drawn := hdrawn
      entered := fun _ hp => hentered ▸ hp
      others := fun id hne => ⟨hothers id hne, hcached id, fun hmem => hentered ▸ hmem⟩
      names := fun u hu => (hrows u hu).symm.imp_left And.left
      cachedNames := fun id x hx => .inr ⟨x, hcached id ▸ hx, rfl⟩
      inv := fun hw =>
        { ids := hids hw
          names := hnames hw
          keyed := fun id x hx => hentered ▸ hw.keyed id x (hcached id ▸ hx)
          cachedNames := fun id id' x y hx hy =>
            hw.cachedNames id id' x y (hcached id ▸ hx) (hcached id' ▸ hy)
          rowsCached := by
            intro u hu hmem
            rw [hentered] at hmem
            rw [hcached]
            rcases hrows u hu with ⟨u₀, hu₀, hid, hname⟩ | ⟨-, hnew, -⟩
            · rw [← hid] at hmem ⊢
              exact hname ▸ hw.rowsCached u₀ hu₀ hmem
            · exact absurd hmem hnew
          rowsDrawn := by
            intro u hu
            refine hdrawn _ ?_
            rcases hrows u hu with ⟨u₀, hu₀, hid, -⟩ | ⟨-, -, hdrawn⟩
            · exact hid ▸ hw.rowsDrawn u₀ hu₀
            · exact hdrawn
          enteredDrawn := fun id hmem => hdrawn _ (hw.enteredDrawn id (hentered ▸ hmem)) } }

lemma SameUsers.guar (h : SameUsers w w') (c : AuthCall) : UserGuar c w w' := by
  refine userGuar_of_rows h.cache h.entered h.drawn (fun id _ => h.rows_eq id) ?_ ?_ ?_
  · exact fun u hu => .inl ⟨u, h.users ▸ hu, rfl, rfl⟩
  · exact fun hw => h.users ▸ hw.ids
  · exact fun hw => h.users ▸ hw.names

lemma SameUsers.rely (h : SameUsers w w') (d : AuthCall) : UserRely d w w' :=
  (h.guar .purgeExpired).rely ⟨nofun, nofun⟩

lemma userGuar_createRow (h : TableOnly w w') (husers : w'.db.users = w.db.users ++ [u])
    (hid : u.id = id) (htarget : c.target = some id) (hname : c.newName = some u.username)
    (hrows : w.userRows id = []) (hnew : (.user, id) ∉ w.entered) (hdrawn : id ∈ w.drawn)
    (hfree : ∀ v ∈ w.db.users, v.username ≠ u.username) : UserGuar c w w' := by
  subst hid
  have hmem : ∀ v ∈ w'.db.users, v ∈ w.db.users ∨ v = u := fun v hv => by
    rwa [husers, mem_append, mem_singleton] at hv
  refine userGuar_of_rows h.cache h.entered (fun _ hy => h.drawn ▸ hy) (fun id' hne => ?_)
    (fun v hv => ?_) (fun hw => ?_) fun hw a ha b hb heq => ?_
  · have hu : ¬ u.id = id' := fun heq => hne (heq ▸ htarget)
    simp [userRows, husers, hu]
  · rcases hmem v hv with hv | rfl
    · exact .inl ⟨v, hv, rfl, rfl⟩
    · exact .inr ⟨hname, hnew, hdrawn⟩
  · rw [husers, map_append, nodup_append]
    refine ⟨hw.ids, by simp, ?_⟩
    intro y hy z hz heq
    obtain ⟨v, hv, rfl⟩ := mem_map.1 hy
    exact ne_of_userRows hv hrows (heq.trans (mem_singleton.1 hz))
  · rcases hmem a ha with ha | rfl <;> rcases hmem b hb with hb | rfl
    · exact hw.names a ha b hb heq
    · exact absurd heq (hfree a ha)
    · exact absurd heq.symm (hfree b hb)
    · rfl

/-- SET on a column that is neither the identifier nor the name. -/
lemma userGuar_setRow (h : TableOnly w w')
    (husers : w'.db.users = w.db.users.map fun u => if u.id = id then f u else u)
    (hf : ∀ u, (f u).id = u.id ∧ (f u).username = u.username) (htarget : c.target = some id) :
    UserGuar c w w' := by
  have hsame : ∀ u : User, (if u.id = id then f u else u).id = u.id ∧
      (if u.id = id then f u else u).username = u.username := by
    intro u
    split
    · exact hf u
    · exact ⟨rfl, rfl⟩
  refine userGuar_of_rows h.cache h.entered (fun _ hy => h.drawn ▸ hy) (fun id' hne => ?_)
    (fun v hv => ?_) (fun hw => ?_) fun hw a ha b hb heq => ?_
  · exact userRows_setRow_of_ne husers (fun u => (hf u).1) fun heq => hne (heq ▸ htarget)
  · rw [husers] at hv
    obtain ⟨u, hu, rfl⟩ := mem_map.1 hv
    exact .inl ⟨u, hu, (hsame u).1.symm, (hsame u).2.symm⟩
  · have hcomp : (User.id ∘ fun u => if u.id = id then f u else u) = User.id :=
      funext fun u => (hsame u).1
    rw [husers, List.map_map, hcomp]
    exact hw.ids
  · rw [husers] at ha hb
    obtain ⟨u, hu, rfl⟩ := mem_map.1 ha
    obtain ⟨v, hv, rfl⟩ := mem_map.1 hb
    rw [(hsame u).2, (hsame v).2] at heq
    rw [hw.names u hu v hv heq]

lemma userGuar_deleteRow (h : TableOnly w w') (husers : w'.db.users = w.db.users.filter (·.id ≠ id))
    (htarget : c.target = some id) : UserGuar c w w' := by
  have hsub : ∀ u ∈ w'.db.users, u ∈ w.db.users := by
    intro u hu
    rw [husers] at hu
    exact (mem_filter.1 hu).1
  refine userGuar_of_rows h.cache h.entered (fun _ hy => h.drawn ▸ hy) (fun id' hne => ?_)
    (fun u hu => .inl ⟨u, hsub u hu, rfl, rfl⟩) (fun hw => ?_)
    fun hw a ha b hb => hw.names a (hsub a ha) b (hsub b hb)
  · exact userRows_deleteRow_of_ne husers fun heq => hne (heq ▸ htarget)
  · rw [husers]
    exact hw.ids.sublist (filter_sublist.map _)

/-- A write of the cache: the entry of one user, which may enter it. -/
structure CacheOnly (id : String) (x : Option User) (w w' : AuthWorld) : Prop where
  users : w'.db.users = w.db.users
  entry : w'.cached id = x
  others : ∀ id', id' ≠ id → w'.cached id' = w.cached id'
  entered : ∀ p ∈ w.entered, p ∈ w'.entered
  enteredOnly : ∀ p ∈ w'.entered, p = (.user, id) ∨ p ∈ w.entered
  drawn : w'.drawn = w.drawn

/-- The entry of a user becomes one whose name no other has there, or it is taken out. -/
lemma userGuar_setEntry {x : Option User} (h : CacheOnly id x w w') (htarget : c.target = some id)
    (hx : ∀ y, x = some y → y.id = id ∧ (.user, id) ∈ w'.entered ∧
      (c.newName = some y.username ∨ ∃ x₀, w.cached id = some x₀ ∧ x₀.username = y.username) ∧
      ∀ id' z, id' ≠ id → w.cached id' = some z → z.username ≠ y.username)
    (hdrawn : (.user, id) ∈ w'.entered → id ∈ w.drawn ∨ (.user, id) ∈ w.entered)
    (hrows : ∀ u ∈ w.db.users, u.id = id → ∃ y, x = some y ∧ y.username = u.username) :
    UserGuar c w w' where
  drawn _ hy := h.drawn ▸ hy
  entered := h.entered
  others id' hne := by
    have hid' : id' ≠ id := fun heq => hne (heq ▸ htarget)
    refine ⟨by rw [userRows, h.users, userRows], h.others id' hid', fun hmem => ?_⟩
    exact (h.enteredOnly _ hmem).resolve_left fun heq => hid' (Prod.mk.inj heq).2
  names u hu := .inr ⟨u, h.users ▸ hu, rfl, rfl⟩
  cachedNames id' y hy := by
    by_cases hid' : id' = id
    · subst hid'
      exact (hx y (h.entry.symm.trans hy)).2.2.1
    · exact .inr ⟨y, h.others id' hid' ▸ hy, rfl⟩
  inv hw :=
    { ids := by rw [h.users]; exact hw.ids
      names := by rw [h.users]; exact hw.names
      keyed := by
        intro id' y hy
        by_cases hid' : id' = id
        · subst hid'
          obtain ⟨hid, hmem, -⟩ := hx y (h.entry.symm.trans hy)
          exact ⟨hid, hmem⟩
        · rw [h.others id' hid'] at hy
          exact ⟨(hw.keyed id' y hy).1, h.entered _ (hw.keyed id' y hy).2⟩
      cachedNames := by
        intro a b y z hy hz heq
        by_cases ha : a = id <;> by_cases hb : b = id
        · rw [ha, hb]
        · rw [ha, h.entry] at hy
          rw [h.others b hb] at hz
          exact absurd heq.symm ((hx y hy).2.2.2 b z hb hz)
        · rw [hb, h.entry] at hz
          rw [h.others a ha] at hy
          exact absurd heq ((hx z hz).2.2.2 a y ha hy)
        · rw [h.others a ha] at hy
          rw [h.others b hb] at hz
          exact hw.cachedNames a b y z hy hz heq
      rowsCached := by
        intro u hu hmem
        rw [h.users] at hu
        by_cases hid' : u.id = id
        · rw [hid', h.entry]
          exact hrows u hu hid'
        · rw [h.others _ hid']
          refine hw.rowsCached u hu ((h.enteredOnly _ hmem).resolve_left ?_)
          exact fun heq => hid' (Prod.mk.inj heq).2
      rowsDrawn := fun u hu => h.drawn ▸ hw.rowsDrawn u (h.users ▸ hu)
      enteredDrawn := by
        intro id' hmem
        rw [h.drawn]
        rcases h.enteredOnly _ hmem with heq | hmem'
        · cases heq
          exact (hdrawn hmem).elim (fun hmem => hmem) (hw.enteredDrawn _)
        · exact hw.enteredDrawn id' hmem' }

lemma userGuar_replaceEntry {x₀ : User} (hw : UserInv w)
    (h : CacheOnly id (some x) w w') (htarget : c.target = some id) (hold : w.cached id = some x₀)
    (hid : x.id = x₀.id) (hname : x.username = x₀.username) : UserGuar c w w' := by
  obtain ⟨hkey, hentered⟩ := hw.keyed id x₀ hold
  refine userGuar_setEntry h htarget ?_ (fun _ => .inr hentered) fun u hu hu' => ?_
  · rintro _ ⟨⟩
    refine ⟨hid.trans hkey, h.entered _ hentered, .inr ⟨x₀, hold, hname.symm⟩, fun id' y hne hy heq => ?_⟩
    exact hne (hw.cachedNames id' id y x₀ hy hold (heq.trans hname))
  · obtain ⟨y, hy, hy'⟩ := hw.rowsCached u hu (hu' ▸ hentered)
    rw [hu', hold, some.injEq] at hy
    exact ⟨x, rfl, by rw [← hy', ← hy, hname]⟩

end AuthWorld

/-! ## The calls -/

open AuthWorld

variable {H : Hashing} {c : AuthCall} {w w' : AuthWorld} {v : ℕ → Option User}

/-- What holds when a call returns that found its user as `v`: the user is as the effect says. -/
def Leaves (v : Option User) (c : AuthCall) (r : Except String AuthReply) (w : AuthWorld) : Prop :=
  ∀ id, c.target = some id → View id (c.effect r v) w ∧
    (c = .deleteUser id → (∃ a, r = .ok a) → (.user, id) ∈ w.entered)

/-- The second statement of `reset_password` does not fail. -/
def ResetMay (c : AuthCall) (a : Access) (i : Option String) : Prop :=
  ∀ userId hashed userId', c = .resetPassword userId hashed → a = .execute (.deleteTokensOf userId') →
    i = none

/-- A user after `update_user`. -/
def updated (role : Option Role) (enabled : Option Bool) (u : User) : User :=
  { u with role := role.getD u.role, enabled := enabled.getD u.enabled }

/-- The discipline of the calls on users; `v` is the user as each call has found it. -/
def userDiscipline (H : Hashing) (v : ℕ → Option User) : Discipline (authMachine H) where
  inv := UserInv
  apart := UsersApart
  begun _ _ := True
  may c a i _ := ResetMay c a i
  rely := UserRely
  guar := UserGuar
  post _ _ _ _ := True
  final n c r w := Leaves (v n) c r w
  rely_refl := UserRely.refl
  rely_trans := UserRely.trans
  inv_of_guar hw hg := hg.inv hw
  rely_of_guar hapart _ hg := hg.rely hapart
  begun_of_guar _ _ := trivial
  post_of_guar _ _ _ := trivial
  post_of_final _ _ := trivial

section Leads

open AuthStore

variable {α : Type} {last : AuthPost α}

lemma user_ask {a : Access} {k : Answer a → AuthM α}
    (hsame : ∀ w₁ i, SameUsers w₁ (perform H a i w₁).2)
    (hk : ∀ w₁ i, UserRely c w (perform H a i w₁).2 → UserInv (perform H a i w₁).2 →
      (userDiscipline H v).Leads c last (k (perform H a i w₁).1) (perform H a i w₁).2) :
    (userDiscipline H v).Leads c last (ask a >>= k) w :=
  .perform (fun w₁ i _ _ _ => ⟨(hsame w₁ i).guar c, (hsame w₁ i).rely c⟩) hk

variable {q : AuthStatement} {context username : String} {k : Unit → AuthM α}
  {hashed : Except String String}

lemma user_execute (herror : ∀ e w₁, UserRely c w w₁ → ResetMay c (.execute q) (some e) →
      last (.error (context ++ e)) w₁) (hguar : ∀ w₁, UserRely c w w₁ → UserInv w₁ →
      UserGuar c w₁ (perform H (.execute q) none w₁).2)
    (hk : ∀ w₁, UserRely c w w₁ → UserInv w₁ →
      (userDiscipline H v).Leads c last (k ()) (perform H (.execute q) none w₁).2) :
    (userDiscipline H v).Leads c last (execute q context >>= k) w := by
  intro w₁ i h₁ hinv₁ hmay
  cases i with
  | none => exact ⟨hguar w₁ h₁ hinv₁, hk w₁ h₁ hinv₁⟩
  | some e =>
    refine ⟨SameUsers.guar .others c, fun w₂ h₂ _ => ?_⟩
    exact herror e w₂ (h₁.trans h₂) hmay

lemma user_execute_same (hsame : ∀ w₁, SameUsers w₁ (perform H (.execute q) none w₁).2)
    (herror : ∀ e w₁, UserRely c w w₁ → ResetMay c (.execute q) (some e) →
      last (.error (context ++ e)) w₁)
    (hk : ∀ w₁, UserRely c w w₁ → (userDiscipline H v).Leads c last (k ()) w₁) :
    (userDiscipline H v).Leads c last (execute q context >>= k) w :=
  user_execute herror (fun w₁ _ _ => (hsame w₁).guar c) fun w₁ h₁ _ =>
    hk _ (h₁.trans ((hsame w₁).rely c))

variable {id userId : String} {x : Option User}

lemma cacheOnly_insert {x : User} (husers : w'.db.users = w.db.users)
    (hcache : w'.store.usersCache = w.store.usersCache.insert id x)
    (hentered : ∀ p, p ∈ w'.entered ↔ p ∈ (.user, id) :: w.entered) (hdrawn : w'.drawn = w.drawn) :
    CacheOnly id (some x) w w' where
  users := husers
  entry := by rw [cached, hcache, AList.lookup_insert]
  others id' hne := by rw [cached, hcache, FinMap.lookup_insert_eq_ite, if_neg hne, cached]
  entered p hp := (hentered p).2 (mem_cons_of_mem _ hp)
  enteredOnly p hp := mem_cons.1 ((hentered p).1 hp)
  drawn := hdrawn

lemma cacheOnly_removeUser (w : AuthWorld) (id username : String) (i : Option String) :
    CacheOnly id none w (perform H (.removeUser id username) i w).2 where
  users := rfl
  entry := AList.lookup_erase _ _
  others _ hne := AList.lookup_erase_ne hne
  entered _ hp := hp
  enteredOnly _ hp := .inr hp
  drawn := rfl

variable {enabled : Option Bool} {role : Option Role}

lemma updated_eq_self {u : User}
    (h : ¬ (role.isSome || enabled.isSome)) : updated role enabled u = u := by
  rw [Bool.or_eq_true, not_or, not_isSome_iff_eq_none, not_isSome_iff_eq_none] at h
  rw [h.1, h.2]
  rfl

/-- `update_user` finds the user as it was when the call was made, and leaves it as updated. -/
lemma leads_updateUser {last : AuthPost User} (hid : c.target = some userId)
    (hx : View userId x w) (herror : ∀ e w', View userId x w' → last (.error e) w')
    (hok : ∀ u w', x = some u → View userId (some (updated role enabled u)) w' →
      last (.ok (updated role enabled u)) w') :
    (userDiscipline H v).Leads c last (updateUser userId role enabled) w := by
  refine user_ask (fun _ _ => .others) fun w₁ i h₁ _ => ?_
  have hx₁ := hx.of_rely hid h₁
  have hfound : (perform H (.getUser userId) i w₁).1 = x := hx₁.1
  rw [hfound]
  cases x with
  | none => exact fun w₂ h₂ _ => herror _ w₂ (hx₁.of_rely hid h₂)
  | some u =>
    -- the row is as updated when the entry is written
    have hreplace : ∀ w₂ : AuthWorld, Found userId (some u) [updated role enabled u] w₂ →
        (userDiscipline H v).Leads c last
          (do
            ask (.replaceUser userId (updated role enabled u))
            return updated role enabled u) w₂ := by
      intro w₂ hfound w₃ i₃ h₃ hinv₃ _
      have hfound₃ := hfound.of_rely hid h₃
      have hwrite : CacheOnly userId (some (updated role enabled u)) w₃
          (perform H (.replaceUser userId (updated role enabled u)) i₃ w₃).2 :=
        cacheOnly_insert rfl rfl (fun _ => Iff.rfl) rfl
      refine ⟨userGuar_replaceEntry hinv₃ hwrite hid hfound₃.1 rfl rfl, fun w₄ h₄ _ => ?_⟩
      exact hok u w₄ rfl (View.of_rely ⟨hwrite.entry, hfound₃.2⟩ hid h₄)
    dsimp only
    split
    · refine user_execute (fun e w₂ h₂ _ => herror _ w₂ (hx₁.of_rely hid h₂)) (fun w₂ _ _ => ?_)
        fun w₂ h₂ _ => ?_
      · exact userGuar_setRow ⟨rfl, rfl, rfl⟩ rfl (fun _ => ⟨rfl, rfl⟩) hid
      · obtain ⟨hcached₂, hrows₂⟩ := hx₁.of_rely hid h₂
        exact hreplace _ ⟨hcached₂, userRows_setRow (w := w₂) (f := updated role enabled) rfl
          (fun _ => rfl) hrows₂⟩
    next hnone =>
      refine hreplace _ ⟨hx₁.1, ?_⟩
      rw [hx₁.2, updated_eq_self hnone]
      rfl

/-- `reset_password` whose statements do not fail. -/
lemma leads_resetPassword {last : AuthPost Unit} (hc : c = .resetPassword userId hashed)
    (hx : View userId x w) (herror : ∀ e w', View userId x w' → last (.error e) w')
    (hok : ∀ hash w', hashed = .ok hash →
      View userId (x.map fun u => { u with passwordHash := hash }) w' → last (.ok ()) w') :
    (userDiscipline H v).Leads c last (resetPassword userId hashed) w := by
  have hid : c.target = some userId := hc ▸ rfl
  cases hashed with
  | error e => exact fun w' h' _ => herror e w' (hx.of_rely hid h')
  | ok hash =>
    refine user_execute (fun e w₁ h₁ _ => herror _ w₁ (hx.of_rely hid h₁)) (fun w₁ _ _ => ?_)
      fun w₁ h₁ _ => ?_
    · exact userGuar_setRow ⟨rfl, rfl, rfl⟩ rfl (fun _ => ⟨rfl, rfl⟩) hid
    have hfound₁ : Found userId x (x.map fun u => { u with passwordHash := hash }).toList
        (perform H (.execute (.setPasswordHash userId hash)) none w₁).2 :=
      ⟨(hx.of_rely hid h₁).1, userRows_setRow rfl (fun _ => by rfl) (hx.of_rely hid h₁).2⟩
    refine user_execute_same (fun _ => .others) (fun e w₂ h₂ hmay => ?_)
      fun w₂ h₂ => ?_
    · exact absurd (hmay userId (.ok hash) userId hc rfl) nofun
    refine user_ask (fun _ _ => .others) fun w₃ i₃ h₃ _ => ?_
    intro w₄ i₄ h₄ hinv₄ _
    have hfound₄ := hfound₁.of_rely hid ((h₂.trans h₃).trans h₄)
    have hlookup : w₄.store.usersCache.lookup userId = x := hfound₄.1
    cases x with
    | none =>
      have hs₄ : SameUsers w₄ (perform H (.setPasswordHash userId hash) i₄ w₄).2 := by
        refine ⟨rfl, ?_, rfl, fun _ hy => hy⟩
        simp only [perform, AuthWorld.setStore, hlookup]
      exact ⟨hs₄.guar c, fun w₅ h₅ _ => hok hash w₅ rfl (View.of_rely (hs₄.found hfound₄) hid h₅)⟩
    | some u =>
      have hentered := (hinv₄.keyed userId u hfound₄.1).2
      have hwrite : CacheOnly userId (some { u with passwordHash := hash }) w₄
          (perform H (.setPasswordHash userId hash) i₄ w₄).2 := by
        refine cacheOnly_insert rfl ?_ (fun p => ⟨mem_cons_of_mem _, fun hp => ?_⟩) rfl
        · simp only [perform, AuthWorld.setStore, hlookup]
        · rcases mem_cons.1 hp with rfl | hp
          · exact hentered
          · exact hp
      refine ⟨userGuar_replaceEntry hinv₄ hwrite hid hfound₄.1 rfl rfl, fun w₅ h₅ _ => ?_⟩
      exact hok hash w₅ rfl (View.of_rely ⟨hwrite.entry, hfound₄.2⟩ hid h₅)

/-- `delete_user` leaves no row and no entry. -/
lemma leads_deleteUser {last : AuthPost Unit} (hid : c.target = some userId)
    (hx : View userId x w) (herror : ∀ e w', View userId x w' → last (.error e) w')
    (hok : ∀ w', (.user, userId) ∈ w'.entered → View userId none w' → last (.ok ()) w') :
    (userDiscipline H v).Leads c last (deleteUser userId) w := by
  refine user_ask (fun _ _ => .others) fun w₁ i h₁ hinv₁ => ?_
  have hx₁ := hx.of_rely hid h₁
  have hfound : (perform H (.getUser userId) i w₁).1 = x := hx₁.1
  rw [hfound]
  cases x with
  | none => exact fun w₂ h₂ _ => herror _ w₂ (hx₁.of_rely hid h₂)
  | some u =>
    have hentered₁ := (hinv₁.keyed userId u hx₁.1).2
    refine user_execute_same (fun _ => .others)
      (fun e w₂ h₂ _ => herror _ w₂ (hx₁.of_rely hid h₂)) fun w₂ h₂ => ?_
    have hx₂ := hx₁.of_rely hid h₂
    refine user_execute_same (fun _ => .others)
      (fun e w₃ h₃ _ => herror _ w₃ (hx₂.of_rely hid h₃)) fun w₃ h₃ => ?_
    have hx₃ := hx₂.of_rely hid h₃
    refine user_execute (fun e w₄ h₄ _ => herror _ w₄ (hx₃.of_rely hid h₄)) (fun w₄ _ _ => ?_)
      fun w₄ h₄ _ => ?_
    · exact userGuar_deleteRow ⟨rfl, rfl, rfl⟩ rfl hid
    have hentered₄ : (.user, userId) ∈
        (perform H (.execute (.deleteUser userId)) none w₄).2.entered :=
      ((h₂.trans h₃).trans h₄).entered _ hentered₁
    have hfound₄ : Found userId (some u) []
        (perform H (.execute (.deleteUser userId)) none w₄).2 :=
      ⟨(hx₃.of_rely hid h₄).1, userRows_deleteRow (w := w₄) rfl⟩
    refine user_ask (fun _ _ => .others) fun w₅ i₅ h₅ _ => ?_
    refine user_ask (fun _ _ => .others) fun w₆ i₆ h₆ _ => ?_
    intro w₇ i₇ h₇ _ _
    have h₄₇ := (h₅.trans h₆).trans h₇
    have hrows₇ := (hfound₄.of_rely hid h₄₇).2
    have hwrite := cacheOnly_removeUser (H := H) w₇ userId u.username i₇
    refine ⟨userGuar_setEntry hwrite hid nofun (fun hmem => .inr hmem)
      fun _ hu hid => absurd hid (ne_of_userRows hu hrows₇), fun w₈ h₈ _ => hok w₈ ?_ ?_⟩
    · exact h₈.entered _ (h₄₇.entered _ hentered₄)
    · exact View.of_rely ⟨hwrite.entry, hrows₇⟩ hid h₈

/-- Every user of the name that a call takes has been in the cache. -/
def NamesKnown (c : AuthCall) (w : AuthWorld) : Prop :=
  ∀ u ∈ w.db.users, c.newName = some u.username → (.user, u.id) ∈ w.entered

lemma NamesKnown.of_rely (h : NamesKnown c w) (hr : UserRely c w w') : NamesKnown c w' := by
  intro u hu hname
  obtain ⟨u₀, hu₀, hid, husername⟩ := hr.names u hu hname
  exact hr.entered _ (hid ▸ h u₀ hu₀ (husername ▸ hname))

/-- The name that a call takes is free. -/
structure NameFree (c : AuthCall) (w : AuthWorld) : Prop where
  rows : ∀ u ∈ w.db.users, c.newName ≠ some u.username
  entries : ∀ id x, w.cached id = some x → c.newName ≠ some x.username

lemma NameFree.of_rely (h : NameFree c w) (hr : UserRely c w w') : NameFree c w' where
  rows u hu hname := by
    obtain ⟨u₀, hu₀, -, husername⟩ := hr.names u hu hname
    exact h.rows u₀ hu₀ (husername ▸ hname)
  entries id x hx hname := by
    obtain ⟨x₀, hx₀, husername⟩ := hr.cachedNames id x hx hname
    exact h.entries id x₀ hx₀ (husername ▸ hname)

/-- A user that is drawn and not yet there. -/
structure NewUser (id : String) (w : AuthWorld) : Prop where
  view : View id none w
  entered : (.user, id) ∉ w.entered
  drawn : id ∈ w.drawn

lemma NewUser.of_rely (h : NewUser id w) (hid : c.target = some id)
    (hr : UserRely c w w') : NewUser id w' :=
  ⟨h.view.of_rely hid hr, fun hmem => h.entered ((hr.own id hid).2.2 hmem), hr.drawn id h.drawn⟩

/-- What the check of the cache says: no user of that name is in the table either. -/
lemma nameFree_of_not_taken (hw : UserInv w) (hname : c.newName = some username)
    (hknown : NamesKnown c w)
    (htaken : ¬ (values w.store.usersCache).any (·.username = username) = true) : NameFree c w := by
  have hentries : ∀ id x, w.cached id = some x → c.newName ≠ some x.username := by
    intro id x hx hx'
    refine htaken (any_eq_true.2 ⟨x, mem_values_of_lookup hx, decide_eq_true ?_⟩)
    exact (some.inj (hname.symm.trans hx')).symm
  refine ⟨fun u hu hu' => ?_, hentries⟩
  obtain ⟨x, hx, husername⟩ := hw.rowsCached u hu (hknown u hu hu')
  exact hentries _ x hx (husername ▸ hu')

lemma leads_addUser {u : User} {last : AuthPost User}
    (hid : c.target = some u.id) (hname : c.newName = some u.username) (hlogin : u.lastLogin = none)
    (hnew : NewUser u.id w) (hfree : NameFree c w)
    (herror : ∀ e w', View u.id none w' → last (.error e) w')
    (hok : ∀ w', View u.id (some u) w' → last (.ok u) w') :
    (userDiscipline H v).Leads c last (addUser u) w := by
  have hrow : ({ u with lastLogin := none } : User) = u := by rw [← hlogin]
  refine user_execute (fun e w₁ h₁ _ => herror _ w₁ (hnew.view.of_rely hid h₁)) (fun w₁ h₁ _ => ?_)
    fun w₁ h₁ _ => ?_
  · have hnew₁ := hnew.of_rely hid h₁
    refine userGuar_createRow (u := u) ⟨rfl, rfl, rfl⟩ ?_ rfl hid hname hnew₁.view.2
      hnew₁.entered hnew₁.drawn ?_
    · rw [← hrow]
      rfl
    · exact fun x hx heq => (hfree.of_rely h₁).rows x hx (heq ▸ hname)
  have hnew₁ := hnew.of_rely hid h₁
  have hfree₁ := hfree.of_rely h₁
  have hrows₁ : (perform H (.execute (.createUser u)) none w₁).2.userRows u.id = [u] := by
    have hnil : w₁.db.users.filter (fun x => decide (x.id = u.id)) = [] := hnew₁.view.2
    have hself : [u].filter (fun x => decide (x.id = u.id)) = [u] := by simp
    calc (w₁.db.users ++ [{ u with lastLogin := none }]).filter (fun x => decide (x.id = u.id))
        = w₁.db.users.filter (fun x => decide (x.id = u.id)) ++
          [u].filter (fun x => decide (x.id = u.id)) := by rw [hrow, filter_append]
      _ = [u] := by rw [hnil, hself, nil_append]
  have hentries₁ : ∀ id' y, id' ≠ u.id →
      (perform H (.execute (.createUser u)) none w₁).2.cached id' = some y →
      c.newName ≠ some y.username := fun id' y _ hy => hfree₁.entries id' y hy
  intro w₂ i₂ h₂ hinv₂ _
  have hrows₂ := (h₂.own u.id hid).1.trans hrows₁
  have hdrawn₂ : u.id ∈ w₂.drawn := h₂.drawn _ hnew₁.drawn
  have hwrite : CacheOnly u.id (some u) w₂ (perform H (.insertUser u) i₂ w₂).2 :=
    cacheOnly_insert rfl rfl (fun _ => Iff.rfl) rfl
  refine ⟨userGuar_setEntry hwrite hid ?_ (fun _ => .inl hdrawn₂) fun x hx hx' => ?_, ?_⟩
  · rintro _ ⟨⟩
    refine ⟨rfl, mem_cons_self, .inl hname, fun id' y hne hy heq => ?_⟩
    obtain ⟨y₀, hy₀, husername⟩ := h₂.cachedNames id' y hy (heq ▸ hname)
    exact hentries₁ id' y₀ hne hy₀ (by rw [husername, heq, hname])
  · exact ⟨u, rfl, by rw [eq_of_userRows hx hx' hrows₂]⟩
  intro w₃ i₃ h₃ _ _
  have hview₃ : View u.id (some u) w₃ := View.of_rely ⟨hwrite.entry, hrows₂⟩ hid h₃
  have hsame : SameUsers w₃ (perform H (.insertUsername u.username u.id) i₃ w₃).2 :=
    .others
  exact ⟨hsame.guar c, fun w₄ h₄ _ => hok w₄ ((hsame.view hview₃).of_rely hid h₄)⟩

/-- `create_user`, when every user of that name has been in the cache. -/
lemma leads_createUser {role : Role} {last : AuthPost User}
    (hid : c.target = some id) (hname : c.newName = some username) (hnew : NewUser id w)
    (hknown : NamesKnown c w) (herror : ∀ e w', View id none w' → last (.error e) w')
    (hok : ∀ u w', View id (some u) w' → last (.ok u) w') :
    (userDiscipline H v).Leads c last (createUser username hashed role id) w := by
  refine user_ask (fun _ _ => .others) fun w₁ i₁ h₁ hinv₁ => ?_
  have hnew₁ : NewUser id (perform H (.usernameTaken username) i₁ w₁).2 :=
    hnew.of_rely hid h₁
  split
  · exact fun w₂ h₂ _ => herror _ w₂ (hnew₁.view.of_rely hid h₂)
  rename_i htaken
  have hfree₁ : NameFree c (perform H (.usernameTaken username) i₁ w₁).2 :=
    nameFree_of_not_taken hinv₁ hname (hknown.of_rely h₁) htaken
  cases hashed with
  | error e => exact fun w₂ h₂ _ => herror _ w₂ (hnew₁.view.of_rely hid h₂)
  | ok hash =>
    refine user_ask (fun _ _ => .others) fun w₂ i₂ h₂ _ => ?_
    exact leads_addUser hid hname rfl (hnew₁.of_rely hid h₂) (hfree₁.of_rely h₂) herror
      fun w' => hok _ w'

end Leads

/-! ## Runs -/

def AuthCall.onUsers : AuthCall → Bool
  | .createUser _ _ _ _ => true
  | .updateUser _ _ _ => true
  | .resetPassword _ _ => true
  | .deleteUser _ => true
  | _ => false

/-- Calls on a users table that gives identifiers and names once. -/
def userSystem (H : Hashing) (users : List User) :
    System AuthPool (PoolAction (Option String) AuthCall ℕ) :=
  (authMachine H).system fun w =>
    w.Opened H ∧ w.db.users = users ∧ (users.map User.id).Nodup ∧ (users.map User.username).Nodup

/-- The condition on the steps of a run: calls that run at the same time are on different users and do
not take the same name, and the second statement of `reset_password` does not fail. -/
def UserOk (s : AuthPool) : PoolAction (Option String) AuthCall ℕ → Prop
  | .invoke c => c.onUsers ∧ ∀ n d p, s.running n = some (d, p) → UsersApart c d
  | .access n i => ∀ c a next, s.running n = some (c, .access a next) → ResetMay c a i
  | .finish _ => True
  | .elapse _ => True
  | .restart => False

lemma leads_user_program {n : ℕ} (hc : c.onUsers)
    (hview : ∀ id, c.target = some id → View id (v n) w)
    (hnew : ∀ id, c.newName ≠ none → c.target = some id → NewUser id w) (hknown : NamesKnown c w) :
    (userDiscipline H v).Leads c ((userDiscipline H v).final n c) (c.program H) w := by
  cases c with
  | createUser username hashed role id =>
    have hnone : v n = none := (hview id rfl).1.symm.trans (hnew id nofun rfl).view.1
    refine .bind (leads_createUser rfl rfl (hnew id nofun rfl) hknown ?_ ?_)
    · rintro e w' hw' id' ⟨⟩
      exact ⟨hnone ▸ hw', nofun⟩
    · rintro u w₁ hw₁ w₂ h₂ - id' ⟨⟩
      exact ⟨hw₁.of_rely rfl h₂, nofun⟩
  | updateUser userId role enabled =>
    refine .bind (leads_updateUser rfl (hview userId rfl) ?_ ?_)
    · rintro e w' hw' id' ⟨⟩
      exact ⟨hw', nofun⟩
    · rintro u w₁ hu hw₁ w₂ h₂ - id' ⟨⟩
      refine ⟨?_, nofun⟩
      rw [hu]
      exact hw₁.of_rely rfl h₂
  | resetPassword userId hashed =>
    refine .bind (leads_resetPassword rfl (hview userId rfl) ?_ ?_)
    · rintro e w' hw' id' ⟨⟩
      refine ⟨?_, nofun⟩
      cases hashed <;> exact hw'
    · rintro hash w₁ rfl hw₁ w₂ h₂ - id' ⟨⟩
      exact ⟨hw₁.of_rely rfl h₂, nofun⟩
  | deleteUser userId =>
    refine .bind (leads_deleteUser rfl (hview userId rfl) ?_ ?_)
    · rintro e w' hw' id' ⟨⟩
      exact ⟨hw', fun _ hok => nomatch hok⟩
    · rintro w₁ hentered hw₁ w₂ h₂ - id' ⟨⟩
      exact ⟨hw₁.of_rely rfl h₂, fun _ _ => h₂.entered _ hentered⟩
  | _ => cases hc

lemma user_outer (h : SameUsers w w') : (userDiscipline H v).Outer w w' :=
  ⟨(h.guar .purgeExpired).inv, fun _ _ _ => h.rely _, fun _ _ => trivial, fun _ _ _ _ _ => trivial⟩

/-- What each call has found matters only for the calls that have been made. -/
lemma user_sound_congr {v' : ℕ → Option User} {s : AuthPool} (h : (userDiscipline H v).Sound s)
    (hv : ∀ n, n < s.next → v' n = v n) : (userDiscipline H v').Sound s where
  __ := h
  leads n c p hrun := by
    refine (h.leads n c p hrun).transfer (fun _ _ hr => hr) (fun _ hi => hi) (fun _ _ _ _ hm => hm)
      (fun _ _ _ hg => hg) fun r w _ hfinal => ?_
    have hfinal : Leaves (v n) c r w := hfinal
    rw [← hv n (h.below n c p hrun)] at hfinal
    exact hfinal

/-- The state of a run: a user on whom no call is running is as the completed calls leave it. -/
structure Coherent (H : Hashing) (users : List User) (v : ℕ → Option User) (s : AuthPool) :
    Prop where
  sound : (userDiscipline H v).Sound s
  found : ∀ n c p id, s.running n = some (c, p) → c.target = some id →
    v n = usersAfter users s.returned id
  idle : ∀ id, (∀ n c p, s.running n = some (c, p) → c.target ≠ some id) →
    View id (usersAfter users s.returned id) s.shared
  owned : ∀ u ∈ s.shared.db.users, (.user, u.id) ∉ s.shared.entered →
    ∃ n c p, s.running n = some (c, p) ∧ c.target = some u.id ∧ c.newName = some u.username
  deleted : ∀ n id a, (n, .deleteUser id, .ok a) ∈ s.returned →
    id ∈ s.shared.drawn ∧ usersAfter users s.returned id = none ∧
      ∀ m c p, s.running m = some (c, p) → c.newName ≠ none → c.target ≠ some id

variable {users : List User} {s : AuthPool}

namespace Coherent

variable {r : Except String AuthReply} {n : ℕ}

lemma effect_none (h : c.newName = none) : c.effect r none = none := by
  cases c with
  | createUser => cases h
  | resetPassword userId hashed => cases hashed <;> cases r <;> rfl
  | updateUser | deleteUser => cases r <;> rfl
  | _ => rfl

variable {id : String} {l : List (ℕ × AuthCall × Except String AuthReply)}

lemma usersAfter_cons_self (h : c.target = some id) :
    usersAfter users ((n, c, r) :: l) id = c.effect r (usersAfter users l id) := if_pos h

lemma usersAfter_cons_ne (h : c.target ≠ some id) :
    usersAfter users ((n, c, r) :: l) id = usersAfter users l id := if_neg h

lemma outer (h : Coherent H users v s) (hsame : SameUsers s.shared w') :
    Coherent H users v { s with shared := w' } where
  sound := h.sound.outer (user_outer hsame)
  found := h.found
  idle id hid := hsame.view (h.idle id hid)
  owned u hu hnot := h.owned u (hsame.users ▸ hu) (hsame.entered ▸ hnot)
  deleted n id a hmem := by
    obtain ⟨hdrawn, hrest⟩ := h.deleted n id a hmem
    exact ⟨hsame.drawn id hdrawn, hrest⟩

/-- A new call finds its user as the completed calls leave it. -/
lemma invoke (h : Coherent H users v s) (hbegin : c.begin H s.shared = some w') (hc : c.onUsers)
    (hapart : ∀ n d p, s.running n = some (d, p) → UsersApart c d) : Coherent H users
      (update v s.next (c.target.bind (usersAfter users s.returned)))
      { s with
        shared := w'
        running := update s.running s.next (some (c, c.program H))
        next := s.next + 1 } := by
  obtain ⟨rfl, hnew⟩ := eq_of_begin hbegin
  set v' := update v s.next (c.target.bind (usersAfter users s.returned)) with hv'
  have hsame : SameUsers s.shared { s.shared with drawn := c.draws H ++ s.shared.drawn } :=
    ⟨rfl, rfl, rfl, fun _ hy => mem_append_right _ hy⟩
  have hbefore : ∀ n, n < s.next → v' n = v n := fun n hn =>
    update_of_ne (ne_of_lt hn) _ _
  have hsound := user_sound_congr h.sound hbefore
  have hnone : ∀ id, c.target = some id → ∀ n d p, s.running n = some (d, p) →
      d.target ≠ some id := fun id hid n d p hrun => (hapart n d p hrun).1 id hid
  have hview : ∀ id, c.target = some id →
      View id (v' s.next) { s.shared with drawn := c.draws H ++ s.shared.drawn } := by
    intro id hid
    rw [hv', update_self, hid]
    exact hsame.view (h.idle id (hnone id hid))
  have hleads : (userDiscipline H v').Leads c ((userDiscipline H v').final s.next c) (c.program H)
      { s.shared with drawn := c.draws H ++ s.shared.drawn } := by
    refine leads_user_program hc hview (fun id hname hid => ?_) fun u hu hname => ?_
    · have hdraws : id ∈ c.draws H := by
        cases c with
        | createUser username hashed role id' =>
          cases hid
          exact mem_singleton_self id
        | _ => exact absurd rfl hname
      have hentered : (.user, id) ∉ s.shared.entered := fun hmem =>
        hnew id hdraws (h.sound.inv.enteredDrawn id hmem)
      have hcached : s.shared.cached id = none := by
        refine eq_none_iff_forall_ne_some.2 fun x hx => ?_
        exact hentered (h.sound.inv.keyed id x hx).2
      have hidle := h.idle id (hnone id hid)
      rw [← hidle.1, hcached] at hidle
      exact ⟨hsame.view hidle, hentered, mem_append_left _ hdraws⟩
    · by_contra hnot
      obtain ⟨n, d, p, hrun, -, hd⟩ := h.owned u hu hnot
      exact (hapart n d p hrun).2 _ hname hd
  have hmoves : (authMachine H).Moves s (.invoke c) _ := .invoke (M := authMachine H) hbegin
  refine ⟨hsound.step hmoves ?_, ?_, ?_, ?_, ?_⟩
  · intro w₁ hw₁ _
    rw [show w₁ = _ from (some.inj (hbegin.symm.trans hw₁)).symm]
    exact ⟨fun n d p hrun _ => ⟨hapart n d p hrun, (hapart n d p hrun).symm⟩, user_outer hsame, trivial,
      fun _ => hleads⟩
  · intro n d p id hn hid
    rcases of_update hn with ⟨rfl, ⟨⟩⟩ | ⟨-, hn⟩
    · rw [hv', update_self, hid, bind_some]
    · rw [hbefore n (h.sound.below n d p hn)]
      exact h.found n d p id hn hid
  · intro id hid
    refine hsame.view (h.idle id fun n d p hrun => hid n d p ?_)
    have hne : n ≠ s.next := ne_of_lt (h.sound.below n d p hrun)
    simp only [update_of_ne hne, hrun]
  · intro u hu hnot
    obtain ⟨n, d, p, hrun, hrest⟩ := h.owned u hu hnot
    have hne : n ≠ s.next := ne_of_lt (h.sound.below n d p hrun)
    exact ⟨n, d, p, by simp only [update_of_ne hne, hrun], hrest⟩
  · intro n id a hmem
    obtain ⟨hdrawn, hafter, hcreate⟩ := h.deleted n id a hmem
    refine ⟨hsame.drawn id hdrawn, hafter, fun m d p hm hname hid => ?_⟩
    rcases of_update hm with ⟨-, ⟨⟩⟩ | ⟨-, hm⟩
    · cases c with
      | createUser username hashed role id' =>
        cases hid
        exact hnew id (mem_singleton_self id) hdrawn
      | _ => exact absurd rfl hname
    · exact hcreate m d p hm hname hid

lemma access (h : Coherent H users v s) {i : Option String} {a : Access}
    {next : Answer a → AuthM AuthReply} (hrun : s.running n = some (c, .access a next))
    (hmay : ResetMay c a i) : Coherent H users v
      { s with
        shared := (perform H a i s.shared).2
        running := update s.running n
          (some (c, next (perform H a i s.shared).1)) } := by
  obtain ⟨hguar, -⟩ := h.sound.leads n c _ hrun s.shared i (UserRely.refl c s.shared) h.sound.inv hmay
  refine ⟨h.sound.step (.access (M := authMachine H) hrun) ?_, ?_, ?_, ?_, ?_⟩
  · intro c' a' next' hrun'
    rw [hrun] at hrun'
    cases hrun'
    exact hmay
  · intro m d p id hm hid
    obtain ⟨p', hm'⟩ := (Machine.exists_running_update hrun).1 ⟨p, hm⟩
    exact h.found m d p' id hm' hid
  · intro id hid
    have hold : ∀ m d p, s.running m = some (d, p) → d.target ≠ some id := fun m d p hm => by
      obtain ⟨p', hm'⟩ := (Machine.exists_running_update hrun).2 ⟨p, hm⟩
      exact hid m d p' hm'
    obtain ⟨hrows, hcached, -⟩ := hguar.others id (hold n c _ hrun)
    exact ⟨hcached.trans (h.idle id hold).1, hrows.trans (h.idle id hold).2⟩
  · intro u hu hnot
    have howned : ∀ u₀ ∈ s.shared.db.users, u₀.id = u.id → u₀.username = u.username →
        ∃ m d p, update s.running n
          (some (c, next (perform H a i s.shared).1)) m = some (d, p) ∧
          d.target = some u.id ∧ d.newName = some u.username := by
      intro u₀ hu₀ hid₀ hname₀
      obtain ⟨m, d, p, hm, hd⟩ := h.owned u₀ hu₀ fun hmem => hnot (hid₀ ▸ hguar.entered _ hmem)
      obtain ⟨p', hm'⟩ := (Machine.exists_running_update hrun).2 ⟨p, hm⟩
      exact ⟨m, d, p', hm', hid₀ ▸ hname₀ ▸ hd⟩
    by_cases hid : c.target = some u.id
    · rcases hguar.names u hu with hname | ⟨u₀, hu₀, hid₀, hname₀⟩
      · exact ⟨n, c, _, update_self _ _ _, hid, hname⟩
      · exact howned u₀ hu₀ hid₀ hname₀
    · have hmem : u ∈ s.shared.userRows u.id := by
        rw [← (hguar.others u.id hid).1]
        exact mem_filter.2 ⟨hu, decide_eq_true rfl⟩
      exact howned u (mem_filter.1 hmem).1 rfl rfl
  · intro m id r hmem
    obtain ⟨hdrawn, hafter, hcreate⟩ := h.deleted m id r hmem
    refine ⟨hguar.drawn id hdrawn, hafter, fun k d p hk => ?_⟩
    obtain ⟨p', hk'⟩ := (Machine.exists_running_update hrun).1 ⟨p, hk⟩
    exact hcreate k d p' hk'

/-- A call that returns leaves its user as its effect says. -/
lemma finish (h : Coherent H users v s) (hrun : s.running n = some (c, .ret r)) : Coherent H users v
      { s with
        running := update s.running n none
        returned := (n, c, r) :: s.returned } := by
  have hleaves : Leaves (v n) c r s.shared := h.sound.final hrun
  have hback : ∀ m d p, update s.running n none m = some (d, p) →
      m ≠ n ∧ s.running m = some (d, p) := by
    intro m d p hm
    rcases of_update hm with ⟨-, ⟨⟩⟩ | hm
    exact hm
  have hkept : ∀ m d p, m ≠ n → s.running m = some (d, p) →
      update s.running n none m = some (d, p) := by
    intro m d p hne hm
    rw [update_of_ne hne, hm]
  have hother : ∀ m d p id, update s.running n none m = some (d, p) →
      d.target = some id → c.target ≠ some id := by
    intro m d p id hm hid hc
    obtain ⟨hne, hm⟩ := hback m d p hm
    exact (h.sound.apart m n d c p _ hne hm hrun).1 id hid hc
  have hview : ∀ id, c.target = some id →
      View id (usersAfter users ((n, c, r) :: s.returned) id) s.shared := by
    intro id hid
    rw [usersAfter_cons_self hid, ← h.found n c _ id hrun hid]
    exact (hleaves id hid).1
  refine ⟨h.sound.step (.finish (M := authMachine H) hrun) trivial, ?_, ?_, ?_, ?_⟩
  · intro m d p id hm hid
    rw [usersAfter_cons_ne (hother m d p id hm hid)]
    exact h.found m d p id (hback m d p hm).2 hid
  · intro id hid
    by_cases hc : c.target = some id
    · exact hview id hc
    · dsimp only
      rw [usersAfter_cons_ne hc]
      refine h.idle id fun m d p hm => ?_
      by_cases heq : m = n
      · rw [heq, hrun] at hm
        cases hm
        exact hc
      · exact hid m d p (hkept m d p heq hm)
  · intro u hu hnot
    obtain ⟨m, d, p, hm, hid, hname⟩ := h.owned u hu hnot
    by_cases heq : m = n
    · -- a user that was left has been entered
      rw [heq, hrun] at hm
      cases hm
      obtain ⟨hcached, hrows⟩ := hview u.id hid
      have hmem : u ∈ s.shared.userRows u.id := mem_filter.2 ⟨hu, decide_eq_true rfl⟩
      rw [hrows, mem_toList] at hmem
      exact absurd (h.sound.inv.keyed u.id u (hcached.trans hmem)).2 hnot
    · exact ⟨m, d, p, hkept m d p heq hm, hid, hname⟩
  · intro m id a hmem
    rcases mem_cons.1 hmem with heq | hmem
    · cases heq
      refine ⟨?_, usersAfter_cons_self rfl, fun k d p hk _ hid => hother k d p id hk hid rfl⟩
      exact h.sound.inv.enteredDrawn id ((hleaves id rfl).2 rfl ⟨a, rfl⟩)
    · obtain ⟨hdrawn, hafter, hcreate⟩ := h.deleted m id a hmem
      refine ⟨hdrawn, ?_, fun k d p hk => hcreate k d p (hback k d p hk).2⟩
      by_cases hc : c.target = some id
      · have hname : c.newName = none := by
          by_contra hname
          exact hcreate n c _ hrun hname hc
        rw [usersAfter_cons_self hc, hafter, effect_none hname]
      · dsimp only
        rw [usersAfter_cons_ne hc, hafter]

end Coherent

/-- In a table without duplicates the rows of a user are the first one. -/
lemma filter_id_eq (hids : (users.map User.id).Nodup) (id : String) :
    users.filter (fun u => decide (u.id = id)) =
      (users.find? fun u => decide (u.id = id)).toList := by
  have hnodup := hids.sublist ((filter_sublist (p := fun u => decide (u.id = id))).map User.id)
  have hall : ∀ u ∈ users.filter (fun u => decide (u.id = id)), u.id = id :=
    fun u hu => of_decide_eq_true (mem_filter.1 hu).2
  rw [← head?_filter]
  generalize users.filter (fun u => decide (u.id = id)) = found at hnodup hall
  match found with
  | [] => rfl
  | [u] => rfl
  | u :: v :: rest => simp [hall u, hall v] at hnodup

/-- The cache of a store that has been opened over a table without duplicates. -/
lemma lookup_insertAll_of_mem (hids : (users.map User.id).Nodup) {u : User} (hu : u ∈ users) :
    (insertAll User.id (fun u => u) users).lookup u.id = some u := by
  obtain ⟨y, hy, hid, hlookup⟩ := lookup_insertAll User.id (fun u => u) hu
  rw [hlookup, inj_on_of_nodup_map hids hy hu hid]

lemma lookup_insertAll_id (hids : (users.map User.id).Nodup) (id : String) :
    (insertAll User.id (fun u => u) users).lookup id = users.find? fun u => decide (u.id = id) := by
  cases hfind : users.find? fun u => decide (u.id = id) with
  | none =>
    have hnot := find?_eq_none.1 hfind
    refine eq_none_iff_forall_ne_some.2 fun x hx => ?_
    obtain ⟨u, hu, hid, -⟩ := mem_of_insertAll hx
    exact hnot u hu (decide_eq_true hid)
  | some u =>
    have hu := mem_of_find?_eq_some hfind
    have hid : decide (u.id = id) = true := find?_some (p := fun u : User => decide (u.id = id)) hfind
    rw [← of_decide_eq_true hid, lookup_insertAll_of_mem hids hu]

lemma coherent_of_init (h : (userSystem H users).init s) : Coherent H users (fun _ => none) s := by
  obtain ⟨⟨hopened, husers, hids, hnames⟩, hrunning, -, hreturned⟩ := h
  have hcached : ∀ id, s.shared.cached id = users.find? fun u => decide (u.id = id) := by
    intro id
    rw [cached, hopened.store, ← lookup_insertAll_id hids, ← husers]
    rfl
  have hentered : ∀ u ∈ users, (.user, u.id) ∈ s.shared.entered := by
    intro u hu
    rw [hopened.entered, AuthDb.keys, husers]
    exact mem_append_right _ (mem_map.2 ⟨u, hu, rfl⟩)
  have hof : ∀ id x, s.shared.cached id = some x → x ∈ users ∧ x.id = id := by
    intro id x hx
    rw [hcached] at hx
    exact ⟨mem_of_find?_eq_some hx,
      of_decide_eq_true (find?_some (p := fun u : User => decide (u.id = id)) hx)⟩
  have hinv : UserInv s.shared :=
    { ids := husers ▸ hids
      names := by
        rw [husers]
        exact fun u hu v hv => inj_on_of_nodup_map hnames hu hv
      keyed := by
        intro id x hx
        obtain ⟨hmem, rfl⟩ := hof id x hx
        exact ⟨rfl, hentered x hmem⟩
      cachedNames := by
        intro id id' x y hx hy hname
        obtain ⟨hmem, rfl⟩ := hof id x hx
        obtain ⟨hmem', rfl⟩ := hof id' y hy
        rw [inj_on_of_nodup_map hnames hmem hmem' hname]
      rowsCached := by
        intro u hu _
        rw [husers] at hu
        refine ⟨u, ?_, rfl⟩
        rw [hcached, ← lookup_insertAll_id hids, lookup_insertAll_of_mem hids hu]
      rowsDrawn := by
        intro u hu
        rw [husers] at hu
        exact hopened.drawn _ (hopened.entered ▸ hentered u hu)
      enteredDrawn := fun id hmem => hopened.drawn _ (hopened.entered ▸ hmem) }
  have hnone : ∀ n c p, s.running n ≠ some (c, p) := by simp [hrunning]
  refine ⟨Discipline.sound_of_none hinv hrunning hreturned, ?_, ?_, ?_, ?_⟩
  · exact fun n c p id hrun => absurd hrun (hnone n c p)
  · intro id _
    rw [hreturned]
    refine ⟨hcached id, ?_⟩
    rw [userRows, husers]
    exact filter_id_eq hids id
  · intro u hu hnot
    exact absurd (hentered u (husers ▸ hu)) hnot
  · intro n id a hmem
    rw [hreturned] at hmem
    cases hmem

lemma coherent_of_reachable
    (h : (userSystem H users).ReachableBy UserOk s) : ∃ v, Coherent H users v s := by
  refine System.ReachableBy.invariant (I := fun s => ∃ v, Coherent H users v s) h
    (fun s hs => ⟨_, coherent_of_init hs⟩) ?_
  rintro s a s' - ⟨v, hs⟩ hok hstep
  cases Machine.moves_of_step hstep with
  | invoke hbegin => exact ⟨_, hs.invoke hbegin hok.1 hok.2⟩
  | access hrun => exact ⟨v, hs.access hrun (hok _ _ _ hrun)⟩
  | finish hrun => exact ⟨v, hs.finish hrun⟩
  | elapse => exact ⟨v, hs.outer .others⟩
  | restart => exact hok.elim

/-- A call that has returned leaves a field of its user, and the user, as they are. -/
def KeepsField {β : Type} (field : User → β) (c : AuthCall) (r : Except String AuthReply) : Prop :=
  ∀ u, ∃ u', c.effect r (some u) = some u' ∧ field u' = field u

lemma usersAfter_keeps {β : Type} {field : User → β} {id : String} {u : User}
    {newer older : List (ℕ × AuthCall × Except String AuthReply)}
    (hkeeps : ∀ e ∈ newer, e.2.1.target = some id → KeepsField field e.2.1 e.2.2)
    (hu : usersAfter users older id = some u) :
    ∃ u', usersAfter users (newer ++ older) id = some u' ∧ field u' = field u := by
  induction newer with
  | nil => exact ⟨u, hu, rfl⟩
  | cons e newer ih =>
    obtain ⟨n, c, r⟩ := e
    obtain ⟨u₁, hu₁, hfield₁⟩ := ih fun e he => hkeeps e (mem_cons_of_mem _ he)
    by_cases hc : c.target = some id
    · obtain ⟨u₂, hu₂, hfield₂⟩ := hkeeps (n, c, r) mem_cons_self hc u₁
      refine ⟨u₂, ?_, hfield₂.trans hfield₁⟩
      rw [cons_append, Coherent.usersAfter_cons_self hc, hu₁, hu₂]
    · refine ⟨u₁, ?_, hfield₁⟩
      rw [cons_append, Coherent.usersAfter_cons_ne hc, hu₁]

/-- **The user store is coherent.**  In every run whose steps meet the condition, when no call is
running: table and cache hold the same users, those that the completed calls leave one after the other;
every name is there once; a user whose deletion has succeeded is in neither; and a field that a completed
call has left is as that call left it, if the later calls on the user do not change it. -/
theorem users_coherent {users : List User} {s : AuthPool}
    (h : (userSystem H users).ReachableBy UserOk s) (hdone : ∀ n, s.running n = none) :
    (∀ id, View id (usersAfter users s.returned id) s.shared) ∧
    ((s.shared.db.users.map User.username).Nodup ∧
      ((values s.shared.store.usersCache).map User.username).Nodup) ∧
    (∀ n id a, (n, .deleteUser id, .ok a) ∈ s.returned → View id none s.shared) ∧
    ∀ (β : Type) (field : User → β) (newer older) (n : ℕ) (c : AuthCall) (r) (id : String) (u : User),
      s.returned = newer ++ (n, c, r) :: older → c.target = some id →
      c.effect r (usersAfter users older id) = some u →
      (∀ e ∈ newer, e.2.1.target = some id → KeepsField field e.2.1 e.2.2) →
      ∃ u', View id (some u') s.shared ∧ field u' = field u := by
  obtain ⟨v, hs⟩ := coherent_of_reachable h
  have hview : ∀ id, View id (usersAfter users s.returned id) s.shared :=
    fun id => hs.idle id fun n c p hrun => nomatch (hdone n).symm.trans hrun
  refine ⟨hview, ⟨?_, ?_⟩, ?_, ?_⟩
  · exact (hs.sound.inv.ids.of_map _).map_on hs.sound.inv.names
  · exact hs.sound.inv.cached_names_nodup
  · intro n id a hmem
    have hdeleted := hview id
    rwa [(hs.deleted n id a hmem).2.1] at hdeleted
  · intro β field newer older n c r id u hreturned hc hu hkeeps
    have hstart : usersAfter users ((n, c, r) :: older) id = some u :=
      (Coherent.usersAfter_cons_self hc).trans hu
    obtain ⟨u', hu', hfield⟩ := usersAfter_keeps hkeeps hstart
    refine ⟨u', ?_, hfield⟩
    rw [← hu', ← hreturned]
    exact hview id

/-- A check for the condition. -/
def usersApart (s : AuthPool) : PoolAction (Option String) AuthCall ℕ → Bool
  | .invoke c =>
    c.onUsers && (List.range s.next).all fun n => (s.running n).all fun e =>
      c.target.all (fun id => e.1.target ≠ some id) &&
        c.newName.all fun name => e.1.newName ≠ some name
  | .access _ i => i.isNone
  | .restart => false
  | _ => true

lemma userOk_of_usersApart {a : PoolAction (Option String) AuthCall ℕ}
    (hs : (userSystem H users).ReachableBy UserOk s) (h : usersApart s a = true) : UserOk s a := by
  cases a with
  | invoke c =>
    obtain ⟨hc, hall⟩ := Bool.and_eq_true_iff.1 h
    refine ⟨hc, fun n d p hn => ?_⟩
    obtain ⟨v, hcoherent⟩ := coherent_of_reachable hs
    have hlt := hcoherent.sound.below n d p hn
    have hn' := all_eq_true.1 hall n (mem_range.2 hlt)
    rw [hn, Option.all_some, Bool.and_eq_true, Option.all_eq_true, Option.all_eq_true] at hn'
    exact ⟨fun id hid => of_decide_eq_true (hn'.1 id hid),
      fun name hname => of_decide_eq_true (hn'.2 name hname)⟩
  | access n i => exact fun _ _ _ _ _ _ _ _ _ => isNone_iff_eq_none.1 h
  | finish | elapse => trivial
  | restart => cases h

lemma running_eq_none (hs : (userSystem H users).ReachableBy UserOk s)
    (h : (range s.next).all (fun n => (s.running n).isNone) = true) (n : ℕ) :
    s.running n = none := by
  obtain ⟨v, hcoherent⟩ := coherent_of_reachable hs
  by_contra hsome
  obtain ⟨⟨c, p⟩, hn⟩ := ne_none_iff_exists'.1 hsome
  have hlt := hcoherent.sound.below n c p hn
  exact hsome (isNone_iff_eq_none.1 (all_eq_true.1 h n (mem_range.2 hlt)))

lemma init_oneUser : (userSystem plainHashing oneUser.users).init (openedStore plainHashing oneUser) :=
  ⟨⟨(init_openedStore plainHashing oneUser).1, rfl, by decide, by decide⟩, rfl, rfl, rfl⟩

/-- An update of one user while another one is created, and an update of the new one. -/
theorem users_coherent_oneUser :
    ∃ s : AuthPool, (userSystem plainHashing oneUser.users).ReachableBy UserOk s ∧
      s.returned.length = 3 ∧
      View "a" (some ⟨"a", "new", "hash", .writer, true, 0, none⟩) s.shared := by
  have hrun := System.ReachableBy.execIf (fun s a => userOk_of_usersApart) (.init init_oneUser)
    (rfl : (userSystem plainHashing oneUser.users).execIf usersApart
      (openedStore plainHashing oneUser)
      ([.invoke (.updateUser "u" none (some false)), .access 0 none,
        .invoke (.createUser "new" (.ok "hash") .reader "a")] ++ accesses 1 5 ++ [.finish 1] ++
        accesses 0 2 ++ [.finish 0] ++ callSteps (.updateUser "a" (some .writer) none) 2 3) = some _)
  exact ⟨_, hrun, rfl, (users_coherent hrun (running_eq_none hrun rfl)).1 "a"⟩

/-- Four runs of calls that have all returned.  An update that overlaps with another one undoes it in
the cache; two creations that overlap take the same name; an update that overlaps with a deletion puts
the deleted user back into the cache; and a `reset_password` that cannot delete the tokens has changed
the row and not the entry. -/
theorem users_incoherent :
    (∃ s : AuthPool, (userSystem plainHashing oneUser.users).exec (openedStore plainHashing oneUser)
        ([.invoke (.updateUser "u" (some .writer) none), .access 0 none] ++
          callSteps (.updateUser "u" none (some false)) 1 3 ++ accesses 0 2 ++ [.finish 0]) = some s ∧
      s.returned.length = 2 ∧
      s.shared.userRows "u" = [⟨"u", "user", "", .writer, false, 0, none⟩] ∧
      s.shared.cached "u" = some ⟨"u", "user", "", .writer, true, 0, none⟩) ∧
    (∃ s : AuthPool, (userSystem plainHashing oneUser.users).exec (openedStore plainHashing oneUser)
        ([.invoke (.createUser "new" (.ok "hash") .reader "a"), .access 0 none] ++
          callSteps (.createUser "new" (.ok "hash") .reader "b") 1 5 ++ accesses 0 4 ++
          [.finish 0]) = some s ∧
      s.returned.length = 2 ∧ s.shared.db.users.map User.username = ["user", "new", "new"]) ∧
    (∃ s : AuthPool, (userSystem plainHashing oneUser.users).exec (openedStore plainHashing oneUser)
        ([.invoke (.updateUser "u" (some .writer) none)] ++ accesses 0 2 ++
          callSteps (.deleteUser "u") 1 7 ++ accesses 0 1 ++ [.finish 0]) = some s ∧
      (1, .deleteUser "u", .ok .done) ∈ s.returned ∧ s.shared.userRows "u" = [] ∧
      s.shared.cached "u" = some ⟨"u", "user", "", .writer, true, 0, none⟩) ∧
    ∃ s : AuthPool, (userSystem plainHashing oneUser.users).exec (openedStore plainHashing oneUser)
        [.invoke (.resetPassword "u" (.ok "hash")), .access 0 none, .access 0 (some "disk full"),
          .finish 0] = some s ∧
      s.returned.length = 1 ∧
      s.shared.userRows "u" = [⟨"u", "user", "hash", .reader, true, 0, none⟩] ∧
      s.shared.cached "u" = some ⟨"u", "user", "", .reader, true, 0, none⟩ :=
  ⟨⟨_, rfl, rfl, rfl, rfl⟩, ⟨_, rfl, rfl, rfl⟩,
    ⟨_, rfl, mem_cons_of_mem _ mem_cons_self, rfl, rfl⟩, _, rfl, rfl, rfl, rfl⟩

end LightningDB
