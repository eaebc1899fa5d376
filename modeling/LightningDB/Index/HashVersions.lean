import LightningDB.Index.HashIndex

/-!
# Transactions that insert into one hash index

Every transaction changes versions of its own of the pages of an index: the first time it needs a page it
copies the newest committed version, and its commit makes its versions the newest committed ones.  The
commit merges the rows of column pages, which are recorded one by one; nothing is recorded for the pages
of an index, so a version that a commit makes the newest replaces what others have committed to the page
since it was copied.

A version is *fresh* as long as nobody has.  If the versions of a transaction are fresh when it commits,
its insertions are added to what there is (`Sound.commit`): two transactions with fresh versions have no
page in common, hence no bucket, since an insertion begins with the first page of its bucket.
-/

namespace LightningDB

open Framework HashIndex Function List Option

variable {hash : StoredValue → UInt64} {lossy : List UInt8 → String} {key : StoredValue} {row : UInt64}

/-- A version of a page: its bytes, and the commit that made it.  With a version that is not committed
yet, the commit that made what it has been copied from. -/
structure PageVersion where
  page : Page
  stamp : ℕ

/-- The file of an index as a transaction works on it. -/
structure IndexVersions where
  numBuckets : ℕ
  numPages : ℕ
  committed : ℕ → PageVersion
  own : ℕ → Option PageVersion

namespace IndexVersions

variable (v : IndexVersions)

/-- The version of a page that the transaction writes, or would copy. -/
def newest (page : ℕ) : PageVersion := (v.own page).getD (v.committed page)

/-- The pages as the transaction sees them. -/
def file : HashIndex := ⟨v.numBuckets, v.numPages, fun q => (v.newest q).page⟩

/-- `create_new_version`. -/
def createNewVersion (page : ℕ) : IndexVersions :=
  { v with own := update v.own page (some (v.newest page)) }

/-- The bytes of the transaction's own version. -/
def write (page : ℕ) (p : Page) : IndexVersions :=
  { v with own := update v.own page (some { v.newest page with page := p }) }

/-- `allocate_overflow_page`. -/
def allocateOverflowPage : Except LightningError (ℕ × IndexVersions) := do
  let (page, f) ← v.file.addNewPage
  return (page, ({ v with numPages := f.numPages }.createNewVersion page).write page .zero)

/-- `initialize_header`, which writes to the file itself. -/
def initializeHeader : Except LightningError IndexVersions := do
  let f ← (⟨v.numBuckets, v.numPages, fun q => (v.committed q).page⟩ : HashIndex).initializeHeader
  return { v with
    numPages := f.numPages
    committed := fun q => { v.committed q with page := f.pages q } }

/-- The loop of `insert` along a chain. -/
def insertLoop (hash : StoredValue → UInt64) (key : StoredValue) (row : UInt64) :
    ℕ → ℕ → IndexVersions → Option (Except LightningError Unit × IndexVersions)
  | 0, _, _ => none
  | fuel + 1, page, v =>
    let v := v.createNewVersion page
    let p := (v.newest page).page
    if p.numEntries < maxEntriesPerPage then
      match key.serializeValue with
      | .error e => some (.error e, v)
      | .ok buf =>
        let (r, p) := p.writeEntryToPage p.numEntries (computeHash hash key) buf row
        some (r, v.write page p)
    else if p.nextPage = 0 then
      match v.allocateOverflowPage with
      | .error e => some (.error e, v)
      | .ok (newPage, v) =>
        let v := v.createNewVersion page
        insertLoop hash key row fuel newPage (v.write page ((v.newest page).page.setNextPage newPage))
    else insertLoop hash key row fuel p.nextPage v

/-- `insert`. -/
def insert (hash : StoredValue → UInt64) (fuel : ℕ) (v : IndexVersions) (key : StoredValue) (row : UInt64) :
    Option (Except LightningError Unit × IndexVersions) :=
  if v.file.headerBuckets = 0 then
    match v.initializeHeader with
    | .error e => some (.error e, v)
    | .ok v =>
      if v.numBuckets = 0 then some (.error (.internal "HashIndex reinit failed"), v)
      else insertLoop hash key row fuel (1 + (computeHash hash key).toNat % v.numBuckets) v
  else insertLoop hash key row fuel (1 + (computeHash hash key).toNat % v.file.headerBuckets) v

/-! ## What a transaction sees of its own insertions -/

variable {v v' : IndexVersions} {page fuel : ℕ} {l : List ℕ} {o : PageVersion}

lemma newest_of_update (h : v'.own = update v.own page (some o))
    (hcommitted : v'.committed = v.committed) : v'.newest = update v.newest page o := by
  funext q
  rw [newest, h, hcommitted]
  exact apply_update (fun q o => o.getD (v.committed q)) v.own page (some o) q

variable (v page)

@[simp] lemma own_createNewVersion :
    (v.createNewVersion page).own = update v.own page (some (v.newest page)) := rfl

@[simp] lemma own_write (p : Page) :
    (v.write page p).own = update v.own page (some { v.newest page with page := p }) := rfl

@[simp] lemma newest_createNewVersion : (v.createNewVersion page).newest = v.newest := by
  rw [newest_of_update (own_createNewVersion v page) rfl, update_eq_self]

@[simp] lemma file_createNewVersion : (v.createNewVersion page).file = v.file := by
  rw [file, newest_createNewVersion]
  rfl

@[simp] lemma file_write (p : Page) : (v.write page p).file = v.file.setPage page p := by
  have hpages : (fun q => ((v.write page p).newest q).page) =
      update (fun q => (v.newest q).page) page p := by
    rw [newest_of_update (own_write v page p) rfl]
    exact funext (apply_update (fun _ => PageVersion.page) v.newest page _)
  rw [file, hpages]
  rfl

lemma file_allocateOverflowPage :
    v.allocateOverflowPage.map (fun x => (x.1, x.2.file)) = v.file.allocateOverflowPage := by
  rw [allocateOverflowPage, HashIndex.allocateOverflowPage, addPage, addNewPage]
  split
  · change Except.ok (_, file (write _ _ _)) = _
    rw [file_write, file_createNewVersion]
    rfl
  · rfl

variable {v page}

/-- An insertion as the transaction sees it is an insertion into the file. -/
lemma file_insertLoop : (insertLoop hash key row fuel page v).map (fun x => (x.1, x.2.file)) =
      HashIndex.insertLoop hash key row fuel page v.file := by
  induction fuel generalizing page v with
  | zero => rfl
  | succ fuel ih =>
    rw [insertLoop, HashIndex.insertLoop]
    rw [newest_createNewVersion, show v.file.pages page = (v.newest page).page from rfl]
    by_cases hfull : (v.newest page).page.numEntries < maxEntriesPerPage
    · rw [if_pos hfull, if_pos hfull]
      cases key.serializeValue with
      | error | ok => simp
    · rw [if_neg hfull, if_neg hfull]
      by_cases hnext : (v.newest page).page.nextPage = 0
      · rw [if_pos hnext, if_pos hnext]
        have halloc := (v.createNewVersion page).file_allocateOverflowPage
        rw [file_createNewVersion] at halloc
        rw [← halloc]
        cases hrun : (v.createNewVersion page).allocateOverflowPage with
        | error e => simp [Except.map]
        | ok x =>
          simp only [ih, file_write, file_createNewVersion, newest_createNewVersion]
          rfl
      · rw [if_neg hnext, if_neg hnext, ih, file_createNewVersion]

/-- What an insertion can do to the versions: it makes versions of its own of some pages, copied from
what is the newest, and nothing else. -/
structure Touches (v v' : IndexVersions) (pages : ℕ → Prop) : Prop where
  numBuckets : v'.numBuckets = v.numBuckets
  committed : v'.committed = v.committed
  stamp : ∀ q, (v'.newest q).stamp = (v.newest q).stamp
  kept : ∀ q, (v.own q).isSome → (v'.own q).isSome
  only : ∀ q, (v'.own q).isSome → (v.own q).isSome ∨ pages q

lemma Touches.trans {v₁ v₂ v₃ : IndexVersions} {pages : ℕ → Prop} (h : Touches v₁ v₂ pages)
    (h' : Touches v₂ v₃ pages) : Touches v₁ v₃ pages where
  numBuckets := h'.numBuckets.trans h.numBuckets
  committed := h'.committed.trans h.committed
  stamp q := (h'.stamp q).trans (h.stamp q)
  kept q hq := h'.kept q (h.kept q hq)
  only q hq := (h'.only q hq).elim (h.only q) .inr

lemma Touches.mono {pages pages' : ℕ → Prop} (h : Touches v v' pages) (himp : ∀ q, pages q → pages' q) :
    Touches v v' pages' :=
  { h with only := fun q hq => (h.only q hq).imp_right (himp q) }

/-- One page gets a version of its own, with the stamp of what is the newest. -/
lemma touches_update (hown : v'.own = update v.own page (some o))
    (hstamp : o.stamp = (v.newest page).stamp) (hbuckets : v'.numBuckets = v.numBuckets)
    (hcommitted : v'.committed = v.committed) : Touches v v' (· = page) where
  numBuckets := hbuckets
  committed := hcommitted
  stamp q := by
    rw [newest_of_update hown hcommitted]
    by_cases hq : q = page
    · rw [hq, update_self, hstamp]
    · rw [update_of_ne hq]
  kept q hq := by
    rw [hown]
    by_cases hqp : q = page
    · rw [hqp, update_self]
      rfl
    · rwa [update_of_ne hqp]
  only q hq := by
    by_cases hqp : q = page
    · exact .inr hqp
    · rw [hown, update_of_ne hqp] at hq
      exact .inl hq

variable (v page)

lemma touches_createNewVersion : Touches v (v.createNewVersion page) (· = page) :=
  touches_update rfl rfl rfl rfl

lemma touches_write (p : Page) : Touches v (v.write page p) (· = page) :=
  touches_update rfl rfl rfl rfl

lemma own_createNewVersion_self : ((v.createNewVersion page).own page).isSome := by
  rw [own_createNewVersion, update_self]
  rfl

variable {v page}

lemma allocateOverflowPage_of_lt (h : v.numPages < pageLimit) : v.allocateOverflowPage =
      .ok (v.numPages, ({ v with numPages := v.numPages + 1 }.createNewVersion v.numPages).write
        v.numPages .zero) := by
  have hadd : v.file.addNewPage = .ok (v.numPages, { v.file with numPages := v.numPages + 1 }) := if_pos h
  rw [allocateOverflowPage, hadd]
  rfl

lemma allocateOverflowPage_of_le (h : pageLimit ≤ v.numPages) :
    v.allocateOverflowPage = .error (.internal "capacity overflow") := by
  have hadd : v.file.addNewPage = .error (.internal "capacity overflow") := if_neg (not_lt.2 h)
  rw [allocateOverflowPage, hadd]
  rfl

inductive Round (hash : StoredValue → UInt64) (key : StoredValue) (row : UInt64) (fuel page : ℕ)
    (v : IndexVersions) (r : Except LightningError Unit) (v' : IndexVersions) : Prop where
  /-- The round is the last. -/
  | done : Touches v v' (· = page) → (v'.own page).isSome → v'.numPages = v.numPages →
      Round hash key row fuel page v r v'
  /-- The chain goes on. -/
  | next : ¬ (v.newest page).page.numEntries < maxEntriesPerPage → v.file.nextOf page ≠ 0 →
      insertLoop hash key row fuel (v.file.nextOf page) (v.createNewVersion page) = some (r, v') →
      Round hash key row fuel page v r v'
  /-- The chain goes on with a new page. -/
  | overflow (w : IndexVersions) : ¬ (v.newest page).page.numEntries < maxEntriesPerPage →
      v.file.nextOf page = 0 →
      Touches v w (fun q => q = page ∨ q = v.numPages) → (w.own page).isSome →
      w.numPages = v.numPages + 1 → (page ≠ v.numPages → (w.newest v.numPages).page = .zero) →
      insertLoop hash key row fuel v.numPages w = some (r, v') → Round hash key row fuel page v r v'

variable {r : Except LightningError Unit}

lemma insertLoop_round (h : insertLoop hash key row (fuel + 1) page v = some (r, v')) :
    Round hash key row fuel page v r v' := by
  rw [insertLoop] at h
  rw [newest_createNewVersion] at h
  have hcopy := touches_createNewVersion v page
  have hself := own_createNewVersion_self v page
  by_cases hfull : (v.newest page).page.numEntries < maxEntriesPerPage
  · rw [if_pos hfull] at h
    cases hkey : key.serializeValue with
    | error e =>
      rw [hkey] at h
      cases h
      exact .done hcopy hself rfl
    | ok buf =>
      rw [hkey] at h
      cases h
      have hwrite := touches_write (v.createNewVersion page) page
      exact .done (hcopy.trans (hwrite _)) ((hwrite _).kept page hself) rfl
  · rw [if_neg hfull] at h
    by_cases hend : (v.newest page).page.nextPage = 0
    · rw [if_pos hend] at h
      rcases lt_or_ge v.numPages pageLimit with hlimit | hlimit
      · rw [allocateOverflowPage_of_lt (v := v.createNewVersion page) hlimit] at h
        -- the new page is written, then the link to it
        have hgrow : Touches (v.createNewVersion page)
            { v.createNewVersion page with numPages := v.numPages + 1 } (· = v.numPages) :=
          ⟨rfl, rfl, fun _ => rfl, fun _ hq => hq, fun _ hq => .inl hq⟩
        have hnew := (hgrow.trans (touches_createNewVersion _ v.numPages)).trans
          (touches_write _ v.numPages .zero)
        refine .overflow _ hfull hend (((hcopy.mono fun q hq => .inl hq).trans
          (hnew.mono fun q hq => .inr hq)).trans
          (((touches_createNewVersion _ page).trans (touches_write _ page _)).mono fun q hq => .inl hq))
          ?_ rfl (fun hne => ?_) h
        · rw [own_write, update_self]
          rfl
        · change (file (write _ _ _)).pages _ = _
          rw [file_write, setPage_pages_of_ne hne.symm, file_createNewVersion, file_write]
          exact setPage_pages_self _
      · rw [allocateOverflowPage_of_le (v := v.createNewVersion page) hlimit] at h
        cases h
        exact .done hcopy hself rfl
    · rw [if_neg hend] at h
      exact .next hfull hend h

/-- **The pages that an insertion makes versions of** are on the chain, or new. -/
lemma touches_insertLoop (hl : Linked v.file.nextOf page l) (hinside : ∀ q ∈ l, q < v.numPages)
    (h : insertLoop hash key row fuel page v = some (r, v')) :
    Touches v v' (fun q => q ∈ l ∨ q = v.numPages ∧ v'.numPages ≠ v.numPages) ∧ (v'.own page).isSome ∧
      (v'.numPages ≠ v.numPages → (v'.own v.numPages).isSome) := by
  generalize hf : v.file = f at hl
  induction hl generalizing fuel v with
  | @last page hend =>
    cases fuel with
    | zero => cases h
    | succ fuel =>
      have hpage : page ∈ [page] := mem_singleton.2 rfl
      cases insertLoop_round h with
      | done htouch hown hnum =>
        exact ⟨htouch.mono fun q hq => .inl (mem_singleton.2 hq), hown, fun h => absurd hnum h⟩
      | next _ hnext _ => exact absurd (hf ▸ hend) hnext
      | overflow w _ _ htouch hown hnum hzero hgo =>
        -- there is room on the new page, so that the next round is the last
        have hzero := hzero (ne_of_lt (hinside page hpage))
        cases fuel with
        | zero => cases hgo
        | succ fuel =>
          have hroom : (w.newest v.numPages).page.numEntries < maxEntriesPerPage := by
            rw [hzero]
            decide
          cases insertLoop_round hgo with
          | done hentry hnew hnum' =>
            have hchanged : v'.numPages ≠ v.numPages := by
              rw [hnum', hnum]
              exact Nat.succ_ne_self _
            refine ⟨(htouch.mono fun q hq => ?_).trans (hentry.mono fun q hq => .inr ⟨hq, hchanged⟩),
              hentry.kept page hown, fun _ => hnew⟩
            exact hq.imp mem_singleton.2 fun hq => ⟨hq, hchanged⟩
          | next hfull | overflow _ hfull => exact absurd hroom hfull
  | @cons page l hnext hrest ih =>
    cases fuel with
    | zero => cases h
    | succ fuel =>
      cases insertLoop_round h with
      | done htouch hown hnum =>
        refine ⟨htouch.mono fun q hq => .inl ?_, hown, fun h => absurd hnum h⟩
        rw [hq]
        exact mem_cons_self
      | next _ _ hgo =>
        have hfile : (v.createNewVersion page).file = f := by rw [file_createNewVersion, hf]
        rw [hf] at hgo
        obtain ⟨htouch, -, hnew⟩ := ih (v := v.createNewVersion page)
          (fun q hq => hinside q (mem_cons_of_mem _ hq)) hgo hfile
        refine ⟨((touches_createNewVersion v page).mono fun q hq => ?_).trans
          (htouch.mono fun q hq => ?_), htouch.kept page (own_createNewVersion_self v page), hnew⟩
        · rw [hq]
          exact .inl mem_cons_self
        · exact hq.imp_left (mem_cons_of_mem _)
      | overflow _ _ hend _ _ _ _ _ => exact absurd (hf ▸ hend) hnext

/-- Whatever the pages say, the header and what is committed stay. -/
lemma touches_insertLoop_of_ne (hpage : page ≠ 0) (hnum : v.numPages ≠ 0)
    (h : insertLoop hash key row fuel page v = some (r, v')) :
    Touches v v' (· ≠ 0) ∧ v.numPages ≤ v'.numPages := by
  induction fuel generalizing page v with
  | zero => cases h
  | succ fuel ih =>
    cases insertLoop_round h with
    | done htouch _ hnum' => exact ⟨htouch.mono fun q hq => hq ▸ hpage, hnum'.ge⟩
    | next _ hnext hgo =>
      obtain ⟨htouch, hle⟩ := ih hnext (v := v.createNewVersion page) hnum hgo
      exact ⟨((touches_createNewVersion v page).mono fun q hq => hq ▸ hpage).trans htouch, hle⟩
    | overflow w _ _ htouch _ hnum' _ hgo =>
      obtain ⟨hrest, hle⟩ := ih hnum (hnum' ▸ Nat.succ_ne_zero _) hgo
      refine ⟨(htouch.mono fun q hq => ?_).trans hrest, ?_⟩
      · rcases hq with rfl | rfl
        · exact hpage
        · exact hnum
      · rw [hnum'] at hle
        exact (Nat.le_succ _).trans hle

end IndexVersions

/-! ## Files over a file -/

/-- A file of which some pages are versions of one's own, over the file as it is committed: in the buckets
of which the first page is one's own, pairs have been added, and the others are as they are. -/
structure Over (hash : StoredValue → UInt64) (lossy : List UInt8 → String) (f : HashIndex)
    (chain : ℕ → List ℕ) (owned : ℕ → Bool) (g : HashIndex) (chain' : ℕ → List ℕ)
    (m : Multiset (StoredValue × UInt64)) : Prop where
  represents : Represents hash lossy g chain' m
  numPages : g.numPages = f.numPages
  same : ∀ q, owned q = false → g.pages q = f.pages q
  untouched : ∀ b ∈ List.range' 1 f.headerBuckets, owned b = false → chain' b = chain b
  inBucket : ∀ q, owned q = true → ∃ b ∈ List.range' 1 g.headerBuckets, owned b = true ∧ q ∈ chain' b
  news : ∀ b ∈ List.range' 1 f.headerBuckets, ∀ q ∈ chain' b, q ∈ chain b ∨ owned q = true

namespace Over

variable {f g g₁ g₂ k : HashIndex}
variable {chain chain' chain₁ chain₂ : ℕ → List ℕ} {owned owned₁ owned₂ : ℕ → Bool}
variable {m p₁ p₂ : Multiset (StoredValue × UInt64)}

lemma refl (h : Represents hash lossy f chain m) :
    Over hash lossy f chain (fun _ => false) f chain m where
  represents := h
  numPages := rfl
  same _ _ := rfl
  untouched _ _ _ := rfl
  inBucket _ hq := absurd hq Bool.false_ne_true
  news _ _ _ hq := .inl hq

section

variable (h : Over hash lossy f chain owned g chain' m)
include h

lemma owned_zero : owned 0 = false := by
  by_contra hq
  obtain ⟨b, hb, -, hmem⟩ := h.inBucket 0 (Bool.eq_true_of_not_eq_false hq)
  exact absurd (h.represents.inside b hb 0 hmem).1 (lt_irrefl 0)

lemma headerBuckets : g.headerBuckets = f.headerBuckets := headerBuckets_congr (h.same 0 h.owned_zero)

lemma not_owned {b q : ℕ} (hb : b ∈ List.range' 1 f.headerBuckets) (hown : owned b = false)
    (hq : q ∈ chain b) : owned q = false := by
  by_contra hq'
  obtain ⟨c, hc, hcown, hmem⟩ := h.inBucket q (Bool.eq_true_of_not_eq_false hq')
  rw [← h.untouched b hb hown] at hq
  rw [h.represents.apart b (h.headerBuckets ▸ hb) c hc q hq hmem, hcown] at hown
  cases hown

lemma bucketPairs_eq {b : ℕ} (hb : b ∈ List.range' 1 f.headerBuckets) (hown : owned b = false) :
    bucketPairs lossy g (chain' b) = bucketPairs lossy f (chain b) := by
  rw [h.untouched b hb hown]
  exact bucketPairs_congr fun q hq => h.same q (h.not_owned hb hown hq)

lemma grow {f' g' : HashIndex} (hf : f'.pages = f.pages) (hg : g'.pages = g.pages)
    (hnum : g.numPages ≤ g'.numPages) (heq : g'.numPages = f'.numPages) :
    Over hash lossy f' chain owned g' chain' m := by
  have hheader : f'.headerBuckets = f.headerBuckets := headerBuckets_congr (by rw [hf])
  have hheader' : g'.headerBuckets = g.headerBuckets := headerBuckets_congr (by rw [hg])
  refine ⟨h.represents.of_pages hg hnum, heq, ?_, ?_, ?_, ?_⟩
  · rw [hf, hg]
    exact h.same
  · rw [hheader]
    exact h.untouched
  · rw [hheader']
    exact h.inBucket
  · rw [hheader]
    exact h.news

end

lemma flatMap_add {A B C D : ℕ → List (StoredValue × UInt64)} {l : List ℕ}
    (h : ∀ b ∈ l, (A b : Multiset (StoredValue × UInt64)) + B b = C b + D b) :
    (l.flatMap A : Multiset (StoredValue × UInt64)) + l.flatMap B = l.flatMap C + l.flatMap D := by
  induction l with
  | nil => rfl
  | cons b l ih =>
    have hb := h b mem_cons_self
    have hl := ih fun c hc => h c (mem_cons_of_mem _ hc)
    simp only [flatMap_cons, ← Multiset.coe_add]
    rw [add_add_add_comm, hb, hl, add_add_add_comm]

section Merge

/-- The chains after both have committed: the second's, where it has begun with the bucket. -/
def mergedChain (owned₂ : ℕ → Bool) (chain₁ chain₂ : ℕ → List ℕ) (b : ℕ) : List ℕ :=
  if owned₂ b then chain₂ b else chain₁ b

variable (hf : Represents hash lossy f chain m)
  (h₁ : Over hash lossy f chain owned₁ g₁ chain₁ (m + p₁))
  (h₂ : Over hash lossy f chain owned₂ g₂ chain₂ (m + p₂))
  (hapart : ∀ q, owned₁ q = true → owned₂ q = false) (hnum : k.numPages = f.numPages)
  (hpages : ∀ q, k.pages q = if owned₂ q then g₂.pages q else g₁.pages q)
  {b : ℕ} (hb : b ∈ List.range' 1 f.headerBuckets)

include hapart in
lemma not_owned_first {q : ℕ} (hq : owned₂ q = true) : owned₁ q = false := by
  by_contra hq'
  rw [hapart q (Bool.eq_true_of_not_eq_false hq')] at hq
  cases hq

include h₁ h₂ hpages in
lemma headerBuckets_merge : k.headerBuckets = f.headerBuckets := by
  refine (headerBuckets_congr ?_).trans h₁.headerBuckets
  rw [hpages, h₂.owned_zero, if_neg Bool.false_ne_true]

include h₁ h₂ hapart hpages hb in
/-- On the chain of a bucket that the second has begun with, the pages are the second's. -/
lemma pages_second (hown : owned₂ b = true) {q : ℕ} (hq : q ∈ chain₂ b) :
    k.pages q = g₂.pages q := by
  rw [hpages]
  split
  · rfl
  next hq₂ =>
    -- a page of it that is not the second's own is as it was, and the first has not touched it
    have hq₂ : owned₂ q = false := Bool.eq_false_of_not_eq_true hq₂
    have hchain : q ∈ chain b :=
      (h₂.news b hb q hq).resolve_right (by rw [hq₂]; exact Bool.false_ne_true)
    rw [h₁.same q (h₁.not_owned hb (not_owned_first hapart hown) hchain), h₂.same q hq₂]

include h₁ h₂ hapart hb in
lemma not_owned_second (hown : owned₂ b = false) {q : ℕ} (hq : q ∈ chain₁ b) :
    owned₂ q = false := by
  rcases h₁.news b hb q hq with hq' | hq'
  · exact h₂.not_owned hb hown hq'
  · exact hapart q hq'

include h₁ h₂ hapart hpages hb in
/-- On the other chains they are the first's. -/
lemma pages_first (hown : owned₂ b = false) {q : ℕ} (hq : q ∈ chain₁ b) :
    k.pages q = g₁.pages q := by
  rw [hpages, not_owned_second h₁ h₂ hapart hb hown hq, if_neg Bool.false_ne_true]

include h₁ h₂ hapart hpages hb in
/-- Every chain is one of the file of the first or of the second, with its pages. -/
lemma chain_side : ∃ g c m', Represents hash lossy g c m' ∧ g.headerBuckets = f.headerBuckets ∧
    g.numPages = f.numPages ∧ mergedChain owned₂ chain₁ chain₂ b = c b ∧
      ∀ q ∈ c b, k.pages q = g.pages q := by
  cases hown : owned₂ b with
  | true =>
    exact ⟨g₂, chain₂, _, h₂.represents, h₂.headerBuckets, h₂.numPages, by simp [mergedChain, hown],
      fun q hq => pages_second h₁ h₂ hapart hpages hb hown hq⟩
  | false =>
    exact ⟨g₁, chain₁, _, h₁.represents, h₁.headerBuckets, h₁.numPages, by simp [mergedChain, hown],
      fun q hq => pages_first h₁ h₂ hapart hpages hb hown hq⟩

include h₁ h₂ hapart hb in
/-- A page of both kinds of buckets would be of the committed chain of the first kind. -/
lemma apart_merge {c q : ℕ} (hc : c ∈ List.range' 1 f.headerBuckets)
    (hqb : q ∈ mergedChain owned₂ chain₁ chain₂ b) (hqc : q ∈ mergedChain owned₂ chain₁ chain₂ c) :
    b = c := by
  have hcross : ∀ b ∈ range' 1 f.headerBuckets, ∀ c ∈ range' 1 f.headerBuckets,
      owned₂ b = true → owned₂ c = false → q ∈ chain₂ b → q ∈ chain₁ c → b = c := by
    intro b hb c hc hbown hcown hqb hqc
    have hq : q ∈ chain b := (h₂.news b hb q hqb).resolve_right
      (by rw [not_owned_second h₁ h₂ hapart hc hcown hqc]; exact Bool.false_ne_true)
    rw [← h₁.untouched b hb (not_owned_first hapart hbown)] at hq
    exact h₁.represents.apart b (h₁.headerBuckets ▸ hb) c (h₁.headerBuckets ▸ hc) q hq hqc
  unfold mergedChain at hqb hqc
  split at hqb <;> split at hqc
  · exact h₂.represents.apart b (h₂.headerBuckets ▸ hb) c (h₂.headerBuckets ▸ hc) q hqb hqc
  next hbown hcown => exact hcross b hb c hc hbown (Bool.eq_false_of_not_eq_true hcown) hqb hqc
  next hbown hcown =>
    exact (hcross c hc b hb hcown (Bool.eq_false_of_not_eq_true hbown) hqc hqb).symm
  · exact h₁.represents.apart b (h₁.headerBuckets ▸ hb) c (h₁.headerBuckets ▸ hc) q hqb hqc

include hf h₁ h₂ hapart hpages in
/-- The pairs of both are there: bucket by bucket, one of them has what was there before. -/
lemma content_merge : (allPairs lossy k (mergedChain owned₂ chain₁ chain₂) :
    Multiset (StoredValue × UInt64)) = m + p₁ + p₂ := by
  have hsum : (allPairs lossy k (mergedChain owned₂ chain₁ chain₂) :
      Multiset (StoredValue × UInt64)) + allPairs lossy f chain =
        allPairs lossy g₁ chain₁ + allPairs lossy g₂ chain₂ := by
    rw [allPairs, allPairs, allPairs, allPairs, headerBuckets_merge h₁ h₂ hpages, h₁.headerBuckets,
      h₂.headerBuckets]
    refine flatMap_add fun b hb => ?_
    cases hown : owned₂ b with
    | true =>
      rw [mergedChain, if_pos hown, h₁.bucketPairs_eq hb (not_owned_first hapart hown),
        bucketPairs_congr fun q => pages_second h₁ h₂ hapart hpages hb hown]
      exact add_comm _ _
    | false =>
      rw [mergedChain, hown, if_neg Bool.false_ne_true, h₂.bucketPairs_eq hb hown,
        bucketPairs_congr fun q => pages_first h₁ h₂ hapart hpages hb hown]
  rw [hf.content, h₁.represents.content, h₂.represents.content] at hsum
  refine add_right_cancel (hsum.trans ?_)
  rw [add_comm m p₂, ← add_assoc]

include hf h₁ h₂ hapart hnum hpages in
lemma represents_merge :
    Represents hash lossy k (mergedChain owned₂ chain₁ chain₂) (m + p₁ + p₂) := by
  have hheader := headerBuckets_merge h₁ h₂ hpages
  constructor
  · rw [hheader]
    exact hf.buckets
  · rw [hheader]
    intro b hb
    obtain ⟨g, c, _, hg, hbuckets, -, heq, hsame⟩ := chain_side h₁ h₂ hapart hpages hb
    rw [heq]
    refine (hg.linked b (hbuckets ▸ hb)).congr fun q hq => ?_
    rw [nextOf, hsame q hq, nextOf]
  · rw [hheader]
    intro b hb
    obtain ⟨g, c, _, hg, hbuckets, -, heq, -⟩ := chain_side h₁ h₂ hapart hpages hb
    rw [heq]
    exact hg.nodup b (hbuckets ▸ hb)
  · rw [hheader]
    exact fun b hb c hc q => apart_merge h₁ h₂ hapart hb hc
  · rw [hheader, hnum]
    intro b hb q hq
    obtain ⟨g, c, _, hg, hbuckets, hsize, heq, -⟩ := chain_side h₁ h₂ hapart hpages hb
    rw [heq] at hq
    exact hsize ▸ hg.inside b (hbuckets ▸ hb) q hq
  · rw [hheader]
    intro b hb q hq
    obtain ⟨g, c, _, hg, hbuckets, -, heq, hsame⟩ := chain_side h₁ h₂ hapart hpages hb
    rw [heq] at hq
    rw [hsame q hq, ← hbuckets]
    exact hg.page b (hbuckets ▸ hb) q hq
  · exact content_merge hf h₁ h₂ hapart hpages

include hf h₁ h₂ hapart hnum hpages in
/-- **Two transactions with no page in common.**  What the one has committed does not hurt the other. -/
theorem merge : Over hash lossy g₁ chain₁ owned₂ k (mergedChain owned₂ chain₁ chain₂)
    (m + p₁ + p₂) where
  represents := represents_merge hf h₁ h₂ hapart hnum hpages
  numPages := by rw [hnum, h₁.numPages]
  same q hq := by rw [hpages, hq, if_neg Bool.false_ne_true]
  untouched b _ hown := by rw [mergedChain, hown, if_neg Bool.false_ne_true]
  inBucket q hq := by
    obtain ⟨b, hb, hown, hmem⟩ := h₂.inBucket q hq
    refine ⟨b, headerBuckets_merge h₁ h₂ hpages ▸ h₂.headerBuckets ▸ hb, hown, ?_⟩
    rwa [mergedChain, if_pos hown]
  news := by
    rw [h₁.headerBuckets]
    intro b hb q hq
    unfold mergedChain at hq
    split at hq
    next hown =>
      rw [h₁.untouched b hb (not_owned_first hapart hown)]
      exact h₂.news b hb q hq
    · exact .inl hq

end Merge

/-- **An insertion over the committed file.** -/
theorem insert {key : StoredValue} {row : UInt64} {r : Except LightningError Unit} {g' : HashIndex}
    {l' : List ℕ} {b : ℕ} (h : Over hash lossy f chain owned g chain' m) (f' : HashIndex)
    (owned' : ℕ → Bool) (hbucket : b ∈ range' 1 g.headerBuckets)
    (hins : Inserts hash lossy g.headerBuckets b key row g b (chain' b) r g' l')
    (hpages : f'.pages = f.pages) (hnum : g'.numPages = f'.numPages)
    (hsame : ∀ q, owned' q = false → g'.pages q = f.pages q)
    (hkept : ∀ q, owned q = true → owned' q = true)
    (hfirst : owned' b = true)
    (honly : ∀ q, owned' q = true → owned q = true ∨ q ∈ chain' b ∨
      q = g.numPages ∧ g'.numPages ≠ g.numPages)
    (hnew : g'.numPages ≠ g.numPages → owned' g.numPages = true) :
    ∃ m', Over hash lossy f' chain owned' g' (update chain' b l') m' ∧
      (r = .ok () ∧ m' = (key, row) ::ₘ m ∨ (∃ e, r = .error e) ∧ m' = m) := by
  obtain ⟨m', hrep, hm'⟩ := h.represents.inserts hbucket hins
  have hheader : f'.headerBuckets = f.headerBuckets := headerBuckets_congr (by rw [hpages])
  have hmem : ∀ q, q ∈ l' ↔ q ∈ chain' b ∨ q = g.numPages ∧ g'.numPages ≠ g.numPages := by
    intro q
    rcases hins.grown with ⟨hl', hsize⟩ | ⟨hl', hsize, -⟩
    · rw [hl']
      exact ⟨.inl, fun hq => hq.resolve_right fun hq => hq.2 hsize⟩
    · rw [hl', mem_append, mem_singleton, hsize]
      exact or_congr_right ⟨fun hq => ⟨hq, Nat.succ_ne_self _⟩, And.left⟩
  have hheader' : g'.headerBuckets = g.headerBuckets := by
    -- the header page is in no chain, so the insertion has no copy of it
    have hzero : owned' 0 = false := by
      by_contra hq
      rcases honly 0 (Bool.eq_true_of_not_eq_false hq) with hq | hq | ⟨hq, -⟩
      · rw [h.owned_zero] at hq
        cases hq
      · exact absurd (h.represents.inside b hbucket 0 hq).1 (lt_irrefl 0)
      · have hlt := (h.represents.inside b hbucket b (h.represents.linked b hbucket).mem_head).2
        exact absurd (hq ▸ hlt) (Nat.not_lt_zero b)
    exact (headerBuckets_congr (hsame 0 hzero)).trans h.headerBuckets.symm
  refine ⟨m', ⟨hrep, hnum, ?_, ?_, ?_, ?_⟩, ?_⟩
  · rw [hpages]
    exact hsame
  · rw [hheader]
    intro c hc hown
    have hcb : c ≠ b := fun heq => by
      rw [heq, hfirst] at hown
      cases hown
    rw [update_of_ne hcb]
    refine h.untouched c hc (Bool.eq_false_of_not_eq_true fun hc' => ?_)
    rw [hkept c hc'] at hown
    cases hown
  · rw [hheader']
    intro q hq
    rcases honly q hq with hq | hq
    · obtain ⟨c, hc, hcown, hqc⟩ := h.inBucket q hq
      refine ⟨c, hc, hkept c hcown, ?_⟩
      by_cases hcb : c = b
      · rw [hcb, update_self]
        exact (hmem q).2 (.inl (hcb ▸ hqc))
      · rwa [update_of_ne hcb]
    · refine ⟨b, hbucket, hfirst, ?_⟩
      rw [update_self]
      exact (hmem q).2 hq
  · rw [hheader]
    intro c hc q hq
    rcases of_mem_update hq with ⟨hcb, hq⟩ | ⟨-, hq⟩
    · rcases (hmem q).1 hq with hq | ⟨rfl, hgrown⟩
      · exact (h.news c hc q (hcb ▸ hq)).imp_right (hkept q)
      · exact .inr (hnew hgrown)
    · exact (h.news c hc q hq).imp_right (hkept q)
  · refine hm'.imp (fun hok => ⟨hok.1, hok.2.2⟩) fun herr => ⟨?_, herr.2⟩
    obtain ⟨⟨e, he, -⟩, -⟩ := herr
    exact ⟨e, he⟩

end Over

/-! ## Transactions on one index -/

/-- An index with the versions of every transaction, the commit clock, and what has been inserted: by the
transactions that have committed, and by each that has not. -/
structure SharedIndex where
  numBuckets : ℕ
  numPages : ℕ
  committed : ℕ → PageVersion
  own : ℕ → ℕ → Option PageVersion
  currentTs : ℕ
  stored : Multiset (StoredValue × UInt64)
  pending : ℕ → Multiset (StoredValue × UInt64)

inductive IndexCall where
  | insert (tx : ℕ) (key : StoredValue) (row : UInt64)
  | commit (tx : ℕ)

namespace SharedIndex

variable (s : SharedIndex)

/-- The file for one of the transactions. -/
def view (tx : ℕ) : IndexVersions := ⟨s.numBuckets, s.numPages, s.committed, s.own tx⟩

/-- The file for a transaction that begins now. -/
def latest : HashIndex := ⟨s.numBuckets, s.numPages, fun q => (s.committed q).page⟩

/-- `commit`, as far as the pages of an index go: the versions of the transaction get the commit's
timestamp. -/
def commit (tx : ℕ) : SharedIndex :=
  { s with
    committed := fun q =>
      match s.own tx q with
      | some o => ⟨o.page, s.currentTs + 1⟩
      | none => s.committed q
    own := update s.own tx fun _ => none
    currentTs := s.currentTs + 1
    stored := s.stored + s.pending tx
    pending := update s.pending tx 0 }

/-- After an insertion of a transaction, with its result and the file it leaves. -/
def afterInsert (tx : ℕ) (key : StoredValue) (row : UInt64) (r : Except LightningError Unit)
    (v : IndexVersions) : SharedIndex :=
  { s with
    numPages := v.numPages
    committed := v.committed
    own := update s.own tx v.own
    pending := if r = .ok () then update s.pending tx ((key, row) ::ₘ s.pending tx) else s.pending }

/-- `insert`. -/
def insert (hash : StoredValue → UInt64) (tx : ℕ) (key : StoredValue) (row : UInt64) : Option SharedIndex :=
  ((s.view tx).insert hash (s.numPages + 1) key row).map fun (r, v) => s.afterInsert tx key row r v

/-- Nobody has committed to a page since the transaction has copied it. -/
def Fresh (tx : ℕ) : Prop := ∀ q o, s.own tx q = some o → o.stamp = (s.committed q).stamp

end SharedIndex

/-- Transactions on an index that is in order and that nobody has begun to change. -/
def indexSystem (hash : StoredValue → UInt64) (lossy : List UInt8 → String) : System SharedIndex IndexCall where
  init s := (∃ chain, Represents hash lossy s.latest chain s.stored) ∧ (∀ tx q, s.own tx q = none) ∧
    (∀ tx, s.pending tx = 0) ∧ ∀ q, (s.committed q).stamp ≤ s.currentTs
  step s
    | .insert tx key row => s.insert hash tx key row
    | .commit tx => some (s.commit tx)

namespace SharedIndex

variable {s s' : SharedIndex} {tx : ℕ}

/-- Whether a transaction has a version of a page. -/
def owned (s : SharedIndex) (tx q : ℕ) : Bool := (s.own tx q).isSome

/-- What holds in every state: the committed file is in order, and so is the file of every transaction
whose versions are fresh. -/
structure Sound (hash : StoredValue → UInt64) (lossy : List UInt8 → String) (s : SharedIndex)
    (chain : ℕ → List ℕ) : Prop where
  latest : Represents hash lossy s.latest chain s.stored
  header : ∀ tx, s.own tx 0 = none
  clock : ∀ q, (s.committed q).stamp ≤ s.currentTs
  ownClock : ∀ tx q o, s.own tx q = some o → o.stamp ≤ s.currentTs
  fresh : ∀ tx, s.Fresh tx → ∃ chain', Over hash lossy s.latest chain (s.owned tx) (s.view tx).file chain'
    (s.stored + s.pending tx)

lemma latest_commit (s : SharedIndex) (tx : ℕ) : (s.commit tx).latest = (s.view tx).file := by
  rw [SharedIndex.latest]
  congr 1
  funext q
  rw [IndexVersions.newest, view, commit]
  dsimp only
  cases s.own tx q <;> rfl

lemma file_pages (s : SharedIndex) (tx q : ℕ) :
    (s.view tx).file.pages q = ((s.own tx q).getD (s.committed q)).page := rfl

variable {chain : ℕ → List ℕ}

/-- A transaction without versions of its own sees the committed file. -/
lemma over_of_none {m : Multiset (StoredValue × UInt64)}
    (hown : s.own tx = fun _ => none) (h : Represents hash lossy s.latest chain m) :
    Over hash lossy s.latest chain (s.owned tx) (s.view tx).file chain m := by
  have howned : s.owned tx = fun _ => false := by
    funext q
    rw [owned, hown]
    rfl
  have hfile : (s.view tx).file = s.latest := by
    rw [view, hown]
    rfl
  rw [howned, hfile]
  exact Over.refl h

/-- After a commit, versions that are fresh have no page in common with those that were committed. -/
lemma Sound.fresh_commit (h : Sound hash lossy s chain) {other : ℕ} (hne : other ≠ tx)
    (hfresh : (s.commit tx).Fresh other) :
    s.Fresh other ∧ ∀ q, s.owned tx q = true → s.owned other q = false := by
  have hown : (s.commit tx).own other = s.own other := update_of_ne hne ..
  have hnone : ∀ q o, s.own other q = some o → s.own tx q = none := by
    intro q o ho
    have hstamp := hfresh q o (by rw [hown]; exact ho)
    cases htx : s.own tx q with
    | none => rfl
    | some o' =>
      rw [commit] at hstamp
      dsimp only at hstamp
      rw [htx] at hstamp
      have hle := h.ownClock other q o ho
      dsimp only at hstamp
      omega
  refine ⟨fun q o ho => ?_, fun q hq => ?_⟩
  · have hstamp := hfresh q o (by rw [hown]; exact ho)
    rw [commit] at hstamp
    dsimp only at hstamp
    rwa [hnone q o ho] at hstamp
  · cases ho : s.own other q with
    | none => rw [owned, ho]; rfl
    | some o =>
      rw [owned, hnone q o ho] at hq
      cases hq

/-- **A commit of fresh versions.** -/
theorem Sound.commit (h : Sound hash lossy s chain) (hfresh : s.Fresh tx) :
    ∃ chain', Sound hash lossy (s.commit tx) chain' := by
  obtain ⟨chain₁, h₁⟩ := h.fresh tx hfresh
  have hlatest := latest_commit s tx
  refine ⟨chain₁, ?_, fun other => ?_, fun q => ?_, fun other q o ho => ?_, fun other hother => ?_⟩
  · rw [hlatest]
    exact h₁.represents
  · by_cases hne : other = tx
    · rw [hne]
      exact congrFun (update_self tx _ s.own) 0
    · exact (congrFun (update_of_ne hne _ s.own) 0).trans (h.header other)
  · rw [SharedIndex.commit]
    dsimp only
    split
    · exact le_refl _
    · exact (h.clock q).trans (Nat.le_succ _)
  · have hne : other ≠ tx := by
      rintro rfl
      rw [SharedIndex.commit] at ho
      dsimp only at ho
      rw [update_self] at ho
      cases ho
    refine (h.ownClock other q o ?_).trans (Nat.le_succ _)
    exact (congrFun (update_of_ne hne _ s.own) q).symm.trans ho
  · by_cases hne : other = tx
    · have hown : (s.commit tx).own other = fun _ => none := by
        rw [hne]
        exact update_self tx _ s.own
      have hpending : (s.commit tx).pending other = 0 := by
        rw [hne]
        exact update_self tx _ s.pending
      rw [hpending, add_zero]
      refine ⟨chain₁, over_of_none hown ?_⟩
      rw [hlatest]
      exact h₁.represents
    · obtain ⟨hfresh', hapart⟩ := h.fresh_commit hne hother
      obtain ⟨chain₂, h₂⟩ := h.fresh other hfresh'
      have hown : (s.commit tx).own other = s.own other := update_of_ne hne ..
      have howned : (s.commit tx).owned other = s.owned other := by
        funext q
        rw [owned, hown, owned]
      have hpending : (s.commit tx).pending other = s.pending other := update_of_ne hne ..
      have hpages : ∀ q, ((s.commit tx).view other).file.pages q =
          if s.owned other q then (s.view other).file.pages q else (s.view tx).file.pages q := by
        intro q
        rw [file_pages, hown, ← hlatest, owned, file_pages]
        cases s.own other q <;> rfl
      rw [hlatest, howned, hpending]
      exact ⟨_, Over.merge h.latest h₁ h₂ hapart rfl hpages⟩

section AfterInsert

variable {r : Except LightningError Unit} {v : IndexVersions}

lemma own_afterInsert_self : (s.afterInsert tx key row r v).own tx = v.own := update_self tx ..

lemma own_afterInsert {other : ℕ} (hne : other ≠ tx) :
    (s.afterInsert tx key row r v).own other = s.own other := update_of_ne hne ..

lemma pending_afterInsert {other : ℕ} (hne : other ≠ tx) :
    (s.afterInsert tx key row r v).pending other = s.pending other := by
  rw [afterInsert]
  split
  · exact update_of_ne hne ..
  · rfl

variable {pages : ℕ → Prop} (htouch : IndexVersions.Touches (s.view tx) v pages)
include htouch

lemma stamp_afterInsert {q : ℕ} {o : PageVersion} (ho : v.own q = some o) :
    o.stamp = ((s.own tx q).getD (s.committed q)).stamp := by
  have hstamp := htouch.stamp q
  rwa [IndexVersions.newest, ho] at hstamp

lemma pages_afterInsert : (s.afterInsert tx key row r v).latest.pages = s.latest.pages := by
  rw [SharedIndex.latest, afterInsert, htouch.committed]
  rfl

lemma fresh_afterInsert_iff : (s.afterInsert tx key row r v).Fresh tx ↔ s.Fresh tx := by
  have hcommitted : (s.afterInsert tx key row r v).committed = s.committed := htouch.committed
  unfold Fresh
  rw [own_afterInsert_self, hcommitted]
  refine ⟨fun hfresh q o ho => ?_, fun hfresh q o ho => ?_⟩
  · obtain ⟨o', ho'⟩ := isSome_iff_exists.1
      (htouch.kept q (by rw [show (s.view tx).own q = some o from ho]; rfl))
    rw [← hfresh q o' ho', stamp_afterInsert htouch ho', ho]
    rfl
  · rw [stamp_afterInsert htouch ho]
    cases hq : s.own tx q with
    | none => rfl
    | some o' => exact hfresh q o' hq

end AfterInsert

lemma Sound.over_insert
    {r : Except LightningError Unit} {v : IndexVersions} (h : Sound hash lossy s chain)
    (hfresh : s.Fresh tx) (hloop : IndexVersions.insertLoop hash key row (s.numPages + 1)
      (1 + (computeHash hash key).toNat % (s.view tx).file.headerBuckets) (s.view tx) = some (r, v))
    (hs' : s' = s.afterInsert tx key row r v) :
    ∃ chain', Over hash lossy s'.latest chain (s'.owned tx) (s'.view tx).file chain'
      (s.stored + s'.pending tx) := by
  obtain ⟨chain', hover⟩ := h.fresh tx hfresh
  have hrep := hover.represents
  have hb := hrep.bucket_mem key
  obtain ⟨r', f', l', hrun, hins⟩ := hrep.insertLoop_inserts (Nat.lt_succ_self _) key row rfl
  obtain ⟨htouch, hfirst, hnew⟩ := IndexVersions.touches_insertLoop (hrep.linked _ hb)
    (fun q hq => (hrep.inside _ hb q hq).2) hloop
  -- what the transaction sees is the insertion into its file
  have hsim : some (r, v.file) = some (r', f') := by
    rw [← hrun, ← IndexVersions.file_insertLoop]
    change _ = (IndexVersions.insertLoop hash key row (s.numPages + 1) _ (s.view tx)).map _
    rw [hloop]
    rfl
  obtain ⟨rfl, rfl⟩ := Prod.mk.inj (some.inj hsim)
  have hown : s'.own tx = v.own := hs' ▸ own_afterInsert_self
  have hcommitted : v.committed = s.committed := htouch.committed
  have howned : ∀ q, s'.owned tx q = (v.own q).isSome := by
    intro q
    rw [owned, hown]
  have hsame : ∀ q, s'.owned tx q = false → v.file.pages q = s.latest.pages q := by
    intro q hq
    rw [howned, isSome_eq_false_iff, isNone_iff_eq_none] at hq
    change ((v.own q).getD (v.committed q)).page = (s.committed q).page
    rw [hq, hcommitted]
    rfl
  have hnum : v.numPages = s'.numPages := by rw [hs']; rfl
  obtain ⟨m', hover', hm'⟩ := hover.insert s'.latest (s'.owned tx) hb hins (hs' ▸ pages_afterInsert htouch)
    hnum hsame (fun q hq => (howned q).trans (htouch.kept q hq)) ((howned _).trans hfirst)
    (fun q hq => htouch.only q ((howned q).symm.trans hq)) fun hne => (howned _).trans (hnew hne)
  have hview : (s'.view tx).file = v.file := by
    rw [view, hown, hs']
    exact congrArg (fun n => IndexVersions.file ⟨n, v.numPages, v.committed, v.own⟩)
      htouch.numBuckets.symm
  have hm : m' = s.stored + s'.pending tx := by
    rw [hs', afterInsert]
    dsimp only
    rcases hm' with ⟨hr, hm'⟩ | ⟨⟨e, rfl⟩, hm'⟩
    · rw [if_pos hr, update_self, hm', Multiset.add_cons]
    · rw [if_neg nofun, hm']
  rw [hview, ← hm]
  exact ⟨_, hover'⟩

lemma Sound.insert_eq (h : Sound hash lossy s chain) (hrun : s.insert hash tx key row = some s') :
    ∃ r v, s' = s.afterInsert tx key row r v ∧
      IndexVersions.insertLoop hash key row (s.numPages + 1)
        (1 + (computeHash hash key).toNat % (s.view tx).file.headerBuckets) (s.view tx) = some (r, v) ∧
      IndexVersions.Touches (s.view tx) v (· ≠ 0) ∧ s.numPages ≤ v.numPages := by
  have hheader : (s.view tx).file.headerBuckets = s.latest.headerBuckets := by
    rw [HashIndex.headerBuckets, file_pages, h.header tx]
    rfl
  have hbuckets : (s.view tx).file.headerBuckets ≠ 0 := by
    rw [hheader]
    exact ne_of_gt h.latest.buckets
  have hpos : s.numPages ≠ 0 := by
    have hb := h.latest.bucket_mem key
    exact ne_of_gt (Nat.zero_lt_of_lt (h.latest.inside _ hb _ (h.latest.linked _ hb).mem_head).2)
  rw [SharedIndex.insert, IndexVersions.insert, if_neg hbuckets] at hrun
  obtain ⟨⟨r, v⟩, hloop, hs'⟩ := map_eq_some_iff.1 hrun
  exact ⟨r, v, hs'.symm, hloop, IndexVersions.touches_insertLoop_of_ne (by omega) hpos hloop⟩

/-- **An insertion.** -/
theorem Sound.insert {chain : ℕ → List ℕ} {key : StoredValue} {row : UInt64} (h : Sound hash lossy s chain)
    (hrun : s.insert hash tx key row = some s') : Sound hash lossy s' chain := by
  obtain ⟨r, v, rfl, hloop, htouch, hnum⟩ := h.insert_eq hrun
  have hcommitted : (s.afterInsert tx key row r v).committed = s.committed := htouch.committed
  have hpages : (s.afterInsert tx key row r v).latest.pages = s.latest.pages := pages_afterInsert htouch
  refine ⟨h.latest.of_pages hpages hnum, fun other => ?_, fun q => ?_, fun other q o ho => ?_,
    fun other hother => ?_⟩
  · by_cases hne : other = tx
    · rw [hne, own_afterInsert_self]
      cases hv : v.own 0 with
      | none => rfl
      | some o =>
        rcases htouch.only 0 (by rw [hv]; rfl) with hzero | hzero
        · rw [show (s.view tx).own 0 = none from h.header tx] at hzero
          cases hzero
        · exact absurd rfl hzero
    · rw [own_afterInsert hne]
      exact h.header other
  · rw [hcommitted]
    exact h.clock q
  · by_cases hne : other = tx
    · rw [hne, own_afterInsert_self] at ho
      rw [stamp_afterInsert htouch ho]
      cases hq : s.own tx q with
      | none => exact h.clock q
      | some o' => exact h.ownClock tx q o' hq
    · rw [own_afterInsert hne] at ho
      exact h.ownClock other q o ho
  · by_cases hne : other = tx
    · rw [hne] at hother ⊢
      exact h.over_insert ((fresh_afterInsert_iff htouch).1 hother) hloop rfl
    · have hfresh : s.Fresh other := by
        intro q o ho
        rw [← hcommitted]
        exact hother q o (by rw [own_afterInsert hne]; exact ho)
      obtain ⟨chain', hover⟩ := h.fresh other hfresh
      have howned : (s.afterInsert tx key row r v).owned other = s.owned other := by
        funext q
        rw [owned, own_afterInsert hne, owned]
      have hview : ((s.afterInsert tx key row r v).view other).file.pages = (s.view other).file.pages := by
        funext q
        rw [file_pages, file_pages, own_afterInsert hne, hcommitted]
      rw [howned, pending_afterInsert hne]
      exact ⟨chain', hover.grow hpages hview hnum rfl⟩

end SharedIndex

def CommitsFresh (s : SharedIndex) (c : IndexCall) : Prop := ∀ tx, c = .commit tx → s.Fresh tx

variable {s : SharedIndex}

open SharedIndex in
/-- The invariant holds in every state that commits of fresh versions lead to. -/
lemma indexSystem_sound
    (hs : (indexSystem hash lossy).ReachableBy CommitsFresh s) : ∃ chain, Sound hash lossy s chain := by
  refine hs.invariant (I := fun s => ∃ chain, Sound hash lossy s chain) ?_ ?_
  · rintro s ⟨⟨chain, hlatest⟩, hown, hpending, hclock⟩
    refine ⟨chain, hlatest, fun tx => hown tx 0, hclock, fun tx q o ho => ?_, fun tx _ => ?_⟩
    · rw [hown tx q] at ho
      cases ho
    · rw [hpending tx, add_zero]
      exact ⟨chain, over_of_none (funext (hown tx)) hlatest⟩
  · rintro s c s' - ⟨chain, h⟩ hok hstep
    cases c with
    | insert tx key row => exact ⟨chain, h.insert hstep⟩
    | commit tx =>
      rw [← some.inj hstep]
      exact h.commit (hok tx rfl)

/-- **Insertions of concurrent transactions.**  If every transaction that commits does so before anybody
else commits to a page that it has a version of, then a transaction that begins afterwards finds every
pair that the committed transactions have inserted, and no other. -/
theorem index_inserts_survive (hash : StoredValue → UInt64) (lossy : List UInt8 → String) {s : SharedIndex}
    (hs : (indexSystem hash lossy).ReachableBy CommitsFresh s) {fuel : ℕ} (hfuel : s.numPages < fuel)
    (key : StoredValue) :
    ∃ rows, s.latest.lookupMulti hash lossy fuel key none = some (.ok rows) ∧
      (rows : Multiset UInt64) = (s.stored.filter (·.1 = key)).map (·.2) := by
  obtain ⟨chain, h⟩ := indexSystem_sound hs
  exact h.latest.lookupMulti_eq (le_of_lt hfuel) key

/-- An index with one bucket that nobody has begun to change. -/
def emptyShared : SharedIndex where
  numBuckets := 1
  numPages := 2
  committed q := ⟨emptyIndex.pages q, 0⟩
  own _ _ := none
  currentTs := 0
  stored := 0
  pending _ := 0

lemma init_emptyShared : (indexSystem hash lossy).init emptyShared :=
  ⟨⟨_, create_represents 1 rfl⟩, fun _ _ => rfl, fun _ => rfl, fun _ => le_refl 0⟩

/-- A transaction that inserts and commits while no other has begun to change the index. -/
lemma reachableBy_in_turn (hs : (indexSystem hash lossy).ReachableBy CommitsFresh s)
    (hnone : ∀ tx q, s.own tx q = none) {tx : ℕ} {key : StoredValue} {row : UInt64} {s' : SharedIndex}
    (hstep : (indexSystem hash lossy).step s (.insert tx key row) = some s') :
    (indexSystem hash lossy).ReachableBy CommitsFresh (s'.commit tx) ∧
      ∀ other q, (s'.commit tx).own other q = none := by
  have hins := hs.step (fun _ htx => by cases htx) hstep
  obtain ⟨chain, hsound⟩ := indexSystem_sound hs
  obtain ⟨r, v, rfl, -, htouch, -⟩ := hsound.insert_eq hstep
  have hfresh : (s.afterInsert tx key row r v).Fresh tx := by
    refine (SharedIndex.fresh_afterInsert_iff htouch).2 fun q o ho => ?_
    rw [hnone] at ho
    cases ho
  refine ⟨hins.step (a := .commit tx) (fun _ htx => by cases htx; exact hfresh) rfl, fun other q => ?_⟩
  by_cases hother : other = tx
  · rw [hother]
    exact congrFun (update_self tx _ (s.afterInsert tx key row r v).own) q
  · have hown : (s.afterInsert tx key row r v).own other = s.own other :=
      SharedIndex.own_afterInsert hother
    exact (congrFun ((update_of_ne hother _ (s.afterInsert tx key row r v).own).trans hown) q).trans (hnone other q)

/-- Two transactions insert into one bucket, the second after the first has committed. -/
theorem index_inserts_survive_in_turn : ∃ s first second,
    (indexSystem (fun _ => 0) fun _ => "").exec emptyShared
        [.insert 1 (.number 1) 10, .commit 1, .insert 2 (.number 2) 20, .commit 2] = some s ∧
      s.latest.lookupMulti (fun _ => 0) (fun _ => "") (s.numPages + 1) (.number 1) none =
        some (.ok first) ∧ (first : Multiset UInt64) = {10} ∧
      s.latest.lookupMulti (fun _ => 0) (fun _ => "") (s.numPages + 1) (.number 2) none =
        some (.ok second) ∧ (second : Multiset UInt64) = {20} := by
  have h0 : (indexSystem (fun _ => 0) fun _ => "").ReachableBy CommitsFresh emptyShared :=
    .init init_emptyShared
  have hrun : ((indexSystem (fun _ => 0) fun _ => "").exec emptyShared
      [.insert 1 (.number 1) 10, .commit 1, .insert 2 (.number 2) 20, .commit 2]).map (fun s =>
        decide (s.stored = {(.number 1, 10), (.number 2, 20)})) = some true := by decide +kernel
  obtain ⟨s, hs, hstored⟩ := map_eq_some_iff.1 hrun
  have hexec := hs
  rw [System.exec_cons] at hs
  obtain ⟨s₁, hfirst, hs⟩ := bind_eq_some_iff.1 hs
  obtain ⟨h₁, hnone⟩ := reachableBy_in_turn h0 (fun _ _ => rfl) hfirst
  rw [System.exec_cons, show (indexSystem _ _).step s₁ (.commit 1) = some (s₁.commit 1) from rfl,
    bind_some, System.exec_cons] at hs
  obtain ⟨s₂, hsecond, hs⟩ := bind_eq_some_iff.1 hs
  obtain ⟨h₂, -⟩ := reachableBy_in_turn h₁ hnone hsecond
  obtain rfl : s₂.commit 2 = s := some.inj hs
  have hfinds := fun key => index_inserts_survive (fun _ => 0) (fun _ => "") h₂ (Nat.lt_succ_self _) key
  obtain ⟨first, hlookup₁, hrows₁⟩ := hfinds (.number 1)
  obtain ⟨second, hlookup₂, hrows₂⟩ := hfinds (.number 2)
  rw [of_decide_eq_true hstored] at hrows₁ hrows₂
  exact ⟨_, first, second, hexec, hlookup₁, hrows₁.trans (by decide), hlookup₂,
    hrows₂.trans (by decide)⟩

/-- **Two transactions insert into one bucket, and both commit**: the pair of the first is lost. -/
theorem index_insert_lost : ∃ s, (indexSystem (fun _ => 0) fun _ => "").exec emptyShared
      [.insert 1 (.number 1) 10, .insert 2 (.number 2) 20, .commit 1, .commit 2] = some s ∧
    (indexSystem (fun _ => 0) fun _ => "").Reachable s ∧ (.number 1, 10) ∈ s.stored ∧
    s.latest.lookupMulti (fun _ => 0) (fun _ => "") (s.numPages + 1) (.number 1) none = some (.ok []) := by
  have hrun : ((indexSystem (fun _ => 0) fun _ => "").exec emptyShared
      [.insert 1 (.number 1) 10, .insert 2 (.number 2) 20, .commit 1, .commit 2]).map (fun s =>
        (decide ((.number 1, 10) ∈ s.stored),
          decide (s.latest.lookupMulti (fun _ => 0) (fun _ => "") (s.numPages + 1) (.number 1) none =
            some (.ok [])))) = some (true, true) := by decide +kernel
  obtain ⟨s, hs, hresult⟩ := map_eq_some_iff.1 hrun
  obtain ⟨hstored, hlookup⟩ := Prod.mk.inj hresult
  exact ⟨s, hs, System.Reachable.exec (.init init_emptyShared) hs, of_decide_eq_true hstored,
    of_decide_eq_true hlookup⟩

end LightningDB
