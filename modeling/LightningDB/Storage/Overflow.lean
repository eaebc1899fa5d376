import LightningDB.Storage.FreeSpace
import LightningDB.Storage.Page

/-!
# Long strings

A string of 64 bytes or more is stored in the overflow file, which the columns of all tables share.
`append_to_overflow` calls `add_new_page` for every page that it needs, keeps the first page only, and takes
the pages behind that one for its own.  They are, unless another append gets a page in between or a page
comes from the free list (`append_to_freed_page_overwrites`).  The length is stored in 32 bits.

The pages are versioned like all others: an append writes to versions of its own transaction.
-/

namespace LightningDB

open Framework Function List Option PageSpace

inductive Slot where
  | inline (bytes : List UInt8)
  | overflow (pageIdx offset len : ℕ)

structure StringAppend where
  tx : ℕ
  data : List UInt8
  /-- What `add_new_page` has returned. -/
  pages : List ℕ
  /-- How many pages have been written. -/
  written : ℕ
deriving DecidableEq

namespace StringAppend

variable (a : StringAppend)

/-- How many pages are needed. -/
def numPages : ℕ :=
  if a.data.length < 64 then 0 else max ((a.data.length + (pageSize - 1)) / pageSize) 1

def firstPage : ℕ := a.pages.headD 0

def chunk (i : ℕ) : List UInt8 := (a.data.drop (i * pageSize)).take pageSize

/-- `serialize_value_into`, for strings. -/
def slot : Slot :=
  if a.data.length < 64 then .inline a.data else .overflow a.firstPage 0 (a.data.length % 2 ^ 32)

def Finished : Prop := a.written = a.numPages

instance (a : StringAppend) : Decidable a.Finished := inferInstanceAs (Decidable (_ = _))

end StringAppend

/-- The overflow file with the strings that have been stored in it. -/
structure OverflowFile where
  space : PageSpace
  committed : ℕ → Page
  /-- The versions of each transaction. -/
  own : ℕ → ℕ → Option Page
  appends : List StringAppend
  /-- The transactions that have ended, and whether they have been committed. -/
  ended : ℕ → Option Bool

namespace OverflowFile

/-- The id of the overflow file. -/
def fileId : ℕ := 0

variable (s : OverflowFile)

def numPages : ℕ := (s.space.handle fileId).numPages

/-- `pin_page`. -/
def view (tx page : ℕ) : Page := (s.own tx page).getD (s.committed page)

/-- The loop of `parse_value` over the pages of a string. -/
def readFrom (s : OverflowFile) (tx : ℕ) : ℕ → ℕ → ℕ → List UInt8
  | 0, _, _ => []
  | fuel + 1, pos, remaining =>
    if remaining = 0 then []
    else
      let page := pos / pageSize
      if s.numPages ≤ page then []
      else
        let off := pos % pageSize
        let chunk := min remaining (pageSize - off)
        (s.view tx page).slice off chunk ++ readFrom s tx fuel (pos + chunk) (remaining - chunk)

/-- `parse_value`, for strings. -/
def parse (tx : ℕ) : Slot → List UInt8
  | .inline bytes => bytes
  | .overflow pageIdx offset len => s.readFrom tx len (pageIdx * pageSize + offset) len

/-! ## Steps -/

/-- The steps of the appends, the ends of transactions, and what others do to the pages of the file. -/
inductive Call where
  | start (tx : ℕ) (data : List UInt8)
  | allocate (i : ℕ)
  | write (i : ℕ)
  | commit (tx : ℕ)
  | rollback (tx : ℕ)
  | takePage
  | freePage (page : ℕ)

/-- `add_new_page` for an append. -/
def allocate (i : ℕ) (a : StringAppend) : OverflowFile :=
  { s with
    space := (s.space.addNewPage fileId).2
    appends := s.appends.set i { a with pages := a.pages ++ [(s.space.addNewPage fileId).1] } }

/-- `create_new_version` and the copy of the next page of an append. -/
def write (i : ℕ) (a : StringAppend) : OverflowFile :=
  let page := a.firstPage + a.written
  let version := (s.view a.tx page).write 0 (a.chunk a.written)
  { s with
    own := update s.own a.tx (update (s.own a.tx) page (some version))
    appends := s.appends.set i { a with written := a.written + 1 } }

def commit (tx : ℕ) : OverflowFile :=
  { s with
    committed := s.view tx
    own := update s.own tx fun _ => none
    ended := update s.ended tx (some true) }

/-- The versions of a transaction are dropped. -/
def rollback (tx : ℕ) : OverflowFile :=
  { s with
    own := update s.own tx fun _ => none
    ended := update s.ended tx (some false) }

/-- What a call does.  A transaction ends only after its statements. -/
def step : Call → Option OverflowFile
  | .start tx data =>
    if s.ended tx = none then some { s with appends := s.appends ++ [⟨tx, data, [], 0⟩] } else none
  | .allocate i =>
    match s.appends[i]? with
    | none => none
    | some a => if s.ended a.tx = none ∧ a.pages.length < a.numPages then some (s.allocate i a) else none
  | .write i =>
    match s.appends[i]? with
    | none => none
    | some a =>
      if s.ended a.tx = none ∧ a.pages.length = a.numPages ∧ a.written < a.numPages then
        some (s.write i a)
      else none
  | .commit tx =>
    if s.ended tx = none ∧ ∀ a ∈ s.appends, a.tx = tx → a.Finished then some (s.commit tx) else none
  | .rollback tx =>
    if s.ended tx = none ∧ ∀ a ∈ s.appends, a.tx = tx → a.Finished then some (s.rollback tx) else none
  | .takePage => some { s with space := (s.space.addNewPage fileId).2 }
  | .freePage page => some { s with space := s.space.freePage fileId page }

/-- Any interleaving of appends, by any number of transactions. -/
def calls : System OverflowFile Call where
  init s := PageSpace.calls.ReachableBy PageSpace.Careful s.space ∧ (∀ tx page, s.own tx page = none) ∧
    s.appends = [] ∧ ∀ tx, s.ended tx = none
  step := step

/-- The string has not been rolled back. -/
def Live (a : StringAppend) : Prop := s.ended a.tx ≠ some false

/-- When a step does no harm: the string has fewer than 2³² bytes, a further page of it is the one behind
the last, and no page of a string is freed. -/
def Careful : Call → Prop
  | .start _ data => data.length < 2 ^ 32
  | .allocate i => ∀ a ∈ s.appends[i]?, a.pages ≠ [] →
      (s.space.addNewPage fileId).1 = a.firstPage + a.pages.length
  | .freePage page => ((s.space.handle fileId).managed → (s.space.handle fileId).Allocated page) ∧
      ∀ a ∈ s.appends, s.Live a → page ∉ a.pages
  | _ => True

instance (s : OverflowFile) (a : StringAppend) : Decidable (s.Live a) :=
  inferInstanceAs (Decidable (_ ≠ _))

instance (s : OverflowFile) : (call : Call) → Decidable (s.Careful call)
  | .start _ _ => inferInstanceAs (Decidable (_ < _))
  | .allocate i => inferInstanceAs (Decidable (∀ a ∈ s.appends[i]?, _ → _))
  | .freePage _ => inferInstanceAs (Decidable (_ ∧ _))
  | .write _ => inferInstanceAs (Decidable True)
  | .commit _ => inferInstanceAs (Decidable True)
  | .rollback _ => inferInstanceAs (Decidable True)
  | .takePage => inferInstanceAs (Decidable True)

/-- Every string that has been stored is read back, by its own transaction and, once it is committed, by
all others. -/
def ReadsBack : Prop :=
  ∀ a ∈ s.appends, a.Finished → ∀ reader,
    s.ended a.tx = some true ∨ s.ended a.tx = none ∧ reader = a.tx → s.parse reader a.slot = a.data

/-! ## Reading -/

variable {s : OverflowFile} {a b : StringAppend} {tx : ℕ}

lemma length_chunk (a : StringAppend) (i : ℕ) :
    (a.chunk i).length = min pageSize (a.data.length - i * pageSize) := by
  rw [StringAppend.chunk, length_take, length_drop]

/-- The loop reads the rest of the string if the pages hold it. -/
lemma readFrom_eq (tx first : ℕ) {n : ℕ} (hlen : a.data.length ≤ n * pageSize)
    (hpages : ∀ i < n, first + i < s.numPages ∧
      (s.view tx (first + i)).slice 0 (a.chunk i).length = a.chunk i)
    (fuel i : ℕ) (hfuel : a.data.length - i * pageSize ≤ fuel) :
    s.readFrom tx fuel ((first + i) * pageSize) (a.data.length - i * pageSize) =
      a.data.drop (i * pageSize) := by
  induction fuel generalizing i with
  | zero => rw [readFrom, drop_eq_nil_of_le (by omega)]
  | succ fuel ih =>
    rw [readFrom]
    split
    next hdone => rw [drop_eq_nil_of_le (by omega)]
    next hmore =>
      have hi : i < n := by
        by_contra hge
        have := Nat.mul_le_mul_right pageSize (Nat.le_of_not_lt hge)
        omega
      obtain ⟨hinside, hslice⟩ := hpages i hi
      have hpos : 0 < pageSize := by decide
      dsimp only
      rw [Nat.mul_div_cancel _ hpos, Nat.mul_mod_left, Nat.sub_zero, if_neg (not_le.2 hinside),
        min_comm, ← length_chunk, hslice]
      rcases lt_or_ge pageSize (a.data.length - i * pageSize) with hlong | hlast
      · have hchunk : (a.chunk i).length = pageSize := by rw [length_chunk, Nat.min_eq_left hlong.le]
        have hnext : (first + i) * pageSize + pageSize = (first + (i + 1)) * pageSize := by
          rw [← add_assoc, Nat.succ_mul]
        have hrest : a.data.length - i * pageSize - pageSize = a.data.length - (i + 1) * pageSize := by
          rw [Nat.succ_mul]
          omega
        rw [hchunk, hnext, hrest, ih (i + 1) (by omega), StringAppend.chunk, Nat.succ_mul,
          ← drop_drop, take_append_drop]
      · have hchunk : (a.chunk i).length = a.data.length - i * pageSize := by
          rw [length_chunk, Nat.min_eq_right hlast]
        have hall : a.chunk i = a.data.drop (i * pageSize) := by
          rw [StringAppend.chunk, take_of_length_le (by rw [length_drop]; exact hlast)]
        have hnil : ∀ fuel pos, s.readFrom tx fuel pos 0 = [] := by
          intro fuel pos
          cases fuel with
          | zero => rfl
          | succ fuel => rw [readFrom, if_pos rfl]
        rw [hchunk, Nat.sub_self, hnil, append_nil, hall]

/-! ## The invariant -/

/-- What a string that has not been rolled back holds. -/
structure Held (s : OverflowFile) (a : StringAppend) : Prop where
  short : a.data.length < 2 ^ 32
  consecutive : a.pages = List.range' a.firstPage a.pages.length
  inUse : ∀ page ∈ a.pages, (s.space.handle fileId).Allocated page
  writtenLe : a.written ≤ a.pages.length
  pagesLe : a.pages.length ≤ a.numPages
  content : ∀ i < a.written, (s.view a.tx (a.firstPage + i)).slice 0 (a.chunk i).length = a.chunk i

/-- Strings hold what they have written, and no two of them have a page in common. -/
structure Sound (s : OverflowFile) : Prop where
  space : PageSpace.Sound s.space
  held : ∀ a ∈ s.appends, s.Live a → Held s a
  apart : ∀ (i j : ℕ) (a b : StringAppend), s.appends[i]? = some a → s.appends[j]? = some b → i ≠ j → s.Live a → s.Live b →
    ∀ page ∈ a.pages, page ∉ b.pages
  owned : ∀ tx page, s.own tx page ≠ none →
    s.ended tx = none ∧ ∃ a ∈ s.appends, a.tx = tx ∧ page ∈ a.pages

lemma length_le_numPages (a : StringAppend) (h : 64 ≤ a.data.length) :
    a.data.length ≤ a.numPages * pageSize := by
  rw [StringAppend.numPages, if_neg (not_lt.2 h)]
  refine le_trans ?_ (Nat.mul_le_mul_right _ (le_max_left _ _))
  have hdiv := Nat.div_add_mod (a.data.length + (pageSize - 1)) pageSize
  have hmod := Nat.mod_lt (a.data.length + (pageSize - 1)) (show 0 < pageSize by decide)
  rw [mul_comm]
  omega

variable {i page : ℕ} {s' : OverflowFile}

lemma mem_pages (h : Held s a) (hi : i < a.pages.length) : a.firstPage + i ∈ a.pages := by
  rw [h.consecutive]
  exact mem_range'.2 ⟨i, hi, by rw [one_mul]⟩

lemma live_of_running (h : s.ended a.tx = none) : s.Live a := by
  rw [Live, h]
  exact nofun

/-- Two live strings with a page in common are one. -/
lemma Sound.index_eq (hs : Sound s) {j : ℕ} (hi : s.appends[i]? = some a)
    (hj : s.appends[j]? = some b) (ha : s.Live a) (hb : s.Live b) (hp : page ∈ a.pages)
    (hq : page ∈ b.pages) : i = j := by
  by_contra hne
  exact hs.apart i j a b hi hj hne ha hb page hp hq

/-- A version of a page of a string belongs to the transaction of the string. -/
lemma Sound.own_eq_none (hs : Sound s) (ha : a ∈ s.appends) (hlive : s.Live a)
    (hp : page ∈ a.pages) (hne : tx ≠ a.tx) : s.own tx page = none := by
  by_contra hown
  obtain ⟨hrun, b, hb, rfl, hq⟩ := hs.owned tx page hown
  obtain ⟨i, hi⟩ := getElem?_of_mem ha
  obtain ⟨j, hj⟩ := getElem?_of_mem hb
  obtain rfl := hs.index_eq hi hj hlive (live_of_running hrun) hp hq
  rw [hi] at hj
  exact hne (congrArg StringAppend.tx (some.inj hj)).symm

lemma Sound.readsBack (hs : Sound s) : ReadsBack s := by
  intro a ha hfinished reader hreader
  have hlive : s.Live a := by
    rcases hreader with hend | ⟨hend, -⟩ <;> rw [Live, hend] <;> exact nofun
  have hheld := hs.held a ha hlive
  rw [StringAppend.slot]
  split
  · rfl
  next hlong =>
    have hlength : a.pages.length = a.numPages := hheld.pagesLe.antisymm (hfinished ▸ hheld.writtenLe)
    rw [parse, Nat.mod_eq_of_lt hheld.short]
    have hread := readFrom_eq (s := s) (a := a) reader a.firstPage
      (length_le_numPages a (not_lt.1 hlong)) ?_ a.data.length 0 (Nat.sub_le _ _)
    · simpa only [Nat.zero_mul, Nat.sub_zero, Nat.add_zero, drop_zero] using hread
    · intro i hi
      have hmem := mem_pages hheld (hlength ▸ hi)
      refine ⟨(hs.space fileId).lt_of_allocated (hheld.inUse _ hmem), ?_⟩
      have hview : s.view reader (a.firstPage + i) = s.view a.tx (a.firstPage + i) := by
        by_cases heq : reader = a.tx
        · rw [heq]
        · -- the transaction has ended and left no version
          have hend := hreader.resolve_right fun h => heq h.2
          have hself : s.own a.tx (a.firstPage + i) = none := by
            by_contra hown
            exact nomatch (hs.owned _ _ hown).1.symm.trans hend
          rw [view, view, hs.own_eq_none ha hlive hmem heq, hself]
      rw [hview]
      exact hheld.content i (by rw [hfinished]; exact hi)

/-! ## What a step keeps -/

lemma Held.of_view (h : Held s a) (huse : ∀ page ∈ a.pages, (s'.space.handle fileId).Allocated page)
    (hview : ∀ page ∈ a.pages, s'.view a.tx page = s.view a.tx page) : Held s' a where
  short := h.short
  consecutive := h.consecutive
  inUse := huse
  writtenLe := h.writtenLe
  pagesLe := h.pagesLe
  content i hi := by
    rw [hview _ (mem_pages h (hi.trans_le h.writtenLe))]
    exact h.content i hi

lemma Sound.start (hs : Sound s) {data : List UInt8} (hdata : data.length < 2 ^ 32) :
    Sound { s with appends := s.appends ++ [⟨tx, data, [], 0⟩] } where
  space := hs.space
  held a ha hlive := by
    rcases mem_append.1 ha with ha | ha
    · have hheld := hs.held a ha hlive
      exact hheld.of_view hheld.inUse fun _ _ => rfl
    · rw [mem_singleton.1 ha]
      exact ⟨hdata, rfl, fun page hp => absurd hp not_mem_nil, le_rfl, Nat.zero_le _,
        fun i hi => absurd hi (Nat.not_lt_zero i)⟩
  apart i j a b hi hj hne ha hb page hp hq := by
    -- the new string has no pages yet
    have hold : ∀ {k : ℕ} {c : StringAppend}, page ∈ c.pages →
        (s.appends ++ [⟨tx, data, [], 0⟩])[k]? = some c → s.appends[k]? = some c := by
      intro k c hc hk
      rw [getElem?_append] at hk
      split at hk
      · exact hk
      · rw [mem_singleton.1 (mem_of_getElem? hk)] at hc
        exact absurd hc not_mem_nil
    exact hne (hs.index_eq (hold hp hi) (hold hq hj) ha hb hp hq)
  owned t page hown := by
    obtain ⟨hrun, b, hb, hrest⟩ := hs.owned t page hown
    exact ⟨hrun, b, mem_append_left _ hb, hrest⟩

/-- The files change in such a way that all pages of strings stay in use. -/
lemma Sound.setSpace (hs : Sound s) {space : PageSpace} (hspace : PageSpace.Sound space)
    (huse : ∀ a ∈ s.appends, s.Live a → ∀ page ∈ a.pages, (space.handle fileId).Allocated page) :
    Sound { s with space := space } where
  space := hspace
  held a ha hlive := (hs.held a ha hlive).of_view (huse a ha hlive) fun _ _ => rfl
  apart := hs.apart
  owned := hs.owned

/-- One string is replaced by what it becomes; the others keep what they hold. -/
lemma Sound.setAppend (hs : Sound s) (a' : StringAppend) (hi : s.appends[i]? = some a)
    (hrun : s.ended a.tx = none) (htx : a'.tx = a.tx) (happends : s'.appends = s.appends.set i a')
    (hended : s'.ended = s.ended) (hspace : PageSpace.Sound s'.space) (hself : Held s' a')
    (hothers : ∀ j b, s.appends[j]? = some b → j ≠ i → s.Live b →
      Held s' b ∧ ∀ page ∈ a'.pages, page ∉ b.pages)
    (howned : ∀ tx page, s'.own tx page ≠ none → s.own tx page ≠ none ∨ tx = a.tx ∧ page ∈ a'.pages)
    (hpages : ∀ page ∈ a.pages, page ∈ a'.pages) : Sound s' := by
  have hlt : i < s.appends.length := (List.getElem?_eq_some_iff.1 hi).1
  have hlive : ∀ {b}, s'.Live b → s.Live b := fun h => by rwa [Live, hended] at h
  have hget : ∀ {j b}, s'.appends[j]? = some b → j = i ∧ b = a' ∨ j ≠ i ∧ s.appends[j]? = some b := by
    intro j b hj
    rw [happends, getElem?_set] at hj
    by_cases heq : i = j
    · rw [if_pos heq, if_pos hlt] at hj
      exact .inl ⟨heq.symm, (some.inj hj).symm⟩
    · rw [if_neg heq] at hj
      exact .inr ⟨Ne.symm heq, hj⟩
  have hmem : a' ∈ s'.appends := by
    rw [happends]
    exact mem_set hlt a'
  refine ⟨hspace, fun b hb hb' => ?_, fun j k b c hj hk hne hb hc page hp hq => ?_, fun t page hown => ?_⟩
  · obtain ⟨j, hj⟩ := getElem?_of_mem hb
    rcases hget hj with ⟨-, rfl⟩ | ⟨hne, hj⟩
    · exact hself
    · exact (hothers j b hj hne (hlive hb')).1
  · rcases hget hj with ⟨rfl, rfl⟩ | ⟨hji, hj⟩ <;> rcases hget hk with ⟨rfl, rfl⟩ | ⟨hki, hk⟩
    · exact hne rfl
    · exact (hothers k c hk hki (hlive hc)).2 page hp hq
    · exact (hothers j b hj hji (hlive hb)).2 page hq hp
    · exact hs.apart j k b c hj hk hne (hlive hb) (hlive hc) page hp hq
  · rcases howned t page hown with hold | ⟨rfl, hp⟩
    · obtain ⟨ht, b, hb, hbt, hp⟩ := hs.owned t page hold
      refine ⟨hended ▸ ht, ?_⟩
      obtain ⟨j, hj⟩ := getElem?_of_mem hb
      by_cases heq : j = i
      · subst heq
        rw [hi] at hj
        obtain rfl := some.inj hj
        exact ⟨a', hmem, htx.trans hbt, hpages page hp⟩
      · refine ⟨b, ?_, hbt, hp⟩
        rw [happends]
        exact mem_of_getElem? ((getElem?_set_ne (Ne.symm heq)).trans hj)
    · exact ⟨hended ▸ hrun, a', hmem, htx, hp⟩

lemma headD_append {pages more : List ℕ} (h : pages ≠ []) : (pages ++ more).headD 0 = pages.headD 0 := by
  cases pages with
  | nil => exact absurd rfl h
  | cons first rest => rfl

lemma append_eq_range' {pages : List ℕ} (hall : pages = List.range' (pages.headD 0) pages.length)
    (hnext : pages ≠ [] → page = pages.headD 0 + pages.length) :
    pages ++ [page] = range' ((pages ++ [page]).headD 0) (pages ++ [page]).length := by
  rw [length_append, length_singleton]
  by_cases hnil : pages = []
  · rw [hnil]
    rfl
  · rw [headD_append hnil, range'_1_concat, ← hall, ← hnext hnil]

lemma Sound.allocate (hs : Sound s) (hi : s.appends[i]? = some a) (hrun : s.ended a.tx = none)
    (hroom : a.pages.length < a.numPages)
    (hnext : a.pages ≠ [] → (s.space.addNewPage fileId).1 = a.firstPage + a.pages.length) :
    Sound (s.allocate i a) := by
  have hheld := hs.held a (mem_of_getElem? hi) (live_of_running hrun)
  have hfresh := (addNewPage_exclusive hs.space fileId).2
  have hkeep : ∀ b ∈ s.appends, s.Live b → ∀ page ∈ b.pages,
      ((s.space.addNewPage fileId).2.handle fileId).Allocated page :=
    fun b hb hlive page hp => allocated_addNewPage (.inr ((hs.held b hb hlive).inUse page hp))
  refine hs.setAppend { a with pages := a.pages ++ [(s.space.addNewPage fileId).1] } hi hrun rfl rfl rfl
    (sound_addNewPage hs.space fileId) ?_ ?_ (fun t page hown => .inl hown)
    (fun page hp => mem_append_left _ hp)
  · refine ⟨hheld.short, append_eq_range' hheld.consecutive hnext, fun page hp => ?_, ?_, ?_, fun k hk => ?_⟩
    · refine allocated_addNewPage ?_
      rcases mem_append.1 hp with hp | hp
      · exact .inr (hheld.inUse page hp)
      · exact .inl (mem_singleton.1 hp)
    · exact hheld.writtenLe.trans (length_append ▸ Nat.le_add_right _ _)
    · rw [length_append]
      exact hroom
    · have hne : a.pages ≠ [] := ne_nil_of_length_pos ((Nat.zero_le k).trans_lt (hk.trans_le hheld.writtenLe))
      rw [StringAppend.firstPage, headD_append hne]
      exact hheld.content k hk
  · intro j b hj hne hlive
    have hb := mem_of_getElem? hj
    refine ⟨(hs.held b hb hlive).of_view (hkeep b hb hlive) fun _ _ => rfl, fun page hp hq => ?_⟩
    rcases mem_append.1 hp with hp | hp
    · exact hne (hs.index_eq hj hi hlive (live_of_running hrun) hq hp)
    · rw [mem_singleton.1 hp] at hq
      exact hfresh ((hs.held b hb hlive).inUse _ hq)

lemma view_write_self (s : OverflowFile) (i : ℕ) (a : StringAppend) :
    (s.write i a).view a.tx (a.firstPage + a.written) =
      (s.view a.tx (a.firstPage + a.written)).write 0 (a.chunk a.written) := by
  simp only [view, write, update_self, getD_some]

lemma view_write_of_ne (s : OverflowFile) (i : ℕ) (a : StringAppend)
    (h : tx ≠ a.tx ∨ page ≠ a.firstPage + a.written) : (s.write i a).view tx page = s.view tx page := by
  simp only [view, write]
  by_cases htx : tx = a.tx
  · subst htx
    rw [update_self, update_of_ne (h.resolve_left (absurd rfl))]
  · rw [update_of_ne htx]

lemma Sound.write (hs : Sound s) (hi : s.appends[i]? = some a) (hrun : s.ended a.tx = none)
    (hpages : a.pages.length = a.numPages) (hmore : a.written < a.numPages) : Sound (s.write i a) := by
  have hheld := hs.held a (mem_of_getElem? hi) (live_of_running hrun)
  have hmem : a.firstPage + a.written ∈ a.pages := mem_pages hheld (hpages ▸ hmore)
  refine hs.setAppend { a with written := a.written + 1 } hi hrun rfl rfl rfl hs.space ?_ ?_ ?_
    (fun page hp => hp)
  · refine ⟨hheld.short, hheld.consecutive, hheld.inUse, hpages ▸ hmore, hheld.pagesLe, fun k hk => ?_⟩
    change ((s.write i a).view a.tx (a.firstPage + k)).slice 0 (a.chunk k).length = a.chunk k
    rcases Nat.lt_succ_iff_lt_or_eq.1 hk with hk | rfl
    · rw [view_write_of_ne s i a (.inr (by omega))]
      exact hheld.content k hk
    · rw [view_write_self, Page.slice_write_self]
      rw [zero_add, length_chunk]
      exact Nat.min_le_left _ _
  · intro j b hj hne hlive
    have hb := hs.held b (mem_of_getElem? hj) hlive
    have hapart : ∀ page ∈ a.pages, page ∉ b.pages :=
      fun page hp hq => hne (hs.index_eq hj hi hlive (live_of_running hrun) hq hp)
    refine ⟨hb.of_view hb.inUse fun page hp => view_write_of_ne s i a (.inr ?_), hapart⟩
    rintro rfl
    exact hapart _ hmem hp
  · intro t page hown
    by_cases heq : t = a.tx ∧ page = a.firstPage + a.written
    · exact .inr ⟨heq.1, heq.2 ▸ hmem⟩
    · left
      simp only [OverflowFile.write] at hown
      by_cases ht : t = a.tx
      · subst ht
        rwa [update_self, update_of_ne fun h => heq ⟨rfl, h⟩] at hown
      · rwa [update_of_ne ht] at hown

/-- A transaction ends, after which its versions are either seen by all or gone. -/
lemma Sound.endTransaction {committed : Bool} (hs : Sound s)
    (hrun : s.ended tx = none) (hspace : s'.space = s.space) (happends : s'.appends = s.appends)
    (hown : s'.own = update s.own tx fun _ => none)
    (hended : s'.ended = update s.ended tx (some committed))
    (hview : ∀ a ∈ s.appends, s.Live a → s'.Live a → ∀ page ∈ a.pages, s'.view a.tx page = s.view a.tx page) :
    Sound s' := by
  have hlive : ∀ {a}, s'.Live a → s.Live a := by
    intro a ha
    by_cases htx : a.tx = tx
    · exact live_of_running (htx ▸ hrun)
    · rwa [Live, hended, update_of_ne htx] at ha
  refine ⟨hspace ▸ hs.space, fun a ha ha' => ?_, ?_, fun t page ht => ?_⟩
  · rw [happends] at ha
    refine (hs.held a ha (hlive ha')).of_view ?_ (hview a ha (hlive ha') ha')
    rw [hspace]
    exact (hs.held a ha (hlive ha')).inUse
  · rw [happends]
    exact fun i j a b hi hj hne ha hb => hs.apart i j a b hi hj hne (hlive ha) (hlive hb)
  · have hne : t ≠ tx := by
      rintro rfl
      rw [hown, update_self] at ht
      exact ht rfl
    rw [hown, update_of_ne hne] at ht
    rw [hended, happends, update_of_ne hne]
    exact hs.owned t page ht

lemma Sound.commit (hs : Sound s) (hrun : s.ended tx = none) : Sound (s.commit tx) := by
  refine hs.endTransaction hrun rfl rfl rfl rfl fun a ha hlive _ page hp => ?_
  simp only [view, OverflowFile.commit]
  by_cases htx : a.tx = tx
  · rw [htx, update_self, getD_none]
  · rw [update_of_ne htx, hs.own_eq_none ha hlive hp (Ne.symm htx), getD_none]

lemma Sound.rollback (hs : Sound s) (hrun : s.ended tx = none) : Sound (s.rollback tx) := by
  refine hs.endTransaction hrun rfl rfl rfl rfl fun a ha _ hlive page hp => ?_
  have htx : a.tx ≠ tx := by
    intro htx
    exact hlive (by rw [htx]; exact update_self _ _ _)
  simp only [view, OverflowFile.rollback]
  rw [update_of_ne htx]

/-! ## Runs -/

lemma sound_step {call : Call} (hs : Sound s) (hok : Careful s call)
    (hstep : s.step call = some s') : Sound s' := by
  cases call with
  | start tx data =>
    obtain ⟨-, ⟨⟩⟩ := ite_none_right_eq_some.1 hstep
    exact hs.start hok
  | allocate i =>
    rw [step] at hstep
    split at hstep
    · cases hstep
    next a hi =>
      obtain ⟨⟨hrun, hroom⟩, ⟨⟩⟩ := ite_none_right_eq_some.1 hstep
      exact hs.allocate hi hrun hroom (hok a hi)
  | write i =>
    rw [step] at hstep
    split at hstep
    · cases hstep
    next hi =>
      obtain ⟨⟨hrun, hpages, hmore⟩, ⟨⟩⟩ := ite_none_right_eq_some.1 hstep
      exact hs.write hi hrun hpages hmore
  | commit tx =>
    obtain ⟨⟨hrun, -⟩, ⟨⟩⟩ := ite_none_right_eq_some.1 hstep
    exact hs.commit hrun
  | rollback tx =>
    obtain ⟨⟨hrun, -⟩, ⟨⟩⟩ := ite_none_right_eq_some.1 hstep
    exact hs.rollback hrun
  | takePage =>
    cases hstep
    exact hs.setSpace (sound_addNewPage hs.space fileId) fun a ha hlive page hp =>
      allocated_addNewPage (.inr ((hs.held a ha hlive).inUse page hp))
  | freePage page =>
    cases hstep
    refine hs.setSpace (sound_freePage hs.space hok.1) fun a ha hlive p hp => ?_
    refine allocated_freePage (fun heq => ?_) ((hs.held a ha hlive).inUse p hp)
    exact hok.2 a ha hlive (heq ▸ hp)

lemma sound_of_reachable (hs : calls.ReachableBy Careful s) : Sound s := by
  refine hs.invariant (I := Sound) ?_ ?_
  · rintro s ⟨hspace, hown, happends, -⟩
    have hempty : ∀ a, a ∉ s.appends := by simp [happends]
    refine ⟨PageSpace.sound_of_reachable hspace, fun a ha => absurd ha (hempty a), ?_,
      fun tx page h => absurd (hown tx page) h⟩
    intro i j a b hi
    exact absurd (mem_of_getElem? hi) (hempty a)
  · intro s call s' _ hs hok hstep
    exact sound_step hs hok hstep

end OverflowFile

open OverflowFile

/-- **Long strings survive** as long as they have fewer than 2³² bytes, the pages that an append gets are
consecutive, and no page of a string is freed. -/
theorem long_strings_survive {s : OverflowFile} (hs : OverflowFile.calls.ReachableBy OverflowFile.Careful s) :
    ReadsBack s :=
  (OverflowFile.sound_of_reachable hs).readsBack

def OverflowFile.fresh : OverflowFile :=
  ⟨PageSpace.empty.setFreeSpaceManager fileId, fun _ => .zero, fun _ _ => none, [], fun _ => none⟩

lemma OverflowFile.init_fresh : OverflowFile.calls.init .fresh :=
  ⟨reachable_apply (.init rfl) (.setFreeSpaceManager fileId) trivial, fun _ _ => rfl, rfl,
    fun _ => rfl⟩

/-- A string of two pages and one on a page from the free list, written in turn by two transactions. -/
def twoStrings : List OverflowFile.Call :=
  [.takePage, .start 1 (replicate 4097 1), .allocate 0, .allocate 0, .freePage 0,
    .start 2 (replicate 64 2), .allocate 1, .write 0, .write 1, .write 0, .commit 1, .commit 2]

theorem long_strings_survive_two_pages :
    ∃ s, OverflowFile.calls.ReachableBy OverflowFile.Careful s ∧
      s.appends.map StringAppend.pages = [[1, 2], [0]] ∧ s.ended 1 = some true ∧
      s.ended 2 = some true ∧ ReadsBack s := by
  obtain ⟨s, hrun, hs⟩ := (any_eq_true _ _).1
    (by decide +kernel : (OverflowFile.calls.execIf (fun s call => decide (s.Careful call)) .fresh
      twoStrings).any (fun s => s.appends.map StringAppend.pages = [[1, 2], [0]] ∧
        s.ended 1 = some true ∧ s.ended 2 = some true))
  have hreach := System.ReachableBy.execIf (fun _ _ _ => of_decide_eq_true) (.init init_fresh) hrun
  obtain ⟨hpages, hended, hended'⟩ := of_decide_eq_true hs
  exact ⟨s, hreach, hpages, hended, hended', long_strings_survive hreach⟩

/-- The page before a string is free.  A string of two pages gets it and the page behind the other string,
and is written over that one. -/
theorem append_to_freed_page_overwrites : ∃ s, OverflowFile.calls.Reachable s ∧ ¬ ReadsBack s := by
  obtain ⟨s, hrun, hs⟩ := (any_eq_true _ _).1
    (by decide +kernel : (OverflowFile.calls.exec .fresh
      [.takePage, .start 1 (replicate 64 1), .allocate 0, .write 0, .commit 1, .freePage 0,
        .start 2 (replicate 4097 2), .allocate 1, .allocate 1, .write 1, .write 1, .commit 2]).any
        (fun s => ⟨1, replicate 64 1, [1], 1⟩ ∈ s.appends ∧ s.ended 1 = some true ∧
          s.parse 3 (.overflow 1 0 64) ≠ replicate 64 1))
  have h₀ : OverflowFile.calls.Reachable .fresh := .init init_fresh
  obtain ⟨hmem, hended, hread⟩ := of_decide_eq_true hs
  exact ⟨s, h₀.exec hrun, fun hreads => hread (hreads _ hmem rfl 3 (.inl hended))⟩

end LightningDB
