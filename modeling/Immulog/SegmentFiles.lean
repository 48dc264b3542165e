import Immulog.Catalog
import Immulog.Lib.Recency

/-!
The bounded cache of descriptors for sealed segments (`src/storage/segment_files.go`).

Every operation runs under the cache's mutex, so the readers of a store make one
sequence of operations.  `Readers` is the cache with what is around it: the handles
opened and closed so far, the readers that hold one, and the history of acquisitions.
Go's maps have no order, so a scan may meet the entries in any.
-/

namespace Immulog

open Lib Std

/-- `refs` counts the readers that use the handle, `used` is the clock of the last
acquisition. -/
structure SegmentFileEntry where
  file : Nat
  refs : Nat
  used : UInt64
  deriving DecidableEq, Repr

/-- `string` -/
abbrev SegmentPath := Bytes

/-! ## The scan for a victim -/

/-- One turn of the scan for a victim. -/
def scanStep (victim : Option (SegmentPath × SegmentFileEntry))
    (item : SegmentPath × SegmentFileEntry) :
    Option (SegmentPath × SegmentFileEntry) :=
  if item.2.refs ≠ 0 then victim
  else
    match victim with
    | none => some item
    | some best => if item.2.used < best.2.used then some item else victim

/-- The scan over the entries in the order in which they are met. -/
def scanVictim (order : List (SegmentPath × SegmentFileEntry)) :
    Option (SegmentPath × SegmentFileEntry) :=
  order.foldl scanStep none

section Scan

variable {order : List (SegmentPath × SegmentFileEntry)}
  {victim : Option (SegmentPath × SegmentFileEntry)} {item : SegmentPath × SegmentFileEntry}

theorem scanStep_pinned (used : item.2.refs ≠ 0) : scanStep victim item = victim := by
  simp [scanStep, used]

/-- An unpinned entry leaves the older of it and the victim so far. -/
theorem scanStep_free (victim : Option (SegmentPath × SegmentFileEntry))
    (free : item.2.refs = 0) :
    ∃ best, scanStep victim item = some best ∧ (best = item ∨ victim = some best) ∧
      best.2.used ≤ item.2.used ∧ ∀ other ∈ victim, best.2.used ≤ other.2.used := by
  cases victim with
  | none => exact ⟨item, by simp [scanStep, free], .inl rfl, UInt64.le_refl _, by simp⟩
  | some other =>
      by_cases older : item.2.used < other.2.used
      · refine ⟨item, by simp [scanStep, free, older], .inl rfl, UInt64.le_refl _, ?_⟩
        intro same is
        obtain rfl := Option.mem_some_iff.1 is
        exact UInt64.le_of_lt older
      · refine ⟨other, by simp [scanStep, free, older], .inr rfl, UInt64.not_lt.1 older, ?_⟩
        intro same is
        obtain rfl := Option.mem_some_iff.1 is
        exact UInt64.le_refl _

/-- Without a victim all files are in use. -/
theorem scan_none (empty : order.foldl scanStep victim = none) :
    victim = none ∧ ∀ item ∈ order, item.2.refs ≠ 0 := by
  induction order generalizing victim with
  | nil => exact ⟨empty, by simp⟩
  | cons item order ih =>
      obtain ⟨kept, rest⟩ := ih empty
      by_cases free : item.2.refs = 0
      · obtain ⟨best, taken, _⟩ := scanStep_free victim free
        rw [kept] at taken
        cases taken
      · rw [scanStep_pinned free] at kept
        refine ⟨kept, fun other mem => ?_⟩
        rcases List.mem_cons.1 mem with rfl | later
        · exact free
        · exact rest other later

/-- The victim is an unused file, and none was used earlier. -/
theorem scan_some {best : SegmentPath × SegmentFileEntry}
    (found : order.foldl scanStep victim = some best) :
    (best ∈ order ∧ best.2.refs = 0 ∨ victim = some best) ∧
      (∀ item ∈ order, item.2.refs = 0 → best.2.used ≤ item.2.used) ∧
      ∀ other ∈ victim, best.2.used ≤ other.2.used := by
  induction order generalizing victim with
  | nil =>
      obtain rfl : victim = some best := found
      exact ⟨.inr rfl, by simp, fun other same => Option.mem_some_iff.1 same ▸ UInt64.le_refl _⟩
  | cons item order ih =>
      obtain ⟨source, least, below⟩ := ih found
      by_cases free : item.2.refs = 0
      · obtain ⟨first, taken, origin, own, older⟩ := scanStep_free victim free
        rw [taken] at source below
        have least' := below first rfl
        refine ⟨?_, ?_, fun other mem => UInt64.le_trans least' (older other mem)⟩
        · rcases source with ⟨mem, unpinned⟩ | same
          · exact .inl ⟨List.mem_cons_of_mem _ mem, unpinned⟩
          · obtain rfl := Option.some.inj same
            rcases origin with rfl | earlier
            · exact .inl ⟨List.mem_cons_self, free⟩
            · exact .inr earlier
        · intro other mem unpinned
          rcases List.mem_cons.1 mem with rfl | later
          · exact UInt64.le_trans least' own
          · exact least other later unpinned
      · rw [scanStep_pinned free] at source below
        refine ⟨source.imp_left fun inside => ⟨List.mem_cons_of_mem _ inside.1, inside.2⟩, ?_,
          below⟩
        intro other mem unpinned
        rcases List.mem_cons.1 mem with rfl | later
        · exact absurd unpinned free
        · exact least other later unpinned

end Scan

/-! ## The cache and its readers -/

/-- The cache of a store, by path. -/
structure SegmentFileCache where
  limit : Nat
  clock : UInt64
  entries : ExtTreeMap SegmentPath SegmentFileEntry

def newSegmentFileCache (limit : UInt32) : SegmentFileCache where
  limit := limit.toNat
  clock := 0
  entries := ∅

/-- The entry is cached under the path. -/
def SegmentFileCache.Caches (cache : SegmentFileCache) (path : SegmentPath)
    (entry : SegmentFileEntry) : Prop :=
  cache.entries[path]? = some entry

/-- The cache at an eviction, and the entry whose handle is closed. -/
structure Eviction where
  cache : SegmentFileCache
  path : SegmentPath
  entry : SegmentFileEntry

/-- `evictLocked`: the evictions it makes and the cache it leaves. -/
inductive EvictLocked : SegmentFileCache → List Eviction → SegmentFileCache → Prop
  | fits {cache : SegmentFileCache} :
      cache.entries.size ≤ cache.limit → EvictLocked cache [] cache
  | pinned {cache : SegmentFileCache} {order : List (SegmentPath × SegmentFileEntry)} :
      cache.limit < cache.entries.size → order.Perm cache.entries.toList →
      scanVictim order = none → EvictLocked cache [] cache
  | evict {cache cache' : SegmentFileCache} {order : List (SegmentPath × SegmentFileEntry)}
      {path : SegmentPath} {entry : SegmentFileEntry} {later : List Eviction} :
      cache.limit < cache.entries.size → order.Perm cache.entries.toList →
      scanVictim order = some (path, entry) →
      EvictLocked { cache with entries := cache.entries.erase path } later cache' →
      EvictLocked cache (⟨cache, path, entry⟩ :: later) cache'

namespace SegmentFileCache

/-- The cache once an acquisition has pinned the entry. -/
def pin (cache : SegmentFileCache) (path : SegmentPath) (entry : SegmentFileEntry) :
    SegmentFileCache :=
  { cache with
    clock := cache.clock + 1
    entries := cache.entries.insert path
      { entry with refs := entry.refs + 1, used := cache.clock + 1 } }

/-- The cache once a release has unpinned the entry. -/
def unpin (cache : SegmentFileCache) (path : SegmentPath) (entry : SegmentFileEntry) :
    SegmentFileCache :=
  { cache with entries := cache.entries.insert path { entry with refs := entry.refs - 1 } }

def drop (cache : SegmentFileCache) (path : SegmentPath) : SegmentFileCache :=
  { cache with entries := cache.entries.erase path }

variable {cache : SegmentFileCache} {path other : SegmentPath} {entry entry' : SegmentFileEntry}

theorem pin_caches : (cache.pin path entry).Caches other entry' ↔
    path = other ∧ ⟨entry.file, entry.refs + 1, cache.clock + 1⟩ = entry' ∨
      path ≠ other ∧ cache.Caches other entry' :=
  getElem?_insert_eq_some

theorem unpin_caches : (cache.unpin path entry).Caches other entry' ↔
    path = other ∧ ⟨entry.file, entry.refs - 1, entry.used⟩ = entry' ∨
      path ≠ other ∧ cache.Caches other entry' :=
  getElem?_insert_eq_some

theorem drop_caches : (cache.drop path).Caches other entry ↔
    path ≠ other ∧ cache.Caches other entry :=
  getElem?_erase_eq_some

end SegmentFileCache

/-- The cache, the number of handles opened so far, the closed ones, the readers' handles
by path, and the acquisitions, the newest first. -/
structure Readers where
  cache : SegmentFileCache
  opened : Nat
  closed : List Nat
  held : List (SegmentPath × Nat)
  acquisitions : List SegmentPath

namespace Readers

def start (limit : UInt32) : Readers where
  cache := newSegmentFileCache limit
  opened := 0
  closed := []
  held := []
  acquisitions := []

/-- The handle is one that was opened and has not been closed. -/
def IsOpen (s : Readers) (handle : Nat) : Prop :=
  handle < s.opened ∧ handle ∉ s.closed

/-- A reader holds a handle of that path. -/
def Pinned (s : Readers) (path : SegmentPath) : Prop :=
  ∃ handle, (path, handle) ∈ s.held

/-- A reader has pinned the entry; eviction comes next. -/
def pinned (s : Readers) (path : SegmentPath) (entry : SegmentFileEntry) : Readers :=
  { s with
    cache := s.cache.pin path entry
    held := (path, entry.file) :: s.held
    acquisitions := path :: s.acquisitions }

/-- `evictLocked` has run. -/
def evicted (s : Readers) (evictions : List Eviction) (cache : SegmentFileCache) :
    Readers :=
  { s with cache, closed := evictions.map (·.entry.file) ++ s.closed }

/-- One operation of a reader or of the store, with the evictions it makes. -/
inductive Step : Readers → List Eviction → Readers → Prop
  /-- `acquire` of a cached path. -/
  | acquire {s : Readers} {path : SegmentPath} {entry : SegmentFileEntry}
      {evictions : List Eviction} {cache : SegmentFileCache} :
      s.cache.Caches path entry →
      EvictLocked (s.pinned path entry).cache evictions cache →
      Step s evictions ((s.pinned path entry).evicted evictions cache)
  /-- `acquire` that opens the file; every open gives another handle. -/
  | acquireOpen {s : Readers} {path : SegmentPath} {evictions : List Eviction}
      {cache : SegmentFileCache} :
      s.cache.entries[path]? = none →
      EvictLocked (s.pinned path ⟨s.opened, 0, 0⟩).cache evictions cache →
      Step s evictions
        (({ s with opened := s.opened + 1 }.pinned path ⟨s.opened, 0, 0⟩).evicted evictions cache)
  /-- `acquire` whose open fails. -/
  | acquireFails {s : Readers} {path : SegmentPath} :
      s.cache.entries[path]? = none → Step s [] s
  /-- `release` by a reader that holds a handle. -/
  | release {s : Readers} {path : SegmentPath} {handle : Nat} {entry : SegmentFileEntry}
      {evictions : List Eviction} {cache : SegmentFileCache} :
      (path, handle) ∈ s.held → s.cache.Caches path entry →
      EvictLocked (s.cache.unpin path entry) evictions cache →
      Step s evictions ({ s with held := s.held.erase (path, handle) }.evicted evictions cache)
  /-- `release` of a path without an entry. -/
  | releaseMissing {s : Readers} {path : SegmentPath} {handle : Nat} :
      (path, handle) ∈ s.held → s.cache.entries[path]? = none →
      Step s [] { s with held := s.held.erase (path, handle) }
  /-- `forget` of a path that no reader has pinned. -/
  | forget {s : Readers} {path : SegmentPath} {entry : SegmentFileEntry} :
      ¬ s.Pinned path → s.cache.Caches path entry →
      Step s [] { s with cache := s.cache.drop path, closed := entry.file :: s.closed }
  | forgetMissing {s : Readers} {path : SegmentPath} :
      ¬ s.Pinned path → s.cache.entries[path]? = none → Step s [] s
  /-- `closeAll`, when the store has no reader left. -/
  | closeAll {s : Readers} :
      s.held = [] →
      Step s [] { s with
        cache := { s.cache with entries := ∅ }
        closed := (s.cache.entries.toList.map (·.2.file)) ++ s.closed }

/-- Any sequence of operations on a new cache. -/
inductive Run (limit : UInt32) : Readers → Prop
  | start : Run limit (start limit)
  | step {s s' : Readers} {evictions : List Eviction} :
      Run limit s → Step s evictions s' → Run limit s'

end Readers

/-! ## What an eviction can do -/

/-- The victim of an eviction: unpinned, and no unpinned entry has a smaller stamp. -/
structure Eviction.Least (e : Eviction) : Prop where
  found : e.cache.Caches e.path e.entry
  free : e.entry.refs = 0
  least : ∀ path entry, e.cache.Caches path entry → entry.refs = 0 → e.entry.used ≤ entry.used

/-- What a run of `evictLocked` leaves, and what it closes. -/
structure Evicted (cache : SegmentFileCache) (evictions : List Eviction)
    (cache' : SegmentFileCache) : Prop where
  limit : cache'.limit = cache.limit
  clock : cache'.clock = cache.clock
  sub : ∀ path entry, cache'.Caches path entry → cache.Caches path entry
  pinned : ∀ path entry, cache.Caches path entry → entry.refs ≠ 0 → cache'.Caches path entry
  least : ∀ e ∈ evictions, e.Least
  within : ∀ e ∈ evictions, ∀ path entry, e.cache.Caches path entry → cache.Caches path entry
  gone : ∀ e ∈ evictions, ∀ entry, ¬ cache'.Caches e.path entry
  fits : cache'.entries.size ≤ cache'.limit ∨
    ∀ path entry, cache'.Caches path entry → entry.refs ≠ 0

theorem victim_least {cache : SegmentFileCache} {order : List (SegmentPath × SegmentFileEntry)}
    {path : SegmentPath} {entry : SegmentFileEntry} (perm : order.Perm cache.entries.toList)
    (scanned : scanVictim order = some (path, entry)) : Eviction.Least ⟨cache, path, entry⟩ := by
  obtain ⟨source, least, _⟩ := scan_some scanned
  rcases source with ⟨mem, free⟩ | wrong
  · refine ⟨ExtTreeMap.mem_toList_iff_getElem?_eq_some.1 (perm.subset mem), free, ?_⟩
    intro other entry' found unpinned
    exact least (other, entry')
      (perm.symm.subset (ExtTreeMap.mem_toList_iff_getElem?_eq_some.2 found)) unpinned
  · cases wrong

/-- What an eviction does. -/
theorem EvictLocked.spec {cache cache' : SegmentFileCache} {evictions : List Eviction}
    (evicts : EvictLocked cache evictions cache') : Evicted cache evictions cache' := by
  induction evicts with
  | fits fits =>
      exact ⟨rfl, rfl, fun _ _ found => found, fun _ _ found _ => found, by simp, by simp, by simp,
        .inl fits⟩
  | pinned excess perm scanned =>
      refine ⟨rfl, rfl, fun _ _ found => found, fun _ _ found _ => found, by simp, by simp, by simp,
        .inr ?_⟩
      intro path entry found
      exact (scan_none scanned).2 (path, entry)
        (perm.symm.subset (ExtTreeMap.mem_toList_iff_getElem?_eq_some.2 found))
  | @evict cache cache' order victim entry later excess perm scanned rest ih =>
      have least := victim_least perm scanned
      have kept : ∀ path found, (cache.drop victim).Caches path found → cache.Caches path found :=
        fun path found there => (SegmentFileCache.drop_caches.1 there).2
      refine ⟨ih.limit, ih.clock, fun path found there => kept _ _ (ih.sub path found there), ?_,
        ?_, ?_, ?_, ih.fits⟩
      · intro path found there used
        refine ih.pinned path found (SegmentFileCache.drop_caches.2 ⟨?_, there⟩) used
        rintro rfl
        obtain rfl : entry = found := Option.some.inj (least.found.symm.trans there)
        exact used least.free
      · intro e mem
        rcases List.mem_cons.1 mem with rfl | inside
        · exact least
        · exact ih.least e inside
      · intro e mem path found there
        rcases List.mem_cons.1 mem with rfl | inside
        · exact there
        · exact kept _ _ (ih.within e inside path found there)
      · intro e mem found there
        rcases List.mem_cons.1 mem with rfl | inside
        · exact (SegmentFileCache.drop_caches.1 (ih.sub _ _ there)).1 rfl
        · exact ih.gone e inside found there

/-- The loop ends: every turn but the last removes an entry. -/
theorem EvictLocked.total (cache : SegmentFileCache) :
    ∃ evictions cache', EvictLocked cache evictions cache' := by
  by_cases fits : cache.entries.size ≤ cache.limit
  · exact ⟨[], cache, .fits fits⟩
  · have excess := Nat.lt_of_not_le fits
    cases scanned : scanVictim cache.entries.toList with
    | none => exact ⟨[], cache, .pinned excess (.refl _) scanned⟩
    | some victim =>
        have inside : victim.1 ∈ cache.entries :=
          ExtTreeMap.mem_iff_isSome_getElem?.2 <| Option.isSome_of_eq_some
            (victim_least (.refl _) scanned).found
        have fewer : (cache.drop victim.1).entries.size < cache.entries.size := by
          have positive : 0 < cache.entries.size := by omega
          rw [SegmentFileCache.drop, ExtTreeMap.size_erase,
            if_pos (ExtTreeMap.contains_iff_mem.2 inside)]
          omega
        obtain ⟨later, cache', rest⟩ := EvictLocked.total (cache.drop victim.1)
        exact ⟨_, cache', .evict excess (.refl _) scanned rest⟩
termination_by cache.entries.size

/-! ## The invariant -/

namespace Readers

/-- How many handles of the path are held. -/
def holders (s : Readers) (path : SegmentPath) : Nat :=
  s.held.countP (·.1 = path)

/-- What every operation keeps, also in front of its evictions. -/
structure Tracked (s : Readers) : Prop where
  /-- An entry counts its readers. -/
  refs : ∀ path entry, s.cache.Caches path entry → entry.refs = s.holders path
  /-- A handle that is held is the cached one. -/
  cached : ∀ path handle, (path, handle) ∈ s.held →
    ∃ entry, s.cache.Caches path entry ∧ entry.file = handle
  open_ : ∀ path entry, s.cache.Caches path entry → s.IsOpen entry.file
  distinct : ∀ path path' entry entry', s.cache.Caches path entry → s.cache.Caches path' entry' →
    entry.file = entry'.file → path = path'
  closed : ∀ handle ∈ s.closed, handle < s.opened
  clock : s.cache.clock = .ofNat s.acquisitions.length
  stamps : ∀ path entry, s.cache.Caches path entry →
    path ∈ s.acquisitions ∧ entry.used = .ofNat (lastUse s.acquisitions path)

/-- At most `limit` handles are cached, or all of them are pinned. -/
def Fits (s : Readers) : Prop :=
  s.cache.entries.size ≤ s.cache.limit ∨ ∀ path entry, s.cache.Caches path entry → entry.refs ≠ 0

theorem tracked_start (limit : UInt32) : (start limit).Tracked where
  refs := by simp [start, newSegmentFileCache, SegmentFileCache.Caches]
  cached := by simp [start]
  open_ := by simp [start, newSegmentFileCache, SegmentFileCache.Caches]
  distinct := by simp [start, newSegmentFileCache, SegmentFileCache.Caches]
  closed := by simp [start]
  clock := rfl
  stamps := by simp [start, newSegmentFileCache, SegmentFileCache.Caches]

theorem holders_pos {s : Readers} {path : SegmentPath} (pinned : s.Pinned path) :
    0 < s.holders path := by
  obtain ⟨handle, held⟩ := pinned
  exact List.countP_pos_iff.2 ⟨(path, handle), held, by simp⟩

/-- A file with holders is pinned. -/
theorem pinned_of_holders {s : Readers} {path : SegmentPath} (positive : s.holders path ≠ 0) :
    s.Pinned path := by
  obtain ⟨⟨other, handle⟩, held, same⟩ := List.countP_pos_iff.1 (Nat.pos_of_ne_zero positive)
  obtain rfl : other = path := by simpa using same
  exact ⟨handle, held⟩

namespace Tracked

variable {s : Readers} {path : SegmentPath} {entry : SegmentFileEntry}

/-- A handle that gets one more reader: the cached one, or one just opened. -/
theorem pinned (tracked : s.Tracked) (refs : entry.refs = s.holders path)
    (live : s.IsOpen entry.file)
    (own : ∀ other entry', s.cache.Caches other entry' → entry'.file = entry.file → other = path)
    (same : ∀ entry', s.cache.Caches path entry' → entry'.file = entry.file) :
    (s.pinned path entry).Tracked := by
  refine ⟨?_, ?_, ?_, ?_, tracked.closed, ?_, ?_⟩
  · intro other entry' found
    rcases SegmentFileCache.pin_caches.1 found with ⟨rfl, rfl⟩ | ⟨differ, found⟩
    · simp [holders, Readers.pinned, refs]
    · rw [tracked.refs other entry' found]
      simp [holders, Readers.pinned, differ]
  · intro other handle held
    rcases List.mem_cons.1 held with equal | held
    · obtain ⟨rfl, rfl⟩ := Prod.mk.inj equal
      exact ⟨_, SegmentFileCache.pin_caches.2 (.inl ⟨rfl, rfl⟩), rfl⟩
    · obtain ⟨entry', found, rfl⟩ := tracked.cached other handle held
      by_cases differ : path = other
      · obtain rfl := differ
        exact ⟨_, SegmentFileCache.pin_caches.2 (.inl ⟨rfl, rfl⟩), (same entry' found).symm⟩
      · exact ⟨entry', SegmentFileCache.pin_caches.2 (.inr ⟨differ, found⟩), rfl⟩
  · intro other entry' found
    rcases SegmentFileCache.pin_caches.1 found with ⟨rfl, rfl⟩ | ⟨_, found⟩
    · exact live
    · exact tracked.open_ other entry' found
  · intro one two entry₁ entry₂ found₁ found₂ file
    rcases SegmentFileCache.pin_caches.1 found₁ with ⟨rfl, rfl⟩ | ⟨_, old₁⟩ <;>
      rcases SegmentFileCache.pin_caches.1 found₂ with ⟨rfl, rfl⟩ | ⟨_, old₂⟩
    · rfl
    · exact (own two entry₂ old₂ file.symm).symm
    · exact own one entry₁ old₁ file
    · exact tracked.distinct one two entry₁ entry₂ old₁ old₂ file
  · simp [Readers.pinned, SegmentFileCache.pin, tracked.clock, UInt64.ofNat_add]
  · intro other entry' found
    rcases SegmentFileCache.pin_caches.1 found with ⟨rfl, rfl⟩ | ⟨differ, found⟩
    · refine ⟨List.mem_cons_self, ?_⟩
      simp [Readers.pinned, lastUse_cons_self, tracked.clock, UInt64.ofNat_add]
    · obtain ⟨used, stamp⟩ := tracked.stamps other entry' found
      refine ⟨List.mem_cons_of_mem _ used, ?_⟩
      rw [stamp, Readers.pinned, lastUse_cons_of_ne differ]

/-- `fsOpen` gives a handle that no entry has. -/
theorem opened (tracked : s.Tracked) : { s with opened := s.opened + 1 }.Tracked where
  refs := tracked.refs
  cached := tracked.cached
  open_ path entry found :=
    have live := tracked.open_ path entry found
    ⟨Nat.lt_succ_of_lt live.1, live.2⟩
  distinct := tracked.distinct
  closed handle mem := Nat.lt_succ_of_lt (tracked.closed handle mem)
  clock := tracked.clock
  stamps := tracked.stamps

theorem holders_eq_zero (tracked : s.Tracked) (missing : s.cache.entries[path]? = none) :
    s.holders path = 0 := by
  by_contra positive
  obtain ⟨handle, held⟩ := pinned_of_holders positive
  obtain ⟨entry, found, _⟩ := tracked.cached path handle held
  cases missing.symm.trans found

theorem unpinned (tracked : s.Tracked) {handle : Nat} (held : (path, handle) ∈ s.held)
    (found : s.cache.Caches path entry) :
    { s with cache := s.cache.unpin path entry, held := s.held.erase (path, handle) }.Tracked := by
  have count := fun other : SegmentPath =>
    (List.perm_cons_erase held).countP_eq fun item => decide (item.1 = other)
  refine ⟨?_, ?_, ?_, ?_, tracked.closed, tracked.clock, ?_⟩
  · intro other entry' there
    rcases SegmentFileCache.unpin_caches.1 there with ⟨rfl, rfl⟩ | ⟨differ, there⟩
    · simp [holders, tracked.refs path entry found, count path]
    · simp [holders, tracked.refs other entry' there, count other, differ]
  · intro other handle' there
    obtain ⟨entry', old, rfl⟩ := tracked.cached other handle' (List.mem_of_mem_erase there)
    by_cases differ : path = other
    · obtain rfl := differ
      obtain rfl : entry = entry' := Option.some.inj (found.symm.trans old)
      exact ⟨_, SegmentFileCache.unpin_caches.2 (.inl ⟨rfl, rfl⟩), rfl⟩
    · exact ⟨entry', SegmentFileCache.unpin_caches.2 (.inr ⟨differ, old⟩), rfl⟩
  · intro other entry' there
    rcases SegmentFileCache.unpin_caches.1 there with ⟨rfl, rfl⟩ | ⟨_, there⟩
    · exact tracked.open_ path entry found
    · exact tracked.open_ other entry' there
  · intro one two entry₁ entry₂ found₁ found₂ file
    rcases SegmentFileCache.unpin_caches.1 found₁ with ⟨rfl, rfl⟩ | ⟨_, old₁⟩ <;>
      rcases SegmentFileCache.unpin_caches.1 found₂ with ⟨rfl, rfl⟩ | ⟨_, old₂⟩
    · rfl
    · exact tracked.distinct path two entry entry₂ found old₂ file
    · exact tracked.distinct one path entry₁ entry old₁ found file
    · exact tracked.distinct one two entry₁ entry₂ old₁ old₂ file
  · intro other entry' there
    rcases SegmentFileCache.unpin_caches.1 there with ⟨rfl, rfl⟩ | ⟨_, there⟩
    · exact tracked.stamps path entry found
    · exact tracked.stamps other entry' there

/-- Entries without a reader may go, and their handles be closed. -/
theorem shrinks (tracked : s.Tracked) {cache : SegmentFileCache} {closed : List Nat}
    (clock : cache.clock = s.cache.clock)
    (sub : ∀ path entry, cache.Caches path entry → s.cache.Caches path entry)
    (kept : ∀ path entry, s.cache.Caches path entry → entry.refs ≠ 0 → cache.Caches path entry)
    (gone : ∀ handle ∈ closed, handle ∈ s.closed ∨ ∃ path entry, s.cache.Caches path entry ∧
      entry.file = handle ∧ ∀ entry', ¬ cache.Caches path entry') :
    { s with cache, closed }.Tracked := by
  refine ⟨fun path entry found => tracked.refs path entry (sub path entry found), ?_, ?_,
    fun one two entry₁ entry₂ found₁ found₂ =>
      tracked.distinct one two entry₁ entry₂ (sub _ _ found₁) (sub _ _ found₂), ?_,
    clock.trans tracked.clock, fun path entry found => tracked.stamps path entry (sub _ _ found)⟩
  · intro path handle held
    obtain ⟨entry, found, file⟩ := tracked.cached path handle held
    have used : 0 < s.holders path := holders_pos ⟨handle, held⟩
    rw [← tracked.refs path entry found] at used
    exact ⟨entry, kept path entry found used.ne', file⟩
  · intro path entry found
    have live := tracked.open_ path entry (sub path entry found)
    refine ⟨live.1, fun mem => ?_⟩
    rcases gone entry.file mem with old | ⟨other, entry', found', file, none⟩
    · exact live.2 old
    · obtain rfl := tracked.distinct other path entry' entry found' (sub path entry found) file
      exact none entry found
  · intro handle mem
    rcases gone handle mem with old | ⟨path, entry, found, rfl, _⟩
    · exact tracked.closed handle old
    · exact (tracked.open_ path entry found).1

theorem evicted (tracked : s.Tracked) {evictions : List Eviction} {cache : SegmentFileCache}
    (evicts : Evicted s.cache evictions cache) : (s.evicted evictions cache).Tracked := by
  refine tracked.shrinks evicts.clock evicts.sub evicts.pinned ?_
  intro handle mem
  rcases List.mem_append.1 mem with closed | old
  · obtain ⟨e, inside, rfl⟩ := List.mem_map.1 closed
    have found := evicts.within e inside e.path e.entry (evicts.least e inside).found
    exact .inr ⟨e.path, e.entry, found, rfl, evicts.gone e inside⟩
  · exact .inl old

/-- Of the unpinned entries an eviction takes the one acquired first, as long as the clock
has not wrapped around. -/
theorem evicts_oldest (tracked : s.Tracked) {evictions : List Eviction} {cache : SegmentFileCache}
    (evicts : Evicted s.cache evictions cache) (few : s.acquisitions.length < 2 ^ 64)
    {e : Eviction} (mem : e ∈ evictions) (found : e.cache.Caches path entry)
    (free : ¬ s.Pinned path) (differ : path ≠ e.path) :
    lastUse s.acquisitions e.path < lastUse s.acquisitions path := by
  have least := evicts.least e mem
  have there := evicts.within e mem path entry found
  obtain ⟨_, stamp⟩ := tracked.stamps path entry there
  obtain ⟨used, stamp'⟩ := tracked.stamps e.path e.entry (evicts.within e mem _ _ least.found)
  have unpinned : entry.refs = 0 := by
    rw [tracked.refs path entry there]
    exact not_not.1 (free ∘ pinned_of_holders)
  have older := least.least path entry found unpinned
  have bound := lastUse_le s.acquisitions path
  have bound' := lastUse_le s.acquisitions e.path
  rw [stamp, stamp', UInt64.le_iff_toNat_le, UInt64.toNat_ofNat_of_lt' (bound.trans_lt few),
    UInt64.toNat_ofNat_of_lt' (bound'.trans_lt few)] at older
  exact Nat.lt_of_le_of_ne older fun same => differ (lastUse_inj used same).symm

/-- No pinned file is evicted. -/
theorem evicts_unpinned (tracked : s.Tracked) {evictions : List Eviction}
    {cache : SegmentFileCache} (evicts : Evicted s.cache evictions cache) {e : Eviction}
    (mem : e ∈ evictions) : ¬ s.Pinned e.path := by
  intro pinned
  have least := evicts.least e mem
  have refs := tracked.refs e.path e.entry (evicts.within e mem _ _ least.found)
  have positive := holders_pos pinned
  have free := least.free
  omega

end Tracked

/-! ## Runs -/

/-- An operation evicts from a tracked state, or evicts nothing. -/
theorem Step.outcome {s s' : Readers} {evictions : List Eviction} (tracked : s.Tracked)
    (step : Step s evictions s') :
    (∃ (t : Readers) (cache : SegmentFileCache), t.Tracked ∧
      t.cache.limit = s.cache.limit ∧ Evicted t.cache evictions cache ∧
      s' = t.evicted evictions cache) ∨
    evictions = [] ∧ s'.Tracked ∧ s'.cache.limit = s.cache.limit ∧ (s.Fits → s'.Fits) := by
  cases step with
  | @acquire path entry _ cache found evicts =>
      refine .inl ⟨_, cache, tracked.pinned (tracked.refs path entry found)
        (tracked.open_ path entry found) ?_ ?_, rfl, evicts.spec, rfl⟩
      · intro other entry' there file
        exact tracked.distinct other path entry' entry there found file
      · intro entry' there
        rw [Option.some.inj (found.symm.trans there)]
  | @acquireOpen path _ cache missing evicts =>
      refine .inl ⟨_, cache, tracked.opened.pinned (tracked.holders_eq_zero missing).symm
        ⟨Nat.lt_succ_self _, fun mem => Nat.lt_irrefl _ (tracked.closed _ mem)⟩ ?_ ?_, rfl,
        evicts.spec, rfl⟩
      · intro other entry' there file
        exact absurd (tracked.open_ other entry' there).1 (by rw [file]; exact Nat.lt_irrefl _)
      · intro entry' there
        cases missing.symm.trans there
  | acquireFails missing => exact .inr ⟨rfl, tracked, rfl, id⟩
  | @release path handle entry _ cache held found evicts =>
      exact .inl ⟨_, cache, tracked.unpinned held found, rfl, evicts.spec, rfl⟩
  | @releaseMissing path handle held missing =>
      obtain ⟨entry, found, _⟩ := tracked.cached path handle held
      cases missing.symm.trans found
  | @forget path entry free found =>
      refine .inr ⟨rfl, tracked.shrinks rfl
        (fun _ _ there => (SegmentFileCache.drop_caches.1 there).2) ?_ ?_, rfl, ?_⟩
      · intro other entry' there used
        refine SegmentFileCache.drop_caches.2 ⟨?_, there⟩
        rintro rfl
        rw [tracked.refs path entry' there] at used
        exact free (pinned_of_holders used)
      · intro handle mem
        rcases List.mem_cons.1 mem with rfl | old
        · exact .inr ⟨path, entry, found, rfl, fun _ there =>
            (SegmentFileCache.drop_caches.1 there).1 rfl⟩
        · exact .inl old
      · intro fits
        rcases fits with small | pinned
        · exact .inl (ExtTreeMap.size_erase_le.trans small)
        · exact .inr fun other entry' there =>
            pinned other entry' (SegmentFileCache.drop_caches.1 there).2
  | forgetMissing free missing => exact .inr ⟨rfl, tracked, rfl, id⟩
  | closeAll idle =>
      have empty : ∀ path entry, ¬ { s.cache with entries := ∅ }.Caches path entry := by
        simp [SegmentFileCache.Caches]
      refine .inr ⟨rfl, tracked.shrinks rfl (fun _ _ there => absurd there (empty _ _)) ?_ ?_, rfl,
        fun _ => .inl (by simp)⟩
      · intro path entry there used
        rw [tracked.refs path entry there, holders, idle] at used
        simp at used
      · intro handle mem
        rcases List.mem_append.1 mem with cached | old
        · obtain ⟨⟨path, entry⟩, inside, rfl⟩ := List.mem_map.1 cached
          exact .inr ⟨path, entry, ExtTreeMap.mem_toList_iff_getElem?_eq_some.1 inside, rfl,
            empty path⟩
        · exact .inl old

/-- What holds between two operations. -/
structure Sound (limit : UInt32) (s : Readers) : Prop where
  tracked : s.Tracked
  fits : s.Fits
  limit : s.cache.limit = limit.toNat

/-- Every step keeps the cache sound. -/
theorem Sound.step {limit : UInt32} {s s' : Readers} {evictions : List Eviction}
    (sound : s.Sound limit) (step : Step s evictions s') : s'.Sound limit := by
  rcases step.outcome sound.tracked with ⟨t, cache, tracked, bound, evicts, rfl⟩ |
    ⟨_, tracked, bound, fits⟩
  · exact ⟨tracked.evicted evicts, evicts.fits, (evicts.limit.trans bound).trans sound.limit⟩
  · exact ⟨tracked, fits sound.fits, bound.trans sound.limit⟩

/-- The cache is sound along every run. -/
theorem Run.sound {limit : UInt32} {s : Readers} (run : Run limit s) : s.Sound limit := by
  induction run with
  | start => exact ⟨tracked_start limit, .inl (by simp [Readers.start, newSegmentFileCache]), rfl⟩
  | step _ step ih => exact ih.step step

/-- The eviction closes a cached handle that no reader holds. -/
structure Closes (s : Readers) (e : Eviction) : Prop where
  cached : e.cache.Caches e.path e.entry
  unpinned : ¬ s.Pinned e.path
  closed : e.entry.file ∈ s.closed

/-- Every other unpinned entry was acquired after the one that is evicted. -/
def LeastRecent (s : Readers) (e : Eviction) : Prop :=
  ∀ path entry, e.cache.Caches path entry → ¬ s.Pinned path → path ≠ e.path →
    lastUse s.acquisitions e.path < lastUse s.acquisitions path

end Readers

/-- A handle is open while it is held; after every operation the cache fits its limit or all
its handles are pinned; and an eviction closes the unpinned handle acquired least recently,
as long as there have been fewer than `2 ^ 64` acquisitions. -/
theorem descriptor_cache_safe {limit : UInt32} {s : Readers} (run : Readers.Run limit s) :
    (∀ path handle, (path, handle) ∈ s.held → s.IsOpen handle) ∧
    (s.cache.entries.size ≤ limit.toNat ∨
      ∀ path entry, s.cache.Caches path entry → s.Pinned path) ∧
    ∀ evictions s', Readers.Step s evictions s' → ∀ e ∈ evictions,
      s'.Closes e ∧ (s'.acquisitions.length < 2 ^ 64 → s'.LeastRecent e) := by
  have sound := run.sound
  refine ⟨?_, ?_, ?_⟩
  · intro path handle held
    obtain ⟨entry, found, rfl⟩ := sound.tracked.cached path handle held
    exact sound.tracked.open_ path entry found
  · rcases sound.fits with small | pinned
    · exact .inl (sound.limit ▸ small)
    · refine .inr fun path entry found => Readers.pinned_of_holders ?_
      rw [← sound.tracked.refs path entry found]
      exact pinned path entry found
  · intro evictions s' step e mem
    rcases step.outcome sound.tracked with ⟨t, cache, tracked, _, evicts, rfl⟩ | ⟨rfl, _⟩
    · refine ⟨⟨(evicts.least e mem).found, tracked.evicts_unpinned evicts mem,
        List.mem_append_left _ (List.mem_map_of_mem mem)⟩, ?_⟩
      intro few path entry found free differ
      exact tracked.evicts_oldest evicts few mem found free differ
    · cases mem

/-! A store that visits one file after another. -/

namespace Visits

open Readers

variable {limit : UInt32} {s : Readers} {path : SegmentPath}

/-- How many entries there are once the path has one. -/
def grown (s : Readers) (path : SegmentPath) : Nat :=
  if s.cache.entries.contains path then s.cache.entries.size else s.cache.entries.size + 1

/-- An acquisition pins an entry, and runs `evictLocked`. -/
theorem acquires (s : Readers) (path : SegmentPath) :
    ∃ (t : Readers) (entry : SegmentFileEntry),
      t.cache.entries = s.cache.entries.insert path entry ∧
      t.cache.limit = s.cache.limit ∧ t.held = (path, entry.file) :: s.held ∧
      t.acquisitions = path :: s.acquisitions ∧ entry.refs ≠ 0 ∧
      ∀ evictions cache, EvictLocked t.cache evictions cache →
        Step s evictions (t.evicted evictions cache) := by
  cases found : s.cache.entries[path]? with
  | some entry =>
      exact ⟨s.pinned path entry, _, rfl, rfl, rfl, rfl, Nat.succ_ne_zero _,
        fun _ _ => .acquire found⟩
  | none =>
      exact ⟨{ s with opened := s.opened + 1 }.pinned path ⟨s.opened, 0, 0⟩, _, rfl, rfl, rfl, rfl,
        Nat.succ_ne_zero _, fun _ _ => .acquireOpen found⟩

/-- With room for the path, an idle cache keeps what it has through an acquisition and its
release. -/
theorem visit (path : SegmentPath) (run : Run limit s) (idle : s.held = [])
    (room : grown s path ≤ limit.toNat) :
    ∃ s' : Readers, Run limit s' ∧ s'.held = [] ∧ s'.acquisitions = path :: s.acquisitions ∧
      path ∈ s'.cache.entries ∧ (∀ other ∈ s.cache.entries, other ∈ s'.cache.entries) ∧
      s'.cache.entries.size = grown s path := by
  obtain ⟨t, entry, entries, limited, held, acquisitions, _, step⟩ := acquires s path
  have bound : t.cache.limit = limit.toNat := limited.trans run.sound.limit
  have size : t.cache.entries.size = grown s path := by rw [entries, ExtTreeMap.size_insert]; rfl
  have acquired := Run.step run (step _ _ (.fits (by rw [size, bound]; exact room)))
  have found : t.cache.Caches path entry := by simp [SegmentFileCache.Caches, entries]
  have still : (t.cache.unpin path entry).entries.size = grown s path := by
    simp [SegmentFileCache.unpin, ExtTreeMap.size_insert, entries, grown]
  have released := Run.step acquired <| .release
    (show (path, entry.file) ∈ t.held by simp [held]) found
      (.fits (still.le.trans (room.trans_eq bound.symm)))
  refine ⟨_, released, by simp [evicted, held, idle], acquisitions, ?_, ?_, still⟩
  · simp [evicted, SegmentFileCache.unpin]
  · intro other inside
    simp [evicted, SegmentFileCache.unpin, entries, inside]

/-- Without room for the path, an idle cache evicts one of the entries it has. -/
theorem overflow (run : Run limit s) (idle : s.held = []) (full : limit.toNat < grown s path)
    {other : SegmentPath} {entry : SegmentFileEntry} (found : s.cache.Caches other entry)
    (differ : path ≠ other) :
    ∃ evictions s', Step s evictions s' ∧ s'.acquisitions = path :: s.acquisitions ∧
      (∀ other, s'.Pinned other → path = other) ∧ ∃ e ∈ evictions, e.Least ∧ path ≠ e.path ∧
        ∀ other entry, path ≠ other →
          (e.cache.Caches other entry ↔ s.cache.Caches other entry) := by
  obtain ⟨t, pinned, entries, limited, held, acquisitions, used, step⟩ := acquires s path
  have caches : ∀ {other entry}, t.cache.Caches other entry ↔
      path = other ∧ pinned = entry ∨ path ≠ other ∧ s.cache.Caches other entry := by
    intro other entry
    rw [SegmentFileCache.Caches, entries]
    exact getElem?_insert_eq_some
  have size : t.cache.entries.size = grown s path := by rw [entries, ExtTreeMap.size_insert]; rfl
  have excess : t.cache.limit < t.cache.entries.size := by
    rw [size, limited, run.sound.limit]
    exact full
  obtain ⟨evictions, cache, evicts⟩ := EvictLocked.total t.cache
  refine ⟨evictions, _, step _ _ evicts, acquisitions, ?_, ?_⟩
  · intro other there
    obtain ⟨handle, mem⟩ := there
    have same : (other, handle) = (path, pinned.file) := by simpa [evicted, held, idle] using mem
    exact (Prod.mk.inj same).1.symm
  · cases evicts with
    | fits fits => exact absurd excess (Nat.not_lt.2 fits)
    | @pinned _ order _ perm scanned =>
        have free := run.sound.tracked.refs other entry found
        rw [holders, idle] at free
        exact absurd free ((scan_none scanned).2 (other, entry) (perm.symm.subset
          (ExtTreeMap.mem_toList_iff_getElem?_eq_some.2 (caches.2 (.inr ⟨differ, found⟩)))))
    | evict _ perm scanned rest =>
        have least := victim_least perm scanned
        refine ⟨_, List.mem_cons_self, least, ?_, ?_⟩
        · rintro rfl
          rcases caches.1 least.found with ⟨_, rfl⟩ | ⟨wrong, _⟩
          · exact used least.free
          · exact wrong rfl
        · intro other entry differ
          exact caches.trans (by simp [differ])

def first : SegmentPath := [97]

def second : SegmentPath := [98]

def third : SegmentPath := [99]

/-- One file again and again. -/
theorem visits_first (n : Nat) : ∃ s : Readers, Run 2 s ∧ s.held = [] ∧
    s.acquisitions = List.replicate (n + 1) first ∧ first ∈ s.cache.entries ∧
    s.cache.entries.size = 1 := by
  induction n with
  | zero =>
      have empty : grown (start 2) first = 1 := by simp [grown, start, newSegmentFileCache]
      obtain ⟨s, run, idle, acquisitions, inside, _, size⟩ :=
        visit first (Run.start : Run 2 (start 2)) rfl (empty.trans_le (by decide))
      exact ⟨s, run, idle, acquisitions, inside, size.trans empty⟩
  | succ n ih =>
      obtain ⟨s, run, idle, acquisitions, inside, size⟩ := ih
      have same : grown s first = 1 := by simp [grown, inside, size]
      obtain ⟨s', run', idle', acquisitions', inside', _, size'⟩ :=
        visit first run idle (same.trans_le (by decide))
      exact ⟨s', run', idle', by rw [acquisitions', acquisitions]; rfl, inside', size'.trans same⟩

theorem acquired_of_mem (run : Run limit s) (inside : path ∈ s.cache.entries) :
    ∃ entry, s.cache.Caches path entry ∧ path ∈ s.acquisitions ∧
      entry.used = .ofNat (lastUse s.acquisitions path) := by
  obtain ⟨entry, found⟩ := Option.isSome_iff_exists.1 (ExtTreeMap.mem_iff_isSome_getElem?.1 inside)
  exact ⟨entry, found, run.sound.tracked.stamps path entry found⟩

/-- A path that was never acquired takes another entry. -/
theorem grown_of_fresh (run : Run limit s) (fresh : path ∉ s.acquisitions) :
    grown s path = s.cache.entries.size + 1 := by
  have missing : path ∉ s.cache.entries := fun inside =>
    have ⟨_, _, used, _⟩ := acquired_of_mem run inside
    fresh used
  simp [grown, missing]

theorem visits_second (n : Nat) : ∃ s : Readers, Run 2 s ∧ s.held = [] ∧
    s.acquisitions = second :: List.replicate (n + 1) first ∧ first ∈ s.cache.entries ∧
    second ∈ s.cache.entries ∧ s.cache.entries.size = 2 := by
  obtain ⟨s, run, idle, acquisitions, inside, size⟩ := visits_first n
  have room : grown s second = 2 := by
    rw [grown_of_fresh run (by simp [acquisitions, first, second]), size]
  obtain ⟨s', run', idle', acquisitions', inside', kept, size'⟩ :=
    visit second run idle (room.trans_le (by decide))
  exact ⟨s', run', idle', by rw [acquisitions', acquisitions], kept first inside, inside',
    size'.trans room⟩

theorem lastUse_first (n : Nat) :
    lastUse (second :: List.replicate (n + 1) first) first = n + 1 := by
  rw [lastUse_cons_of_ne (by decide), List.replicate_succ, lastUse_cons_self,
    List.length_replicate]

/-- The third file takes the place of the first, or of the second when its stamp is zero. -/
theorem acquires_third (n : Nat) : ∃ s evictions s', Run 2 s ∧ Step s evictions s' ∧
    s'.acquisitions = third :: second :: List.replicate (n + 1) first ∧ ¬ s'.Pinned first ∧
    ∃ e ∈ evictions, (∃ entry, e.cache.Caches first entry) ∧
      (n + 2 = 2 ^ 64 → e.path = second) := by
  obtain ⟨s, run, idle, acquisitions, inside, inside', size⟩ := visits_second n
  obtain ⟨entry, found, _, stamp⟩ := acquired_of_mem run inside
  obtain ⟨entry', found', _, stamp'⟩ := acquired_of_mem run inside'
  have full : (2 : UInt32).toNat < grown s third := by
    rw [grown_of_fresh run (by simp [acquisitions, first, second, third]), size]
    decide
  obtain ⟨evictions, s', step, acquisitions', pinned, e, mem, least, differ, same⟩ :=
    overflow run idle full found (by decide)
  refine ⟨s, evictions, s', run, step, by rw [acquisitions', acquisitions],
    fun held => absurd (pinned first held) (by decide), e, mem,
    ⟨entry, (same first entry (by decide)).2 found⟩, fun wraps => ?_⟩
  have there := (same e.path e.entry differ).1 least.found
  obtain ⟨used, own⟩ := run.sound.tracked.stamps e.path e.entry there
  rw [acquisitions] at used own stamp'
  rcases List.mem_cons.1 used with eq | earlier
  · exact eq
  · -- the first file's stamp is the largest there is, and the second's is zero
    rw [List.eq_of_mem_replicate earlier, lastUse_first] at own
    rw [lastUse_cons_self, List.length_replicate, wraps] at stamp'
    have free : entry'.refs = 0 := by
      rw [run.sound.tracked.refs second entry' found', holders, idle, List.countP_nil]
    have older := least.least second entry' ((same second entry' (by decide)).2 found') free
    rw [own, stamp', UInt64.le_iff_toNat_le, UInt64.toNat_ofNat_of_lt' (by rw [UInt64.size]; omega)]
      at older
    have zero : (UInt64.ofNat (2 ^ 64)).toNat = 0 := by decide
    omega

/-- The clock wraps around at the second file's acquisition, so that the third file's evicts
it and not the first file, which nobody has acquired since. -/
theorem evicts_second_file : ∃ s evictions s', Run 2 s ∧ Step s evictions s' ∧
    ∃ e ∈ evictions, ¬ s'.LeastRecent e := by
  obtain ⟨s, evictions, s', run, step, acquisitions, free, e, mem, ⟨entry, found⟩, victim⟩ :=
    acquires_third (2 ^ 64 - 2)
  refine ⟨s, evictions, s', run, step, e, mem, fun least => ?_⟩
  have later := least first entry found free (by rw [victim (by decide)]; decide)
  rw [victim (by decide), acquisitions, lastUse_cons_of_ne (by decide), lastUse_cons_self,
    lastUse_cons_of_ne (by decide), lastUse_first, List.length_replicate] at later
  omega

/-- Two files are opened, and a third one evicts the first. -/
theorem evicts_first_file : ∃ s evictions s', Run 2 s ∧ Step s evictions s' ∧
    ∃ e ∈ evictions, s'.Closes e ∧ s'.LeastRecent e := by
  obtain ⟨s, evictions, s', run, step, acquisitions, _, e, mem, _⟩ := acquires_third 0
  obtain ⟨closes, oldest⟩ := (descriptor_cache_safe run).2.2 evictions s' step e mem
  exact ⟨s, evictions, s', run, step, e, mem, closes, oldest (by rw [acquisitions]; decide)⟩

end Visits

end Immulog
