import IotKit.Lib.BinaryHeap
import IotKit.Log.Coherence

/-!
# Which entry the cache gives up

Runs of `molmc_log_level_set` and `molmc_log_write` from the start, and of their lookups since
the last wildcard.  A lookup is a use of its tag if it puts the tag into the cache, or if the
cache is full.

The generation of an entry is the number of the last use of its tag (`Tracked`).  While the cache
fills up the generations increase from entry to entry, so that the full cache is a heap.  From
then on every lookup gives one entry the largest generation and sinks it to a leaf.  The entry
that a new tag replaces is the first of the heap, whose last use is the oldest
(`log_cache_lru`).
-/

namespace IotKit.Log

open CMemory Runs BinaryHeap

namespace Eviction

/-! ## Runs -/

/-- A lookup of a tag: whether it is in the cache, and whether the cache is full. -/
structure Lookup where
  tag : Nat
  hit : Bool
  full : Bool
deriving DecidableEq, Repr

/-- The lookup is a use of its tag. -/
def Lookup.isUse (l : Lookup) : Bool := !l.hit || l.full

/-- The variables, and the lookups since the last wildcard, oldest first. -/
structure Traced where
  log : LogState
  history : List Lookup
deriving DecidableEq, Repr

def Traced.initial : Traced := ⟨.initial, []⟩

/-- The lookup of the tag in the cache as it is. -/
def lookup (s : LogState) (tag : Nat) : Lookup :=
  ⟨tag, (getCachedLogLevel s tag).1.isSome, s.logCache.length = tagCacheSize⟩

def step (text : Nat → Bytes) (m : Traced) : Action → Except Empty Traced
  | .set tag level malloc =>
      .ok
        { log := molmcLogLevelSet text m.log tag level malloc
          history := if text tag = wildcard then [] else m.history }
  | .write level tag =>
      .ok
        { log := (molmcLogWrite text m.log level tag).2
          history := m.history ++ [lookup m.log tag] }

/-- The tags in the order of their uses. -/
def uses (history : List Lookup) : List Nat := (history.filter Lookup.isUse).map Lookup.tag

/-- The last use of the tag is the one with this number. -/
def LastUse (used : List Nat) (tag n : Nat) : Prop :=
  used[n]? = some tag ∧ ∀ j, n < j → used[j]? ≠ some tag

/-- No tag is in the cache twice, and a full cache is a heap on distinct generations. -/
structure Ordered (s : LogState) : Prop where
  tags : (s.logCache.map CachedTagEntry.tag).Nodup
  heap : s.logCache.length = tagCacheSize →
    MinHeap CachedTagEntry.generation s.logCache ∧
      (s.logCache.map CachedTagEntry.generation).Nodup

/-- The entry whose last use is older than that of any other. -/
def Oldest (used : List Nat) (cache : List CachedTagEntry) (victim : CachedTagEntry) : Prop :=
  victim ∈ cache ∧ ∃ n, LastUse used victim.tag n ∧
    ∀ entry ∈ cache, entry ≠ victim → ∃ k, LastUse used entry.tag k ∧ n < k

/-- An entry for the tag takes the place of another, and the rest is kept. -/
def Replaces (cache cache' : List CachedTagEntry) (victim : CachedTagEntry) (tag : Nat)
    (level : MolmcLogLevel) : Prop :=
  ∃ entry kept, entry.tag = tag ∧ entry.level = level ∧ cache.Perm (victim :: kept) ∧
    cache'.Perm (entry :: kept)

/-! ## Uses -/

section Uses

variable {used : List Nat} {tag n : Nat}

theorem LastUse.lt (h : LastUse used tag n) : n < used.length :=
  (List.getElem?_eq_some_iff.mp h.1).1

theorem lastUse_concat (used : List Nat) (tag : Nat) : LastUse (used ++ [tag]) tag used.length := by
  refine ⟨by simp, fun j hj => ?_⟩
  rw [List.getElem?_eq_none]
  · nofun
  · rw [List.length_append, List.length_singleton]
    omega

/-- The use of another tag changes nothing. -/
theorem LastUse.concat (h : LastUse used tag n) {other : Nat} (hother : other ≠ tag) :
    LastUse (used ++ [other]) tag n := by
  refine ⟨by rw [List.getElem?_append_left h.lt, h.1], fun j hj heq => ?_⟩
  obtain hlt | hge := Nat.lt_or_ge j used.length
  · rw [List.getElem?_append_left hlt] at heq
    exact h.2 j hj heq
  · rw [List.getElem?_append_right hge] at heq
    obtain ⟨hlt, heq⟩ := List.getElem?_eq_some_iff.mp heq
    simp only [List.length_singleton] at hlt
    simp only [List.getElem_singleton] at heq
    exact hother heq

end Uses

/-! ## The heap -/

theorem generationAt_eq {cache : List CachedTagEntry} {i : Nat} {entry : CachedTagEntry}
    (h : cache[i]? = some entry) : generationAt cache i = entry.generation := by
  rw [generationAt, h]

/-- The entry sinks to a leaf. -/
theorem heapBubbleDownLoop_heap (passes : Nat) {cache : List CachedTagEntry} {index : Nat}
    (hlen : cache.length = tagCacheSize) (hpasses : tagCacheSize / 2 ≤ index + passes)
    (h : Sinking CachedTagEntry.generation cache index) :
    MinHeap CachedTagEntry.generation (heapBubbleDownLoop passes cache index) := by
  have hsize : tagCacheSize = 31 := rfl
  induction passes generalizing cache index with
  | zero => exact h.rest (by omega)
  | succ passes ih =>
      rw [heapBubbleDownLoop]
      split
      next hinner =>
        obtain ⟨left, hleft⟩ : ∃ left, cache[index * 2 + 1]? = some left :=
          ⟨_, List.getElem?_eq_getElem (by omega)⟩
        obtain ⟨right, hright⟩ : ∃ right, cache[index * 2 + 1 + 1]? = some right :=
          ⟨_, List.getElem?_eq_getElem (by omega)⟩
        dsimp only
        rw [generationAt_eq hleft, generationAt_eq hright, heapSwap_eq]
        refine ih ?_ ?_ (h.step hleft hright rfl)
        · rw [(swap_perm _ _ _).length_eq, hlen]
        · split
          · omega
          · omega
      next hleaf => exact h.rest (by omega)

theorem heapBubbleDown_heap {cache : List CachedTagEntry} {index : Nat}
    (hlen : cache.length = tagCacheSize)
    (h : Sinking CachedTagEntry.generation cache index) :
    MinHeap CachedTagEntry.generation (heapBubbleDown cache index) :=
  heapBubbleDownLoop_heap _ hlen (Nat.le_add_left _ _) h

/-! ## The invariant -/

/-- The generation of an entry is the number of the last use of its tag.  The generations
increase while the cache fills up, and then it is a heap. -/
structure Tracked (s : LogState) (used : List Nat) : Prop where
  size : s.logCache.length ≤ tagCacheSize
  count : s.logCacheMaxGeneration = used.length
  tags : (s.logCache.map CachedTagEntry.tag).Nodup
  last : ∀ entry ∈ s.logCache, LastUse used entry.tag entry.generation
  filling : s.logCache.length < tagCacheSize →
    s.logCache.Pairwise fun a b => a.generation < b.generation
  heap : s.logCache.length = tagCacheSize → MinHeap CachedTagEntry.generation s.logCache

section Entries

variable {used : List Nat} {cache : List CachedTagEntry}

/-- Two tags have no use in common. -/
theorem generations_nodup (htags : (cache.map CachedTagEntry.tag).Nodup)
    (hlast : ∀ entry ∈ cache, LastUse used entry.tag entry.generation) :
    (cache.map CachedTagEntry.generation).Nodup := by
  rw [List.Nodup, List.pairwise_map] at htags ⊢
  refine htags.imp_of_mem fun ha hb hne heq => hne ?_
  have hused := (hlast _ ha).1
  rw [heq, (hlast _ hb).1] at hused
  exact (Option.some.inj hused).symm

/-- An entry of the last use, put in the place of another. -/
theorem last_set (hlast : ∀ entry ∈ cache, LastUse used entry.tag entry.generation) {i : Nat}
    {new : CachedTagEntry} (hi : i < cache.length) (hgen : new.generation = used.length)
    (htags : ((cache.set i new).map CachedTagEntry.tag).Nodup) :
    ∀ entry ∈ cache.set i new, LastUse (used ++ [new.tag]) entry.tag entry.generation := by
  intro entry hentry
  by_cases htag : entry.tag = new.tag
  case pos =>
    obtain rfl : entry = new :=
      List.inj_on_of_nodup_map htags hentry (List.mem_set hi new) htag
    rw [hgen]
    exact lastUse_concat used _
  case neg =>
    obtain hold | rfl := List.mem_or_eq_of_mem_set hentry
    · exact (hlast entry hold).concat (Ne.symm htag)
    · exact absurd rfl htag

end Entries

section Steps

variable {s s' : LogState} {used : List Nat} {tag : Nat}

theorem Tracked.empty (hcache : s.logCache = []) (hmax : s.logCacheMaxGeneration = 0) :
    Tracked s [] := by
  refine ⟨?_, hmax, ?_, ?_, ?_, ?_⟩
  · rw [hcache]
    exact Nat.zero_le _
  · rw [hcache]
    exact .nil
  · rw [hcache]
    nofun
  · intro _
    rw [hcache]
    exact .nil
  · rw [hcache]
    nofun

theorem Tracked.generations (h : Tracked s used) :
    (s.logCache.map CachedTagEntry.generation).Nodup := generations_nodup h.tags h.last

theorem Tracked.ordered (h : Tracked s used) : Ordered s :=
  ⟨h.tags, fun hfull => ⟨h.heap hfull, h.generations⟩⟩

theorem Tracked.next (h : Tracked s used) (hfew : used.length < 2 ^ 29) (tag : Nat) :
    s.nextGeneration.logCacheMaxGeneration = (used ++ [tag]).length := by
  rw [LogState.nextGeneration, List.length_append, List.length_singleton]
  dsimp only
  rw [h.count]
  omega

theorem Tracked.generation (h : Tracked s used) (hfew : used.length < 2 ^ 29) :
    s.logCacheMaxGeneration % 2 ^ 29 = used.length := by
  rw [h.count]
  exact Nat.mod_eq_of_lt hfew

/-- In a full cache an entry of the last use takes some place and sinks from there. -/
theorem Tracked.renew (h : Tracked s used) (hfew : used.length < 2 ^ 29)
    (hfull : s.logCache.length = tagCacheSize) {i : Nat} {new : CachedTagEntry}
    (hi : i < s.logCache.length) (hgen : new.generation = used.length)
    (htags : ((s.logCache.set i new).map CachedTagEntry.tag).Nodup) :
    Tracked { s.nextGeneration with logCache := heapBubbleDown (s.logCache.set i new) i }
      (used ++ [new.tag]) := by
  have hperm := heapBubbleDown_perm (s.logCache.set i new) i
  have hlast := last_set h.last hi hgen htags
  have hlen : (s.logCache.set i new).length = tagCacheSize := by rw [List.length_set, hfull]
  refine ⟨?_, h.next hfew _, (hperm.map _).nodup_iff.mpr htags,
    fun entry hentry => hlast entry (hperm.mem_iff.mp hentry), fun hlt => ?_, fun _ => ?_⟩
  · rw [hperm.length_eq, hlen]
  · rw [hperm.length_eq, hlen] at hlt
    exact absurd hlt (Nat.lt_irrefl _)
  · refine heapBubbleDown_heap hlen ((h.heap hfull).sinking (generations_nodup htags hlast) ?_)
    intro j entry _ hentry
    rw [hgen]
    exact (h.last entry (List.mem_of_getElem? hentry)).lt

/-- A hit is a use of the tag if the cache is full. -/
theorem Tracked.hit (h : Tracked s used) (hfew : used.length < 2 ^ 29) {level : MolmcLogLevel}
    (hhit : getCachedLogLevel s tag = (some level, s')) :
    Tracked s' (used ++ if s.logCache.length = tagCacheSize then [tag] else []) := by
  rw [getCachedLogLevel] at hhit
  dsimp only at hhit
  split at hhit
  next => cases hhit
  next entry hentry =>
    have hi := (List.getElem?_eq_some_iff.mp hentry).1
    obtain rfl := (findIdx_some hentry).2
    split at hhit
    next hfull =>
      cases hhit
      rw [if_pos hfull]
      refine h.renew hfew hfull hi (h.generation hfew) ?_
      rw [map_set_self hentry]
      · exact h.tags
      · rfl
    next hfull =>
      cases hhit
      rw [if_neg hfull, List.append_nil]
      exact h

/-- An insertion is a use of the tag. -/
theorem Tracked.add (h : Tracked s used) (hfew : used.length < 2 ^ 29)
    (hmiss : tag ∉ s.keys.map Prod.fst) (level : MolmcLogLevel) :
    Tracked (addToCache s tag level) (used ++ [tag]) := by
  rw [keys_tags] at hmiss
  have hgen := h.generation hfew
  rw [addToCache]
  dsimp only
  split
  next hroom =>
    have hbelow : ∀ entry ∈ s.logCache, entry.generation < s.logCacheMaxGeneration % 2 ^ 29 := by
      intro entry hentry
      rw [hgen]
      exact (h.last entry hentry).lt
    have hincreasing : List.Pairwise (fun a b => a.generation < b.generation)
        (s.logCache ++ [⟨tag, level, s.logCacheMaxGeneration % 2 ^ 29⟩]) := by
      refine List.pairwise_append.mpr ⟨h.filling hroom, List.pairwise_singleton _ _, ?_⟩
      intro a ha b hb
      obtain rfl := List.mem_singleton.mp hb
      exact hbelow a ha
    refine ⟨?_, h.next hfew tag, ?_, ?_, fun _ => hincreasing,
      fun _ => minHeap_of_increasing hincreasing⟩
    · rw [List.length_append]
      exact hroom
    · rw [List.map_append, List.nodup_append]
      refine ⟨h.tags, List.pairwise_singleton _ _, ?_⟩
      intro t ht t' ht' heq
      have htag : t' = tag := List.mem_singleton.mp ht'
      rw [heq, htag] at ht
      exact hmiss ht
    · intro entry hentry
      obtain hold | hnew := List.mem_append.mp hentry
      · refine (h.last entry hold).concat fun heq => hmiss ?_
        rw [heq]
        exact List.mem_map_of_mem hold
      · obtain rfl := List.mem_singleton.mp hnew
        dsimp only
        rw [hgen]
        exact lastUse_concat used tag
  next hfull =>
    have hfull : s.logCache.length = tagCacheSize := by
      have hsize := h.size
      omega
    refine h.renew hfew hfull (by rw [hfull]; decide) hgen ?_
    cases hcache : s.logCache with
    | nil => exact .nil
    | cons first rest =>
        have htags := h.tags
        rw [hcache, List.map_cons] at hmiss htags
        rw [List.set_cons_zero, List.map_cons]
        exact List.nodup_cons.mpr
          ⟨fun hmem => hmiss (List.mem_cons_of_mem _ hmem), (List.nodup_cons.mp htags).2⟩

/-- The first entry, whose last use is the oldest, is the one that is replaced. -/
theorem Tracked.evicts (h : Tracked s used) (hfull : s.logCache.length = tagCacheSize)
    (level : MolmcLogLevel) : ∃ victim,
    Replaces s.logCache (addToCache s tag level).logCache victim tag level ∧
      Oldest used s.logCache victim := by
  cases hcache : s.logCache with
  | nil =>
      rw [hcache] at hfull
      cases hfull
  | cons first rest =>
      have hfirst : first ∈ s.logCache := by
        rw [hcache]
        exact List.mem_cons_self
      refine ⟨first, ⟨⟨tag, level, s.logCacheMaxGeneration % 2 ^ 29⟩, rest, rfl, rfl, .refl _, ?_⟩,
        List.mem_cons_self, _, h.last first hfirst, fun entry hentry hne => ?_⟩
      · rw [addToCache]
        dsimp only
        rw [if_neg (by rw [hfull]; exact Nat.lt_irrefl _), hcache, List.set_cons_zero]
        exact heapBubbleDown_perm _ 0
      · rw [← hcache] at hentry
        obtain ⟨i, hi⟩ := List.mem_iff_getElem?.mp hentry
        have hpos : 0 < i := by
          refine Nat.pos_of_ne_zero fun hzero => hne ?_
          rw [hzero, hcache] at hi
          exact (Option.some.inj hi).symm
        have hlt := (h.heap hfull).first_lt (by rw [hcache]; rfl) i entry hpos hi
        exact ⟨_, h.last entry hentry, hlt⟩

/-- The tag and the generation of an entry. -/
def stamp (entry : CachedTagEntry) : Nat × Nat := (entry.tag, entry.generation)

theorem cacheSet_stamps (text : Nat → Bytes) (t : Bytes) (level : MolmcLogLevel)
    (cache : List CachedTagEntry) : (cacheSet text t level cache).map stamp = cache.map stamp := by
  induction cache with
  | nil => rfl
  | cons entry entries ih =>
      rw [cacheSet]
      split
      · rfl
      · rw [List.map_cons, List.map_cons, ih]

/-- The levels of the entries do not matter. -/
theorem Tracked.congr (h : Tracked s used)
    (hmax : s'.logCacheMaxGeneration = s.logCacheMaxGeneration)
    (hstamps : s'.logCache.map stamp = s.logCache.map stamp) : Tracked s' used := by
  have hlen : s'.logCache.length = s.logCache.length := by
    simpa using congrArg List.length hstamps
  have htags : s'.logCache.map CachedTagEntry.tag = s.logCache.map CachedTagEntry.tag := by
    have hmap := congrArg (List.map Prod.fst) hstamps
    rwa [List.map_map, List.map_map] at hmap
  have hgens : s'.logCache.map CachedTagEntry.generation =
      s.logCache.map CachedTagEntry.generation := by
    have hmap := congrArg (List.map Prod.snd) hstamps
    rwa [List.map_map, List.map_map] at hmap
  refine ⟨hlen ▸ h.size, hmax.trans h.count, htags ▸ h.tags, fun entry hentry => ?_,
    fun hroom => ?_, fun hfull => (h.heap (hlen ▸ hfull)).congr hgens⟩
  · have hmem : stamp entry ∈ s.logCache.map stamp := by
      rw [← hstamps]
      exact List.mem_map_of_mem hentry
    obtain ⟨old, hold, heq⟩ := List.mem_map.mp hmem
    have hlast := h.last old hold
    rwa [show old.tag = entry.tag from congrArg Prod.fst heq,
      show old.generation = entry.generation from congrArg Prod.snd heq] at hlast
  · have hincreasing := h.filling (hlen ▸ hroom)
    rw [← List.pairwise_map (f := CachedTagEntry.generation) (R := (· < ·))] at hincreasing ⊢
    rwa [hgens]

end Steps

/-! ## Runs keep it -/

section Runs

variable {text : Nat → Bytes} {m m' : Traced}

theorem uses_concat (history : List Lookup) (l : Lookup) :
    uses (history ++ [l]) = uses history ++ if l.isUse then [l.tag] else [] := by
  rw [uses, List.filter_append, List.map_append, uses]
  cases hl : l.isUse with
  | true => simp [hl]
  | false => simp [hl]

theorem uses_length_le (history : List Lookup) : (uses history).length ≤ history.length := by
  rw [uses, List.length_map]
  exact List.length_filter_le _ _

theorem Tracked.write (h : Tracked m.log (uses m.history)) (hfew : m.history.length < 2 ^ 29)
    (level : MolmcLogLevel) (tag : Nat) :
    Tracked (molmcLogWrite text m.log level tag).2 (uses (m.history ++ [lookup m.log tag])) := by
  have hfew : (uses m.history).length < 2 ^ 29 := Nat.lt_of_le_of_lt (uses_length_le _) hfew
  rw [uses_concat, lookup, molmcLogWrite, levelForTag]
  cases hcached : getCachedLogLevel m.log tag with
  | mk found s =>
      cases found with
      | some level =>
          have hhit := h.hit hfew hcached
          simpa [Lookup.isUse] using hhit
      | none =>
          obtain ⟨hmiss, rfl⟩ := getCachedLogLevel_miss hcached
          exact h.add hfew hmiss _

theorem Tracked.set (h : Tracked m.log (uses m.history)) (tag : Nat) (level : MolmcLogLevel)
    (malloc : Bool) (hwild : text tag ≠ wildcard) :
    Tracked (molmcLogLevelSet text m.log tag level malloc) (uses m.history) := by
  rw [molmcLogLevelSet, if_neg hwild]
  split
  · exact h.congr rfl (cacheSet_stamps ..)
  · split
    · exact h
    · exact h.congr rfl (cacheSet_stamps ..)

/-- The state is tracked if the lookups since the last wildcard are few. -/
def Kept (m : Traced) : Prop := m.history.length < 2 ^ 29 → Tracked m.log (uses m.history)

theorem step_kept (h : Kept m) {a : Action} (hstep : step text m a = .ok m') : Kept m' := by
  cases a with
  | set tag level malloc =>
      cases hstep
      intro hfew
      dsimp only at hfew ⊢
      by_cases hwild : text tag = wildcard
      case pos =>
        rw [molmcLogLevelSet, if_pos hwild, if_pos hwild]
        exact .empty rfl rfl
      case neg =>
        rw [if_neg hwild] at hfew ⊢
        exact (h hfew).set tag level malloc hwild
  | write level tag =>
      cases hstep
      intro hfew
      rw [List.length_append, List.length_singleton] at hfew
      exact (h (by omega)).write (by omega) level tag

theorem run_kept {actions : List Action} (hrun : run (step text) .initial actions = .ok m) :
    Kept m :=
  run_invariant (G := fun _ _ => True) (fun h _ hstep => step_kept h hstep)
    (fun _ => .empty rfl rfl) guarded_true hrun

end Runs

/-- With fewer than 2^29 lookups since the last wildcard a full cache is a heap on distinct
generations, after every lookup, and a tag that is not there replaces the entry whose last use is
the oldest. -/
theorem log_cache_lru (text : Nat → Bytes) (actions : List Action) (m : Traced)
    (hrun : run (step text) .initial actions = .ok m) (hfew : m.history.length < 2 ^ 29)
    (tag : Nat) :
    Ordered m.log ∧ Ordered (getCachedLogLevel m.log tag).2 ∧
      ((getCachedLogLevel m.log tag).1 = none → ∀ level,
        Ordered (addToCache m.log tag level) ∧
          (m.log.logCache.length = tagCacheSize → ∃ victim,
            Replaces m.log.logCache (addToCache m.log tag level).logCache victim tag level ∧
              Oldest (uses m.history) m.log.logCache victim)) := by
  have h := run_kept hrun hfew
  have hused : (uses m.history).length < 2 ^ 29 := Nat.lt_of_le_of_lt (uses_length_le _) hfew
  refine ⟨h.ordered, ?_, fun hnone level => ?_⟩
  · cases hcached : getCachedLogLevel m.log tag with
    | mk found s =>
        cases found with
        | some level => exact (h.hit hused hcached).ordered
        | none =>
            obtain ⟨-, rfl⟩ := getCachedLogLevel_miss hcached
            exact h.ordered
  · have hmiss := (getCachedLogLevel_miss (Prod.ext hnone rfl)).1
    exact ⟨(h.add hused hmiss level).ordered, fun hfull => h.evicts hfull level⟩

/-- The cache is filled up, and its first tag is looked up again. -/
def filledAndUsed : List Action :=
  (List.range tagCacheSize).map (Action.write .error) ++ [.write .error 0]

theorem log_cache_lru_filled : ∃ m, run (step fun _ => [97]) .initial filledAndUsed = .ok m ∧
    Ordered m.log ∧ ∃ victim,
      Replaces m.log.logCache (addToCache m.log 40 .none).logCache victim 40 .none ∧
        Oldest (uses m.history) m.log.logCache victim := by
  obtain ⟨m, hrun, hfew, hfull, hnone⟩ :
      ∃ m, run (step fun _ => [97]) .initial filledAndUsed = .ok m ∧ m.history.length < 2 ^ 29 ∧
        m.log.logCache.length = tagCacheSize ∧ (getCachedLogLevel m.log 40).1 = none :=
    ⟨_, rfl, by decide +kernel, by decide +kernel, by decide +kernel⟩
  have h := log_cache_lru _ filledAndUsed m hrun hfew 40
  exact ⟨m, hrun, h.1, (h.2.2 hnone .none).2 hfull⟩

end Eviction

end IotKit.Log
