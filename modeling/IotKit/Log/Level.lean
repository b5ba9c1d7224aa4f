import IotKit.Lib.BinaryHeap
import IotKit.Lib.Memory

/-!
# Log levels

`iotx_log_api.c`.  The levels are kept in a list under the texts of the tags, and in front
of it in a cache of 31 entries under their addresses.  Once it is full the cache is a heap,
with the entry of the least generation on top.
-/

namespace IotKit.Log

open CMemory

/-- `molmc_log_level_t`. -/
inductive MolmcLogLevel where
  | none
  | error
  | warn
  | info
  | debug
  | verbose
deriving DecidableEq, Repr

def MolmcLogLevel.toNat : MolmcLogLevel → Nat
  | .none => 0
  | .error => 1
  | .warn => 2
  | .info => 3
  | .debug => 4
  | .verbose => 5

/-- `TAG_CACHE_SIZE`. -/
def tagCacheSize : Nat := 31

/-- `"*"`. -/
def wildcard : Bytes := [42]

/-- `cached_tag_entry_t`: the tag is an address, and the generation has 29 bits. -/
structure CachedTagEntry where
  tag : Nat
  level : MolmcLogLevel
  generation : Nat
deriving DecidableEq, Repr

/-- `uncached_tag_entry_t`. -/
structure UncachedTagEntry where
  level : MolmcLogLevel
  tag : Bytes
deriving DecidableEq, Repr

/-- The static variables.  The cache is the list of its entries in use. -/
structure LogState where
  logDefaultLevel : MolmcLogLevel
  logTags : List UncachedTagEntry
  logCache : List CachedTagEntry
  logCacheMaxGeneration : Nat
deriving DecidableEq, Repr

def LogState.initial : LogState := ⟨.none, [], [], 0⟩

/-! ## The heap -/

/-- `heap_swap`. -/
def heapSwap (cache : List CachedTagEntry) (i j : Nat) : List CachedTagEntry :=
  match cache[i]?, cache[j]? with
  | some a, some b => (cache.set i b).set j a
  | _, _ => cache

def generationAt (cache : List CachedTagEntry) (i : Nat) : Nat :=
  match cache[i]? with
  | some entry => entry.generation
  | none => 0

/-- The loop of `heap_bubble_down`.  The index grows with every pass. -/
def heapBubbleDownLoop : (passes : Nat) → (cache : List CachedTagEntry) → (index : Nat) →
    List CachedTagEntry
  | 0, cache, _ => cache
  | passes + 1, cache, index =>
      if index < tagCacheSize / 2 then
        let left := index * 2 + 1
        let right := left + 1
        let next := if generationAt cache left < generationAt cache right then left else right
        heapBubbleDownLoop passes (heapSwap cache index next) next
      else cache

/-- `heap_bubble_down`. -/
def heapBubbleDown (cache : List CachedTagEntry) (index : Nat) : List CachedTagEntry :=
  heapBubbleDownLoop (tagCacheSize / 2) cache index

/-! ## Looking up -/

/-- A generation more. -/
def LogState.nextGeneration (s : LogState) : LogState :=
  { s with logCacheMaxGeneration := (s.logCacheMaxGeneration + 1) % 2 ^ 32 }

/-- `get_cached_log_level`. -/
def getCachedLogLevel (s : LogState) (tag : Nat) : Option MolmcLogLevel × LogState :=
  let i := s.logCache.findIdx (·.tag = tag)
  match s.logCache[i]? with
  | none => (none, s)
  | some entry =>
      if s.logCache.length = tagCacheSize then
        let used := { entry with generation := s.logCacheMaxGeneration % 2 ^ 29 }
        (some entry.level,
          { s.nextGeneration with logCache := heapBubbleDown (s.logCache.set i used) i })
      else (some entry.level, s)

/-- `get_uncached_log_level`. -/
def getUncachedLogLevel (s : LogState) (text : Bytes) : Option MolmcLogLevel :=
  (s.logTags.find? (·.tag = text)).map UncachedTagEntry.level

/-- `add_to_cache`. -/
def addToCache (s : LogState) (tag : Nat) (level : MolmcLogLevel) : LogState :=
  let entry : CachedTagEntry := ⟨tag, level, s.logCacheMaxGeneration % 2 ^ 29⟩
  if s.logCache.length < tagCacheSize then
    { s.nextGeneration with logCache := s.logCache ++ [entry] }
  else { s.nextGeneration with logCache := heapBubbleDown (s.logCache.set 0 entry) 0 }

/-- The level of a text without the cache. -/
def LogState.listed (s : LogState) (text : Bytes) : MolmcLogLevel :=
  (getUncachedLogLevel s text).getD s.logDefaultLevel

section Text

variable (text : Nat → Bytes)

/-- The level that `molmc_log_write` finds for the tag at an address. -/
def levelForTag (s : LogState) (tag : Nat) : MolmcLogLevel × LogState :=
  match getCachedLogLevel s tag with
  | (some level, s) => (level, s)
  | (none, s) =>
      let level := s.listed (text tag)
      (level, addToCache s tag level)

/-- `molmc_log_write`: whether it prints. -/
def molmcLogWrite (s : LogState) (level : MolmcLogLevel) (tag : Nat) : Bool × LogState :=
  let (levelForTag, s) := levelForTag text s tag
  (level.toNat ≤ levelForTag.toNat, s)

/-! ## Setting -/

/-- `clear_log_level_list`. -/
def clearLogLevelList (s : LogState) : LogState :=
  { s with logTags := [], logCache := [], logCacheMaxGeneration := 0 }

/-- The level of the first entry of the list with a text is set, where there is one. -/
def tagsSet (t : Bytes) (level : MolmcLogLevel) :
    List UncachedTagEntry → Option (List UncachedTagEntry)
  | [] => none
  | entry :: entries =>
      if entry.tag = t then some ({ entry with level } :: entries)
      else (tagsSet t level entries).map (entry :: ·)

/-- The level of the first entry of the cache with a text is set. -/
def cacheSet (t : Bytes) (level : MolmcLogLevel) : List CachedTagEntry → List CachedTagEntry
  | [] => []
  | entry :: entries =>
      if text entry.tag = t then { entry with level } :: entries
      else entry :: cacheSet t level entries

/-- `molmc_log_level_set`, where `malloc` succeeds or not. -/
def molmcLogLevelSet (s : LogState) (tag : Nat) (level : MolmcLogLevel) (malloc : Bool) :
    LogState :=
  if text tag = wildcard then clearLogLevelList { s with logDefaultLevel := level }
  else
    match tagsSet (text tag) level s.logTags with
    | some logTags =>
        { s with logTags, logCache := cacheSet text (text tag) level s.logCache }
    | none =>
        if malloc = false then s
        else
          { s with
            logTags := ⟨level, text tag⟩ :: s.logTags
            logCache := cacheSet text (text tag) level s.logCache }

end Text

/-! ## What the functions do -/

theorem heapSwap_eq (cache : List CachedTagEntry) (i j : Nat) :
    heapSwap cache i j = BinaryHeap.swap cache i j := by
  rw [heapSwap, BinaryHeap.swap]
  cases cache[i]? with
  | none => rfl
  | some a =>
      cases cache[j]? with
      | none => rfl
      | some b => rfl

theorem heapBubbleDownLoop_perm (passes : Nat) (cache : List CachedTagEntry) (index : Nat) :
    (heapBubbleDownLoop passes cache index).Perm cache := by
  induction passes generalizing cache index with
  | zero => exact .refl _
  | succ passes ih =>
      rw [heapBubbleDownLoop]
      split
      · dsimp only
        rw [heapSwap_eq]
        exact (ih _ _).trans (BinaryHeap.swap_perm _ _ _)
      · exact .refl _

theorem heapBubbleDown_perm (cache : List CachedTagEntry) (index : Nat) :
    (heapBubbleDown cache index).Perm cache := heapBubbleDownLoop_perm _ _ _

/-- The address and the level of an entry. -/
def CachedTagEntry.key (entry : CachedTagEntry) : Nat × MolmcLogLevel := (entry.tag, entry.level)

def LogState.keys (s : LogState) : List (Nat × MolmcLogLevel) :=
  s.logCache.map CachedTagEntry.key

theorem findIdx_none {s : LogState} {tag : Nat}
    (h : s.logCache[s.logCache.findIdx (·.tag = tag)]? = none) :
    tag ∉ s.keys.map Prod.fst := by
  rw [LogState.keys, List.map_map]
  intro hmem
  obtain ⟨entry, hentry, htag⟩ := List.mem_map.mp hmem
  have hlt : s.logCache.findIdx (·.tag = tag) < s.logCache.length :=
    List.findIdx_lt_length_of_exists ⟨entry, hentry, decide_eq_true htag⟩
  exact absurd (List.getElem?_eq_none_iff.mp h) (Nat.not_le.mpr hlt)

theorem findIdx_some {s : LogState} {tag : Nat} {entry : CachedTagEntry}
    (h : s.logCache[s.logCache.findIdx (·.tag = tag)]? = some entry) :
    entry ∈ s.logCache ∧ entry.tag = tag := by
  obtain ⟨hlt, rfl⟩ := List.getElem?_eq_some_iff.mp h
  exact ⟨List.getElem_mem hlt, of_decide_eq_true (List.findIdx_getElem (w := hlt))⟩

/-- An entry that keeps what `f` sees of the old one. -/
theorem map_set_self {α β : Type} {xs : List α} {i : Nat} {a b : α} {f : α → β}
    (ha : xs[i]? = some a) (hf : f b = f a) : (xs.set i b).map f = xs.map f := by
  obtain ⟨hi, rfl⟩ := List.getElem?_eq_some_iff.mp ha
  have hi' : i < (xs.map f).length := by rwa [List.length_map]
  have hget : f xs[i] = (xs.map f)[i] := (List.getElem_map f).symm
  rw [List.map_set, hf, hget, List.set_getElem_self]

/-- A hit returns the level of the entry, and the cache keeps its entries. -/
theorem getCachedLogLevel_hit {s s' : LogState} {tag : Nat} {level : MolmcLogLevel}
    (h : getCachedLogLevel s tag = (some level, s')) :
    (tag, level) ∈ s.keys ∧ s'.keys.Perm s.keys ∧ s'.logTags = s.logTags ∧
      s'.logDefaultLevel = s.logDefaultLevel := by
  rw [getCachedLogLevel] at h
  dsimp only at h
  split at h
  · cases h
  next entry hentry =>
    obtain ⟨hmem, htag⟩ := findIdx_some hentry
    have hkey : (tag, entry.level) ∈ s.keys := by
      rw [← htag]
      exact List.mem_map_of_mem hmem
    split at h
    · cases h
      refine ⟨hkey, ?_, rfl, rfl⟩
      exact ((heapBubbleDown_perm _ _).map CachedTagEntry.key).trans
        (.of_eq (map_set_self hentry rfl))
    · cases h
      exact ⟨hkey, .refl _, rfl, rfl⟩

theorem getCachedLogLevel_miss {s s' : LogState} {tag : Nat}
    (h : getCachedLogLevel s tag = (none, s')) : tag ∉ s.keys.map Prod.fst ∧ s' = s := by
  rw [getCachedLogLevel] at h
  dsimp only at h
  split at h
  next hnone =>
    cases h
    exact ⟨findIdx_none hnone, rfl⟩
  next entry hentry =>
    split at h
    · cases h
    · cases h

/-- The new entry is one more, or it takes the place of another. -/
theorem addToCache_keys (s : LogState) (tag : Nat) (level : MolmcLogLevel) :
    ∃ kept, kept.Sublist s.keys ∧ (addToCache s tag level).keys.Perm ((tag, level) :: kept) := by
  rw [addToCache]
  split
  next =>
    refine ⟨s.keys, .refl _, ?_⟩
    rw [LogState.keys, List.map_append]
    exact List.perm_append_singleton _ _
  next hfull =>
    refine ⟨s.keys.tail, List.tail_sublist _, ?_⟩
    generalize hentry : (⟨tag, level, s.logCacheMaxGeneration % 2 ^ 29⟩ : CachedTagEntry) = entry
    have hperm := (heapBubbleDown_perm (s.logCache.set 0 entry) 0).map CachedTagEntry.key
    rw [LogState.keys, LogState.keys]
    cases hcache : s.logCache with
    | nil =>
        rw [hcache] at hfull
        exact absurd (show 0 < tagCacheSize by decide) hfull
    | cons first entries =>
        rw [hcache, List.set_cons_zero, List.map_cons, ← hentry] at hperm
        rw [List.map_cons, List.tail_cons, ← hentry]
        exact hperm

theorem addToCache_list (s : LogState) (tag : Nat) (level : MolmcLogLevel) :
    (addToCache s tag level).logTags = s.logTags ∧
      (addToCache s tag level).logDefaultLevel = s.logDefaultLevel := by
  rw [addToCache]
  split
  · exact ⟨rfl, rfl⟩
  · exact ⟨rfl, rfl⟩

theorem tagsSet_none {t : Bytes} {level : MolmcLogLevel} {entries : List UncachedTagEntry} :
    tagsSet t level entries = none ↔ ∀ entry ∈ entries, entry.tag ≠ t := by
  induction entries with
  | nil => exact ⟨fun _ => nofun, fun _ => rfl⟩
  | cons entry entries ih =>
      rw [tagsSet, List.forall_mem_cons]
      split
      next htag => exact ⟨nofun, fun h => absurd htag h.1⟩
      next htag =>
        rw [Option.map_eq_none_iff, ih]
        exact ⟨fun h => ⟨htag, h⟩, fun h => h.2⟩

/-- The level of the text is set, and no other. -/
theorem tagsSet_find {t : Bytes} {level : MolmcLogLevel}
    {entries entries' : List UncachedTagEntry} (h : tagsSet t level entries = some entries')
    (t' : Bytes) :
    (entries'.find? (·.tag = t')).map UncachedTagEntry.level =
      if t' = t then some level
      else (entries.find? (·.tag = t')).map UncachedTagEntry.level := by
  induction entries generalizing entries' with
  | nil => cases h
  | cons entry entries ih =>
      rw [tagsSet] at h
      split at h
      next htag =>
        cases h
        rw [List.find?_cons, List.find?_cons]
        by_cases ht : t' = t
        · rw [if_pos ht]
          simp [htag, ht]
        · rw [if_neg ht]
          simp [htag, Ne.symm ht]
      next htag =>
        obtain ⟨rest, hrest, rfl⟩ := Option.map_eq_some_iff.mp h
        rw [List.find?_cons, List.find?_cons]
        by_cases ht : entry.tag = t'
        · have hne : t' ≠ t := fun heq => htag (ht.trans heq)
          simp [ht, hne]
        · simp only [ht, decide_false]
          exact ih hrest

section Text

variable {text : Nat → Bytes} {t : Bytes} {level : MolmcLogLevel} {cache : List CachedTagEntry}

theorem cacheSet_tags :
    (cacheSet text t level cache).map CachedTagEntry.tag = cache.map CachedTagEntry.tag := by
  induction cache with
  | nil => rfl
  | cons entry entries ih =>
      rw [cacheSet]
      split
      · rfl
      · rw [List.map_cons, List.map_cons, ih]

theorem mem_cacheSet {entry : CachedTagEntry} (h : entry ∈ cacheSet text t level cache) :
    entry ∈ cache ∨ text entry.tag = t ∧ entry.level = level := by
  induction cache with
  | nil => cases h
  | cons first entries ih =>
      rw [cacheSet] at h
      split at h
      next htext =>
        cases h with
        | head => exact Or.inr ⟨htext, rfl⟩
        | tail _ h => exact Or.inl (List.mem_cons_of_mem _ h)
      next =>
        cases h with
        | head => exact Or.inl List.mem_cons_self
        | tail _ h => exact (ih h).imp_left (List.mem_cons_of_mem _)

/-- No entry but the first with the text is set. -/
theorem cacheSet_first :
    ∃ tag, ∀ entry ∈ cache, entry.tag ≠ tag → entry ∈ cacheSet text t level cache := by
  induction cache with
  | nil => exact ⟨0, nofun⟩
  | cons first entries ih =>
      rw [cacheSet]
      split
      next =>
        refine ⟨first.tag, fun entry hentry hne => ?_⟩
        cases hentry with
        | head => exact absurd rfl hne
        | tail _ hentry => exact List.mem_cons_of_mem _ hentry
      next =>
        obtain ⟨tag, htag⟩ := ih
        refine ⟨tag, fun entry hentry hne => ?_⟩
        cases hentry with
        | head => exact List.mem_cons_self
        | tail _ hentry => exact List.mem_cons_of_mem _ (htag entry hentry hne)

/-- Where a text is in the cache under one address, its level is set there. -/
theorem cacheSet_level (htags : (cache.map CachedTagEntry.tag).Nodup)
    (hunique : ∀ entry ∈ cache, ∀ entry' ∈ cache, text entry.tag = t → text entry'.tag = t →
      entry.tag = entry'.tag)
    {entry : CachedTagEntry} (h : entry ∈ cacheSet text t level cache)
    (htext : text entry.tag = t) : entry.level = level := by
  induction cache with
  | nil => cases h
  | cons first entries ih =>
      obtain ⟨hfirst, htags⟩ := List.nodup_cons.mp htags
      rw [cacheSet] at h
      split at h
      next htext' =>
        cases h with
        | head => rfl
        | tail _ h =>
            have heq :=
              hunique entry (List.mem_cons_of_mem _ h) first List.mem_cons_self htext htext'
            exact absurd (heq ▸ List.mem_map_of_mem h) hfirst
      next htext' =>
        cases h with
        | head => exact absurd htext htext'
        | tail _ h =>
            exact ih htags (fun e he e' he' =>
              hunique e (List.mem_cons_of_mem _ he) e' (List.mem_cons_of_mem _ he')) h

end Text

end IotKit.Log
