import Mathlib.Data.List.Nodup
import IotKit.Lib.Run
import IotKit.Log.Level

/-!
# Coherence of the cache

The levels are meant as a table from texts to levels.  The cache finds an entry by its
address, but `molmc_log_level_set` updates only the first entry with the text, so that the
same text at another address keeps its old level.  The level in use is that of the table
exactly as long as no level is changed whose text is in the cache twice, or for which there
is no memory.
-/

namespace IotKit.Log

open CMemory Runs

/-! ## The table -/

/-- The level of each text. -/
abbrev Levels := Bytes → MolmcLogLevel

/-- Setting the wildcard sets all texts. -/
def Levels.set (levels : Levels) (t : Bytes) (level : MolmcLogLevel) : Levels :=
  if t = wildcard then fun _ => level
  else fun t' => if t' = t then level else levels t'

/-- The variables, and the table that the same calls make. -/
structure Logged where
  log : LogState
  levels : Levels

def Logged.initial : Logged := ⟨.initial, fun _ => .none⟩

inductive Action where
  | set (tag : Nat) (level : MolmcLogLevel) (malloc : Bool)
  | write (level : MolmcLogLevel) (tag : Nat)
deriving DecidableEq, Repr

section Text

variable (text : Nat → Bytes)

def step (m : Logged) : Action → Except Empty Logged
  | .set tag level malloc =>
      .ok ⟨molmcLogLevelSet text m.log tag level malloc, m.levels.set (text tag) level⟩
  | .write level tag => .ok { m with log := (molmcLogWrite text m.log level tag).2 }

/-- The level that is used for each tag is that of its text in the table. -/
def Coherent (m : Logged) : Prop := ∀ tag, (levelForTag text m.log tag).1 = m.levels (text tag)

/-- A level is set that the tag has already; or the text is in the list or can be put there,
and it is in the cache under one address at most. -/
def Updates (s : LogState) : Action → Prop
  | .set tag level malloc =>
      text tag = wildcard ∨ s.listed (text tag) = level ∨
        ((∃ entry ∈ s.logTags, entry.tag = text tag) ∨ malloc = true) ∧
          ∀ entry ∈ s.logCache, ∀ entry' ∈ s.logCache, text entry.tag = text tag →
            text entry'.tag = text tag → entry.tag = entry'.tag
  | .write _ _ => True

/-! ## The invariant -/

/-- The list is the table, and the cache agrees with it. -/
structure Cached (m : Logged) : Prop where
  listed : ∀ t, m.log.listed t = m.levels t
  keys : ∀ k ∈ m.log.keys, k.2 = m.levels (text k.1)
  tags : (m.log.keys.map Prod.fst).Nodup

end Text

variable {text : Nat → Bytes} {m m' : Logged}

theorem Cached.initial : Cached text .initial := ⟨fun _ => rfl, nofun, .nil⟩

theorem keys_tags (s : LogState) : s.keys.map Prod.fst = s.logCache.map CachedTagEntry.tag := by
  rw [LogState.keys, List.map_map]
  rfl

theorem Cached.entry (h : Cached text m) {entry : CachedTagEntry} (he : entry ∈ m.log.logCache) :
    entry.level = m.levels (text entry.tag) := h.keys entry.key (List.mem_map_of_mem he)

theorem LogState.listed_congr {s s' : LogState} (htags : s'.logTags = s.logTags)
    (hdefault : s'.logDefaultLevel = s.logDefaultLevel) (t : Bytes) : s'.listed t = s.listed t := by
  rw [LogState.listed, LogState.listed, getUncachedLogLevel, getUncachedLogLevel, htags, hdefault]

/-- The level of a lookup, and what it leaves. -/
theorem Cached.levelForTag (h : Cached text m) (tag : Nat) :
    (levelForTag text m.log tag).1 = m.levels (text tag) ∧
      Cached text { m with log := (Log.levelForTag text m.log tag).2 } := by
  cases hcached : getCachedLogLevel m.log tag with
  | mk found s =>
      rw [Log.levelForTag, hcached]
      cases found with
      | some level =>
          obtain ⟨hkey, hperm, htags, hdefault⟩ := getCachedLogLevel_hit hcached
          refine ⟨h.keys (tag, level) hkey, fun t => ?_, fun k hk => ?_, ?_⟩
          · exact (LogState.listed_congr htags hdefault t).trans (h.listed t)
          · exact h.keys k (hperm.mem_iff.mp hk)
          · exact (hperm.map Prod.fst).nodup_iff.mpr h.tags
      | none =>
          obtain ⟨hmiss, rfl⟩ := getCachedLogLevel_miss hcached
          obtain ⟨htags, hdefault⟩ := addToCache_list m.log tag (m.log.listed (text tag))
          obtain ⟨kept, hkept, hperm⟩ := addToCache_keys m.log tag (m.log.listed (text tag))
          refine ⟨h.listed _, fun t => ?_, fun k hk => ?_, ?_⟩
          · exact (LogState.listed_congr htags hdefault t).trans (h.listed t)
          · cases hperm.mem_iff.mp hk with
            | head => exact h.listed _
            | tail _ hk => exact h.keys k (hkept.subset hk)
          · refine (hperm.map Prod.fst).nodup_iff.mpr (List.nodup_cons.mpr ⟨fun hmem => ?_, ?_⟩)
            · exact hmiss ((hkept.map Prod.fst).subset hmem)
            · exact h.tags.sublist (hkept.map Prod.fst)

theorem Cached.coherent (h : Cached text m) : Coherent text m := fun tag => (h.levelForTag tag).1

/-! ## Setting a level -/

/-- The list after a level is set, where it is set. -/
theorem listed_set {s s' : LogState} {t : Bytes} {level : MolmcLogLevel}
    (hdefault : s'.logDefaultLevel = s.logDefaultLevel)
    (htags : tagsSet t level s.logTags = some s'.logTags ∨
      tagsSet t level s.logTags = none ∧ s'.logTags = ⟨level, t⟩ :: s.logTags) (t' : Bytes) :
    s'.listed t' = if t' = t then level else s.listed t' := by
  rw [LogState.listed, LogState.listed, getUncachedLogLevel, getUncachedLogLevel, hdefault]
  obtain hset | ⟨-, hset⟩ := htags
  · rw [tagsSet_find hset t']
    split
    · rfl
    · rfl
  · rw [hset, List.find?_cons]
    by_cases ht : t' = t
    · simp [ht]
    · simp [ht, Ne.symm ht]

/-- What `molmc_log_level_set` does with a text. -/
theorem molmcLogLevelSet_cases (s : LogState) {tag : Nat} (level : MolmcLogLevel) (malloc : Bool)
    (hwild : text tag ≠ wildcard) :
    ((∃ entry ∈ s.logTags, entry.tag = text tag) ∨ malloc = true) ∧
        (∀ t, (molmcLogLevelSet text s tag level malloc).listed t =
          if t = text tag then level else s.listed t) ∧
        (molmcLogLevelSet text s tag level malloc).logCache =
          cacheSet text (text tag) level s.logCache ∨
      ¬((∃ entry ∈ s.logTags, entry.tag = text tag) ∨ malloc = true) ∧
        molmcLogLevelSet text s tag level malloc = s := by
  rw [molmcLogLevelSet, if_neg hwild]
  cases htags : tagsSet (text tag) level s.logTags with
  | some logTags =>
      have hlisted : ∃ entry ∈ s.logTags, entry.tag = text tag := by
        by_contra hnot
        have hnone : tagsSet (text tag) level s.logTags = none :=
          tagsSet_none.mpr fun entry hentry heq => hnot ⟨entry, hentry, heq⟩
        rw [htags] at hnone
        cases hnone
      exact Or.inl ⟨Or.inl hlisted, listed_set rfl (Or.inl htags), rfl⟩
  | none =>
      have hnot : ¬∃ entry ∈ s.logTags, entry.tag = text tag := fun ⟨entry, hentry, heq⟩ =>
        tagsSet_none.mp htags entry hentry heq
      cases malloc with
      | false => exact Or.inr ⟨fun h => h.elim hnot (by decide), rfl⟩
      | true => exact Or.inl ⟨Or.inr rfl, listed_set rfl (Or.inr ⟨htags, rfl⟩), rfl⟩

theorem Cached.set (h : Cached text m) {tag : Nat} {level : MolmcLogLevel} {malloc : Bool}
    (hupdates : Updates text m.log (.set tag level malloc)) :
    Cached text ⟨molmcLogLevelSet text m.log tag level malloc,
      m.levels.set (text tag) level⟩ := by
  by_cases hwild : text tag = wildcard
  · rw [molmcLogLevelSet, if_pos hwild, Levels.set, if_pos hwild]
    exact ⟨fun _ => rfl, nofun, .nil⟩
  have hlevels : m.levels.set (text tag) level =
      fun t => if t = text tag then level else m.levels t := by rw [Levels.set, if_neg hwild]
  rw [hlevels]
  obtain ⟨-, hlisted, hcache⟩ | ⟨hfailed, heq⟩ :=
    molmcLogLevelSet_cases m.log level malloc hwild
  · refine ⟨fun t => ?_, fun k hk => ?_, ?_⟩
    · rw [hlisted, h.listed]
    · obtain ⟨entry, hentry, rfl⟩ := List.mem_map.mp hk
      rw [hcache] at hentry
      show entry.level = if text entry.tag = text tag then level else m.levels (text entry.tag)
      split
      next htext =>
        obtain hw | hsame | ⟨-, hunique⟩ := hupdates
        · exact absurd hw hwild
        · obtain hold | hnew := mem_cacheSet hentry
          · rw [h.entry hold, htext, ← h.listed, hsame]
          · exact hnew.2
        · exact cacheSet_level (keys_tags m.log ▸ h.tags) hunique hentry htext
      next htext =>
        obtain hold | hnew := mem_cacheSet hentry
        · exact h.entry hold
        · exact absurd hnew.1 htext
    · rw [keys_tags, hcache, cacheSet_tags, ← keys_tags]
      exact h.tags
  · -- there is no memory, and the tag has the level already
    have hsame : m.levels (text tag) = level := by
      obtain hw | hsame | ⟨hset, -⟩ := hupdates
      · exact absurd hw hwild
      · rw [← h.listed, hsame]
      · exact absurd hset hfailed
    have hlevels' : (fun t => if t = text tag then level else m.levels t) = m.levels := by
      funext t
      split
      next ht => rw [ht, hsame]
      next => rfl
    rw [heq, hlevels']
    exact ⟨h.listed, h.keys, h.tags⟩

/-- The level of an entry is used for its tag. -/
theorem levelForTag_of_mem {s : LogState} (htags : (s.keys.map Prod.fst).Nodup)
    {entry : CachedTagEntry} (hentry : entry ∈ s.logCache) :
    (levelForTag text s entry.tag).1 = entry.level := by
  cases hcached : getCachedLogLevel s entry.tag with
  | mk found s' =>
      rw [levelForTag, hcached]
      cases found with
      | some level =>
          obtain ⟨hkey, -⟩ := getCachedLogLevel_hit hcached
          exact congrArg Prod.snd (List.inj_on_of_nodup_map htags hkey
            (List.mem_map_of_mem hentry) rfl)
      | none =>
          refine absurd ?_ (getCachedLogLevel_miss hcached).1
          rw [keys_tags]
          exact List.mem_map_of_mem hentry

/-- Otherwise a level is used that is not that of the table. -/
theorem Cached.stale (h : Cached text m) {a : Action} (ha : ¬Updates text m.log a) :
    ∃ m', step text m a = .ok m' ∧ ¬Coherent text m' := by
  cases a with
  | write level tag => exact absurd trivial ha
  | set tag level malloc =>
      refine ⟨_, rfl, fun hcoherent => ?_⟩
      rw [Updates, not_or, not_or, not_and] at ha
      obtain ⟨hwild, hsame, htwice⟩ := ha
      have hold : m.levels (text tag) ≠ level := by rwa [← h.listed]
      have hlevels : m.levels.set (text tag) level (text tag) = level := by
        rw [Levels.set, if_neg hwild, if_pos rfl]
      obtain ⟨hset, -, hcache⟩ | ⟨-, heq⟩ := molmcLogLevelSet_cases m.log level malloc hwild
      · obtain ⟨other, hother⟩ : ∃ other, ∀ entry ∈ m.log.logCache, entry.tag ≠ other →
            entry ∈ cacheSet text (text tag) level m.log.logCache := cacheSet_first
        have hstale : ∃ entry ∈ m.log.logCache, text entry.tag = text tag ∧ entry.tag ≠ other := by
          by_contra hnone
          refine htwice hset fun e he e' he' ht ht' => ?_
          have hfirst : e.tag = other := by
            by_contra hne
            exact hnone ⟨e, he, ht, hne⟩
          have hsecond : e'.tag = other := by
            by_contra hne
            exact hnone ⟨e', he', ht', hne⟩
          rw [hfirst, hsecond]
        obtain ⟨entry, hentry, htext, hne⟩ := hstale
        have hmem : entry ∈ (molmcLogLevelSet text m.log tag level malloc).logCache := by
          rw [hcache]
          exact hother entry hentry hne
        have htags : ((molmcLogLevelSet text m.log tag level malloc).keys.map Prod.fst).Nodup := by
          rw [keys_tags, hcache, cacheSet_tags, ← keys_tags]
          exact h.tags
        have hused := hcoherent entry.tag
        dsimp only at hused
        rw [levelForTag_of_mem htags hmem, h.entry hentry, htext, hlevels] at hused
        exact hold hused
      · have hused := hcoherent tag
        dsimp only at hused
        rw [heq, (h.levelForTag tag).1, hlevels] at hused
        exact hold hused

theorem Cached.step (h : Cached text m) {a : Action} (ha : Updates text m.log a)
    (hstep : step text m a = .ok m') : Cached text m' := by
  cases a with
  | set tag level malloc =>
      cases hstep
      exact h.set ha
  | write level tag =>
      cases hstep
      exact (h.levelForTag tag).2

/-- All along a run the level used for a tag is that of its text in the table exactly if every
level that is set updates the list and the cache. -/
theorem coherent_iff (text : Nat → Bytes) (actions : List Action) :
    (∀ done m, done <+: actions → run (step text) .initial done = .ok m → Coherent text m) ↔
      Guarded (step text) (fun m a => Updates text m.log a) .initial actions :=
  always_good_iff Cached.coherent (fun h ha => h.step ha) (fun h ha => h.stale ha)
    Cached.initial

/-- The tag `"a"` at two addresses, which are both in the cache when its level is set. -/
def sameTextTwice : List Action :=
  [.write .error 1, .write .error 2, .set 1 .debug true]

theorem not_coherent_sameTextTwice :
    ∃ m, run (step fun _ => [97]) .initial sameTextTwice = .ok m ∧
      (levelForTag (fun _ => [97]) m.log 2).1 = .none ∧ m.levels [97] = .debug ∧
      ¬Coherent (fun _ => [97]) m := by
  refine ⟨_, rfl, rfl, rfl, fun h => ?_⟩
  cases h 2

end IotKit.Log
