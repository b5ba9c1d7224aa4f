import IotKit.Mqtt.Topic
import Mathlib.Data.List.Basic

/-!
# Matching by levels

MQTT 3.1.1 matches a topic name against a filter level by level (`LevelsMatch`).
`iotx_mc_is_topic_matched` walks over the characters of both at once; on the levels
it computes `strict`, where no wildcard stands for an empty level and `#` stands for
one level at least.
-/

namespace IotKit.Mqtt

open CMemory

/-! ## Levels -/

inductive Level where
  | text (s : Bytes)
  | single
  | multi
deriving DecidableEq, Repr

/-- The levels of a topic name, or the spelled levels of a filter. -/
def levelsOf (topic : Bytes) : List Bytes := topic.splitOn slash

def levelOf (s : Bytes) : Level :=
  if s = [plus] then .single else if s = [hash] then .multi else .text s

/-- A topic filter: the wildcards are whole levels, and `#` is the last. -/
structure TopicFilter where
  text : Bytes
  whole : ∀ l ∈ levelsOf text, plus ∈ l ∨ hash ∈ l → l = [plus] ∨ l = [hash]
  last : ∀ l ∈ (levelsOf text).dropLast, l ≠ [hash]

def TopicFilter.levels (filter : TopicFilter) : List Level := (levelsOf filter.text).map levelOf

/-- `+` stands for one level, `#` for the rest, also where there is none. -/
inductive LevelsMatch : List Level → List Bytes → Prop
  | nil : LevelsMatch [] []
  | text {s fs ns} : LevelsMatch fs ns → LevelsMatch (.text s :: fs) (s :: ns)
  | single {n fs ns} : LevelsMatch fs ns → LevelsMatch (.single :: fs) (n :: ns)
  | multi {ns} : LevelsMatch [.multi] ns

/-- Each wildcard stands at a level of the name that is not empty. -/
def Filled : List Level → List Bytes → Prop
  | .text _ :: fs, _ :: ns => Filled fs ns
  | .single :: fs, n :: ns => n ≠ [] ∧ Filled fs ns
  | .multi :: _, n :: _ => n ≠ []
  | .multi :: _, [] => False
  | _, _ => True

/-- What the code computes. -/
def strict : List Level → List Bytes → Bool
  | [], [] => true
  | .text s :: fs, n :: ns => decide (s = n) && strict fs ns
  | .single :: fs, n :: ns => decide (n ≠ []) && strict fs ns
  | .multi :: _, n :: _ => decide (n ≠ [])
  | _, _ => false

theorem strict_iff {fs : List Level} (hlast : ∀ l ∈ fs.dropLast, l ≠ .multi) (ns : List Bytes) :
    strict fs ns = true ↔ LevelsMatch fs ns ∧ Filled fs ns := by
  induction fs generalizing ns with
  | nil =>
      cases ns with
      | nil => exact ⟨fun _ => ⟨.nil, trivial⟩, fun _ => rfl⟩
      | cons n ns => exact ⟨nofun, fun h => nomatch h.1⟩
  | cons f fs ih =>
      have hrest : ∀ l ∈ fs.dropLast, l ≠ .multi := fun l hl => hlast l (by
        cases fs with
        | nil => cases hl
        | cons g gs => exact List.mem_cons_of_mem f hl)
      cases ns with
      | nil =>
          cases f with
          | multi => exact ⟨nofun, fun h => h.2.elim⟩
          | _ => exact ⟨nofun, fun h => nomatch h.1⟩
      | cons n ns =>
          cases f with
          | text s =>
              simp only [strict, Filled, Bool.and_eq_true, decide_eq_true_eq, ih hrest]
              constructor
              · rintro ⟨rfl, hmatch, hfilled⟩
                exact ⟨.text hmatch, hfilled⟩
              · rintro ⟨hmatch, hfilled⟩
                cases hmatch with
                | text hmatch => exact ⟨rfl, hmatch, hfilled⟩
          | single =>
              simp only [strict, Filled, Bool.and_eq_true, decide_eq_true_eq, ih hrest]
              constructor
              · rintro ⟨hne, hmatch, hfilled⟩
                exact ⟨.single hmatch, hne, hfilled⟩
              · rintro ⟨hmatch, hne, hfilled⟩
                cases hmatch with
                | single hmatch => exact ⟨hne, hmatch, hfilled⟩
          | multi =>
              have hfs : fs = [] := by
                cases fs with
                | nil => rfl
                | cons g gs => exact absurd rfl (hlast .multi (by simp))
              subst hfs
              simp only [strict, Filled, decide_eq_true_eq]
              exact ⟨fun hne => ⟨.multi, hne⟩, fun h => h.2⟩

/-! ## The walk over the characters -/

/-- A topic name whose characters are the bytes of a list. -/
def TopicName.ofBytes (b : Bytes) : TopicName := ⟨b.length, fun i => load b i⟩

theorem ofBytes_char (done : Bytes) (c : UInt8) (rest : Bytes) :
    (TopicName.ofBytes (done ++ c :: rest)).char done.length = .ok c := by
  rw [TopicName.ofBytes, load_eq_ok]
  simp

/-- Not the end of a level. -/
def inLevel (c : UInt8) : Bool := c ≠ slash

theorem skipLevel_eq (rest : Bytes) : ∀ (done : Bytes) (c : UInt8),
    skipLevel (.ofBytes (done ++ c :: rest)) done.length =
      .ok (done.length + (rest.takeWhile inLevel).length) := by
  induction rest with
  | nil =>
      intro done c
      rw [skipLevel, if_neg (by simp [TopicName.ofBytes])]
      rfl
  | cons d rest ih =>
      intro done c
      have hlt : done.length + 1 < (TopicName.ofBytes (done ++ c :: d :: rest)).len := by
        simp [TopicName.ofBytes]
      have hchar := ofBytes_char (done ++ [c]) d rest
      have hnext := ih (done ++ [c]) d
      simp only [List.append_assoc, List.length_append, List.cons_append, List.nil_append,
        List.length_cons, List.length_nil] at hchar hnext
      rw [skipLevel, if_pos hlt, hchar, ok_bind]
      by_cases hd : d = slash
      · simp [inLevel, hd]
      · rw [if_neg hd, hnext]
        simp [inLevel, hd]
        omega

/-- `matchLoop` on what is left of the name. -/
def matchRest : Bytes → Bytes → Bool
  | [], rest => decide (rest = [])
  | _ :: _, [] => false
  | f :: curf, c :: rest =>
      if c = slash ∧ f ≠ slash then false
      else if f ≠ plus ∧ f ≠ hash ∧ f ≠ c then false
      else if f = plus then matchRest curf (rest.dropWhile inLevel)
      else if f = hash then matchRest curf []
      else matchRest curf rest

theorem matchLoop_eq (curf : Bytes) : ∀ (done rest : Bytes),
    matchLoop (.ofBytes (done ++ rest)) curf done.length = .ok (matchRest curf rest) := by
  induction curf with
  | nil =>
      intro done rest
      rw [matchLoop, matchRest]
      cases rest <;> simp [TopicName.ofBytes]
  | cons f curf ih =>
      intro done rest
      cases rest with
      | nil => rw [matchLoop, if_neg (by simp [TopicName.ofBytes]), matchRest]
      | cons c rest =>
          have hnext := ih (done ++ [c]) rest
          have hend := ih (done ++ c :: rest) []
          have hskip := ih (done ++ c :: rest.takeWhile inLevel) (rest.dropWhile inLevel)
          have hsplit : rest.takeWhile inLevel ++ rest.dropWhile inLevel = rest :=
            List.takeWhile_append_dropWhile
          simp only [List.append_assoc, List.cons_append, List.nil_append, List.append_nil, hsplit,
            List.length_append, List.length_cons, List.length_nil] at hnext hend hskip
          rw [matchLoop, if_pos (by simp [TopicName.ofBytes]), ofBytes_char, ok_bind, matchRest,
            skipLevel_eq, ok_bind]
          split
          · rfl
          split
          · rfl
          split
          · exact hskip
          split
          · simpa [TopicName.ofBytes] using hend
          · exact hnext

/-! ## The walk over the levels -/

/-- The levels after the first. -/
def tailText (levels : List Bytes) : Bytes := levels.flatMap (slash :: ·)

theorem intercalate_eq (l : Bytes) (ls : List Bytes) :
    [slash].intercalate (l :: ls) = l ++ tailText ls := by
  induction ls generalizing l with
  | nil => simp [tailText]
  | cons m ls ih =>
      rw [List.intercalate_cons_cons, ih]
      simp [tailText]

theorem slash_notMem_levelsOf {topic : Bytes} : ∀ l ∈ levelsOf topic, slash ∉ l := by
  induction topic with
  | nil => simp [levelsOf]
  | cons c topic ih =>
      rw [levelsOf, List.splitOn_cons_eq_if_modifyHead]
      obtain ⟨m, ms, hms⟩ := List.exists_cons_of_ne_nil (List.splitOn_ne_nil slash topic)
      rw [levelsOf, hms] at ih
      split
      next hc =>
        intro l hl
        rw [hms] at hl
        cases hl with
        | head => simp
        | tail _ hl => exact ih l hl
      next hc =>
        intro l hl
        rw [hms, List.modifyHead_cons] at hl
        cases hl with
        | head =>
            intro hmem
            cases hmem with
            | head => exact hc (beq_self_eq_true slash)
            | tail _ hmem => exact ih m List.mem_cons_self hmem
        | tail _ hl => exact ih l (List.mem_cons_of_mem m hl)

theorem levelsOf_cons (topic : Bytes) :
    ∃ l ls, levelsOf topic = l :: ls ∧ topic = l ++ tailText ls := by
  obtain ⟨l, ls, h⟩ := List.exists_cons_of_ne_nil (List.splitOn_ne_nil slash topic)
  refine ⟨l, ls, h, ?_⟩
  rw [← intercalate_eq, ← h, List.intercalate_splitOn]

/-- A level that is text has to be spelled by the level of the name. -/
theorem matchRest_text {s : Bytes} (hs : ∀ c ∈ s, c ≠ slash ∧ c ≠ plus ∧ c ≠ hash)
    (fs ns : List Bytes) : ∀ {n : Bytes}, slash ∉ n →
      matchRest (s ++ tailText fs) (n ++ tailText ns) =
        (decide (s = n) && matchRest (tailText fs) (tailText ns)) := by
  induction s with
  | nil =>
      intro n hn
      cases n with
      | nil => simp
      | cons c n =>
          have hc : c ≠ slash := fun h => hn (h ▸ List.mem_cons_self)
          cases fs with
          | nil => simp [tailText, matchRest]
          | cons f fs =>
              have hne : slash ≠ c := fun h => hc h.symm
              simp [tailText, matchRest, hc, hne, show slash ≠ plus by decide,
                show slash ≠ hash by decide]
  | cons f s ih =>
      intro n hn
      obtain ⟨hslash, hplus, hhash⟩ := hs f List.mem_cons_self
      cases n with
      | nil =>
          cases ns with
          | nil => simp [tailText, matchRest]
          | cons n ns => simp [tailText, matchRest, hslash]
      | cons c n =>
          have hc : c ≠ slash := fun h => hn (h ▸ List.mem_cons_self)
          have hrest := ih (fun c hc => hs c (List.mem_cons_of_mem f hc)) (n := n)
            fun h => hn (List.mem_cons_of_mem c h)
          by_cases hfc : f = c
          · subst hfc
            simp [matchRest, hc, hplus, hhash, hrest]
          · simp [matchRest, hc, hplus, hhash, hfc]

theorem dropWhile_level {n : Bytes} (hn : slash ∉ n) (ns : List Bytes) :
    (n ++ tailText ns).dropWhile inLevel = tailText ns := by
  have hall : ∀ c ∈ n, inLevel c = true := fun c hc => by
    simp only [inLevel, ne_eq, decide_not, Bool.not_eq_true', decide_eq_false_iff_not]
    exact fun h => hn (h ▸ hc)
  rw [List.dropWhile_append_of_pos hall]
  cases ns with
  | nil => rfl
  | cons n ns => simp [tailText, inLevel]

theorem matchRest_single (fs ns : List Bytes) {n : Bytes} (hn : slash ∉ n) :
    matchRest ([plus] ++ tailText fs) (n ++ tailText ns) =
      (decide (n ≠ []) && matchRest (tailText fs) (tailText ns)) := by
  cases n with
  | nil =>
      cases ns with
      | nil => simp [tailText, matchRest]
      | cons n ns => simp [tailText, matchRest, show plus ≠ slash by decide]
  | cons c n =>
      have hc : c ≠ slash := fun h => hn (h ▸ List.mem_cons_self)
      have hdrop := dropWhile_level (fun h => hn (List.mem_cons_of_mem c h)) ns
      simp [matchRest, hc, hdrop]

theorem matchRest_multi (ns : List Bytes) {n : Bytes} (hn : slash ∉ n) :
    matchRest [hash] (n ++ tailText ns) = decide (n ≠ []) := by
  cases n with
  | nil =>
      cases ns with
      | nil => simp [tailText, matchRest]
      | cons n ns => simp [tailText, matchRest, show hash ≠ slash by decide]
  | cons c n =>
      have hc : c ≠ slash := fun h => hn (h ▸ List.mem_cons_self)
      simp [matchRest, hc, show hash ≠ plus by decide]

/-- Where the levels after the first are concerned, both sides have a slash or none has. -/
theorem matchRest_tail {fs ns : List Bytes}
    (hrest : ∀ f fs', fs = f :: fs' → ∀ n ns', ns = n :: ns' →
      matchRest (f ++ tailText fs') (n ++ tailText ns') = strict (fs.map levelOf) ns) :
    matchRest (tailText fs) (tailText ns) = strict (fs.map levelOf) ns := by
  cases fs with
  | nil =>
      cases ns with
      | nil => rfl
      | cons n ns => rfl
  | cons f fs =>
      cases ns with
      | nil =>
          rw [List.map_cons]
          cases levelOf f <;> rfl
      | cons n ns =>
          rw [← hrest f fs rfl n ns rfl]
          simp [tailText, matchRest, show slash ≠ plus by decide, show slash ≠ hash by decide]

theorem matchRest_eq {fs : List Bytes}
    (hwhole : ∀ l ∈ fs, plus ∈ l ∨ hash ∈ l → l = [plus] ∨ l = [hash])
    (hlast : ∀ l ∈ fs.dropLast, l ≠ [hash]) (hfs : ∀ l ∈ fs, slash ∉ l) :
    ∀ {ns : List Bytes}, (∀ n ∈ ns, slash ∉ n) → ∀ f fs', fs = f :: fs' → ∀ n ns', ns = n :: ns' →
      matchRest (f ++ tailText fs') (n ++ tailText ns') = strict (fs.map levelOf) ns := by
  induction fs with
  | nil => intro ns _ f fs' h; cases h
  | cons g gs ih =>
      rintro ns hns f fs' hf n ns' rfl
      obtain ⟨rfl, rfl⟩ := List.cons.inj hf
      have hn : slash ∉ n := hns n List.mem_cons_self
      have htail : matchRest (tailText gs) (tailText ns') = strict (gs.map levelOf) ns' := by
        refine matchRest_tail (ih (fun l hl => hwhole l (List.mem_cons_of_mem g hl)) ?_
          (fun l hl => hfs l (List.mem_cons_of_mem g hl))
          fun l hl => hns l (List.mem_cons_of_mem n hl))
        intro l hl
        refine hlast l ?_
        cases gs with
        | nil => cases hl
        | cons k ks => exact List.mem_cons_of_mem g hl
      rw [List.map_cons]
      by_cases hplus : g = [plus]
      · subst hplus
        rw [matchRest_single gs ns' hn, htail]
        rfl
      by_cases hhash : g = [hash]
      · subst hhash
        have hgs : gs = [] := by
          cases gs with
          | nil => rfl
          | cons k ks => exact absurd rfl (hlast [hash] (by simp))
        subst hgs
        rw [show [hash] ++ tailText [] = [hash] from rfl, matchRest_multi ns' hn]
        rfl
      · have hg : ∀ c ∈ g, c ≠ slash ∧ c ≠ plus ∧ c ≠ hash := by
          intro c hc
          have hnot : ¬(plus ∈ g ∨ hash ∈ g) := fun h =>
            (hwhole g List.mem_cons_self h).elim hplus hhash
          exact ⟨fun h => hfs g List.mem_cons_self (h ▸ hc), fun h => hnot (Or.inl (h ▸ hc)),
            fun h => hnot (Or.inr (h ▸ hc))⟩
        rw [matchRest_text hg gs ns' hn, htail, levelOf, if_neg hplus, if_neg hhash]
        rfl

theorem iotxMcIsTopicMatched_eq (filter : TopicFilter) (name : Bytes) :
    iotxMcIsTopicMatched filter.text (.ofBytes name) =
      .ok (strict filter.levels (levelsOf name)) := by
  obtain ⟨f, fs, hfs, htext⟩ := levelsOf_cons filter.text
  obtain ⟨n, ns, hns, hname⟩ := levelsOf_cons name
  have hwalk := matchLoop_eq filter.text [] name
  rw [List.nil_append, List.length_nil] at hwalk
  rw [iotxMcIsTopicMatched, hwalk, TopicFilter.levels,
    ← matchRest_eq filter.whole filter.last slash_notMem_levelsOf slash_notMem_levelsOf
      f fs hfs n ns hns, ← htext, ← hname]

theorem TopicFilter.multi_last (filter : TopicFilter) :
    ∀ l ∈ filter.levels.dropLast, l ≠ .multi := by
  intro l hl
  rw [TopicFilter.levels, ← List.map_dropLast] at hl
  obtain ⟨s, hs, rfl⟩ := List.mem_map.mp hl
  rw [levelOf, if_neg (filter.last s hs)]
  split
  · nofun
  · nofun

/-- The result is that of MQTT 3.1.1 exactly if each wildcard of a filter that matches
stands at a level of the name that is not empty. -/
theorem topicMatched_iff (filter : TopicFilter) (name : Bytes) :
    (∃ matched, iotxMcIsTopicMatched filter.text (.ofBytes name) = .ok matched ∧
      (matched = true ↔ LevelsMatch filter.levels (levelsOf name))) ↔
    (LevelsMatch filter.levels (levelsOf name) → Filled filter.levels (levelsOf name)) := by
  have hstrict := strict_iff filter.multi_last (levelsOf name)
  rw [iotxMcIsTopicMatched_eq]
  constructor
  · rintro ⟨matched, hresult, hmatched⟩ hmatches
    cases hresult
    exact (hstrict.mp (hmatched.mpr hmatches)).2
  · intro hfilled
    exact ⟨_, rfl, hstrict.trans ⟨And.left, fun h => ⟨h, hfilled h⟩⟩⟩

/-- `a/#` does not match `a`, its parent level. -/
theorem not_topicMatched_parent :
    ¬∀ (filter : TopicFilter) (name : Bytes), plus ∉ name → hash ∉ name →
      ∃ matched, iotxMcIsTopicMatched filter.text (.ofBytes name) = .ok matched ∧
        (matched = true ↔ LevelsMatch filter.levels (levelsOf name)) := by
  intro hall
  let filter : TopicFilter := ⟨[97, slash, hash], by decide, by decide⟩
  obtain ⟨matched, hresult, hmatched⟩ := hall filter [97] (by decide) (by decide)
  have hmatches : LevelsMatch filter.levels (levelsOf [97]) := .text .multi
  have hfalse : iotxMcIsTopicMatched filter.text (.ofBytes [97]) = .ok false := by decide
  rw [hfalse] at hresult
  cases hresult
  exact absurd (hmatched.mpr hmatches) (by decide)

end IotKit.Mqtt
