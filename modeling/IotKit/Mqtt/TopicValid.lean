import IotKit.Mqtt.TopicMatch

/-!
# What an accepted topic looks like

`iotx_mc_check_topic` asks of every item between slashes that it is printable and
that a wildcard stands alone in it.  Three things escape it: the flag for `#` is not
set at the first item, `strtok` shows no empty level after the last item, and the
copy that it walks over is one character shorter than the longest topic.
-/

namespace IotKit.Mqtt

open CMemory

/-! ## Valid topics -/

/-- A topic name, or a topic filter. -/
structure ValidTopic (topic : Bytes) (type : TopicType) : Prop where
  printable : ∀ c ∈ topic, 32 ≤ c ∧ c < 127
  length : topic.length ≤ iotxMcTopicNameMaxLen
  plain : type = .name → plus ∉ topic ∧ hash ∉ topic
  whole : type = .filter →
    ∀ l ∈ levelsOf topic, plus ∈ l ∨ hash ∈ l → l = [plus] ∨ l = [hash]
  last : type = .filter → ∀ l ∈ (levelsOf topic).dropLast, l ≠ [hash]

/-- The filters that are valid are those that the matching rules of MQTT speak about. -/
def ValidTopic.toFilter {topic : Bytes} (h : ValidTopic topic .filter) : TopicFilter :=
  ⟨topic, h.whole rfl, h.last rfl⟩

/-- `topicString`, as `strncpy` leaves it. -/
def topicString (topicName : Bytes) : Bytes := topicName.take (iotxMcTopicNameMaxLen - 1)

/-- A `#` with a slash behind it, and nothing but slashes before it. -/
def HashFirst (topic : Bytes) : Prop :=
  ∃ slashes rest, topic = slashes ++ hash :: slash :: rest ∧ ∀ c ∈ slashes, c = slash

/-- A `#` with a slash behind it, and nothing but slashes after that. -/
def HashThenSlashes (topic : Bytes) : Prop :=
  ∃ front slashes, topic = front ++ hash :: slash :: slashes ∧ ∀ c ∈ slashes, c = slash

/-- The character that did not fit into the copy is right where it stands. -/
structure LastCharFits (copy : Bytes) (c : UInt8) (type : TopicType) : Prop where
  printable : 32 ≤ c ∧ c < 127
  plain : type = .name → c ≠ plus ∧ c ≠ hash
  alone : type = .filter → c = plus ∨ c = hash → copy.getLast? = some slash
  behind : type = .filter →
    copy.getLast? = some plus ∨ copy.getLast? = some hash → c = slash

/-- The topics in which nothing that matters escapes the check. -/
structure SeenWhole (topic : Bytes) (type : TopicType) : Prop where
  first : type = .filter → ¬HashFirst topic
  trailing : type = .filter → ¬HashThenSlashes topic ∧ ¬HashThenSlashes (topicString topic)
  lastChar : ∀ c, topic[iotxMcTopicNameMaxLen - 1]? = some c →
    LastCharFits (topicString topic) c type

theorem topicString_cases {topic : Bytes} (h : topic.length ≤ iotxMcTopicNameMaxLen) :
    (topicString topic = topic ∧ topic[iotxMcTopicNameMaxLen - 1]? = none) ∨
      ∃ c, topic = topicString topic ++ [c] ∧ topicString topic ≠ [] ∧
        topic[iotxMcTopicNameMaxLen - 1]? = some c := by
  by_cases hlt : topic.length ≤ iotxMcTopicNameMaxLen - 1
  · exact Or.inl ⟨List.take_of_length_le hlt, List.getElem?_eq_none hlt⟩
  · have hlen : topic.length = 127 + 1 := by
      simp only [iotxMcTopicNameMaxLen] at h hlt
      omega
    have hget : topic[127]? = some topic[127] := List.getElem?_eq_getElem (by omega)
    refine Or.inr ⟨topic[127], ?_, ?_, hget⟩
    · show topic = topic.take 127 ++ [topic[127]]
      rw [List.take_append_getElem, List.take_of_length_le (by omega)]
    · intro hnil
      have := congrArg List.length hnil
      simp [topicString, iotxMcTopicNameMaxLen, hlen] at this

/-! ## Levels of a text -/

theorem levelsOf_ne_nil (s : Bytes) : levelsOf s ≠ [] := List.splitOn_ne_nil slash s

theorem levelsOf_append_slash (s t : Bytes) :
    levelsOf (s ++ slash :: t) = levelsOf s ++ levelsOf t := by
  rw [levelsOf, List.splitOn_eq_splitOnP,
    List.splitOnP_append_cons (p := (· == slash)) s t (beq_self_eq_true slash)]
  rfl

theorem levelsOf_of_notMem {t : Bytes} (ht : slash ∉ t) : levelsOf t = [t] := by
  rw [levelsOf, List.splitOn_eq_splitOnP, List.splitOnP_eq_singleton]
  intro c hc
  simpa using fun h : c = slash => ht (h ▸ hc)

/-- What is behind the last slash, and where the levels before it end. -/
theorem levelsOf_eq_append (s : Bytes) :
    ∃ init l, levelsOf s = init ++ [l] ∧ slash ∉ l ∧ s = init.flatMap (· ++ [slash]) ++ l := by
  induction s with
  | nil => exact ⟨[], [], rfl, List.not_mem_nil, rfl⟩
  | cons c s ih =>
      obtain ⟨init, l, hlevels, hl, hs⟩ := ih
      by_cases hc : c = slash
      · refine ⟨[] :: init, l, ?_, hl, ?_⟩
        · rw [hc, ← List.nil_append (slash :: s), levelsOf_append_slash, hlevels]
          rfl
        · simp [hc, ← hs]
      · have hcons : levelsOf (c :: s) = (levelsOf s).modifyHead (c :: ·) := by
          rw [levelsOf, List.splitOn_cons_eq_if_modifyHead, if_neg (by simpa using hc)]
          rfl
        cases init with
        | nil =>
            refine ⟨[], c :: l, by rw [hcons, hlevels]; rfl, ?_, ?_⟩
            · simp only [List.mem_cons, not_or]
              exact ⟨fun h => hc h.symm, hl⟩
            · simpa using hs
        | cons m init =>
            refine ⟨(c :: m) :: init, l, by rw [hcons, hlevels]; rfl, hl, ?_⟩
            rw [hs]
            simp

theorem levelsOf_flatMap (init : List Bytes) (hinit : ∀ l ∈ init, slash ∉ l) (t : Bytes) :
    levelsOf (init.flatMap (· ++ [slash]) ++ t) = init ++ levelsOf t := by
  induction init with
  | nil => rfl
  | cons m init ih =>
      have hm := hinit m List.mem_cons_self
      have hrest := ih fun l hl => hinit l (List.mem_cons_of_mem m hl)
      have hassoc : (m :: init).flatMap (· ++ [slash]) ++ t
          = m ++ slash :: (init.flatMap (· ++ [slash]) ++ t) := by simp
      rw [hassoc, levelsOf_append_slash, hrest, levelsOf_of_notMem hm]
      rfl

/-- Where a level stands in the text. -/
theorem text_of_levels {s : Bytes} {A B : List Bytes} {l : Bytes}
    (h : levelsOf s = A ++ l :: B) : s = A.flatMap (· ++ [slash]) ++ (l ++ tailText B) := by
  have hjoin : s = [slash].intercalate (A ++ l :: B) := by
    rw [← h, levelsOf, List.intercalate_splitOn]
  rw [hjoin]
  clear h hjoin
  induction A with
  | nil => exact intercalate_eq l B
  | cons m A ih =>
      obtain ⟨k, ks, hk⟩ := List.exists_cons_of_ne_nil (List.append_ne_nil_of_right_ne_nil A
        (List.cons_ne_nil l B))
      rw [List.cons_append, hk, List.intercalate_cons_cons, ← hk, ih]
      simp

theorem flatMap_slashes {A : List Bytes} (hA : ∀ l ∈ A, l = []) :
    ∀ c ∈ A.flatMap (· ++ [slash]), c = slash := by
  intro c hc
  obtain ⟨l, hl, hmem⟩ := List.mem_flatMap.mp hc
  simpa [hA l hl] using hmem

theorem tailText_slashes {B : List Bytes} (hB : ∀ l ∈ B, l = []) :
    ∀ c ∈ tailText B, c = slash := by
  intro c hc
  obtain ⟨l, hl, hmem⟩ := List.mem_flatMap.mp hc
  simpa [hB l hl] using hmem

theorem mem_levels_of_mem {s : Bytes} {c : UInt8} (hc : c ∈ s) (hslash : c ≠ slash) :
    ∃ l ∈ levelsOf s, c ∈ l := by
  obtain ⟨init, l, hlevels, _, hs⟩ := levelsOf_eq_append s
  rw [hs, List.mem_append] at hc
  rw [hlevels]
  rcases hc with hc | hc
  · obtain ⟨m, hm, hmem⟩ := List.mem_flatMap.mp hc
    refine ⟨m, List.mem_append_left _ hm, ?_⟩
    simpa [hslash] using hmem
  · exact ⟨l, by simp, hc⟩

/-- One more character is a level of its own after a slash, or goes to the last level. -/
theorem levelsOf_snoc {s : Bytes} {init : List Bytes} {l : Bytes}
    (h : levelsOf s = init ++ [l]) {c : UInt8} (hc : c ≠ slash) :
    levelsOf (s ++ [c]) = init ++ [l ++ [c]] := by
  have hmem : ∀ m ∈ init ++ [l], slash ∉ m := h ▸ slash_notMem_levelsOf
  have hlc : slash ∉ l ++ [c] := by
    simp only [List.mem_append, List.mem_singleton, not_or]
    exact ⟨hmem l (by simp), fun heq => hc heq.symm⟩
  have htext := text_of_levels h
  simp only [tailText, List.flatMap_nil, List.append_nil] at htext
  rw [htext, List.append_assoc,
    levelsOf_flatMap init (fun m hm => hmem m (List.mem_append_left _ hm)),
    levelsOf_of_notMem hlc]

theorem getLast?_of_levels {s : Bytes} {init : List Bytes} {l : Bytes}
    (h : levelsOf s = init ++ [l]) :
    s.getLast? = if l = [] then (if init = [] then none else some slash) else l.getLast? := by
  have htext := text_of_levels h
  simp only [tailText, List.flatMap_nil, List.append_nil] at htext
  rw [htext]
  split
  next hl =>
    subst hl
    rw [List.append_nil]
    split
    next hinit => rw [hinit]; rfl
    next hinit =>
      obtain ⟨front, m, rfl⟩ := List.eq_nil_or_concat init |>.resolve_left hinit
      simp
  next hl => rw [List.getLast?_append_of_ne_nil _ hl]

/-! ## What the check sees -/

/-- What the items of the copy have passed. -/
structure ItemsPass (copy : Bytes) (type : TopicType) : Prop where
  rule : ∀ l ∈ levelsOf copy, ∀ c ∈ l, ruleChar type l.length c = true
  /-- A `#` after the first item is the last item. -/
  mask : ∀ A l B, strtok copy = A ++ l :: B → A ≠ [] → l.head? = some hash → B = []

theorem iotxMcCheckRule_success {item : Bytes} {type : TopicType}
    (h : iotxMcCheckRule item type = successReturn) :
    ∀ c ∈ item, ruleChar type item.length c = true := by
  rw [iotxMcCheckRule] at h
  split at h
  next hall => exact fun c hc => List.all_eq_true.mp hall c hc
  next => exact absurd h failReturn_ne_success

theorem checkItems_success {type : TopicType} (items : List Bytes) : ∀ {mask : Bool},
    checkItems type mask items = successReturn →
      (mask = true → items = []) ∧
      (∀ item ∈ items, iotxMcCheckRule item type = successReturn) ∧
      ∀ A l B, items = A ++ l :: B → l.head? = some hash → B = [] := by
  induction items with
  | nil =>
      intro mask h
      refine ⟨fun _ => rfl, nofun, fun A l B heq => ?_⟩
      exact absurd heq.symm (by simp)
  | cons item items ih =>
      intro mask h
      rw [checkItems] at h
      split at h
      next => exact absurd h failReturn_ne_success
      next hmask =>
        split at h
        next => exact absurd h failReturn_ne_success
        next hrule =>
          obtain ⟨hnext, hrules, hlast⟩ := ih h
          refine ⟨fun hm => absurd hm hmask, ?_, ?_⟩
          · intro l hl
            cases hl with
            | head => exact Decidable.not_not.mp hrule
            | tail _ hl => exact hrules l hl
          · intro A l B heq hhead
            cases A with
            | nil =>
                obtain ⟨rfl, rfl⟩ := List.cons.inj heq
                exact hnext (decide_eq_true hhead)
            | cons a A => exact hlast A l B (List.cons.inj heq).2 hhead

theorem itemsPass_of_accepted {topicName : Bytes} {type : TopicType}
    (h : iotxMcCheckTopic topicName type = successReturn) :
    ItemsPass (topicString topicName) type := by
  rw [iotxMcCheckTopic] at h
  split at h
  next => exact absurd h failReturn_ne_success
  next =>
    split at h
    next => exact absurd h failReturn_ne_success
    next item items hitems =>
      split at h
      next => exact absurd h failReturn_ne_success
      next hfirst =>
        obtain ⟨_, hrules, hlast⟩ := checkItems_success items h
        refine ⟨?_, ?_⟩
        · intro l hl c hc
          have hmem : l ∈ strtok (topicString topicName) :=
            List.mem_filter.mpr ⟨hl, by simpa using List.ne_nil_of_mem hc⟩
          rw [topicString, hitems] at hmem
          cases hmem with
          | head => exact iotxMcCheckRule_success (Decidable.not_not.mp hfirst) c hc
          | tail _ hmem => exact iotxMcCheckRule_success (hrules l hmem) c hc
        · intro A l B heq hA hhead
          rw [topicString, hitems] at heq
          cases A with
          | nil => exact absurd rfl hA
          | cons a A => exact hlast A l B (List.cons.inj heq).2 hhead

theorem ruleChar_eq_true {type : TopicType} {len : Nat} {c : UInt8}
    (h : ruleChar type len c = true) :
    ((c = plus ∨ c = hash) → type = .filter ∧ len = 1) ∧ 32 ≤ c ∧ c < 127 := by
  simp only [ruleChar, decide_eq_true_eq] at h
  refine ⟨fun hc => ?_, h.2⟩
  simpa [if_pos hc] using h.1

theorem ItemsPass.printable {copy : Bytes} {type : TopicType} (h : ItemsPass copy type) :
    ∀ c ∈ copy, 32 ≤ c ∧ c < 127 := by
  intro c hc
  by_cases hslash : c = slash
  · rw [hslash]
    decide
  · obtain ⟨l, hl, hmem⟩ := mem_levels_of_mem hc hslash
    exact (ruleChar_eq_true (h.rule l hl c hmem)).2

theorem ItemsPass.plain {copy : Bytes} (h : ItemsPass copy .name) : plus ∉ copy ∧ hash ∉ copy := by
  have hwild : ∀ c, c = plus ∨ c = hash → c ∉ copy := by
    intro c hc hmem
    have hslash : c ≠ slash := by
      rcases hc with rfl | rfl
      · decide
      · decide
    obtain ⟨l, hl, hcl⟩ := mem_levels_of_mem hmem hslash
    exact absurd ((ruleChar_eq_true (h.rule l hl c hcl)).1 hc).1 (by decide)
  exact ⟨hwild plus (Or.inl rfl), hwild hash (Or.inr rfl)⟩

theorem ItemsPass.whole {copy : Bytes} (h : ItemsPass copy .filter) :
    ∀ l ∈ levelsOf copy, plus ∈ l ∨ hash ∈ l → l = [plus] ∨ l = [hash] := by
  have hone : ∀ l ∈ levelsOf copy, ∀ c, c = plus ∨ c = hash → c ∈ l → l = [c] := by
    intro l hl c hc hmem
    have hlen := ((ruleChar_eq_true (h.rule l hl c hmem)).1 hc).2
    obtain ⟨d, rfl⟩ := List.length_eq_one_iff.mp hlen
    rw [List.mem_singleton.mp hmem]
  rintro l hl (hmem | hmem)
  · exact Or.inl (hone l hl plus (Or.inl rfl) hmem)
  · exact Or.inr (hone l hl hash (Or.inr rfl) hmem)

/-- A `#` that is not the last level of the copy is the first item, or only empty levels
follow it. -/
theorem ItemsPass.hash_early {copy : Bytes} {type : TopicType} (h : ItemsPass copy type)
    (hmem : [hash] ∈ (levelsOf copy).dropLast) (t : Bytes) :
    HashFirst (copy ++ t) ∨ HashThenSlashes copy := by
  obtain ⟨A, B, hsplit⟩ := List.append_of_mem hmem
  obtain ⟨b, hb⟩ : ∃ b, levelsOf copy = A ++ [hash] :: (B ++ [b]) := by
    refine ⟨(levelsOf copy).getLast (levelsOf_ne_nil copy), ?_⟩
    rw [← List.cons_append, ← List.append_assoc, ← hsplit, List.dropLast_append_getLast]
  have htext := text_of_levels hb
  obtain ⟨m, ms, hms⟩ := List.exists_cons_of_ne_nil (List.append_ne_nil_of_right_ne_nil B
    (List.cons_ne_nil b []))
  rw [hms] at htext hb
  have htail : tailText (m :: ms) = slash :: (m ++ tailText ms) := rfl
  rw [htail] at htext
  by_cases hA : ∀ l ∈ A, l = []
  · refine Or.inl ⟨A.flatMap (· ++ [slash]), m ++ tailText ms ++ t, ?_, flatMap_slashes hA⟩
    rw [htext]
    simp
  · have hitems : strtok copy = A.filter (· ≠ []) ++ [hash] :: (m :: ms).filter (· ≠ []) := by
      have hstrtok : strtok copy = (levelsOf copy).filter (· ≠ []) := rfl
      rw [hstrtok, hb, List.filter_append, List.filter_cons_of_pos (by decide)]
    have hfront : A.filter (· ≠ []) ≠ [] := by
      intro hnil
      refine hA fun l hl => ?_
      simpa using List.filter_eq_nil_iff.mp hnil l hl
    have hrest : ∀ l ∈ m :: ms, l = [] := by
      intro l hl
      simpa using List.filter_eq_nil_iff.mp (h.mask _ _ _ hitems hfront rfl) l hl
    refine Or.inr ⟨A.flatMap (· ++ [slash]), tailText ms, ?_,
      tailText_slashes fun l hl => hrest l (List.mem_cons_of_mem m hl)⟩
    rw [htext, hrest m List.mem_cons_self]
    rfl

/-! ## What escapes the check -/

theorem ValidTopic.hash_ends {topic : Bytes} (h : ValidTopic topic .filter) (a b : Bytes) :
    topic ≠ a ++ hash :: slash :: b := by
  intro heq
  obtain ⟨init, l, hlevels, _, _⟩ := levelsOf_eq_append a
  have hfront : levelsOf (a ++ [hash]) = init ++ [l ++ [hash]] :=
    levelsOf_snoc hlevels (by decide)
  have hall : levelsOf topic = init ++ [l ++ [hash]] ++ levelsOf b := by
    rw [heq, ← hfront, ← levelsOf_append_slash]
    simp
  obtain ⟨m, ms, hb⟩ := List.exists_cons_of_ne_nil (levelsOf_ne_nil b)
  have hlevel : l ++ [hash] = [plus] ∨ l ++ [hash] = [hash] :=
    h.whole rfl _ (by rw [hall]; simp) (Or.inr (by simp))
  have hhash : l ++ [hash] = [hash] := by
    rcases hlevel with hp | hh
    · exact absurd (List.mem_append_right l (List.mem_singleton_self hash)) (by rw [hp]; decide)
    · exact hh
  refine h.last rfl [hash] ?_ rfl
  rw [hall, hhash, hb, List.dropLast_append_of_ne_nil (List.cons_ne_nil m ms)]
  simp

theorem ValidTopic.lastCharFits {copy : Bytes} {c : UInt8} {type : TopicType}
    (h : ValidTopic (copy ++ [c]) type) (hcopy : copy ≠ []) : LastCharFits copy c type := by
  have hc : c ∈ copy ++ [c] := by simp
  obtain ⟨init, l, hlevels, hl, hcopyText⟩ := levelsOf_eq_append copy
  have hlast := getLast?_of_levels hlevels
  refine ⟨h.printable c hc, fun htype => ?_, fun htype hwild => ?_, fun htype hwild => ?_⟩
  · obtain ⟨hplus, hhash⟩ := h.plain htype
    exact ⟨fun heq => hplus (heq ▸ hc), fun heq => hhash (heq ▸ hc)⟩
  · have hslash : c ≠ slash := by
      rcases hwild with rfl | rfl
      · decide
      · decide
    have hlevel : l ++ [c] = [plus] ∨ l ++ [c] = [hash] := by
      refine h.whole htype _ (by rw [levelsOf_snoc hlevels hslash]; simp) ?_
      rcases hwild with rfl | rfl
      · exact Or.inl (by simp)
      · exact Or.inr (by simp)
    have hnil : l = [] := by
      rcases hlevel with heq | heq
      · simpa using congrArg List.length heq
      · simpa using congrArg List.length heq
    rw [hlast, if_pos hnil, if_neg]
    rintro rfl
    exact hcopy (by simpa [hnil] using hcopyText)
  · by_contra hslash
    have hne : l ≠ [] := by
      intro hnil
      rw [hlast, if_pos hnil] at hwild
      revert hwild
      split <;> decide
    rw [hlast, if_neg hne] at hwild
    have hlevel : l ++ [c] = [plus] ∨ l ++ [c] = [hash] := by
      refine h.whole htype _ (by rw [levelsOf_snoc hlevels hslash]; simp) ?_
      rcases hwild with hw | hw
      · exact Or.inl (List.mem_append_left _ (List.mem_of_getLast? hw))
      · exact Or.inr (List.mem_append_left _ (List.mem_of_getLast? hw))
    refine hne ?_
    rcases hlevel with heq | heq
    · simpa using congrArg List.length heq
    · simpa using congrArg List.length heq

/-- With the last character of the longest topics, wildcards still stand alone. -/
theorem ItemsPass.snoc_whole {copy : Bytes} {c : UInt8} (h : ItemsPass copy .filter)
    (hfits : LastCharFits copy c .filter) :
    ∀ l ∈ levelsOf (copy ++ [c]), plus ∈ l ∨ hash ∈ l → l = [plus] ∨ l = [hash] := by
  obtain ⟨init, l, hlevels, hl, _⟩ := levelsOf_eq_append copy
  have hlast := getLast?_of_levels hlevels
  have hwhole := h.whole
  by_cases hslash : c = slash
  · rw [hslash, levelsOf_append_slash]
    intro m hm hwild
    rcases List.mem_append.mp hm with hm | hm
    · exact hwhole m hm hwild
    · rw [show m = [] by simpa [levelsOf] using hm] at hwild
      simp at hwild
  · rw [levelsOf_snoc hlevels hslash]
    rw [hlevels] at hwhole
    intro m hm hwild
    rcases List.mem_append.mp hm with hm | hm
    · exact hwhole m (List.mem_append_left _ hm) hwild
    · obtain rfl := List.mem_singleton.mp hm
      -- a wildcard in the level of the copy stands alone there, so a slash follows it
      have hold : ¬(plus ∈ l ∨ hash ∈ l) := by
        intro hmem
        refine hslash (hfits.behind rfl ?_)
        rcases hwhole l (by simp) hmem with rfl | rfl
        · exact Or.inl hlast
        · exact Or.inr hlast
      have hnew : c = plus ∨ c = hash := by
        simp only [List.mem_append, List.mem_singleton] at hwild
        rcases hwild with (hw | hw) | (hw | hw)
        · exact absurd (Or.inl hw) hold
        · exact Or.inl hw.symm
        · exact absurd (Or.inr hw) hold
        · exact Or.inr hw.symm
      have hnil : l = [] := by
        by_contra hne
        have halone := hfits.alone rfl hnew
        rw [hlast, if_neg hne] at halone
        exact hl (List.mem_of_getLast? halone)
      rw [hnil]
      rcases hnew with rfl | rfl
      · exact Or.inl rfl
      · exact Or.inr rfl

/-- And a `#` is still in the last level, unless only slashes follow it. -/
theorem ItemsPass.snoc_last {copy : Bytes} {c : UInt8} (h : ItemsPass copy .filter)
    (hfirst : ¬HashFirst (copy ++ [c])) (htrailing : ¬HashThenSlashes (copy ++ [c]))
    (hcopy : ¬HashThenSlashes copy) : [hash] ∉ (levelsOf (copy ++ [c])).dropLast := by
  obtain ⟨init, l, hlevels, _, _⟩ := levelsOf_eq_append copy
  have hearly : [hash] ∉ (levelsOf copy).dropLast := fun hmem =>
    (h.hash_early hmem [c]).elim hfirst hcopy
  intro hm
  by_cases hslash : c = slash
  · subst hslash
    rw [levelsOf_append_slash, show levelsOf [] = [[]] from rfl, List.dropLast_concat, hlevels,
      List.mem_append, List.mem_singleton] at hm
    rcases hm with hm | hm
    · exact hearly (by rwa [hlevels, List.dropLast_concat])
    · rw [← hm] at hlevels
      have htext := text_of_levels hlevels
      refine htrailing ⟨init.flatMap (· ++ [slash]), [], ?_, nofun⟩
      rw [htext]
      simp [tailText]
  · rw [levelsOf_snoc hlevels hslash, List.dropLast_concat] at hm
    exact hearly (by rwa [hlevels, List.dropLast_concat])

/-- The last character of the longest topics added to a copy that passed. -/
theorem ItemsPass.snoc_valid {copy : Bytes} {c : UInt8} {type : TopicType}
    (h : ItemsPass copy type) (hfits : LastCharFits copy c type)
    (hlen : (copy ++ [c]).length ≤ iotxMcTopicNameMaxLen)
    (hfirst : type = .filter → ¬HashFirst (copy ++ [c]))
    (htrailing : type = .filter → ¬HashThenSlashes (copy ++ [c]) ∧ ¬HashThenSlashes copy) :
    ValidTopic (copy ++ [c]) type := by
  refine ⟨?_, hlen, ?_, ?_, ?_⟩
  · intro d hd
    rcases List.mem_append.mp hd with hd | hd
    · exact h.printable d hd
    · exact List.mem_singleton.mp hd ▸ hfits.printable
  · rintro rfl
    obtain ⟨hplus, hhash⟩ := h.plain
    obtain ⟨hcplus, hchash⟩ := hfits.plain rfl
    simp only [List.mem_append, List.mem_singleton, not_or]
    exact ⟨⟨hplus, hcplus.symm⟩, hhash, hchash.symm⟩
  · rintro rfl
    exact h.snoc_whole hfits
  · rintro rfl m hm rfl
    exact h.snoc_last (hfirst rfl) (htrailing rfl).1 (htrailing rfl).2 hm

/-- An accepted topic is valid exactly if nothing in it escapes the check. -/
theorem checkTopic_valid_iff {topic : Bytes} {type : TopicType}
    (h : iotxMcCheckTopic topic type = successReturn) :
    ValidTopic topic type ↔ SeenWhole topic type := by
  have hlen := iotxMcCheckTopic_length h
  have hpass := itemsPass_of_accepted h
  constructor
  · intro hvalid
    refine ⟨?_, ?_, ?_⟩
    · rintro rfl ⟨slashes, rest, heq, _⟩
      exact hvalid.hash_ends slashes rest heq
    · rintro rfl
      refine ⟨fun ⟨front, slashes, heq, _⟩ => hvalid.hash_ends front slashes heq, ?_⟩
      rintro ⟨front, slashes, heq, _⟩
      refine hvalid.hash_ends front (slashes ++ topic.drop (iotxMcTopicNameMaxLen - 1)) ?_
      calc topic = topicString topic ++ topic.drop (iotxMcTopicNameMaxLen - 1) :=
            (List.take_append_drop _ _).symm
        _ = _ := by rw [heq]; simp
    · intro c hc
      rcases topicString_cases hlen with ⟨_, hnone⟩ | ⟨d, htopic, hne, hd⟩
      · rw [hnone] at hc
        cases hc
      · rw [hd] at hc
        obtain rfl := Option.some.inj hc
        rw [htopic] at hvalid
        exact hvalid.lastCharFits hne
  · intro hseen
    rcases topicString_cases hlen with ⟨hcopy, _⟩ | ⟨c, htopic, _, hc⟩
    · rw [hcopy] at hpass
      refine ⟨hpass.printable, hlen, ?_, ?_, ?_⟩
      · rintro rfl
        exact hpass.plain
      · rintro rfl
        exact hpass.whole
      · rintro rfl l hl rfl
        rcases hpass.hash_early hl [] with hf | ht
        · rw [List.append_nil] at hf
          exact hseen.first rfl hf
        · exact (hseen.trailing rfl).1 ht
    · have hfits := hseen.lastChar c hc
      have hfirst := hseen.first
      have htrailing := hseen.trailing
      generalize topicString topic = copy at *
      subst htopic
      exact hpass.snoc_valid hfits hlen hfirst htrailing

/-- `a/+` is a filter, by the check. -/
theorem checkTopic_valid_plus : ValidTopic [97, slash, plus] .filter := by
  have hnone : hash ∉ [97, slash, plus] := by decide
  refine (checkTopic_valid_iff (by decide)).mpr ⟨fun _ => ?_, fun _ => ⟨?_, ?_⟩, nofun⟩
  · rintro ⟨slashes, rest, heq, _⟩
    exact hnone (heq ▸ by simp)
  · rintro ⟨front, slashes, heq, _⟩
    exact hnone (heq ▸ by simp)
  · rintro ⟨front, slashes, heq, _⟩
    exact hnone (List.mem_of_mem_take (heq ▸ by simp : hash ∈ topicString [97, slash, plus]))

/-- `#/a` is accepted. -/
theorem not_checkTopic_valid_hashFirst :
    ¬∀ (topic : Bytes) (type : TopicType), 0 ∉ topic →
      iotxMcCheckTopic topic type = successReturn → ValidTopic topic type := by
  intro hall
  have hvalid := hall [hash, slash, 97] .filter (by decide) (by decide)
  exact hvalid.hash_ends [] [97] rfl

end IotKit.Mqtt
