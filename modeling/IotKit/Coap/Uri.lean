import IotKit.Coap.Datagram

/-!
# The URL and the query of a request

`iotx_path_2_option` and `iotx_querystr_2_option` put each segment of the URL and each part of
the query in an option of its own.  A segment in front of a separator is copied to a buffer of
128 bytes whatever its length is, the last one is cut to 127, and the option that would be the
17th is left out; nobody looks at what the functions return.

`segments` says what the options should be, `cutTo` what becomes of them.  A message holds the
first 16 of the options that were added to it, in their order and with their numbers (`Holds`).
-/

namespace IotKit.Coap

open CMemory

/-! ## Segments -/

/-- The segments of a text that are not empty. -/
def segments (separator : UInt8) (text : Bytes) : List Bytes :=
  (text.splitOn separator).filter (· ≠ [])

/-- The segments in front of a separator are no longer than a buffer and its terminator. -/
def Contained (separator : UInt8) (text : Bytes) : Prop :=
  ∀ segment ∈ (text.splitOn separator).dropLast, segment.length < coapMsgMaxPathLen

instance (separator : UInt8) (text : Bytes) : Decidable (Contained separator text) :=
  inferInstanceAs (Decidable (∀ _ ∈ _, _))

/-- What the buffer takes of a segment. -/
def cutTo (segment : Bytes) : Bytes := segment.take (coapMsgMaxPathLen - 1)

/-- The options with one number. -/
def numbered (optnum : Nat) (values : List Bytes) : List (Nat × Bytes) :=
  values.map fun value => (optnum, value)

/-- One option after the other. -/
def addOptions (message : Message) (options : List (Nat × Bytes)) : Message :=
  options.foldl (fun message option => coapStrOptionAdd message option.1 option.2) message

section Split

variable {separator : UInt8} {optnum : Nat} {m : Message} {text : Bytes}

theorem addOptions_append (options more : List (Nat × Bytes)) :
    addOptions m (options ++ more) = addOptions (addOptions m options) more :=
  List.foldl_append

/-- The segments of a text that was split, the last of which ends with the text. -/
def addSplit (optnum : Nat) : List Bytes → Message → Checked Message
  | [], message => .ok message
  | [segment], message =>
      .ok (if segment = [] then message else coapStrOptionAdd message optnum (cutTo segment))
  | segment :: next :: rest, message => do
      let message ←
        (if segment ≠ [] then segmentAdd message optnum segment else .ok message)
      addSplit optnum (next :: rest) message

/-- The loop goes through the segments of the text. -/
theorem segmentsLoop_eq {rest : Bytes} :
    ∀ {segment : Bytes} (m : Message), separator ∉ segment → (rest = [] → segment = []) →
      segmentsLoop separator optnum segment rest m =
        addSplit optnum ((segment ++ rest).splitOn separator) m := by
  induction rest with
  | nil =>
      intro segment m _ hend
      rw [hend rfl]
      rfl
  | cons c rest ih =>
      intro segment m hsegment _
      rw [segmentsLoop]
      by_cases hc : c = separator
      · subst hc
        obtain ⟨next, others, hsplit⟩ := List.exists_cons_of_ne_nil (List.splitOn_ne_nil c rest)
        have hrest (m : Message) : segmentsLoop c optnum [] rest m =
            addSplit optnum (rest.splitOn c) m := ih m List.not_mem_nil fun _ => rfl
        rw [List.splitOn_append_cons_self_of_not_mem hsegment, hsplit, addSplit, ← hsplit]
        simp only [true_and, if_true, ne_eq, not_true_eq_false, and_false, if_false, hrest]
      · have hnext : separator ∉ segment ++ [c] := by
          rw [List.mem_append, List.mem_singleton]
          rintro (hmem | rfl)
          · exact hsegment hmem
          · exact hc rfl
        have hne : segment ++ [c] ≠ [] := List.append_ne_nil_of_right_ne_nil _ (by simp)
        simp only [hc, false_and, if_false, ok_bind]
        rw [List.append_cons segment c rest]
        cases rest with
        | nil =>
            rw [List.append_nil, List.splitOn_eq_singleton hnext, addSplit, if_neg hne,
              if_pos ⟨rfl, hne⟩]
            rfl
        | cons d rest =>
            have hrest : d :: rest ≠ [] := List.cons_ne_nil d rest
            rw [if_neg (fun h => hrest h.1)]
            exact ih m hnext fun h => absurd h hrest

theorem filter_map_cons {segment : Bytes} {rest : List Bytes} :
    numbered optnum (((segment :: rest).filter (· ≠ [])).map cutTo) =
      (if segment = [] then [] else [(optnum, cutTo segment)]) ++
        numbered optnum ((rest.filter (· ≠ [])).map cutTo) := by
  rw [List.filter_cons]
  split
  next h => rw [if_neg (of_decide_eq_true h)]; rfl
  next h => rw [if_pos (by simpa using h)]; rfl

/-- A segment that the buffer takes with its terminator. -/
theorem segmentAdd_eq {segment : Bytes} (h : segment.length < coapMsgMaxPathLen) :
    segmentAdd m optnum segment = .ok (coapStrOptionAdd m optnum (cutTo segment)) := by
  rw [segmentAdd, if_neg (by omega), if_neg (by omega), cutTo, List.take_of_length_le (by omega)]

theorem addSplit_ok {split : List Bytes}
    (h : ∀ segment ∈ split.dropLast, segment.length < coapMsgMaxPathLen) (m : Message) :
    addSplit optnum split m =
      .ok (addOptions m (numbered optnum ((split.filter (· ≠ [])).map cutTo))) := by
  induction split generalizing m with
  | nil => rfl
  | cons segment rest ih =>
      rw [filter_map_cons, addOptions_append]
      cases rest with
      | nil =>
          rw [addSplit]
          split
          · rfl
          · rfl
      | cons next rest =>
          rw [List.dropLast_cons_cons] at h
          have hfirst := h segment List.mem_cons_self
          have hrest := ih fun segment hmem => h segment (List.mem_cons_of_mem _ hmem)
          rw [addSplit]
          by_cases hnil : segment = []
          · rw [if_neg (not_not.mpr hnil), if_pos hnil, ok_bind, hrest]
            rfl
          · rw [if_pos hnil, if_neg hnil, segmentAdd_eq hfirst, ok_bind, hrest]
            rfl

/-- A segment in front of a separator that is too long for the buffer. -/
theorem addSplit_overrun {split : List Bytes}
    (h : ¬∀ segment ∈ split.dropLast, segment.length < coapMsgMaxPathLen) (m : Message) :
    ∃ e, addSplit optnum split m = .error e := by
  induction split generalizing m with
  | nil => exact absurd nofun h
  | cons segment rest ih =>
      cases rest with
      | nil => exact absurd nofun h
      | cons next rest =>
          rw [List.dropLast_cons_cons, List.forall_mem_cons] at h
          rw [addSplit]
          by_cases hlong : segment.length < coapMsgMaxPathLen
          · have hrest : ¬∀ segment ∈ (next :: rest).dropLast,
                segment.length < coapMsgMaxPathLen := fun hall => h ⟨hlong, hall⟩
            split
            · rw [segmentAdd_eq hlong, ok_bind]
              exact ih hrest _
            · rw [ok_bind]
              exact ih hrest _
          · have hne : segment ≠ [] := by
              rintro rfl
              exact hlong (by decide)
            rw [if_pos hne, segmentAdd]
            split
            · exact ⟨_, rfl⟩
            · rw [if_pos (by omega)]
              exact ⟨_, rfl⟩

/-- What a text of the right length adds. -/
theorem segmentsOption_eq (hlength : text.length ≤ iotxUriMaxLen) (m : Message) :
    segmentsOption separator optnum (some text) m = addSplit optnum (text.splitOn separator) m := by
  rw [segmentsOption, if_neg (Nat.not_lt.mpr hlength)]
  exact segmentsLoop_eq m List.not_mem_nil fun _ => rfl

/-- A text that may be NULL adds its segments, as far as the buffer takes them. -/
theorem segmentsOption_contained {text : Option Bytes}
    (hlength : (text.getD []).length ≤ iotxUriMaxLen)
    (hcontained : Contained separator (text.getD [])) (m : Message) :
    segmentsOption separator optnum text m =
      .ok (addOptions m (numbered optnum ((segments separator (text.getD [])).map cutTo))) := by
  cases text with
  | none =>
      rw [segments, Option.getD_none, List.splitOn_nil]
      rfl
  | some text =>
      rw [Option.getD_some] at hlength hcontained
      rw [segmentsOption_eq hlength]
      exact addSplit_ok hcontained m

theorem segmentsOption_overrun {text : Option Bytes}
    (hlength : (text.getD []).length ≤ iotxUriMaxLen)
    (hcontained : ¬Contained separator (text.getD [])) (m : Message) :
    ∃ e, segmentsOption separator optnum text m = .error e := by
  cases text with
  | none =>
      refine absurd (fun segment hmem => ?_) hcontained
      rw [Option.getD_none, List.splitOn_nil] at hmem
      cases hmem
  | some text =>
      rw [Option.getD_some] at hlength hcontained
      rw [segmentsOption_eq hlength]
      exact addSplit_overrun hcontained m

end Split

/-! ## The options of a message -/

/-- Options with their numbers and not the differences between them. -/
def absolute : Nat → List MsgOption → List (Nat × Bytes)
  | _, [] => []
  | base, option :: rest =>
      (base + option.num, option.val) :: absolute (base + option.num) rest

/-- The number of the last option. -/
def lastNumber : Nat → List (Nat × Bytes) → Nat
  | base, [] => base
  | _, option :: rest => lastNumber option.1 rest

/-- The message holds the first of these options that there is room for. -/
structure Holds (m : Message) (options : List (Nat × Bytes)) : Prop where
  held : absolute 0 m.options = options.take coapMsgMaxOptionNum
  delta : options.length ≤ coapMsgMaxOptionNum → m.optdelta = lastNumber 0 options

theorem absolute_length {base : Nat} {options : List MsgOption} :
    (absolute base options).length = options.length := by
  induction options generalizing base with
  | nil => rfl
  | cons option rest ih => rw [absolute, List.length_cons, List.length_cons, ih]

theorem absolute_append {base : Nat} {options : List MsgOption} {option : MsgOption} :
    absolute base (options ++ [option]) =
      absolute base options ++
        [(lastNumber base (absolute base options) + option.num, option.val)] := by
  induction options generalizing base with
  | nil => rfl
  | cons first rest ih =>
      rw [List.cons_append, absolute, ih]
      rfl

theorem lastNumber_append {base : Nat} {options : List (Nat × Bytes)} {option : Nat × Bytes} :
    lastNumber base (options ++ [option]) = option.1 := by
  induction options generalizing base with
  | nil => rfl
  | cons first rest ih => exact ih

section Options

variable {m : Message} {options : List (Nat × Bytes)} {optnum : Nat}

/-- An option is added if there is room. -/
theorem Holds.add (h : Holds m options) (hlast : lastNumber 0 options ≤ optnum)
    (hnum : optnum < 256) (value : Bytes) :
    Holds (coapStrOptionAdd m optnum value) (options ++ [(optnum, value)]) := by
  have hlength : m.options.length = min coapMsgMaxOptionNum options.length := by
    rw [← absolute_length, h.held, List.length_take]
  rw [coapStrOptionAdd]
  split
  next hfull =>
    have hmore : coapMsgMaxOptionNum ≤ options.length := by omega
    refine ⟨?_, fun hroom => ?_⟩
    · rw [h.held, List.take_append_of_le_length hmore]
    · rw [List.length_append, List.length_singleton] at hroom
      omega
  next hroom =>
    have hless : options.length < coapMsgMaxOptionNum := by omega
    have hoptdelta := h.delta (Nat.le_of_lt hless)
    have hall : absolute 0 m.options = options := by
      rw [h.held, List.take_of_length_le (Nat.le_of_lt hless)]
    have hdelta :
        lastNumber 0 options + (optnum + 65536 - lastNumber 0 options) % 65536 = optnum := by
      omega
    refine ⟨?_, fun _ => ?_⟩
    · dsimp only
      rw [absolute_append, hall, hoptdelta, hdelta, List.take_of_length_le]
      rw [List.length_append, List.length_singleton]
      exact hless
    · rw [lastNumber_append]
      exact Nat.mod_eq_of_lt hnum

theorem Holds.addNumbered (h : Holds m options) (hlast : lastNumber 0 options ≤ optnum)
    (hnum : optnum < 256) (values : List Bytes) :
    Holds (addOptions m (numbered optnum values)) (options ++ numbered optnum values) ∧
      lastNumber 0 (options ++ numbered optnum values) ≤ optnum := by
  induction values generalizing m options with
  | nil =>
      rw [numbered, List.map_nil, List.append_nil]
      exact ⟨h, hlast⟩
  | cons value rest ih =>
      have hnext := ih (h.add hlast hnum value) (Nat.le_of_eq lastNumber_append)
      rw [List.append_assoc] at hnext
      exact hnext

theorem Holds.addUint (h : Holds m options) (hlast : lastNumber 0 options ≤ optnum)
    (hnum : optnum < 256) (data : Nat) :
    Holds (coapUintOptionAdd m optnum data) (options ++ [(optnum, uintValue data)]) ∧
      lastNumber 0 (options ++ [(optnum, uintValue data)]) ≤ optnum := by
  refine ⟨?_, Nat.le_of_eq lastNumber_append⟩
  rw [coapUintOptionAdd]
  split
  next hfull =>
    have hadd := h.add hlast hnum (uintValue data)
    rwa [coapStrOptionAdd, if_pos hfull] at hadd
  next hroom =>
    dsimp only
    split
    · have h' : Holds { m with
          observer := if data = 0 then coapRegisteredObserve else coapDeregisterObserve } options :=
        ⟨h.held, h.delta⟩
      exact h'.add hlast hnum _
    · exact h.add hlast hnum _

end Options

/-! ## The options of a request -/

/-- The options for the URL, the format and the query. -/
def uriOptions (p : IotxMessage) : List (Nat × Bytes) :=
  numbered coapOptionUriPath (segments 47 (p.url.getD [])) ++
    ([(coapOptionContentFormat, uintValue (if p.cbor then 60 else 50))] ++
      (numbered coapOptionUriQuery (segments 38 (p.querystr.getD [])) ++
        [(coapOptionAccept, uintValue 42)]))

/-- The options that a request should have, in their order. -/
def requestOptions (observe : Bool) (p : IotxMessage) : List (Nat × Bytes) :=
  (if observe then [(coapOptionObserve, [])] else []) ++ uriOptions p

/-- The options after the buffers have cut their values. -/
def cutOptions (options : List (Nat × Bytes)) : List (Nat × Bytes) :=
  options.map fun option => (option.1, cutTo option.2)

/-- No buffer is overrun by a segment of the request. -/
def IotxMessage.Contained (p : IotxMessage) : Prop :=
  Coap.Contained 47 (p.url.getD []) ∧ Coap.Contained 38 (p.querystr.getD [])

/-- The URL and the query are not too long to be looked at. -/
def IotxMessage.Short (p : IotxMessage) : Prop :=
  (p.url.getD []).length ≤ iotxUriMaxLen ∧ (p.querystr.getD []).length ≤ iotxUriMaxLen

instance (p : IotxMessage) : Decidable p.Contained := inferInstanceAs (Decidable (_ ∧ _))

instance (p : IotxMessage) : Decidable p.Short := inferInstanceAs (Decidable (_ ∧ _))

theorem cutOptions_numbered (optnum : Nat) (values : List Bytes) :
    cutOptions (numbered optnum values) = numbered optnum (values.map cutTo) := by
  rw [cutOptions, numbered, numbered, List.map_map, List.map_map]
  rfl

theorem cutOptions_append (options more : List (Nat × Bytes)) :
    cutOptions (options ++ more) = cutOptions options ++ cutOptions more :=
  List.map_append

/-- The payload is left alone. -/
structure Message.SamePayload (m m' : Message) : Prop where
  payload : m'.payload = m.payload
  payloadlen : m'.payloadlen = m.payloadlen

theorem Message.SamePayload.trans {m m' m'' : Message} (h : m.SamePayload m')
    (h' : m'.SamePayload m'') : m.SamePayload m'' :=
  ⟨h'.payload.trans h.payload, h'.payloadlen.trans h.payloadlen⟩

theorem coapStrOptionAdd_payload (m : Message) (optnum : Nat) (data : Bytes) :
    m.SamePayload (coapStrOptionAdd m optnum data) := by
  rw [coapStrOptionAdd]
  split
  · exact ⟨rfl, rfl⟩
  · exact ⟨rfl, rfl⟩

theorem coapUintOptionAdd_payload (m : Message) (optnum data : Nat) :
    m.SamePayload (coapUintOptionAdd m optnum data) := by
  rw [coapUintOptionAdd]
  split
  · exact ⟨rfl, rfl⟩
  · dsimp only
    split
    · obtain ⟨hpayload, hpayloadlen⟩ := coapStrOptionAdd_payload
        { m with observer := if data = 0 then coapRegisteredObserve else coapDeregisterObserve }
        optnum (uintValue data)
      exact ⟨hpayload, hpayloadlen⟩
    · exact coapStrOptionAdd_payload m optnum _

theorem addOptions_payload (options : List (Nat × Bytes)) (m : Message) :
    m.SamePayload (addOptions m options) := by
  induction options generalizing m with
  | nil => exact ⟨rfl, rfl⟩
  | cons option rest ih => exact (coapStrOptionAdd_payload m option.1 option.2).trans (ih _)

section Request

variable {p : IotxMessage} {m : Message} {options : List (Nat × Bytes)}

/-- What is filled in. -/
theorem fillMessage_holds (hshort : p.Short) (hcontained : p.Contained) (h : Holds m options)
    (hlast : lastNumber 0 options ≤ coapOptionUriPath) (hpayload : m.payload = none)
    (hpayloadlen : m.payloadlen = 0) :
    ∃ m', fillMessage p m = .ok m' ∧ Holds m' (options ++ cutOptions (uriOptions p)) ∧
      m'.payload = p.payload ∧ m'.payloadlen = (p.payload.getD []).length := by
  obtain ⟨h₁, hlast₁⟩ := h.addNumbered hlast (by decide)
    ((segments 47 (p.url.getD [])).map cutTo)
  have hformat : lastNumber 0 _ ≤ coapOptionContentFormat := Nat.le_trans hlast₁ (by decide)
  obtain ⟨h₂, hlast₂⟩ := h₁.addUint hformat (by decide) (if p.cbor then 60 else 50)
  have hquery : lastNumber 0 _ ≤ coapOptionUriQuery := Nat.le_trans hlast₂ (by decide)
  obtain ⟨h₃, hlast₃⟩ := h₂.addNumbered hquery (by decide)
    ((segments 38 (p.querystr.getD [])).map cutTo)
  have haccept : lastNumber 0 _ ≤ coapOptionAccept := Nat.le_trans hlast₃ (by decide)
  obtain ⟨h₄, -⟩ := h₃.addUint haccept (by decide) 42
  have hsame := (addOptions_payload (numbered coapOptionUriPath
      ((segments 47 (p.url.getD [])).map cutTo)) m).trans
    ((coapUintOptionAdd_payload _ coapOptionContentFormat (if p.cbor then 60 else 50)).trans
      ((addOptions_payload (numbered coapOptionUriQuery
        ((segments 38 (p.querystr.getD [])).map cutTo)) _).trans
        (coapUintOptionAdd_payload _ coapOptionAccept 42)))
  have hoptions : options ++ cutOptions (uriOptions p) =
      options ++ numbered coapOptionUriPath ((segments 47 (p.url.getD [])).map cutTo) ++
        [(coapOptionContentFormat, uintValue (if p.cbor then 60 else 50))] ++
        numbered coapOptionUriQuery ((segments 38 (p.querystr.getD [])).map cutTo) ++
        [(coapOptionAccept, uintValue 42)] := by
    simp only [uriOptions, cutOptions_append, cutOptions_numbered, List.append_assoc]
    cases p.cbor
    · rfl
    · rfl
  rw [hoptions]
  rw [fillMessage, iotxPath2Option, segmentsOption_contained hshort.1 hcontained.1, ok_bind]
  dsimp only
  rw [iotxQuerystr2Option, segmentsOption_contained hshort.2 hcontained.2, ok_bind]
  cases hp : p.payload with
  | none => exact ⟨_, rfl, h₄, hsame.payload.trans hpayload, hsame.payloadlen.trans hpayloadlen⟩
  | some payload => exact ⟨_, rfl, ⟨h₄.held, h₄.delta⟩, rfl, rfl⟩

/-- A request that overruns a buffer. -/
theorem fillMessage_overrun (hshort : p.Short) (hcontained : ¬p.Contained) (m : Message) :
    ∃ e, fillMessage p m = .error e := by
  rw [fillMessage, iotxPath2Option]
  by_cases hurl : Contained 47 (p.url.getD [])
  · rw [segmentsOption_contained hshort.1 hurl, ok_bind]
    obtain ⟨e, he⟩ := segmentsOption_overrun hshort.2 (fun hquery => hcontained ⟨hurl, hquery⟩)
      (coapUintOptionAdd _ coapOptionContentFormat (if p.cbor then 60 else 50))
    dsimp only
    rw [iotxQuerystr2Option, he]
    exact ⟨e, rfl⟩
  · obtain ⟨e, he⟩ := segmentsOption_overrun hshort.1 hurl m
    rw [he]
    exact ⟨e, rfl⟩

/-- The message that a request is filled in. -/
def startMessage (observe : Bool) (client : CoapClient) (p : IotxMessage) : Message :=
  let message := coapMessageCodeSet (coapMessageTypeSet coapMessageInit coapMessageTypeCon) p.method
  let message := coapMessageIdSet message (coapMessageIdGen client.context).1
  let message := coapMessageTokenSet message (tokenBytes client.coapToken)
  let message := coapMessageHandlerSet message p.respCallback
  if observe then coapUintOptionAdd message coapOptionObserve 0 else message

theorem clientMessage_eq (observe : Bool) (client : CoapClient) (p : IotxMessage) :
    clientMessage observe client p =
      (do
        let message ← fillMessage p (startMessage observe client p)
        .ok (message, ⟨(client.coapToken + 1) % 2 ^ 32, (coapMessageIdGen client.context).2,
          client.sends⟩)) := rfl

/-- The request that is built. -/
theorem clientMessage_holds (hshort : p.Short) (hcontained : p.Contained) (observe : Bool)
    (client : CoapClient) :
    ∃ m client', clientMessage observe client p = .ok (m, client') ∧
      Holds m (cutOptions (requestOptions observe p)) ∧ m.payload = p.payload ∧
      m.payloadlen = (p.payload.getD []).length := by
  have hstart : Holds (startMessage observe client p)
      (cutOptions (if observe then [(coapOptionObserve, [])] else [])) := by
    have hempty : Holds (startMessage false client p) [] := ⟨rfl, fun _ => rfl⟩
    cases observe
    · exact hempty
    · exact (hempty.addUint (Nat.zero_le _) (show coapOptionObserve < 256 by decide) 0).1
  have hlast : lastNumber 0 (cutOptions (if observe then [(coapOptionObserve, [])] else [])) ≤
      coapOptionUriPath := by
    cases observe
    · decide
    · decide
  have hnone : (startMessage observe client p).payload = none ∧
      (startMessage observe client p).payloadlen = 0 := by
    cases observe
    · exact ⟨rfl, rfl⟩
    · exact ⟨rfl, rfl⟩
  obtain ⟨m, hfill, hholds, hpayload⟩ :=
    fillMessage_holds hshort hcontained hstart hlast hnone.1 hnone.2
  rw [requestOptions, cutOptions_append, clientMessage_eq, hfill, ok_bind]
  exact ⟨m, _, rfl, hholds, hpayload⟩

/-- A request is not built if a segment overruns a buffer. -/
theorem clientMessage_overrun (hshort : p.Short) (hcontained : ¬p.Contained) (observe : Bool)
    (client : CoapClient) : ∃ e, clientMessage observe client p = .error e := by
  obtain ⟨e, he⟩ := fillMessage_overrun hshort hcontained (startMessage observe client p)
  rw [clientMessage_eq, he]
  exact ⟨e, rfl⟩

end Request

/-! ## Lengths -/

/-- The bytes that options need, in the order of their numbers. -/
def optionsLength : Nat → List (Nat × Bytes) → Nat
  | _, [] => 0
  | base, option :: rest =>
      1 + (optionExtended (option.1 - base)).length +
        (optionExtended option.2.length).length + option.2.length + optionsLength option.1 rest

/-- The bytes of the values. -/
def valuesLength (options : List (Nat × Bytes)) : Nat :=
  (options.map fun option => option.2.length).sum

theorem serializeOptions_length {base : Nat} {options : List MsgOption} :
    (options.flatMap coapSerializeOption).length = optionsLength base (absolute base options) := by
  induction options generalizing base with
  | nil => rfl
  | cons option rest ih =>
      rw [List.flatMap_cons, List.length_append, absolute, optionsLength, coapSerializeOption,
        List.length_cons, List.length_append, List.length_append, Nat.add_sub_cancel_left,
        ← @ih (base + option.num)]
      dsimp only
      omega

theorem optionsLength_le {base : Nat} {options : List (Nat × Bytes)} :
    optionsLength base options ≤ 5 * options.length + valuesLength options := by
  induction options generalizing base with
  | nil => exact Nat.le_refl _
  | cons option rest ih =>
      have hdelta := optionExtended_le (option.1 - base)
      have hlength := optionExtended_le option.2.length
      have hrest : optionsLength option.1 rest ≤ 5 * rest.length + valuesLength rest := ih
      rw [optionsLength, List.length_cons, valuesLength, List.map_cons, List.sum_cons,
        ← valuesLength]
      omega

theorem valuesLength_append (options more : List (Nat × Bytes)) :
    valuesLength (options ++ more) = valuesLength options + valuesLength more := by
  rw [valuesLength, List.map_append, List.sum_append, ← valuesLength, ← valuesLength]

theorem valuesLength_cut (options : List (Nat × Bytes)) :
    valuesLength (cutOptions options) ≤ valuesLength options := by
  induction options with
  | nil => exact Nat.le_refl _
  | cons option rest ih =>
      have hcut : (cutTo option.2).length ≤ option.2.length := List.length_take_le' _ _
      exact Nat.add_le_add hcut ih

theorem splitOn_length (separator : UInt8) (text : Bytes) :
    ((text.splitOn separator).map List.length).sum ≤ text.length := by
  induction text with
  | nil => exact Nat.le_refl _
  | cons c text ih =>
      rw [List.splitOn_cons_eq_if_modifyHead]
      split
      · exact Nat.le_succ_of_le (by simpa using ih)
      · obtain ⟨first, rest, hsplit⟩ :=
          List.exists_cons_of_ne_nil (List.splitOn_ne_nil separator text)
        rw [hsplit, List.map_cons, List.sum_cons] at ih
        rw [hsplit, List.modifyHead_cons, List.map_cons, List.sum_cons, List.length_cons,
          List.length_cons]
        omega

theorem segments_length (separator : UInt8) (optnum : Nat) (text : Bytes) :
    valuesLength (numbered optnum (segments separator text)) ≤ text.length := by
  refine Nat.le_trans ?_ (splitOn_length separator text)
  rw [valuesLength, numbered, segments, List.map_map]
  induction text.splitOn separator with
  | nil => exact Nat.le_refl _
  | cons segment rest ih =>
      rw [List.filter_cons, List.map_cons, List.sum_cons]
      split
      · exact Nat.add_le_add_left ih _
      · exact Nat.le_trans ih (Nat.le_add_left _ _)

/-- A request with short texts needs less than a datagram without its payload. -/
theorem requestOptions_length {p : IotxMessage} (hshort : p.Short) (observe : Bool) :
    optionsLength 0 ((cutOptions (requestOptions observe p)).take coapMsgMaxOptionNum) ≤ 352 := by
  have hvalues : valuesLength (requestOptions observe p) ≤ 272 := by
    have hpath := Nat.le_trans (segments_length 47 coapOptionUriPath _) hshort.1
    have hquery := Nat.le_trans (segments_length 38 coapOptionUriQuery _) hshort.2
    have hformat : (uintValue (if p.cbor then 60 else 50)).length = 1 := by
      cases p.cbor
      · rfl
      · rfl
    have hobserve : valuesLength (if observe then [(coapOptionObserve, [])] else []) = 0 := by
      cases observe
      · rfl
      · rfl
    have haccept : valuesLength [(coapOptionAccept, uintValue 42)] = 1 := rfl
    have hcontent : valuesLength
        [(coapOptionContentFormat, uintValue (if p.cbor then 60 else 50))] = 1 := hformat
    rw [requestOptions, uriOptions, valuesLength_append, valuesLength_append, valuesLength_append,
      valuesLength_append, hobserve, haccept, hcontent]
    rw [iotxUriMaxLen] at hpath hquery
    omega
  have hcut := valuesLength_cut (requestOptions observe p)
  have hsplit := valuesLength_append
    ((cutOptions (requestOptions observe p)).take coapMsgMaxOptionNum)
    ((cutOptions (requestOptions observe p)).drop coapMsgMaxOptionNum)
  rw [List.take_append_drop] at hsplit
  have hcount : ((cutOptions (requestOptions observe p)).take coapMsgMaxOptionNum).length ≤ 16 :=
    List.length_take_le _ _
  refine Nat.le_trans optionsLength_le ?_
  omega

/-- The length of the datagram of a request. -/
def requestLength (observe : Bool) (p : IotxMessage) : Nat :=
  8 + optionsLength 0 ((cutOptions (requestOptions observe p)).take coapMsgMaxOptionNum) +
    (payloadBytes (p.payload.getD [])).length

/-! ## Sending -/

section Send

variable {m : Message}

/-- What becomes of a message of which all but the payload fits. -/
theorem Message.Sized.send_iff (h : m.Sized) (hhead : m.head.length < coapMsgMaxPduLen)
    (context : Context) (id : Nat) (write : Bool) (alloc : Allocation) :
    ∃ sent, coapMessageSend context m id write alloc = .ok sent ∧
      (sent.ret ≠ coapSuccess ∧ sent.written = none ↔
        write = false ∨ coapMsgMaxPduLen < m.datagram.length % 65536) ∧
      (sent.written = some m.datagram ↔ write = true ∧ m.datagram.length ≤ coapMsgMaxPduLen) := by
  have hlength := h.datagram_length
  have hfits : m.Fits ↔ m.datagram.length ≤ coapMsgMaxPduLen := by
    rw [Message.Fits, hlength]
    split
    · exact Iff.of_eq (by rw [Nat.add_assoc])
    · omega
  have hwhole : ∀ sent, coapMessageSend context m id write alloc = .ok sent →
      (sent.written = some m.datagram ↔ write = true ∧ m.datagram.length ≤ coapMsgMaxPduLen) := by
    intro sent hsent
    constructor
    · intro hwritten
      obtain ⟨hfit, hwrite⟩ := h.fits_of_written hsent hwritten
      exact ⟨hwrite, hfits.mp hfit⟩
    · rintro ⟨hwrite, hle⟩
      obtain ⟨sent', hsent', hwritten⟩ := h.send_fits (hfits.mpr hle) context id write alloc
      cases hsent.symm.trans hsent'
      exact (hwritten hwrite).2
  have hout : ∃ out, coapSerializeMessage m coapMsgMaxPduLen = .ok out := by
    rw [coapSerializeMessage]
    dsimp only
    rw [← Message.head, if_neg (Nat.not_lt.mpr (Nat.le_of_lt hhead))]
    split
    · exact ⟨_, rfl⟩
    · exact ⟨_, rfl⟩
  obtain ⟨out, hout⟩ := hout
  have hcounted : coapSerializeMessageLength m = m.datagram.length % 65536 := by
    rw [h.messageLength, m.countedLength_of_lt (Nat.lt_trans hhead (by decide))]
  rw [← hcounted]
  by_cases hlong : coapMsgMaxPduLen < coapSerializeMessageLength m
  · have hsent : coapMessageSend context m id write alloc =
        .ok ⟨coapErrorDataSize, none, context⟩ := by rw [coapMessageSend, if_pos hlong]
    refine ⟨_, hsent, iff_of_true ⟨?_, rfl⟩ (.inr hlong), hwhole _ hsent⟩
    exact (by decide : coapErrorDataSize ≠ coapSuccess)
  · obtain ⟨sent, hsent, hret, hwritten⟩ := coapMessageSend_of_serialized hlong hout
    refine ⟨sent, hsent, ?_, hwhole sent hsent⟩
    rw [or_iff_left hlong, hret, hwritten]
    cases write with
    | false => exact iff_of_true ⟨(by decide : coapErrorWriteFailed ≠ coapSuccess), rfl⟩ rfl
    | true => exact iff_of_false (fun hunsent => hunsent.1 rfl) Bool.true_eq_false.mp

end Send

/-! ## The request as a whole -/

/-- The request is built, and it is not sent, with an error, or it is sent as it was built and
holds the options that it should have. -/
def CarriesUri (observe : Bool) (client : CoapClient) (p : IotxMessage) (write : Bool)
    (alloc : Allocation) : Prop :=
  ∃ m client' sent client'', clientMessage observe client p = .ok (m, client') ∧
    clientSend observe client p write alloc = .ok (sent, client'') ∧
    (sent.ret ≠ coapSuccess ∧ sent.written = none ∨
      sent.written = some m.datagram ∧ absolute 0 m.options = requestOptions observe p)

/-- There is room for all the options, and for each segment with its terminator. -/
def Roomy (observe : Bool) (p : IotxMessage) : Prop :=
  (requestOptions observe p).length ≤ coapMsgMaxOptionNum ∧
    ∀ option ∈ requestOptions observe p, option.2.length < coapMsgMaxPathLen

instance (observe : Bool) (p : IotxMessage) : Decidable (Roomy observe p) :=
  inferInstanceAs (Decidable (_ ∧ ∀ _ ∈ _, _))

theorem cutOptions_eq_self {options : List (Nat × Bytes)} :
    cutOptions options = options ↔ ∀ option ∈ options, option.2.length < coapMsgMaxPathLen := by
  induction options with
  | nil => exact ⟨fun _ => nofun, fun _ => rfl⟩
  | cons option rest ih =>
      have hcut : cutTo option.2 = option.2 ↔ option.2.length < coapMsgMaxPathLen := by
        refine ⟨fun heq => ?_, fun hlt => List.take_of_length_le (Nat.le_pred_of_lt hlt)⟩
        have hlen := congrArg List.length heq
        rw [cutTo, List.length_take, coapMsgMaxPathLen] at hlen
        rw [coapMsgMaxPathLen]
        omega
      rw [cutOptions, List.map_cons, List.cons.injEq, ← cutOptions, ih, List.forall_mem_cons,
        ← hcut]
      exact and_congr_left' ⟨fun h => congrArg Prod.snd h, fun h => by rw [h]⟩

/-- The first options that there is room for, cut to the buffers, are all of them, uncut. -/
theorem roomy_iff (observe : Bool) (p : IotxMessage) :
    (cutOptions (requestOptions observe p)).take coapMsgMaxOptionNum = requestOptions observe p ↔
      Roomy observe p := by
  have hlength : (cutOptions (requestOptions observe p)).length =
      (requestOptions observe p).length := List.length_map _
  rw [Roomy, ← cutOptions_eq_self]
  constructor
  · intro hall
    have hfew : (requestOptions observe p).length ≤ coapMsgMaxOptionNum := by
      have hlen := congrArg List.length hall
      rw [List.length_take, hlength] at hlen
      omega
    rw [List.take_of_length_le (by rw [hlength]; exact hfew)] at hall
    exact ⟨hfew, hall⟩
  · rintro ⟨hfew, hall⟩
    rw [hall, List.take_of_length_le hfew]

theorem request_length {observe : Bool} {client client' : CoapClient} {p : IotxMessage}
    {m : Message} (hm : clientMessage observe client p = .ok (m, client'))
    (hholds : Holds m (cutOptions (requestOptions observe p))) (hpayload : m.payload = p.payload) :
    m.header.tokenlen = m.token.length ∧ m.datagram.length = requestLength observe p ∧
      m.head.length =
        8 + optionsLength 0 ((cutOptions (requestOptions observe p)).take coapMsgMaxOptionNum) := by
  obtain ⟨hheader, htoken, -⟩ := clientMessage_eq_ok hm
  have htokenlen : m.token.length = 4 := by
    rw [htoken]
    rfl
  have hheaderlen : (coapSerializeHeader m.header).length = 4 := rfl
  have hhead : m.head.length =
      8 + optionsLength 0 ((cutOptions (requestOptions observe p)).take coapMsgMaxOptionNum) := by
    rw [Message.head, List.length_append, List.length_append, hheaderlen, htokenlen,
      coapSerializeOptions, @serializeOptions_length 0, hholds.held]
    omega
  refine ⟨?_, ?_, hhead⟩
  · rw [hheader, htokenlen]
  · rw [Message.datagram, List.length_append, hhead, hpayload, requestLength]

/-- What is sent carries the whole URL and the whole query, or nothing is sent. -/
theorem carries_uri_iff (observe : Bool) (client : CoapClient) (p : IotxMessage) (write : Bool)
    (alloc : Allocation) (hshort : p.Short) :
    CarriesUri observe client p write alloc ↔
      p.Contained ∧
        (write = false ∨ coapMsgMaxPduLen < requestLength observe p % 65536 ∨
          requestLength observe p ≤ coapMsgMaxPduLen ∧ Roomy observe p) := by
  by_cases hcontained : p.Contained
  · obtain ⟨m, client', hm, hholds, hpayload, hpayloadlen⟩ :=
      clientMessage_holds hshort hcontained observe client
    obtain ⟨htokenlen, hdatagram, hhead⟩ := request_length hm hholds hpayload
    have hsized : m.Sized := ⟨htokenlen, hpayload ▸ hpayloadlen⟩
    have hhead' : m.head.length < coapMsgMaxPduLen := by
      have hle := requestOptions_length hshort observe
      rw [hhead, coapMsgMaxPduLen]
      omega
    obtain ⟨sent, hsent, hunsent, hwhole⟩ :=
      hsized.send_iff hhead' client'.context client'.sends write alloc
    rw [hdatagram] at hunsent hwhole
    have hoptions : absolute 0 m.options = requestOptions observe p ↔ Roomy observe p := by
      rw [hholds.held]
      exact roomy_iff observe p
    have hclient : ∃ client'', clientSend observe client p write alloc = .ok (sent, client'') := by
      rw [clientSend, hm, ok_bind]
      dsimp only
      rw [hsent, ok_bind]
      exact ⟨_, rfl⟩
    obtain ⟨client'', hclient⟩ := hclient
    rw [and_iff_right hcontained]
    constructor
    · rintro ⟨m', _, sent', _, hm', hclient', hcarries⟩
      cases hm.symm.trans hm'
      cases hclient.symm.trans hclient'
      rcases hcarries with hnone | ⟨hwritten, hall⟩
      · rcases hunsent.mp hnone with hwrite | hlong
        · exact .inl hwrite
        · exact .inr (.inl hlong)
      · exact .inr (.inr ⟨(hwhole.mp hwritten).2, hoptions.mp hall⟩)
    · intro hcondition
      refine ⟨m, client', sent, client'', hm, hclient, ?_⟩
      rcases hcondition with hwrite | hlong | ⟨hle, hroomy⟩
      · exact .inl (hunsent.mpr (.inl hwrite))
      · exact .inl (hunsent.mpr (.inr hlong))
      · cases write with
        | false => exact .inl (hunsent.mpr (.inl rfl))
        | true => exact .inr ⟨hwhole.mpr ⟨rfl, hle⟩, hoptions.mpr hroomy⟩
  · obtain ⟨e, he⟩ := clientMessage_overrun hshort hcontained observe client
    constructor
    · rintro ⟨m, client', _, _, hm, _⟩
      cases hm.symm.trans he
    · exact fun h => absurd h.1 hcontained

/-- A URL of one segment of 128 bytes, with a separator behind it. -/
def longSegment : IotxMessage :=
  ⟨none, some (List.replicate 128 97 ++ [47]), some [], 2, false, none⟩

theorem long_segment_not_carries :
    ¬CarriesUri false iotCoapInit longSegment true ⟨true, true⟩ := by
  have hshort : longSegment.Short := by decide +kernel
  have hoverrun : ¬longSegment.Contained := by decide +kernel
  rintro ⟨m, client', _, _, hm, _⟩
  obtain ⟨e, he⟩ := clientMessage_overrun hshort hoverrun false iotCoapInit
  cases hm.symm.trans he

/-- `/a/b` with no query. -/
def shortUrl : IotxMessage := ⟨none, some [47, 97, 47, 98], none, 2, false, none⟩

/-- A request for `/a/b` carries both segments. -/
theorem short_url_carries : CarriesUri true iotCoapInit shortUrl true ⟨true, true⟩ :=
  (carries_uri_iff true iotCoapInit shortUrl true ⟨true, true⟩ (by decide +kernel)).mpr
    ⟨by decide +kernel, .inr (.inr (by decide +kernel))⟩

end IotKit.Coap
