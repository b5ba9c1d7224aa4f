import IotKit.Datapoint.Effect

/-!
# What a read reports

Runs of all calls and of reads.  `log` is a ghost: for each definition, each write that
was accepted and each read, the id and which of them it was.  The parser reads the two
datapoints of the system at its end, and these reads are in the log too.

The result of a read is a function of the datapoint's own part of the log, its history
(`read_history`): it is new where the last write was one of the cloud and was not read
since.  The flag of every datapoint agrees with its history (`Lawful`), and each of the
four events keeps that (`Law`).
-/

namespace IotKit.Datapoint

open CMemory Runs

/-! ## The Read functions -/

theorem PropertyConf.read_dpID (p : PropertyConf) :
    ({ p with readFlag := .old } : PropertyConf).dpID = p.dpID := rfl

/-- The common body of the read functions: the result, the value for the caller and the
store. -/
def readDatapoint {α : Type} (s : Store) (dpID : UInt16) (get : PropertyConf → α) (value : α) :
    ReadResult × α × Store :=
  match getPropertyIndex s dpID with
  | none => (.none, value, s)
  | some index =>
      match s.properties[index]? with
      | none => (.none, value, s)
      | some p =>
          (p.readFlag, get p, s.modify index ({ · with readFlag := .old }) PropertyConf.read_dpID)

theorem iotDataPointReadBool_eq (s : Store) (dpID : UInt16) (value : Bool) :
    iotDataPointReadBool s dpID value = readDatapoint s dpID PropertyConf.boolValue value := rfl

/-- `IOT_DataPoint_ReadNumberInt32`. -/
def iotDataPointReadNumberInt32 (s : Store) (dpID : UInt16) (value : Int32) :
    ReadResult × Int32 × Store := readDatapoint s dpID PropertyConf.numberIntValue value

/-- `IOT_DataPoint_ReadNumberDouble`. -/
def iotDataPointReadNumberDouble (s : Store) (dpID : UInt16) (value : ℚ) :
    ReadResult × ℚ × Store := readDatapoint s dpID PropertyConf.numberDoubleValue value

/-- `IOT_DataPoint_ReadEnum`. -/
def iotDataPointReadEnum (s : Store) (dpID : UInt16) (value : Int32) :
    ReadResult × Int32 × Store := readDatapoint s dpID PropertyConf.enumValue value

/-- `IOT_DataPoint_ReadString`. -/
def iotDataPointReadString (s : Store) (dpID : UInt16) (value : Bytes) :
    ReadResult × Bytes × Store := readDatapoint s dpID PropertyConf.stringValue value

/-- `IOT_DataPoint_ReadBinary`. -/
def iotDataPointReadBinary (s : Store) (dpID : UInt16) (value : Bytes) :
    ReadResult × Bytes × Store := readDatapoint s dpID PropertyConf.binaryValue value

/-- The `Read` function for the type of the caller's variable: the result and the
store. -/
def iotDataPointRead (s : Store) (dpID : UInt16) : Value → ReadResult × Store
  | .bool value =>
      let (result, _, s) := iotDataPointReadBool s dpID value
      (result, s)
  | .int value =>
      let (result, _, s) := iotDataPointReadNumberInt32 s dpID value
      (result, s)
  | .double value =>
      let (result, _, s) := iotDataPointReadNumberDouble s dpID value
      (result, s)
  | .enum value =>
      let (result, _, s) := iotDataPointReadEnum s dpID value
      (result, s)
  | .string value =>
      let (result, _, s) := iotDataPointReadString s dpID value
      (result, s)
  | .binary value =>
      let (result, _, s) := iotDataPointReadBinary s dpID value
      (result, s)

namespace ReadFlag

/-! ## Runs -/

inductive Event where
  | define
  | user
  | cloud
  | read
deriving DecidableEq

abbrev Log := List (UInt16 × Event)

structure State where
  store : Store
  control : Control
  log : Log

def State.initial : State := ⟨Store.empty, Control.initial, []⟩

/-- A call, where `IOT_Comm_SendData` would return `result`, or a read into a variable
of some type. -/
inductive Op where
  | call (call : Call) (result : Int)
  | read (dpID : UInt16) (value : Value)

section Step

variable [Platform]

/-- What the parser writes and reads of one frame. -/
def frameEvents (s : Store) (payload : Option Bytes) : Log :=
  match parseDatapoints s payload with
  | .ok (some (s, applied)) =>
      let reset := (iotDataPointReadBool s dpidDefaultBoolReset false).1
      applied.map (·.dpID, .cloud) ++ (dpidDefaultBoolReset, .read) ::
        if reset = .new then [] else [(dpidDefaultBoolGetalldatapoint, .read)]
  | _ => []

/-- What a call that returns does with datapoints. -/
def callEvents (s : Store) : Call → Log
  | .defineBool _ dpID _ _ => [(dpID, .define)]
  | .defineNumber _ dpID _ _ _ _ _ => [(dpID, .define)]
  | .defineEnum _ dpID _ _ => [(dpID, .define)]
  | .defineString _ dpID _ _ => [(dpID, .define)]
  | .defineBinary _ dpID _ _ => [(dpID, .define)]
  | .write dpID value => if s.accepts dpID value.setter then [(dpID, .user)] else []
  | .send dpID value => if s.accepts dpID value.setter then [(dpID, .user)] else []
  | .parse payload => frameEvents s payload
  | .automatic _ _ => []
  | .manual => []
  | .control _ _ => []

def step (st : State) : Op → Checked State
  | .call call result => do
      let (store, control, _) ← exec st.store st.control result call
      .ok ⟨store, control, st.log ++ callEvents st.store call⟩
  | .read dpID value =>
      .ok ⟨(iotDataPointRead st.store dpID value).2, st.control, st.log ++ [(dpID, .read)]⟩

end Step

/-! ## Histories -/

/-- The events of one datapoint. -/
def history (log : Log) (dpID : UInt16) : List Event :=
  (log.filter (·.1 = dpID)).map (·.2)

/-- The last write came from the cloud, and there is no read behind it. -/
def Fresh (h : List Event) : Prop :=
  ∃ before after, h = before ++ .cloud :: after ∧
    ∀ e ∈ after, e ≠ .user ∧ e ≠ .cloud ∧ e ≠ .read

theorem fresh_concat {h : List Event} {e : Event} :
    Fresh (h ++ [e]) ↔ e = .cloud ∨ e = .define ∧ Fresh h := by
  constructor
  · intro ⟨before, after, heq, hafter⟩
    rcases List.eq_nil_or_concat after with rfl | ⟨after, a, rfl⟩
    · obtain ⟨_, he⟩ := List.append_inj' heq rfl
      cases he
      exact Or.inl rfl
    · rw [List.concat_eq_append] at heq hafter
      rw [← List.cons_append, ← List.append_assoc] at heq
      obtain ⟨rfl, he⟩ := List.append_inj' heq rfl
      cases he
      refine Or.inr ⟨?_, before, after, rfl, fun b hb => hafter b (List.mem_append_left _ hb)⟩
      obtain ⟨huser, hcloud, hread⟩ := hafter e (by simp)
      cases e with
      | define => rfl
      | user => exact absurd rfl huser
      | cloud => exact absurd rfl hcloud
      | read => exact absurd rfl hread
  · intro h'
    rcases h' with rfl | ⟨rfl, before, after, rfl, hafter⟩
    · exact ⟨h, [], rfl, fun a ha => absurd ha List.not_mem_nil⟩
    · refine ⟨before, after ++ [.define], by simp, fun a ha => ?_⟩
      rcases List.mem_append.mp ha with ha | ha
      · exact hafter a ha
      · rw [List.mem_singleton.mp ha]
        exact ⟨nofun, nofun, nofun⟩

/-- A read flag agrees with the history of its datapoint. -/
structure Law (flag : Option ReadResult) (h : List Event) : Prop where
  defined : flag = none ↔ .define ∉ h
  fresh : flag = some .new ↔ Fresh h
  proper : flag ≠ some .none

section Law

variable {flag : Option ReadResult} {h : List Event}

theorem not_fresh_nil : ¬ Fresh [] := by
  intro ⟨before, after, heq, _⟩
  cases before with
  | nil => cases heq
  | cons => cases heq

theorem law_nil : Law none [] :=
  ⟨⟨fun _ => List.not_mem_nil, fun _ => rfl⟩, ⟨nofun, fun h => absurd h not_fresh_nil⟩, nofun⟩

/-- A write of the cloud to a datapoint that is there. -/
theorem Law.cloud (law : Law flag h) (hdefined : flag ≠ none) :
    Law (some .new) (h ++ [.cloud]) := by
  have hmem : .define ∈ h := by
    by_contra hnot
    exact hdefined (law.defined.mpr hnot)
  refine ⟨⟨nofun, fun hnot => ?_⟩, ⟨fun _ => fresh_concat.mpr (Or.inl rfl), fun _ => rfl⟩, nofun⟩
  exact absurd (List.mem_append_left _ hmem) hnot

/-- A write of the user or a read. -/
theorem Law.settled (law : Law flag h) {e : Event} (he : e = .user ∨ e = .read) :
    Law (flag.map fun _ => .old) (h ++ [e]) := by
  have hcloud : e ≠ .cloud := by rcases he with rfl | rfl <;> nofun
  have hdefine : e ≠ .define := by rcases he with rfl | rfl <;> nofun
  refine ⟨?_, ?_, ?_⟩
  · rw [Option.map_eq_none_iff, law.defined, List.mem_append, List.mem_singleton]
    simp [hdefine.symm]
  · rw [fresh_concat]
    simp [hcloud, hdefine]
  · simp

/-- A definition of a datapoint that is not there. -/
theorem Law.define_new (law : Law none h) : Law (some .old) (h ++ [.define]) := by
  refine ⟨⟨nofun, fun hnot => absurd (by simp) hnot⟩, ⟨nofun, fun hfresh => ?_⟩, nofun⟩
  rcases fresh_concat.mp hfresh with he | ⟨_, hfresh⟩
  · cases he
  · cases law.fresh.mpr hfresh

/-- A definition of one that is. -/
theorem Law.define_old (law : Law flag h) (hdefined : flag ≠ none) :
    Law flag (h ++ [.define]) := by
  refine ⟨⟨fun hnone => absurd hnone hdefined, fun hnot => absurd (by simp) hnot⟩, ?_, law.proper⟩
  rw [law.fresh, fresh_concat]
  simp

end Law

/-! ## The store and the log -/

/-- The read flag of the datapoint with the id. -/
def flag (s : Store) (dpID : UInt16) : Option ReadResult :=
  (s.property dpID).map PropertyConf.readFlag

/-- The flag of every datapoint agrees with its history. -/
def Lawful (s : Store) (log : Log) : Prop := ∀ id, Law (flag s id) (history log id)

theorem history_self (log : Log) (id : UInt16) (e : Event) :
    history (log ++ [(id, e)]) id = history log id ++ [e] := by
  simp [history]

theorem history_of_ne (log : Log) {id dpID : UInt16} (e : Event) (h : id ≠ dpID) :
    history (log ++ [(dpID, e)]) id = history log id := by
  simp [history, h.symm]

section Store

variable {s s' : Store} {log : Log} {dpID id : UInt16} {w : Setter} {type : Bool}

/-- One event on the datapoint with the id, and nothing on the others. -/
theorem Lawful.event (h : Lawful s log) {e : Event}
    (hothers : ∀ id, id ≠ dpID → flag s' id = flag s id)
    (hself : Law (flag s dpID) (history log dpID) →
      Law (flag s' dpID) (history log dpID ++ [e])) : Lawful s' (log ++ [(dpID, e)]) := by
  intro id
  by_cases hid : id = dpID
  · subst hid
    rw [history_self]
    exact hself (h id)
  · rw [history_of_ne log e hid, hothers id hid]
    exact h id

theorem Lawful.of_flag (h : Lawful s log) (hflag : ∀ id, flag s' id = flag s id) :
    Lawful s' log := by
  intro id
  rw [hflag id]
  exact h id

theorem flag_map {f : PropertyConf → PropertyConf} (hs' : s'.properties = s.properties.map f)
    (hid : ∀ p, (f p).dpID = p.dpID) :
    flag s' id = (s.property id).map fun p => (f p).readFlag := by
  have hprop : s'.property id = (s.property id).map f := by
    rw [Store.property, hs']
    exact KeyTable.entry_map hid
  rw [flag, hprop, Option.map_map]
  rfl

theorem flag_write_of_ne (h : id ≠ dpID) : flag (writeDatapoint s dpID w type) id = flag s id := by
  rw [flag, property_writeDatapoint_of_ne h, flag]

/-- An accepted write sets the flag for who wrote. -/
theorem flag_write (haccepts : s.accepts dpID w) :
    flag (writeDatapoint s dpID w type) dpID = some (if type then .old else .new) := by
  rw [flag, property_writeDatapoint_self]
  rw [Store.accepts] at haccepts
  cases hp : s.property dpID with
  | none =>
      rw [hp] at haccepts
      cases haccepts
  | some p =>
      rw [hp] at haccepts
      rw [Option.map_some, Option.map_some, Setter.write]
      dsimp only
      rw [if_pos (show w.accepts p = true from haccepts)]
      split
      · rfl
      · rfl

theorem flag_ne_none_of_accepts (haccepts : s.accepts dpID w) : flag s dpID ≠ none := by
  rw [flag]
  rw [Store.accepts] at haccepts
  cases hp : s.property dpID with
  | none =>
      rw [hp] at haccepts
      cases haccepts
  | some p => exact Option.some_ne_none p.readFlag

theorem Lawful.user (h : Lawful s log) :
    Lawful (writeDatapoint s dpID w true)
      (log ++ if s.accepts dpID w then [(dpID, .user)] else []) := by
  split
  next haccepts =>
    refine h.event (fun id hid => flag_write_of_ne hid) fun law => ?_
    rw [flag_write haccepts]
    have hlaw := law.settled (e := .user) (Or.inl rfl)
    cases hflag : flag s dpID with
    | none => exact absurd hflag (flag_ne_none_of_accepts haccepts)
    | some f =>
        rw [hflag] at hlaw
        exact hlaw
  next haccepts =>
    rw [List.append_nil, writeDatapoint_of_not_accepts haccepts]
    exact h

theorem Lawful.cloud (h : Lawful s log) :
    Lawful (writeDatapoint s dpID w false)
      (log ++ if s.accepts dpID w then [(dpID, .cloud)] else []) := by
  split
  next haccepts =>
    refine h.event (fun id hid => flag_write_of_ne hid) fun law => ?_
    rw [flag_write haccepts]
    exact law.cloud (flag_ne_none_of_accepts haccepts)
  next haccepts =>
    rw [List.append_nil, writeDatapoint_of_not_accepts haccepts]
    exact h

/-- Every read function returns the flag and settles it. -/
theorem readDatapoint_flag {α : Type} (get : PropertyConf → α) (value : α) :
    (readDatapoint s dpID get value).1 = (flag s dpID).getD .none ∧
      (∀ id, id ≠ dpID → flag (readDatapoint s dpID get value).2.2 id = flag s id) ∧
      flag (readDatapoint s dpID get value).2.2 dpID = (flag s dpID).map fun _ => .old := by
  cases hindex : getPropertyIndex s dpID with
  | none =>
      have hnone : s.property dpID = none :=
        KeyTable.entry_eq_none.mpr (KeyTable.indexOf_eq_none.mp hindex)
      simp [readDatapoint, hindex, flag, hnone]
  | some index =>
      have hget : s.properties[index]? = s.property dpID := KeyTable.getElem?_indexOf hindex
      cases hp : s.property dpID with
      | none =>
          have hlt := KeyTable.indexOf_lt hindex
          rw [hp] at hget
          exact absurd hlt (Nat.not_lt.mpr (List.getElem?_eq_none_iff.mp hget))
      | some p =>
          rw [hp] at hget
          have hread : readDatapoint s dpID get value =
              (p.readFlag, get p,
                s.modify index ({ · with readFlag := .old }) PropertyConf.read_dpID) := by
            simp only [readDatapoint, hindex, hget]
          have hs' : (readDatapoint s dpID get value).2.2.properties = s.properties.map
              fun p => if p.dpID = dpID then { p with readFlag := .old } else p := by
            rw [hread]
            exact KeyTable.modify_indexOf s.distinct hindex
          have hflag : ∀ id, flag (readDatapoint s dpID get value).2.2 id = (s.property id).map
              fun p => (if p.dpID = dpID then { p with readFlag := .old } else p).readFlag := by
            intro id
            refine flag_map hs' fun p => ?_
            split
            · rfl
            · rfl
          refine ⟨by rw [hread, flag, hp]; rfl, fun id hid => ?_, ?_⟩
          · rw [hflag, flag]
            cases hq : s.property id with
            | none => rfl
            | some q =>
                have hne : q.dpID ≠ dpID := fun h => hid ((Store.property_eq_some.mp hq).2 ▸ h)
                rw [Option.map_some, if_neg hne, Option.map_some]
          · rw [hflag, flag, hp, Option.map_some, if_pos (Store.property_eq_some.mp hp).2]
            rfl

theorem Lawful.readDatapoint {α : Type} (h : Lawful s log) (get : PropertyConf → α) (value : α) :
    Lawful (readDatapoint s dpID get value).2.2 (log ++ [(dpID, .read)]) := by
  obtain ⟨_, hothers, hself⟩ := @readDatapoint_flag s dpID α get value
  refine h.event hothers fun law => ?_
  rw [hself]
  exact law.settled (Or.inr rfl)

theorem Lawful.readBool (h : Lawful s log) (value : Bool) :
    Lawful (iotDataPointReadBool s dpID value).2.2 (log ++ [(dpID, .read)]) :=
  h.readDatapoint PropertyConf.boolValue value

theorem Lawful.read (h : Lawful s log) (value : Value) :
    Lawful (iotDataPointRead s dpID value).2 (log ++ [(dpID, .read)]) := by
  cases value with
  | bool v => exact h.readDatapoint PropertyConf.boolValue v
  | int v => exact h.readDatapoint PropertyConf.numberIntValue v
  | double v => exact h.readDatapoint PropertyConf.numberDoubleValue v
  | enum v => exact h.readDatapoint PropertyConf.enumValue v
  | string v => exact h.readDatapoint PropertyConf.stringValue v
  | binary v => exact h.readDatapoint PropertyConf.binaryValue v

theorem iotDataPointRead_result (value : Value) :
    (iotDataPointRead s dpID value).1 = (flag s dpID).getD .none := by
  cases value with
  | bool v => exact (readDatapoint_flag PropertyConf.boolValue v).1
  | int v => exact (readDatapoint_flag PropertyConf.numberIntValue v).1
  | double v => exact (readDatapoint_flag PropertyConf.numberDoubleValue v).1
  | enum v => exact (readDatapoint_flag PropertyConf.enumValue v).1
  | string v => exact (readDatapoint_flag PropertyConf.stringValue v).1
  | binary v => exact (readDatapoint_flag PropertyConf.binaryValue v).1

theorem flag_clear : flag (clearPropertyChangeFlag s) id = flag s id :=
  flag_map (f := ({ · with change := false })) rfl fun _ => rfl

end Store

/-! ## Calls -/

theorem property_append {s s' : Store} {p : PropertyConf}
    (hs' : s'.properties = s.properties ++ [p]) (id : UInt16) :
    s'.property id = (s.property id).or (if p.dpID = id then some p else none) := by
  rw [Store.property, hs', Store.property, KeyTable.entry, List.find?_append, KeyTable.entry]
  congr 1
  rw [List.find?_singleton]
  simp

section Steps

variable [Platform] {s s' : Store} {log : Log} {c c' : Control} {result : Int}
  {uploads : List Upload}

theorem readFlag_property (d : Define) : d.property.readFlag = .old := by
  cases d with
  | number => rw [Define.property_number]; rfl
  | _ => rfl

theorem Lawful.define (h : Lawful s log) {d : Define} (hexec : d.exec s = .ok s') :
    Lawful s' (log ++ [(d.property.dpID, .define)]) := by
  rcases Define.exec_cases hexec with ⟨⟨q, hq⟩, rfl⟩ | ⟨hnone, hs'⟩
  · refine h.event (fun _ _ => rfl) fun law => law.define_old ?_
    rw [flag, hq]
    nofun
  · refine h.event (fun id hid => ?_) fun law => ?_
    · rw [flag, property_append hs', if_neg fun h => hid h.symm, Option.or_none, flag]
    · rw [flag, hnone] at law
      rw [flag, property_append hs', hnone, if_pos rfl, Option.none_or, Option.map_some,
        readFlag_property]
      exact law.define_new

theorem Lawful.parseRecord (h : Lawful s log) {input : Bytes} {r : Parsed}
    (hparse : parseRecord s input = .ok r) :
    Lawful r.store (log ++ r.applied.map (·.dpID, .cloud)) := by
  obtain ⟨⟨n, input'⟩, _, hparse⟩ := bind_eq_ok.mp hparse
  obtain ⟨⟨t, input''⟩, _, hparse⟩ := bind_eq_ok.mp hparse
  obtain ⟨record, _, hparse⟩ := bind_eq_ok.mp hparse
  cases hparse
  rw [applyRecord]
  split
  next =>
    rw [List.map_nil, List.append_nil]
    exact h
  next w _ =>
    have hcloud := @Lawful.cloud s log (UInt16.ofNat n) w h
    dsimp only
    split
    next haccepts =>
      rw [if_pos haccepts] at hcloud
      exact hcloud
    next haccepts =>
      rw [if_neg haccepts] at hcloud
      exact hcloud

theorem Lawful.parseLoop {fuel : Nat} {input : Bytes} {applied : List Applied} (h : Lawful s log)
    (hparse : parseLoop fuel s input = .ok (s', applied)) :
    Lawful s' (log ++ applied.map (·.dpID, .cloud)) := by
  induction fuel generalizing s input log applied with
  | zero =>
      cases input with
      | nil =>
          cases hparse
          rw [List.map_nil, List.append_nil]
          exact h
      | cons b input => cases hparse
  | succ fuel ih =>
      cases input with
      | nil =>
          cases hparse
          rw [List.map_nil, List.append_nil]
          exact h
      | cons b input =>
          obtain ⟨r, hr, hparse⟩ := bind_eq_ok.mp hparse
          obtain ⟨⟨t, applied'⟩, hloop, hparse⟩ := bind_eq_ok.mp hparse
          cases hparse
          rw [List.map_append, ← List.append_assoc]
          exact ih (h.parseRecord hr) hloop

/-- The parser's own reads at its end are reads. -/
theorem Lawful.parseEnd (h : Lawful s log) {r : Received} (hend : parseEnd s result = .ok r) :
    Lawful r.store (log ++ (dpidDefaultBoolReset, .read) ::
      if (iotDataPointReadBool s dpidDefaultBoolReset false).1 = .new then []
      else [(dpidDefaultBoolGetalldatapoint, .read)]) := by
  have hfirst := @Lawful.readBool s log dpidDefaultBoolReset h false
  obtain ⟨reset, v, s₁, hreset, hend⟩ := parseEnd_cases hend
  rw [hreset] at hfirst ⊢
  obtain ⟨hnew, rfl⟩ | ⟨hnew, getAll, v', s₂, hgetAll, hend⟩ := hend
  · rw [if_pos hnew]
    exact hfirst
  · rw [if_neg hnew, ← List.singleton_append, ← List.append_assoc]
    have hsecond := @Lawful.readBool _ _ dpidDefaultBoolGetalldatapoint hfirst false
    rw [hgetAll] at hsecond
    obtain ⟨_, rc, hsend⟩ | ⟨_, rfl⟩ := hend
    · rw [sendAll_store hsend]
      exact hsecond.of_flag fun id => flag_clear
    · exact hsecond

theorem Lawful.parse (h : Lawful s log) {payload : Option Bytes} {r : Received}
    (hparse : iotDataPointParseReceiveDatapoints s payload result = .ok r) :
    Lawful r.store (log ++ frameEvents s payload) := by
  obtain ⟨parsed, hparsed, hend⟩ := bind_eq_ok.mp hparse
  rw [frameEvents, hparsed]
  cases parsed with
  | none =>
      cases hend
      rw [List.append_nil]
      exact h
  | some parsed =>
      obtain ⟨t, applied⟩ := parsed
      obtain ⟨body, _, hloop⟩ := bind_eq_ok.mp hparsed
      cases body with
      | none => cases hloop
      | some body =>
          obtain ⟨⟨t', applied'⟩, hloop, heq⟩ := bind_eq_ok.mp hloop
          cases heq
          dsimp only
          rw [← List.append_assoc]
          exact (h.parseLoop hloop).parseEnd hend

theorem manual_flag {r : Sent} (h : iotDataPointSendAllDatapointManual s c result = .ok r)
    (id : UInt16) : flag r.store id = flag s id := by
  obtain rfl | ⟨_, _, hall⟩ := manual_cases h
  · rfl
  · rw [sendAll_store hall]
    exact flag_clear.trans flag_clear

theorem automatic_flag {now now' : Nat} {r : Sent}
    (h : iotDataPointSendDatapointAutomatic s c now now' result = .ok (r, c')) (id : UInt16) :
    flag r.store id = flag s id := by
  obtain ⟨rfl, _⟩ | ⟨_, _, _, hall, _⟩ := automatic_cases h
  · rfl
  · rw [sendAll_store hall]
    exact flag_clear.trans flag_clear

theorem callEvents_define {call : Call} {d : Define} (h : call.define = some d) :
    callEvents s call = [(d.property.dpID, .define)] := by
  rw [d.dpID_property]
  cases call with
  | defineBool | defineNumber | defineEnum | defineString | defineBinary =>
      cases h
      rfl
  | _ => cases h

theorem Lawful.exec (h : Lawful s log) {call : Call}
    (hexec : exec s c result call = .ok (s', c', uploads)) :
    Lawful s' (log ++ callEvents s call) := by
  cases call with
  | defineBool | defineNumber | defineEnum | defineString | defineBinary =>
      obtain ⟨t, hdefine, hexec⟩ := bind_eq_ok.mp hexec
      cases hexec
      rw [callEvents_define rfl]
      exact h.define hdefine
  | write dpID value =>
      cases hexec
      rw [iotDataPointWrite_eq]
      exact h.user
  | send dpID value =>
      obtain ⟨r, hsend, hexec⟩ := bind_eq_ok.mp hexec
      cases hexec
      rw [iotDataPointSend_eq] at hsend
      rw [sendDatapoint_store hsend]
      exact h.user
  | parse payload =>
      obtain ⟨r, hparse, hexec⟩ := bind_eq_ok.mp hexec
      cases hexec
      exact h.parse hparse
  | automatic now now' =>
      obtain ⟨⟨r, c'⟩, hsend, hexec⟩ := bind_eq_ok.mp hexec
      cases hexec
      rw [callEvents, List.append_nil]
      exact h.of_flag (automatic_flag hsend)
  | manual =>
      obtain ⟨r, hsend, hexec⟩ := bind_eq_ok.mp hexec
      cases hexec
      rw [callEvents, List.append_nil]
      exact h.of_flag (manual_flag hsend)
  | control mode lapse =>
      cases hexec
      rw [callEvents, List.append_nil]
      exact h

theorem step_lawful {st st' : State} {op : Op} (h : Lawful st.store st.log)
    (hstep : step st op = .ok st') : Lawful st'.store st'.log := by
  cases op with
  | call call result =>
      obtain ⟨⟨store, control, uploads⟩, hexec, hstep⟩ := bind_eq_ok.mp hstep
      cases hstep
      exact h.exec hexec
  | read dpID value =>
      cases hstep
      exact h.read value

theorem run_lawful {st : State} {ops : List Op} (hrun : run step State.initial ops = .ok st) :
    Lawful st.store st.log := by
  have hinitial : Lawful State.initial.store State.initial.log := fun id => law_nil
  exact @run_invariant _ _ _ step (fun _ _ => True) (fun st => Lawful st.store st.log)
    (fun h _ hstep => step_lawful h hstep) _ _ ops hinitial guarded_true hrun

/-- A read reports the history of its datapoint, whatever happened to the others. -/
theorem read_history {st : State} (ops : List Op) (hrun : run step State.initial ops = .ok st)
    (dpID : UInt16) (value : Value) :
    ((iotDataPointRead st.store dpID value).1 = .new ↔ Fresh (history st.log dpID)) ∧
      ((iotDataPointRead st.store dpID value).1 = .none ↔ .define ∉ history st.log dpID) ∧
      ((iotDataPointRead st.store dpID value).1 = .old ↔
        .define ∈ history st.log dpID ∧ ¬ Fresh (history st.log dpID)) := by
  have law := run_lawful hrun dpID
  rw [iotDataPointRead_result, ← law.fresh]
  have hdefined := law.defined
  cases hflag : flag st.store dpID with
  | none =>
      have hnot := hdefined.mp hflag
      simp [hnot]
  | some result =>
      have hmem : .define ∈ history st.log dpID := by
        by_contra hnot
        rw [hdefined.mpr hnot] at hflag
        cases hflag
      cases result with
      | old => simp [hmem]
      | new => simp [hmem]
      | none => exact absurd hflag law.proper

end Steps

/-- A frame of the cloud writes a datapoint, and the read of it reports a new value. -/
theorem read_history_cloud : ∃ st,
    run (@step zeroPlatform) State.initial
      [.call (.defineBool zeroProperty 1 .upDown false) 0,
        .call (.parse (some [0x31, 1, 0, 1, 1])) 0] = .ok st ∧
    history st.log 1 = [.define, .cloud] ∧
    ((iotDataPointRead st.store 1 (.bool false)).1 = .new ↔ Fresh (history st.log 1)) := by
  obtain ⟨st, hrun, hlog⟩ : ∃ st,
      run (@step zeroPlatform) State.initial
        [.call (.defineBool zeroProperty 1 .upDown false) 0,
          .call (.parse (some [0x31, 1, 0, 1, 1])) 0] = .ok st ∧
      history st.log 1 = [.define, .cloud] := ⟨_, rfl, by decide +kernel⟩
  exact ⟨st, hrun, hlog, (@read_history zeroPlatform st _ hrun 1 (.bool false)).1⟩

end ReadFlag

end IotKit.Datapoint
