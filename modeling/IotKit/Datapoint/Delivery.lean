import IotKit.Datapoint.Transmit
import IotKit.Lib.Run

/-!
# Delivery of changes

Runs of the calls of an application and of the connection layer.  `delivered` is
a ghost: for each id, the value in the last frame with it that
`IOT_Comm_SendData` accepted, which is to return 0.  `NoLoss` says that a
datapoint whose value differs from the delivered one has its change flag set.

Three things break it: a user writes a value again while its upload is pending,
which clears the flag, an upload of all datapoints is refused after their flags
were cleared, and a frame carries another value than the datapoint has.  `Keeps`
rules them out, and where every step of a run meets it, every state on the way has
`NoLoss` (`run_noLoss`).
-/

namespace IotKit.Datapoint

open CMemory Runs

/-! ## Runs -/

/-- A call. -/
inductive Call where
  | defineBool (fresh : PropertyConf) (dpID : UInt16) (permission : Permission) (value : Bool)
  | defineNumber (fresh : PropertyConf) (dpID : UInt16) (permission : Permission)
      (minValue maxValue : ℚ) (resolution : Int) (value : ℚ)
  | defineEnum (fresh : PropertyConf) (dpID : UInt16) (permission : Permission) (value : Int32)
  | defineString (fresh : PropertyConf) (dpID : UInt16) (permission : Permission) (value : Bytes)
  | defineBinary (fresh : PropertyConf) (dpID : UInt16) (permission : Permission) (value : Bytes)
  | write (dpID : UInt16) (value : Value)
  | send (dpID : UInt16) (value : Value)
  | parse (payload : Option Bytes)
  | automatic (now now' : Nat)
  | manual
  | control (mode : TransmitMode) (lapse : Nat)

/-- The values delivered. -/
abbrev Delivered := UInt16 → Option Value

structure State where
  store : Store
  control : Control
  delivered : Delivered

def State.initial : State := ⟨Store.empty, Control.initial, fun _ => none⟩

/-- The call, where `IOT_Comm_SendData` would return `result`: the store, the control
block and the frames handed over. -/
def exec [Platform] (s : Store) (c : Control) (result : Int) :
    Call → Checked (Store × Control × List Upload)
  | .defineBool fresh dpID permission value => do
      let s ← iotDataPointDefineBool s fresh dpID permission value
      .ok (s, c, [])
  | .defineNumber fresh dpID permission minValue maxValue resolution value => do
      let s ← iotDataPointDefineNumber s fresh dpID permission minValue maxValue resolution value
      .ok (s, c, [])
  | .defineEnum fresh dpID permission value => do
      let s ← iotDataPointDefineEnum s fresh dpID permission value
      .ok (s, c, [])
  | .defineString fresh dpID permission value => do
      let s ← iotDataPointDefineString s fresh dpID permission value
      .ok (s, c, [])
  | .defineBinary fresh dpID permission value => do
      let s ← iotDataPointDefineBinary s fresh dpID permission value
      .ok (s, c, [])
  | .write dpID value => .ok (iotDataPointWrite s dpID value, c, [])
  | .send dpID value => do
      let r ← iotDataPointSend s c dpID value result
      .ok (r.store, c, r.uploads)
  | .parse payload => do
      let r ← iotDataPointParseReceiveDatapoints s payload result
      .ok (r.store, c, r.uploads)
  | .automatic now now' => do
      let (r, c) ← iotDataPointSendDatapointAutomatic s c now now' result
      .ok (r.store, c, r.uploads)
  | .manual => do
      let r ← iotDataPointSendAllDatapointManual s c result
      .ok (r.store, c, r.uploads)
  | .control mode lapse => .ok (s, iotDataPointControl c mode lapse, [])

/-- The value that the record of a datapoint carries: of an enumeration the low byte, and of
a double its distance from `minValue` in units of the resolution. -/
def PropertyConf.carried [Platform] (p : PropertyConf) : Value :=
  match p.dataType with
  | .bool => .bool p.boolValue
  | .num =>
      if p.resolution = 0 then .int (formNumber p)
      else .double (numberDouble p.minValue p.resolution (formNumber p))
  | .enum => .enum (Int32.ofNat (p.enumValue.toUInt32.toNat % 256))
  | .string => .string (p.stringValue.take (p.stringValue.length % 65536))
  | .binary => .binary (p.binaryValue.take (p.binaryValue.length % 65536))

/-- The record carries the value. -/
def PropertyConf.Faithful [Platform] (p : PropertyConf) : Prop := p.carried = p.value

/-- The values after an accepted frame. -/
def Delivered.frame [Platform] (d : Delivered) (upload : Upload) : Delivered := fun id =>
  match KeyTable.entry PropertyConf.dpID id upload.contents with
  | some p => some p.carried
  | none => d id

/-- The values after the frames of a call. -/
def Delivered.after [Platform] (d : Delivered) (result : Int) (uploads : List Upload) : Delivered :=
  if result = 0 then uploads.foldl Delivered.frame d else d

/-- One call and the result of `IOT_Comm_SendData`. -/
def step [Platform] (st : State) (a : Call × Int) : Checked State := do
  let (store, control, uploads) ← exec st.store st.control a.2 a.1
  .ok ⟨store, control, st.delivered.after a.2 uploads⟩

/-! ## The property and its condition -/

/-- The datapoint goes up and its value is not the one delivered. -/
def Pending (d : Delivered) (p : PropertyConf) : Prop :=
  p.Uploadable ∧ ∃ v, d p.dpID = some v ∧ p.value ≠ v

/-- Every pending change is flagged. -/
def NoLoss (d : Delivered) (s : Store) : Prop :=
  ∀ p ∈ s.properties, Pending d p → p.change

/-- The store in which a call uploads all datapoints, if it does. -/
def UploadsAll [Platform] (s : Store) (c : Control) : Call → Store → Prop
  | .manual, s' => c.transmitMode = .manual ∧ s' = s
  | .automatic now _, s' =>
      c.transmitMode = .automatic ∧ (isPropertyChanged s || lapsed c now) ∧ s' = s
  | .parse payload, s' => ∃ s₁ applied reset v s₂ v',
      parseDatapoints s payload = .ok (some (s₁, applied)) ∧
      iotDataPointReadBool s₁ dpidDefaultBoolReset false = (reset, v, s₂) ∧ reset ≠ .new ∧
      iotDataPointReadBool s₂ dpidDefaultBoolGetalldatapoint false = (.new, v', s')
  | _, _ => False

/-- A user writes the value that the datapoint has. -/
def Rewrites [Platform] (s : Store) : Call → PropertyConf → Prop
  | .write dpID value, p => s.property dpID = some p ∧ value.setter.accepts p ∧ value.setter.same p
  | .send dpID value, p => s.property dpID = some p ∧ value.setter.accepts p ∧ value.setter.same p
  | _, _ => False

/-- A write with the setter changes the value, as far as it can tell. -/
def Setter.Changes (w : Setter) (p : PropertyConf) : Prop := w.accepts p ∧ ¬ w.same p

/-- A `Send` delivers a datapoint that it does not change. -/
def SendsAgain [Platform] (st : State) (a : Call × Int) (p : PropertyConf) : Prop :=
  ∃ dpID value, a.1 = .send dpID value ∧ a.2 = 0 ∧ st.control.transmitMode = .manual ∧
    st.store.property dpID = some p ∧ ¬ value.setter.Changes p

theorem not_sendsAgain [Platform] {st : State} {call : Call} {result : Int} {p : PropertyConf}
    (h : ∀ dpID value, call ≠ .send dpID value) : ¬ SendsAgain st (call, result) p := by
  rintro ⟨dpID, value, hcall, _⟩
  exact h dpID value hcall

/-- An upload of the store is accepted and its records carry the values, or it is refused
and no datapoint is pending. -/
def Settles [Platform] (d : Delivered) (result : Int) (s : Store) : Prop :=
  result = 0 ∧ (∀ p ∈ s.properties, p.Uploadable → p.Faithful) ∨
    result ≠ 0 ∧ ∀ p ∈ s.properties, ¬ Pending d p

/-- No pending datapoint is written its own value again, unless that call sends it, a
datapoint that is sent again has a value that its record carries, and an upload of all
datapoints leaves none pending. -/
structure Keeps [Platform] (st : State) (a : Call × Int) : Prop where
  rewrite : ∀ p, Rewrites st.store a.1 p →
    ¬ Pending st.delivered p ∨
      (∃ dpID value, a.1 = .send dpID value) ∧ st.control.transmitMode = .manual ∧ a.2 = 0
  carry : ∀ p, SendsAgain st a p → p.Uploadable → p.Faithful
  upload : ∀ s', UploadsAll st.store st.control a.1 s' → Settles st.delivered a.2 s'

/-! ## Stores -/

section Store

variable {d : Delivered} {s s' : Store} {p q : PropertyConf} {dpID : UInt16} {w : Setter}
  {type : Bool}

/-- Only datapoints of the store have been delivered. -/
def Known (d : Delivered) (s : Store) : Prop :=
  ∀ id v, d id = some v → id ∈ s.properties.map PropertyConf.dpID

theorem Pending.of_value (hdef : q.definition = p.definition) (hvalue : q.value = p.value)
    (h : Pending d q) : Pending d p := by
  obtain ⟨⟨hperm, hid⟩, v, hd, hv⟩ := h
  have hpid : q.dpID = p.dpID := congrArg Definition.dpID hdef
  have hpperm : q.permission = p.permission := congrArg Definition.permission hdef
  rw [hpid] at hid hd
  rw [hpperm] at hperm
  rw [hvalue] at hv
  exact ⟨⟨hperm, hid⟩, v, hd, hv⟩

/-- A write leaves the datapoint, flags it, or is a user's write of the value that is
there. -/
theorem Setter.write_cases (w : Setter) (type : Bool) (p : PropertyConf) :
    w.write type p = p ∨ (w.write type p).change ∨
      w.accepts p ∧ w.same p ∧ type ∧ (w.write type p).value = p.value := by
  rw [Setter.write]
  dsimp only
  split
  next haccepts =>
    split
    next hsame =>
      cases type with
      | true => exact Or.inr (Or.inr ⟨haccepts, hsame, rfl, rfl⟩)
      | false => exact Or.inr (Or.inl rfl)
    next => exact Or.inr (Or.inl rfl)
  next => exact Or.inl rfl

/-- A write that changes the value raises the flag. -/
theorem Setter.Changes.change {type : Bool} (h : w.Changes p) : (w.write type p).change := by
  rw [Setter.write]
  dsimp only
  rw [if_pos h.1, if_neg h.2]

/-- A write that does not change the value leaves all but the flags. -/
theorem Setter.write_of_not_changes {type : Bool} (h : ¬ w.Changes p) :
    ∃ change readFlag, w.write type p = { p with change, readFlag } := by
  rw [Setter.write]
  dsimp only
  split
  next haccepts =>
    split
    next => exact ⟨_, _, rfl⟩
    next hsame => exact absurd ⟨haccepts, hsame⟩ h
  next => exact ⟨_, _, rfl⟩

theorem NoLoss.write (h : NoLoss d s)
    (hrewrite : ∀ p, s.property dpID = some p → w.accepts p → w.same p → type → ¬ Pending d p) :
    NoLoss d (writeDatapoint s dpID w type) := by
  intro p' hp' hpending
  rw [writeDatapoint_properties] at hp'
  obtain ⟨p, hp, rfl⟩ := List.mem_map.mp hp'
  split at hpending
  next hid =>
    rw [if_pos hid]
    rcases w.write_cases type p with hleft | hflag | ⟨haccepts, hsame, htype, hvalue⟩
    · rw [hleft] at hpending ⊢
      exact h p hp hpending
    · exact hflag
    · have hprop := Store.property_eq_some.mpr ⟨hp, hid⟩
      exact absurd (hpending.of_value (w.write_definition type p) hvalue)
        (hrewrite p hprop haccepts hsame htype)
  next hid =>
    rw [if_neg hid]
    exact h p hp hpending

theorem NoLoss.write_other (h : NoLoss d s)
    (hq : q ∈ (writeDatapoint s dpID w type).properties)
    (hid : q.dpID ≠ dpID) (hpending : Pending d q) : q.change := by
  rw [writeDatapoint_properties] at hq
  obtain ⟨p, hp, rfl⟩ := List.mem_map.mp hq
  split at hid
  next heq => exact absurd ((w.write_dpID type p).trans heq) hid
  next hne =>
    rw [if_neg hne] at hpending ⊢
    exact h p hp hpending

theorem ids_writeDatapoint :
    (writeDatapoint s dpID w type).properties.map PropertyConf.dpID =
      s.properties.map PropertyConf.dpID := by
  rw [writeDatapoint_properties, List.map_map]
  refine List.map_congr_left fun p _ => ?_
  rw [Function.comp_apply]
  split
  · exact w.write_dpID type p
  · rfl

theorem Known.write (h : Known d s) : Known d (writeDatapoint s dpID w type) := by
  intro id v hd
  rw [ids_writeDatapoint]
  exact h id v hd

/-- A new datapoint has not been delivered. -/
theorem define_ok (hdefine : define s p = .ok s') (h : NoLoss d s) (hknown : Known d s) :
    NoLoss d s' ∧ Known d s' := by
  rw [define] at hdefine
  split at hdefine
  next =>
    cases hdefine
    exact ⟨h, hknown⟩
  next hfresh =>
    split at hdefine
    next =>
      cases hdefine
      constructor
      · intro q hq hpending
        rcases List.mem_append.mp hq with hq | hq
        · exact h q hq hpending
        · rw [List.mem_singleton.mp hq] at hpending
          obtain ⟨_, v, hd, _⟩ := hpending
          obtain ⟨r, hr, hid⟩ := List.mem_map.mp (hknown p.dpID v hd)
          exact absurd hid (KeyTable.indexOf_eq_none.mp hfresh r hr)
      · intro id v hd
        rw [List.map_append]
        exact List.mem_append_left _ (hknown id v hd)
    next => cases hdefine

theorem defineBinary_ok {fresh : PropertyConf} {permission : Permission} {value : Bytes}
    (hdefine : iotDataPointDefineBinary s fresh dpID permission value = .ok s') (h : NoLoss d s)
    (hknown : Known d s) : NoLoss d s' ∧ Known d s' := by
  obtain ⟨s'', hs, hdefine⟩ := bind_eq_ok.mp hdefine
  split at hdefine
  · cases hdefine
  · cases hdefine
    exact define_ok hs h hknown

/-- A change of other fields than the value and the flag. -/
theorem NoLoss.map {f : PropertyConf → PropertyConf} (h : NoLoss d s)
    (hs' : s'.properties = s.properties.map f)
    (hf : ∀ p, (f p).definition = p.definition ∧ (f p).value = p.value ∧
      (f p).change = p.change) : NoLoss d s' := by
  intro p' hp' hpending
  rw [hs'] at hp'
  obtain ⟨p, hp, rfl⟩ := List.mem_map.mp hp'
  obtain ⟨hdef, hvalue, hchange⟩ := hf p
  rw [hchange]
  exact h p hp (hpending.of_value hdef hvalue)

theorem Known.map {f : PropertyConf → PropertyConf} (h : Known d s)
    (hs' : s'.properties = s.properties.map f) (hf : ∀ p, (f p).dpID = p.dpID) : Known d s' := by
  intro id v hd
  rw [hs', List.map_map, show PropertyConf.dpID ∘ f = PropertyConf.dpID from funext hf]
  exact h id v hd

theorem readFlag_same (dpID : UInt16) (p : PropertyConf) :
    (if p.dpID = dpID then { p with readFlag := .old } else p).definition = p.definition ∧
      (if p.dpID = dpID then { p with readFlag := .old } else p).value = p.value ∧
      (if p.dpID = dpID then { p with readFlag := .old } else p).change = p.change := by
  by_cases h : p.dpID = dpID
  · rw [if_pos h]
    exact ⟨rfl, rfl, rfl⟩
  · rw [if_neg h]
    exact ⟨rfl, rfl, rfl⟩

theorem readBool_ok {value value' : Bool}
    {r : ReadResult} (hread : iotDataPointReadBool s dpID value = (r, value', s'))
    (h : NoLoss d s) (hknown : Known d s) : NoLoss d s' ∧ Known d s' := by
  have hs' : s'.properties =
      s.properties.map (fun p => if p.dpID = dpID then { p with readFlag := .old } else p) := by
    rw [← iotDataPointReadBool_properties, hread]
  exact ⟨h.map hs' (readFlag_same dpID),
    hknown.map hs' fun p => congrArg Definition.dpID (readFlag_same dpID p).1⟩

end Store

/-! ## Uploads -/

section Uploads

variable {d : Delivered} {s s' : Store} {p : PropertyConf} {result rc : Int}
  {uploads : List Upload} {upload : Upload}

variable [Platform]

@[simp] theorem Delivered.after_nil : d.after result [] = d := by
  rw [Delivered.after]
  split
  · rfl
  · rfl

theorem Delivered.after_of_ne (h : result ≠ 0) : d.after result uploads = d := if_neg h

theorem Delivered.after_singleton (h : result = 0) : d.after result [upload] = d.frame upload :=
  if_pos h

theorem Delivered.frame_of_mem (hdistinct : (upload.contents.map PropertyConf.dpID).Nodup)
    (hp : p ∈ upload.contents) : d.frame upload p.dpID = some p.carried := by
  rw [Delivered.frame, (KeyTable.entry_eq_some hdistinct).mpr ⟨hp, rfl⟩]

theorem Delivered.frame_of_not_mem {id : UInt16} (h : ∀ p ∈ upload.contents, p.dpID ≠ id) :
    d.frame upload id = d id := by
  rw [Delivered.frame, KeyTable.entry_eq_none.mpr h]

theorem Known.frame (h : Known d s)
    (hcontents : ∀ p ∈ upload.contents, p.dpID ∈ s.properties.map PropertyConf.dpID) :
    Known (d.frame upload) s := by
  intro id v hd
  rw [Delivered.frame] at hd
  split at hd
  next p hp =>
    obtain ⟨hmem, rfl⟩ := KeyTable.mem_of_entry hp
    exact hcontents p hmem
  next => exact h id v hd

theorem formFrame_contents {len : UInt16} {ps : List PropertyConf}
    (h : formFrame len ps = .ok upload) : upload.contents = ps := by
  rw [formFrame] at h
  split at h
  · cases h
    rfl
  · cases h

/-- An upload of all datapoints delivers every value that is pending, or there is
none. -/
theorem sendAll_ok (hsend : iotDataPointSendAll s result = .ok (rc, s', uploads))
    (hcond : Settles d result s) (hknown : Known d s) :
    NoLoss (d.after result uploads) s' ∧ Known (d.after result uploads) s' := by
  rw [iotDataPointSendAll] at hsend
  split at hsend
  next hempty =>
    cases hsend
    rw [Delivered.after_nil]
    refine ⟨fun p hp _ => ?_, hknown⟩
    rw [List.length_eq_zero_iff.mp hempty] at hp
    exact absurd hp List.not_mem_nil
  next =>
    obtain ⟨upload, hform, hsend⟩ := bind_eq_ok.mp hsend
    cases hsend
    have hcontents := formFrame_contents hform
    have hclear : Known d (clearPropertyChangeFlag s) := hknown.map rfl fun _ => rfl
    have hpending {d : Delivered} {p : PropertyConf}
        (h : Pending d { p with change := false }) : Pending d p := h.of_value rfl rfl
    by_cases hresult : result = 0
    · rw [Delivered.after_singleton hresult]
      constructor
      · intro p' hp' hpend
        obtain ⟨p, hp, rfl⟩ := List.mem_map.mp hp'
        obtain ⟨hup, v, hd, hv⟩ := hpending hpend
        have hmem : p ∈ upload.contents := by
          rw [hcontents]
          exact List.mem_filter.mpr ⟨hp, decide_eq_true ⟨hup, Or.inl rfl⟩⟩
        have hdistinct : (upload.contents.map PropertyConf.dpID).Nodup := by
          rw [hcontents]
          exact s.distinct.sublist (List.filter_sublist.map _)
        rw [Delivered.frame_of_mem hdistinct hmem] at hd
        have hfaithful := (hcond.resolve_right fun hrefused => hrefused.1 hresult).2 p hp hup
        exact absurd (hfaithful.symm.trans (Option.some.inj hd)) hv
      · refine hclear.frame fun p hp => ?_
        rw [hcontents] at hp
        rw [clearPropertyChangeFlag, Store.map, List.map_map]
        exact List.mem_map_of_mem (List.mem_filter.mp hp).1
    · rw [Delivered.after_of_ne hresult]
      refine ⟨fun p' hp' hpend => ?_, hclear⟩
      obtain ⟨p, hp, rfl⟩ := List.mem_map.mp hp'
      have hnone := (hcond.resolve_left fun haccepted => hresult haccepted.1).2
      exact absurd (hpending hpend) (hnone p hp)

/-- The callers clear the flags first. -/
theorem sendAll_cleared
    (hsend : iotDataPointSendAll (clearPropertyChangeFlag s) result = .ok (rc, s', uploads))
    (hcond : Settles d result s) (hknown : Known d s) :
    NoLoss (d.after result uploads) s' ∧ Known (d.after result uploads) s' := by
  refine sendAll_ok hsend ?_ (hknown.map rfl fun _ => rfl)
  refine hcond.imp (And.imp_right fun hall p' hp' hup => ?_)
    (And.imp_right fun hnone p' hp' hpending => ?_)
  · obtain ⟨p, hp, rfl⟩ := List.mem_map.mp hp'
    exact hall p hp hup
  · obtain ⟨p, hp, rfl⟩ := List.mem_map.mp hp'
    exact hnone p hp (hpending.of_value rfl rfl)

/-- An upload of one datapoint delivers it and leaves the others. -/
theorem sendSingle_ok (hsend : intoyunSendSingleDatapoint p result = .ok (rc, uploads))
    (hp : s.property p.dpID = some p)
    (hother : ∀ q ∈ s.properties, q.dpID ≠ p.dpID → Pending d q → q.change)
    (hself : result ≠ 0 → Pending d p → p.change)
    (hcarry : result = 0 → p.Uploadable → p.Faithful ∨ p.change) (hknown : Known d s) :
    NoLoss (d.after result uploads) s ∧ Known (d.after result uploads) s := by
  obtain ⟨upload, hform, hsend⟩ := bind_eq_ok.mp hsend
  cases hsend
  have hcontents := formFrame_contents hform
  obtain ⟨hmem, _⟩ := Store.property_eq_some.mp hp
  by_cases hresult : result = 0
  · rw [Delivered.after_singleton hresult]
    constructor
    · rintro q hq ⟨hup, v, hd, hv⟩
      by_cases hid : q.dpID = p.dpID
      · obtain rfl := List.inj_on_of_nodup_map s.distinct hq hmem hid
        have hdistinct : (upload.contents.map PropertyConf.dpID).Nodup := by
          rw [hcontents]
          exact List.nodup_singleton _
        rw [Delivered.frame_of_mem hdistinct (hcontents ▸ List.mem_singleton_self q)] at hd
        refine (hcarry hresult hup).resolve_left fun hfaithful => hv ?_
        exact hfaithful.symm.trans (Option.some.inj hd)
      · rw [Delivered.frame_of_not_mem] at hd
        · exact hother q hq hid ⟨hup, v, hd, hv⟩
        · intro r hr
          rw [hcontents, List.mem_singleton] at hr
          rw [hr]
          exact fun h => hid h.symm
    · refine hknown.frame fun q hq => ?_
      rw [hcontents, List.mem_singleton] at hq
      rw [hq]
      exact List.mem_map_of_mem hmem
  · rw [Delivered.after_of_ne hresult]
    refine ⟨fun q hq hpending => ?_, hknown⟩
    by_cases hid : q.dpID = p.dpID
    · obtain rfl := List.inj_on_of_nodup_map s.distinct hq hmem hid
      exact hself hresult hpending
    · exact hother q hq hid hpending

end Uploads

/-! ## Steps -/

section Steps

variable [Platform] {st st' : State} {call : Call} {result : Int}

/-- `NoLoss`, and what it takes to keep it. -/
structure State.Inv (st : State) : Prop where
  noLoss : NoLoss st.delivered st.store
  known : Known st.delivered st.store

theorem parse_ok {s : Store} {c : Control} {d : Delivered} {payload : Option Bytes} {r : Received}
    (hparse : iotDataPointParseReceiveDatapoints s payload result = .ok r) (h : NoLoss d s)
    (hknown : Known d s)
    (hcond : ∀ s', UploadsAll s c (.parse payload) s' → Settles d result s') :
    NoLoss (d.after result r.uploads) r.store ∧ Known (d.after result r.uploads) r.store := by
  obtain ⟨parsed, hparsed, hend⟩ := bind_eq_ok.mp hparse
  cases parsed with
  | none =>
      cases hend
      rw [Delivered.after_nil]
      exact ⟨h, hknown⟩
  | some parsed =>
      obtain ⟨s₁, applied⟩ := parsed
      have h₁ : NoLoss d s₁ ∧ Known d s₁ := by
        obtain ⟨body, _, hloop⟩ := bind_eq_ok.mp hparsed
        cases body with
        | none => cases hloop
        | some body =>
            obtain ⟨⟨s', applied'⟩, hloop, heq⟩ := bind_eq_ok.mp hloop
            cases heq
            exact parseLoop_invariant (fun s => NoLoss d s ∧ Known d s)
              (fun s dpID w hs => ⟨hs.1.write fun _ _ _ _ => nofun, hs.2.write⟩) hloop ⟨h, hknown⟩
      obtain ⟨reset, v, s₂, hreset, hend⟩ := parseEnd_cases hend
      obtain ⟨h₂, hknown₂⟩ := readBool_ok hreset h₁.1 h₁.2
      obtain ⟨_, rfl⟩ | ⟨hnew, getAll, v', s₃, hgetAll, hend⟩ := hend
      · rw [Delivered.after_nil]
        exact ⟨h₂, hknown₂⟩
      · obtain ⟨h₃, hknown₃⟩ := readBool_ok hgetAll h₂ hknown₂
        obtain ⟨rfl, rc, hsend⟩ | ⟨_, rfl⟩ := hend
        · exact sendAll_ok hsend
            (hcond s₃ ⟨s₁, applied, reset, v, s₂, v', hparsed, hreset, hnew, hgetAll⟩) hknown₃
        · rw [Delivered.after_nil]
          exact ⟨h₃, hknown₃⟩

/-- What a send does: there is no such datapoint, or the write is left to the automatic
upload, or the datapoint is uploaded if it may be. -/
theorem sendDatapoint_cases {s : Store} {c : Control} {dpID : UInt16} {w : Setter} {r : Sent}
    (h : sendDatapoint s c dpID (writeDatapoint s dpID w true) result = .ok r) :
    s.property dpID = none ∧ r = ⟨-1, s, []⟩ ∨
      c.transmitMode = .automatic ∧ r = ⟨-1, writeDatapoint s dpID w true, []⟩ ∨
      c.transmitMode = .manual ∧ ∃ p, (writeDatapoint s dpID w true).property dpID = some p ∧
        (p.permission = .downOnly ∧ r = ⟨-1, writeDatapoint s dpID w true, []⟩ ∨
          p.permission ≠ .downOnly ∧ r.store = writeDatapoint s dpID w true ∧
            intoyunSendSingleDatapoint p result = .ok (r.rc, r.uploads)) := by
  rw [sendDatapoint] at h
  split at h
  next hindex =>
    cases h
    exact Or.inl ⟨KeyTable.entry_eq_none.mpr (KeyTable.indexOf_eq_none.mp hindex), rfl⟩
  next index hindex =>
    split at h
    next hauto =>
      cases h
      exact Or.inr (Or.inl ⟨hauto, rfl⟩)
    next hmode =>
      split at h
      next => cases h
      next p hp =>
        have hprop : (writeDatapoint s dpID w true).property dpID = some p := by
          rw [property_writeDatapoint, ← hp, writeDatapoint_properties, List.getElem?_map,
            KeyTable.getElem?_indexOf hindex]
          rfl
        have hmanual : c.transmitMode = .manual := by
          cases hc : c.transmitMode with
          | manual => rfl
          | automatic => exact absurd hc hmode
        refine Or.inr (Or.inr ⟨hmanual, p, hprop, ?_⟩)
        split at h
        next hdown =>
          cases h
          exact Or.inl ⟨hdown, rfl⟩
        next hdown =>
          obtain ⟨⟨rc, uploads⟩, hsingle, h⟩ := bind_eq_ok.mp h
          cases h
          exact Or.inr ⟨hdown, rfl, hsingle⟩

theorem send_ok {s : Store} {c : Control} {d : Delivered} {dpID : UInt16} {w : Setter} {r : Sent}
    (hsend : sendDatapoint s c dpID (writeDatapoint s dpID w true) result = .ok r)
    (h : NoLoss d s) (hknown : Known d s)
    (hrewrite : ∀ p, s.property dpID = some p → w.accepts p → w.same p →
      ¬ Pending d p ∨ c.transmitMode = .manual ∧ result = 0)
    (hcarry : ∀ p, s.property dpID = some p → c.transmitMode = .manual → result = 0 →
      ¬ w.Changes p → p.Uploadable → p.Faithful) :
    NoLoss (d.after result r.uploads) r.store ∧ Known (d.after result r.uploads) r.store := by
  obtain ⟨_, rfl⟩ | ⟨hauto, rfl⟩ | ⟨hmanual, p, hprop, hsend⟩ := sendDatapoint_cases hsend
  · rw [Delivered.after_nil]
    exact ⟨h, hknown⟩
  · rw [Delivered.after_nil]
    refine ⟨h.write fun p hp haccepts hsame _ => ?_, hknown.write⟩
    refine (hrewrite p hp haccepts hsame).resolve_right fun hmanual => ?_
    exact absurd (hauto.symm.trans hmanual.1) nofun
  · obtain ⟨hmem, hid⟩ := Store.property_eq_some.mp hprop
    obtain ⟨hdown, rfl⟩ | ⟨_, hstore, hsingle⟩ := hsend
    · rw [Delivered.after_nil]
      refine ⟨h.write fun q hq _ _ _ hpending => ?_, hknown.write⟩
      rw [property_writeDatapoint_self, hq] at hprop
      have hperm := congrArg Definition.permission (w.write_definition true q)
      rw [Option.some.inj hprop] at hperm
      exact hpending.1.1 (hperm.symm.trans hdown)
    · rw [hstore]
      refine sendSingle_ok hsingle (hid.symm ▸ hprop) (fun q hq hne => ?_) (fun hresult => ?_)
        (fun hresult hup => ?_) hknown.write
      · exact h.write_other hq fun heq => hne (heq.trans hid.symm)
      · refine h.write (fun q hq haccepts hsame _ => ?_) p hmem
        exact (hrewrite q hq haccepts hsame).resolve_right fun hmanual => hresult hmanual.2
      · rw [property_writeDatapoint_self] at hprop
        obtain ⟨q, hq, rfl⟩ := Option.map_eq_some_iff.mp hprop
        by_cases hchanges : w.Changes q
        · exact Or.inr hchanges.change
        · refine Or.inl ?_
          have hfaithful := hcarry q hq hmanual hresult hchanges
          obtain ⟨change, readFlag, heq⟩ : ∃ change readFlag,
              w.write true q = { q with change, readFlag } := Setter.write_of_not_changes hchanges
          rw [heq] at hup ⊢
          exact hfaithful hup

theorem manual_ok {s : Store} {c : Control} {d : Delivered} {r : Sent}
    (hsend : iotDataPointSendAllDatapointManual s c result = .ok r) (h : NoLoss d s)
    (hknown : Known d s)
    (hcond : ∀ s', UploadsAll s c .manual s' → Settles d result s') :
    NoLoss (d.after result r.uploads) r.store ∧ Known (d.after result r.uploads) r.store := by
  obtain rfl | ⟨_, hmode, hall⟩ := manual_cases hsend
  · rw [Delivered.after_nil]
    exact ⟨h, hknown⟩
  · exact sendAll_cleared hall (hcond s ⟨hmode, rfl⟩) hknown

theorem automatic_ok {s : Store} {c c' : Control} {d : Delivered} {now now' : Nat} {r : Sent}
    (hsend : iotDataPointSendDatapointAutomatic s c now now' result = .ok (r, c'))
    (h : NoLoss d s) (hknown : Known d s)
    (hcond : ∀ s', UploadsAll s c (.automatic now now') s' → Settles d result s') :
    NoLoss (d.after result r.uploads) r.store ∧ Known (d.after result r.uploads) r.store := by
  obtain ⟨rfl, _⟩ | ⟨_, hmode, hdue, hall, _⟩ := automatic_cases hsend
  · rw [Delivered.after_nil]
    exact ⟨h, hknown⟩
  · exact sendAll_cleared hall (hcond s ⟨hmode, hdue, rfl⟩) hknown

/-- A call that meets the condition keeps the invariant. -/
theorem exec_ok {s s' : Store} {c c' : Control} {d : Delivered} {uploads : List Upload}
    (hexec : exec s c result call = .ok (s', c', uploads)) (h : NoLoss d s) (hknown : Known d s)
    (hkeeps : Keeps ⟨s, c, d⟩ (call, result)) :
    NoLoss (d.after result uploads) s' ∧ Known (d.after result uploads) s' := by
  cases call with
  | defineBool | defineNumber | defineEnum | defineString =>
      obtain ⟨s', hdefine, hexec⟩ := bind_eq_ok.mp hexec
      cases hexec
      rw [Delivered.after_nil]
      exact define_ok hdefine h hknown
  | defineBinary =>
      obtain ⟨s', hdefine, hexec⟩ := bind_eq_ok.mp hexec
      cases hexec
      rw [Delivered.after_nil]
      exact defineBinary_ok hdefine h hknown
  | write dpID value =>
      cases hexec
      rw [Delivered.after_nil, iotDataPointWrite_eq]
      refine ⟨h.write fun p hp haccepts hsame _ => ?_, hknown.write⟩
      refine (hkeeps.rewrite p ⟨hp, haccepts, hsame⟩).resolve_right ?_
      rintro ⟨⟨_, _, hcall⟩, _⟩
      cases hcall
  | send dpID value =>
      obtain ⟨r, hsend, hexec⟩ := bind_eq_ok.mp hexec
      cases hexec
      rw [iotDataPointSend_eq] at hsend
      refine send_ok hsend h hknown (fun p hp haccepts hsame => ?_)
        fun p hp hmode hresult hchanges hup => ?_
      · exact (hkeeps.rewrite p ⟨hp, haccepts, hsame⟩).imp_right And.right
      · exact hkeeps.carry p ⟨dpID, value, rfl, hresult, hmode, hp, hchanges⟩ hup
  | parse payload =>
      obtain ⟨r, hparse, hexec⟩ := bind_eq_ok.mp hexec
      cases hexec
      exact parse_ok hparse h hknown hkeeps.upload
  | automatic now now' =>
      obtain ⟨⟨r, c'⟩, hsend, hexec⟩ := bind_eq_ok.mp hexec
      cases hexec
      exact automatic_ok hsend h hknown hkeeps.upload
  | manual =>
      obtain ⟨r, hsend, hexec⟩ := bind_eq_ok.mp hexec
      cases hexec
      exact manual_ok hsend h hknown hkeeps.upload
  | control mode lapse =>
      cases hexec
      rw [Delivered.after_nil]
      exact ⟨h, hknown⟩

theorem step_inv {a : Call × Int} (hinv : st.Inv) (hkeeps : Keeps st a)
    (h : step st a = .ok st') : st'.Inv := by
  obtain ⟨⟨store, control, uploads⟩, hexec, h⟩ := bind_eq_ok.mp h
  cases h
  obtain ⟨hnoLoss, hknown⟩ := exec_ok hexec hinv.noLoss hinv.known hkeeps
  exact ⟨hnoLoss, hknown⟩

/-- Where every step of a run meets the condition, no change is lost in any state on
the way. -/
theorem run_noLoss {calls rest : List (Call × Int)}
    (hkeeps : Guarded step Keeps State.initial (calls ++ rest))
    (hrun : run step State.initial calls = .ok st) : NoLoss st.delivered st.store := by
  have hinitial : State.initial.Inv :=
    ⟨fun p hp _ => absurd hp List.not_mem_nil, fun _ _ hd => (nomatch hd)⟩
  exact (run_invariant step_inv hinitial hkeeps.append_left hrun).noLoss

end Steps

/-! ## A value written twice -/

/-- Cleared memory. -/
def zeroProperty : PropertyConf where
  dpID := 0
  dataType := .bool
  permission := .upOnly
  change := false
  readFlag := .old
  minValue := 0
  maxValue := 0
  resolution := 0
  boolValue := false
  numberIntValue := 0
  numberDoubleValue := 0
  enumValue := 0
  stringValue := []
  binaryValue := []

/-- The datapoint 1 is true at the cloud. -/
def deliverTrue : List (Call × Int) :=
  [(.control .manual 0, 0), (.defineBool zeroProperty 1 .upDown false, 0),
    (.send 1 (.bool true), 0)]

theorem deliverTrue_keeps : Guarded (@step zeroPlatform) (@Keeps zeroPlatform) State.initial
    (deliverTrue ++ []) := by
  let P := zeroPlatform
  refine ⟨⟨fun _ h => h.elim, fun _ h => absurd h (not_sendsAgain nofun), fun _ h => h.elim⟩,
    fun st₁ h₁ => ?_⟩
  refine ⟨⟨fun _ h => h.elim, fun _ h => absurd h (not_sendsAgain nofun), fun _ h => h.elim⟩,
    fun st₂ h₂ => ?_⟩
  cases h₁
  obtain ⟨_, hexec, h₂⟩ := bind_eq_ok.mp h₂
  obtain ⟨_, hdefine, hexec⟩ := bind_eq_ok.mp hexec
  cases hexec
  cases h₂
  cases hdefine
  refine ⟨⟨fun _ _ => Or.inr ⟨⟨_, _, rfl⟩, rfl, rfl⟩, ?_, fun _ h => h.elim⟩,
    fun _ _ => trivial⟩
  rintro p ⟨dpID, value, hcall, _, _, hp, _⟩ _
  obtain ⟨rfl, rfl⟩ := Call.send.inj hcall
  obtain rfl := Option.some.inj hp
  rfl

theorem run_noLoss_deliverTrue : ∃ st, run (@step zeroPlatform) State.initial deliverTrue =
    .ok st ∧ NoLoss st.delivered st.store := by
  obtain ⟨st, hrun⟩ : ∃ st, run (@step zeroPlatform) State.initial deliverTrue = .ok st :=
    ⟨_, rfl⟩
  exact ⟨st, hrun, @run_noLoss zeroPlatform _ _ _ deliverTrue_keeps hrun⟩

/-- Written false twice, the datapoint differs from the cloud and is not flagged. -/
theorem not_noLoss_twice : ¬ ∀ (P : Platform) (calls : List (Call × Int)) (st : State),
    run (@step P) State.initial calls = .ok st → NoLoss st.delivered st.store := by
  intro h
  obtain ⟨st, hrun, hstore, hdelivered⟩ : ∃ st, run (@step zeroPlatform) State.initial
      (deliverTrue ++ [(.write 1 (.bool false), 0), (.write 1 (.bool false), 0)]) = .ok st ∧
      st.store.properties = [{ zeroProperty with dpID := 1, permission := .upDown }] ∧
      st.delivered 1 = some (.bool true) := ⟨_, rfl, rfl, rfl⟩
  have hflag := h zeroPlatform _ st hrun _ (hstore ▸ List.mem_singleton_self _)
    ⟨by decide, .bool true, hdelivered, by decide⟩
  cases hflag

end IotKit.Datapoint
