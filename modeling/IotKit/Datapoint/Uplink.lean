import IotKit.Datapoint.Delivery

/-!
# What goes up

Runs of the calls of `Delivery` that note every frame handed to `IOT_Comm_SendData`.
The definitions of the datapoints only grow, and a frame is built from datapoints
that may go up, so a datapoint for the cloud to write only is in none of them.
-/

namespace IotKit.Datapoint

open CMemory Runs

/-- The store, the control block and the frames handed over so far. -/
structure Uplink where
  store : Store
  control : Control
  sent : List Upload

def Uplink.initial : Uplink := ⟨Store.empty, Control.initial, []⟩

/-- One call and the result of `IOT_Comm_SendData`. -/
def Uplink.step [Platform] (st : Uplink) (a : Call × Int) : Checked Uplink := do
  let (store, control, uploads) ← exec st.store st.control a.2 a.1
  .ok ⟨store, control, st.sent ++ uploads⟩

/-- The frame has the records of its datapoints and of nothing else, and none of them
is for the cloud to write only. -/
structure Upload.Permitted (u : Upload) [Platform] (s : Store) : Prop where
  frame : u.frame = 0x31 :: u.contents.flatMap intoyunFormDataPointBinary
  permitted : ∀ p ∈ u.contents, p.permission ≠ .downOnly
  defined : ∀ p ∈ u.contents, ∀ q ∈ s.properties, q.permission = .downOnly → q.dpID ≠ p.dpID

/-! ## Definitions -/

/-- The definitions, which a call adds to and does not change. -/
def Store.definitions (s : Store) : List Definition := s.properties.map PropertyConf.definition

section Definitions

variable {s s' : Store} {dpID : UInt16}

theorem mem_definitions {p : PropertyConf} (h : p ∈ s.properties) :
    p.definition ∈ s.definitions := List.mem_map_of_mem h

/-- A change of values keeps the definitions. -/
theorem definitions_of_map {f : PropertyConf → PropertyConf}
    (hs' : s'.properties = s.properties.map f) (hf : ∀ p, (f p).definition = p.definition) :
    s'.definitions = s.definitions := by
  rw [Store.definitions, hs', List.map_map]
  exact List.map_congr_left fun p _ => hf p

@[simp] theorem definitions_writeDatapoint {w : Setter} {type : Bool} :
    (writeDatapoint s dpID w type).definitions = s.definitions := by
  refine definitions_of_map writeDatapoint_properties fun p => ?_
  split
  · exact w.write_definition type p
  · rfl

@[simp] theorem definitions_clearPropertyChangeFlag :
    (clearPropertyChangeFlag s).definitions = s.definitions := definitions_of_map rfl fun _ => rfl

@[simp] theorem definitions_iotDataPointReadBool {value : Bool} :
    (iotDataPointReadBool s dpID value).2.2.definitions = s.definitions :=
  definitions_of_map iotDataPointReadBool_properties fun p => (readFlag_same dpID p).1

/-- A definition comes last. -/
theorem define_definitions {p : PropertyConf} (h : define s p = .ok s') :
    s.definitions <+: s'.definitions := by
  rw [define] at h
  split at h
  next =>
    cases h
    exact List.prefix_rfl
  next =>
    split at h
    next =>
      cases h
      rw [Store.definitions, Store.definitions, List.map_append]
      exact List.prefix_append ..
    next => cases h

variable [Platform]

/-- A payload defines nothing. -/
theorem parseDatapoints_definitions {payload : Option Bytes} {applied : List Applied}
    (h : parseDatapoints s payload = .ok (some (s', applied))) :
    s'.definitions = s.definitions := by
  obtain ⟨body, _, h⟩ := bind_eq_ok.mp h
  cases body with
  | none => cases h
  | some body =>
      obtain ⟨⟨t, applied'⟩, hloop, h⟩ := bind_eq_ok.mp h
      cases h
      exact parseLoop_invariant (fun t => t.definitions = s.definitions)
        (fun t dpID w ht => definitions_writeDatapoint.trans ht) hloop rfl

end Definitions

/-! ## Frames -/

/-- A frame of datapoints with these definitions that may go up. -/
structure Upload.Formed (u : Upload) [Platform] (s : Store) : Prop where
  frame : u.frame = 0x31 :: u.contents.flatMap intoyunFormDataPointBinary
  permitted : ∀ p ∈ u.contents, p.permission ≠ .downOnly
  known : ∀ p ∈ u.contents, p.definition ∈ s.definitions

section Frames

variable [Platform] {s s' : Store} {c c' : Control} {result rc : Int} {uploads : List Upload}
  {u : Upload}

/-- A frame of some definitions is one of more. -/
theorem Upload.Formed.mono (h : u.Formed s) (hs : s.definitions <+: s'.definitions) :
    u.Formed s' := ⟨h.frame, h.permitted, fun p hp => hs.subset (h.known p hp)⟩

/-- Ids are distinct, so no other datapoint has the id of one that went up. -/
theorem Upload.Formed.toPermitted (h : u.Formed s) : u.Permitted s := by
  refine ⟨h.frame, h.permitted, fun p hp q hq hdown hid => ?_⟩
  obtain ⟨p', hp', hdef⟩ := List.mem_map.mp (h.known p hp)
  have hid' : p'.dpID = p.dpID := congrArg Definition.dpID hdef
  have hperm : p'.permission = p.permission := congrArg Definition.permission hdef
  obtain rfl := List.inj_on_of_nodup_map s.distinct hq hp' (hid.trans hid'.symm)
  exact h.permitted p hp (hperm.symm.trans hdown)

/-- A frame of datapoints of the store that may go up. -/
theorem formFrame_formed {len : UInt16} {ps : List PropertyConf} (h : formFrame len ps = .ok u)
    (hperm : ∀ p ∈ ps, p.permission ≠ .downOnly) (hps : ∀ p ∈ ps, p ∈ s.properties) :
    u.Formed s := by
  rw [formFrame] at h
  split at h
  · cases h
    exact ⟨rfl, hperm, fun p hp => mem_definitions (hps p hp)⟩
  · cases h

/-- What a call does to the definitions and what its frames are made of. -/
structure Sends (s s' : Store) (uploads : List Upload) : Prop where
  grows : s.definitions <+: s'.definitions
  formed : ∀ u ∈ uploads, u.Formed s'

/-- A call that sends nothing. -/
theorem Sends.nothing (h : s'.definitions = s.definitions) : Sends s s' [] where
  grows := h ▸ List.prefix_rfl
  formed := nofun

theorem Sends.of_eq {t : Store} (h : Sends t s' uploads) (ht : t.definitions = s.definitions) :
    Sends s s' uploads := ⟨ht ▸ h.grows, h.formed⟩

/-- An upload of all datapoints. -/
theorem sendAll_sends (h : iotDataPointSendAll s result = .ok (rc, s', uploads)) :
    Sends s s' uploads := by
  rw [iotDataPointSendAll] at h
  split at h
  next =>
    cases h
    exact .nothing rfl
  next =>
    obtain ⟨u, hform, h⟩ := bind_eq_ok.mp h
    cases h
    have hu : u.Formed s := by
      refine formFrame_formed hform (fun p hp => ?_) fun p hp => (List.mem_filter.mp hp).1
      exact (of_decide_eq_true (List.mem_filter.mp hp).2).1.1
    refine ⟨definitions_clearPropertyChangeFlag ▸ List.prefix_rfl, fun v hv => ?_⟩
    rw [List.mem_singleton.mp hv]
    exact hu.mono (definitions_clearPropertyChangeFlag ▸ List.prefix_rfl)

/-- A `Send` uploads the one datapoint, or nothing. -/
theorem sendDatapoint_sends {dpID : UInt16} {w : Setter} {r : Sent}
    (h : sendDatapoint s c dpID (writeDatapoint s dpID w true) result = .ok r) :
    Sends s r.store r.uploads := by
  obtain ⟨_, rfl⟩ | ⟨_, rfl⟩ | ⟨_, p, hp, h⟩ := sendDatapoint_cases h
  · exact .nothing rfl
  · exact .nothing definitions_writeDatapoint
  · obtain ⟨_, rfl⟩ | ⟨hperm, hstore, hsingle⟩ := h
    · exact .nothing definitions_writeDatapoint
    · obtain ⟨u, hform, hsingle⟩ := bind_eq_ok.mp hsingle
      have huploads : [u] = r.uploads := congrArg Prod.snd (Except.ok.inj hsingle)
      rw [hstore, ← huploads]
      refine ⟨definitions_writeDatapoint ▸ List.prefix_rfl, fun v hv => ?_⟩
      rw [List.mem_singleton.mp hv]
      refine formFrame_formed hform (fun q hq => ?_) fun q hq => ?_
      · rw [List.mem_singleton.mp hq]
        exact hperm
      · rw [List.mem_singleton.mp hq]
        exact (Store.property_eq_some.mp hp).1

/-- The get-all request is the one frame that leaves the parser. -/
theorem parse_sends {payload : Option Bytes} {r : Received}
    (h : iotDataPointParseReceiveDatapoints s payload result = .ok r) :
    Sends s r.store r.uploads := by
  obtain ⟨parsed, hparsed, h⟩ := bind_eq_ok.mp h
  cases parsed with
  | none =>
      cases h
      exact .nothing rfl
  | some parsed =>
      obtain ⟨s₁, applied⟩ := parsed
      have h₁ : s₁.definitions = s.definitions := parseDatapoints_definitions hparsed
      obtain ⟨reset, v, s₂, hreset, hend⟩ := parseEnd_cases h
      have h₂ := @definitions_iotDataPointReadBool s₁ dpidDefaultBoolReset false
      rw [hreset, h₁] at h₂
      obtain ⟨_, rfl⟩ | ⟨_, getAll, v', s₃, hgetAll, hend⟩ := hend
      · exact .nothing h₂
      · have h₃ := @definitions_iotDataPointReadBool s₂ dpidDefaultBoolGetalldatapoint false
        rw [hgetAll, h₂] at h₃
        obtain ⟨_, rc, hsend⟩ | ⟨_, rfl⟩ := hend
        · exact (sendAll_sends hsend).of_eq h₃
        · exact .nothing h₃

theorem manual_sends {r : Sent} (h : iotDataPointSendAllDatapointManual s c result = .ok r) :
    Sends s r.store r.uploads := by
  obtain rfl | ⟨_, _, hall⟩ := manual_cases h
  · exact .nothing rfl
  · exact (sendAll_sends hall).of_eq definitions_clearPropertyChangeFlag

/-- An upload that the yield makes. -/
theorem automatic_sends {now now' : Nat} {r : Sent}
    (h : iotDataPointSendDatapointAutomatic s c now now' result = .ok (r, c')) :
    Sends s r.store r.uploads := by
  obtain ⟨rfl, _⟩ | ⟨_, _, _, hall, _⟩ := automatic_cases h
  · exact .nothing rfl
  · exact (sendAll_sends hall).of_eq definitions_clearPropertyChangeFlag

/-- Every call sends frames of its store. -/
theorem exec_sends {call : Call} (h : exec s c result call = .ok (s', c', uploads)) :
    Sends s s' uploads := by
  cases call with
  | defineBool | defineNumber | defineEnum | defineString =>
      obtain ⟨t, hdefine, h⟩ := bind_eq_ok.mp h
      cases h
      exact ⟨define_definitions hdefine, nofun⟩
  | defineBinary =>
      obtain ⟨t, hdefine, h⟩ := bind_eq_ok.mp h
      cases h
      obtain ⟨t', hdefine, hlen⟩ := bind_eq_ok.mp hdefine
      split at hlen
      · cases hlen
      · cases hlen
        exact ⟨define_definitions hdefine, nofun⟩
  | write dpID value =>
      cases h
      rw [iotDataPointWrite_eq]
      exact .nothing definitions_writeDatapoint
  | send dpID value =>
      obtain ⟨r, hsend, h⟩ := bind_eq_ok.mp h
      cases h
      rw [iotDataPointSend_eq] at hsend
      exact sendDatapoint_sends hsend
  | parse payload =>
      obtain ⟨r, hparse, h⟩ := bind_eq_ok.mp h
      cases h
      exact parse_sends hparse
  | automatic now now' =>
      obtain ⟨⟨r, c'⟩, hsend, h⟩ := bind_eq_ok.mp h
      cases h
      exact automatic_sends hsend
  | manual =>
      obtain ⟨r, hsend, h⟩ := bind_eq_ok.mp h
      cases h
      exact manual_sends hsend
  | control mode lapse =>
      cases h
      exact .nothing rfl

end Frames

/-! ## Runs -/

section Runs

variable [Platform] {st st' : Uplink}

/-- Every frame so far was built from datapoints that may go up. -/
def Uplink.Inv (st : Uplink) : Prop := ∀ u ∈ st.sent, u.Formed st.store

/-- A call keeps the invariant. -/
theorem Uplink.step_inv {a : Call × Int} (hinv : st.Inv) (h : st.step a = .ok st') : st'.Inv := by
  obtain ⟨⟨store, control, uploads⟩, hexec, h⟩ := bind_eq_ok.mp h
  cases h
  obtain ⟨hgrows, hformed⟩ := exec_sends hexec
  intro u hu
  rcases List.mem_append.mp hu with hu | hu
  · exact (hinv u hu).mono hgrows
  · exact hformed u hu

/-- No frame of any run has a record of a datapoint for the cloud to write only. -/
theorem Uplink.run_permitted {calls : List (Call × Int)}
    (hrun : run Uplink.step Uplink.initial calls = .ok st) :
    ∀ u ∈ st.sent, u.Permitted st.store := by
  have hinv : st.Inv :=
    run_invariant (fun hinv _ h => Uplink.step_inv hinv h)
      (fun _ hu => absurd hu List.not_mem_nil) guarded_true hrun
  exact fun u hu => (hinv u hu).toPermitted

end Runs

/-- A get-all request with a datapoint of each permission. -/
def getAllCalls : List (Call × Int) :=
  [(.defineBool zeroProperty 1 .upOnly true, 0), (.defineBool zeroProperty 2 .downOnly true, 0),
    (.defineBool zeroProperty dpidDefaultBoolGetalldatapoint .upDown false, 0),
    (.parse (some [0x31, 0xff, 0x81, 0, 1, 1]), 0)]

theorem Uplink.run_permitted_getAllCalls :
    ∃ st, run (@Uplink.step zeroPlatform) Uplink.initial getAllCalls = .ok st ∧
      st.sent.map Upload.frame = [[0x31, 1, 0, 1, 1]] ∧
      ∀ u ∈ st.sent, @Upload.Permitted u zeroPlatform st.store := by
  obtain ⟨st, hrun, hsent⟩ : ∃ st,
      run (@Uplink.step zeroPlatform) Uplink.initial getAllCalls = .ok st ∧
      st.sent.map Upload.frame = [[0x31, 1, 0, 1, 1]] := ⟨_, rfl, by decide⟩
  exact ⟨st, hrun, hsent, @Uplink.run_permitted zeroPlatform _ _ hrun⟩

end IotKit.Datapoint
