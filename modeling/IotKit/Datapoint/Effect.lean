import IotKit.Datapoint.Define
import IotKit.Datapoint.Delivery
import IotKit.Datapoint.Records

/-!
# What a call does to the store

A call defines a datapoint, writes one, writes the datapoints of a frame, or changes
flags (`exec_effect`).  Every write is that of some value (`Chunk.setter_eq`), so what
the six write functions preserve is preserved by every call.
-/

namespace IotKit.Datapoint

open CMemory

/-! ## Flags -/

/-- The same datapoints with other flags. -/
def Reflagged (s s' : Store) : Prop :=
  ∃ f : PropertyConf → PropertyConf, s'.properties = s.properties.map f ∧
    ∀ p, ∃ change readFlag, f p = { p with change, readFlag }

section Reflagged

variable {s s' t : Store}

theorem Reflagged.refl (s : Store) : Reflagged s s :=
  ⟨id, (List.map_id _).symm, fun p => ⟨p.change, p.readFlag, rfl⟩⟩

theorem Reflagged.trans (h : Reflagged s t) (h' : Reflagged t s') : Reflagged s s' := by
  obtain ⟨f, hf, hflags⟩ := h
  obtain ⟨g, hg, hflags'⟩ := h'
  refine ⟨g ∘ f, by rw [hg, hf, List.map_map], fun p => ?_⟩
  obtain ⟨change, readFlag, hp⟩ := hflags p
  obtain ⟨change', readFlag', hp'⟩ := hflags' (f p)
  exact ⟨change', readFlag', by rw [Function.comp_apply, hp', hp]⟩

theorem reflagged_read (s : Store) (dpID : UInt16) (value : Bool) :
    Reflagged s (iotDataPointReadBool s dpID value).2.2 := by
  refine ⟨_, iotDataPointReadBool_properties, fun p => ?_⟩
  split
  · exact ⟨p.change, .old, rfl⟩
  · exact ⟨p.change, p.readFlag, rfl⟩

theorem reflagged_clear (s : Store) : Reflagged s (clearPropertyChangeFlag s) :=
  ⟨_, rfl, fun p => ⟨false, p.readFlag, rfl⟩⟩

variable [Platform] {result : Int}

theorem reflagged_sendAll {rc : Int} {uploads : List Upload}
    (h : iotDataPointSendAll s result = .ok (rc, s', uploads)) : Reflagged s s' := by
  rw [sendAll_store h]
  exact reflagged_clear s

theorem reflagged_parseEnd {r : Received} (h : parseEnd s result = .ok r) :
    Reflagged s r.store := by
  obtain ⟨reset, v, s₁, hreset, hend⟩ := parseEnd_cases h
  have h₁ : Reflagged s s₁ := by
    have hread := reflagged_read s dpidDefaultBoolReset false
    rwa [hreset] at hread
  obtain ⟨_, rfl⟩ | ⟨_, getAll, v', s₂, hgetAll, hend⟩ := hend
  · exact h₁
  · have h₂ : Reflagged s₁ s₂ := by
      have hread := reflagged_read s₁ dpidDefaultBoolGetalldatapoint false
      rwa [hgetAll] at hread
    obtain ⟨_, rc, hsend⟩ | ⟨_, rfl⟩ := hend
    · exact (h₁.trans h₂).trans (reflagged_sendAll hsend)
    · exact h₁.trans h₂

end Reflagged

/-! ## Writes of the cloud -/

/-- A record writes some value. -/
theorem Chunk.setter_eq [Platform] {D : Definitions} {dpID : UInt16} {type : Option DataType}
    {data : Bytes} {r : Record} {w : Setter} (h : Chunk D dpID type data r)
    (hw : r.setter = some w) : ∃ value : Value, w = value.setter := by
  cases h with
  | @bool len value =>
      cases hw
      exact ⟨.bool (value ≠ 0), rfl⟩
  | @num d len value rest hd =>
      cases hw
      rw [Definition.numberSetter]
      split
      next => exact ⟨.int _, rfl⟩
      next => exact ⟨.double _, rfl⟩
  | @enum len value =>
      cases hw
      exact ⟨.enum _, rfl⟩
  | @string len value =>
      cases hw
      exact ⟨.string _, rfl⟩
  | @binary len value =>
      cases hw
      exact ⟨.binary _, rfl⟩
  | binarySkipped => cases hw
  | binaryCut => cases hw
  | unknown => cases hw

/-- So does a frame. -/
theorem Reads.setter_eq [Platform] {D : Definitions} {rest input : Bytes} {ws : List Write}
    (h : Reads D rest input ws) : ∀ a ∈ ws, ∃ value : Value, a.setter = value.setter := by
  induction h with
  | nil => exact fun a ha => absurd ha List.not_mem_nil
  | @cons id data input n t r ws _ hchunk _ _ ih =>
      intro a ha
      rcases List.mem_append.mp ha with ha | ha
      · rw [Record.writes] at ha
        split at ha
        next w hw =>
          split at ha
          next =>
            rw [List.mem_singleton.mp ha]
            exact hchunk.setter_eq hw
          next => cases ha
        next => cases ha
      · exact ih a ha

/-! ## Calls -/

/-- The definition that a call makes. -/
def Call.define : Call → Option Define
  | .defineBool fresh dpID permission value => some (.bool fresh dpID permission value)
  | .defineNumber fresh dpID permission minValue maxValue resolution value =>
      some (.number fresh dpID permission minValue maxValue resolution value)
  | .defineEnum fresh dpID permission value => some (.enum fresh dpID permission value)
  | .defineString fresh dpID permission value => some (.string fresh dpID permission value)
  | .defineBinary fresh dpID permission value => some (.binary fresh dpID permission value)
  | _ => none

/-- What a call does to the store. -/
inductive Effect [Platform] (s : Store) : Call → Store → Prop where
  | define {call : Call} {d : Define} {s' : Store} :
      call.define = some d → d.exec s = .ok s' → Effect s call s'
  | write {call : Call} {dpID : UInt16} {value : Value} :
      call = .write dpID value ∨ call = .send dpID value →
      Effect s call (writeDatapoint s dpID value.setter true)
  | parse {body : Bytes} {ws : List Write} {s' : Store} :
      Reads s.definition [] body ws → Reflagged (writeAll s ws) s' →
      Effect s (.parse (some (0x31 :: body))) s'
  | flags {call : Call} {s' : Store} : Reflagged s s' → Effect s call s'

section Effect

variable [Platform] {s s' : Store} {c c' : Control} {result : Int} {uploads : List Upload}

theorem sendDatapoint_store {dpID : UInt16} {w : Setter} {r : Sent}
    (h : sendDatapoint s c dpID (writeDatapoint s dpID w true) result = .ok r) :
    r.store = writeDatapoint s dpID w true := by
  obtain ⟨hnone, rfl⟩ | ⟨_, rfl⟩ | ⟨_, p, _, ⟨_, rfl⟩ | ⟨_, hstore, _⟩⟩ := sendDatapoint_cases h
  · exact (writeDatapoint_of_none hnone).symm
  · rfl
  · rfl
  · exact hstore

theorem parse_effect {payload : Option Bytes} {r : Received}
    (h : iotDataPointParseReceiveDatapoints s payload result = .ok r) :
    Effect s (.parse payload) r.store := by
  cases payload with
  | none =>
      cases h
      exact .flags (.refl s)
  | some bytes =>
      cases bytes with
      | nil => cases h
      | cons b body =>
          by_cases hb : b = 0x31
          · subst hb
            obtain ⟨ws, hreads, hend⟩ := receive_eq_ok.mp h
            exact .parse hreads (reflagged_parseEnd hend)
          · rw [iotDataPointParseReceiveDatapoints, parseDatapoints_cons, if_neg hb] at h
            cases h
            exact .flags (.refl s)

theorem manual_reflagged {r : Sent} (h : iotDataPointSendAllDatapointManual s c result = .ok r) :
    Reflagged s r.store := by
  obtain rfl | ⟨_, _, hall⟩ := manual_cases h
  · exact .refl s
  · exact (reflagged_clear s).trans (reflagged_sendAll hall)

theorem automatic_reflagged {now now' : Nat} {r : Sent}
    (h : iotDataPointSendDatapointAutomatic s c now now' result = .ok (r, c')) :
    Reflagged s r.store := by
  obtain ⟨rfl, _⟩ | ⟨_, _, _, hall, _⟩ := automatic_cases h
  · exact .refl s
  · exact (reflagged_clear s).trans (reflagged_sendAll hall)

theorem exec_effect {call : Call} (h : exec s c result call = .ok (s', c', uploads)) :
    Effect s call s' := by
  cases call with
  | defineBool | defineNumber | defineEnum | defineString | defineBinary =>
      obtain ⟨t, hdefine, h⟩ := bind_eq_ok.mp h
      cases h
      exact .define rfl hdefine
  | write dpID value =>
      cases h
      rw [iotDataPointWrite_eq]
      exact .write (Or.inl rfl)
  | send dpID value =>
      obtain ⟨r, hsend, h⟩ := bind_eq_ok.mp h
      cases h
      rw [iotDataPointSend_eq] at hsend
      rw [sendDatapoint_store hsend]
      exact .write (Or.inr rfl)
  | parse payload =>
      obtain ⟨r, hparse, h⟩ := bind_eq_ok.mp h
      cases h
      exact parse_effect hparse
  | automatic now now' =>
      obtain ⟨⟨r, c'⟩, hsend, h⟩ := bind_eq_ok.mp h
      cases h
      exact .flags (automatic_reflagged hsend)
  | manual =>
      obtain ⟨r, hsend, h⟩ := bind_eq_ok.mp h
      cases h
      exact .flags (manual_reflagged hsend)
  | control mode lapse =>
      cases h
      exact .flags (.refl s)

end Effect

end IotKit.Datapoint
