import IotKit.Datapoint.Buffer
import IotKit.Datapoint.Define

/-!
# Which runs keep the frames in their buffers

Runs of definitions, writes of the user and frames of the cloud.  `Small` says of one
call that it leaves no record too long for its buffer and not too many, and the frames
fit in every state on the way exactly where every call that returns is small
(`framesFit_run_iff`).
-/

namespace IotKit.Datapoint

open CMemory Runs Buffer

namespace Overrun

inductive Change where
  | define (d : Define)
  | write (dpID : UInt16) (value : Value)
  | parse (payload : Option Bytes)

theorem uploadable_of_definition {p q : PropertyConf} (h : q.definition = p.definition) :
    q.Uploadable ↔ p.Uploadable := by
  have hid : q.dpID = p.dpID := congrArg Definition.dpID h
  have hperm : q.permission = p.permission := congrArg Definition.permission h
  rw [PropertyConf.Uploadable, hid, hperm, PropertyConf.Uploadable]

section Steps

variable [Platform]

/-- The store that the parser leaves after its records, its upload taken to return. -/
def settle (s : Store) : Store :=
  let (reset, _, s) := iotDataPointReadBool s dpidDefaultBoolReset false
  if reset = .new then s
  else
    let (getAll, _, s) := iotDataPointReadBool s dpidDefaultBoolGetalldatapoint false
    if getAll = .new then clearPropertyChangeFlag s else s

/-- The store after the call.  A frame of the cloud may ask for an upload of all
datapoints: `settle` goes on behind it, so that a store whose frame does not fit is
reached too. -/
def step (s : Store) : Change → Checked Store
  | .define d => d.exec s
  | .write dpID value => .ok (iotDataPointWrite s dpID value)
  | .parse payload => do
      match ← parseDatapoints s payload with
      | none => .ok s
      | some (s, _) => .ok (settle s)

/-- The call leaves the sizes of the records within the budget. -/
def Small (s : Store) : Change → Prop
  | .define d => s.property d.property.dpID = none →
      1 + recordSize d.property ≤ 256 ∧
        (d.property.Uploadable → 1 + uploadSize s + recordSize d.property ≤ 512)
  | .write dpID value => ∀ p, s.property dpID = some p →
      1 + recordSize (value.setter.write true p) ≤ 256 ∧
        (p.Uploadable →
          1 + uploadSize s + recordSize (value.setter.write true p) ≤ 512 + recordSize p)
  | .parse payload => ∀ body ws, payload = some (0x31 :: body) → Reads s.definition [] body ws →
      Budget (writeAll s ws)

/-! ## Sizes of a store -/

section Sizes

variable {s s' : Store} {p q : PropertyConf} {dpID : UInt16} {w : Setter}

/-- What a datapoint counts for an upload of all. -/
def share (p : PropertyConf) : Nat := if p.Uploadable then recordSize p else 0

theorem uploadSize_eq (s : Store) : uploadSize s = (s.properties.map share).sum := by
  rw [uploadSize]
  induction s.properties with
  | nil => rfl
  | cons p ps ih =>
      rw [List.filter_cons, List.map_cons, List.sum_cons, ← ih]
      by_cases hup : p.Uploadable
      · simp [share, hup]
      · simp [share, hup]

/-- A new datapoint counts with its own size. -/
theorem budget_append (hs' : s'.properties = s.properties ++ [p]) (hbudget : Budget s) :
    Budget s' ↔ 1 + recordSize p ≤ 256 ∧
      (p.Uploadable → 1 + uploadSize s + recordSize p ≤ 512) := by
  have hall := hbudget.all
  have hsize : uploadSize s' = uploadSize s + share p := by
    rw [uploadSize_eq, uploadSize_eq, hs']
    simp
  constructor
  · intro h
    refine ⟨h.single p (hs' ▸ List.mem_append_right _ (List.mem_singleton_self p)), ?_⟩
    intro hup
    have := h.all
    rw [hsize, share, if_pos hup] at this
    omega
  · intro ⟨hsingle, hup⟩
    refine ⟨?_, ?_⟩
    · intro q hq
      rw [hs'] at hq
      rcases List.mem_append.mp hq with hq | hq
      · exact hbudget.single q hq
      · rw [List.mem_singleton.mp hq]
        exact hsingle
    · rw [hsize, share]
      split
      next h =>
        have := hup h
        omega
      next => omega

/-- Flags and values that do not show keep the budget. -/
theorem budget_map {f : PropertyConf → PropertyConf} (hs' : s'.properties = s.properties.map f)
    (hsize : ∀ p, recordSize (f p) = recordSize p) (hup : ∀ p, (f p).Uploadable ↔ p.Uploadable) :
    Budget s' ↔ Budget s := by
  have hshare : ∀ p, share (f p) = share p := by
    intro p
    rw [share, share, hsize]
    simp only [hup p]
  have hall : uploadSize s' = uploadSize s := by
    rw [uploadSize_eq, uploadSize_eq, hs', List.map_map]
    exact congrArg List.sum (List.map_congr_left fun p _ => hshare p)
  constructor
  · intro h
    refine ⟨fun p hp => ?_, hall ▸ h.all⟩
    rw [← hsize p]
    exact h.single _ (hs' ▸ List.mem_map_of_mem hp)
  · intro h
    refine ⟨fun p' hp' => ?_, hall ▸ h.all⟩
    rw [hs'] at hp'
    obtain ⟨p, hp, rfl⟩ := List.mem_map.mp hp'
    rw [hsize p]
    exact h.single p hp

/-- A write exchanges the size of one record. -/
theorem budget_write (hbudget : Budget s) (hp : s.property dpID = some p) :
    Budget (writeDatapoint s dpID w true) ↔ 1 + recordSize (w.write true p) ≤ 256 ∧
      (p.Uploadable → 1 + uploadSize s + recordSize (w.write true p) ≤ 512 + recordSize p) := by
  have hall := hbudget.all
  have hup : (w.write true p).Uploadable ↔ p.Uploadable :=
    uploadable_of_definition (w.write_definition true p)
  obtain ⟨hmem, hid⟩ := Store.property_eq_some.mp hp
  have hsize : uploadSize (writeDatapoint s dpID w true) + share p =
      uploadSize s + share (w.write true p) := by
    rw [uploadSize_eq, uploadSize_eq, writeDatapoint_properties]
    exact KeyTable.sum_update s.distinct hp
  rw [share, share] at hsize
  constructor
  · intro h
    refine ⟨h.single _ ?_, ?_⟩
    · rw [writeDatapoint_properties]
      exact List.mem_map.mpr ⟨p, hmem, if_pos hid⟩
    · intro hp'
      have := h.all
      rw [if_pos hp', if_pos (hup.mpr hp')] at hsize
      omega
  · intro ⟨hsingle, hwhole⟩
    refine ⟨?_, ?_⟩
    · intro q hq
      rw [writeDatapoint_properties] at hq
      obtain ⟨r, hr, rfl⟩ := List.mem_map.mp hq
      split
      next hrid =>
        obtain rfl := List.inj_on_of_nodup_map s.distinct hr hmem (hrid.trans hid.symm)
        exact hsingle
      next => exact hbudget.single r hr
    · by_cases hp' : p.Uploadable
      · have := hwhole hp'
        rw [if_pos hp', if_pos (hup.mpr hp')] at hsize
        omega
      · rw [if_neg hp', if_neg fun h => hp' (hup.mp h)] at hsize
        omega

theorem budget_read {value : Bool} :
    Budget (iotDataPointReadBool s dpID value).2.2 ↔ Budget s := by
  refine budget_map iotDataPointReadBool_properties (fun p => ?_) fun p => ?_
  · split
    · rfl
    · rfl
  · split
    · exact Iff.rfl
    · exact Iff.rfl

theorem budget_clear : Budget (clearPropertyChangeFlag s) ↔ Budget s :=
  budget_map rfl (fun _ => rfl) fun _ => Iff.rfl

theorem budget_settle : Budget (settle s) ↔ Budget s := by
  simp only [settle]
  split
  next => exact budget_read
  next =>
    split
    next => exact budget_clear.trans (budget_read.trans budget_read)
    next => exact budget_read.trans budget_read

end Sizes

/-! ## The parser -/

section Parse

variable {s s' : Store} {payload : Option Bytes} {result : Int}

theorem settle_of_parseEnd {r : Received} (h : parseEnd s result = .ok r) :
    settle s = r.store := by
  simp only [parseEnd] at h
  simp only [settle]
  split at h
  next hreset =>
    cases h
    rw [if_pos hreset]
  next hreset =>
    rw [if_neg hreset]
    split at h
    next hget =>
      obtain ⟨⟨rc, s'', uploads⟩, hsend, h⟩ := bind_eq_ok.mp h
      cases h
      rw [if_pos hget, sendAll_store hsend]
    next hget =>
      cases h
      rw [if_neg hget]

/-- The end of the parser fails only where the frame of all datapoints does not fit. -/
theorem parseEnd_total (result : Int) (h : FramesFit (settle s)) :
    ∃ r, parseEnd s result = .ok r := by
  rw [framesFit_iff, budget_settle] at h
  simp only [parseEnd]
  split
  next => exact ⟨_, rfl⟩
  next =>
    split
    next =>
      have hbudget : Budget (iotDataPointReadBool (iotDataPointReadBool s dpidDefaultBoolReset
          false).2.2 dpidDefaultBoolGetalldatapoint false).2.2 :=
        budget_read.mpr (budget_read.mpr h)
      generalize (iotDataPointReadBool _ dpidDefaultBoolGetalldatapoint false).2.2 = t at hbudget
      rw [iotDataPointSendAll]
      split
      next => exact ⟨_, rfl⟩
      next =>
        obtain ⟨u, hu⟩ := (formFrame_eq_ok _ 512).mpr
          (Nat.le_trans (Nat.add_le_add_left (changedSize_le t true) 1) hbudget.all)
        exact ⟨_, bind_eq_ok.mpr ⟨_, bind_eq_ok.mpr ⟨u, hu, rfl⟩, rfl⟩⟩
    next => exact ⟨_, rfl⟩

/-- Where the parser returns, the step does. -/
theorem step_of_parse {r : Received}
    (h : iotDataPointParseReceiveDatapoints s payload result = .ok r) :
    step s (.parse payload) = .ok r.store := by
  obtain ⟨parsed, hparsed, h⟩ := bind_eq_ok.mp h
  rw [step, hparsed, ok_bind]
  cases parsed with
  | none =>
      cases h
      rfl
  | some parsed => exact congrArg _ (settle_of_parseEnd h)

/-- Where the step returns, the parser does, or the frame it uploads does not fit. -/
theorem parse_of_step (h : step s (.parse payload) = .ok s') :
    (∃ r, iotDataPointParseReceiveDatapoints s payload result = .ok r ∧ r.store = s') ∨
      ¬ FramesFit s' := by
  by_cases hfit : FramesFit s'
  · refine Or.inl ?_
    obtain ⟨parsed, hparsed, h⟩ := bind_eq_ok.mp h
    rw [iotDataPointParseReceiveDatapoints, hparsed]
    cases parsed with
    | none =>
        cases h
        exact ⟨_, rfl, rfl⟩
    | some parsed =>
        cases h
        obtain ⟨r, hr⟩ := parseEnd_total result hfit
        exact ⟨r, hr, (settle_of_parseEnd hr).symm⟩
  · exact Or.inr hfit

/-- The store after a frame has the writes of the frame. -/
theorem budget_parse (h : step s (.parse payload) = .ok s') (hbudget : Budget s) :
    Budget s' ↔ Small s (.parse payload) := by
  obtain ⟨parsed, hparsed, h⟩ := bind_eq_ok.mp h
  constructor
  · intro hbudget' body ws hpayload hreads
    subst hpayload
    obtain ⟨applied, hloop⟩ := (parseLoop_eq_ok (Nat.le_refl body.length)).mpr ⟨ws, hreads, rfl⟩
    rw [parseDatapoints_cons, if_pos rfl, hloop, ok_bind] at hparsed
    cases hparsed
    cases h
    exact budget_settle.mp hbudget'
  · intro hsmall
    cases payload with
    | none =>
        cases hparsed
        cases h
        exact hbudget
    | some bytes =>
        cases bytes with
        | nil => cases hparsed
        | cons b body =>
            rw [parseDatapoints_cons] at hparsed
            split at hparsed
            next hb =>
              obtain ⟨⟨s₁, applied⟩, hloop, hparsed⟩ := bind_eq_ok.mp hparsed
              cases hparsed
              cases h
              obtain ⟨ws, hreads, rfl⟩ :=
                (parseLoop_eq_ok (Nat.le_refl body.length)).mp ⟨applied, hloop⟩
              exact budget_settle.mpr (hsmall body ws (by rw [hb]) hreads)
            next =>
              cases hparsed
              cases h
              exact hbudget

end Parse

/-! ## Runs -/

theorem step_small {s s' : Store} {a : Change} (hbudget : Budget s) (h : step s a = .ok s') :
    Budget s' ↔ Small s a := by
  cases a with
  | define d =>
      rcases Define.exec_cases h with ⟨⟨q, hq⟩, rfl⟩ | ⟨hnone, hs'⟩
      · refine ⟨fun _ hnone => ?_, fun _ => hbudget⟩
        rw [hq] at hnone
        cases hnone
      · rw [budget_append hs' hbudget]
        exact ⟨fun h _ => h, fun h => h hnone⟩
  | write dpID value =>
      cases h
      rw [iotDataPointWrite_eq]
      cases hp : s.property dpID with
      | none =>
          rw [writeDatapoint_of_none hp]
          refine ⟨fun _ p hsome => ?_, fun _ => hbudget⟩
          rw [hp] at hsome
          cases hsome
      | some p =>
          rw [budget_write hbudget hp]
          constructor
          · intro h q hq
            obtain rfl := Option.some.inj (hp.symm.trans hq)
            exact h
          · intro h
            exact h p hp
  | parse payload => exact budget_parse h hbudget

/-- In every state of a run the frames fit in their buffers exactly when every call
that returns is small. -/
theorem framesFit_run_iff (as : List Change) :
    (∀ bs s, bs <+: as → run step Store.empty bs = .ok s → FramesFit s) ↔
      Guarded step (fun s a => (∃ s', step s a = .ok s') → Small s a) Store.empty as := by
  have hempty : Budget Store.empty :=
    ⟨fun p hp => absurd hp List.not_mem_nil, by simp [uploadSize, Store.empty]⟩
  refine @always_good_iff _ _ _ step _ Budget FramesFit ?_ ?_ ?_ _ as hempty
  · intro s hbudget
    exact (framesFit_iff s).mpr hbudget
  · intro s a s' hbudget hsmall h
    exact (step_small hbudget h).mpr (hsmall ⟨s', h⟩)
  · intro s a hbudget hlarge
    obtain ⟨⟨s', h⟩, hlarge⟩ := Classical.not_imp.mp hlarge
    refine ⟨s', h, ?_⟩
    rw [framesFit_iff, step_small hbudget h]
    exact hlarge

end Steps

/-- A string of 255 characters is defined, and its frame runs over the buffer. -/
theorem not_framesFit_string : ¬ ∀ (P : Platform) (as : List Change) (s : Store),
    run (@step P) Store.empty as = .ok s → @FramesFit P s := by
  intro h
  let d : Define := .string zeroProperty 1 .upDown (List.replicate 255 65)
  obtain ⟨s, hrun, hsize⟩ : ∃ s, run (@step zeroPlatform) Store.empty [.define d] = .ok s ∧
      s.properties.map (@recordSize zeroPlatform) = [259] := ⟨_, rfl, by decide +kernel⟩
  have hbudget := (@framesFit_iff zeroPlatform s).mp (h zeroPlatform _ s hrun)
  obtain ⟨p, hp, hlong⟩ : ∃ p ∈ s.properties, @recordSize zeroPlatform p = 259 := by
    refine List.mem_map.mp ?_
    rw [hsize]
    exact List.mem_singleton_self 259
  have := @Budget.single zeroPlatform s hbudget p hp
  omega

end Overrun

end IotKit.Datapoint
