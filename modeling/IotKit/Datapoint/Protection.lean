import IotKit.Datapoint.Records
import IotKit.Datapoint.Delivery

/-!
# Datapoints that only go up

The permission `DP_PERMISSION_UP_ONLY` is for values of the device that the cloud is
not to write.  The parser does not look at it.  `protected_iff` says for which frames
these datapoints keep their value and their flags whatever they hold: no record is
written to one of them, none of the two datapoints of the system is one of them, and
no upload clears their change flags.
-/

namespace IotKit.Datapoint

open CMemory

/-- The datapoint with the id only goes up. -/
def Store.UpOnly (s : Store) (id : UInt16) : Prop :=
  ∃ p, s.property id = some p ∧ p.permission = .upOnly

/-- Other contents for the datapoints that only go up. -/
structure Refill where
  fill : PropertyConf → PropertyConf
  definition : ∀ p, (fill p).definition = p.definition
  others : ∀ p, p.permission ≠ .upOnly → fill p = p

def Store.refill (s : Store) (f : Refill) : Store :=
  s.map f.fill fun p => congrArg Definition.dpID (f.definition p)

/-- Whatever they hold, the call returns and leaves their value and flags. -/
def Protected [Platform] (s : Store) (payload : Option Bytes) : Prop :=
  ∀ (f : Refill) (result : Int), ∃ r,
    iotDataPointParseReceiveDatapoints (s.refill f) payload result = .ok r ∧
      ∀ id p, (s.refill f).property id = some p → p.permission = .upOnly →
        ∃ q, r.store.property id = some q ∧ q.value = p.value ∧ q.change = p.change ∧
          q.readFlag = p.readFlag

/-- All datapoints fit in the buffer of an upload. -/
def Store.Fits [Platform] (s : Store) : Prop := ∃ u, intoyunFormAllDatapoint s 512 true = .ok u

/-- The datapoint has a new value, or a write gives it one. -/
def Asks (s : Store) (ws : List Write) (id : UInt16) : Prop :=
  s.Requests id ∨ ∃ a ∈ ws, a.dpID = id

/-- The writes of a frame, and what the parser does after them, do not concern the
datapoints that only go up. -/
structure Harmless [Platform] (s : Store) (ws : List Write) : Prop where
  writes : ∀ a ∈ ws, ¬ s.UpOnly a.dpID
  reset : ¬ s.UpOnly dpidDefaultBoolReset
  getAll : ¬ Asks s ws dpidDefaultBoolReset → ¬ s.UpOnly dpidDefaultBoolGetalldatapoint ∧
    (Asks s ws dpidDefaultBoolGetalldatapoint → (∀ id, ¬ s.UpOnly id) ∧ (writeAll s ws).Fits)

/-- There is no payload, or it is not one of datapoints, or its records are read and
harmless. -/
def CloudSafe [Platform] (s : Store) (payload : Option Bytes) : Prop :=
  payload = none ∨ ∃ b body, payload = some (b :: body) ∧
    (b = 0x31 → ∃ ws, Reads s.definition [] body ws ∧ Harmless s ws)

/-! ## Contents -/

section Contents

variable {s : Store} {f : Refill} {id : UInt16} {ws : List Write}

theorem property_refill : (s.refill f).property id = (s.property id).map f.fill :=
  Store.property_map id

theorem definition_refill : (s.refill f).definition = s.definition := by
  funext id
  rw [Store.definition, property_refill, Option.map_map, Store.definition]
  congr 1
  funext p
  exact f.definition p

theorem Refill.permission (f : Refill) (p : PropertyConf) :
    (f.fill p).permission = p.permission := congrArg Definition.permission (f.definition p)

theorem upOnly_of_property {p : PropertyConf} (hp : (s.refill f).property id = some p)
    (hperm : p.permission = .upOnly) : s.UpOnly id := by
  rw [property_refill] at hp
  obtain ⟨q, hq, rfl⟩ := Option.map_eq_some_iff.mp hp
  exact ⟨q, hq, (f.permission q).symm.trans hperm⟩

theorem property_refill_of_not_upOnly (h : ¬ s.UpOnly id) :
    (s.refill f).property id = s.property id := by
  rw [property_refill]
  cases hp : s.property id with
  | none => rfl
  | some p => rw [Option.map_some, f.others p fun hperm => h ⟨p, hp, hperm⟩]

theorem refill_of_not_upOnly (h : ∀ id, ¬ s.UpOnly id) : s.refill f = s := by
  refine Store.ext ?_
  show s.properties.map f.fill = s.properties
  conv_rhs => rw [← List.map_id s.properties]
  refine List.map_congr_left fun p hp => f.others p fun hperm => h p.dpID ?_
  exact ⟨p, Store.property_eq_some.mpr ⟨hp, rfl⟩, hperm⟩

theorem requests_writeAll (htaken : Taken s.definition ws) :
    (writeAll s ws).Requests id ↔ Asks s ws id := by
  by_cases hhit : ∃ a ∈ ws, a.dpID = id
  · refine ⟨fun _ => Or.inr hhit, fun _ => ?_⟩
    obtain ⟨a, ha, rfl⟩ := hhit
    obtain ⟨p, hp, _, hflag⟩ := raised_of_mem htaken ha
    exact ⟨p, hp, hflag⟩
  · rw [Store.Requests, property_writeAll_of_ne fun a ha hid => hhit ⟨a, ha, hid⟩]
    exact ⟨Or.inl, fun h => h.resolve_right hhit⟩

theorem asks_refill (h : ¬ s.UpOnly id) : Asks (s.refill f) ws id ↔ Asks s ws id := by
  rw [Asks, Asks, Store.Requests, property_refill_of_not_upOnly h, Store.Requests]

variable [Platform]

theorem fits_iff : s.Fits ↔
    (0x31 :: (s.properties.filter fun p => p.Uploadable ∧ (true ∨ p.change)).flatMap
      intoyunFormDataPointBinary).length ≤ 512 := by
  rw [Store.Fits, intoyunFormAllDatapoint, formFrame]
  constructor
  · rintro ⟨u, hu⟩
    split at hu
    next hle => exact hle
    next => cases hu
  · exact fun hle => ⟨_, if_pos hle⟩

/-- Flags do not count for the size of an upload. -/
theorem fits_map {s' : Store} {g : PropertyConf → PropertyConf}
    (hs' : s'.properties = s.properties.map g)
    (hform : ∀ p, intoyunFormDataPointBinary (g p) = intoyunFormDataPointBinary p)
    (hup : ∀ p, (g p).Uploadable ↔ p.Uploadable) : s'.Fits ↔ s.Fits := by
  rw [fits_iff, fits_iff, hs', List.filter_map, List.flatMap_map]
  have hfilter : (fun p : PropertyConf => decide (p.Uploadable ∧ (true ∨ p.change))) ∘ g =
      fun p => decide (p.Uploadable ∧ (true ∨ p.change)) := by
    funext p
    simp [hup p]
  rw [hfilter, funext hform]

theorem fits_consume (id : UInt16) : (consume s id).Fits ↔ s.Fits := by
  refine fits_map iotDataPointReadBool_properties (fun p => ?_) fun p => ?_
  · split
    · rfl
    · rfl
  · split
    · exact Iff.rfl
    · exact Iff.rfl

theorem sendAll_eq_ok (result : Int) (hne : s.properties ≠ []) :
    (∃ r, iotDataPointSendAll s result = .ok r) ↔ s.Fits := by
  rw [iotDataPointSendAll, if_neg fun h => hne (List.length_eq_zero_iff.mp h)]
  constructor
  · rintro ⟨r, h⟩
    obtain ⟨u, hu, _⟩ := bind_eq_ok.mp h
    exact ⟨u, hu⟩
  · rintro ⟨u, hu⟩
    exact ⟨_, bind_eq_ok.mpr ⟨u, hu, rfl⟩⟩

/-- An upload that is requested returns where the datapoints fit. -/
theorem parseEnd_getAll_eq_ok (result : Int) (hreset : ¬ s.Requests dpidDefaultBoolReset)
    (hget : s.Requests dpidDefaultBoolGetalldatapoint) :
    (∃ r, parseEnd s result = .ok r) ↔ s.Fits := by
  have hne : (consume (consume s dpidDefaultBoolReset)
      dpidDefaultBoolGetalldatapoint).properties ≠ [] := by
    obtain ⟨p, hp, _⟩ := hget
    intro hnil
    have hget : (consume s dpidDefaultBoolReset).property dpidDefaultBoolGetalldatapoint =
        some p := (property_consume_of_ne (by decide)).trans hp
    have hprop := @property_consume_self (consume s dpidDefaultBoolReset)
      dpidDefaultBoolGetalldatapoint
    rw [Store.property, hnil, hget] at hprop
    cases hprop
  rw [parseEnd_getAll hreset hget, ← fits_consume dpidDefaultBoolReset,
    ← fits_consume dpidDefaultBoolGetalldatapoint, ← sendAll_eq_ok result hne]
  constructor
  · rintro ⟨r, h⟩
    obtain ⟨r', hsend, _⟩ := bind_eq_ok.mp h
    exact ⟨r', hsend⟩
  · rintro ⟨r, h⟩
    exact ⟨_, bind_eq_ok.mpr ⟨r, h, rfl⟩⟩

end Contents

/-! ## Harmless frames -/

section Harmless

variable [Platform] {s : Store} {f : Refill} {result : Int} {ws : List Write} {id : UInt16}

variable (f result) in
theorem Harmless.parseEnd (h : Harmless s ws) (htaken : Taken s.definition ws) :
    ∃ r, parseEnd (writeAll (s.refill f) ws) result = .ok r ∧
      ∀ id, s.UpOnly id → r.store.property id = (s.refill f).property id := by
  have htaken' : Taken (s.refill f).definition ws := definition_refill.symm ▸ htaken
  have hkeep {id : UInt16} (hup : s.UpOnly id) :
      (writeAll (s.refill f) ws).property id = (s.refill f).property id :=
    property_writeAll_of_ne fun a ha hid => h.writes a ha (hid.symm ▸ hup)
  have hreset_iff : (writeAll (s.refill f) ws).Requests dpidDefaultBoolReset ↔
      Asks s ws dpidDefaultBoolReset := (requests_writeAll htaken').trans (asks_refill h.reset)
  have hne {id : UInt16} (hup : s.UpOnly id) : id ≠ dpidDefaultBoolReset :=
    fun hid => h.reset (hid ▸ hup)
  by_cases hreset : Asks s ws dpidDefaultBoolReset
  · refine ⟨_, parseEnd_reset (hreset_iff.mpr hreset), fun id hup => ?_⟩
    rw [property_consume_of_ne (hne hup), hkeep hup]
  · obtain ⟨hnot, hfree⟩ := h.getAll hreset
    have hget_iff : (writeAll (s.refill f) ws).Requests dpidDefaultBoolGetalldatapoint ↔
        Asks s ws dpidDefaultBoolGetalldatapoint :=
      (requests_writeAll htaken').trans (asks_refill hnot)
    by_cases hget : Asks s ws dpidDefaultBoolGetalldatapoint
    · obtain ⟨hnone, hfits⟩ := hfree hget
      rw [← refill_of_not_upOnly (f := f) hnone] at hfits
      obtain ⟨r, hr⟩ := (parseEnd_getAll_eq_ok result
        (fun h => hreset (hreset_iff.mp h)) (hget_iff.mpr hget)).mpr hfits
      exact ⟨r, hr, fun id hup => absurd hup (hnone id)⟩
    · refine ⟨_, parseEnd_plain (fun h => hreset (hreset_iff.mp h))
        (fun h => hget (hget_iff.mp h)), fun id hup => ?_⟩
      have hne' : id ≠ dpidDefaultBoolGetalldatapoint := fun hid => hnot (hid ▸ hup)
      rw [property_consume_of_ne hne', property_consume_of_ne (hne hup), hkeep hup]

theorem CloudSafe.protected {payload : Option Bytes} (h : CloudSafe s payload) :
    Protected s payload := by
  intro f result
  have hsame {r : Received}
      (hr : ∀ id, s.UpOnly id → r.store.property id = (s.refill f).property id) :
      ∀ id p, (s.refill f).property id = some p → p.permission = .upOnly →
        ∃ q, r.store.property id = some q ∧ q.value = p.value ∧ q.change = p.change ∧
          q.readFlag = p.readFlag := fun id p hp hperm =>
    ⟨p, (hr id (upOnly_of_property hp hperm)).trans hp, rfl, rfl, rfl⟩
  rcases h with rfl | ⟨b, body, rfl, hbody⟩
  · exact ⟨⟨s.refill f, [], false⟩, rfl, hsame fun _ _ => rfl⟩
  · by_cases hb : b = 0x31
    · obtain ⟨ws, hreads, hharmless⟩ := hbody hb
      obtain ⟨r, hend, hr⟩ := hharmless.parseEnd f result hreads.taken
      subst hb
      exact ⟨r, (receive_eq (definition_refill.symm ▸ hreads)).trans hend, hsame hr⟩
    · refine ⟨⟨s.refill f, [], false⟩, ?_, hsame fun _ _ => rfl⟩
      rw [iotDataPointParseReceiveDatapoints, parseDatapoints_cons, if_neg hb]
      rfl

end Harmless

/-! ## What it takes -/

section Needed

variable {s : Store} {id : UInt16} {flag : ReadResult}

/-- The read flags are `flag`, and the change flags are such that every write shows. -/
def reflag (flag : ReadResult) : Refill where
  fill p :=
    if p.permission = .upOnly then
      { p with readFlag := flag, change := p.dpID ≠ dpidDefaultBoolReset }
    else p
  definition p := by
    split
    · rfl
    · rfl
  others _ h := if_neg h

variable (flag) in
theorem property_reflag (h : s.UpOnly id) :
    ∃ p, (s.refill (reflag flag)).property id = some p ∧ p.permission = .upOnly ∧
      p.readFlag = flag ∧ p.change = decide (id ≠ dpidDefaultBoolReset) := by
  obtain ⟨p, hp, hperm⟩ := h
  obtain ⟨_, rfl⟩ := Store.property_eq_some.mp hp
  have hfill : (reflag flag).fill p =
      { p with readFlag := flag, change := p.dpID ≠ dpidDefaultBoolReset } := if_pos hperm
  refine ⟨_, by rw [property_refill, hp, Option.map_some], ?_⟩
  rw [hfill]
  exact ⟨hperm, rfl, rfl⟩

variable [Platform] {result : Int} {ws : List Write} {body : Bytes}

/-- The flags that a protected datapoint has after the parser. -/
theorem Protected.flags (h : Protected s (some (0x31 :: body)))
    (hreads : Reads s.definition [] body ws) (hup : s.UpOnly id) (flag : ReadResult) :
    ∃ r q, parseEnd (writeAll (s.refill (reflag flag)) ws) 0 = .ok r ∧
      r.store.property id = some q ∧ q.readFlag = flag ∧
      q.change = decide (id ≠ dpidDefaultBoolReset) := by
  obtain ⟨r, hr, hkeep⟩ := h (reflag flag) 0
  rw [receive_eq (definition_refill.symm ▸ hreads)] at hr
  obtain ⟨p, hp, hperm, hflag, hchange⟩ := property_reflag flag hup
  obtain ⟨q, hq, _, hqchange, hqflag⟩ := hkeep id p hp hperm
  exact ⟨r, q, hr, hq, hqflag.trans hflag, hqchange.trans hchange⟩

theorem Protected.harmless (h : Protected s (some (0x31 :: body)))
    (hreads : Reads s.definition [] body ws) : Harmless s ws := by
  have htaken {f : Refill} : Taken (s.refill f).definition ws :=
    definition_refill.symm ▸ hreads.taken
  have hwrites : ∀ a ∈ ws, ¬ s.UpOnly a.dpID := by
    intro a ha hup
    obtain ⟨r, q, hend, hq, hflags⟩ := h.flags hreads hup .old
    exact (raised_of_mem htaken ha).shows hend hq hflags
  have hkeep {f : Refill} {id : UInt16} (hup : s.UpOnly id) :
      (writeAll (s.refill f) ws).property id = (s.refill f).property id :=
    property_writeAll_of_ne fun a ha hid => hwrites a ha (hid.symm ▸ hup)
  -- a new value of a datapoint of the system is read, and then it is not new
  have hrequests {id : UInt16} (hup : s.UpOnly id) :
      (writeAll (s.refill (reflag .new)) ws).Requests id := by
    obtain ⟨p, hp, _, hflag, _⟩ := property_reflag .new hup
    exact ⟨p, (hkeep hup).trans hp, hflag⟩
  have hreset : ¬ s.UpOnly dpidDefaultBoolReset := by
    intro hup
    obtain ⟨r, q, hend, hq, hflag, _⟩ := h.flags hreads hup .new
    rw [parseEnd_reset (hrequests hup)] at hend
    cases hend
    rw [property_consume_self] at hq
    obtain ⟨_, _, rfl⟩ := Option.map_eq_some_iff.mp hq
    cases hflag
  refine ⟨hwrites, hreset, fun hasks => ?_⟩
  have hno {f : Refill} : ¬ (writeAll (s.refill f) ws).Requests dpidDefaultBoolReset :=
    fun hreq => hasks ((asks_refill hreset).mp ((requests_writeAll htaken).mp hreq))
  have hgetAll : ¬ s.UpOnly dpidDefaultBoolGetalldatapoint := by
    intro hup
    obtain ⟨r, q, hend, hq, hflag, _⟩ := h.flags hreads hup .new
    rw [parseEnd_getAll hno (hrequests hup)] at hend
    obtain ⟨⟨rc, s', uploads⟩, hsend, hend⟩ := bind_eq_ok.mp hend
    cases hend
    dsimp only at hq
    rw [sendAll_store hsend, property_clearPropertyChangeFlag, property_consume_self] at hq
    obtain ⟨_, hq', rfl⟩ := Option.map_eq_some_iff.mp hq
    obtain ⟨_, _, rfl⟩ := Option.map_eq_some_iff.mp hq'
    cases hflag
  refine ⟨hgetAll, fun hget => ?_⟩
  have hget' {f : Refill} : (writeAll (s.refill f) ws).Requests dpidDefaultBoolGetalldatapoint :=
    (requests_writeAll htaken).mpr ((asks_refill hgetAll).mpr hget)
  have hnone : ∀ id, ¬ s.UpOnly id := by
    intro id hup
    obtain ⟨r, q, hend, hq, _, hchange⟩ := h.flags hreads hup .old
    rw [parseEnd_getAll hno hget'] at hend
    obtain ⟨⟨rc, s', uploads⟩, hsend, hend⟩ := bind_eq_ok.mp hend
    cases hend
    dsimp only at hq
    rw [sendAll_store hsend, property_clearPropertyChangeFlag] at hq
    obtain ⟨_, _, rfl⟩ := Option.map_eq_some_iff.mp hq
    have hid : id = dpidDefaultBoolReset := by simpa using hchange
    exact hreset (hid ▸ hup)
  refine ⟨hnone, ?_⟩
  obtain ⟨r, hr, _⟩ := h (reflag .old) 0
  rw [receive_eq (definition_refill.symm ▸ hreads)] at hr
  have hfits := (parseEnd_getAll_eq_ok 0 hno hget').mp ⟨r, hr⟩
  rwa [refill_of_not_upOnly hnone] at hfits

/-- A frame leaves the datapoints that only go up exactly where it is safe for them. -/
theorem protected_iff (s : Store) (payload : Option Bytes) :
    Protected s payload ↔ CloudSafe s payload := by
  refine ⟨fun h => ?_, CloudSafe.protected⟩
  cases payload with
  | none => exact Or.inl rfl
  | some bytes =>
      obtain ⟨r, hr, _⟩ := h (reflag .old) 0
      cases bytes with
      | nil => cases hr
      | cons b body =>
          refine Or.inr ⟨b, body, rfl, ?_⟩
          rintro rfl
          obtain ⟨ws, hreads, _⟩ := receive_eq_ok.mp hr
          rw [definition_refill] at hreads
          exact ⟨ws, hreads, h.harmless hreads⟩

end Needed

/-- The cloud writes a datapoint that only goes up. -/
theorem not_protected_bool : ¬ ∀ (P : Platform) (s : Store) (payload : Bytes) (result : Int)
    (r : Received), @iotDataPointParseReceiveDatapoints P s (some payload) result = .ok r →
    ∀ id p, s.property id = some p → p.permission = .upOnly →
      ∃ q, r.store.property id = some q ∧ q.value = p.value ∧ q.change = p.change ∧
        q.readFlag = p.readFlag := by
  intro h
  let s : Store := ⟨[{ zeroProperty with dpID := 1 }], by decide, by decide⟩
  obtain ⟨r, hr, hvalue⟩ : ∃ r,
      @iotDataPointParseReceiveDatapoints zeroPlatform s (some [0x31, 1, 0, 1, 1]) 0 = .ok r ∧
      (r.store.property 1).map PropertyConf.value = some (.bool true) := ⟨_, rfl, by decide⟩
  obtain ⟨q, hq, hsame, _⟩ := h zeroPlatform s _ 0 r hr 1 _ rfl rfl
  rw [hq, Option.map_some, hsame] at hvalue
  exact absurd hvalue (by decide)

end IotKit.Datapoint
