import IotKit.Datapoint.Records
import IotKit.Datapoint.Delivery

/-!
# Records that are not for the device

A well-formed frame is 0x31 and records of an id, a type, a length and data of this
length.  The device is to skip the records it does not know.

The parser does not always advance by the length: after an unknown type it goes on
with the length, of a bool it reads one byte and of a number one to four.  So it
cuts such a record in pieces of its own.  `undisturbed_iff` says that a record it
does not know may stand in a frame exactly where these pieces end with the record
and none of them writes.
-/

namespace IotKit.Datapoint

open CMemory

/-! ## Well-formed frames -/

/-- A record as the format has it. -/
structure WireRecord where
  id : Bytes
  dpID : Nat
  type : UInt8
  len : Bytes
  data : Bytes
  idVar : Var id dpID
  lenVar : Var len data.length

namespace WireRecord

def bytes (r : WireRecord) : Bytes := r.id ++ r.type :: (r.len ++ r.data)

/-- The id is not defined, or the type is not known or not that of the datapoint. -/
def Ignored (D : Definitions) (r : WireRecord) : Prop :=
  D (UInt16.ofNat r.dpID) = none ∨ DataType.ofCode r.type = none ∨
    DataType.ofCode r.type ≠ D.type (UInt16.ofNat r.dpID)

/-- Whatever follows, the parser cuts the record in pieces that end with it. -/
def Aligned [Platform] (D : Definitions) (r : WireRecord) : Prop :=
  ∃ ws, ∀ rest, Reads D rest r.bytes ws

/-- And none of them writes. -/
def Skipped [Platform] (D : Definitions) (r : WireRecord) : Prop := ∀ rest, Reads D rest r.bytes []

end WireRecord

def frame (rs : List WireRecord) : Bytes := 0x31 :: rs.flatMap WireRecord.bytes

/-- Between aligned records and for all values of the datapoints, the store is the same
without the record, and the parser indexes no datapoint that is not there. -/
def Undisturbed [Platform] (D : Definitions) (r : WireRecord) : Prop :=
  ∀ (s : Store) (pre post : List WireRecord) (result : Int), s.definition = D →
    (∀ q ∈ pre ++ post, q.Aligned D) →
    iotDataPointParseReceiveDatapoints s (some (frame (pre ++ r :: post))) result ≠ .error .index ∧
    Received.store <$>
        iotDataPointParseReceiveDatapoints s (some (frame (pre ++ r :: post))) result =
      Received.store <$> iotDataPointParseReceiveDatapoints s (some (frame (pre ++ post))) result

/-! ## A record that is skipped -/

section Skipped

variable [Platform] {D : Definitions} {s : Store} {result : Int}

theorem reads_flatMap {rs : List WireRecord} (h : ∀ q ∈ rs, q.Aligned D) :
    ∃ ws, ∀ rest, Reads D rest (rs.flatMap WireRecord.bytes) ws := by
  induction rs with
  | nil => exact ⟨[], fun _ => .nil⟩
  | cons q rs ih =>
      obtain ⟨ws, hq⟩ := h q List.mem_cons_self
      obtain ⟨ws', hrs⟩ := ih fun q' hq' => h q' (List.mem_cons_of_mem q hq')
      refine ⟨ws ++ ws', fun rest => ?_⟩
      rw [List.flatMap_cons]
      exact (hq _).append (hrs rest)

theorem sendAll_ne_index : iotDataPointSendAll s result ≠ .error .index := by
  intro hsend
  rw [iotDataPointSendAll] at hsend
  split at hsend
  next => cases hsend
  next =>
    rw [intoyunFormAllDatapoint, formFrame] at hsend
    split at hsend
    next => cases hsend
    next => cases hsend

theorem parseEnd_ne_index : parseEnd s result ≠ .error .index := by
  by_cases hreset : s.Requests dpidDefaultBoolReset
  · rw [parseEnd_reset hreset]
    intro h
    cases h
  · by_cases hget : s.Requests dpidDefaultBoolGetalldatapoint
    · rw [parseEnd_getAll hreset hget]
      intro h
      rcases hsend : iotDataPointSendAll
        (consume (consume s dpidDefaultBoolReset) dpidDefaultBoolGetalldatapoint) result with e | r
      · rw [hsend] at h
        cases h
        exact sendAll_ne_index hsend
      · rw [hsend] at h
        cases h
    · rw [parseEnd_plain hreset hget]
      intro h
      cases h

variable (result) in
/-- A skipped record leaves no trace at all. -/
theorem WireRecord.Skipped.receive {r : WireRecord} {pre post : List WireRecord}
    (h : r.Skipped s.definition) (hothers : ∀ q ∈ pre ++ post, q.Aligned s.definition) :
    ∃ ws,
      iotDataPointParseReceiveDatapoints s (some (frame (pre ++ r :: post))) result =
        parseEnd (writeAll s ws) result ∧
      iotDataPointParseReceiveDatapoints s (some (frame (pre ++ post))) result =
        parseEnd (writeAll s ws) result := by
  obtain ⟨ws, hpre⟩ := reads_flatMap fun q hq => hothers q (List.mem_append_left post hq)
  obtain ⟨ws', hpost⟩ := reads_flatMap fun q hq => hothers q (List.mem_append_right pre hq)
  refine ⟨ws ++ ws', receive_eq ?_, receive_eq ?_⟩
  · rw [List.flatMap_append, List.flatMap_cons]
    exact (hpre _).append ((h _).append (hpost []))
  · rw [List.flatMap_append]
    exact (hpre _).append (hpost [])

theorem WireRecord.Skipped.undisturbed {r : WireRecord} (h : r.Skipped D) : Undisturbed D r := by
  rintro s pre post result rfl hothers
  obtain ⟨ws, hwith, hwithout⟩ := h.receive result hothers
  rw [hwith, hwithout]
  exact ⟨parseEnd_ne_index, rfl⟩

end Skipped

/-! ## Cuts are unique -/

section Unique

variable [Platform] {s : Store} {rest input input' : Bytes} {ws ws' : List Write}

/-- A pass is a function of the bytes. -/
theorem pass_unique {id id' data data' : Bytes} {n n' : Nat} {t t' : UInt8} {r r' : Record}
    (hid : Var id n) (hid' : Var id' n')
    (h : Chunk s.definition (UInt16.ofNat n) (DataType.ofCode t) data r)
    (h' : Chunk s.definition (UInt16.ofNat n') (DataType.ofCode t') data' r')
    (heq : id ++ t :: (data ++ r.rest) = id' ++ t' :: (data' ++ r'.rest)) :
    n = n' ∧ t = t' ∧ r = r' := by
  have hvar : readVar (id ++ t :: (data ++ r.rest)) = .ok (n, t :: (data ++ r.rest)) :=
    readVar_append hid
  rw [heq, readVar_append hid'] at hvar
  obtain ⟨rfl, htail⟩ := Prod.mk.inj (Except.ok.inj hvar)
  obtain ⟨rfl, hdata⟩ := List.cons.inj htail
  have hr := parseData_eq_ok.mpr ⟨data, rfl, h⟩
  rw [← hdata, parseData_eq_ok.mpr ⟨data', rfl, h'⟩] at hr
  exact ⟨rfl, rfl, (Except.ok.inj hr).symm⟩

theorem Reads.split (h : Reads s.definition rest input ws)
    (h' : Reads s.definition [] (input ++ rest) ws') :
    ∃ ws₂, ws' = ws ++ ws₂ ∧ Reads s.definition [] rest ws₂ := by
  induction h generalizing ws' with
  | nil => exact ⟨ws', rfl, h'⟩
  | @cons id data input n t r ws hvar hchunk hrest hreads ih =>
      generalize hbytes : (id ++ t :: (data ++ input)) ++ rest = bytes at h'
      cases h' with
      | nil => simp at hbytes
      | @cons id' data' input' n' t' r' ws₂ hvar' hchunk' hrest' hreads' =>
          rw [List.append_nil] at hrest'
          have heq : id ++ t :: (data ++ r.rest) = id' ++ t' :: (data' ++ r'.rest) := by
            rw [hrest, hrest', ← hbytes]
            simp
          obtain ⟨rfl, rfl, rfl⟩ := pass_unique hvar hvar' hchunk hchunk' heq
          rw [← hrest', hrest] at hreads'
          obtain ⟨ws₃, rfl, hrest₃⟩ := ih hreads'
          exact ⟨ws₃, (List.append_assoc ..).symm, hrest₃⟩

/-! ## The last piece -/

/-- A binary that is not written, and ends before its length says. -/
def Cut (D : Definitions) (dpID : UInt16) (type : Option DataType) (data : Bytes) : Prop :=
  type = some .binary ∧ D.type dpID ≠ some .binary ∧
    ∃ len value m, data = len ++ value ∧ Var len m ∧ value.length < m

variable {D : Definitions}

/-- What follows a piece does not change it, unless it is cut. -/
theorem Chunk.follow {dpID : UInt16} {type : Option DataType} {data : Bytes} {r : Record}
    (h : Chunk D dpID type data r) :
    (∀ rest, ∃ r', Chunk D dpID type data r' ∧ r'.rest = rest ∧ r'.setter = r.setter) ∨
      Cut D dpID type data ∧ r.rest = [] ∧ r.setter = none := by
  cases h with
  | bool => exact Or.inl fun rest => ⟨_, .bool, rfl, rfl⟩
  | num hd hwidth => exact Or.inl fun rest => ⟨_, .num hd hwidth, rfl, rfl⟩
  | enum hwidth => exact Or.inl fun rest => ⟨_, .enum hwidth, rfl, rfl⟩
  | string hvar => exact Or.inl fun rest => ⟨_, .string hvar, rfl, rfl⟩
  | binary htype hvar => exact Or.inl fun rest => ⟨_, .binary htype hvar, rfl, rfl⟩
  | binarySkipped htype hvar => exact Or.inl fun rest => ⟨_, .binarySkipped htype hvar, rfl, rfl⟩
  | binaryCut htype hvar hshort =>
      exact Or.inr ⟨⟨rfl, htype, _, _, _, rfl, hvar, hshort⟩, rfl, rfl⟩
  | unknown => exact Or.inl fun rest => ⟨_, .unknown, rfl, rfl⟩

/-- The pieces of a frame end with it whatever follows, or the last one is cut. -/
theorem Reads.follow (h : Reads D [] input ws) :
    (∀ rest, Reads D rest input ws) ∨
      ∃ front id n t data, input = front ++ (id ++ t :: data) ∧ (∀ rest, Reads D rest front ws) ∧
        Var id n ∧ Cut D (UInt16.ofNat n) (DataType.ofCode t) data := by
  induction h with
  | nil => exact Or.inl fun _ => .nil
  | @cons id data input n t r ws hvar hchunk hrest hreads ih =>
      rcases hchunk.follow with hwhole | ⟨hcut, hnil, hsetter⟩
      · have hhead {input' : Bytes} {ws' : List Write} (rest : Bytes)
            (htail : Reads D rest input' ws') :
            Reads D rest (id ++ t :: (data ++ input'))
              (r.writes D (UInt16.ofNat n) (DataType.ofCode t) ++ ws') := by
          obtain ⟨r', hchunk', hrest', hsetter⟩ := hwhole (input' ++ rest)
          rw [← Record.writes_congr hsetter]
          exact .cons hvar hchunk' hrest' htail
        refine ih.imp (fun ih rest => hhead rest (ih rest)) ?_
        rintro ⟨front, id', n', t', data', rfl, hfront, hlast⟩
        refine ⟨id ++ t :: (data ++ front), id', n', t', data', ?_, ?_, hlast⟩
        · simp
        · exact fun rest => hhead rest (hfront rest)
      · obtain rfl : input = [] := by simpa using hrest.symm.trans hnil
        obtain rfl := hreads.nil_writes
        refine Or.inr ⟨[], id, n, t, data, by simp, fun _ => ?_, hvar, hcut⟩
        rw [Record.writes, hsetter]
        exact .nil

/-- Two bytes of which the second is 0 are never a piece. -/
theorem not_reads_pair {x : UInt8} : ¬ Reads D [] [x, 0] ws := by
  intro h
  generalize hbytes : [x, 0] = bytes at h
  cases h with
  | nil => cases hbytes
  | @cons id data input n t r ws hvar hchunk hrest hreads =>
      cases hvar with
      | short =>
          obtain ⟨_, htail⟩ := List.cons.inj hbytes
          obtain ⟨rfl, hnil⟩ := List.cons.inj htail
          have hdata : data = [] := (List.append_eq_nil_iff.mp hnil.symm).1
          rw [hdata] at hchunk
          cases hchunk
      | long => simp at hbytes

/-- A cut piece takes the beginning of what follows. -/
theorem Cut.swallows {id data : Bytes} {n : Nat} {t : UInt8} (hid : Var id n)
    (h : Cut s.definition (UInt16.ofNat n) (DataType.ofCode t) data) :
    ∃ k, 0 < k ∧ k < 0x8000 ∧ ∀ front x ws, front.length = k →
      ¬ Reads s.definition [] (id ++ t :: (data ++ (front ++ [x, 0]))) ws := by
  obtain ⟨htype, hnot, len, value, m, rfl, hvar, hshort⟩ := h
  refine ⟨m - value.length, Nat.sub_pos_of_lt hshort,
    Nat.lt_of_le_of_lt (Nat.sub_le ..) hvar.lt, fun front x ws hfront h => ?_⟩
  have hlen : (value ++ front).length = m := by
    rw [List.length_append, hfront]
    omega
  have hchunk : Chunk s.definition (UInt16.ofNat n) (DataType.ofCode t) (len ++ (value ++ front))
      ⟨none, (value ++ front).length, ((value ++ front) ++ [x, 0]).length, [x, 0]⟩ := by
    rw [htype]
    exact .binarySkipped hnot (hlen ▸ hvar)
  obtain ⟨_, _, hpair⟩ := (Reads.single hid hchunk rfl).split (by simpa using h)
  exact not_reads_pair hpair

end Unique

/-! ## What a record needs -/

section Needed

variable {s : Store} {ws : List Write}

theorem WireRecord.reads_string [Platform] {D : Definitions} {q : WireRecord}
    (h : DataType.ofCode q.type = some .string) :
    ∃ ws, (∀ rest, Reads D rest q.bytes ws) ∧ ∀ a ∈ ws, a.dpID = UInt16.ofNat q.dpID := by
  have hchunk (rest : Bytes) :
      Chunk D (UInt16.ofNat q.dpID) (DataType.ofCode q.type) (q.len ++ q.data)
        ⟨stringSetter (q.data.takeWhile (· ≠ 0)), q.data.length, (q.data ++ rest).length, rest⟩ :=
    h ▸ .string q.lenVar
  refine ⟨Record.writes ⟨stringSetter (q.data.takeWhile (· ≠ 0)), 0, 0, []⟩ D
    (UInt16.ofNat q.dpID) (DataType.ofCode q.type), fun rest => ?_,
    fun a ha => Record.dpID_of_mem_writes ha⟩
  have hpiece := Reads.single q.idVar (hchunk rest) rfl
  exact hpiece

theorem exists_front {bs : Bytes} {k : Nat} (hlast : bs.getLast? = some 0)
    (hlen : bs.length = k + 2) : ∃ front x, bs = front ++ [x, 0] ∧ front.length = k := by
  obtain ⟨bs', rfl⟩ := List.getLast?_eq_some_iff.mp hlast
  have hne : bs' ≠ [] := by
    rintro rfl
    simp at hlen
  obtain ⟨front, x, rfl⟩ := (List.eq_nil_or_concat' bs').resolve_left hne
  exact ⟨front, x, by simp, by simpa using hlen⟩

theorem getLast?_zeros (n : Nat) :
    ([0] ++ 3 :: ([UInt8.ofNat (0x80 + n / 256 % 128), UInt8.ofNat n] ++
      List.replicate n 0)).getLast? = some 0 := by
  cases n with
  | zero => rfl
  | succ n =>
      rw [List.replicate_succ', ← List.cons_append, ← List.append_assoc, ← List.append_assoc,
        List.getLast?_concat]

/-- A string of which the parser may lose the first bytes. -/
theorem exists_filler [Platform] {D : Definitions} {k : Nat} (hpos : 0 < k) (hk : k < 0x8000) :
    ∃ (q : WireRecord) (ws : List Write), (∀ rest, Reads D rest q.bytes ws) ∧
      (∀ a ∈ ws, a.dpID = 0) ∧ ∃ front x, q.bytes = front ++ [x, 0] ∧ front.length = k := by
  have hid : Var [0] 0 := .short (by decide)
  rcases Nat.lt_or_ge 1 k with hlong | hone
  · -- a length in two bytes: id, type and length are four bytes and the data end the record
    have hvar := Var.ofNat_long (n := k - 2) (by omega)
    have hdata : Var [UInt8.ofNat (0x80 + (k - 2) / 256 % 128), UInt8.ofNat (k - 2)]
        (List.replicate (k - 2) (0 : UInt8)).length := by
      rwa [List.length_replicate]
    let q : WireRecord := ⟨[0], 0, 3, _, List.replicate (k - 2) 0, hid, hdata⟩
    obtain ⟨ws, hreads, hws⟩ := WireRecord.reads_string (D := D) (q := q) rfl
    refine ⟨q, ws, hreads, hws, exists_front (getLast?_zeros (k - 2)) ?_⟩
    simp only [q, WireRecord.bytes, List.length_append, List.length_cons, List.length_nil,
      List.length_replicate]
    omega
  · obtain rfl : k = 1 := by omega
    let q : WireRecord := ⟨[0], 0, 3, [0], [], hid, .short (by decide)⟩
    obtain ⟨ws, hreads, hws⟩ := WireRecord.reads_string (D := D) (q := q) rfl
    exact ⟨q, ws, hreads, hws, [0], 3, rfl, rfl⟩

/-- The values on which no request is pending and on which every write shows: the reset
keeps the change flag that it got, and an upload clears the others. -/
def quiet (s : Store) : Store :=
  s.map (fun p => { p with readFlag := .old, change := p.dpID ≠ dpidDefaultBoolReset }) fun _ => rfl

theorem property_quiet {id : UInt16} {p : PropertyConf} (h : (quiet s).property id = some p) :
    p.readFlag = .old ∧ p.change = decide (id ≠ dpidDefaultBoolReset) := by
  rw [quiet, Store.property_map] at h
  obtain ⟨q, hq, rfl⟩ := Option.map_eq_some_iff.mp h
  obtain ⟨_, rfl⟩ := Store.property_eq_some.mp hq
  exact ⟨rfl, rfl⟩

theorem definition_quiet : (quiet s).definition = s.definition := by
  funext id
  rw [Store.definition, quiet, Store.property_map, Option.map_map]
  rfl

theorem not_requests_quiet {id : UInt16} : ¬ (quiet s).Requests id := by
  rintro ⟨p, hp, hflag⟩
  rw [(property_quiet hp).1] at hflag
  cases hflag

theorem consume_quiet {id : UInt16} : consume (quiet s) id = quiet s :=
  consume_eq_self fun _ hp => (property_quiet hp).1

theorem parseEnd_quiet [Platform] {result : Int} :
    parseEnd (quiet s) result = .ok ⟨quiet s, [], false⟩ := by
  rw [parseEnd_plain not_requests_quiet not_requests_quiet, consume_quiet, consume_quiet]

/-- Every write shows in the store that the parser leaves. -/
theorem eq_nil_of_quiet [Platform] {result : Int} {r : Received}
    (htaken : Taken (quiet s).definition ws)
    (hend : parseEnd (writeAll (quiet s) ws) result = .ok r) (hstore : r.store = quiet s) :
    ws = [] := by
  refine List.eq_nil_iff_forall_not_mem.mpr fun a ha => ?_
  have hraised := raised_of_mem htaken ha
  obtain ⟨p, hp⟩ : ∃ p, (quiet s).property a.dpID = some p := by
    have hacc := htaken (quiet s) rfl a ha
    rw [Store.accepts] at hacc
    cases hp : (quiet s).property a.dpID with
    | none =>
        rw [hp] at hacc
        cases hacc
    | some p => exact ⟨p, rfl⟩
  exact hraised.shows hend (hstore ▸ hp) (property_quiet hp)

theorem Undisturbed.skipped [Platform] {r : WireRecord} (h : Undisturbed s.definition r) :
    r.Skipped s.definition := by
  have halone := (h (quiet s) [] [] 0 definition_quiet nofun).2
  rw [show frame ([] ++ []) = 0x31 :: [] from rfl, receive_eq .nil, writeAll_nil, parseEnd_quiet]
    at halone
  obtain ⟨rr, hparse, hstore⟩ := map_eq_ok.mp halone
  rw [show frame ([] ++ r :: []) = 0x31 :: (r.bytes ++ []) from rfl, List.append_nil] at hparse
  obtain ⟨ws, hreads, hend⟩ := receive_eq_ok.mp hparse
  obtain rfl := eq_nil_of_quiet hreads.taken hend hstore
  rw [definition_quiet] at hreads
  rcases hreads.follow with hskip | ⟨front, id, n, t, data, hbytes, hfront, hid, hcut⟩
  · exact hskip
  · obtain ⟨k, hpos, hk, hswallow⟩ := hcut.swallows hid
    obtain ⟨q, ws, hq, hws, front', x, hqbytes, hlen⟩ :=
      exists_filler (D := s.definition) hpos hk
    have hboth := (h (quiet s) [] [q] 0 definition_quiet fun q' hq' => by
      rw [List.mem_singleton.mp hq']
      exact ⟨ws, hq⟩).2
    have hplain {id : UInt16} (hne : id ≠ 0) : ¬ (writeAll (quiet s) ws).Requests id := by
      rw [Store.Requests, property_writeAll_of_ne fun a ha hid => hne (hid.symm.trans (hws a ha))]
      exact not_requests_quiet
    have hreads : Reads (quiet s).definition [] (q.bytes ++ []) ws := by
      rw [definition_quiet, List.append_nil]
      exact hq []
    rw [show frame ([] ++ [q]) = 0x31 :: (q.bytes ++ []) from rfl, receive_eq hreads,
      parseEnd_plain (hplain (by decide)) (hplain (by decide))] at hboth
    obtain ⟨_, hparse, _⟩ := map_eq_ok.mp hboth
    rw [show frame ([] ++ [r, q]) = 0x31 :: (r.bytes ++ (q.bytes ++ [])) from rfl] at hparse
    obtain ⟨ws', hreads', _⟩ := receive_eq_ok.mp hparse
    rw [definition_quiet, hbytes, hqbytes, List.append_nil, List.append_assoc] at hreads'
    obtain ⟨ws₂, _, hlast⟩ := (hfront _).split hreads'
    rw [List.append_assoc, List.cons_append] at hlast
    exact absurd hlast (hswallow front' x ws₂ hlen)

/-- A record leaves the frames around it undisturbed exactly where it is skipped. -/
theorem undisturbed_iff [Platform] (s : Store) (r : WireRecord) :
    Undisturbed s.definition r ↔ r.Skipped s.definition :=
  ⟨Undisturbed.skipped, WireRecord.Skipped.undisturbed⟩

end Needed

/-! ## Records of the expected lengths -/

section Regular

variable {D : Definitions} {r : WireRecord}

/-- The lengths that the `switch` expects, and for a number a datapoint. -/
def WireRecord.Regular (D : Definitions) (r : WireRecord) : Prop :=
  match DataType.ofCode r.type with
  | some .bool => r.len.length = 1 ∧ r.data.length = 1
  | some .num => D (UInt16.ofNat r.dpID) ≠ none ∧ r.len.length = 1 ∧
      1 ≤ r.data.length ∧ r.data.length ≤ 4
  | some .enum => r.len.length = 1 ∧ 1 ≤ r.data.length ∧ r.data.length ≤ 4
  | some .string => True
  | some .binary => True
  | none => False

theorem WireRecord.short_len (h : r.len.length = 1) :
    ∃ b : UInt8, r.len = [b] ∧ b.toNat = r.data.length := by
  obtain ⟨id, dpID, type, len, data, hid, hlen⟩ := r
  dsimp only at h ⊢
  generalize hn : data.length = n at hlen
  cases hlen with
  | @short b => exact ⟨b, rfl, rfl⟩
  | long => cases h

theorem intWidth_eq {b : UInt8} (h : 1 ≤ b.toNat ∧ b.toNat ≤ 4) : intWidth b = b.toNat := by
  obtain ⟨n, hn, rfl⟩ : ∃ n, n < 256 ∧ b = UInt8.ofNat n := ⟨b.toNat, b.toNat_lt, by simp⟩
  have hb : (UInt8.ofNat n).toNat = n := by
    rw [UInt8.toNat_ofNat']
    omega
  rw [hb] at h ⊢
  obtain rfl | rfl | rfl | rfl : n = 1 ∨ n = 2 ∨ n = 3 ∨ n = 4 := by omega
  · rfl
  · rfl
  · rfl
  · rfl

variable [Platform]

/-- A regular record is one piece. -/
theorem WireRecord.Regular.chunk (h : r.Regular D) :
    ∃ w, ∀ rest, ∃ r', Chunk D (UInt16.ofNat r.dpID) (DataType.ofCode r.type) (r.len ++ r.data) r' ∧
      r'.rest = rest ∧ r'.setter = w := by
  rw [WireRecord.Regular] at h
  cases htype : DataType.ofCode r.type with
  | none =>
      rw [htype] at h
      exact h.elim
  | some type =>
      rw [htype] at h
      cases type with
      | bool =>
          obtain ⟨b, hb, _⟩ := WireRecord.short_len h.1
          obtain ⟨value, hvalue⟩ := List.length_eq_one_iff.mp h.2
          rw [hb, hvalue]
          exact ⟨_, fun rest => ⟨_, .bool, rfl, rfl⟩⟩
      | num =>
          obtain ⟨hdefined, hlen, hdata⟩ := h
          obtain ⟨d, hd⟩ := Option.ne_none_iff_exists'.mp hdefined
          obtain ⟨b, hb, hn⟩ := WireRecord.short_len hlen
          rw [hb]
          rw [← hn] at hdata
          exact ⟨_, fun rest => ⟨_, .num hd (hn.symm.trans (intWidth_eq hdata).symm), rfl, rfl⟩⟩
      | enum =>
          obtain ⟨hlen, hdata⟩ := h
          obtain ⟨b, hb, hn⟩ := WireRecord.short_len hlen
          rw [hb]
          rw [← hn] at hdata
          exact ⟨_, fun rest => ⟨_, .enum (hn.symm.trans (intWidth_eq hdata).symm), rfl, rfl⟩⟩
      | string => exact ⟨_, fun rest => ⟨_, .string r.lenVar, rfl, rfl⟩⟩
      | binary =>
          by_cases hd : D.type (UInt16.ofNat r.dpID) = some .binary
          · exact ⟨_, fun rest => ⟨_, .binary hd r.lenVar, rfl, rfl⟩⟩
          · exact ⟨_, fun rest => ⟨_, .binarySkipped hd r.lenVar, rfl, rfl⟩⟩

theorem WireRecord.Regular.reads (h : r.Regular D) :
    ∃ r', ∀ rest, Reads D rest r.bytes
      (Record.writes r' D (UInt16.ofNat r.dpID) (DataType.ofCode r.type)) := by
  obtain ⟨w, hw⟩ := h.chunk
  refine ⟨⟨w, 0, 0, []⟩, fun rest => ?_⟩
  obtain ⟨r', hchunk, hrest, rfl⟩ := hw rest
  exact Record.writes_congr (r := r') rfl ▸ Reads.single r.idVar hchunk hrest

/-- A regular record that the device does not know is skipped. -/
theorem WireRecord.Regular.skipped (h : r.Regular D) (hign : r.Ignored D) : r.Skipped D := by
  have hne : D.type (UInt16.ofNat r.dpID) ≠ DataType.ofCode r.type := by
    rcases hign with hnone | hnone | hne
    · rw [Definitions.type, hnone]
      intro htype
      rw [WireRecord.Regular, ← htype] at h
      exact h
    · rw [WireRecord.Regular, hnone] at h
      exact h.elim
    · exact hne.symm
  obtain ⟨r', hreads⟩ := h.reads
  intro rest
  rw [← Record.writes_of_ne (r := r') hne]
  exact hreads rest

end Regular

/-! ## An unknown type -/

/-- A record of the type 9 whose bytes after the type are a record of a bool. -/
def unknownType : WireRecord :=
  ⟨[5], 5, 9, [3], [0, 1, 1], .short (by decide), .short (by decide)⟩

/-- It writes the datapoint 3. -/
theorem not_undisturbed_unknownType : ¬ ∀ (P : Platform) (s : Store) (pre post : List WireRecord)
    (r : WireRecord) (result : Int), r.Ignored s.definition →
    @iotDataPointParseReceiveDatapoints P s (some (frame (pre ++ r :: post))) result ≠
        .error .index ∧
      Received.store <$>
          @iotDataPointParseReceiveDatapoints P s (some (frame (pre ++ r :: post))) result =
        Received.store <$>
          @iotDataPointParseReceiveDatapoints P s (some (frame (pre ++ post))) result := by
  intro h
  let s : Store := ⟨[{ zeroProperty with dpID := 3 }], by decide, by decide⟩
  have hsame := (h zeroPlatform s [] [] unknownType 0 (Or.inr (Or.inl rfl))).2
  have hvalues := congrArg
    (fun x => (Store.properties <$> x).map fun ps => ps.map PropertyConf.boolValue) hsame
  exact absurd hvalues (by decide)

end IotKit.Datapoint
