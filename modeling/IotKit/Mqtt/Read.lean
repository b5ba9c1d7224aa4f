import IotKit.Lib.Run
import IotKit.Mqtt.Client

/-!
# Receiving packets

`iotx_mc_read_packet` and its two callers.  A packet that fits the read buffer is
left there, and a larger one is read and dropped.  On both paths the function
returns `SUCCESS_RETURN`, but only the first sets `*packet_type`.  `iotx_mc_cycle`
passes the address of an uninitialised variable, so after a dropped packet it
acts on whatever that variable held; `iotx_mc_wait_CONNACK` passes one that is
zero at first.

The indeterminate value of that variable is an argument of the model.
-/

namespace IotKit.Mqtt

open CMemory Runs

/-! ## The source -/

/-- The loop of `iotx_mc_decode_packet`: the result, `*value` and the world. -/
def decodeLoop : Nat → Nat → Nat → Nat → World → Int × Nat × World
  | 0, _, value, _, w => (mqttPacketReadError, value, w)
  | left + 1, len, value, multiplier, w =>
      -- one byte arrives exactly where the result is 1
      match w.read 1 with
      | (_, [i], w) =>
          let value := value + i.toNat % 128 * multiplier
          if 128 ≤ i.toNat then decodeLoop left (len + 1) value (multiplier * 128) w
          else ((len + 1 : Nat), value, w)
      | (_, _, w) => (mqttNetworkError, value, w)

/-- `iotx_mc_decode_packet`. -/
def iotxMcDecodePacket (w : World) : Int × Nat × World := decodeLoop 4 0 0 1 w

/-- What one call of `iotx_mc_read_packet` leaves: its result, `*packet_type`, the
read buffer, and whether it read a header byte. -/
structure ReadResult where
  rc : Int
  packetType : Nat
  bufRead : Bytes
  header : Bool
  world : World

/-- The end of `iotx_mc_read_packet` for a packet larger than the buffer.  The
buffer holds the first `len` bytes of the packet. -/
def dropPacket (buf : Bytes) (packetType len remLen : Nat) (w : World) : Checked ReadResult :=
  let needReadLen := buf.length - len
  match w.read needReadLen with
  | (rc, data, w) => do
      let buf ← storeN buf len data
      if rc ≠ needReadLen then .ok ⟨failReturn, packetType, buf, true, w⟩
      else
        let remainDataLen := remLen - needReadLen
        match w.malloc with
        | (false, w) => .ok ⟨failReturn, packetType, buf, true, w⟩
        | (true, w) =>
            match w.read remainDataLen with
            | (rc, _, w) =>
                if rc ≠ remainDataLen then .ok ⟨failReturn, packetType, buf, true, w⟩
                else .ok ⟨successReturn, packetType, buf, true, w⟩

/-- The end of `iotx_mc_read_packet` for a packet that fits. -/
def keepPacket (buf : Bytes) (packetType len remLen : Nat) (w : World) : Checked ReadResult :=
  if 0 < remLen then
    match w.read remLen with
    | (rc, data, w) => do
        let buf ← storeN buf len data
        if rc ≠ remLen then .ok ⟨failReturn, packetType, buf, true, w⟩
        else do
          let header ← load buf 0
          .ok ⟨successReturn, headerType header, buf, true, w⟩
  else do
    let header ← load buf 0
    .ok ⟨successReturn, headerType header, buf, true, w⟩

/-- `iotx_mc_read_packet` from the remaining length on, which is put back into the
buffer. -/
def readRest (buf : Bytes) (packetType remLen : Nat) (w : World) : Checked ReadResult := do
  let digits := mqttPacketEncode remLen
  let buf ← storeN buf 1 digits
  let len := 1 + digits.length
  if 0 < remLen ∧ buf.length < remLen + len then dropPacket buf packetType len remLen w
  else keepPacket buf packetType len remLen w

/-- `iotx_mc_read_packet`. -/
def iotxMcReadPacket (buf : Bytes) (packetType : Nat) (w : World) : Checked ReadResult :=
  match w.read 1 with
  | (rc, data, w) =>
      if rc = 0 then .ok ⟨successReturn, 0, buf, false, w⟩
      else if rc ≠ 1 then .ok ⟨failReturn, packetType, buf, false, w⟩
      else do
        let buf ← storeN buf 0 data
        match iotxMcDecodePacket w with
        | (rc, remLen, w) =>
            if rc < 0 then .ok ⟨rc, packetType, buf, true, w⟩
            else readRest buf packetType remLen w

/-- `iotx_mc_handle_recv_CONNACK`. -/
def iotxMcHandleRecvConnack (buf : Bytes) : Checked Int := do
  let (rc, connackRc) ← mqttDeserializeConnack buf
  if rc ≠ 1 then .ok mqttConnectAckPacketError
  else
    .ok <| match connackRc.toNat with
      | 0 => successReturn
      | 1 => mqttConanckUnacceptableProtocolVersionError
      | 2 => mqttConnackIdentifierRejectedError
      | 3 => mqttConnackServerUnavailableError
      | 4 => mqttConnackBadUserdataError
      | 5 => mqttConnackNotAuthorizedError
      | _ => mqttConnackUnknownError

/-- The result of `iotx_mc_wait_CONNACK`, and whether it took the buffer for a
CONNACK. -/
structure WaitResult where
  rc : Int
  accepted : Bool
  bufRead : Bytes
  world : World

/-- The loop of `iotx_mc_wait_CONNACK`, with `left` packets still allowed. -/
def waitLoop : Nat → Bytes → Nat → World → Checked WaitResult
  | left, buf, packetType, w => do
      let r ← iotxMcReadPacket buf packetType w
      if r.rc ≠ successReturn then .ok ⟨mqttNetworkError, false, r.bufRead, r.world⟩
      else
        match left with
        | 0 => .ok ⟨mqttNetworkError, false, r.bufRead, r.world⟩
        | left + 1 =>
            if r.packetType = connack then do
              let rc ← iotxMcHandleRecvConnack r.bufRead
              .ok ⟨rc, true, r.bufRead, r.world⟩
            else waitLoop left r.bufRead r.packetType r.world

/-- `iotx_mc_wait_CONNACK`. -/
def iotxMcWaitConnack (buf : Bytes) (w : World) : Checked WaitResult :=
  waitLoop waitConnackMax buf 0 w

/-- The packet handlers that `iotx_mc_cycle` calls. -/
inductive PacketHandler where
  | puback
  | suback
  | publish
  | unsuback
deriving DecidableEq, Repr

/-- The handlers as functions on the client. -/
abbrev Handlers := PacketHandler → McClient → Checked (Int × McClient)

structure CycleResult where
  rc : Int
  client : McClient
  handled : Option PacketHandler
  world : World

/-- The `switch` of `iotx_mc_cycle`. -/
def dispatch (handlers : Handlers) (c : McClient) (packetType : Nat) (w : World) :
    Checked CycleResult :=
  let call := fun h => do
    let (rc, c) ← handlers h c
    .ok ⟨rc, c, some h, w⟩
  if packetType = connack then .ok ⟨successReturn, c, none, w⟩
  else if packetType = puback then call .puback
  else if packetType = suback then call .suback
  else if packetType = publish then call .publish
  else if packetType = unsuback then call .unsuback
  else if packetType = pingresp then .ok ⟨successReturn, c, none, w⟩
  else .ok ⟨failReturn, c, none, w⟩

/-- `iotx_mc_cycle`.  `indeterminate` is what `packetType` holds before the call
of `iotx_mc_read_packet`. -/
def iotxMcCycle (handlers : Handlers) (c : McClient) (indeterminate : Nat) (w : World) :
    Checked CycleResult :=
  if c.clientState ≠ .connected then .ok ⟨mqttStateError, c, none, w⟩
  else do
    let c := if iotxMcKeepaliveProbeMax < c.keepaliveProbes then
        { iotxMcSetClientState c .disconnected with keepaliveProbes := 0 }
      else c
    let r ← iotxMcReadPacket c.bufRead indeterminate w
    let c := { c with bufRead := r.bufRead }
    if r.rc ≠ successReturn then
      .ok ⟨mqttNetworkError, iotxMcSetClientState c .disconnected, none, r.world⟩
    else if r.packetType = cptReserved then .ok ⟨successReturn, c, none, r.world⟩
    else dispatch handlers { c with pingMark := 0, keepaliveProbes := 0 } r.packetType r.world

/-! ## The remaining length on the wire -/

/-- One step of the loop: the next byte of the stream is taken, or the read
fails. -/
theorem decodeLoop_step {left len value multiplier : Nat} {w : World} {b : UInt8} {rest : Bytes}
    (hstream : w.stream = b :: rest) {rc : Int} {value' : Nat} {w' : World}
    (hrun : decodeLoop (left + 1) len value multiplier w = (rc, value', w')) :
    rc < 0 ∨ ∃ w₁ : World, w₁.stream = rest ∧
      (if 128 ≤ b.toNat then
        decodeLoop left (len + 1) (value + b.toNat % 128 * multiplier) (multiplier * 128) w₁
      else ((len + 1 : Nat), value + b.toNat % 128 * multiplier, w₁)) = (rc, value', w') := by
  rw [decodeLoop] at hrun
  split at hrun
  next rc₁ i w₁ hread =>
    rcases w.read_cases 1 hread with ⟨_, _, hsplit⟩ | ⟨_, hnone⟩
    · rw [hstream] at hsplit
      obtain ⟨rfl, htail⟩ := List.cons_eq_cons.mp hsplit
      exact Or.inr ⟨w₁, htail.symm, hrun⟩
    · cases hnone
  next =>
    cases hrun
    exact Or.inl (by decide)

/-- Reading the length fails, or takes its bytes off the stream. -/
theorem decodeLoop_lengthBytes {bs : Bytes} {v : Nat} (h : LengthBytes bs v) :
    ∀ {left len value multiplier : Nat} {w : World} {rest : Bytes}, bs.length ≤ left →
      w.stream = bs ++ rest → ∀ {rc : Int} {value' : Nat} {w' : World},
      decodeLoop left len value multiplier w = (rc, value', w') →
      rc < 0 ∨ (0 < rc ∧ value' = value + v * multiplier ∧ w'.stream = rest) := by
  induction h with
  | @last b hb =>
      intro left len value multiplier w rest hleft hstream rc value' w' hrun
      cases left with
      | zero => cases hleft
      | succ left =>
          rcases decodeLoop_step hstream hrun with hneg | ⟨w₁, htail, hrun⟩
          · exact Or.inl hneg
          · rw [Nat.mod_eq_of_lt hb, if_neg (Nat.not_le.mpr hb)] at hrun
            cases hrun
            exact Or.inr ⟨by omega, rfl, htail⟩
  | @more b bs v hb _ ih =>
      intro left len value multiplier w rest hleft hstream rc value' w' hrun
      cases left with
      | zero => cases hleft
      | succ left =>
          rcases decodeLoop_step hstream hrun with hneg | ⟨w₁, htail, hrun⟩
          · exact Or.inl hneg
          · rw [if_pos hb] at hrun
            rcases ih (Nat.le_of_succ_le_succ hleft) htail hrun with hneg | ⟨hpos, hval, hrest⟩
            · exact Or.inl hneg
            · refine Or.inr ⟨hpos, ?_, hrest⟩
              rw [hval, Nat.add_mul, Nat.add_assoc, Nat.mul_comm 128 v, Nat.mul_assoc,
                Nat.mul_comm 128 multiplier]

/-- Undisturbed, it does not fail. -/
theorem decodeLoop_all {bs : Bytes} {v : Nat} (h : LengthBytes bs v) :
    ∀ {left len value multiplier : Nat} {w : World} {rest : Bytes}, bs.length ≤ left →
      w.reads = [] → w.stream = bs ++ rest →
      decodeLoop left len value multiplier w =
        (((len + bs.length : Nat) : Int), value + v * multiplier, { w with stream := rest }) := by
  induction h with
  | @last b hb =>
      intro left len value multiplier w rest hleft hreads hstream
      cases left with
      | zero => cases hleft
      | succ left =>
          have hread := World.read_all [b] hreads hstream
          rw [decodeLoop, show w.read 1 = _ from hread]
          simp only [if_neg (Nat.not_le.mpr hb), Nat.mod_eq_of_lt hb]
          rfl
  | @more b bs v hb _ ih =>
      intro left len value multiplier w rest hleft hreads hstream
      cases left with
      | zero => cases hleft
      | succ left =>
          have hread := World.read_all [b] hreads hstream
          rw [decodeLoop, show w.read 1 = _ from hread]
          simp only [if_pos hb, List.append_eq]
          rw [ih (w := { w with stream := bs ++ rest }) (Nat.le_of_succ_le_succ hleft) hreads rfl,
            List.length_cons, Nat.add_assoc, Nat.add_comm 1, Nat.add_mul, Nat.add_assoc,
            Nat.mul_comm 128 v, Nat.mul_assoc, Nat.mul_comm 128 multiplier]

/-! ## One packet -/

/-- A packet fits where its shortest form is not longer than the buffer. -/
def Packet.Fits (bufsize : Nat) (p : Packet) : Prop := p.minimal.length ≤ bufsize

instance (bufsize : Nat) (p : Packet) : Decidable (p.Fits bufsize) :=
  inferInstanceAs (Decidable (_ ≤ _))

theorem Packet.minimal_length (p : Packet) :
    p.minimal.length = p.body.length + (1 + (mqttPacketEncode p.body.length).length) := by
  rw [Packet.minimal, List.length_cons, List.length_append]
  omega

/-- The body of a packet is read into the buffer, or the read fails. -/
theorem keepPacket_cases {buf body rest : Bytes} {header : UInt8} {len : Nat} {w : World}
    (packetType : Nat) (hstream : w.stream = body ++ rest) (hfit : body.length + len ≤ buf.length)
    (hlen : 0 < len) (hheader : buf[0]? = some header) :
    ∃ r, keepPacket buf packetType len body.length w = .ok r ∧ r.header = true ∧
      r.bufRead.length = buf.length ∧
      (r.rc ≠ successReturn ∨ (r.rc = successReturn ∧ r.packetType = headerType header ∧
        r.bufRead.take (len + body.length) = buf.take len ++ body ∧ r.world.stream = rest)) := by
  rw [keepPacket]
  split
  next hpos =>
    generalize hread : w.read body.length = x
    obtain ⟨rc, data, w₁⟩ := x
    have hle : data.length ≤ body.length := World.read_le hread
    simp only [storeN_of_le (show len + data.length ≤ buf.length by omega), ok_bind]
    have hstored := storeN_length (storeN_of_le (show len + data.length ≤ buf.length by omega))
    split
    next hshort => exact ⟨_, rfl, rfl, hstored, Or.inl failReturn_ne_success⟩
    next hfull =>
      have hheader' : load (buf.take len ++ (data ++ buf.drop (len + data.length))) (0 : Nat) =
          .ok header := by
        rw [load_eq_ok, List.getElem?_append_left (by rw [List.length_take]; omega),
          List.getElem?_take_of_lt hlen, hheader]
      rcases w.read_cases _ hread with ⟨hrc, _, hsplit⟩ | ⟨hneg, _⟩
      · have hdata : data.length = body.length := by omega
        rw [hstream] at hsplit
        obtain ⟨rfl, hrest⟩ := List.append_inj hsplit hdata.symm
        refine ⟨⟨_, _, _, _, w₁⟩, ?_, rfl, hstored, Or.inr ⟨rfl, rfl, ?_, hrest.symm⟩⟩
        · rw [show load _ 0 = .ok header from hheader', ok_bind]
          rfl
        · have htake : (buf.take len).length = len := by rw [List.length_take]; omega
          show List.take (len + body.length) _ = _
          rw [← List.append_assoc, List.take_left' (by rw [List.length_append, htake])]
      · omega
  next hzero =>
    obtain rfl : body = [] := List.length_eq_zero_iff.mp (Nat.eq_zero_of_not_pos hzero)
    refine ⟨⟨_, _, _, _, w⟩, ?_, rfl, rfl, Or.inr ⟨rfl, rfl, ?_, hstream⟩⟩
    · rw [show load buf 0 = .ok header from load_eq_ok.mpr hheader, ok_bind]
      rfl
    · rw [List.length_nil, Nat.add_zero, List.append_nil]

/-- The body of a packet that does not fit is taken off the stream, or the read
fails. -/
theorem dropPacket_cases {buf body rest : Bytes} {len : Nat} {w : World} (packetType : Nat)
    (hstream : w.stream = body ++ rest) (hlen : len ≤ buf.length)
    (hbig : buf.length < body.length + len) :
    ∃ r, dropPacket buf packetType len body.length w = .ok r ∧ r.header = true ∧
      r.bufRead.length = buf.length ∧
      (r.rc ≠ successReturn ∨ (r.rc = successReturn ∧ r.packetType = packetType ∧
        r.world.stream = rest)) := by
  rw [dropPacket]
  generalize hread : w.read (buf.length - len) = x
  obtain ⟨rc, data, w₁⟩ := x
  have hle : data.length ≤ buf.length - len := World.read_le hread
  simp only [storeN_of_le (show len + data.length ≤ buf.length by omega), ok_bind]
  have hstored := storeN_length (storeN_of_le (show len + data.length ≤ buf.length by omega))
  split
  next hshort => exact ⟨_, rfl, rfl, hstored, Or.inl failReturn_ne_success⟩
  next hfull =>
    generalize hmalloc : w₁.malloc = y
    obtain ⟨ok, w₂⟩ := y
    cases ok with
    | false => exact ⟨_, rfl, rfl, hstored, Or.inl failReturn_ne_success⟩
    | true =>
        have hsame : w₂.stream = w₁.stream := by
          rw [World.malloc] at hmalloc
          split at hmalloc <;> cases hmalloc <;> rfl
        dsimp only
        generalize hread' : w₂.read (body.length - (buf.length - len)) = z
        obtain ⟨rc', data', w₃⟩ := z
        dsimp only
        split
        next hshort => exact ⟨_, rfl, rfl, hstored, Or.inl failReturn_ne_success⟩
        next hfull' =>
          refine ⟨_, rfl, rfl, hstored, Or.inr ⟨rfl, rfl, ?_⟩⟩
          rcases w.read_cases _ hread with ⟨hrc, _, hsplit⟩ | ⟨hneg, _⟩
          · rcases w₂.read_cases _ hread' with ⟨hrc', _, hsplit'⟩ | ⟨hneg', _⟩
            · rw [← hsame, hsplit', hstream, ← List.append_assoc] at hsplit
              exact (List.append_inj hsplit (by rw [List.length_append]; omega)).2.symm
            · omega
          · omega

/-- What one call of `iotx_mc_read_packet` does where the stream is at the packets
`ps`. -/
inductive ReadAt (bufsize packetType : Nat) : List Packet → ReadResult → Prop where
  /-- Nothing has arrived. -/
  | idle {ps : List Packet} {buf : Bytes} {w : World} : buf.length = bufsize →
      w.stream = stream ps → ReadAt bufsize packetType ps ⟨successReturn, 0, buf, false, w⟩
  /-- A read or the allocation failed. -/
  | failed {ps : List Packet} {rc : Int} {buf : Bytes} {header : Bool} {packetType' : Nat}
      {w : World} : rc ≠ successReturn → buf.length = bufsize →
      ReadAt bufsize packetType ps ⟨rc, packetType', buf, header, w⟩
  /-- The packet is in the buffer. -/
  | kept {p : Packet} {ps : List Packet} {buf : Bytes} {w : World} : p.Fits bufsize →
      buf.length = bufsize → buf.take p.minimal.length = p.minimal → w.stream = stream ps →
      ReadAt bufsize packetType (p :: ps) ⟨successReturn, headerType p.header, buf, true, w⟩
  /-- The packet is dropped. -/
  | dropped {p : Packet} {ps : List Packet} {buf : Bytes} {w : World} : ¬ p.Fits bufsize →
      buf.length = bufsize → w.stream = stream ps →
      ReadAt bufsize packetType (p :: ps) ⟨successReturn, packetType, buf, true, w⟩

theorem readRest_readAt {buf : Bytes} {bufsize packetType : Nat} {p : Packet} {ps : List Packet}
    {w : World} (h5 : 5 ≤ bufsize) (hsize : buf.length = bufsize)
    (hhead : buf[0]? = some p.header) (hstream : w.stream = p.body ++ stream ps) :
    ∃ r, readRest buf packetType p.body.length w = .ok r ∧
      ReadAt bufsize packetType (p :: ps) r := by
  obtain ⟨hpos, hshort⟩ := p.encode_length
  have hfit : 1 + (mqttPacketEncode p.body.length).length ≤ buf.length := by omega
  have hstore : storeN buf 1 (mqttPacketEncode p.body.length) = .ok _ := storeN_of_le hfit
  have hlen := (storeN_length hstore).trans hsize
  rw [readRest, hstore, ok_bind]
  generalize hbuf : buf.take 1 ++ (mqttPacketEncode p.body.length ++
    buf.drop (1 + (mqttPacketEncode p.body.length).length)) = buf' at hlen
  obtain ⟨b, tail, rfl⟩ := List.exists_cons_of_length_pos (show 0 < buf.length by omega)
  obtain rfl : b = p.header := Option.some.inj hhead
  have hhead' : buf'[0]? = some p.header := by rw [← hbuf]; rfl
  have htake : buf'.take (1 + (mqttPacketEncode p.body.length).length) =
      p.header :: mqttPacketEncode p.body.length := by
    rw [← hbuf, ← List.append_assoc]
    exact List.take_left' (by rw [List.length_append]; rfl)
  dsimp only
  split
  next hbig =>
    obtain ⟨r, hrun, hheader, hsame, hcases⟩ := dropPacket_cases packetType
      hstream (by omega) hbig.2
    refine ⟨r, hrun, ?_⟩
    obtain ⟨rc, packetType', bufRead, header, w'⟩ := r
    obtain rfl : header = true := hheader
    rcases hcases with hfail | ⟨rfl, rfl, hrest⟩
    · exact .failed hfail (hsame.trans hlen)
    · refine .dropped ?_ (hsame.trans hlen) hrest
      rw [Packet.Fits, p.minimal_length]
      omega
  next hsmall =>
    have hroom : p.body.length + (1 + (mqttPacketEncode p.body.length).length) ≤ buf'.length := by
      omega
    obtain ⟨r, hrun, hheader, hsame, hcases⟩ := keepPacket_cases packetType
      hstream hroom (by omega) hhead'
    refine ⟨r, hrun, ?_⟩
    obtain ⟨rc, packetType', bufRead, header, w'⟩ := r
    obtain rfl : header = true := hheader
    rcases hcases with hfail | ⟨rfl, rfl, hbytes, hrest⟩
    · exact .failed hfail (hsame.trans hlen)
    · refine .kept ?_ (hsame.trans hlen) ?_ hrest
      · rw [Packet.Fits, p.minimal_length, ← hlen]
        exact hroom
      · rw [p.minimal_length, Nat.add_comm, Packet.minimal, ← List.cons_append, ← htake]
        exact hbytes

theorem iotxMcReadPacket_readAt {buf : Bytes} {ps : List Packet} {w : World} (packetType : Nat)
    (h5 : 5 ≤ buf.length) (hstream : w.stream = stream ps) :
    ∃ r, iotxMcReadPacket buf packetType w = .ok r ∧ ReadAt buf.length packetType ps r := by
  rw [iotxMcReadPacket]
  generalize hread : w.read 1 = x
  obtain ⟨rc, data, w₁⟩ := x
  dsimp only
  split
  next hidle =>
    refine ⟨_, rfl, .idle rfl ?_⟩
    rcases w.read_cases 1 hread with ⟨hrc, _, hsplit⟩ | ⟨hneg, _⟩
    · obtain rfl : data = [] := List.length_eq_zero_iff.mp (by omega)
      rw [← hstream, hsplit, List.nil_append]
    · omega
  next hsome =>
  split
  next hfail => exact ⟨_, rfl, .failed failReturn_ne_success rfl⟩
  next hone =>
    obtain ⟨b, rfl, hsplit⟩ : ∃ b, data = [b] ∧ w.stream = b :: w₁.stream := by
      rcases w.read_cases 1 hread with ⟨hrc, _, hsplit⟩ | ⟨hneg, _⟩
      · obtain ⟨b, rfl⟩ := List.length_eq_one_iff.mp (show data.length = 1 by omega)
        exact ⟨b, rfl, hsplit⟩
      · omega
    rw [hstream] at hsplit
    cases ps with
    | nil => cases hsplit
    | cons p ps =>
        rw [stream_cons, Packet.bytes, List.cons_append, List.append_assoc] at hsplit
        obtain ⟨rfl, htail⟩ := List.cons_eq_cons.mp hsplit
        have hfit : (0 : Nat) + [p.header].length ≤ buf.length := by
          rw [List.length_singleton]
          omega
        have hstore : storeN buf 0 [p.header] = .ok _ := storeN_of_le hfit
        have hlen := storeN_length hstore
        rw [hstore, ok_bind]
        generalize hbuf : buf.take 0 ++ ([p.header] ++ buf.drop (0 + [p.header].length)) = buf'
          at hlen
        have hhead : buf'[0]? = some p.header := by rw [← hbuf]; rfl
        generalize hdecode : iotxMcDecodePacket w₁ = y
        obtain ⟨rc', remLen, w₂⟩ := y
        dsimp only
        rcases decodeLoop_lengthBytes p.denotes p.short htail.symm hdecode with
          hneg | ⟨hpos, hval, hrest⟩
        · rw [if_pos hneg]
          exact ⟨_, rfl, .failed (Int.ne_of_lt hneg) hlen⟩
        · obtain rfl : remLen = p.body.length := by omega
          rw [if_neg (Int.not_lt.mpr (Int.le_of_lt hpos))]
          exact readRest_readAt h5 hlen hhead hrest

/-! ## A broker that sends everything -/

theorem keepPacket_all {buf body rest : Bytes} {packetType len : Nat} {r : ReadResult}
    (hrun : keepPacket buf packetType len body.length ⟨body ++ rest, [], []⟩ = .ok r) :
    r.rc = successReturn ∧ r.header = true := by
  rw [keepPacket, World.read_all body rfl rfl] at hrun
  dsimp only at hrun
  split at hrun
  · obtain ⟨_, _, hrun⟩ := bind_eq_ok.mp hrun
    rw [if_neg (not_not_intro rfl)] at hrun
    obtain ⟨_, _, hrun⟩ := bind_eq_ok.mp hrun
    cases hrun
    exact ⟨rfl, rfl⟩
  · obtain ⟨_, _, hrun⟩ := bind_eq_ok.mp hrun
    cases hrun
    exact ⟨rfl, rfl⟩

theorem dropPacket_all {buf body rest : Bytes} {packetType len : Nat} {r : ReadResult}
    (hbig : buf.length < body.length + len)
    (hrun : dropPacket buf packetType len body.length ⟨body ++ rest, [], []⟩ = .ok r) :
    r.rc = successReturn ∧ r.header = true := by
  generalize hneed : buf.length - len = need
  have hcut : (body.take need).length = need := by
    rw [List.length_take]
    omega
  have hsplit : body ++ rest = body.take need ++ (body.drop need ++ rest) := by
    rw [← List.append_assoc, List.take_append_drop]
  have hread := @World.read_all ⟨body ++ rest, [], []⟩ (body.take need) _ rfl hsplit
  have hread' := @World.read_all ⟨body.drop need ++ rest, [], []⟩ (body.drop need) _ rfl rfl
  rw [hcut] at hread
  rw [List.length_drop] at hread'
  rw [dropPacket, hneed, hread] at hrun
  obtain ⟨_, _, hrun⟩ := bind_eq_ok.mp hrun
  rw [if_neg (not_not_intro rfl)] at hrun
  dsimp only [World.malloc] at hrun
  rw [hread', if_neg (not_not_intro rfl)] at hrun
  cases hrun
  exact ⟨rfl, rfl⟩

/-- Undisturbed, the packet is read to its end. -/
theorem iotxMcReadPacket_all {buf : Bytes} {packetType : Nat} {p : Packet} {ps : List Packet}
    {r : ReadResult}
    (hrun : iotxMcReadPacket buf packetType ⟨stream (p :: ps), [], []⟩ = .ok r) :
    r.rc = successReturn ∧ r.header = true := by
  have hbytes : stream (p :: ps) = [p.header] ++ (p.lengthBytes ++ (p.body ++ stream ps)) := by
    rw [stream_cons, Packet.bytes, List.cons_append, List.append_assoc]
    rfl
  have hread : World.read ⟨stream (p :: ps), [], []⟩ 1 =
      (1, [p.header], ⟨p.lengthBytes ++ (p.body ++ stream ps), [], []⟩) :=
    World.read_all [p.header] rfl hbytes
  have hdecode : iotxMcDecodePacket ⟨p.lengthBytes ++ (p.body ++ stream ps), [], []⟩ =
      (((0 + p.lengthBytes.length : Nat) : Int), 0 + p.body.length * 1,
        ⟨p.body ++ stream ps, [], []⟩) := decodeLoop_all p.denotes p.short rfl rfl
  rw [Nat.mul_one, Nat.zero_add, Nat.zero_add] at hdecode
  rw [iotxMcReadPacket, hread] at hrun
  dsimp only at hrun
  rw [if_neg Int.one_ne_zero, if_neg (not_not_intro rfl)] at hrun
  obtain ⟨_, _, hrun⟩ := bind_eq_ok.mp hrun
  rw [hdecode] at hrun
  dsimp only at hrun
  rw [if_neg (Int.not_lt.mpr (Int.natCast_nonneg _)), readRest] at hrun
  obtain ⟨_, _, hrun⟩ := bind_eq_ok.mp hrun
  dsimp only at hrun
  split at hrun
  next hbig => exact dropPacket_all hbig.2 hrun
  next => exact keepPacket_all hrun

end IotKit.Mqtt
