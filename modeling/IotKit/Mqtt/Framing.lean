import IotKit.Mqtt.Read

/-!
# Framing of received packets

A run of `iotx_mc_cycle` calls on a stream of packets.  As long as the client
stays connected the stream is at the beginning of a packet.  `CallOk` is what the
next call must guarantee there: one packet is consumed, kept where it fits, and
a packet that does not fit runs no handler and is not taken for a CONNACK.

All but the last but one hold of every stream.  A handler may run after a dropped
packet, so framing holds exactly of the streams whose packets all fit
(`framing_iff`).
-/

namespace IotKit.Mqtt

open CMemory Runs

/-- The client and the stream between two calls. -/
structure Link where
  client : McClient
  stream : Bytes

/-- The environment of one call. -/
structure Call where
  reads : List ReadOutcome
  mallocs : List Bool
  indeterminate : Nat

def cycleStep (handlers : Handlers) (l : Link) (call : Call) : Checked Link := do
  let r ← iotxMcCycle handlers l.client call.indeterminate ⟨l.stream, call.reads, call.mallocs⟩
  .ok ⟨r.client, r.world.stream⟩

/-- The handlers leave the read buffer in its place. -/
def KeepsBuffer (handlers : Handlers) : Prop :=
  ∀ {h : PacketHandler} {c c' : McClient} {rc : Int},
    handlers h c = .ok (rc, c') → c'.bufRead.length = c.bufRead.length

/-- What a call guarantees where the stream is at the packets `ps`. -/
structure CallOk (c : McClient) (ps : List Packet) : Prop where
  read : ∀ {p rest}, ps = p :: rest → ∀ packetType reads mallocs,
    ∃ r, iotxMcReadPacket c.bufRead packetType ⟨stream ps, reads, mallocs⟩ = .ok r ∧
      (r.rc = successReturn → r.header = true →
        r.world.stream = stream rest ∧
        (p.Fits c.bufRead.length →
          r.packetType = headerType p.header ∧ r.bufRead.take p.minimal.length = p.minimal))
  cycle : ∀ {p rest}, ps = p :: rest → ¬ p.Fits c.bufRead.length →
    ∀ handlers indeterminate reads mallocs r,
      iotxMcCycle handlers c indeterminate ⟨stream ps, reads, mallocs⟩ = .ok r → r.handled = none
  wait : ∀ reads mallocs r, iotxMcWaitConnack c.bufRead ⟨stream ps, reads, mallocs⟩ = .ok r →
    r.accepted = true → ∃ before p rest, ps = before ++ p :: rest ∧ p.Fits c.bufRead.length ∧
      headerType p.header = connack ∧ r.bufRead.take p.minimal.length = p.minimal ∧
      r.world.stream = stream rest

/-- In every run, each call made while the client is connected is made at the
beginning of a packet and guarantees `CallOk`. -/
def Framing (bufsize : Nat) (packets : List Packet) : Prop :=
  ∀ (handlers : Handlers) (c : McClient) (calls : List Call) (l : Link),
    KeepsBuffer handlers → c.bufRead.length = bufsize →
    run (cycleStep handlers) ⟨c, stream packets⟩ calls = .ok l →
    l.client.clientState = .connected →
    ∃ ps, ps <:+ packets ∧ l.stream = stream ps ∧ CallOk l.client ps

/-! ## Streams of packets -/

theorem stream_append (ps qs : List Packet) : stream (ps ++ qs) = stream ps ++ stream qs :=
  List.flatMap_append

theorem eq_nil_of_stream_eq_nil {ps : List Packet} (h : stream ps = []) : ps = [] := by
  cases ps with
  | nil => rfl
  | cons p ps => cases h

/-- The rest of the stream tells which packets are left. -/
theorem suffix_eq_of_stream_eq {packets ps qs : List Packet} (hps : ps <:+ packets)
    (hqs : qs <:+ packets) (h : stream ps = stream qs) : ps = qs := by
  have hsame : ∀ {ps qs : List Packet}, ps <:+ qs → stream ps = stream qs → ps = qs := by
    rintro ps _ ⟨before, rfl⟩ h
    rw [stream_append] at h
    have hlen := congrArg List.length h
    rw [List.length_append] at hlen
    have hnil : stream before = [] := List.length_eq_zero_iff.mp (by omega)
    rw [eq_nil_of_stream_eq_nil hnil, List.nil_append]
  rcases List.suffix_or_suffix_of_suffix hps hqs with hsuf | hsuf
  · exact hsame hsuf h
  · exact (hsame hsuf h.symm).symm

/-! ## What one call guarantees -/

section Calls

variable {c : McClient} {ps : List Packet} (h5 : 5 ≤ c.bufRead.length)
include h5

theorem read_callOk {p : Packet} {rest : List Packet} (hps : ps = p :: rest)
    (packetType : Nat) (reads : List ReadOutcome) (mallocs : List Bool) :
    ∃ r, iotxMcReadPacket c.bufRead packetType ⟨stream ps, reads, mallocs⟩ = .ok r ∧
      (r.rc = successReturn → r.header = true →
        r.world.stream = stream rest ∧
        (p.Fits c.bufRead.length →
          r.packetType = headerType p.header ∧ r.bufRead.take p.minimal.length = p.minimal)) := by
  obtain ⟨r, hrun, hat⟩ := @iotxMcReadPacket_readAt c.bufRead ps ⟨stream ps, reads, mallocs⟩
    packetType h5 rfl
  refine ⟨r, hrun, fun hrc hheader => ?_⟩
  subst hps
  cases hat with
  | idle _ _ => cases hheader
  | failed hfail _ => exact absurd hrc hfail
  | kept _ _ hbytes hrest => exact ⟨hrest, fun _ => ⟨rfl, hbytes⟩⟩
  | dropped hbig _ hrest => exact ⟨hrest, fun hfits => absurd hfits hbig⟩

omit h5 in
/-- The loop takes only a packet in the buffer for the CONNACK, since the type of
the packet before a dropped one is not that of a CONNACK. -/
theorem waitLoop_accepted : ∀ {left : Nat} {buf : Bytes} {packetType : Nat} {w : World}
    {ps : List Packet} {r : WaitResult}, 5 ≤ buf.length → packetType ≠ connack →
    w.stream = stream ps → waitLoop left buf packetType w = .ok r → r.accepted = true →
    ∃ before p rest, ps = before ++ p :: rest ∧ p.Fits buf.length ∧
      headerType p.header = connack ∧ r.bufRead.take p.minimal.length = p.minimal ∧
      r.world.stream = stream rest := by
  intro left
  induction left with
  | zero =>
      intro buf packetType w ps r h5 htype hstream hrun haccepted
      rw [waitLoop] at hrun
      obtain ⟨r₁, _, hrun⟩ := bind_eq_ok.mp hrun
      split at hrun <;> cases hrun <;> cases haccepted
  | succ left ih =>
      intro buf packetType w ps r h5 htype hstream hrun haccepted
      rw [waitLoop] at hrun
      obtain ⟨r₁, hread, hrun⟩ := bind_eq_ok.mp hrun
      obtain ⟨r₁', hread', hat⟩ := iotxMcReadPacket_readAt packetType h5 hstream
      obtain rfl := Except.ok.inj (hread'.symm.trans hread)
      dsimp only at hrun
      cases hat with
      | failed hfail _ =>
          rw [if_pos hfail] at hrun
          cases hrun
          cases haccepted
      | idle hlen hsame =>
          rw [if_neg (not_not_intro rfl)] at hrun
          dsimp only at hrun
          rw [if_neg zero_ne_connack] at hrun
          exact hlen ▸ ih (hlen ▸ h5) zero_ne_connack hsame hrun haccepted
      | @kept p ps buf' w' hfits hlen hbytes hrest =>
          rw [if_neg (not_not_intro rfl)] at hrun
          split at hrun
          next hconnack =>
            obtain ⟨_, _, hrun⟩ := bind_eq_ok.mp hrun
            cases hrun
            exact ⟨[], p, ps, rfl, hfits, hconnack, hbytes, hrest⟩
          next hother =>
            obtain ⟨before, q, rest, rfl, hq⟩ := ih (hlen ▸ h5) hother hrest hrun haccepted
            exact ⟨p :: before, q, rest, rfl, hlen ▸ hq⟩
      | @dropped p ps buf' w' _ hlen hrest =>
          rw [if_neg (not_not_intro rfl), if_neg htype] at hrun
          obtain ⟨before, q, rest, rfl, hq⟩ := ih (hlen ▸ h5) htype hrest hrun haccepted
          exact ⟨p :: before, q, rest, rfl, hlen ▸ hq⟩

/-- Where the next packet fits, the call guarantees all of it. -/
theorem callOk_of_fits (hfits : ∀ p ∈ ps, p.Fits c.bufRead.length) : CallOk c ps := by
  refine ⟨fun hps => read_callOk h5 hps, ?_, ?_⟩
  · intro p rest hps hbig
    exact absurd (hfits p (hps ▸ List.mem_cons_self)) hbig
  · intro reads mallocs r hrun haccepted
    exact waitLoop_accepted h5 (by decide) rfl hrun haccepted

end Calls

/-! ## Runs -/

theorem dispatch_keeps {handlers : Handlers} {c : McClient} {packetType : Nat} {w : World}
    {r : CycleResult} (hkeep : KeepsBuffer handlers)
    (hrun : dispatch handlers c packetType w = .ok r) :
    r.client.bufRead.length = c.bufRead.length ∧ r.world = w := by
  have hcall : ∀ h, (handlers h c >>= fun p =>
      Except.ok (CycleResult.mk p.1 p.2 (some h) w) : Checked CycleResult) = .ok r →
      r.client.bufRead.length = c.bufRead.length ∧ r.world = w := by
    intro h hrun
    obtain ⟨⟨rc, c'⟩, hhandler, hrun⟩ := bind_eq_ok.mp hrun
    cases hrun
    exact ⟨hkeep hhandler, rfl⟩
  have hskip : ∀ rc, Except.ok (CycleResult.mk rc c none w) = (.ok r : Checked CycleResult) →
      r.client.bufRead.length = c.bufRead.length ∧ r.world = w := by
    intro rc hrun
    cases hrun
    exact ⟨rfl, rfl⟩
  dsimp only [dispatch] at hrun
  repeat' split at hrun
  · exact hskip _ hrun
  · exact hcall _ hrun
  · exact hcall _ hrun
  · exact hcall _ hrun
  · exact hcall _ hrun
  · exact hskip _ hrun
  · exact hskip _ hrun

/-- A call disconnects, leaves the stream, or takes one packet off it. -/
theorem iotxMcCycle_cases {handlers : Handlers} {c : McClient} {indeterminate : Nat} {w : World}
    {ps : List Packet} {r : CycleResult} (hkeep : KeepsBuffer handlers)
    (h5 : 5 ≤ c.bufRead.length) (hstream : w.stream = stream ps)
    (hrun : iotxMcCycle handlers c indeterminate w = .ok r) :
    r.client.bufRead.length = c.bufRead.length ∧
      (r.client.clientState ≠ .connected ∨ r.world.stream = stream ps ∨
        ∃ p rest, ps = p :: rest ∧ r.world.stream = stream rest) := by
  rw [iotxMcCycle] at hrun
  split at hrun
  next hstate =>
    cases hrun
    exact ⟨rfl, Or.inl hstate⟩
  next hconnected =>
    generalize hc' : (if iotxMcKeepaliveProbeMax < c.keepaliveProbes then
      { iotxMcSetClientState c .disconnected with keepaliveProbes := 0 } else c) = c' at hrun
    have hbuf : c'.bufRead = c.bufRead := by
      rw [← hc']
      split <;> rfl
    obtain ⟨r₁, hread, hrun⟩ := bind_eq_ok.mp hrun
    rw [hbuf] at hread
    obtain ⟨r₁', hread', hat⟩ :=
      iotxMcReadPacket_readAt indeterminate h5 hstream
    obtain rfl := Except.ok.inj (hread'.symm.trans hread)
    dsimp only at hrun
    cases hat with
    | failed hfail hlen =>
        rw [if_pos hfail] at hrun
        cases hrun
        exact ⟨hlen, Or.inl nofun⟩
    | idle hlen hsame =>
        rw [if_neg (not_not_intro rfl)] at hrun
        dsimp only at hrun
        rw [if_pos (show 0 = cptReserved from rfl)] at hrun
        cases hrun
        exact ⟨hlen, Or.inr (Or.inl hsame)⟩
    | @kept p ps buf' w' _ hlen _ hrest =>
        rw [if_neg (not_not_intro rfl)] at hrun
        split at hrun
        · cases hrun
          exact ⟨hlen, Or.inr (Or.inr ⟨p, ps, rfl, hrest⟩)⟩
        · obtain ⟨hkept, rfl⟩ := dispatch_keeps hkeep hrun
          exact ⟨hkept.trans hlen, Or.inr (Or.inr ⟨p, ps, rfl, hrest⟩)⟩
    | @dropped p ps buf' w' _ hlen hrest =>
        rw [if_neg (not_not_intro rfl)] at hrun
        split at hrun
        · cases hrun
          exact ⟨hlen, Or.inr (Or.inr ⟨p, ps, rfl, hrest⟩)⟩
        · obtain ⟨hkept, rfl⟩ := dispatch_keeps hkeep hrun
          exact ⟨hkept.trans hlen, Or.inr (Or.inr ⟨p, ps, rfl, hrest⟩)⟩

/-- The stream of a connected client is at the beginning of a packet. -/
structure Aligned (bufsize : Nat) (packets : List Packet) (l : Link) : Prop where
  size : l.client.bufRead.length = bufsize
  boundary : l.client.clientState = .connected → ∃ ps, ps <:+ packets ∧ l.stream = stream ps

theorem cycleStep_aligned {handlers : Handlers} {bufsize : Nat} {packets : List Packet}
    {l l' : Link} {call : Call} (hkeep : KeepsBuffer handlers) (h5 : 5 ≤ bufsize)
    (haligned : Aligned bufsize packets l) (hstep : cycleStep handlers l call = .ok l') :
    Aligned bufsize packets l' := by
  obtain ⟨r, hrun, hstep⟩ := bind_eq_ok.mp hstep
  cases hstep
  by_cases hstate : l.client.clientState = .connected
  · obtain ⟨ps, hsuf, hstream⟩ := haligned.boundary hstate
    obtain ⟨hlen, hcases⟩ := iotxMcCycle_cases hkeep (haligned.size ▸ h5) hstream hrun
    refine ⟨hlen.trans haligned.size, fun hconnected => ?_⟩
    rcases hcases with hlost | hsame | ⟨p, rest, rfl, hrest⟩
    · exact absurd hconnected hlost
    · exact ⟨ps, hsuf, hsame⟩
    · exact ⟨rest, (List.suffix_cons p rest).trans hsuf, hrest⟩
  · rw [iotxMcCycle, if_pos hstate] at hrun
    cases hrun
    exact ⟨haligned.size, fun hconnected => absurd hconnected hstate⟩

/-! ## A run to a packet that does not fit -/

def idleHandlers : Handlers := fun _ c => .ok (successReturn, c)

theorem idleHandlers_keepsBuffer : KeepsBuffer idleHandlers := by
  intro h c c' rc hrun
  cases hrun
  rfl

theorem dispatch_idle (c : McClient) (packetType : Nat) (w : World) :
    ∃ r, dispatch idleHandlers c packetType w = .ok r ∧ r.client = c ∧ r.world = w := by
  dsimp only [dispatch]
  repeat' split
  all_goals exact ⟨_, rfl, rfl, rfl⟩

theorem dispatch_idle_publish (c : McClient) (w : World) :
    dispatch idleHandlers c publish w = .ok ⟨successReturn, c, some .publish, w⟩ := rfl

/-- A client that takes packets off the stream. -/
structure Ready (bufsize : Nat) (c : McClient) : Prop where
  connected : c.clientState = .connected
  probes : c.keepaliveProbes = 0
  size : c.bufRead.length = bufsize

/-- Undisturbed, a call takes one packet off the stream.  After a packet that does
not fit, the value that was in `packetType` selects the handler. -/
theorem iotxMcCycle_all {bufsize : Nat} {c : McClient} (p : Packet) (ps : List Packet)
    (h5 : 5 ≤ bufsize) (hready : Ready bufsize c) (indeterminate : Nat) :
    ∃ r, iotxMcCycle idleHandlers c indeterminate ⟨stream (p :: ps), [], []⟩ = .ok r ∧
      Ready bufsize r.client ∧ r.world.stream = stream ps ∧
      (¬ p.Fits bufsize → indeterminate = publish → r.handled = some .publish) := by
  obtain ⟨hconnected, hprobes, hsize⟩ := hready
  obtain ⟨r₁, hread, hat⟩ := @iotxMcReadPacket_readAt c.bufRead (p :: ps)
    ⟨stream (p :: ps), [], []⟩ indeterminate (hsize ▸ h5) rfl
  have hall := iotxMcReadPacket_all hread
  have hstill : ¬ iotxMcKeepaliveProbeMax < c.keepaliveProbes := by
    rw [hprobes]
    exact Nat.not_lt_zero _
  rw [iotxMcCycle, if_neg (not_not_intro hconnected), if_neg hstill]
  dsimp only
  rw [hread, ok_bind, if_neg (not_not_intro hall.1)]
  cases hat with
  | idle _ _ => cases hall.2
  | failed hfail _ => exact absurd hall.1 hfail
  | kept hfits hlen _ hrest =>
      dsimp only
      split
      · exact ⟨_, rfl, ⟨hconnected, hprobes, hlen.trans hsize⟩, hrest,
          fun hbig => absurd (hsize ▸ hfits) hbig⟩
      · obtain ⟨r, hrun, hclient, hworld⟩ := dispatch_idle _ _ _
        refine ⟨r, hrun, ?_, hworld ▸ hrest, fun hbig => absurd (hsize ▸ hfits) hbig⟩
        rw [hclient]
        exact ⟨hconnected, rfl, hlen.trans hsize⟩
  | dropped _ hlen hrest =>
      dsimp only
      split
      next hzero =>
        exact ⟨_, rfl, ⟨hconnected, hprobes, hlen.trans hsize⟩, hrest,
          fun _ hpub => absurd (hzero.symm.trans hpub) (by decide)⟩
      next hsome =>
        obtain ⟨r, hrun, hclient, hworld⟩ := dispatch_idle _ _ _
        refine ⟨r, hrun, ?_, hworld ▸ hrest, ?_⟩
        · rw [hclient]
          exact ⟨hconnected, rfl, hlen.trans hsize⟩
        · rintro _ rfl
          rw [dispatch_idle_publish] at hrun
          cases hrun
          rfl

theorem run_all {bufsize : Nat} {c : McClient} (h5 : 5 ≤ bufsize) (hready : Ready bufsize c)
    (before ps : List Packet) :
    ∃ calls l, run (cycleStep idleHandlers) ⟨c, stream (before ++ ps)⟩ calls = .ok l ∧
      Ready bufsize l.client ∧ l.stream = stream ps := by
  induction before generalizing c with
  | nil => exact ⟨[], _, rfl, hready, rfl⟩
  | cons p before ih =>
      obtain ⟨r, hrun, hready', hrest, _⟩ :=
        iotxMcCycle_all p (before ++ ps) h5 hready 0
      obtain ⟨calls, l, hruns, hl⟩ := ih hready'
      refine ⟨⟨[], [], 0⟩ :: calls, l, run_cons.mpr ⟨⟨r.client, stream (before ++ ps)⟩, ?_, hruns⟩,
        hl⟩
      show iotxMcCycle idleHandlers c 0 ⟨stream (p :: (before ++ ps)), [], []⟩ >>= _ = _
      rw [hrun, ok_bind, hrest]

def readyClient (bufsize : Nat) : McClient where
  packetId := 0
  keepaliveProbes := 0
  bufSend := []
  bufRead := List.replicate bufsize 0
  subHandle := Vector.replicate _ ⟨none, ⟨none, 0⟩⟩
  pingMark := 0
  clientState := .connected
  listPubWaitAck := []
  handleEvent := ⟨none, 0⟩

theorem readyClient_ready (bufsize : Nat) : Ready bufsize (readyClient bufsize) :=
  ⟨rfl, rfl, List.length_replicate⟩

theorem not_framing_of_big {bufsize : Nat} {packets : List Packet} {p : Packet}
    (h5 : 5 ≤ bufsize) (hmem : p ∈ packets) (hbig : ¬ p.Fits bufsize) :
    ¬ Framing bufsize packets := by
  intro hframing
  obtain ⟨before, rest, rfl⟩ := List.append_of_mem hmem
  obtain ⟨calls, l, hrun, hready, hstream⟩ :=
    run_all h5 (readyClient_ready bufsize) before (p :: rest)
  obtain ⟨ps, hsuf, hstream', hok⟩ := hframing idleHandlers _ calls l idleHandlers_keepsBuffer
    (readyClient_ready bufsize).size hrun hready.connected
  obtain rfl := suffix_eq_of_stream_eq hsuf (List.suffix_append before (p :: rest))
    (hstream'.symm.trans hstream)
  obtain ⟨r, hcycle, _, _, hhandled⟩ :=
    iotxMcCycle_all p rest h5 hready publish
  have hnone := hok.cycle rfl (hready.size ▸ hbig) idleHandlers publish [] [] r hcycle
  rw [hhandled hbig rfl] at hnone
  cases hnone

/-- Framing holds of exactly the streams whose packets fit the buffer. -/
theorem framing_iff (bufsize : Nat) (h5 : 5 ≤ bufsize) (packets : List Packet) :
    Framing bufsize packets ↔ ∀ p ∈ packets, p.Fits bufsize := by
  constructor
  · intro hframing p hmem
    exact Decidable.byContradiction fun hbig => not_framing_of_big h5 hmem hbig hframing
  · intro hfits handlers c calls l hkeep hsize hrun hconnected
    have haligned : Aligned bufsize packets l :=
      run_invariant (G := fun _ _ => True)
        (fun hinv _ hstep => cycleStep_aligned hkeep h5 hinv hstep)
        ⟨hsize, fun _ => ⟨packets, List.suffix_refl _, rfl⟩⟩ guarded_true hrun
    obtain ⟨ps, hsuf, hstream⟩ := haligned.boundary hconnected
    refine ⟨ps, hsuf, hstream, callOk_of_fits (haligned.size ▸ h5) fun p hmem => ?_⟩
    rw [haligned.size]
    exact hfits p (hsuf.subset hmem)

/-- A PUBLISH of seven bytes. -/
def sevenBytes : Packet where
  header := 0x30
  lengthBytes := [5]
  body := [0, 1, 65, 66, 67]
  typed := by decide
  denotes := LengthBytes.last (b := 5) (by decide)
  short := by decide

theorem framing_iff_sevenBytes :
    Framing 16 [sevenBytes] ↔ ∀ p ∈ [sevenBytes], p.Fits 16 :=
  framing_iff 16 (by decide) [sevenBytes]

/-- With a buffer of five bytes a handler may run after that packet. -/
theorem not_framing_sevenBytes : ¬ ∀ (bufsize : Nat) (packets : List Packet), 5 ≤ bufsize →
    Framing bufsize packets := by
  intro h
  refine not_framing_of_big (Nat.le_refl 5) (List.mem_singleton_self sevenBytes) ?_
    (h 5 [sevenBytes] (Nat.le_refl 5))
  rw [Packet.Fits, Packet.minimal_length, mqttPacketEncode]
  decide

end IotKit.Mqtt
