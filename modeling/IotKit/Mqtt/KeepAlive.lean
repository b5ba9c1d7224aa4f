import IotKit.Mqtt.Yield

/-!
# The keep-alive

The probes count the pings that were not answered.  A ping adds one, a packet that
`iotx_mc_cycle` reads clears them, and above `IOTX_MC_KEEPALIVE_PROBE_MAX` it disconnects.  A
reconnection does not clear them, so a connection can be given up for pings that were sent on the
one before.  Nor does a packet that is dropped while `packetType`, which is not initialised,
holds 0.

`Watched` counts the pings of the current connection beside the client.
-/

namespace IotKit.Mqtt

open CMemory Runs Connect

/-! ## Specification -/

/-- A packet was read to its end. -/
def ReadResult.isPacket (r : ReadResult) : Bool :=
  r.rc = successReturn && r.header && headerType (r.bufRead.headD 0) ≠ cptReserved

/-- `iotx_mc_cycle` reads a packet. -/
def readsPacket (c : McClient) (i : Pass) : Bool :=
  c.clientState = .connected &&
    match iotxMcReadPacket c.bufRead i.indeterminate i.world with
    | .ok r => r.isPacket
    | .error _ => false

/-- A client and what happened to its connections: the pings since the current one was
established or brought its last packet, the pings of those that were given up when it was done,
and the most probes there were. -/
structure Watched where
  client : McClient
  pings : Nat
  gaveUp : List Nat
  peak : Nat

/-- A client that comes from `iotx_mc_init`. -/
structure Watched.Initial (s : Watched) : Prop where
  probes : s.client.keepaliveProbes = 0
  gaveUp : s.gaveUp = []
  peak : s.peak = 0

/-- The pings of the current connection when `iotx_mc_cycle` is called. -/
def Watched.pinged (s : Watched) (k : KeepaliveResult) : Nat :=
  if k.established then 0 else if k.pinged then s.pings + 1 else s.pings

/-- `iotx_mc_cycle` gives the connection up. -/
def GivesUp (c : McClient) : Prop :=
  c.clientState = .connected ∧ iotxMcKeepaliveProbeMax < c.keepaliveProbes

instance (c : McClient) : Decidable (GivesUp c) := inferInstanceAs (Decidable (_ ∧ _))

def Watched.after (s : Watched) (i : Pass) (r : PassResult) : Watched where
  client := r.client
  pings := if readsPacket r.entered i then 0 else s.pinged r.keepalive
  gaveUp := if GivesUp r.entered then s.pinged r.keepalive :: s.gaveUp else s.gaveUp
  peak := max s.peak (max r.keepalive.client.keepaliveProbes
    (max r.entered.keepaliveProbes r.client.keepaliveProbes))

/-- A pass on a client that is watched. -/
def watch (reconnectOpen : Bool) (connectData : ConnectData) (s : Watched) (i : Pass) :
    Checked Watched := do
  let r ← yieldPass reconnectOpen connectData s.client i
  .ok (s.after i r)

/-- A connection is given up only after more pings on it than there are probes. -/
def Patient (s : Watched) : Prop := ∀ pings ∈ s.gaveUp, iotxMcKeepaliveProbeMax < pings

/-- A connection is established only while there are no probes, and `iotx_mc_cycle` learns the
type of the packet it reads. -/
structure Steady (reconnectOpen : Bool) (connectData : ConnectData) (s : Watched) (i : Pass) :
    Prop where
  cleared : s.client.clientState = .disconnectedReconnecting → HookOk i.connect.preAuth →
    Received { s.client with pingMark := 0 } connectData i.connect →
      s.client.keepaliveProbes = 0
  learned : ∀ k c r, iotxMcKeepalive reconnectOpen connectData s.client i = .ok k →
    run appCall k.client i.callsBefore = .ok c → c.clientState = .connected →
      iotxMcReadPacket c.bufRead i.indeterminate i.world = .ok r → r.isPacket = true →
        r.packetType ≠ cptReserved

/-! ## What each part can do -/

/-- What `iotx_mc_keepalive_sub` can do. -/
inductive PingCases (c : McClient) (r : PingResult) : Prop where
  | skipped : r.sent = false → r.client = c → PingCases c r
  | failed : r.sent = false → Quiet c r.client →
      r.client.clientState ≠ .disconnectedReconnecting → PingCases c r
  | sent : r.sent = true → c.clientState = .connected → r.client.clientState = .connected →
      r.client.keepaliveProbes = c.keepaliveProbes + 1 → PingCases c r

theorem mqttKeepalive_sendsOnly {c c' : McClient} {writes : List Int} {rc : Int}
    (hrun : mqttKeepalive c writes = .ok (rc, c')) : SendsOnly c c' := by
  obtain ⟨⟨len, bufSend⟩, hser, hrun⟩ := bind_eq_ok.mp hrun
  have hsame := stored_length hser
  dsimp only at hrun
  split at hrun
  · cases hrun
    exact ⟨rfl, rfl, rfl, hsame⟩
  · obtain ⟨res, -, hrun⟩ := bind_eq_ok.mp hrun
    cases hrun
    exact ⟨rfl, rfl, rfl, hsame⟩

theorem iotxMcKeepaliveSub_cases {c : McClient} {expired : Bool} {writes : List Int}
    {r : PingResult} (hrun : iotxMcKeepaliveSub c expired writes = .ok r) : PingCases c r := by
  rw [iotxMcKeepaliveSub] at hrun
  split at hrun
  · cases hrun
    exact .skipped rfl rfl
  next hconnected =>
  have hstate := not_not.mp hconnected
  split at hrun
  · cases hrun
    exact .skipped rfl rfl
  obtain ⟨⟨rc, c₁⟩, hping, hrun⟩ := bind_eq_ok.mp hrun
  have honly := mqttKeepalive_sendsOnly hping
  have hstate₁ : c₁.clientState = .connected := honly.state.trans hstate
  dsimp only at hrun
  split at hrun
  · cases hrun
    split
    · exact .failed rfl ⟨honly.probes, nofun⟩ nofun
    · refine .failed rfl ⟨honly.probes, fun _ => hstate⟩ ?_
      dsimp only
      rw [hstate₁]
      exact nofun
  · cases hrun
    exact .sent rfl hstate hstate₁ (congrArg (· + 1) honly.probes)

/-- What `iotx_mc_keepalive` can do. -/
inductive KeepaliveCases (connectData : ConnectData) (c : McClient) (env : ConnectEnv)
    (k : KeepaliveResult) : Prop where
  | quiet : k.pinged = false → k.established = false → Quiet c k.client →
      KeepaliveCases connectData c env k
  | pinged : k.pinged = true → k.established = false → c.clientState = .connected →
      k.client.keepaliveProbes = c.keepaliveProbes + 1 → KeepaliveCases connectData c env k
  | established : k.established = true → c.clientState = .disconnectedReconnecting →
      HookOk env.preAuth → Received { c with pingMark := 0 } connectData env →
      k.client.keepaliveProbes = c.keepaliveProbes → KeepaliveCases connectData c env k

theorem iotxMcHandleReconnect_cases {c : McClient} {connectData : ConnectData} {env : ConnectEnv}
    {r : ConnectResult} (hrun : iotxMcHandleReconnect c connectData env = .ok r) :
    r.client.keepaliveProbes = c.keepaliveProbes ∧
      (r.client.clientState = c.clientState ∨
        r.client.clientState = .connected ∧ HookOk env.preAuth ∧ Received c connectData env) := by
  obtain ⟨r₁, hconnect, hrun⟩ := bind_eq_ok.mp hrun
  obtain ⟨hcases, hprobes⟩ := iotxMcConnect_cases hconnect
  cases hcases with
  | failed hnot hrc hsame hclosed =>
      rw [if_neg hrc] at hrun
      cases hrun
      exact ⟨hprobes, Or.inl hsame⟩
  | established hpre hreceived hconnected hpost =>
      split at hrun
      · cases hrun
        exact ⟨hprobes, Or.inr ⟨rfl, hpre, hreceived⟩⟩
      · cases hrun
        exact ⟨hprobes, Or.inr ⟨hconnected, hpre, hreceived⟩⟩

/-- A client that skipped its ping, or could not send it, goes on reconnecting. -/
theorem goOnReconnecting_cases {connectData : ConnectData} {c : McClient} {ping : PingResult}
    {env : ConnectEnv} {k : KeepaliveResult} (hsent : ping.sent = false)
    (hquiet : Quiet c ping.client)
    (hclient : ping.client.clientState = .disconnectedReconnecting → ping.client = c)
    (hrun : goOnReconnecting connectData ping env = .ok k) :
    KeepaliveCases connectData c env k := by
  rw [goOnReconnecting] at hrun
  split at hrun
  next hstate =>
    obtain ⟨r, hreconnect, hrun⟩ := bind_eq_ok.mp hrun
    cases hrun
    obtain rfl := hclient hstate
    obtain ⟨hprobes, hcases⟩ := iotxMcHandleReconnect_cases hreconnect
    rcases hcases with hsame | ⟨hconnected, hpre, hreceived⟩
    · have hnot : r.client.clientState ≠ .connected := by
        rw [hsame.trans hstate]
        exact nofun
      exact .quiet hsent (decide_eq_false hnot) ⟨hprobes, fun h => absurd h hnot⟩
    · exact .established (decide_eq_true hconnected) hstate hpre hreceived hprobes
  next =>
    cases hrun
    exact .quiet hsent rfl ⟨hquiet.probes, nofun⟩
  next =>
    cases hrun
    exact .quiet hsent rfl hquiet

theorem iotxMcKeepalive_cases {reconnectOpen : Bool} {connectData : ConnectData} {c : McClient}
    {i : Pass} {k : KeepaliveResult}
    (hrun : iotxMcKeepalive reconnectOpen connectData c i = .ok k) :
    KeepaliveCases connectData c i.connect k := by
  obtain ⟨ping, hping, hrun⟩ := bind_eq_ok.mp hrun
  cases iotxMcKeepaliveSub_cases hping with
  | skipped hsent hclient =>
      have hquiet : Quiet c ping.client := hclient ▸ .refl c
      split at hrun
      · cases hrun
        exact .quiet hsent rfl hquiet
      · exact goOnReconnecting_cases hsent hquiet (fun _ => hclient) hrun
  | failed hsent hquiet hstate =>
      split at hrun
      · cases hrun
        exact .quiet hsent rfl hquiet
      · exact goOnReconnecting_cases hsent hquiet (fun h => absurd h hstate) hrun
  | sent hsent hbefore hafter hprobes =>
      split at hrun
      · cases hrun
        exact .pinged hsent rfl hbefore hprobes
      · rw [goOnReconnecting, hafter] at hrun
        cases hrun
        exact .pinged hsent rfl hbefore hprobes

/-- What `iotx_mc_cycle` can do for a connected client that reads `read`. -/
inductive CycleCases (c : McClient) (read : ReadResult) (c' : McClient) : Prop where
  | gaveUp : iotxMcKeepaliveProbeMax < c.keepaliveProbes → c'.keepaliveProbes = 0 →
      c'.clientState ≠ .connected → CycleCases c read c'
  | lost : c'.keepaliveProbes ≤ c.keepaliveProbes → c'.clientState ≠ .connected →
      CycleCases c read c'
  | cleared : c'.keepaliveProbes = 0 → CycleCases c read c'
  | kept : c.keepaliveProbes ≤ iotxMcKeepaliveProbeMax → read.packetType = cptReserved →
      Quiet c c' → CycleCases c read c'

theorem iotxMcCycle_connected {subs : List SubInfo} {env : ReceiveEnv} {c : McClient}
    {indeterminate : Nat} {w : World} {r : CycleResult} (hstate : c.clientState = .connected)
    (hrun : iotxMcCycle (packetHandlers subs env) c indeterminate w = .ok r) :
    ∃ read, iotxMcReadPacket c.bufRead indeterminate w = .ok read ∧
      CycleCases c read r.client := by
  rw [iotxMcCycle, if_neg (not_not_intro hstate)] at hrun
  by_cases hmany : iotxMcKeepaliveProbeMax < c.keepaliveProbes
  · simp only [if_pos hmany] at hrun
    obtain ⟨read, hread, hrun⟩ := bind_eq_ok.mp hrun
    refine ⟨read, hread, ?_⟩
    split at hrun
    · cases hrun
      exact .gaveUp hmany rfl nofun
    split at hrun
    · cases hrun
      exact .gaveUp hmany rfl nofun
    · have hquiet := dispatch_quiet hrun
      exact .gaveUp hmany hquiet.probes fun h => nomatch hquiet.connected h
  · simp only [if_neg hmany] at hrun
    obtain ⟨read, hread, hrun⟩ := bind_eq_ok.mp hrun
    refine ⟨read, hread, ?_⟩
    split at hrun
    · cases hrun
      exact .lost (Nat.le_refl _) nofun
    split at hrun
    next htype =>
      cases hrun
      exact .kept (Nat.not_lt.mp hmany) htype ⟨rfl, id⟩
    next => exact .cleared (dispatch_quiet hrun).probes

/-- Where the read brings no packet, `iotx_mc_cycle` moves a connected client to disconnected
exactly if it gives the connection up. -/
theorem givesUp_iff_disconnected {handlers : Handlers} {c : McClient} {indeterminate : Nat}
    {w : World} {read : ReadResult} {r : CycleResult} (hstate : c.clientState = .connected)
    (hread : iotxMcReadPacket c.bufRead indeterminate w = .ok read)
    (hrc : read.rc = successReturn) (htype : read.packetType = cptReserved)
    (hrun : iotxMcCycle handlers c indeterminate w = .ok r) :
    GivesUp c ↔ r.client.clientState = .disconnected := by
  rw [iotxMcCycle, if_neg (not_not_intro hstate)] at hrun
  by_cases hmany : iotxMcKeepaliveProbeMax < c.keepaliveProbes
  · simp only [if_pos hmany] at hrun
    obtain ⟨read', hread', hrun⟩ := bind_eq_ok.mp hrun
    cases hread.symm.trans hread'
    rw [if_neg (not_not_intro hrc), if_pos htype] at hrun
    cases hrun
    exact iff_of_true ⟨hstate, hmany⟩ rfl
  · simp only [if_neg hmany] at hrun
    obtain ⟨read', hread', hrun⟩ := bind_eq_ok.mp hrun
    cases hread.symm.trans hread'
    rw [if_neg (not_not_intro hrc), if_pos htype] at hrun
    cases hrun
    refine iff_of_false (fun h => hmany h.2) fun hlost => ?_
    cases hstate.symm.trans hlost

/-- A connection that is given up is gone after `iotx_mc_cycle`, whatever is read. -/
theorem GivesUp.not_connected {subs : List SubInfo} {env : ReceiveEnv} {c : McClient}
    {indeterminate : Nat} {w : World} {r : CycleResult} (h : GivesUp c)
    (hrun : iotxMcCycle (packetHandlers subs env) c indeterminate w = .ok r) :
    r.client.clientState ≠ .connected := by
  rw [iotxMcCycle, if_neg (not_not_intro h.1)] at hrun
  simp only [if_pos h.2] at hrun
  obtain ⟨read, -, hrun⟩ := bind_eq_ok.mp hrun
  split at hrun
  · cases hrun
    nofun
  split at hrun
  · cases hrun
    nofun
  · exact fun hconnected => nomatch (dispatch_quiet hrun).connected hconnected

/-! ## One pass -/

section Passes

variable {reconnectOpen : Bool} {connectData : ConnectData} {s s' : Watched} {i : Pass}

/-- What a pass is made of. -/
structure Passed (reconnectOpen : Bool) (connectData : ConnectData) (c : McClient) (i : Pass)
    (r : PassResult) : Prop where
  keepalive : iotxMcKeepalive reconnectOpen connectData c i = .ok r.keepalive
  before : run appCall r.keepalive.client i.callsBefore = .ok r.entered
  cycle : ∃ r', iotxMcCycle (packetHandlers i.subs i.receive) r.entered i.indeterminate i.world =
    .ok r' ∧ Quiet r'.client r.client

theorem yieldPass_passed {c : McClient} {r : PassResult}
    (hrun : yieldPass reconnectOpen connectData c i = .ok r) :
    Passed reconnectOpen connectData c i r := by
  obtain ⟨k, hkeepalive, hrun⟩ := bind_eq_ok.mp hrun
  obtain ⟨entered, hbefore, hrun⟩ := bind_eq_ok.mp hrun
  obtain ⟨r', hcycle, hrun⟩ := bind_eq_ok.mp hrun
  obtain ⟨swept, hswept, hrun⟩ := bind_eq_ok.mp hrun
  obtain ⟨client, hafter, hrun⟩ := bind_eq_ok.mp hrun
  cases hrun
  exact ⟨hkeepalive, hbefore, r', hcycle, (sweeps_quiet hswept).trans (appCalls_quiet hafter)⟩

/-- Between two passes a connected client has not one probe too many. -/
structure Bounded (s : Watched) : Prop where
  probes : s.client.keepaliveProbes ≤ iotxMcKeepaliveProbeMax + 1
  connected : s.client.clientState = .connected →
    s.client.keepaliveProbes ≤ iotxMcKeepaliveProbeMax
  peak : s.peak ≤ iotxMcKeepaliveProbeMax + 1

/-- `iotx_mc_keepalive` adds the last probe at most. -/
theorem KeepaliveCases.probes_le {env : ConnectEnv} {k : KeepaliveResult} (h : Bounded s)
    (hcases : KeepaliveCases connectData s.client env k) :
    k.client.keepaliveProbes ≤ iotxMcKeepaliveProbeMax + 1 := by
  cases hcases with
  | quiet _ _ hquiet => exact hquiet.probes ▸ h.probes
  | pinged _ _ hstate hprobes => exact hprobes ▸ Nat.succ_le_succ (h.connected hstate)
  | established _ _ _ _ hprobes => exact hprobes ▸ h.probes

theorem watch_bounded (h : Bounded s) (hrun : watch reconnectOpen connectData s i = .ok s') :
    Bounded s' := by
  obtain ⟨r, hpass, hrun⟩ := bind_eq_ok.mp hrun
  cases hrun
  obtain ⟨hkeepalive, hbefore, r', hcycle, hafter⟩ := yieldPass_passed hpass
  have hprobes := (iotxMcKeepalive_cases hkeepalive).probes_le h
  have hentered : r.entered.keepaliveProbes ≤ iotxMcKeepaliveProbeMax + 1 :=
    (appCalls_quiet hbefore).probes ▸ hprobes
  have hpeak : r.client.keepaliveProbes ≤ iotxMcKeepaliveProbeMax + 1 →
      (s.after i r).peak ≤ iotxMcKeepaliveProbeMax + 1 := fun hclient =>
    Nat.max_le.mpr ⟨h.peak, Nat.max_le.mpr ⟨hprobes, Nat.max_le.mpr ⟨hentered, hclient⟩⟩⟩
  have hends : ∀ {n : Nat}, r'.client.keepaliveProbes = n → n ≤ iotxMcKeepaliveProbeMax + 1 →
      (r'.client.clientState = .connected → n ≤ iotxMcKeepaliveProbeMax) →
      Bounded (s.after i r) := by
    intro n hn hle hconnected
    have hclient : r.client.keepaliveProbes = n := hafter.probes.trans hn
    refine ⟨?_, fun hstate => ?_, hpeak (hclient ▸ hle)⟩
    · exact (show (s.after i r).client.keepaliveProbes = n from hclient) ▸ hle
    · exact (show (s.after i r).client.keepaliveProbes = n from hclient) ▸
        hconnected (hafter.connected hstate)
  by_cases hstate : r.entered.clientState = .connected
  · obtain ⟨read, -, hcases⟩ := iotxMcCycle_connected hstate hcycle
    cases hcases with
    | gaveUp _ hzero _ => exact hends hzero (Nat.zero_le _) fun _ => Nat.zero_le _
    | lost hle hlost =>
        exact hends rfl (Nat.le_trans hle hentered) fun hconnected => absurd hconnected hlost
    | cleared hzero => exact hends hzero (Nat.zero_le _) fun _ => Nat.zero_le _
    | kept hfew _ hquiet =>
        exact hends hquiet.probes hentered fun _ => hfew
  · rw [iotxMcCycle, if_pos hstate] at hcycle
    cases hcycle
    exact hends rfl hentered fun hconnected => absurd hconnected hstate

/-- The probes of a connection are pings on it. -/
structure Counted (s : Watched) : Prop where
  pings : s.client.clientState = .connected → s.client.keepaliveProbes ≤ s.pings
  patient : Patient s

theorem KeepaliveCases.counted {k : KeepaliveResult} (h : Counted s)
    (hsteady : Steady reconnectOpen connectData s i)
    (hcases : KeepaliveCases connectData s.client i.connect k)
    (hstate : k.client.clientState = .connected) :
    k.client.keepaliveProbes ≤ s.pinged k := by
  rw [Watched.pinged]
  cases hcases with
  | quiet hpinged hnot hquiet =>
      simp only [hpinged, hnot, hquiet.probes]
      exact h.pings (hquiet.connected hstate)
  | pinged hpinged hnot hbefore hprobes =>
      simp only [hpinged, hnot, hprobes]
      exact Nat.succ_le_succ (h.pings hbefore)
  | established hestablished hbefore hpre hreceived hprobes =>
      rw [hprobes, hsteady.cleared hbefore hpre hreceived]
      exact Nat.zero_le _

theorem watch_counted (h : Counted s) (hsteady : Steady reconnectOpen connectData s i)
    (hrun : watch reconnectOpen connectData s i = .ok s') : Counted s' := by
  obtain ⟨r, hpass, hrun⟩ := bind_eq_ok.mp hrun
  cases hrun
  obtain ⟨hkeepalive, hbefore, r', hcycle, hafter⟩ := yieldPass_passed hpass
  have hquiet := appCalls_quiet hbefore
  have hentered : r.entered.clientState = .connected →
      r.entered.keepaliveProbes ≤ s.pinged r.keepalive := fun hstate =>
    hquiet.probes ▸ (iotxMcKeepalive_cases hkeepalive).counted h hsteady (hquiet.connected hstate)
  refine ⟨fun hconnected => ?_, fun pings hpings => ?_⟩
  · have hconnected' := hafter.connected hconnected
    show r.client.keepaliveProbes ≤ if readsPacket r.entered i then 0 else s.pinged r.keepalive
    rw [hafter.probes]
    by_cases hstate : r.entered.clientState = .connected
    · obtain ⟨read, hread, hcases⟩ := iotxMcCycle_connected hstate hcycle
      cases hcases with
      | gaveUp _ _ hlost => exact absurd hconnected' hlost
      | lost _ hlost => exact absurd hconnected' hlost
      | cleared hzero =>
          rw [hzero]
          exact Nat.zero_le _
      | kept _ htype hkept =>
          have hnone : ¬read.isPacket = true := fun hpacket =>
            hsteady.learned _ _ _ hkeepalive hbefore hstate hread hpacket htype
          have hnot : ¬readsPacket r.entered i = true := by
            simp [readsPacket, hread, hnone]
          rw [if_neg hnot, hkept.probes]
          exact hentered hstate
    · rw [iotxMcCycle, if_pos hstate] at hcycle
      cases hcycle
      exact absurd hconnected' hstate
  · rw [Watched.after] at hpings
    dsimp only at hpings
    split at hpings
    next hgives =>
      rcases List.mem_cons.mp hpings with rfl | hold
      · exact Nat.lt_of_lt_of_le hgives.2 (hentered hgives.1)
      · exact h.patient pings hold
    next => exact h.patient pings hpings

/-- Over every run there is one probe more than the limit at most.  Where every step of the run
is steady, a connection is given up only after more pings on it than the limit. -/
theorem run_keepAlive {passes : List Pass} (hinitial : s.Initial)
    (hrun : run (watch reconnectOpen connectData) s passes = .ok s') :
    s'.peak ≤ iotxMcKeepaliveProbeMax + 1 ∧
      (Guarded (watch reconnectOpen connectData) (Steady reconnectOpen connectData) s passes →
        Patient s') := by
  have hbounded : Bounded s := by
    refine ⟨?_, fun _ => ?_, ?_⟩
    · exact hinitial.probes ▸ Nat.zero_le _
    · exact hinitial.probes ▸ Nat.zero_le _
    · exact hinitial.peak ▸ Nat.zero_le _
  have hcounted : Counted s := by
    refine ⟨fun _ => hinitial.probes ▸ Nat.zero_le _, ?_⟩
    rw [Patient, hinitial.gaveUp]
    exact nofun
  have hstep : ∀ {t : Watched} {i : Pass} {t' : Watched}, Bounded t → True →
      watch reconnectOpen connectData t i = .ok t' → Bounded t' :=
    fun hb _ hwatch => watch_bounded hb hwatch
  refine ⟨(run_invariant hstep hbounded guarded_true hrun).peak, fun hguard => ?_⟩
  exact (run_invariant watch_counted hcounted hguard hrun).patient

end Passes

/-- A client with a connection. -/
def watchedClient : Watched where
  client := { newClient with clientState := .connected }
  pings := 0
  gaveUp := []
  peak := 0

theorem watchedClient_initial : watchedClient.Initial := ⟨rfl, rfl, rfl⟩

/-- A pass in which the broker is silent.  The network answers the ping with `pingWrites`, and
accepts a connection. -/
def silentPass (pingWrites : List Int) : Pass where
  pingExpired := true
  pingWrites
  connect := accepting (some successReturn)
  callsBefore := []
  indeterminate := 0
  world := ⟨[], [], []⟩
  subs := []
  receive := quietEnv
  callsAfter := []
  pubIterator := true
  pubWrites := []
  subIterator := true
  subExpired := []

/-- A client that is connected in such a pass does not connect, and reads nothing. -/
theorem steady_silentPass {s : Watched} {pingWrites : List Int}
    (hstate : s.client.clientState = .connected) : Steady true device s (silentPass pingWrites) := by
  refine ⟨fun hreconnecting => ?_, fun k c r _ _ _ hread hpacket => ?_⟩
  · cases hstate.symm.trans hreconnecting
  · cases hread
    cases hpacket

/-- Four pings on one connection, which is given up after them. -/
theorem run_keepAlive_fourPings :
    ∃ s', run (watch true device) watchedClient (List.replicate 4 (silentPass [2])) = .ok s' ∧
      s'.gaveUp = [4] ∧ s'.peak ≤ iotxMcKeepaliveProbeMax + 1 ∧ Patient s' := by
  have hconnected (n : Nat) (hn : n < 4) : (run (watch true device) watchedClient
      (List.replicate n (silentPass [2]))).map (fun s => s.client.clientState) =
        .ok .connected := by
    match n, hn with
    | 0, _ => rfl
    | 1, _ => decide +kernel
    | 2, _ => decide +kernel
    | 3, _ => decide +kernel
  have hguard : Guarded (watch true device) (Steady true device) watchedClient
      (List.replicate 4 (silentPass [2])) := by
    refine guarded_of_reached fun bs i cs s hsplit hrun => ?_
    have hall : ∀ j ∈ bs ++ i :: cs, j = silentPass [2] := fun j hj =>
      List.eq_of_mem_replicate (hsplit ▸ hj)
    have hlen : bs.length < 4 := by
      have := congrArg List.length hsplit
      rw [List.length_replicate, List.length_append, List.length_cons] at this
      omega
    have hbefore : bs = List.replicate bs.length (silentPass [2]) :=
      List.eq_replicate_of_mem fun j hj => hall j (List.mem_append_left _ hj)
    rw [hall i (List.mem_append_right _ List.mem_cons_self)]
    have hstate := hconnected bs.length hlen
    rw [← hbefore, hrun] at hstate
    exact steady_silentPass (Except.ok.inj hstate)
  have hvalues : (run (watch true device) watchedClient
      (List.replicate 4 (silentPass [2]))).map Watched.gaveUp = .ok [4] := by
    decide +kernel
  cases hrun : run (watch true device) watchedClient (List.replicate 4 (silentPass [2])) with
  | error e =>
      rw [hrun] at hvalues
      cases hvalues
  | ok s' =>
      rw [hrun] at hvalues
      obtain ⟨hpeak, hpatient⟩ := run_keepAlive watchedClient_initial hrun
      exact ⟨s', rfl, Except.ok.inj hvalues, hpeak, hpatient hguard⟩

/-- Three pings, a fourth that is not written, a new connection, and its first ping. -/
def pingsBeforeLoss : List Pass :=
  List.replicate 3 (silentPass [2]) ++ [silentPass [-1], silentPass [], silentPass [2]]

/-- The new connection is given up after one ping. -/
theorem not_patient_pingsBeforeLoss :
    ¬∀ (connectData : ConnectData) (s s' : Watched) (passes : List Pass), s.Initial →
      run (watch true connectData) s passes = .ok s' → Patient s' := by
  intro h
  have hvalues : (run (watch true device) watchedClient pingsBeforeLoss).map Watched.gaveUp =
      .ok [1] := by
    decide +kernel
  cases hrun : run (watch true device) watchedClient pingsBeforeLoss with
  | error e =>
      rw [hrun] at hvalues
      cases hvalues
  | ok s' =>
      rw [hrun] at hvalues
      have hgave : s'.gaveUp = [1] := Except.ok.inj hvalues
      have hpings := h device watchedClient s' pingsBeforeLoss watchedClient_initial hrun 1
        (hgave ▸ List.mem_singleton_self 1)
      exact absurd hpings (by decide)

end IotKit.Mqtt
