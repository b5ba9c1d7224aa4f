import IotKit.Mqtt.Subscription

/-!
# The table and the acknowledgements

`Follows` is what the subscription table owes the acknowledgements, one operation at a
time, and `InOrder` the condition under which an operation keeps it.  A SUBACK breaks it
that has no return code or an unknown one, or is for a request that is no longer pending.
An UNSUBACK breaks it where the table has an entry with the filter that the request names
(the entry has a handler and the request has none), where its packet id is that of a
SUBSCRIBE, and where it matches nothing and the indeterminate handler is in the table.
-/

namespace IotKit.Mqtt

open CMemory

/-! ## What the table owes -/

/-- An acknowledgement with a packet id, and the return codes behind it. -/
structure Packet.Acks (p : Packet) (type id : Nat) (codes : Bytes) : Prop where
  type : headerType p.header = type
  body : ∃ hi lo, p.body = hi :: lo :: codes ∧ ofBe16 hi lo = id

/-- A request that waits for its acknowledgement. -/
structure SubClient.Pending (c : SubClient) (type : RequestType) (id : Nat) (info : SubInfo) :
    Prop where
  listed : info ∈ c.listSubWaitAck
  normal : info.nodeState = .normal
  type : info.type = type
  msgId : info.msgId = id

/-- The acknowledgement is for a pending request of its own kind. -/
def Matches (c : SubClient) (p : Packet) : Prop :=
  (∃ id codes info, p.Acks suback id codes ∧ c.Pending .subscribe id info) ∨
    ∃ id codes info, p.Acks unsuback id codes ∧ c.Pending .unsubscribe id info

/-- The operation reads the packet: only a connected client does. -/
def Reads (c : SubClient) (op : Operation) (p : Packet) : Prop :=
  ∃ stale env, op = .receive p stale env ∧ c.clientState = .connected

/-- The table follows the acknowledgements over one operation. -/
structure Follows (c : SubClient) (op : Operation) (c' : SubClient) : Prop where
  added : ∀ (i : Nat) (hi : i < iotxMcSubNumMax), c'.subHandle[i] ≠ c.subHandle[i] →
    c'.subHandle[i].used = true → ∃ p id code info, Reads c op p ∧ p.Acks suback id [code] ∧
      code.toNat ≤ 2 ∧ c.Pending .subscribe id info ∧
      info.handler.topicFilter = c'.subHandle[i].topicFilter
  removed : ∀ p id codes info, Reads c op p → p.Acks unsuback id codes →
    c.Pending .unsubscribe id info →
    ∀ h ∈ c'.registered, h.topicFilter ≠ info.handler.topicFilter
  unmatched : ∀ p, Reads c op p → ¬ Matches c p → c'.subHandle = c.subHandle

/-! ## When it follows them -/

/-- A SUBACK that registers a triple grants it, for a pending SUBSCRIBE of its filter. -/
def SubackInOrder (c : SubClient) (p : Packet) (env : AckEnv) : Prop :=
  Registers c p env → ∃ id code info, p.Acks suback id [code] ∧ code.toNat ≤ 2 ∧
    c.Pending .subscribe id info ∧
    info.handler.topicFilter = (subackHandler c p env).topicFilter

/-- An UNSUBACK of a pending UNSUBSCRIBE finds no other entry with its filter than the one
it removes, and any other UNSUBACK removes none. -/
structure UnsubackInOrder (c : SubClient) (p : Packet) (env : AckEnv) : Prop where
  matched : ∀ id codes info, p.Acks unsuback id codes → c.Pending .unsubscribe id info →
    ∀ h ∈ c.registered, h.topicFilter = info.handler.topicFilter → h = unsubackHandler c p env
  unmatched : ¬ Matches c p → unsubackHandler c p env ∉ c.registered

/-- The condition on one operation. -/
def InOrder (c : SubClient) : Operation → Prop
  | .receive p _ env =>
      (c.clientState = .connected → headerType p.header = suback → SubackInOrder c p env.ack) ∧
        (c.clientState = .connected → headerType p.header = unsuback →
          UnsubackInOrder c p env.ack)
  | _ => True

section Step

variable {c c' : SubClient} {op : Operation}

theorem reads_receive {p p' : Packet} {stale : Bytes} {env : ReceiveEnv} :
    Reads c (.receive p stale env) p' ↔ p' = p ∧ c.clientState = .connected := by
  constructor
  · rintro ⟨stale', env', hop, hconnected⟩
    cases hop
    exact ⟨rfl, hconnected⟩
  · rintro ⟨rfl, hconnected⟩
    exact ⟨stale, env, rfl, hconnected⟩

/-- An operation that leaves the table alone and reads no UNSUBACK. -/
theorem follows_of_same (htable : c'.subHandle = c.subHandle)
    (hcalm : ∀ p, Reads c op p → headerType p.header ≠ unsuback) : Follows c op c' := by
  refine ⟨fun i hi hne _ => ?_, fun p id codes info hreads hacks _ => ?_, fun _ _ _ => htable⟩
  · rw [htable] at hne
    exact absurd rfl hne
  · exact absurd hacks.type (hcalm p hreads)

theorem follows_suback_iff {p : Packet} {stale : Bytes} {env : ReceiveEnv}
    (hconnected : c.clientState = .connected) (htype : headerType p.header = suback)
    (htable : (¬ Registers c p env.ack ∧ c'.subHandle = c.subHandle) ∨
      (Registers c p env.ack ∧ ∃ (i : Nat) (hi : i < iotxMcSubNumMax),
        c.subHandle[i].used = false ∧
        c'.subHandle = c.subHandle.set i (subackHandler c p env.ack))) :
    Follows c (.receive p stale env) c' ↔ SubackInOrder c p env.ack := by
  have hcalm : ∀ p', Reads c (.receive p stale env) p' → headerType p'.header ≠ unsuback := by
    intro p' hreads
    rw [(reads_receive.mp hreads).1, htype]
    decide
  have hreads : Reads c (.receive p stale env) p := reads_receive.mpr ⟨rfl, hconnected⟩
  rcases htable with ⟨hnot, hsame⟩ | ⟨hreg, i, hi, hfree, hset⟩
  · exact ⟨fun _ hreg => absurd hreg hnot, fun _ => follows_of_same hsame hcalm⟩
  · have hslot : c'.subHandle[i] = subackHandler c p env.ack := by simp [hset]
    constructor
    · intro hfollows _
      have hchanged : c'.subHandle[i] ≠ c.subHandle[i] := by
        intro heq
        have hused := hreg.filter
        rw [← hslot, heq, hfree] at hused
        cases hused
      obtain ⟨p', id, code, info, hreads', hacks, hcode, hpending, hfilter⟩ :=
        hfollows.added i hi hchanged (hslot ▸ hreg.filter)
      rw [(reads_receive.mp hreads').1] at hacks
      exact ⟨id, code, info, hacks, hcode, hpending, hslot ▸ hfilter⟩
    · intro horder
      obtain ⟨id, code, info, hacks, hcode, hpending, hfilter⟩ := horder hreg
      refine ⟨fun j hj hne _ => ?_, fun p' id' codes info' hreads' hacks' _ => ?_,
        fun p' hreads' hno => ?_⟩
      · have hij : i = j := by
          by_contra hij
          exact hne (by simp [hset, Vector.getElem_set_ne _ _ hij])
        subst hij
        exact ⟨p, id, code, info, hreads, hacks, hcode, hpending, hslot ▸ hfilter⟩
      · exact absurd hacks'.type (hcalm p' hreads')
      · rw [(reads_receive.mp hreads').1] at hno
        exact absurd (Or.inl ⟨id, [code], info, hacks, hpending⟩) hno

theorem follows_unsuback_iff {p : Packet} {stale : Bytes} {env : ReceiveEnv}
    (hconnected : c.clientState = .connected)
    (htable : c'.subHandle.toList = cleared (unsubackHandler c p env.ack) c.subHandle.toList) :
    Follows c (.receive p stale env) c' ↔ UnsubackInOrder c p env.ack := by
  have hreads : Reads c (.receive p stale env) p := reads_receive.mpr ⟨rfl, hconnected⟩
  have hregistered := registered_cleared htable
  constructor
  · intro hfollows
    refine ⟨fun id codes info hacks hpending h hmem hfilter => ?_, fun hno hmem => ?_⟩
    · by_contra hne
      refine hfollows.removed p id codes info hreads hacks hpending h ?_ hfilter
      rw [hregistered]
      exact List.mem_filter.mpr ⟨hmem, by simpa using hne⟩
    · have hsame : c'.registered = c.registered := by
        rw [McClient.registered, hfollows.unmatched p hreads hno]
        rfl
      rw [← hsame, hregistered] at hmem
      simp at hmem
  · intro horder
    refine ⟨fun i hi hne hused => ?_, fun p' id codes info hreads' hacks hpending h hmem => ?_,
      fun p' hreads' hno => ?_⟩
    · have hslot : c'.subHandle[i] = if c.subHandle[i].used &&
          decide (c.subHandle[i] = unsubackHandler c p env.ack) then .zero else c.subHandle[i] := by
        have hget := congrArg (fun table => table[i]?) htable
        simpa [cleared, hi] using hget
      rw [hslot] at hne hused
      split at hne
      next hcleared =>
        rw [if_pos hcleared, TopicHandle.used_zero] at hused
        cases hused
      next => exact absurd rfl hne
    · rw [(reads_receive.mp hreads').1] at hacks
      rw [hregistered] at hmem
      obtain ⟨hmem, hne⟩ := List.mem_filter.mp hmem
      have hother : h ≠ unsubackHandler c p env.ack := by simpa using hne
      exact fun hfilter => hother (horder.matched id codes info hacks hpending h hmem hfilter)
    · rw [(reads_receive.mp hreads').1] at hno
      have hsame := cleared_of_not_mem (horder.unmatched hno)
      rw [hsame] at htable
      exact Vector.toList_inj.mp htable

/-- An operation keeps the table in step exactly where it is in order. -/
theorem operate_follows_iff (h : operate c op = .ok c') :
    (∀ c'', operate c op = .ok c'' → Follows c op c'') ↔ InOrder c op := by
  have hone : (∀ c'', operate c op = .ok c'' → Follows c op c'') ↔ Follows c op c' := by
    constructor
    · exact fun hall => hall c' h
    · intro hfollows c'' h'
      rw [h] at h'
      cases h'
      exact hfollows
  rw [hone]
  cases operate_tableStep h with
  | keeps htable _ hcalm =>
      refine iff_of_true (follows_of_same htable ?_) ?_
      · rintro p ⟨stale, env, hop, hconnected⟩
        exact (hcalm p stale env hop hconnected).2
      · cases op with
        | receive p stale env =>
            exact ⟨fun hconnected htype => absurd htype (hcalm p stale env rfl hconnected).1,
              fun hconnected htype => absurd htype (hcalm p stale env rfl hconnected).2⟩
        | _ => trivial
  | requests type handler env hclient hcalm =>
      refine iff_of_true (follows_of_same hclient.table ?_) ?_
      · rintro p ⟨stale, env, hop, _⟩
        exact absurd hop (hcalm p stale env)
      · cases op with
        | receive p stale env => exact absurd rfl (hcalm p stale env)
        | _ => trivial
  | suback p stale env hop hconnected htype _ _ htable =>
      subst hop
      rw [follows_suback_iff hconnected htype htable, InOrder]
      simp [hconnected, htype, suback, unsuback]
  | unsuback p stale env hop hconnected htype _ _ htable =>
      subst hop
      rw [follows_unsuback_iff hconnected htable, InOrder]
      simp [hconnected, htype, suback, unsuback]

end Step

/-- Over a run the table follows the acknowledgements exactly where every operation is in
order. -/
theorem run_follows_iff {c c' : SubClient} {ops : List Operation}
    (hrun : Runs.run operate c ops = .ok c') :
    Runs.Guarded operate (fun c op => ∀ c', operate c op = .ok c' → Follows c op c') c ops ↔
      Runs.Guarded operate InOrder c ops :=
  Runs.guarded_congr operate_follows_iff hrun

/-! ## An entry that stays -/

/-- The topic "a" is subscribed and unsubscribed, and the last UNSUBACK is on its way. -/
def unsubscribing : List Operation :=
  [.subscribe (some [97]) 0 ⟨some 1, 0⟩ ⟨true, true, [8]⟩,
    .receive (shortPacket 0x90 [0, 1, 0] suback_typed suback_short) [] quietEnv,
    .unsubscribe (some [97]) ⟨true, true, [7]⟩]

def lastUnsuback : Packet := shortPacket 0xb0 [0, 2] (by decide) (by decide)

theorem run_unsubscribing :
    ∃ c c' info, Runs.run operate freshClient unsubscribing = .ok c ∧
      operate c (.receive lastUnsuback [] quietEnv) = .ok c' ∧
      c.clientState = .connected ∧ c.Pending .unsubscribe 2 info ∧
      info.handler.topicFilter = some [97] ∧ c'.registered = [⟨some [97], ⟨some 1, 0⟩⟩] := by
  have hrun : (fun c : SubClient => (c.clientState, c.listSubWaitAck.getLast?)) <$>
      Runs.run operate freshClient unsubscribing = .ok (.connected,
        some ⟨.unsubscribe, 2, .normal, ⟨some [97], ⟨none, 0⟩⟩, [162, 5, 0, 2, 0, 1, 97]⟩) := by
    decide +kernel
  have hlast : (fun c : SubClient => c.registered) <$> Runs.run operate freshClient
      (unsubscribing ++ [.receive lastUnsuback [] quietEnv]) =
        .ok [⟨some [97], ⟨some 1, 0⟩⟩] := by decide +kernel
  obtain ⟨c, hok, hc⟩ := map_eq_ok.mp hrun
  obtain ⟨c', hok', hregistered⟩ := map_eq_ok.mp hlast
  obtain ⟨u, hu, hend⟩ := Runs.run_append.mp hok'
  rw [hok] at hu
  cases hu
  obtain ⟨v, hstep, hnil⟩ := Runs.run_cons.mp hend
  cases hnil
  obtain ⟨hstate, hinfo⟩ := Prod.ext_iff.mp hc
  exact ⟨c, c', _, hok, hstep, hstate, ⟨List.mem_of_getLast? hinfo, rfl, rfl, rfl⟩, rfl,
    hregistered⟩

/-- The handler of the request is NULL, so the entry is not equal to it. -/
theorem not_follows_unsubscribing : ¬ ∀ (c : SubClient) (ops : List Operation), c.Fresh →
    Runs.Guarded operate (fun c op => ∀ c', operate c op = .ok c' → Follows c op c') c ops := by
  intro h
  obtain ⟨c, c', info, hok, hstep, hstate, hpending, hfilter, hregistered⟩ := run_unsubscribing
  have hguard := (h freshClient (unsubscribing ++ [.receive lastUnsuback [] quietEnv])
    freshClient_fresh).append_right hok
  have hfollows := hguard.1 c' hstep
  refine hfollows.removed lastUnsuback 2 [] info ⟨_, _, rfl, hstate⟩
    ⟨by decide, 0, 2, rfl, by decide⟩ hpending ⟨some [97], ⟨some 1, 0⟩⟩ ?_ hfilter.symm
  rw [hregistered]
  exact List.mem_singleton_self _

theorem run_follows_iff_unsubscribing :
    Runs.Guarded operate (fun c op => ∀ c', operate c op = .ok c' → Follows c op c') freshClient
        unsubscribing ↔
      Runs.Guarded operate InOrder freshClient unsubscribing := by
  obtain ⟨c, _, _, hok, _⟩ := run_unsubscribing
  exact run_follows_iff hok

end IotKit.Mqtt
