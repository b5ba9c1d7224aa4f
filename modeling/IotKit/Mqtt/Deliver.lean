import IotKit.Mqtt.Subscription

/-!
# Delivery

The triples of `sub_handle` stay distinct over every run, and each has a handler.  So a
PUBLISH calls each triple that matches its topic exactly once, in table order, and the
default handler exactly where none does.  The handlers do not run in the model, and so
do not change the table under the loop of `iotx_mc_deliver_message`.
-/

namespace IotKit.Mqtt

open CMemory

/-- The entries that match a topic, in table order. -/
def McClient.matched (c : McClient) (name : TopicName) : List TopicHandle :=
  c.registered.filter fun h => topicMatches name h = .ok true

/-- The call of an entry with a message. -/
structure Called (msg : TopicInfo) (h : TopicHandle) (call : HandlerCall) : Prop where
  hFp : h.handle.hFp = some call.hFp
  pcontext : call.pcontext = h.handle.pcontext
  msg : call.msg = msg

/-- No triple is registered twice, and a message goes to each one that matches its topic
once, or to the default handler if none does. -/
structure DeliversOnce (c : McClient) : Prop where
  distinct : c.registered.Nodup
  matching : ∀ name msg calls, iotxMcDeliverMessage c name msg = .ok calls →
    c.matched name ≠ [] → List.Forall₂ (Called msg) (c.matched name) calls
  otherwise : ∀ name msg calls, iotxMcDeliverMessage c name msg = .ok calls →
    c.matched name = [] → calls = c.handleEvent.call msg

/-! ## The table over a run -/

/-- The entries in use are distinct and have a handler. -/
structure Tidy (c : SubClient) : Prop where
  distinct : c.registered.Nodup
  handlers : ∀ h ∈ c.registered, h.handle.hFp.isSome

theorem Tidy.congr {c c' : SubClient} (h : Tidy c) (htable : c'.subHandle = c.subHandle) :
    Tidy c' := by
  have hsame : c'.registered = c.registered := by rw [McClient.registered, htable]; rfl
  exact ⟨hsame ▸ h.distinct, hsame ▸ h.handlers⟩

theorem SubClient.Fresh.tidy {c : SubClient} (h : c.Fresh) : Tidy c := by
  have hnone : c.registered = [] := by
    rw [McClient.registered, h.table]
    decide
  exact ⟨by simp [hnone], by simp [hnone]⟩

theorem operate_tidy {c c' : SubClient} {op : Operation} (h : Tidy c)
    (hrun : operate c op = .ok c') : Tidy c' := by
  cases operate_tableStep hrun with
  | keeps htable _ _ => exact h.congr htable
  | requests type handler env hclient _ => exact h.congr hclient.table
  | suback p stale env _ _ _ _ _ htable =>
      rcases htable with ⟨_, hsame⟩ | ⟨hreg, i, hi, hfree, hset⟩
      · exact h.congr hsame
      · have hlist : c'.subHandle.toList =
            c.subHandle.toList.set i (subackHandler c p env.ack) := by
          rw [hset, Vector.toList_set]
        have hlt : i < c.subHandle.toList.length := by simpa using hi
        have hslot : c.subHandle.toList[i].used = false := by simpa using hfree
        refine ⟨?_, fun handle hmem => ?_⟩
        · rw [McClient.registered, hlist]
          exact SlotTable.nodup_set hlt hslot hreg.filter hreg.fresh h.distinct
        · rw [McClient.registered, hlist, SlotTable.mem_set hlt hslot hreg.filter] at hmem
          rcases hmem with rfl | hold
          · exact hreg.handler
          · exact h.handlers handle hold
  | unsuback p stale env _ _ _ _ _ htable =>
      have hregistered := registered_cleared htable
      refine ⟨?_, fun handle hmem => ?_⟩
      · rw [hregistered]
        exact h.distinct.filter _
      · rw [hregistered] at hmem
        exact h.handlers handle (List.mem_of_mem_filter hmem)

theorem run_tidy {c c' : SubClient} {ops : List Operation} (h : Tidy c)
    (hrun : Runs.run operate c ops = .ok c') : Tidy c' := by
  refine Runs.run_invariant ?_ h Runs.guarded_true hrun
  exact fun hinv _ hstep => operate_tidy hinv hstep

/-! ## One message -/

theorem EventHandle.call_some {h : TopicHandle} {hFp : Nat} (msg : TopicInfo)
    (hsome : h.handle.hFp = some hFp) : h.handle.call msg = [⟨hFp, h.handle.pcontext, msg⟩] := by
  rw [EventHandle.call, hsome]

/-- The loop calls the matching entries in use, in their order. -/
theorem deliverLoop_called {name : TopicName} {msg : TopicInfo} {handles : List TopicHandle}
    {calls : List HandlerCall}
    (hhandlers : ∀ h ∈ SlotTable.entries TopicHandle.used handles, h.handle.hFp.isSome)
    (hrun : deliverLoop name msg handles = .ok calls) :
    List.Forall₂ (Called msg) ((SlotTable.entries TopicHandle.used handles).filter
      fun h => topicMatches name h = .ok true) calls := by
  induction handles generalizing calls with
  | nil =>
      cases hrun
      exact List.Forall₂.nil
  | cons h handles ih =>
      obtain ⟨matched, hmatched, hrun⟩ := bind_eq_ok.mp hrun
      obtain ⟨rest, hrest, hrun⟩ := bind_eq_ok.mp hrun
      cases hrun
      rw [SlotTable.entries_cons] at hhandlers ⊢
      cases hused : h.used with
      | false =>
          obtain rfl : matched = false := by
            have hnone := topicFilter_eq_none.mpr hused
            rw [topicMatches, hnone] at hmatched
            exact (Except.ok.inj hmatched).symm
          simpa [hused] using ih (by simpa [hused] using hhandlers) hrest
      | true =>
          simp only [hused, if_true] at hhandlers ⊢
          have htail := ih (fun handle hmem => hhandlers handle (List.mem_cons_of_mem _ hmem)) hrest
          rw [List.filter_cons, hmatched]
          cases matched with
          | false => simpa using htail
          | true =>
              obtain ⟨hFp, hsome⟩ := Option.isSome_iff_exists.mp (hhandlers h List.mem_cons_self)
              simpa [EventHandle.call_some msg hsome] using
                List.Forall₂.cons ⟨hsome, rfl, rfl⟩ htail

theorem Tidy.deliversOnce {c : SubClient} (h : Tidy c) : DeliversOnce c.toMcClient := by
  have hloop : ∀ {name msg calls}, deliverLoop name msg c.subHandle.toList = .ok calls →
      List.Forall₂ (Called msg) (c.matched name) calls :=
    fun hrun => deliverLoop_called h.handlers hrun
  refine ⟨h.distinct, fun name msg calls hrun hsome => ?_, fun name msg calls hrun hnone => ?_⟩
  · obtain ⟨looped, hlooped, hrun⟩ := bind_eq_ok.mp hrun
    cases hrun
    have hcalled := hloop hlooped
    cases looped with
    | nil => exact absurd (List.forall₂_nil_right_iff.mp hcalled) hsome
    | cons call looped => simpa using hcalled
  · obtain ⟨looped, hlooped, hrun⟩ := bind_eq_ok.mp hrun
    cases hrun
    have hcalled := hloop hlooped
    rw [hnone] at hcalled
    rw [List.forall₂_nil_left_iff.mp hcalled, if_pos rfl]

/-- The topic "a" is subscribed twice with the same handler and once with another. -/
def subscribeThrice : List Operation :=
  [.subscribe (some [97]) 0 ⟨some 1, 0⟩ ⟨true, true, [8]⟩,
    .subscribe (some [97]) 0 ⟨some 1, 0⟩ ⟨true, true, [8]⟩,
    .subscribe (some [97]) 0 ⟨some 2, 0⟩ ⟨true, true, [8]⟩,
    .receive (shortPacket 0x90 [0, 2, 0] suback_typed (by decide)) [] quietEnv,
    .receive (shortPacket 0x90 [0, 3, 0] suback_typed (by decide)) [] quietEnv,
    .receive (shortPacket 0x90 [0, 1, 0] suback_typed suback_short) [] quietEnv]

/-- A message of two bytes. -/
def twoBytes : TopicInfo := ⟨0, 0, 0, 0, 1, [120, 121]⟩

end IotKit.Mqtt
