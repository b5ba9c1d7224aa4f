import IotKit.Mqtt.PendingLists
import IotKit.Mqtt.PendingRun

/-!
# The walks over the pending lists as lists

The sweeps and the masks on the nodes do to the entries what those of `Ack` do to its lists,
from the newest entry to the oldest.  The readings of the clock say which entries are late.
-/

namespace IotKit.Mqtt.Pending

open CMemory Utils

/-- The newest entry is the last of the list. -/
theorem infos_cons {α : Type} (v : Timed α) (vs : List (Timed α)) :
    (v :: vs).reverse.map Timed.info = vs.reverse.map Timed.info ++ [v.info] := by
  rw [List.reverse_cons, List.map_append]
  rfl

theorem infos_length {α : Type} (vs : List (Timed α)) :
    (vs.reverse.map Timed.info).length = vs.length := by
  rw [List.length_map, List.length_reverse]

/-! ## `MQTTSubInfoProc` -/

section Subscribes

variable {c : Client} {a : SubClient} {clock : SweepClock}

/-- What becomes of a request does not depend on the others. -/
theorem sweepSub_cons (a : SubClient) (info : SubInfo) (infos : List SubInfo) (late : Bool)
    (expired : List Bool) :
    sweepSub a (info :: infos) (late :: expired) =
      ((sweepSub a [info] [late]).1 ++ (sweepSub a infos expired).1,
        (sweepSub a infos expired).2 ++ (sweepSub a [info] [late]).2) := by
  simp only [sweepSub, List.tail_cons, List.headD_cons]
  by_cases hinvalid : info.nodeState = .invalid
  · simp [hinvalid]
  by_cases hlost : a.clientState ≠ .connected
  · simp [hinvalid, hlost]
  cases late with
  | false => simp [hinvalid]
  | true => simp [hinvalid, hlost]

/-- The newest request is swept before the others. -/
theorem sweepSub_concat {infos : List SubInfo} {expired : List Bool}
    (hlen : expired.length = infos.length) (info : SubInfo) (late : Bool) :
    sweepSub a (infos ++ [info]) (expired ++ [late]) =
      ((sweepSub a infos expired).1 ++ (sweepSub a [info] [late]).1,
        (sweepSub a [info] [late]).2 ++ (sweepSub a infos expired).2) := by
  induction infos generalizing expired with
  | nil =>
      obtain rfl := List.length_eq_zero_iff.mp hlen
      simp [sweepSub]
  | cons first infos ih =>
      cases expired with
      | nil => cases hlen
      | cons b expired =>
          rw [List.cons_append, List.cons_append, sweepSub_cons, ih (Nat.succ.inj hlen),
            sweepSub_cons a first infos b expired, List.append_assoc, List.append_assoc]

/-- A pass takes a request out, with the event of the sweep, or leaves it. -/
theorem subVisit_cases (clock : SweepClock) (hstate : c.clientState = a.clientState)
    (hevent : c.handleEvent = a.handleEvent) (k : Nat) (v : Timed SubInfo)
    (events : List EventMsg) :
    ∃ late, (∃ told, subVisit c clock k (some v) events = .ok (.remove, events ++ told) ∧
        sweepSub a [v.info] [late] = ([], told)) ∨
      subVisit c clock k (some v) events = .ok (.keep, events) ∧
        sweepSub a [v.info] [late] = ([v.info], []) := by
  simp only [subVisit, sweepSub, hstate, hevent, List.headD_cons]
  by_cases hinvalid : v.info.nodeState = .invalid
  · exact ⟨true, .inl ⟨[], by simp [hinvalid]⟩⟩
  by_cases hlost : a.clientState ≠ .connected
  · exact ⟨true, .inr (by simp [hinvalid, hlost])⟩
  by_cases htime : utilsTimeSpend v.startTime (clock.spend k) ≤ c.requestTimeoutMs * 2
  · exact ⟨false, .inr (by simp [hinvalid, hlost, htime])⟩
  · exact ⟨true, .inl ⟨_, by simp [hinvalid, hlost, htime]; rfl⟩⟩

/-- The walk that has still to visit `vs`, the newest first. -/
theorem subVisit_values (clock : SweepClock) (hstate : c.clientState = a.clientState)
    (hevent : c.handleEvent = a.handleEvent) (vs : List (Timed SubInfo)) (k : Nat)
    (events : List EventMsg) :
    ∃ (expired : List Bool) (ws : List (Timed SubInfo)), expired.length = vs.length ∧
      sweepValues (subVisit c clock) k (vs.map some) events =
        .ok (ws.map some, events ++ (sweepSub a (vs.reverse.map Timed.info) expired).2) ∧
      ws.reverse.map Timed.info = (sweepSub a (vs.reverse.map Timed.info) expired).1 := by
  induction vs generalizing k events with
  | nil => exact ⟨[], [], rfl, by simp [sweepValues, sweepSub], rfl⟩
  | cons v vs ih =>
      obtain ⟨late, ⟨told, hremove, hgone⟩ | ⟨hkeep, hstays⟩⟩ :=
        subVisit_cases clock hstate hevent k v events
      · obtain ⟨expired, ws, hlen, hvalues, hws⟩ := ih (k + 1) (events ++ told)
        have hconcat := sweepSub_concat (a := a) (hlen.trans (infos_length vs).symm) v.info late
        rw [hgone, List.append_nil] at hconcat
        refine ⟨expired ++ [late], ws, by simp [hlen], ?_, ?_⟩
        · rw [List.map_cons, sweepValues, hremove, ok_bind, infos_cons, hconcat]
          rw [List.append_assoc] at hvalues
          exact hvalues
        · rw [infos_cons, hconcat]
          exact hws
      · obtain ⟨expired, ws, hlen, hvalues, hws⟩ := ih (k + 1) events
        have hconcat := sweepSub_concat (a := a) (hlen.trans (infos_length vs).symm) v.info late
        rw [hstays, List.nil_append] at hconcat
        refine ⟨expired ++ [late], v :: ws, by simp [hlen], ?_, ?_⟩
        · rw [List.map_cons, sweepValues, hkeep, ok_bind, infos_cons, hconcat]
          exact bind_eq_ok.mpr ⟨_, hvalues, rfl⟩
        · rw [infos_cons, infos_cons, hconcat, hws]

/-- On the nodes `MQTTSubInfoProc` leaves the same requests and tells of the same. -/
theorem mqttSubInfoProc_refines (h : Abstracts c a) (iterator : Bool) :
    ∃ expired c', mqttSubInfoProc c iterator clock =
        .ok (c', (Mqtt.mqttSubInfoProc a iterator expired).2) ∧
      Abstracts c' (Mqtt.mqttSubInfoProc a iterator expired).1 := by
  cases iterator with
  | false => exact ⟨[], c, bind_eq_ok.mpr ⟨_, sweep_noIterator _ _, rfl⟩, h⟩
  | true =>
      obtain ⟨vs, hholds, hvs⟩ := h.sub
      obtain ⟨expired, ws, -, hvalues, hws⟩ := subVisit_values clock h.clientState
        h.handleEvent vs.reverse 0 []
      rw [List.reverse_reverse, hvs] at hvalues hws
      rw [List.map_reverse] at hvalues
      obtain ⟨listSubWaitAck, hrun, hend⟩ := sweep_holds hholds hvalues
      refine ⟨expired, { c with listSubWaitAck }, bind_eq_ok.mpr ⟨_, hrun, rfl⟩, h.bufSend,
        h.clientState, h.handleEvent, h.pub, ws.reverse, ?_, hws⟩
      rwa [List.map_reverse]

end Subscribes

/-! ## `MQTTPubInfoProc` -/

section Publishes

variable {c : Client} {a : SubClient} {clock : SweepClock} {state : McState}

/-- What becomes of a publish depends on whether the network has failed. -/
theorem sweepPub_cons (info : PubInfo) (infos : List PubInfo) (w : Option (List Int))
    (writes : List (Option (List Int))) :
    sweepPub state (info :: infos) (w :: writes) =
      sweepPub state infos writes >>= fun (kept, failed) =>
        if failed then .ok (info :: kept, true)
        else sweepPub state [info] [w] >>= fun (one, failed) => .ok (one ++ kept, failed) := by
  simp only [sweepPub, List.tail_cons, List.headD_cons, ok_bind]
  congr 1
  funext ⟨kept, failed⟩
  cases failed with
  | true => rfl
  | false =>
      by_cases hinvalid : info.nodeState = .invalid
      · simp [hinvalid, ok_bind]
      by_cases hlost : state ≠ .connected
      · simp [hinvalid, hlost, ok_bind]
      cases w with
      | none => simp [hinvalid, hlost, ok_bind]
      | some writes =>
          cases hsent : iotxMcSendPacket info.buf info.buf.length writes with
          | error e => simp [hinvalid, hlost, hsent, bind, Except.bind]
          | ok sent => simp [hinvalid, hlost, hsent, bind, Except.bind]

/-- The newest publish is swept before the others, and ends the sweep where the network fails. -/
theorem sweepPub_concat {infos : List PubInfo} {writes : List (Option (List Int))}
    (hlen : writes.length = infos.length) (info : PubInfo) (w : Option (List Int)) :
    sweepPub state (infos ++ [info]) (writes ++ [w]) =
      sweepPub state [info] [w] >>= fun (last, failed) =>
        if failed then .ok (infos ++ last, true)
        else sweepPub state infos writes >>= fun (kept, failed) => .ok (kept ++ last, failed) := by
  induction infos generalizing writes with
  | nil =>
      obtain rfl := List.length_eq_zero_iff.mp hlen
      rw [List.nil_append, List.nil_append]
      cases sweepPub state [info] [w] with
      | error => rfl
      | ok r =>
          obtain ⟨last, _ | _⟩ := r
          · rfl
          · rfl
  | cons first infos ih =>
      cases writes with
      | nil => cases hlen
      | cons b writes =>
          rw [List.cons_append, List.cons_append, sweepPub_cons, ih (Nat.succ.inj hlen),
            sweepPub_cons first infos b writes]
          cases sweepPub state [info] [w] with
          | error => rfl
          | ok r =>
              obtain ⟨last, _ | _⟩ := r
              swap
              · rfl
              dsimp only [ok_bind]
              cases sweepPub state infos writes with
              | error => rfl
              | ok r =>
                  obtain ⟨kept, _ | _⟩ := r
                  swap
                  · rfl
                  cases sweepPub state [first] [b] with
                  | error => rfl
                  | ok one => simp [bind, Except.bind]

/-- A pass takes a publish out, leaves it with some time, or ends the walk. -/
theorem pubVisit_cases {writes : Nat → List Int} {k : Nat} {v : Timed PubInfo}
    {resent resent' : List Resent} {res : Visit (Option (Timed PubInfo))} {state' : McState}
    (h : pubVisit c clock writes k (some v) (state, resent) = .ok (res, state', resent')) :
    ∃ w, (res = .remove ∧ state' = state ∧ sweepPub state [v.info] [w] = .ok ([], false)) ∨
      ∃ startTime, (res = .keep ∧ startTime = v.startTime ∨
            res = .update (some { v with startTime })) ∧ state' = state ∧
          sweepPub state [v.info] [w] = .ok ([v.info], false) ∨
        res = .stop (some { v with startTime }) ∧ state' = .disconnected ∧
          sweepPub state [v.info] [w] = .ok ([v.info], true) := by
  rw [pubVisit] at h
  simp only [sweepPub, List.headD_cons, ok_bind]
  split at h
  next hinvalid =>
    cases h
    exact ⟨none, .inl ⟨rfl, rfl, by simp [hinvalid]⟩⟩
  next hvalid =>
    refine (?_ : ∃ w, _).imp fun w => Or.inr
    split at h
    next hlost =>
      cases h
      exact ⟨none, _, .inl ⟨.inl ⟨rfl, rfl⟩, rfl, by simp [hvalid, hlost]⟩⟩
    next hconnected =>
      split at h
      next =>
        cases h
        exact ⟨none, _, .inl ⟨.inl ⟨rfl, rfl⟩, rfl, by simp [hvalid, hconnected]⟩⟩
      next =>
        obtain ⟨⟨rc, sent⟩, hagain, h⟩ := bind_eq_ok.mp h
        obtain ⟨sent', hsent, hagain⟩ := bind_eq_ok.mp hagain
        cases hagain
        refine ⟨some (writes k), clock.restart k, ?_⟩
        dsimp only at h
        by_cases hrc : sent.rc = successReturn
        · rw [if_neg (not_not.mpr hrc), if_neg (by decide)] at h
          cases h
          exact .inl ⟨.inr rfl, rfl, by simp [hvalid, hconnected, hsent, ok_bind, hrc]⟩
        · rw [if_pos hrc, if_pos rfl] at h
          cases h
          exact .inr ⟨rfl, rfl, by simp [hvalid, hconnected, hsent, ok_bind, hrc]⟩

/-- The walk that has still to visit `vs`, the newest first. -/
theorem pubVisit_values {writes : Nat → List Int} {vs : List (Timed PubInfo)} {k : Nat}
    {resent resent' : List Resent} {pubs : List (Option (Timed PubInfo))} {state' : McState}
    (h : sweepValues (pubVisit c clock writes) k (vs.map some) (state, resent) =
      .ok (pubs, state', resent')) :
    ∃ (late : List (Option (List Int))) (ws : List (Timed PubInfo)) (failed : Bool),
      late.length = vs.length ∧ pubs = ws.map some ∧
      sweepPub state (vs.reverse.map Timed.info) late = .ok (ws.reverse.map Timed.info, failed) ∧
      state' = if failed then .disconnected else state := by
  induction vs generalizing k resent pubs with
  | nil =>
      cases h
      exact ⟨[], [], false, rfl, rfl, rfl, rfl⟩
  | cons v vs ih =>
      obtain ⟨⟨res, state₁, resent₁⟩, hvisit, hrun⟩ := bind_eq_ok.mp h
      obtain ⟨w, ⟨rfl, rfl, hgone⟩ | ⟨startTime, ⟨hstays, rfl, hkept⟩ | ⟨rfl, rfl, hfailed⟩⟩⟩ :=
        pubVisit_cases hvisit
      · obtain ⟨late, ws, failed, hlen, hr, hsweep, hstate⟩ := ih hrun
        refine ⟨late ++ [w], ws, failed, by simp [hlen], hr, ?_, hstate⟩
        rw [infos_cons, sweepPub_concat (hlen.trans (infos_length vs).symm), hgone, ok_bind,
          hsweep]
        simp [ok_bind]
      · have hrest : ∃ rest, sweepValues (pubVisit c clock writes) (k + 1) (vs.map some)
            (state₁, resent₁) = .ok (rest, state', resent') ∧
              pubs = some { v with startTime } :: rest := by
          rcases hstays with ⟨rfl, rfl⟩ | rfl
          · obtain ⟨⟨rest, _⟩, hrest, hr⟩ := bind_eq_ok.mp hrun
            cases hr
            exact ⟨rest, hrest, rfl⟩
          · obtain ⟨⟨rest, _⟩, hrest, hr⟩ := bind_eq_ok.mp hrun
            cases hr
            exact ⟨rest, hrest, rfl⟩
        obtain ⟨rest, hrest, rfl⟩ := hrest
        obtain ⟨late, ws, failed, hlen, hr, hsweep, hstate⟩ := ih hrest
        refine ⟨late ++ [w], { v with startTime } :: ws, failed, by simp [hlen], ?_, ?_, hstate⟩
        · rw [hr]
          rfl
        · rw [infos_cons, infos_cons, sweepPub_concat (hlen.trans (infos_length vs).symm), hkept,
            ok_bind, hsweep]
          rfl
      · cases hrun
        -- What was not visited stays as it is.
        have hlen : (vs.map fun _ => (none : Option (List Int))).length = vs.length :=
          List.length_map ..
        refine ⟨vs.map (fun _ => none) ++ [w], { v with startTime } :: vs, true, by simp, rfl, ?_,
          rfl⟩
        rw [infos_cons, infos_cons, sweepPub_concat (hlen.trans (infos_length vs).symm), hfailed]
        rfl

/-- On the nodes `MQTTPubInfoProc` leaves the same publishes and the same state. -/
theorem mqttPubInfoProc_refines {iterator : Bool} {writes : Nat → List Int} {c' : Client}
    {resent : List Resent} (h : Abstracts c a)
    (hrun : mqttPubInfoProc c iterator clock writes = .ok (c', resent)) :
    ∃ late a', Mqtt.mqttPubInfoProc a iterator late = .ok a' ∧ Abstracts c' a' := by
  obtain ⟨⟨l, state, resent⟩, hsweep, hrun⟩ := bind_eq_ok.mp hrun
  cases hrun
  cases iterator with
  | false =>
      rw [sweep_noIterator] at hsweep
      cases hsweep
      exact ⟨[], a, rfl, h⟩
  | true =>
      obtain ⟨vs, hholds, hvs⟩ := h.pub
      cases hvalues : sweepValues (pubVisit c clock writes) 0 (vs.map some).reverse
          (c.clientState, []) with
      | error e =>
          rw [sweep_error hholds hvalues] at hsweep
          cases hsweep
      | ok r =>
          obtain ⟨pubs, state', resent'⟩ := r
          obtain ⟨l', hrun, hend⟩ := sweep_holds hholds hvalues
          rw [hrun] at hsweep
          cases hsweep
          rw [← List.map_reverse] at hvalues
          obtain ⟨late, ws, failed, -, hws, hpubs, hstate⟩ := pubVisit_values hvalues
          rw [List.reverse_reverse, hvs, h.clientState] at hpubs
          refine ⟨late, _, bind_eq_ok.mpr ⟨_, hpubs, rfl⟩, h.bufSend, ?_, h.handleEvent,
            ⟨ws.reverse, ?_, rfl⟩, h.sub⟩
          · exact hstate.trans (by rw [h.clientState])
          · rwa [List.map_reverse, ← hws]

end Publishes

/-! ## Acknowledgements -/

section Masks

variable {c : Client} {a : SubClient}

/-- The entries of a list on whose nodes a walk takes nothing out. -/
theorem map_entries {α σ : Type}
    {visit : Nat → Option (Timed α) → σ → Checked (Visit (Option (Timed α)) × σ)}
    {g : Option (Timed α) → Option (Timed α)} {step : σ → Option (Timed α) → σ} (f : α → α)
    {l : ListT (Option (Timed α))} {infos : List α}
    (hvisit : ∀ k v s, (visit k v s = .ok (.keep, step s v) ∧ g v = v) ∨
      visit k v s = .ok (.update (g v), step s v))
    (hg : ∀ e : Timed α, g (some e) = some { e with info := f e.info })
    (h : Entries l infos) (s : σ) :
    ∃ l', ∃ vs : List (Timed α), vs.map Timed.info = infos ∧
      sweep visit l true s = .ok (l', (vs.map some).reverse.foldl step s) ∧
      Entries l' (infos.map f) := by
  obtain ⟨vs, hholds, rfl⟩ := h
  have hvalues := sweepValues_map visit g step hvisit (vs.map some).reverse 0 s
  obtain ⟨l', hrun, hend⟩ := sweep_holds hholds hvalues
  rw [← List.map_reverse, List.reverse_reverse, List.map_map] at hend
  refine ⟨l', vs, rfl, hrun, vs.map fun e => { e with info := f e.info }, ?_, ?_⟩
  · rw [List.map_map]
    rwa [show g ∘ some = some ∘ fun e : Timed α => { e with info := f e.info } from funext hg]
      at hend
  · rw [List.map_map, List.map_map]
    rfl

/-- On the nodes the same publishes are marked. -/
theorem iotxMcMaskPubInfoFrom_refines (h : Abstracts c a) (iterator : Bool) (msgId : Nat) :
    ∃ c', iotxMcMaskPubInfoFrom c iterator msgId = .ok c' ∧
      Abstracts c' (Mqtt.iotxMcMaskPubInfoFrom a iterator msgId) := by
  cases iterator with
  | false => exact ⟨c, bind_eq_ok.mpr ⟨_, sweep_noIterator _ _, rfl⟩, h⟩
  | true =>
      obtain ⟨listPubWaitAck, _, -, hrun, hentries⟩ := map_entries
        (fun info => if info.msgId = msgId then { info with nodeState := .invalid } else info)
        (maskPubVisit_marks msgId) (fun e => by rw [markPub, Option.map_some]; split <;> rfl)
        h.pub ()
      exact ⟨{ c with listPubWaitAck }, bind_eq_ok.mpr ⟨_, hrun, rfl⟩, h.bufSend, h.clientState,
        h.handleEvent, hentries, h.sub⟩

/-- The loop on the list is a walk that keeps the handler of the last match. -/
theorem maskLoop_eq (msgId : Nat) (messageHandler : TopicHandle) (vs : List (Timed SubInfo)) :
    maskLoop msgId messageHandler (vs.map Timed.info) =
      ((vs.map some).reverse.foldl (maskedHandler msgId) messageHandler,
        (vs.map Timed.info).map fun info =>
          if info.msgId = msgId then { info with nodeState := .invalid } else info) := by
  induction vs with
  | nil => rfl
  | cons v vs ih =>
      rw [maskLoop] at ih ⊢
      rw [List.map_cons, List.foldr_cons, ih, List.map_cons, List.reverse_cons, List.foldl_append,
        List.foldl_cons, List.foldl_nil, List.map_cons, maskedHandler, Option.elim_some]
      by_cases hid : v.info.msgId = msgId
      · simp only [if_pos hid]
      · simp only [if_neg hid]

/-- On the nodes the same requests are marked, and the same handler is found. -/
theorem iotxMcMaskSubInfoFrom_refines (h : Abstracts c a) (iterator : Bool) (msgId : Nat)
    (messageHandler : TopicHandle) :
    ∃ c', iotxMcMaskSubInfoFrom c iterator msgId messageHandler =
        .ok ((Mqtt.iotxMcMaskSubInfoFrom a iterator msgId messageHandler).1, c') ∧
      Abstracts c' (Mqtt.iotxMcMaskSubInfoFrom a iterator msgId messageHandler).2 := by
  cases iterator with
  | false => exact ⟨c, bind_eq_ok.mpr ⟨_, sweep_noIterator _ _, rfl⟩, h⟩
  | true =>
      obtain ⟨listSubWaitAck, vs, hvs, hrun, hentries⟩ := map_entries
        (fun info => if info.msgId = msgId then { info with nodeState := .invalid } else info)
        (maskSubVisit_marks msgId) (fun e => by rw [markSub, Option.map_some]; split <;> rfl)
        h.sub messageHandler
      have hloop := maskLoop_eq msgId messageHandler vs
      rw [hvs] at hloop
      refine ⟨{ c with listSubWaitAck }, bind_eq_ok.mpr ⟨_, hrun, ?_⟩, h.bufSend, h.clientState,
        h.handleEvent, h.pub, ?_⟩
      · simp only [Mqtt.iotxMcMaskSubInfoFrom, hloop]
        rfl
      · simp only [Mqtt.iotxMcMaskSubInfoFrom, hloop]
        exact hentries

end Masks

end IotKit.Mqtt.Pending
