import IotKit.Mqtt.Ack
import IotKit.Mqtt.Pending
import IotKit.Utils.Timer

/-!
# Sweeping the pending lists

`MQTTSubInfoProc` and `MQTTPubInfoProc`.  Both walk their list from the newest entry to the
oldest with an iterator that is one node ahead, and take a finished node out one pass later
(`sweepLoop`).  `sweepValues` is the same on the values alone, and `sweepLoop_values` says that
the walk over the nodes computes it.
-/

namespace IotKit.Mqtt.Pending

open CMemory Utils LinkedList

/-! ## The walk -/

/-- How a pass over a node ends. -/
inductive Visit (α : Type) where
  /-- `tempNode = node; continue` -/
  | remove
  /-- `continue` -/
  | keep
  /-- The value is changed, and the loop goes on. -/
  | update (v : α)
  /-- The value is changed, and the loop breaks. -/
  | stop (v : α)

/-- `list_remove` of `tempNode` where it is not NULL. -/
def removeTemp {α : Type} (l : ListT α) (tempNode : Option Nat) : Checked (ListT α) :=
  match tempNode with
  | none => .ok l
  | some node => access (listRemove l node)

/-- A write to the value of a node. -/
def writeVal {α : Type} (l : ListT α) (node : Nat) (v : α) : Checked (ListT α) := do
  let heap ← access (setVal l.heap node v)
  .ok { l with heap }

/-- The loop of a walk.  `visit` is its body behind the test for the end of the list, `k` counts
the passes, and `fuel` bounds them. -/
def sweepLoop {α σ : Type} (visit : Nat → α → σ → Checked (Visit α × σ)) :
    Nat → Nat → ListT α → ListIterator → Option Nat → σ → Checked (ListT α × σ)
  | 0, _, _, _, _, _ => .error .diverge
  | fuel + 1, k, l, iter, tempNode, s => do
      let (node, iter) ← access (listIteratorNext l iter)
      let l ← removeTemp l tempNode
      match node with
      | none => .ok (l, s)
      | some node => do
          let n ← access (l.heap.read node)
          let (res, s) ← visit k n.val s
          match res with
          | .remove => sweepLoop visit fuel (k + 1) l iter (some node) s
          | .keep => sweepLoop visit fuel (k + 1) l iter none s
          | .update v => do
              let l ← writeVal l node v
              sweepLoop visit fuel (k + 1) l iter none s
          | .stop v => do
              let l ← writeVal l node v
              .ok (l, s)

/-- The walk from the end of a list.  Without memory for the iterator there is none.  A walk
that visits more nodes than were ever allocated has come back to one. -/
def sweep {α σ : Type} (visit : Nat → α → σ → Checked (Visit α × σ)) (l : ListT α)
    (iterator : Bool) (s : σ) : Checked (ListT α × σ) :=
  if l.len = 0 then .ok (l, s)
  else
    match listIteratorNew l .tail iterator with
    | none => .ok (l, s)
    | some iter => sweepLoop visit (l.heap.next + 1) 0 l iter none s

/-- The walk on the values, the newest first. -/
def sweepValues {α σ : Type} (visit : Nat → α → σ → Checked (Visit α × σ)) :
    Nat → List α → σ → Checked (List α × σ)
  | _, [], s => .ok ([], s)
  | k, v :: vs, s => do
      let (res, s) ← visit k v s
      match res with
      | .remove => sweepValues visit (k + 1) vs s
      | .keep => do
          let (ws, s) ← sweepValues visit (k + 1) vs s
          .ok (v :: ws, s)
      | .update w => do
          let (ws, s) ← sweepValues visit (k + 1) vs s
          .ok (w :: ws, s)
      | .stop w => .ok (w :: vs, s)

section Walk

variable {α σ : Type} {visit : Nat → α → σ → Checked (Visit α × σ)} {l : ListT α}

/-- `tempNode` is the node behind those that the iterator has still to visit. -/
inductive Temp : Option Nat → List (Nat × α) → Prop where
  | none : Temp none []
  | some (a : Nat) (v : α) : Temp (some a) [(a, v)]

theorem removeTemp_linked {tempNode : Option Nat} {ns ts ms : List (Nat × α)}
    (htemp : Temp tempNode ts) (h : Linked l (ns ++ (ts ++ ms))) :
    ∃ l', removeTemp l tempNode = .ok l' ∧ Linked l' (ns ++ ms) := by
  cases htemp with
  | none => exact ⟨l, rfl, h⟩
  | some a v =>
      obtain ⟨l', hremove, hlinked, -⟩ := listRemove_linked h
      exact ⟨l', access_of_ok hremove, hlinked⟩

theorem writeVal_linked {ns ms : List (Nat × α)} {a : Nat} {v : α} (w : α)
    (h : Linked l (ns ++ (a, v) :: ms)) :
    ∃ l', writeVal l a w = .ok l' ∧ Linked l' (ns ++ (a, w) :: ms) := by
  obtain ⟨heap, hset, hlinked⟩ := setVal_linked w h
  exact ⟨_, bind_eq_ok.mpr ⟨heap, access_of_ok hset, rfl⟩, hlinked⟩

/-- Behind the last node the walk takes `tempNode` out. -/
theorem sweepLoop_end {fuel k : Nat} {tempNode : Option Nat} {ts ms : List (Nat × α)} {s : σ}
    (htemp : Temp tempNode ts) (h : Linked l (ts ++ ms)) :
    ∃ l₁, sweepLoop visit (fuel + 1) k l ⟨none, .tail⟩ tempNode s = .ok (l₁, s) ∧ Linked l₁ ms := by
  obtain ⟨l₁, hremove, hlinked⟩ :=
    removeTemp_linked htemp (show Linked l ([] ++ (ts ++ ms)) from h)
  exact ⟨l₁, bind_eq_ok.mpr ⟨_, rfl, bind_eq_ok.mpr ⟨l₁, hremove, rfl⟩⟩, hlinked⟩

/-- A pass over the node `a` takes `tempNode` out, and then does what `visit` says. -/
theorem sweepLoop_pass {fuel k : Nat} {tempNode : Option Nat} {ns ts ms : List (Nat × α)} {a : Nat}
    {v : α} {s : σ} (htemp : Temp tempNode ts) (h : Linked l (ns ++ (a, v) :: (ts ++ ms))) :
    ∃ l₁, Linked l₁ (ns ++ (a, v) :: ms) ∧
      sweepLoop visit (fuel + 1) k l ⟨back none (ns ++ [(a, v)]), .tail⟩ tempNode s =
        visit k v s >>= fun (res, s) =>
          match res with
          | .remove => sweepLoop visit fuel (k + 1) l₁ ⟨back none ns, .tail⟩ (some a) s
          | .keep => sweepLoop visit fuel (k + 1) l₁ ⟨back none ns, .tail⟩ none s
          | .update w =>
              writeVal l₁ a w >>= fun l =>
                sweepLoop visit fuel (k + 1) l ⟨back none ns, .tail⟩ none s
          | .stop w => writeVal l₁ a w >>= fun l => .ok (l, s) := by
  have happ : Linked l ((ns ++ [(a, v)]) ++ (ts ++ ms)) := by
    rwa [List.append_assoc, List.singleton_append]
  obtain ⟨l₁, hremove, hlinked⟩ := removeTemp_linked htemp happ
  rw [List.append_assoc, List.singleton_append] at hlinked
  have hnext : listIteratorNext l ⟨back none (ns ++ [(a, v)]), .tail⟩ =
      .ok (some a, ⟨back none ns, .tail⟩) := by
    rw [back_append]
    exact listIteratorNext_tail h
  have hread : access (l₁.heap.read a) = .ok _ :=
    access_of_ok (ObjectHeap.Heap.read_eq_ok.mpr (chain_split.mp hlinked.chain).2.1)
  refine ⟨l₁, hlinked, ?_⟩
  rw [sweepLoop, access_of_ok hnext, ok_bind]
  dsimp only
  rw [hremove, ok_bind]
  rw [hread, ok_bind]

/-- The walk has still to visit `ns`, from the last to the first, and keeps `ms`. -/
theorem sweepLoop_values {fuel k : Nat} {tempNode : Option Nat} {ns ts ms : List (Nat × α)}
    {s s' : σ} {ws : List α} (hfuel : ns.length < fuel) (htemp : Temp tempNode ts)
    (h : Linked l (ns ++ (ts ++ ms)))
    (hvalues : sweepValues visit k (ns.map Prod.snd).reverse s = .ok (ws, s')) :
    ∃ l' ns', sweepLoop visit fuel k l ⟨back none ns, .tail⟩ tempNode s = .ok (l', s') ∧
      Linked l' (ns' ++ ms) ∧ ns'.map Prod.snd = ws.reverse := by
  induction fuel generalizing k l tempNode ns ts ms s ws with
  | zero => exact absurd hfuel (Nat.not_lt_zero _)
  | succ fuel ih =>
      rcases List.eq_nil_or_concat ns with rfl | ⟨ns, ⟨a, v⟩, rfl⟩
      · cases hvalues
        obtain ⟨l₁, hrun, hlinked⟩ := sweepLoop_end htemp h
        exact ⟨l₁, [], hrun, hlinked, rfl⟩
      · rw [List.concat_eq_append] at *
        rw [List.length_append, List.length_singleton] at hfuel
        rw [List.map_append, List.map_singleton, List.reverse_concat] at hvalues
        rw [List.append_assoc] at h
        obtain ⟨l₁, hlinked, hpass⟩ := sweepLoop_pass htemp h
        obtain ⟨⟨res, s₁⟩, hvisit, hvalues⟩ := bind_eq_ok.mp hvalues
        rw [hpass, hvisit, ok_bind]
        cases res with
        | remove =>
            obtain ⟨l', ns', hrun, hend⟩ := ih (by omega) (.some a v) hlinked hvalues
            exact ⟨l', ns', hrun, hend⟩
        | keep =>
            obtain ⟨⟨ws', s₂⟩, hvalues, hws⟩ := bind_eq_ok.mp hvalues
            cases hws
            obtain ⟨l', ns', hrun, hend, hmap⟩ := ih (by omega) .none hlinked hvalues
            refine ⟨l', ns' ++ [(a, v)], hrun, ?_, ?_⟩
            · rwa [List.append_assoc]
            · rw [List.map_append, hmap, List.reverse_cons]
              rfl
        | update w =>
            obtain ⟨⟨ws', s₂⟩, hvalues, hws⟩ := bind_eq_ok.mp hvalues
            cases hws
            obtain ⟨l₂, hwrite, hlinked₂⟩ := writeVal_linked w hlinked
            obtain ⟨l', ns', hrun, hend, hmap⟩ := ih (by omega) .none hlinked₂ hvalues
            refine ⟨l', ns' ++ [(a, w)], bind_eq_ok.mpr ⟨l₂, hwrite, hrun⟩, ?_, ?_⟩
            · rwa [List.append_assoc]
            · rw [List.map_append, hmap, List.reverse_cons]
              rfl
        | stop w =>
            cases hvalues
            obtain ⟨l₂, hwrite, hlinked₂⟩ := writeVal_linked w hlinked
            refine ⟨l₂, ns ++ [(a, w)], bind_eq_ok.mpr ⟨l₂, hwrite, rfl⟩, ?_, ?_⟩
            · rwa [List.append_assoc]
            · rw [List.map_append, List.reverse_cons, List.reverse_reverse]
              rfl

/-- Where the walk over the values fails, the one over the nodes does. -/
theorem sweepLoop_error {fuel k : Nat} {tempNode : Option Nat} {ns ts ms : List (Nat × α)} {s : σ}
    {e : Fault} (hfuel : ns.length < fuel) (htemp : Temp tempNode ts)
    (h : Linked l (ns ++ (ts ++ ms)))
    (hvalues : sweepValues visit k (ns.map Prod.snd).reverse s = .error e) :
    sweepLoop visit fuel k l ⟨back none ns, .tail⟩ tempNode s = .error e := by
  induction fuel generalizing k l tempNode ns ts ms s with
  | zero => exact absurd hfuel (Nat.not_lt_zero _)
  | succ fuel ih =>
      rcases List.eq_nil_or_concat ns with rfl | ⟨ns, ⟨a, v⟩, rfl⟩
      · cases hvalues
      · rw [List.concat_eq_append] at *
        rw [List.length_append, List.length_singleton] at hfuel
        rw [List.map_append, List.map_singleton, List.reverse_concat] at hvalues
        rw [List.append_assoc] at h
        obtain ⟨l₁, hlinked, hpass⟩ := sweepLoop_pass htemp h
        rw [hpass]
        refine bind_eq_error.mpr ((bind_eq_error.mp hvalues).imp_right ?_)
        rintro ⟨⟨res, s₁⟩, hvisit, hvalues⟩
        refine ⟨(res, s₁), hvisit, ?_⟩
        cases res with
        | remove => exact ih (by omega) (.some a v) hlinked hvalues
        | keep =>
            rcases bind_eq_error.mp hvalues with hvalues | ⟨_, _, hvalues⟩
            · exact ih (by omega) .none hlinked hvalues
            · cases hvalues
        | update w =>
            obtain ⟨l₂, hwrite, hlinked₂⟩ := writeVal_linked w hlinked
            rcases bind_eq_error.mp hvalues with hvalues | ⟨_, _, hvalues⟩
            · exact bind_eq_error.mpr (Or.inr ⟨l₂, hwrite, ih (by omega) .none hlinked₂ hvalues⟩)
            · cases hvalues
        | stop w => cases hvalues

/-- The walk over a list is the walk over its values. -/
theorem sweep_holds {vs ws : List α} {s s' : σ} (h : l.Holds vs)
    (hvalues : sweepValues visit 0 vs.reverse s = .ok (ws, s')) :
    ∃ l', sweep visit l true s = .ok (l', s') ∧ l'.Holds ws.reverse := by
  obtain ⟨ns, hns, rfl⟩ := h
  rw [sweep]
  split
  next hzero =>
    obtain rfl := hns.len_eq_zero.mp hzero
    cases hvalues
    exact ⟨l, rfl, [], hns, rfl⟩
  next =>
    have hlinked : Linked l (ns ++ ([] ++ [])) := by rwa [List.append_nil, List.append_nil]
    obtain ⟨l', ns', hrun, hend, hmap⟩ :=
      sweepLoop_values (Nat.lt_succ_of_le hns.length_le) .none hlinked hvalues
    rw [List.append_nil] at hend
    refine ⟨l', ?_, ns', hend, hmap⟩
    rw [← hns.tail] at hrun
    exact hrun

theorem sweep_error {vs : List α} {s : σ} {e : Fault} (h : l.Holds vs)
    (hvalues : sweepValues visit 0 vs.reverse s = .error e) :
    sweep visit l true s = .error e := by
  obtain ⟨ns, hns, rfl⟩ := h
  rw [sweep]
  split
  next hzero =>
    obtain rfl := hns.len_eq_zero.mp hzero
    cases hvalues
  next =>
    have hlinked : Linked l (ns ++ ([] ++ [])) := by rwa [List.append_nil, List.append_nil]
    have hrun := sweepLoop_error (Nat.lt_succ_of_le hns.length_le) .none hlinked hvalues
    rw [← hns.tail] at hrun
    exact hrun

theorem sweep_noIterator (l : ListT α) (s : σ) : sweep visit l false s = .ok (l, s) := by
  rw [sweep]
  split
  next => rfl
  next => rfl

end Walk

/-! ## The source -/

/-- The readings of `HAL_UptimeMs` in a sweep: where the entry of pass `k` is checked, and
where it is started again.  No reading is before an earlier one. -/
structure SweepClock where
  spend : Nat → UInt32
  restart : Nat → UInt32
  spend_le : ∀ k, spend k ≤ restart k
  restart_le : ∀ k, restart k ≤ spend (k + 1)

/-- `utils_time_spend` where the clock reads `now`. -/
def utilsTimeSpend (start now : UInt32) : UInt32 := now - start

theorem utilsTimeSpend_reading (start : UInt32) (c : Timer.Clock) :
    (Timer.utilsTimeSpend (some start) c).1 = utilsTimeSpend start (Timer.halUptimeMs c).1 := rfl

/-- The body of the loop of `MQTTSubInfoProc`. -/
def subVisit (c : Client) (clock : SweepClock) (k : Nat) :
    Option (Timed SubInfo) → List EventMsg →
      Checked (Visit (Option (Timed SubInfo)) × List EventMsg)
  | none, events => .ok (.remove, events)
  | some e, events =>
      if e.info.nodeState = .invalid then .ok (.remove, events)
      else if c.clientState ≠ .connected then .ok (.keep, events)
      else if utilsTimeSpend e.startTime (clock.spend k) ≤ c.requestTimeoutMs * 2 then
        .ok (.keep, events)
      else
        let eventType :=
          if e.info.type = .subscribe then .subcribeTimeout else .unsubcribeTimeout
        .ok (.remove, events ++ c.handleEvent.notify eventType e.info.msgId)

/-- `MQTTSubInfoProc`: the client and the events. -/
def mqttSubInfoProc (c : Client) (iterator : Bool) (clock : SweepClock) :
    Checked (Client × List EventMsg) := do
  let (listSubWaitAck, events) ← sweep (subVisit c clock) c.listSubWaitAck iterator []
  .ok ({ c with listSubWaitAck }, events)

/-- A packet that was handed to `iotx_mc_send_packet` again. -/
structure Resent where
  packet : Bytes
  res : SendResult
deriving DecidableEq, Repr

/-- `MQTTRePublish`. -/
def mqttRePublish (buf : Bytes) (len : Nat) (writes : List Int) : Checked (Int × SendResult) := do
  let sent ← iotxMcSendPacket buf len writes
  .ok (if sent.rc ≠ successReturn then mqttNetworkError else successReturn, sent)

/-- The body of the loop of `MQTTPubInfoProc`.  The client state is read for each entry, and the
results of `ipstack->write` in pass `k` are `writes k`. -/
def pubVisit (c : Client) (clock : SweepClock) (writes : Nat → List Int) (k : Nat) :
    Option (Timed PubInfo) → McState × List Resent →
      Checked (Visit (Option (Timed PubInfo)) × McState × List Resent)
  | none, s => .ok (.remove, s)
  | some e, s =>
      if e.info.nodeState = .invalid then .ok (.remove, s)
      else if s.1 ≠ .connected then .ok (.keep, s)
      else if utilsTimeSpend e.startTime (clock.spend k) ≤ c.requestTimeoutMs * 2 then
        .ok (.keep, s)
      else do
        let (rc, sent) ← mqttRePublish e.info.buf e.info.buf.length (writes k)
        let e := { e with startTime := clock.restart k }
        let resent := s.2 ++ [⟨e.info.buf, sent⟩]
        if rc = mqttNetworkError then .ok (.stop (some e), .disconnected, resent)
        else .ok (.update (some e), s.1, resent)

/-- `MQTTPubInfoProc`: the client and the packets that were sent again. -/
def mqttPubInfoProc (c : Client) (iterator : Bool) (clock : SweepClock)
    (writes : Nat → List Int) : Checked (Client × List Resent) := do
  let (listPubWaitAck, clientState, resent) ←
    sweep (pubVisit c clock writes) c.listPubWaitAck iterator (c.clientState, [])
  .ok ({ c with listPubWaitAck, clientState }, resent)

/-! ## Finished requests -/

/-- The entries with their passes, the newest first. -/
def visits {α : Type} (vs : List α) : List (α × Nat) := vs.reverse.zipIdx

/-- A NORMAL entry is older than twice the request timeout. -/
def timedOut {α : Type} (nodeState : α → NodeState) (c : Client) (clock : SweepClock) :
    Option (Timed α) × Nat → Bool
  | (some e, k) => nodeState e.info = .normal ∧
      2 * c.requestTimeoutMs.toNat < (clock.spend k).toNat - e.startTime.toNat
  | (none, _) => false

/-- A sweep deals with an entry that timed out where the client is connected. -/
def due {α : Type} (nodeState : α → NodeState) (c : Client) (clock : SweepClock)
    (p : Option (Timed α) × Nat) : Bool :=
  c.clientState = .connected && timedOut nodeState c clock p

/-- A NORMAL entry. -/
def normal {α : Type} (nodeState : α → NodeState) : Option (Timed α) → Bool
  | some e => nodeState e.info = .normal
  | none => false

/-- The event of a request that timed out. -/
def timeoutEvent (c : Client) : Option (Timed SubInfo) → List EventMsg
  | some e => c.handleEvent.notify
      (if e.info.type = .subscribe then .subcribeTimeout else .unsubcribeTimeout) e.info.msgId
  | none => []

/-- No entry was started after the sweep. -/
def Started {α : Type} (clock : SweepClock) (vs : List (Option (Timed α))) : Prop :=
  ∀ e, some e ∈ vs → e.startTime ≤ clock.spend 0

section Sweeps

variable {c : Client} {clock : SweepClock} {pubs : List (Option (Timed PubInfo))}
  {subs : List (Option (Timed SubInfo))}

theorem SweepClock.le_spend (clock : SweepClock) (k : Nat) : clock.spend 0 ≤ clock.spend k := by
  induction k with
  | zero => exact UInt32.le_refl _
  | succ k ih =>
      exact UInt32.le_trans ih (UInt32.le_trans (clock.spend_le k) (clock.restart_le k))

/-- The check of the source, on the numbers. -/
theorem spend_le_iff {startTime now : UInt32} (h : startTime ≤ now) :
    utilsTimeSpend startTime now ≤ c.requestTimeoutMs * 2 ↔
      ¬2 * c.requestTimeoutMs.toNat < now.toNat - startTime.toNat := by
  have hmax := UInt32.le_iff_toNat_le.mp c.timeout_le
  have hvalue : iotxMcRequestTimeoutMaxMs.toNat = 5000 := rfl
  have htwo : (c.requestTimeoutMs * 2).toNat = 2 * c.requestTimeoutMs.toNat := by
    rw [UInt32.toNat_mul, show UInt32.toNat 2 = 2 from rfl, Nat.mul_comm, Nat.mod_eq_of_lt]
    omega
  rw [UInt32.le_iff_toNat_le, utilsTimeSpend, UInt32.toNat_sub_of_le _ _ h, htwo, Nat.not_lt]

/-- The requests that a sweep leaves, the newest first. -/
def staying (c : Client) (clock : SweepClock) (ps : List (Option (Timed SubInfo) × Nat)) :
    List (Option (Timed SubInfo)) :=
  (ps.filter fun p => normal SubInfo.nodeState p.1 && !due SubInfo.nodeState c clock p).map
    Prod.fst

/-- The events of a sweep, in their order. -/
def timeoutEvents (c : Client) (clock : SweepClock) (ps : List (Option (Timed SubInfo) × Nat)) :
    List EventMsg :=
  (ps.filter (due SubInfo.nodeState c clock)).flatMap fun p => timeoutEvent c p.1

theorem due_iff {α : Type} {nodeState : α → NodeState} {e : Timed α} {k : Nat}
    (hnormal : nodeState e.info = .normal) (hstart : e.startTime ≤ clock.spend k) :
    due nodeState c clock (some e, k) = true ↔ c.clientState = .connected ∧
      ¬utilsTimeSpend e.startTime (clock.spend k) ≤ c.requestTimeoutMs * 2 := by
  rw [spend_le_iff hstart, not_not, due, Bool.and_eq_true, decide_eq_true_iff, timedOut,
    decide_eq_true_iff]
  exact and_congr_right fun _ => and_iff_right hnormal

theorem sweepValues_sub (vs : List (Option (Timed SubInfo))) (hstarted : Started clock vs) (k : Nat)
    (events : List EventMsg) :
    sweepValues (subVisit c clock) k vs events =
      .ok (staying c clock (vs.zipIdx k), events ++ timeoutEvents c clock (vs.zipIdx k)) := by
  induction vs generalizing k events with
  | nil => rw [sweepValues, List.zipIdx_nil, staying, timeoutEvents, List.filter_nil,
      List.filter_nil, List.flatMap_nil, List.append_nil, List.map_nil]
  | cons v vs ih =>
      have hrest : Started clock vs := fun e he => hstarted e (List.mem_cons_of_mem _ he)
      rw [List.zipIdx_cons, staying, timeoutEvents]
      cases v with
      | none =>
          rw [sweepValues, subVisit, ok_bind]
          dsimp only
          rw [ih hrest, List.filter_cons_of_neg (by simp [normal]),
            List.filter_cons_of_neg (by simp [due, timedOut])]
          rfl
      | some e =>
          have hstart := UInt32.le_trans (hstarted e (List.mem_cons_self ..)) (clock.le_spend k)
          rw [sweepValues, subVisit]
          cases hnormal : e.info.nodeState with
          | invalid =>
              rw [if_pos rfl, ok_bind]
              dsimp only
              rw [ih hrest, List.filter_cons_of_neg (by simp [normal, hnormal]),
                List.filter_cons_of_neg (by simp [due, timedOut, hnormal])]
              rfl
          | normal =>
              rw [if_neg nofun]
              by_cases hdue : due SubInfo.nodeState c clock (some e, k) = true
              · obtain ⟨hconnected, hold⟩ := (due_iff hnormal hstart).mp hdue
                rw [if_neg (not_not.mpr hconnected), if_neg hold, ok_bind]
                dsimp only
                rw [ih hrest, List.filter_cons_of_neg (by simp [hdue]),
                  List.filter_cons_of_pos (by exact hdue), List.flatMap_cons, List.append_assoc]
                rfl
              · have hkeep : (if c.clientState ≠ .connected then
                    Except.ok (Visit.keep, events)
                  else if utilsTimeSpend e.startTime (clock.spend k) ≤ c.requestTimeoutMs * 2 then
                    .ok (.keep, events)
                  else
                    .ok (.remove, events ++ c.handleEvent.notify
                      (if e.info.type = .subscribe then .subcribeTimeout else .unsubcribeTimeout)
                      e.info.msgId) :
                    Checked (Visit (Option (Timed SubInfo)) × List EventMsg)) =
                    .ok (.keep, events) := by
                  rw [due_iff hnormal hstart, not_and, not_not] at hdue
                  split
                  next => rfl
                  next hconnected => exact if_pos (hdue (not_not.mp hconnected))
                rw [hkeep, ok_bind]
                dsimp only
                rw [ih hrest, List.filter_cons_of_pos (by simp [normal, hnormal, hdue]),
                  List.filter_cons_of_neg hdue]
                rfl

/-- `MQTTSubInfoProc` with memory for its iterator. -/
theorem mqttSubInfoProc_sweeps (hlists : Lists c pubs subs) (hstarted : Started clock subs) :
    ∃ c', mqttSubInfoProc c true clock = .ok (c', timeoutEvents c clock (visits subs)) ∧
      Lists c' pubs (staying c clock (visits subs)).reverse := by
  have hstarted' : Started clock subs.reverse := fun e he => hstarted e (List.mem_reverse.mp he)
  obtain ⟨listSubWaitAck, hrun, hholds⟩ :=
    sweep_holds hlists.sub (sweepValues_sub (c := c) subs.reverse hstarted' 0 [])
  refine ⟨{ c with listSubWaitAck }, bind_eq_ok.mpr ⟨_, hrun, rfl⟩, hlists.pub, hholds,
    hlists.pub_le, ?_⟩
  rw [List.length_reverse, staying, List.length_map]
  refine Nat.le_trans (List.length_filter_le ..) ?_
  rw [visits, List.length_zipIdx, List.length_reverse]
  exact hlists.sub_le

/-- An entry after its pass. -/
def restarted (c : Client) (clock : SweepClock) :
    Option (Timed PubInfo) × Nat → Option (Timed PubInfo)
  | (some e, k) =>
      if due PubInfo.nodeState c clock (some e, k) then some { e with startTime := clock.restart k }
      else some e
  | (none, _) => none

/-- The publishes that a sweep leaves of those it visits, the newest first. -/
def remaining (c : Client) (clock : SweepClock) (ps : List (Option (Timed PubInfo) × Nat)) :
    List (Option (Timed PubInfo)) :=
  (ps.filter fun p => normal PubInfo.nodeState p.1).map (restarted c clock)

/-- A packet that was sent again is the stored one. -/
def SentAgain (writes : Nat → List Int) (p : Option (Timed PubInfo) × Nat) (r : Resent) : Prop :=
  ∃ e, p.1 = some e ∧ r.packet = e.info.buf ∧
    iotxMcSendPacket e.info.buf e.info.buf.length (writes p.2) = .ok r.res

/-- What a sweep that visits `visited` sends again, and why it leaves `rest`. -/
structure PubSwept (c : Client) (clock : SweepClock) (writes : Nat → List Int)
    (visited : List (Option (Timed PubInfo) × Nat)) (rest : List (Option (Timed PubInfo)))
    (state : McState) (resent : List Resent) : Prop where
  sent : List.Forall₂ (SentAgain writes) (visited.filter (due PubInfo.nodeState c clock)) resent
  ended : (rest = [] ∧ state = c.clientState ∧ ∀ r ∈ resent, r.res.rc = successReturn) ∨
    (state = .disconnected ∧ ∃ before last, resent = before ++ [last] ∧
      (∀ r ∈ before, r.res.rc = successReturn) ∧ last.res.rc ≠ successReturn)

/-- The network takes bytes from behind a stored packet that is sent again. -/
def SentOutside (c : Client) (clock : SweepClock) (writes : Nat → List Int)
    (ps : List (Option (Timed PubInfo) × Nat)) : Prop :=
  ∃ e k, (some e, k) ∈ ps ∧ due PubInfo.nodeState c clock (some e, k) = true ∧
    ¬WritesInside e.info.buf.length e.info.buf.length (writes k) 0

section Publishes

variable {writes : Nat → List Int} {visited : List (Option (Timed PubInfo) × Nat)}
  {rest : List (Option (Timed PubInfo))} {state : McState} {resent : List Resent}
  {p : Option (Timed PubInfo) × Nat}

theorem PubSwept.skip (hnot : ¬due PubInfo.nodeState c clock p = true)
    (h : PubSwept c clock writes visited rest state resent) :
    PubSwept c clock writes (p :: visited) rest state resent := by
  refine ⟨?_, h.ended⟩
  rw [List.filter_cons_of_neg hnot]
  exact h.sent

theorem PubSwept.send {r : Resent} (hlate : due PubInfo.nodeState c clock p = true)
    (hagain : SentAgain writes p r) (hrc : r.res.rc = successReturn)
    (h : PubSwept c clock writes visited rest state resent) :
    PubSwept c clock writes (p :: visited) rest state (r :: resent) := by
  refine ⟨?_, h.ended.imp ?_ ?_⟩
  · rw [List.filter_cons_of_pos hlate]
    exact .cons hagain h.sent
  · rintro ⟨hrest, hstate, hall⟩
    exact ⟨hrest, hstate, List.forall_mem_cons.mpr ⟨hrc, hall⟩⟩
  · rintro ⟨hstate, before, last, rfl, hall, hlast⟩
    exact ⟨hstate, r :: before, last, rfl, List.forall_mem_cons.mpr ⟨hrc, hall⟩, hlast⟩

theorem remaining_cons (e : Timed PubInfo) (k : Nat) (hnormal : e.info.nodeState = .normal)
    (ps : List (Option (Timed PubInfo) × Nat)) :
    remaining c clock ((some e, k) :: ps) =
      restarted c clock (some e, k) :: remaining c clock ps := by
  rw [remaining, List.filter_cons_of_pos (by simp [normal, hnormal]), List.map_cons, remaining]

theorem remaining_skip (hnot : normal PubInfo.nodeState p.1 = false)
    (ps : List (Option (Timed PubInfo) × Nat)) :
    remaining c clock (p :: ps) = remaining c clock ps := by
  rw [remaining, List.filter_cons_of_neg (by simp [hnot]), remaining]

theorem pubVisit_keep {e : Timed PubInfo} {k : Nat} (hnormal : e.info.nodeState = .normal)
    (hstart : e.startTime ≤ clock.spend k)
    (hnot : ¬due PubInfo.nodeState c clock (some e, k) = true) (log : List Resent) :
    pubVisit c clock writes k (some e) (c.clientState, log) = .ok (.keep, c.clientState, log) := by
  rw [due_iff hnormal hstart, not_and, not_not] at hnot
  rw [pubVisit, if_neg (by rw [hnormal]; nofun)]
  split
  next => rfl
  next hconnected => exact if_pos (hnot (not_not.mp hconnected))

theorem pubVisit_send {e : Timed PubInfo} {k : Nat} (hnormal : e.info.nodeState = .normal)
    (hstart : e.startTime ≤ clock.spend k)
    (hlate : due PubInfo.nodeState c clock (some e, k) = true) {res : SendResult}
    (hsent : iotxMcSendPacket e.info.buf e.info.buf.length (writes k) = .ok res)
    (log : List Resent) :
    pubVisit c clock writes k (some e) (c.clientState, log) =
      if res.rc = successReturn then
        .ok (.update (some { e with startTime := clock.restart k }), c.clientState,
          log ++ [⟨e.info.buf, res⟩])
      else
        .ok (.stop (some { e with startTime := clock.restart k }), .disconnected,
          log ++ [⟨e.info.buf, res⟩]) := by
  obtain ⟨hconnected, hold⟩ := (due_iff hnormal hstart).mp hlate
  rw [pubVisit, if_neg (by rw [hnormal]; nofun), if_neg (not_not.mpr hconnected), if_neg hold,
    mqttRePublish, hsent, ok_bind, ok_bind]
  dsimp only
  by_cases hrc : res.rc = successReturn
  · rw [if_neg (not_not.mpr hrc), if_neg mqttNetworkError_ne_success.symm, if_pos hrc]
  · rw [if_pos hrc, if_pos rfl, if_neg hrc]

theorem pubVisit_outside {e : Timed PubInfo} {k : Nat} (hnormal : e.info.nodeState = .normal)
    (hstart : e.startTime ≤ clock.spend k)
    (hlate : due PubInfo.nodeState c clock (some e, k) = true)
    (hout : ¬WritesInside e.info.buf.length e.info.buf.length (writes k) 0) (log : List Resent) :
    ∃ err, pubVisit c clock writes k (some e) (c.clientState, log) = .error err := by
  obtain ⟨hconnected, hold⟩ := (due_iff hnormal hstart).mp hlate
  rw [pubVisit, if_neg (by rw [hnormal]; nofun), if_neg (not_not.mpr hconnected), if_neg hold,
    mqttRePublish]
  cases hsent : iotxMcSendPacket e.info.buf e.info.buf.length (writes k) with
  | error err => exact ⟨err, rfl⟩
  | ok res => exact absurd (iotxMcSendPacket_inside.mp ⟨res, hsent⟩) hout

/-- The walk over the values `vs` from pass `k` comes to a node where it stops, or the network
takes bytes from behind a packet. -/
def PubWalked (c : Client) (clock : SweepClock) (writes : Nat → List Int) (k : Nat)
    (vs : List (Option (Timed PubInfo))) (log : List Resent) : Prop :=
  (∃ visited rest state resent, vs = visited ++ rest ∧
    sweepValues (pubVisit c clock writes) k vs (c.clientState, log) =
      .ok (remaining c clock (visited.zipIdx k) ++ rest, state, log ++ resent) ∧
    PubSwept c clock writes (visited.zipIdx k) rest state resent) ∨
  (∃ err, sweepValues (pubVisit c clock writes) k vs (c.clientState, log) = .error err) ∧
    SentOutside c clock writes (vs.zipIdx k)

section Walked

variable {k : Nat} {v : Option (Timed PubInfo)} {e : Timed PubInfo}
  {vs : List (Option (Timed PubInfo))} {log : List Resent}

theorem SentOutside.later (h : SentOutside c clock writes (vs.zipIdx (k + 1))) :
    SentOutside c clock writes ((v :: vs).zipIdx k) := by
  obtain ⟨e, j, he, hout⟩ := h
  exact ⟨e, j, List.mem_cons_of_mem _ he, hout⟩

/-- An entry that is finished goes. -/
theorem PubWalked.remove
    (hvisit : pubVisit c clock writes k v (c.clientState, log) = .ok (.remove, c.clientState, log))
    (hnormal : normal PubInfo.nodeState v = false)
    (hnot : ¬due PubInfo.nodeState c clock (v, k) = true)
    (h : PubWalked c clock writes (k + 1) vs log) : PubWalked c clock writes k (v :: vs) log := by
  rw [PubWalked, sweepValues, hvisit, ok_bind]
  refine h.imp ?_ (And.imp_right SentOutside.later)
  rintro ⟨visited, rest, state, resent, rfl, hrun, hswept⟩
  refine ⟨v :: visited, rest, state, resent, rfl, ?_, ?_⟩
  · rw [List.zipIdx_cons, remaining_skip hnormal]
    exact hrun
  · rw [List.zipIdx_cons]
    exact hswept.skip hnot

/-- An entry that is not due stays. -/
theorem PubWalked.keep (hnormal : e.info.nodeState = .normal) (hstart : e.startTime ≤ clock.spend k)
    (hnot : ¬due PubInfo.nodeState c clock (some e, k) = true)
    (h : PubWalked c clock writes (k + 1) vs log) :
    PubWalked c clock writes k (some e :: vs) log := by
  have hafter : restarted c clock (some e, k) = some e := if_neg hnot
  rw [PubWalked, sweepValues, pubVisit_keep hnormal hstart hnot, ok_bind]
  dsimp only
  refine h.imp ?_ ?_
  swap
  · rintro ⟨⟨err, herr⟩, hout⟩
    exact ⟨⟨err, bind_eq_error.mpr (Or.inl herr)⟩, hout.later⟩
  rintro ⟨visited, rest, state, resent, rfl, hrun, hswept⟩
  refine ⟨some e :: visited, rest, state, resent, rfl, ?_, ?_⟩
  · rw [hrun, List.zipIdx_cons, remaining_cons e k hnormal, hafter]
    rfl
  · rw [List.zipIdx_cons]
    exact hswept.skip hnot

/-- An entry that is due is started again once its packet is sent. -/
theorem PubWalked.send {res : SendResult} (hnormal : e.info.nodeState = .normal)
    (hstart : e.startTime ≤ clock.spend k)
    (hlate : due PubInfo.nodeState c clock (some e, k) = true)
    (hsent : iotxMcSendPacket e.info.buf e.info.buf.length (writes k) = .ok res)
    (hrc : res.rc = successReturn)
    (h : PubWalked c clock writes (k + 1) vs (log ++ [⟨e.info.buf, res⟩])) :
    PubWalked c clock writes k (some e :: vs) log := by
  have hafter : restarted c clock (some e, k) = some { e with startTime := clock.restart k } :=
    if_pos hlate
  rw [PubWalked, sweepValues, pubVisit_send hnormal hstart hlate hsent, if_pos hrc, ok_bind]
  dsimp only
  refine h.imp ?_ ?_
  swap
  · rintro ⟨⟨err, herr⟩, hout⟩
    exact ⟨⟨err, bind_eq_error.mpr (Or.inl herr)⟩, hout.later⟩
  rintro ⟨visited, rest, state, resent, rfl, hrun, hswept⟩
  refine ⟨some e :: visited, rest, state, ⟨e.info.buf, res⟩ :: resent, rfl, ?_, ?_⟩
  · rw [hrun, List.zipIdx_cons, remaining_cons e k hnormal, hafter, List.append_assoc]
    rfl
  · rw [List.zipIdx_cons]
    exact hswept.send hlate ⟨e, rfl, rfl, hsent⟩ hrc

/-- The walk stops at a packet that is not sent. -/
theorem PubWalked.stop {res : SendResult} (hnormal : e.info.nodeState = .normal)
    (hstart : e.startTime ≤ clock.spend k)
    (hlate : due PubInfo.nodeState c clock (some e, k) = true)
    (hsent : iotxMcSendPacket e.info.buf e.info.buf.length (writes k) = .ok res)
    (hrc : res.rc ≠ successReturn) : PubWalked c clock writes k (some e :: vs) log := by
  have hafter : restarted c clock (some e, k) = some { e with startTime := clock.restart k } :=
    if_pos hlate
  refine Or.inl ⟨[some e], vs, .disconnected, [⟨e.info.buf, res⟩], rfl, ?_, ?_, ?_⟩
  · rw [sweepValues, pubVisit_send hnormal hstart hlate hsent, if_neg hrc, ok_bind,
      List.zipIdx_cons, remaining_cons e k hnormal, hafter]
    rfl
  · rw [List.zipIdx_cons, List.filter_cons_of_pos hlate]
    exact .cons ⟨e, rfl, rfl, hsent⟩ .nil
  · exact Or.inr ⟨rfl, [], ⟨e.info.buf, res⟩, rfl, nofun, hrc⟩

end Walked

/-- The walk over the publishes, one pass after the other. -/
theorem pubWalked (vs : List (Option (Timed PubInfo))) (hstarted : Started clock vs) (k : Nat)
    (log : List Resent) : PubWalked c clock writes k vs log := by
  induction vs generalizing k log with
  | nil =>
      refine Or.inl ⟨[], [], c.clientState, [], rfl, ?_, .nil, Or.inl ⟨rfl, rfl, nofun⟩⟩
      rw [List.append_nil, List.append_nil]
      rfl
  | cons v vs ih =>
      have hrest : Started clock vs := fun e he => hstarted e (List.mem_cons_of_mem _ he)
      cases v with
      | none => exact .remove rfl rfl (by simp [due, timedOut]) (ih hrest (k + 1) log)
      | some e =>
          have hstart := UInt32.le_trans (hstarted e (List.mem_cons_self ..)) (clock.le_spend k)
          cases hnormal : e.info.nodeState with
          | invalid =>
              exact .remove (if_pos hnormal) (by simp [normal, hnormal])
                (by simp [due, timedOut, hnormal]) (ih hrest (k + 1) log)
          | normal =>
              by_cases hlate : due PubInfo.nodeState c clock (some e, k) = true
              case neg => exact .keep hnormal hstart hlate (ih hrest (k + 1) log)
              by_cases hinside : WritesInside e.info.buf.length e.info.buf.length (writes k) 0
              case neg =>
                obtain ⟨err, herr⟩ := pubVisit_outside hnormal hstart hlate hinside log
                exact Or.inr ⟨⟨err, bind_eq_error.mpr (Or.inl herr)⟩, e, k,
                  List.mem_cons_self .., hlate, hinside⟩
              obtain ⟨res, hsent⟩ := iotxMcSendPacket_inside.mpr hinside
              by_cases hrc : res.rc = successReturn
              · exact .send hnormal hstart hlate hsent hrc (ih hrest (k + 1) _)
              · exact .stop hnormal hstart hlate hsent hrc

/-- The NORMAL entries without their times. -/
def normalInfos (vs : List (Option (Timed PubInfo))) : List PubInfo :=
  (vs.filter (normal PubInfo.nodeState)).filterMap fun v => v.map Timed.info

theorem restarted_info (p : Option (Timed PubInfo) × Nat) :
    (restarted c clock p).map Timed.info = p.1.map Timed.info := by
  obtain ⟨v, k⟩ := p
  cases v with
  | none => rfl
  | some e =>
      rw [restarted]
      split
      next => rfl
      next => rfl

theorem restarted_normal (p : Option (Timed PubInfo) × Nat) :
    normal PubInfo.nodeState (restarted c clock p) = normal PubInfo.nodeState p.1 := by
  obtain ⟨v, k⟩ := p
  cases v with
  | none => rfl
  | some e =>
      rw [restarted]
      split
      next => rfl
      next => rfl

theorem remaining_normal (ps : List (Option (Timed PubInfo) × Nat)) :
    ∀ v ∈ remaining c clock ps, normal PubInfo.nodeState v = true := by
  intro v hv
  obtain ⟨p, hp, rfl⟩ := List.mem_map.mp hv
  rw [restarted_normal]
  exact (List.mem_filter.mp hp).2

theorem normalInfos_remaining (vs : List (Option (Timed PubInfo))) (k : Nat) :
    normalInfos (remaining c clock (vs.zipIdx k)) = normalInfos vs := by
  induction vs generalizing k with
  | nil => rfl
  | cons v vs ih =>
      rw [List.zipIdx_cons]
      by_cases hnormal : normal PubInfo.nodeState v = true
      · have hcons : remaining c clock ((v, k) :: vs.zipIdx (k + 1)) =
            restarted c clock (v, k) :: remaining c clock (vs.zipIdx (k + 1)) := by
          rw [remaining, List.filter_cons_of_pos (by exact hnormal), List.map_cons, remaining]
        rw [hcons, normalInfos, normalInfos,
          List.filter_cons_of_pos (by rw [restarted_normal]; exact hnormal),
          List.filter_cons_of_pos (by exact hnormal), List.filterMap_cons, List.filterMap_cons,
          restarted_info]
        have hrest := ih (k + 1)
        rw [normalInfos, normalInfos] at hrest
        rw [hrest]
      · rw [remaining_skip (Bool.eq_false_iff.mpr hnormal), ih, normalInfos, normalInfos,
          List.filter_cons_of_neg (by exact hnormal)]

theorem normalInfos_reverse (vs : List (Option (Timed PubInfo))) :
    normalInfos vs.reverse = (normalInfos vs).reverse := by
  rw [normalInfos, List.filter_reverse, List.filterMap_reverse, normalInfos]

/-- `MQTTPubInfoProc` where the walk visits `visited` and leaves `rest`. -/
theorem mqttPubInfoProc_sweeps (hlists : Lists c pubs subs) (hstarted : Started clock pubs) :
    (∃ c' visited rest resent, pubs = rest ++ visited ∧
      mqttPubInfoProc c true clock writes = .ok (c', resent) ∧
      Lists c' (rest ++ (remaining c clock (visits visited)).reverse) subs ∧
      PubSwept c clock writes (visits visited) rest c'.clientState resent) ∨
      (∃ err, mqttPubInfoProc c true clock writes = .error err) ∧
        SentOutside c clock writes (visits pubs) := by
  have hstarted' : Started clock pubs.reverse := fun e he => hstarted e (List.mem_reverse.mp he)
  refine (@pubWalked c clock writes pubs.reverse hstarted' 0 []).imp ?_ ?_
  swap
  · rintro ⟨⟨err, herr⟩, hout⟩
    exact ⟨⟨err, bind_eq_error.mpr (Or.inl (sweep_error hlists.pub herr))⟩, hout⟩
  rintro ⟨visited, rest, state, resent, hsplit, hrun, hswept⟩
  have hpubs : pubs = rest.reverse ++ visited.reverse := by
    rw [← List.reverse_append, ← hsplit, List.reverse_reverse]
  obtain ⟨listPubWaitAck, hsweep, hholds⟩ := sweep_holds hlists.pub hrun
  rw [List.reverse_append] at hholds
  refine ⟨{ c with listPubWaitAck, clientState := state }, visited.reverse, rest.reverse, resent,
    hpubs, bind_eq_ok.mpr ⟨_, hsweep, rfl⟩, ?_, ?_⟩
  · rw [visits, List.reverse_reverse]
    refine ⟨hholds, hlists.sub, ?_, hlists.sub_le⟩
    have hle := hlists.pub_le
    rw [hpubs, List.length_append, List.length_reverse, List.length_reverse] at hle
    rw [List.length_append, List.length_reverse, List.length_reverse, remaining, List.length_map]
    have hfilter := List.length_filter_le
      (fun p : Option (Timed PubInfo) × Nat => normal PubInfo.nodeState p.1) (visited.zipIdx 0)
    rw [List.length_zipIdx] at hfilter
    omega
  · rw [visits, List.reverse_reverse]
    refine ⟨hswept.sent, hswept.ended.imp_left ?_⟩
    rintro ⟨rfl, hrest⟩
    exact ⟨rfl, hrest⟩

end Publishes

/-! ## Both sweeps -/

/-- The event tells of the request. -/
def TimeoutRaised (p : Option (Timed SubInfo) × Nat) (event : EventMsg) : Prop :=
  ∃ e, p.1 = some e ∧ event.packetId = e.info.msgId ∧ event.eventType =
    if e.info.type = .subscribe then .subcribeTimeout else .unsubcribeTimeout

/-- After `MQTTSubInfoProc`. -/
structure SubInfoDone (c c' : Client) (clock : SweepClock) (pubs : List (Option (Timed PubInfo)))
    (subs : List (Option (Timed SubInfo))) (events : List EventMsg) : Prop where
  lists : Lists c' pubs (staying c clock (visits subs)).reverse
  raised : c.handleEvent.hFp ≠ none →
    List.Forall₂ TimeoutRaised ((visits subs).filter (due SubInfo.nodeState c clock)) events
  silent : c.handleEvent.hFp = none → events = []

/-- After a sweep of the publishes `rest ++ visited` that went over `visited`. -/
structure PubInfoDone (c c' : Client) (clock : SweepClock) (writes : Nat → List Int)
    (rest visited kept : List (Option (Timed PubInfo))) (subs : List (Option (Timed SubInfo)))
    (resent : List Resent) : Prop where
  lists : Lists c' (rest ++ kept) subs
  stays : normalInfos kept = normalInfos visited
  gone : ∀ v ∈ kept, normal PubInfo.nodeState v = true
  sent : List.Forall₂ (SentAgain writes)
    ((visits visited).filter (due PubInfo.nodeState c clock)) resent
  ended : (rest = [] ∧ c'.clientState = c.clientState ∧ ∀ r ∈ resent, r.res.rc = successReturn) ∨
    (c'.clientState = .disconnected ∧ ∃ before last, resent = before ++ [last] ∧
      (∀ r ∈ before, r.res.rc = successReturn) ∧ last.res.rc ≠ successReturn)

theorem timeoutEvents_raised (hhandler : c.handleEvent.hFp ≠ none)
    (ps : List (Option (Timed SubInfo) × Nat)) :
    List.Forall₂ TimeoutRaised (ps.filter (due SubInfo.nodeState c clock))
      (timeoutEvents c clock ps) := by
  obtain ⟨hFp, hsome⟩ := Option.ne_none_iff_exists'.mp hhandler
  rw [timeoutEvents]
  have hall : ∀ p ∈ ps.filter (due SubInfo.nodeState c clock), p.1 ≠ none := by
    rintro ⟨v, k⟩ hp rfl
    exact absurd (List.mem_filter.mp hp).2 (by simp [due, timedOut])
  generalize ps.filter (due SubInfo.nodeState c clock) = qs at hall
  induction qs with
  | nil => exact .nil
  | cons q qs ih =>
      obtain ⟨v, k⟩ := q
      cases v with
      | none => exact absurd rfl (hall _ (List.mem_cons_self ..))
      | some e =>
          rw [List.flatMap_cons, timeoutEvent, EventHandle.notify, hsome]
          exact .cons ⟨e, rfl, rfl, rfl⟩ (ih fun p hp => hall p (List.mem_cons_of_mem _ hp))

theorem timeoutEvents_silent (hhandler : c.handleEvent.hFp = none)
    (ps : List (Option (Timed SubInfo) × Nat)) : timeoutEvents c clock ps = [] := by
  rw [timeoutEvents, List.flatMap_eq_nil_iff]
  rintro ⟨v, k⟩ _
  cases v with
  | none => rfl
  | some e => rw [timeoutEvent, EventHandle.notify, hhandler]

/-- The sweeps finish the requests that are done and leave the others. -/
theorem infoProc_done (writes : Nat → List Int) (hlists : Lists c pubs subs)
    (hpubs : Started clock pubs) (hsubs : Started clock subs) :
    (∃ c' events, mqttSubInfoProc c true clock = .ok (c', events) ∧
      SubInfoDone c c' clock pubs subs events) ∧
    ((∃ c' rest visited kept resent, pubs = rest ++ visited ∧
      mqttPubInfoProc c true clock writes = .ok (c', resent) ∧
      PubInfoDone c c' clock writes rest visited kept subs resent) ∨
      (∃ err, mqttPubInfoProc c true clock writes = .error err) ∧
        SentOutside c clock writes (visits pubs)) ∧
    mqttSubInfoProc c false clock = .ok (c, []) ∧
    mqttPubInfoProc c false clock writes = .ok (c, []) := by
  refine ⟨?_, (mqttPubInfoProc_sweeps hlists hpubs).imp_left ?_, ?_, ?_⟩
  · obtain ⟨c', hrun, hend⟩ := mqttSubInfoProc_sweeps hlists hsubs
    exact ⟨c', _, hrun, hend, fun h => timeoutEvents_raised h _, fun h => timeoutEvents_silent h _⟩
  · rintro ⟨c', visited, rest, resent, hsplit, hrun, hend, hswept⟩
    refine ⟨c', rest, visited, _, resent, hsplit, hrun, hend, ?_, ?_, hswept.sent, hswept.ended⟩
    · rw [normalInfos_reverse, visits, normalInfos_remaining, ← normalInfos_reverse,
        List.reverse_reverse]
    · exact fun v hv => remaining_normal _ v (List.mem_reverse.mp hv)
  · rw [mqttSubInfoProc, sweep_noIterator]
    rfl
  · rw [mqttPubInfoProc, sweep_noIterator]
    rfl

end Sweeps

/-- One request of each kind, sent at time 0. -/
def oneOf {α : Type} (v : α) : ListT (Option (Timed α)) :=
  ⟨some 0, some 0, 1, ObjectHeap.Heap.empty.alloc ⟨none, none, some ⟨v, 0⟩⟩⟩

theorem oneOf_holds {α : Type} (v : α) : (oneOf v).Holds [some ⟨v, 0⟩] :=
  ⟨[(0, some ⟨v, 0⟩)], ⟨⟨ObjectHeap.Heap.alloc_self, trivial⟩, rfl, rfl, rfl, by simp⟩, rfl⟩

/-- A clock that stands at ten seconds. -/
def lateClock : SweepClock :=
  ⟨fun _ => 10000, fun _ => 10000, fun _ => UInt32.le_refl _, fun _ => UInt32.le_refl _⟩

theorem lateClock_started {α : Type} (v : α) : Started lateClock [some ⟨v, 0⟩] := by
  intro e he
  cases List.mem_singleton.mp he
  exact UInt32.zero_le

def latePub : PubInfo := ⟨.normal, 3, [0x32, 0]⟩
def lateSub : SubInfo := ⟨.subscribe, 4, .normal, ⟨some [97], ⟨some 9, 0⟩⟩, [0x82, 0]⟩

/-- A client whose two requests have timed out. -/
def lateClient (clientState : McState) (handleEvent : EventHandle) : Client :=
  { idleClient with
    clientState, handleEvent, listPubWaitAck := oneOf latePub, listSubWaitAck := oneOf lateSub }

theorem lateClient_lists (clientState : McState) (handleEvent : EventHandle) :
    Lists (lateClient clientState handleEvent) [some ⟨latePub, 0⟩] [some ⟨lateSub, 0⟩] :=
  ⟨oneOf_holds _, oneOf_holds _, by decide, by decide⟩

/-- Two requests of a kind. -/
def twoOf {α : Type} (v w : Timed α) : ListT (Option (Timed α)) :=
  ⟨some 0, some 1, 2, (ObjectHeap.Heap.empty.alloc ⟨none, some 1, some v⟩).alloc
    ⟨some 0, none, some w⟩⟩

theorem twoOf_holds {α : Type} (v w : Timed α) : (twoOf v w).Holds [some v, some w] := by
  refine ⟨[(0, some v), (1, some w)], ⟨⟨?_, ObjectHeap.Heap.alloc_self, trivial⟩, rfl, rfl, rfl,
    by simp [LinkedList.addrs]⟩, rfl⟩
  exact (ObjectHeap.Heap.alloc_of_lt Nat.zero_lt_one).trans ObjectHeap.Heap.alloc_self

/-- A publish that was acknowledged next to `latePub`. -/
def mixedPubs : List (Option (Timed PubInfo)) :=
  [some ⟨{ latePub with nodeState := .invalid }, 0⟩, some ⟨latePub, 0⟩]

/-- `lateSub` next to one that was sent a second ago. -/
def mixedSubs : List (Option (Timed SubInfo)) :=
  [some ⟨lateSub, 0⟩, some ⟨{ lateSub with msgId := 5 }, 9000⟩]

def mixedClient : Client :=
  { idleClient with
    listPubWaitAck := twoOf ⟨{ latePub with nodeState := .invalid }, 0⟩ ⟨latePub, 0⟩
    listSubWaitAck := twoOf ⟨lateSub, 0⟩ ⟨{ lateSub with msgId := 5 }, 9000⟩ }

theorem mixedClient_lists : Lists mixedClient mixedPubs mixedSubs :=
  ⟨twoOf_holds _ _, twoOf_holds _ _, by decide, by decide⟩

/-- The subscription that timed out is gone and the one behind it stays, and the publish that was
not acknowledged goes out again. -/
theorem infoProc_done_late :
    (∃ c' events, mqttSubInfoProc mixedClient true lateClock = .ok (c', events) ∧
      SubInfoDone mixedClient c' lateClock mixedPubs mixedSubs events) ∧
    staying mixedClient lateClock (visits mixedSubs) =
      [some ⟨{ lateSub with msgId := 5 }, 9000⟩] ∧
    ∃ c' rest visited kept resent, mixedPubs = rest ++ visited ∧
      mqttPubInfoProc mixedClient true lateClock (fun _ => [2]) = .ok (c', resent) ∧
      PubInfoDone mixedClient c' lateClock (fun _ => [2]) rest visited kept mixedSubs resent ∧
      resent.map (fun e => e.res.rc) = [successReturn] := by
  have hpubs : Started lateClock mixedPubs := by
    intro e he
    rcases List.mem_pair.mp he with he | he
    · cases he
      exact UInt32.zero_le
    · cases he
      exact UInt32.zero_le
  have hsubs : Started lateClock mixedSubs := by
    intro e he
    rcases List.mem_pair.mp he with he | he
    · cases he
      exact UInt32.zero_le
    · cases he
      show (9000 : UInt32) ≤ 10000
      decide
  obtain ⟨hsub, hpub, -⟩ := infoProc_done (fun _ => [2]) mixedClient_lists hpubs hsubs
  have hsent : (mqttPubInfoProc mixedClient true lateClock fun _ => [2]).map
      (fun r => r.2.map fun e => e.res.rc) = .ok [successReturn] := by decide +kernel
  refine ⟨hsub, by decide +kernel, ?_⟩
  rcases hpub with ⟨c', rest, visited, kept, resent, hsplit, hrun, hdone⟩ | ⟨⟨err, hrun⟩, -⟩
  · refine ⟨c', rest, visited, kept, resent, hsplit, hrun, hdone, ?_⟩
    rw [hrun] at hsent
    exact Except.ok.inj hsent
  · rw [hrun] at hsent
    cases hsent

/-- A sweep of the requests that needs neither memory nor a handler. -/
def SubClaimed (c : Client) (clock : SweepClock) (iterator : Bool)
    (pubs : List (Option (Timed PubInfo))) (subs : List (Option (Timed SubInfo))) : Prop :=
  ∃ c' events, mqttSubInfoProc c iterator clock = .ok (c', events) ∧
    Lists c' pubs (staying c clock (visits subs)).reverse ∧
    List.Forall₂ TimeoutRaised ((visits subs).filter (timedOut SubInfo.nodeState c clock)) events

/-- A sweep of the publishes that sends in every state. -/
def PubClaimed (c : Client) (clock : SweepClock) (writes : Nat → List Int)
    (pubs : List (Option (Timed PubInfo))) (subs : List (Option (Timed SubInfo))) : Prop :=
  ∃ c' rest visited kept resent, pubs = rest ++ visited ∧
    mqttPubInfoProc c true clock writes = .ok (c', resent) ∧
    PubInfoDone c c' clock writes rest visited kept subs resent ∧
    List.Forall₂ (SentAgain writes) ((visits visited).filter (timedOut PubInfo.nodeState c clock))
      resent

/-- Without memory for the iterator the subscription that timed out stays, without a handler
nothing is raised, and a client that is not connected sends nothing again. -/
theorem not_infoProc_claimed :
    ¬SubClaimed (lateClient .connected ⟨some 7, 0⟩) lateClock false [some ⟨latePub, 0⟩]
        [some ⟨lateSub, 0⟩] ∧
      ¬SubClaimed (lateClient .connected ⟨none, 0⟩) lateClock true [some ⟨latePub, 0⟩]
        [some ⟨lateSub, 0⟩] ∧
      ¬PubClaimed (lateClient .disconnected ⟨some 7, 0⟩) lateClock (fun _ => [2])
        [some ⟨latePub, 0⟩] [some ⟨lateSub, 0⟩] := by
  refine ⟨?_, ?_, ?_⟩
  · rintro ⟨c', events, hrun, hlists, -⟩
    rw [mqttSubInfoProc, sweep_noIterator] at hrun
    cases hrun
    exact absurd ((oneOf_holds lateSub).unique hlists.sub) (by decide)
  · rintro ⟨c', events, hrun, -, hraised⟩
    obtain ⟨c₁, hrun₁, -⟩ := mqttSubInfoProc_sweeps (lateClient_lists .connected ⟨none, 0⟩)
      (lateClock_started lateSub)
    rw [hrun₁, timeoutEvents_silent rfl] at hrun
    cases hrun
    have hlen := hraised.length_eq
    exact absurd hlen (by decide)
  · rintro ⟨c', rest, visited, kept, resent, hsplit, hrun, hdone, hsent⟩
    have hnone : resent = [] := by
      have hsnd : (mqttPubInfoProc (lateClient .disconnected ⟨some 7, 0⟩) true lateClock
          (fun _ => [2])).map Prod.snd = .ok [] := rfl
      rw [hrun] at hsnd
      exact Except.ok.inj hsnd
    subst hnone
    rcases hdone.ended with ⟨rfl, -⟩ | ⟨-, before, last, happ, -⟩
    · obtain rfl : [some ⟨latePub, 0⟩] = visited := hsplit
      have hlen := hsent.length_eq
      exact absurd hlen (by decide)
    · simp at happ

end IotKit.Mqtt.Pending
