import IotKit.Mqtt.PendingRun

/-!
# Redelivery

A packet that is sent again should be the original with its DUP bit set, and packets should go
out again in the order of the first time.  `MQTTPubInfoProc` walks from the newest entry to the
oldest and sends the stored bytes, whose DUP bit `MQTTPublish` left clear.  So it redelivers as
it should exactly where nothing is due.
-/

namespace IotKit.Mqtt.Pending

open CMemory Utils

/-- The original packet but for its DUP bit, which is 1. -/
def Redelivery (original again : Bytes) : Prop :=
  ∃ header header' rest, original = header :: rest ∧ again = header' :: rest ∧
    headerType header' = headerType header ∧ headerQos header' = headerQos header ∧
    headerRetain header' = headerRetain header ∧ headerDup header' = 1

/-- The packets that were sent again are redeliveries of pending publishes, in the order in which
these were published. -/
def Redelivered (pubs : List (Option (Timed PubInfo))) (resent : List Resent) : Prop :=
  ∃ es : List (Timed PubInfo), (es.map some).Sublist pubs ∧
    List.Forall₂ (fun e r => Redelivery e.info.buf r.packet) es resent

variable {c : Client} {clock : SweepClock} {pubs visited rest : List (Option (Timed PubInfo))}
  {subs : List (Option (Timed SubInfo))} {resent : List Resent} {now : UInt32}
  {writes : Nat → List Int}

theorem publishHeader_dup (qos retained : Nat) : headerDup (publishHeader 0 qos retained) = 0 := by
  rw [headerDup, publishHeader, UInt8.toNat_ofNat', publish]
  omega

/-- The stored bytes are no redelivery of anything. -/
theorem Original.not_redelivery {info : PubInfo} (h : Original info) (original : Bytes) :
    ¬Redelivery original info.buf := by
  obtain ⟨topicName, msg, hbuf⟩ := h
  rintro ⟨_, header', rest, -, hagain, -, -, -, hdup⟩
  rw [hbuf] at hagain
  obtain ⟨rfl, -⟩ := List.cons.inj hagain
  rw [publishHeader_dup] at hdup
  cases hdup

theorem redelivered_nil : Redelivered pubs [] := ⟨[], List.nil_sublist _, .nil⟩

/-- What is stored is not redelivered. -/
theorem redelivered_eq_nil {ps : List (Option (Timed PubInfo) × Nat)}
    (horiginal : ∀ e k, (some e, k) ∈ ps → Original e.info)
    (hsent : List.Forall₂ (SentAgain writes) ps resent) (h : Redelivered pubs resent) :
    resent = [] := by
  obtain ⟨es, -, hes⟩ := h
  cases hes with
  | nil => rfl
  | cons hfirst _ =>
      cases hsent with
      | @cons p _ _ _ hagain _ =>
          obtain ⟨v, k⟩ := p
          obtain ⟨e, rfl, hpacket, -⟩ := hagain
          rw [hpacket] at hfirst
          exact absurd hfirst ((horiginal e k (List.mem_cons_self ..)).not_redelivery _)

theorem visits_visited {p : Option (Timed PubInfo) × Nat} (h : p ∈ visits visited) :
    p ∈ visits (rest ++ visited) := by
  rw [visits, List.reverse_append, List.zipIdx_append]
  exact List.mem_append_left _ h

theorem mem_visits {p : Option (Timed PubInfo) × Nat} (h : p ∈ visits pubs) : p.1 ∈ pubs := by
  obtain ⟨v, k⟩ := p
  rw [(List.mem_zipIdx' h).2]
  exact List.mem_reverse.mp (List.getElem_mem _)

/-- A sweep redelivers as it should exactly where nothing is due. -/
theorem mqttPubInfoProc_redelivers_iff (h : Kept (c, now) pubs subs) (hnow : now ≤ clock.spend 0)
    (iterator : Bool) (writes : Nat → List Int) :
    (∃ c' resent, mqttPubInfoProc c iterator clock writes = .ok (c', resent) ∧
        Redelivered pubs resent) ↔
      iterator = false ∨ ∀ p ∈ visits pubs, due PubInfo.nodeState c clock p = false := by
  cases iterator with
  | false =>
      refine ⟨fun _ => Or.inl rfl, fun _ => ⟨c, [], ?_, redelivered_nil⟩⟩
      rw [mqttPubInfoProc, sweep_noIterator]
      rfl
  | true =>
      have hstarted : Started clock pubs := fun e he => UInt32.le_trans (h.pubs e he).1 hnow
      have hsweep := @mqttPubInfoProc_sweeps c clock pubs subs writes h.lists hstarted
      constructor
      · rintro ⟨c', resent, hrun, hredelivered⟩
        refine Or.inr ?_
        rcases hsweep with ⟨c₁, visited, rest, resent₁, rfl, hrun₁, -, hswept⟩ | ⟨⟨err, herr⟩, -⟩
        · rw [hrun] at hrun₁
          cases hrun₁
          have hsent := hswept.sent
          obtain rfl : resent = [] := by
            refine redelivered_eq_nil (fun e k he => ?_) hsent hredelivered
            have hmem := mem_visits (List.mem_filter.mp he).1
            exact (h.pubs e (List.mem_append_right _ hmem)).2
          rcases hswept.ended with ⟨rfl, -⟩ | ⟨-, before, last, happ, -⟩
          · rw [List.forall₂_nil_right_iff, List.filter_eq_nil_iff] at hsent
            exact fun p hp => Bool.eq_false_iff.mpr (hsent p hp)
          · exact absurd happ.symm (List.append_ne_nil_of_right_ne_nil _ (List.cons_ne_nil _ _))
        · rw [hrun] at herr
          cases herr
      · rintro (hfalse | hnone)
        · cases hfalse
        · rcases hsweep with ⟨c₁, visited, rest, resent₁, rfl, hrun₁, -, hswept⟩ | ⟨-, hout⟩
          · have hsent := hswept.sent
            have hfilter : (visits visited).filter (due PubInfo.nodeState c clock) = [] :=
              List.filter_eq_nil_iff.mpr fun p hp => by
                rw [hnone p (visits_visited hp)]
                exact Bool.false_ne_true
            rw [hfilter, List.forall₂_nil_left_iff] at hsent
            exact ⟨c₁, resent₁, hrun₁, hsent ▸ redelivered_nil⟩
          · obtain ⟨e, k, hmem, hdue, -⟩ := hout
            exact absurd ((hnone _ hmem).symm.trans hdue) Bool.false_ne_true

/-! ## Two publishes -/

/-- A publish of one byte on the topic `a` that waits for its acknowledgement since time 0. -/
def waiting (msgId : UInt8) : Timed PubInfo :=
  ⟨⟨.normal, msgId.toNat, [0x32, 6, 0, 1, 97, 0, msgId, 120]⟩, 0⟩

theorem waiting_original (msgId : UInt8) : Original (waiting msgId).info := by
  refine ⟨[97], ⟨msgId.toNat, 1, 0, [120], by decide⟩, ?_⟩
  have hlength : mqttPacketEncode 6 = [6] := by
    rw [mqttPacketEncode, if_pos (by decide)]
    rfl
  have hid : be16 msgId.toNat = [0, msgId] := by
    have hlt := msgId.toNat_lt
    rw [be16, Nat.div_eq_of_lt hlt]
    simp
  show _ = publishHeader 0 1 0 :: (mqttPacketEncode 6 ++ (be16 1 ++ ([97] ++ be16 msgId.toNat))) ++
    [120]
  rw [hlength, hid]
  rfl

/-- A connected client whose publishes 1 and 2 wait, in this order. -/
def twoWaiting : Client :=
  { idleClient with
    listPubWaitAck := ⟨some 0, some 1, 2, (ObjectHeap.Heap.empty.alloc
      ⟨none, some 1, some (waiting 1)⟩).alloc ⟨some 0, none, some (waiting 2)⟩⟩ }

theorem twoWaiting_kept : Kept (twoWaiting, 0) [some (waiting 1), some (waiting 2)] [] := by
  have hlinked : Linked twoWaiting.listPubWaitAck
      [(0, some (waiting 1)), (1, some (waiting 2))] := by
    refine ⟨⟨?_, ObjectHeap.Heap.alloc_self, trivial⟩, rfl, rfl, rfl, by decide⟩
    exact (ObjectHeap.Heap.alloc_of_lt Nat.zero_lt_one).trans ObjectHeap.Heap.alloc_self
  refine ⟨⟨⟨_, hlinked, rfl⟩, holds_listNew, by decide, by decide⟩, ?_, nofun⟩
  intro e he
  rcases List.mem_pair.mp he with he | he
  · cases he
    exact ⟨UInt32.le_refl _, waiting_original 1⟩
  · cases he
    exact ⟨UInt32.le_refl _, waiting_original 2⟩

/-- Before anything is due, a sweep is fine. -/
theorem mqttPubInfoProc_redelivers_early :
    (∃ c' resent,
      mqttPubInfoProc twoWaiting true
          ⟨fun _ => 0, fun _ => 0, fun _ => UInt32.le_refl _, fun _ => UInt32.le_refl _⟩
          (fun _ => [8]) = .ok (c', resent) ∧
        Redelivered [some (waiting 1), some (waiting 2)] resent) ↔
      true = false ∨ ∀ p ∈ visits [some (waiting 1), some (waiting 2)],
        due PubInfo.nodeState twoWaiting
          ⟨fun _ => 0, fun _ => 0, fun _ => UInt32.le_refl _, fun _ => UInt32.le_refl _⟩ p =
            false :=
  mqttPubInfoProc_redelivers_iff twoWaiting_kept (UInt32.le_refl _) true _

/-- Both publishes are due: the second goes out before the first, each with its DUP bit clear. -/
theorem not_redelivered_twoWaiting :
    (mqttPubInfoProc twoWaiting true lateClock fun _ => [8]).map
        (fun r => r.2.map Resent.packet) =
      .ok [(waiting 2).info.buf, (waiting 1).info.buf] ∧
    ¬∃ c' resent, mqttPubInfoProc twoWaiting true lateClock (fun _ => [8]) = .ok (c', resent) ∧
      Redelivered [some (waiting 1), some (waiting 2)] resent := by
  have hsent : (mqttPubInfoProc twoWaiting true lateClock fun _ => [8]).map
      (fun r => r.2.map Resent.packet) =
        .ok [(waiting 2).info.buf, (waiting 1).info.buf] := by decide +kernel
  refine ⟨hsent, ?_⟩
  rintro ⟨c', resent, hrun, es, -, hes⟩
  rw [hrun] at hsent
  cases hes with
  | nil => cases hsent
  | cons hfirst _ =>
      obtain ⟨hpacket, -⟩ := List.cons.inj (Except.ok.inj hsent)
      rw [hpacket] at hfirst
      exact (waiting_original 2).not_redelivery _ hfirst

end IotKit.Mqtt.Pending
