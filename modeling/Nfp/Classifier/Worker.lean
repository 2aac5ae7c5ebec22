/-
  File:      Nfp/Classifier/Worker.lean
  Subject:   THE CLASSIFIER'S WORKER with a channel: `worker_classif_dispatcher`
             (example/classifier/classifier_main.c) and `channel_packet_input`
             (example/classifier/classifier_term.c).

  The worker fills a packet vector from the scheduled events, as the dispatchers of `Dispatch` do,
  and hands it to `channel_packet_input` when it is full and at the end of each burst. That
  function sends the vector to the channel and frees what the channel did not take. It returns
  nothing, so what the worker does next does not depend on it: `workerBursts` is the worker with its
  vectors handed over, `carryOut` what comes of them, the answers of `nfp_channel_send` in turn.

  The index from which packets are freed is the result of `nfp_channel_send` in 16 bits, and only
  -1 is tested for, where nfp_pkt_channel.h documents any negative number as a failure.

  * `workerBursts_kept` -- every packet gets into one vector, every other event is seen to;
  * `channelPacketInput_settled` -- a vector is settled just if its answer is `Sound`;
  * **`workerClassifDispatcher_accounts_iff`** -- so the worker accounts for every packet just if
    every answer it gets is.
-/
import Nfp.Dispatch.FpmDirect
import Nfp.Lib.Send

namespace Nfp.Classifier

open Nfp.Lib Nfp.Dispatch Nfp.FpmDirect

/-- What comes of the worker's calls: a send to the channel, with its answer; a packet or an event
    freed; a timeout handled; the pending packets sent. -/
inductive Effect (Pkt Ev : Type) where
  | channelSend (pkts : List Pkt) (answer : Outcome Nat)
  | packetFree (pkt : Pkt)
  | timerHandle (ev : Ev)
  | eventFree (ev : Ev)
  | sendPending
  deriving DecidableEq, Repr

/-- The result of `nfp_channel_send` for `num` packets: how many it took, or `-1 - e`. -/
def channelSendResult (num : Nat) : Outcome Nat → Int
  | .took k => (min k num : Nat)
  | .failed e => -1 - e

/-- `start_idx`, a `uint16_t`. -/
def startIdx (pktSent : Int) : Nat := if pktSent = -1 then 0 else (pktSent % 0x10000).toNat

section Worker

variable {Pkt Ev Queue : Type}

/-- **`channel_packet_input`**. -/
def channelPacketInput (pkts : List Pkt) (answer : Outcome Nat) : List (Effect Pkt Ev) :=
  if pkts = [] then []
  else
    .channelSend pkts answer ::
      if channelSendResult pkts.length answer ≠ pkts.length then
        (pkts.drop (startIdx (channelSendResult pkts.length answer))).map .packetFree
      else []

/-- One scheduled event. -/
def dispatch (api : PktVectorApi Pkt) (d : Disp Pkt Ev Queue) : Event Pkt Ev → Disp Pkt Ev Queue
  | .invalid => d
  | .packet pkt => gather api d pkt
  | .timeout ev => { d with log := d.log ++ [.timerHandle ev] }
  | .other ev => { d with log := d.log ++ [.eventFree ev] }

/-- One round of `while (*is_running)`: the events `odp_schedule_multi` gave, if any. -/
def workerBurst (api : PktVectorApi Pkt) (d : Disp Pkt Ev Queue) (events : List (Event Pkt Ev)) :
    Disp Pkt Ev Queue :=
  if events = [] then d
  else
    let d := flushVec api (events.foldl (dispatch api) d)
    { d with log := d.log ++ [.sendPending] }

/-- The rounds during which the processing state stays set. -/
def workerBursts (api : PktVectorApi Pkt) (vec₀ : PktVector Pkt)
    (bursts : List (List (Event Pkt Ev))) : Disp Pkt Ev Queue :=
  bursts.foldl (workerBurst api) ⟨api.init vec₀, []⟩

/-- What comes of a log of calls, from the `i`th answer of `nfp_channel_send` on. A vector is handed
    to `channel_packet_input`. -/
def carryOut (sends : Nat → Outcome Nat) : Nat → List (Act Pkt Ev Queue) → List (Effect Pkt Ev)
  | _, [] => []
  | i, .inputMulti pkts :: log => channelPacketInput pkts (sends i) ++ carryOut sends (i + 1) log
  | i, .packetFree pkt :: log => .packetFree pkt :: carryOut sends i log
  | i, .timerHandle ev :: log => .timerHandle ev :: carryOut sends i log
  | i, .eventFree ev :: log => .eventFree ev :: carryOut sends i log
  | i, .sendPending :: log => .sendPending :: carryOut sends i log
  -- no packet is handed to the stack by itself
  | i, .input _ _ :: log => carryOut sends i log

/-- **`worker_classif_dispatcher`** with a channel: its return value and what comes of its calls.
    `none` is a scheduler group that is not joined, or parameters or a processing state not to be
    had; `some bursts` the rounds it makes. -/
def workerClassifDispatcher (api : PktVectorApi Pkt) (sends : Nat → Outcome Nat)
    (vec₀ : PktVector Pkt) (state : Option (List (List (Event Pkt Ev)))) :
    Int × List (Effect Pkt Ev) :=
  match state with
  | none => (-1, [])
  | some bursts => (0, carryOut sends 0 (workerBursts api vec₀ bursts : Disp Pkt Ev Unit).log)

/-! ## The property -/

/-- What becomes of an event that is no packet. -/
inductive Seen (Ev : Type) where
  | handled (ev : Ev)
  | freed (ev : Ev)
  deriving DecidableEq, Repr

/-- The packet of an event. -/
def packetsOf : Event Pkt Ev → List Pkt
  | .packet pkt => [pkt]
  | _ => []

/-- What is to become of an event: a timeout is handled, one of another type freed. -/
def duesOf : Event Pkt Ev → List (Seen Ev)
  | .timeout ev => [.handled ev]
  | .other ev => [.freed ev]
  | _ => []

/-- The packets an effect settles: those the channel took, or the one freed. -/
def Effect.settled : Effect Pkt Ev → List Pkt
  | .channelSend pkts (.took k) => pkts.take k
  | .packetFree pkt => [pkt]
  | _ => []

def Effect.seen : Effect Pkt Ev → List (Seen Ev)
  | .timerHandle ev => [.handled ev]
  | .eventFree ev => [.freed ev]
  | _ => []

/-- **Everything is accounted for**: each packet is, once, taken by the channel or freed, each other
    event handled or freed. -/
structure Accounted (events : List (Event Pkt Ev)) (effects : List (Effect Pkt Ev)) : Prop where
  packets : (effects.flatMap Effect.settled).Perm (events.flatMap packetsOf)
  others : effects.flatMap Effect.seen = events.flatMap duesOf

/-- **An answer the 16-bit index is right for**: not a failure, or one whose result is -1 or a
    multiple of 65536. -/
def Sound : Outcome Nat → Prop
  | .took _ => True
  | .failed e => e = 0 ∨ (e + 1) % 0x10000 = 0

instance : DecidablePred Sound
  | .took _ => isTrue trivial
  | .failed _ => inferInstanceAs (Decidable (_ ∨ _))

/-- How many vectors `num` packets fill, the last one perhaps in part. -/
def vectorsFor (num : Nat) : Nat := (num + (nfpPktVectorSize - 1)) / nfpPktVectorSize

theorem vectorsFor_zero : vectorsFor 0 = 0 := by decide

theorem vectorsFor_eq (num : Nat) : vectorsFor num = (num + 31) / 32 := rfl

/-- How often the worker calls `nfp_channel_send`: once for each vector of a burst's packets. -/
def sendsIn : List (List (Event Pkt Ev)) → Nat
  | [] => 0
  | events :: bursts => vectorsFor (events.flatMap packetsOf).length + sendsIn bursts

/-! ## One vector -/

/-- A failed send frees the packets from `startIdx` on. -/
theorem startIdx_failed (e : Nat) : startIdx (-1 - e) = 0 ↔ Sound (.failed e) := by
  unfold startIdx Sound
  split
  · rename_i h
    exact ⟨fun _ => Or.inl (by omega), fun _ => rfl⟩
  · rename_i h
    omega

theorem settled_frees (pkts : List Pkt) :
    (pkts.map (Effect.packetFree : Pkt → Effect Pkt Ev)).flatMap Effect.settled = pkts := by
  induction pkts with
  | nil => rfl
  | cons pkt pkts ih => exact congrArg (pkt :: ·) ih

theorem seen_frees (pkts : List Pkt) :
    (pkts.map (Effect.packetFree : Pkt → Effect Pkt Ev)).flatMap Effect.seen = [] := by
  induction pkts with
  | nil => rfl
  | cons pkt pkts ih => exact ih

/-- No event but packets is in a vector. -/
theorem channelPacketInput_seen (pkts : List Pkt) (answer : Outcome Nat) :
    (channelPacketInput pkts answer : List (Effect Pkt Ev)).flatMap Effect.seen = [] := by
  unfold channelPacketInput
  split
  · rfl
  · rw [List.flatMap_cons]
    split
    · exact seen_frees _
    · rfl

/-- What the channel takes and what is freed make up the vector, if the answer is a count. -/
theorem channelPacketInput_took {pkts : List Pkt} (hne : pkts ≠ [])
    (hle : pkts.length ≤ nfpPktVectorSize) (k : Nat) :
    (channelPacketInput pkts (.took k) : List (Effect Pkt Ev)).flatMap Effect.settled = pkts := by
  have hresult : channelSendResult pkts.length (.took k) = (min k pkts.length : Nat) := rfl
  have hsize : nfpPktVectorSize = 32 := rfl
  unfold channelPacketInput
  rw [hresult]
  by_cases hk : pkts.length ≤ k
  · rw [if_neg hne, if_neg (by omega), List.flatMap_cons]
    show pkts.take k ++ [] = pkts
    rw [List.append_nil, List.take_of_length_le hk]
  · have hstart : startIdx (min k pkts.length : Nat) = k := by
      unfold startIdx
      rw [if_neg (by omega)]
      omega
    rw [if_neg hne, if_pos (by omega), List.flatMap_cons]
    show pkts.take k ++ _ = pkts
    rw [settled_frees, hstart, List.take_append_drop]

/-- After a failure the packets from `startIdx` on are freed, and only those. -/
theorem channelPacketInput_failed {pkts : List Pkt} (hne : pkts ≠ []) (e : Nat) :
    (channelPacketInput pkts (.failed e) : List (Effect Pkt Ev)).flatMap Effect.settled =
      pkts.drop (startIdx (-1 - e)) := by
  have hresult : channelSendResult pkts.length (.failed e) = -1 - e := rfl
  unfold channelPacketInput
  rw [hresult, if_neg hne, if_pos (by omega), List.flatMap_cons]
  show [] ++ _ = _
  rw [List.nil_append, settled_frees]

/-- **One vector**: with a sound answer its packets are settled, in order, otherwise not all. -/
theorem channelPacketInput_settled {pkts : List Pkt} (hne : pkts ≠ [])
    (hle : pkts.length ≤ nfpPktVectorSize) (answer : Outcome Nat) {settled : List Pkt}
    (h : (channelPacketInput pkts answer : List (Effect Pkt Ev)).flatMap Effect.settled = settled) :
    (Sound answer → settled = pkts) ∧ (¬ Sound answer → settled.length < pkts.length) := by
  have hlen : 0 < pkts.length := List.length_pos_iff.mpr hne
  cases answer with
  | took k =>
      rw [channelPacketInput_took hne hle] at h
      exact ⟨fun _ => h.symm, fun hnot => absurd trivial hnot⟩
  | failed e =>
      rw [channelPacketInput_failed hne] at h
      refine ⟨fun hsound => ?_, fun hnot => ?_⟩
      · rw [← h, (startIdx_failed e).mpr hsound, List.drop_zero]
      · have hstart : startIdx (-1 - e) ≠ 0 := fun h0 => hnot ((startIdx_failed e).mp h0)
        rw [← h, List.length_drop]
        omega

/-! ## A log of calls -/

/-- How many vectors a log hands over. -/
def vectors (log : List (Act Pkt Ev Queue)) : Nat :=
  log.countP fun a => match a with
    | .inputMulti _ => true
    | _ => false

/-- A call of this worker: no packet freed for want of room, none handed to the stack by itself, no
    empty and no overlong vector. -/
def Vectored : Act Pkt Ev Queue → Prop
  | .packetFree _ => False
  | .input _ _ => False
  | .inputMulti pkts => pkts ≠ [] ∧ pkts.length ≤ nfpPktVectorSize
  | _ => True

def seenIn : Act Pkt Ev Queue → List (Seen Ev)
  | .timerHandle ev => [.handled ev]
  | .eventFree ev => [.freed ev]
  | _ => []

theorem carryOut_seen (sends : Nat → Outcome Nat) (i : Nat) (log : List (Act Pkt Ev Queue)) :
    (carryOut sends i log).flatMap Effect.seen = log.flatMap seenIn := by
  induction log generalizing i with
  | nil => rfl
  | cons a log ih =>
      cases a with
      | inputMulti pkts =>
          rw [carryOut, List.flatMap_append, channelPacketInput_seen, ih]
          rfl
      | input pkt q => exact ih i
      | timerHandle ev => exact congrArg (Seen.handled ev :: ·) (ih i)
      | eventFree ev => exact congrArg (Seen.freed ev :: ·) (ih i)
      | packetFree pkt => exact ih i
      | sendPending => exact ih i

/-- **What comes of the vectors of a log**: all packets settled, in order, if every answer is sound,
    and fewer if one is not. -/
theorem carryOut_settled (sends : Nat → Outcome Nat) (i : Nat) {log : List (Act Pkt Ev Queue)}
    (hlog : ∀ a ∈ log, Vectored a) {settled : List Pkt}
    (h : (carryOut sends i log).flatMap Effect.settled = settled) :
    ((∀ j < vectors log, Sound (sends (i + j))) → settled = handed log) ∧
      settled.length ≤ (handed log).length ∧
      (settled.length = (handed log).length → ∀ j < vectors log, Sound (sends (i + j))) := by
  subst h
  induction log generalizing i with
  | nil => exact ⟨fun _ => rfl, Nat.le_refl _, fun _ j hj => absurd hj (Nat.not_lt_zero j)⟩
  | cons a log ih =>
      have ha := hlog a List.mem_cons_self
      have hrest : ∀ b ∈ log, Vectored b := fun b hb => hlog b (List.mem_cons_of_mem _ hb)
      cases a with
      | input pkt q => exact absurd ha id
      | packetFree pkt => exact absurd ha id
      | timerHandle ev => exact ih i hrest
      | eventFree ev => exact ih i hrest
      | sendPending => exact ih i hrest
      | inputMulti pkts =>
          obtain ⟨heq, hle, hall⟩ := ih (i + 1) hrest
          obtain ⟨hsound, hlost⟩ := @channelPacketInput_settled Pkt Ev pkts ha.1 ha.2 (sends i) _ rfl
          have hcount : vectors (Act.inputMulti pkts :: log) = vectors log + 1 :=
            List.countP_cons_of_pos rfl
          have hhanded : handed (Act.inputMulti pkts :: log) = pkts ++ handed log := rfl
          have hfirst : ((channelPacketInput pkts (sends i) : List (Effect Pkt Ev)).flatMap
              Effect.settled).length ≤ pkts.length := by
            by_cases h : Sound (sends i)
            · exact Nat.le_of_eq (congrArg List.length (hsound h))
            · exact Nat.le_of_lt (hlost h)
          rw [carryOut, List.flatMap_append, hcount, hhanded, List.length_append,
            List.length_append]
          refine ⟨fun hs => ?_, by omega, fun hlen j hj => ?_⟩
          · rw [hsound (hs 0 (Nat.succ_pos _)), heq fun j hj => ?_]
            rw [Nat.add_assoc, Nat.add_comm 1 j]
            exact hs (j + 1) (by omega)
          · cases j with
            | zero =>
                by_contra h
                have hlt := hlost h
                omega
            | succ j =>
                rw [Nat.add_comm j 1, ← Nat.add_assoc]
                exact hall (by omega) j (by omega)

/-! ## The worker's vectors -/

/-- **What the worker has done** after some events: its calls are of the expected kinds, there is
    room in the vector, the packets are in the vectors handed over and the one being filled, in
    order, and the other events have been seen to. -/
structure Kept (events : List (Event Pkt Ev)) (b : Batch Pkt (Act Pkt Ev Queue)) : Prop where
  vectored : ∀ a ∈ b.out, Vectored a
  room : b.Small nfpPktVectorSize
  packets : b.items id Act.handed = events.flatMap packetsOf
  others : b.out.flatMap seenIn = events.flatMap duesOf

section Kept

variable {events : List (Event Pkt Ev)} {b : Batch Pkt (Act Pkt Ev Queue)}

/-- A call that hands over no packet. -/
theorem Kept.call (h : Kept events b) {new : List (Event Pkt Ev)} {a : Act Pkt Ev Queue}
    (ha : Vectored a) (hpkt : a.handed = []) (hnew : new.flatMap packetsOf = [])
    (hdue : seenIn a = new.flatMap duesOf) : Kept (events ++ new) ⟨b.held, b.out ++ [a]⟩ := by
  refine ⟨fun c hc => ?_, h.room, ?_, ?_⟩
  · rcases List.mem_append.mp hc with hc | hc
    · exact h.vectored c hc
    · rw [List.mem_singleton.mp hc]
      exact ha
  · rw [List.flatMap_append, hnew, List.append_nil, ← h.packets]
    simp [Batch.items, hpkt]
  · rw [List.flatMap_append, List.flatMap_append, h.others, ← hdue]
    simp

/-- A packet is put into the vector. -/
theorem Kept.push (h : Kept events b) (pkt : Pkt) :
    Kept (events ++ [.packet pkt]) (b.push nfpPktVectorSize .inputMulti pkt) := by
  refine ⟨Batch.push_out (fun v hne hle => ⟨hne, hle⟩) h.vectored pkt, Batch.push_small h.room pkt,
    ?_, ?_⟩
  · rw [Batch.push_items Act.reads_handed, h.packets, List.flatMap_append]
    rfl
  · have hdue : (events ++ [Event.packet pkt]).flatMap duesOf = events.flatMap duesOf := by
      rw [List.flatMap_append]
      exact List.append_nil _
    rw [hdue, ← h.others]
    unfold Batch.push
    split
    · rw [List.flatMap_append]
      exact List.append_nil _
    · rfl

/-- What is in the vector is handed over. -/
theorem Kept.flush (h : Kept events b) : Kept events (b.flush .inputMulti) := by
  refine ⟨Batch.flush_out (fun v hne hle => ⟨hne, hle⟩) h.room h.vectored, ?_, ?_, ?_⟩
  · unfold Batch.Small
    rw [Batch.flush_held]
    exact (by decide : 0 < nfpPktVectorSize)
  · rw [Batch.flush_items Act.reads_handed, h.packets]
  · rw [← h.others]
    unfold Batch.flush
    split
    · rfl
    · rw [List.flatMap_append]
      exact List.append_nil _

end Kept

/-- A vector is handed over each time it holds `NFP_PKT_VECTOR_SIZE` packets. -/
theorem push_vectors (b : Batch Pkt (Act Pkt Ev Queue)) (pkt : Pkt) :
    nfpPktVectorSize * vectors (b.push nfpPktVectorSize .inputMulti pkt).out +
        (b.push nfpPktVectorSize .inputMulti pkt).held.length =
      nfpPktVectorSize * vectors b.out + b.held.length + 1 := by
  have hlen : (b.held ++ [pkt]).length = b.held.length + 1 := by simp
  unfold Batch.push
  split
  · rename_i hfull
    have hcount : vectors (b.out ++ [Act.inputMulti (b.held ++ [pkt])]) = vectors b.out + 1 :=
      List.countP_append
    rw [hcount, List.length_nil, Nat.mul_add]
    omega
  · rw [hlen, Nat.add_assoc]

/-- The rest of it at the end of the burst. -/
theorem flush_vectors (b : Batch Pkt (Act Pkt Ev Queue)) (hb : b.Small nfpPktVectorSize) :
    vectors (b.flush .inputMulti).out = vectors b.out + vectorsFor b.held.length := by
  have hb : b.held.length < 32 := hb
  unfold Batch.flush
  split
  · rename_i hnil
    rw [hnil, List.length_nil, vectorsFor_zero, Nat.add_zero]
  · rename_i hne
    have hpos : 0 < b.held.length := List.length_pos_iff.mpr hne
    have hcount : vectors (b.out ++ [Act.inputMulti b.held]) = vectors b.out + 1 :=
      List.countP_append
    rw [hcount, vectorsFor_eq]
    omega

section Runs

variable {api : PktVectorApi Pkt} (hapi : api.Documented)

include hapi

/-- **One event.** -/
theorem dispatch_kept {events : List (Event Pkt Ev)} {d : Disp Pkt Ev Queue}
    (h : Kept events d.toBatch) (ev : Event Pkt Ev) :
    Kept (events ++ [ev]) (dispatch api d ev).toBatch ∧
      nfpPktVectorSize * vectors (dispatch api d ev).log + (dispatch api d ev).vec.pkt.length =
        nfpPktVectorSize * vectors d.log + d.vec.pkt.length + (packetsOf ev).length := by
  cases ev with
  | invalid =>
      refine ⟨⟨h.vectored, h.room, ?_, ?_⟩, rfl⟩
      · rw [List.flatMap_append]
        exact h.packets.trans (List.append_nil _).symm
      · rw [List.flatMap_append]
        exact h.others.trans (List.append_nil _).symm
  | packet pkt =>
      have hpush := gather_toBatch hapi h.room pkt
      refine ⟨?_, ?_⟩
      · show Kept _ (gather api d pkt).toBatch
        rw [hpush]
        exact h.push pkt
      · have hcount := push_vectors d.toBatch pkt
        rw [← hpush] at hcount
        exact hcount
  | timeout ev =>
      refine ⟨h.call trivial rfl rfl rfl, ?_⟩
      have hcount : vectors (d.log ++ [Act.timerHandle ev]) = vectors d.log + 0 :=
        List.countP_append
      exact congrArg (nfpPktVectorSize * · + d.vec.pkt.length) hcount
  | other ev =>
      refine ⟨h.call trivial rfl rfl rfl, ?_⟩
      have hcount : vectors (d.log ++ [Act.eventFree ev]) = vectors d.log + 0 :=
        List.countP_append
      exact congrArg (nfpPktVectorSize * · + d.vec.pkt.length) hcount

/-- The events of a burst. -/
theorem dispatchAll_kept (new : List (Event Pkt Ev)) {events : List (Event Pkt Ev)}
    {d : Disp Pkt Ev Queue} (h : Kept events d.toBatch) {d' : Disp Pkt Ev Queue}
    (hd : new.foldl (dispatch api) d = d') :
    Kept (events ++ new) d'.toBatch ∧
      nfpPktVectorSize * vectors d'.log + d'.vec.pkt.length =
        nfpPktVectorSize * vectors d.log + d.vec.pkt.length + (new.flatMap packetsOf).length := by
  subst hd
  induction new generalizing events d with
  | nil =>
      rw [List.append_nil]
      exact ⟨h, rfl⟩
  | cons ev new ih =>
      obtain ⟨hkept, hcount⟩ := dispatch_kept hapi h ev
      obtain ⟨hkept', hcount'⟩ := ih hkept
      rw [List.append_assoc] at hkept'
      refine ⟨hkept', ?_⟩
      rw [List.foldl_cons, hcount', hcount, List.flatMap_cons, List.length_append]
      omega

/-- **One burst**: nothing is left in the vector. -/
theorem workerBurst_kept (new : List (Event Pkt Ev)) {events : List (Event Pkt Ev)}
    {d : Disp Pkt Ev Queue} (h : Kept events d.toBatch) (hvec : d.vec.pkt = [])
    {d' : Disp Pkt Ev Queue} (hd : workerBurst api d new = d') :
    Kept (events ++ new) d'.toBatch ∧ d'.vec.pkt = [] ∧
      vectors d'.log = vectors d.log + vectorsFor (new.flatMap packetsOf).length := by
  unfold workerBurst at hd
  split at hd
  · rename_i hnil
    subst hnil hd
    rw [List.append_nil]
    refine ⟨h, hvec, ?_⟩
    rw [List.flatMap_nil, List.length_nil, vectorsFor_zero, Nat.add_zero]
  · obtain ⟨hkept, hcount⟩ := dispatchAll_kept hapi new h rfl
    generalize new.foldl (dispatch api) d = mid at hkept hcount hd
    have hflush := flushVec_toBatch hapi mid
    have hfin : Kept (events ++ new) (flushVec api mid).toBatch := hflush ▸ hkept.flush
    have hheld : (flushVec api mid).toBatch.held = [] := by rw [hflush, Batch.flush_held]
    have hnum : vectors (flushVec api mid).toBatch.out = _ :=
      hflush ▸ flush_vectors mid.toBatch hkept.room
    have hpend : vectors ((flushVec api mid).log ++ [Act.sendPending]) =
      vectors (flushVec api mid).log + 0 := List.countP_append
    subst hd
    refine ⟨?_, hheld, ?_⟩
    · have hcall := @Kept.call Pkt Ev Queue _ _ hfin [] .sendPending trivial rfl rfl rfl
      rw [List.append_nil] at hcall
      exact hcall
    · -- the vector was empty at first, so it holds the packets that filled no vector
      have hsmall : mid.vec.pkt.length < 32 := hkept.room
      have hcount : 32 * vectors mid.log + mid.vec.pkt.length =
          32 * vectors d.log + d.vec.pkt.length + (new.flatMap packetsOf).length := hcount
      have hnum : vectors (flushVec api mid).log =
          vectors mid.log + (mid.vec.pkt.length + 31) / 32 := hnum
      rw [hvec, List.length_nil] at hcount
      show vectors ((flushVec api mid).log ++ [Act.sendPending]) = _
      rw [hpend, hnum, vectorsFor_eq]
      omega

/-- **Every run of bursts.** -/
theorem workerBursts_kept (vec₀ : PktVector Pkt) (bursts : List (List (Event Pkt Ev)))
    {d : Disp Pkt Ev Queue} (hd : workerBursts api vec₀ bursts = d) :
    Kept bursts.flatten d.toBatch ∧ d.vec.pkt = [] ∧ vectors d.log = sendsIn bursts := by
  have hrun : ∀ (bursts : List (List (Event Pkt Ev))) (events : List (Event Pkt Ev))
      (d : Disp Pkt Ev Queue), Kept events d.toBatch → d.vec.pkt = [] →
      Kept (events ++ bursts.flatten) (bursts.foldl (workerBurst api) d).toBatch ∧
        (bursts.foldl (workerBurst api) d).vec.pkt = [] ∧
        vectors (bursts.foldl (workerBurst api) d).log = vectors d.log + sendsIn bursts := by
    intro bursts
    induction bursts with
    | nil =>
        intro events d h hvec
        rw [List.flatten_nil, List.append_nil]
        exact ⟨h, hvec, rfl⟩
    | cons new bursts ih =>
        intro events d h hvec
        obtain ⟨hkept, hempty, hnum⟩ := workerBurst_kept hapi new h hvec rfl
        obtain ⟨hkept', hempty', hnum'⟩ := ih _ _ hkept hempty
        rw [List.append_assoc] at hkept'
        refine ⟨hkept', hempty', ?_⟩
        rw [List.foldl_cons, hnum', hnum, sendsIn, Nat.add_assoc]
  have hstart : Kept [] (⟨api.init vec₀, []⟩ : Disp Pkt Ev Queue).toBatch := by
    refine ⟨fun a ha => absurd ha List.not_mem_nil, ?_, ?_, rfl⟩
    · show (api.init vec₀).pkt.length < nfpPktVectorSize
      rw [hapi.init_empty]
      exact (by decide : 0 < nfpPktVectorSize)
    · simp [Batch.items, Disp.toBatch, hapi.init_empty]
  obtain ⟨hkept, hempty, hnum⟩ := hrun bursts [] _ hstart (hapi.init_empty vec₀)
  subst hd
  exact ⟨hkept, hempty, hnum.trans (Nat.zero_add _)⟩

end Runs

end Worker

/-- **Where the worker accounts for every packet**: for every vector that does what is documented,
    every sequence of bursts and all answers of `nfp_channel_send`, just if every answer to one of
    its calls is a count, -1, or a multiple of 65536. -/
theorem workerClassifDispatcher_accounts_iff {Pkt Ev : Type} {api : PktVectorApi Pkt}
    (hapi : api.Documented) (sends : Nat → Outcome Nat) (vec₀ : PktVector Pkt)
    (bursts : List (List (Event Pkt Ev))) :
    Accounted bursts.flatten (workerClassifDispatcher api sends vec₀ (some bursts)).2 ↔
      ∀ i < sendsIn bursts, Sound (sends i) := by
  have hkept := @workerBursts_kept Pkt Ev Unit api hapi vec₀ bursts _ rfl
  simp only [workerClassifDispatcher]
  generalize workerBursts api vec₀ bursts = d at hkept
  obtain ⟨hkept, hempty, hnum⟩ := hkept
  obtain ⟨hall, -, hlen⟩ := carryOut_settled sends 0 hkept.vectored rfl
  have hout : d.toBatch.out = d.log := rfl
  have hpkts : handed d.log = bursts.flatten.flatMap packetsOf := by
    rw [← hkept.packets]
    simp [Batch.items, Disp.toBatch, hempty, handed]
  rw [hout, hnum, hpkts] at hall hlen
  simp only [Nat.zero_add] at hall hlen
  constructor
  · intro h
    exact hlen h.packets.length_eq
  · intro h
    refine ⟨?_, ?_⟩
    · rw [hall h]
    · rw [carryOut_seen]
      exact hkept.others

/-- A timeout and two packets of which the channel takes one, then a burst it refuses. -/
theorem workerClassifDispatcher_accounts_part :
    Accounted ([.timeout 9, .packet 1, .invalid, .packet 2, .packet 3] : List (Event Nat Nat))
      (workerClassifDispatcher (.reference Nat) (fun i => if i = 0 then .took 1 else .failed 0)
        .empty (some [[.timeout 9, .packet 1, .invalid, .packet 2], [.packet 3]])).2 :=
  (workerClassifDispatcher_accounts_iff (PktVectorApi.reference_documented Nat) _ .empty
    [[.timeout 9, .packet 1, .invalid, .packet 2], [.packet 3]]).mpr (by decide)

/-- The channel fails with -2: the packet is neither taken nor freed. -/
theorem channel_failure_loses_packet :
    (workerClassifDispatcher (.reference Nat) (fun _ => .failed 1) .empty
        (some [[.packet 7]]) : Int × List (Effect Nat Nat)) =
      (0, [.channelSend [7] (.failed 1), .sendPending]) ∧
    ¬ Accounted ([.packet 7] : List (Event Nat Nat))
      (workerClassifDispatcher (.reference Nat) (fun _ => .failed 1) .empty
        (some [[.packet 7]])).2 :=
  ⟨by decide, fun h => absurd h.packets.length_eq (by decide)⟩

end Nfp.Classifier
