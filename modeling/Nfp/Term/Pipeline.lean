/-
  File:      Nfp/Term/Pipeline.lean
  Subject:   FROM THE SOCKET OR THE CLASSIFIER TO THE TERMINATION THREAD: the datagrams that
             `notify` of example/udp_term_socket/udp_term_socket.c and `channel_packet_input` of
             example/classifier/classifier_term.c put on a channel, and `termination_channel` of
             either, which takes them off, counts and frees them.

  All threads run at once: in udp_term_socket every worker may be in the callback, in classifier
  one thread sends. A step is one call on the channel or on a packet, so the runs of `Pipe.next` are
  the interleavings (Lib/Pipeline.lean). What each example puts on the channel and what it frees is
  read off its model: the calls of `udpTermNotify`, the effects of `channelPacketInput`. Of the
  channel itself no more is known than `Channel` says.

  * `udpTermNext` -- the workers in the callback, with the events it does nothing for;
  * **`udpTerm_pipeline`**, **`classifier_pipeline`** -- no datagram is lost or freed twice, they
    are counted in the order they were sent if the channel is first in, first out, and the counters
    are right; what is left when all threads have ended is on the channel.
-/
import Mathlib.Data.List.Induction
import Nfp.Classifier.Trim
import Nfp.Lib.Pipeline
import Nfp.Sigevent.Callbacks

namespace Nfp.Term

open Nfp.Lib
open Nfp.Classifier (channelPacketInput channelSendResult channelPacketInput_settled Effect)
open Nfp.Classifier.Trim (UdpPacket PullApi trim trim_wellFormed)
open Nfp.Dispatch (nfpPktVectorSize)
open Nfp.Sigevent (Call SockSigval udpTermNotify)

/-- A packet by its handle, as it was received. -/
structure Datagram where
  handle : Nat
  packet : UdpPacket

/-- `odp_packet_len` of a datagram that has been trimmed for the channel. -/
def Datagram.len (api : PullApi) (d : Datagram) : UInt64 :=
  UInt64.ofNat (trim api d.packet).data.length

/-- `CHANNEL_RECV_MAX`. -/
def channelRecvMax : Nat := 32

/-- The sum of the lengths of some datagrams, as `f` measures them. -/
def bytesOf (f : Datagram → Nat) (ds : List Datagram) : Nat := ds.foldl (fun n d => n + f d) 0

/-- The bytes that are left of a datagram when it has been trimmed. -/
def trimmedBytes (api : PullApi) (d : Datagram) : Nat := (trim api d.packet).data.length

/-- The bytes of its payload. -/
def payloadBytes (d : Datagram) : Nat := d.packet.payload.length

/-- **What a maintainer is owed**, at any time: each datagram handed over is with one thread, on the
    channel, or freed, once; what was sent is counted, with the termination thread or on the
    channel, in the order of sending if the channel keeps it; the counters are those of the
    datagrams counted, and of their payload where the headers are right; `pkt` in
    `termination_channel` has room for what the channel gives; nothing is counted by a thread that
    returns before its loop; and when all threads have ended, what was not freed is on the
    channel. -/
structure Delivered {κ : Type} (api : PullApi) (channel : Channel Datagram κ) (s : Pipe Datagram) :
    Prop where
  flow : s.handed.Perm
    (s.producers.flatMap Producer.held ++ s.channel ++ s.consumer.held ++ s.freed)
  sent : s.sent.Perm (s.counted ++ s.consumer.waiting ++ s.channel)
  order : channel.Fifo → s.sent = s.counted ++ s.consumer.waiting ++ s.channel
  receivedPktTotal : s.num = UInt64.ofNat s.counted.length
  receivedTotal : s.total = UInt64.ofNat (bytesOf (trimmedBytes api) s.counted)
  receivedPayload : (∀ d ∈ s.counted, d.packet.WellFormed) →
    s.total = UInt64.ofNat (bytesOf payloadBytes s.counted)
  fits : s.consumer.held.length ≤ channelRecvMax
  early : s.consumer = .done false → s.counted = []
  ended : s.Stopped → s.handed.Perm (s.channel ++ s.freed) ∧
    s.sent.Perm (s.counted ++ s.channel) ∧ (channel.Fifo → s.sent = s.counted ++ s.channel)

section Counters

variable {α κ : Type} {api : PullApi} {ds : List Datagram}

theorem bytesOf_concat (f : Datagram → Nat) (ds : List Datagram) (d : Datagram) :
    bytesOf f (ds ++ [d]) = bytesOf f ds + f d := by
  simp [bytesOf]

/-- The counter is the sum of the lengths, up to 64 bits. -/
theorem sizes_trimmed {io : Io Datagram α κ} (hsize : io.size = Datagram.len api)
    (ds : List Datagram) : Pipe.sizes io ds = UInt64.ofNat (bytesOf (trimmedBytes api) ds) := by
  -- the sums are taken from the front, so the last datagram is the one to split off
  induction ds using List.reverseRecOn with
  | nil => rfl
  | append_singleton ds d ih =>
      rw [Pipe.sizes_concat, ih, hsize, bytesOf_concat, UInt64.ofNat_add]
      rfl

/-- Datagrams whose headers are right are trimmed to their payload. -/
theorem bytesOf_wellFormed (h : ∀ d ∈ ds, d.packet.WellFormed) :
    bytesOf (trimmedBytes api) ds = bytesOf payloadBytes ds := by
  induction ds using List.reverseRecOn with
  | nil => rfl
  | append_singleton ds d ih =>
      obtain ⟨hds, hd⟩ := List.forall_mem_append.mp h
      have hone : trimmedBytes api d = payloadBytes d := by
        unfold trimmedBytes payloadBytes
        rw [(trim_wellFormed api d.packet (hd d (List.mem_singleton.mpr rfl))).1]
      rw [bytesOf_concat, bytesOf_concat, ih hds, hone]

/-- The invariant of the threads says all of it. -/
theorem delivered_of_inv {io : Io Datagram α κ} (hsize : io.size = Datagram.len api)
    (hmax : io.max = channelRecvMax) {s : Pipe Datagram} (hi : Pipe.Inv io s) :
    Delivered api io.channel s where
  flow := hi.flow
  sent := hi.sent
  order := hi.order
  receivedPktTotal := hi.num
  receivedTotal := by rw [hi.total, sizes_trimmed hsize]
  receivedPayload h := by rw [hi.total, sizes_trimmed hsize, bytesOf_wellFormed h]
  fits := hmax ▸ hi.fits
  early h := hi.outside (by rw [h]; rfl)
  ended h := hi.stopped h

end Counters

/-! ## udp_term_socket -/

/-- What a call of the callback puts on the channel. -/
def putOn {Pkt : Type} : Call Pkt → List Pkt
  | .channelSend pkt answer => if channelSendResult 1 answer = 1 then pkt.toList else []
  | _ => []

/-- What it frees. -/
def freedBy {Pkt : Type} : Call Pkt → List Pkt
  | .packetFree pkt => pkt.toList
  | _ => []

/-- **`notify`** between the packet taken and the return, for the channel and the packet: what the
    channel takes and what is freed. -/
def udpTermSplit (batch : List Datagram) (answer : Outcome Nat) : List Datagram × List Datagram :=
  let calls := batch.flatMap fun d => (udpTermNotify answer ⟨.recv, 0, 0, some d⟩).2
  (calls.flatMap putOn, calls.flatMap freedBy)

def udpTermIo {κ : Type} (api : PullApi) (channel : Channel Datagram κ) :
    Io Datagram (Outcome Nat) κ where
  split := udpTermSplit
  channel := channel
  max := channelRecvMax
  size := Datagram.len api

/-- The steps: the stack calls `notify` on a worker, or one of the threads goes on.
    `termination_channel` begins with its argument and `nfp_get_processing_state`, either of which
    may be `NULL`. -/
inductive UdpTermStep (κ : Type) where
  | notify (w : Nat) (ss : SockSigval Datagram)
  | send (w : Nat) (answer : Outcome Nat)
  | free (w : Nat)
  | enter (arg isRunning : Bool)
  | test
  | recv (answer : Option κ)
  | count
  | release
  | stop

/-- **One step**. The callback returns at once for all events but `NFP_EVENT_RECV`, which comes
    with a packet. -/
def udpTermNext {κ : Type} (api : PullApi) (channel : Channel Datagram κ) (s : Pipe Datagram) :
    UdpTermStep κ → Option (Pipe Datagram)
  | .notify w ss =>
      if ss.event ≠ .recv then
        match s.producers[w]? with
        | some .idle => some s
        | _ => none
      else ss.pkt.bind fun d => Pipe.next (udpTermIo api channel) s (.hand w [d])
  | .send w answer => Pipe.next (udpTermIo api channel) s (.send w answer)
  | .free w => Pipe.next (udpTermIo api channel) s (.free w)
  | .enter arg isRunning => Pipe.next (udpTermIo api channel) s (.enter (arg && isRunning))
  | .test => Pipe.next (udpTermIo api channel) s .test
  | .recv answer => Pipe.next (udpTermIo api channel) s (.recv answer)
  | .count => Pipe.next (udpTermIo api channel) s .count
  | .release => Pipe.next (udpTermIo api channel) s .release
  | .stop => Pipe.next (udpTermIo api channel) s .stop

/-- The one datagram of a callback is sent or freed. -/
theorem udpTermSplit_one (d : Datagram) (answer : Outcome Nat) :
    (udpTermSplit [d] answer).1 ++ (udpTermSplit [d] answer).2 = [d] := by
  by_cases h : channelSendResult 1 answer = 1
  · simp [udpTermSplit, udpTermNotify, putOn, freedBy, h]
  · simp [udpTermSplit, udpTermNotify, putOn, freedBy, h]

/-- What is handed over at a time in udp_term_socket. -/
def Single (batch : List Datagram) : Prop := ∃ d, batch = [d]

/-- The steps are those of the threads of Lib/Pipeline.lean, one datagram at a time. -/
theorem reach_pipe {κ : Type} {api : PullApi} {channel : Channel Datagram κ}
    {s₀ s : Pipe Datagram} (h : Reach (udpTermNext api channel) anyStep s₀ s) :
    Reach (Pipe.next (udpTermIo api channel)) (fun _ l => l.Meets Single fun _ => True) s₀ s := by
  induction h with
  | start => exact .start
  | step s s' l _ _ hs ih =>
      cases l with
      | notify w ss =>
          rw [udpTermNext] at hs
          split at hs
          · split at hs
            · cases hs
              exact ih
            · cases hs
          · obtain ⟨d, -, hd⟩ := Option.bind_eq_some_iff.mp hs
            exact .step s s' (.hand w [d]) ih ⟨d, rfl⟩ hd
      | send w answer => exact .step s s' (.send w answer) ih trivial hs
      | free w => exact .step s s' (.free w) ih trivial hs
      | enter arg isRunning => exact .step s s' (.enter (arg && isRunning)) ih trivial hs
      | test => exact .step s s' .test ih trivial hs
      | recv answer => exact .step s s' (.recv answer) ih trivial hs
      | count => exact .step s s' .count ih trivial hs
      | release => exact .step s s' .release ih trivial hs
      | stop => exact .step s s' .stop ih trivial hs

/-- **udp_term_socket**: whatever the channel answers and however the workers, the termination
    thread and the stop interleave. -/
theorem udpTerm_pipeline {κ : Type} (api : PullApi) (channel : Channel Datagram κ) (workers : Nat)
    {s : Pipe Datagram} (h : Reach (udpTermNext api channel) anyStep (Pipe.start workers) s) :
    Delivered api channel s := by
  have hinv : Pipe.Inv (udpTermIo api channel) s := by
    refine Pipe.inv_of_reach (fun b answer hb _ => ?_) (reach_pipe h)
    obtain ⟨d, rfl⟩ := hb
    exact udpTermSplit_one d answer
  exact delivered_of_inv rfl rfl hinv

/-- Two bytes of payload. -/
def pairDatagram (handle : Nat) : Datagram where
  handle := handle
  packet :=
    { data := [0, 53, 0, 53, 0, 10, 0, 0, 1, 2]
      l4Off := 0
      header := by decide
      size := by decide }

/-- Two workers: one datagram is counted, one freed for want of room, one is on the channel when
    the threads end. -/
def udpTermRun : List (UdpTermStep Nat) :=
  [.enter true true, .test, .notify 0 ⟨.recv, 3, 0, some (pairDatagram 0)⟩,
    .notify 1 ⟨.send, 3, 0, none⟩, .notify 1 ⟨.recv, 3, 0, some (pairDatagram 1)⟩,
    .send 0 (.took 1), .recv (some 5), .send 1 (.failed 0), .count, .free 1, .release, .stop, .test,
    .notify 1 ⟨.recv, 3, 0, some (pairDatagram 2)⟩, .send 1 (.took 1)]

theorem udpTerm_pipeline_two_workers :
    ∃ s, Reach (udpTermNext .reference .queue) anyStep (Pipe.start 2) s ∧
      (s.total = 2 ∧ s.channel.length = 1 ∧ s.freed.length = 2) ∧
      s.sent = s.counted ++ s.consumer.waiting ++ s.channel ∧ Delivered .reference .queue s := by
  have hrun : (run (udpTermNext .reference .queue) (Pipe.start 2) udpTermRun).any (fun s =>
      decide (s.total = 2 ∧ s.channel.length = 1 ∧ s.freed.length = 2)) = true := by decide
  obtain ⟨s, hs, hp⟩ := Reach.of_run_any hrun
  have hall := udpTerm_pipeline .reference .queue 2 hs
  exact ⟨s, hs, of_decide_eq_true hp, hall.order Channel.queue_fifo, hall⟩

/-! ## classifier -/

/-- What an effect of `channel_packet_input` puts on the channel. -/
def sentBy : Effect Datagram Unit → List Datagram
  | .channelSend pkts (.took k) => pkts.take k
  | _ => []

/-- What it frees. -/
def releasedBy : Effect Datagram Unit → List Datagram
  | .packetFree pkt => [pkt]
  | _ => []

/-- **`channel_packet_input`** for the channel and the packets: what the channel takes and what is
    freed. -/
def classifierSplit (batch : List Datagram) (answer : Outcome Nat) :
    List Datagram × List Datagram :=
  let effects := channelPacketInput batch answer
  (effects.flatMap sentBy, effects.flatMap releasedBy)

def classifierIo {κ : Type} (api : PullApi) (channel : Channel Datagram κ) :
    Io Datagram (Outcome Nat) κ where
  split := classifierSplit
  channel := channel
  max := channelRecvMax
  size := Datagram.len api

/-- A vector that the worker hands over. -/
def InVector (batch : List Datagram) : Prop := batch ≠ [] ∧ batch.length ≤ nfpPktVectorSize

instance : DecidablePred InVector := fun _ => inferInstanceAs (Decidable (_ ∧ _))

/-- First the send, then the frees: the two parts are what `Effect.settled` collects. -/
theorem classifierSplit_settled (batch : List Datagram) (answer : Outcome Nat) :
    (classifierSplit batch answer).1 ++ (classifierSplit batch answer).2 =
      (channelPacketInput batch answer : List (Effect Datagram Unit)).flatMap Effect.settled := by
  have hnone (pkts : List Datagram) : (pkts.map Effect.packetFree).flatMap sentBy = [] := by
    induction pkts with
    | nil => rfl
    | cons _ _ ih => exact ih
  have hall (pkts : List Datagram) :
      (pkts.map Effect.packetFree).flatMap releasedBy =
        (pkts.map (Effect.packetFree : Datagram → Effect Datagram Unit)).flatMap
          Effect.settled := by
    induction pkts with
    | nil => rfl
    | cons d _ ih => exact congrArg (d :: ·) ih
  have hsend : releasedBy (.channelSend batch answer) = [] := rfl
  have hsent : sentBy (.channelSend batch answer) =
      (Effect.channelSend batch answer : Effect Datagram Unit).settled := by
    cases answer <;> rfl
  unfold classifierSplit channelPacketInput
  by_cases hne : batch = []
  · rw [if_pos hne]
    rfl
  · simp only [if_neg hne, List.flatMap_cons, hsend, hsent, List.nil_append]
    split
    · rw [hnone, hall, List.append_nil]
    · simp only [List.flatMap_nil, List.append_nil]

/-- **classifier**: likewise, with vectors of datagrams and an answer the 16-bit index is right
    for. -/
theorem classifier_pipeline {κ : Type} (api : PullApi) (channel : Channel Datagram κ)
    {s : Pipe Datagram}
    (h : Reach (Pipe.next (classifierIo api channel))
      (fun _ l => l.Meets InVector Classifier.Sound) (Pipe.start 1) s) :
    Delivered api channel s := by
  have hinv : Pipe.Inv (classifierIo api channel) s := by
    refine Pipe.inv_of_reach (fun b answer hb hsound => ?_) h
    show (classifierSplit b answer).1 ++ (classifierSplit b answer).2 = b
    rw [classifierSplit_settled]
    exact (channelPacketInput_settled hb.1 hb.2 answer rfl).1 hsound
  exact delivered_of_inv rfl rfl hinv

/-- A vector of three of which the channel takes two, and one more that it refuses. -/
def classifierRun : List (PipeStep Datagram (Outcome Nat) Nat) :=
  [.hand 0 [pairDatagram 0, pairDatagram 1, pairDatagram 2], .enter true, .test,
    .send 0 (.took 2), .recv (some 5), .count, .free 0, .hand 0 [pairDatagram 3], .release,
    .send 0 (.failed 0), .count]

theorem classifier_pipeline_three :
    ∃ s, Reach (Pipe.next (classifierIo .reference .queue))
        (fun _ l => l.Meets InVector Classifier.Sound) (Pipe.start 1) s ∧
      (s.total = 4 ∧ s.num = 2 ∧ s.freed.length = 2) ∧
      s.sent = s.counted ++ s.consumer.waiting ++ s.channel ∧ Delivered .reference .queue s := by
  have hrun : (run (restrict (Pipe.next (classifierIo .reference .queue))
      fun _ l => l.Meets InVector Classifier.Sound) (Pipe.start 1) classifierRun).any (fun s =>
        decide (s.total = 4 ∧ s.num = 2 ∧ s.freed.length = 2)) = true := by decide
  obtain ⟨s, hs, hp⟩ := Reach.of_run_any hrun
  have hall := classifier_pipeline .reference .queue hs.of_restrict
  exact ⟨s, hs.of_restrict, of_decide_eq_true hp, hall.order Channel.queue_fifo, hall⟩

end Nfp.Term
