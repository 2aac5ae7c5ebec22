/-
  File:      Nfp/Dispatch/Tcpperf.lean
  Subject:   The two receive functions of example/tcpperf/app_main.c: `rx_single_api` hands every
             packet to the stack by itself, `rx_multi_api` in vectors, both counting packet sizes
             (`update_pkt_stats`) and both leaving on the first queue whose `odp_pktin_recv`
             fails.

  `rx_multi_api` leaves there WITHOUT the final flush: what the vector holds at that moment is
  neither handed to the stack nor freed (`rxMultiApi_fail`). How much that is, is the number of
  packets received so far modulo `NFP_PKT_VECTOR_SIZE` (`Lib.Batch`), so the two functions agree,
  and nothing is lost, exactly when no queue fails or that number is a multiple of the vector's
  size (`rxMultiApi_lossless_iff`).
-/
import Nfp.Dispatch.PktVector

namespace Nfp.Tcpperf

open Nfp.Lib Nfp.Dispatch

/-- `PKT_BURST_SIZE`. -/
def pktBurstSize : Nat := 16

/-- `packet_counters_t`. -/
structure PacketCounters where
  total : UInt64
  xs : UInt64
  s : UInt64
  m : UInt64
  l : UInt64
  xl : UInt64
  deriving DecidableEq, Repr

/-- `PKT_LEN_XS`. -/
def pktLenXs : Nat := 128

/-- `PKT_LEN_S`. -/
def pktLenS : Nat := 512

/-- `PKT_LEN_M`. -/
def pktLenM : Nat := 1024

/-- `PKT_LEN_L`. -/
def pktLenL : Nat := 1280

/-- **`update_pkt_stats`** for a packet of `len` bytes. -/
def updatePktStats (len : Nat) (stats : PacketCounters) : PacketCounters :=
  let stats := { stats with total := stats.total + 1 }
  if len < pktLenXs then { stats with xs := stats.xs + 1 }
  else if len < pktLenS then { stats with s := stats.s + 1 }
  else if len < pktLenM then { stats with m := stats.m + 1 }
  else if len < pktLenL then { stats with l := stats.l + 1 }
  else { stats with xl := stats.xl + 1 }

/-- What a receive function did: its effects (neither function meets an event or a queue handle),
    `gbl_args->pkts` and its return value. -/
structure RxOut (Pkt : Type) where
  log : List (Act Pkt Unit Unit)
  pkts : PacketCounters
  ret : Int

section Rx

variable {Pkt : Type} (packetLen : Pkt → Nat)

/-- The queues of `rx_single_api`, from the effects, counters and `pkts_sum` so far. -/
def rxSingleLoop : List (Recv Pkt pktBurstSize) → List (Act Pkt Unit Unit) → PacketCounters → Int →
    RxOut Pkt
  | [], log, stats, pktsSum => ⟨log, stats, pktsSum⟩
  | .fail code :: _, log, stats, _ => ⟨log, stats, Int.negSucc code⟩
  | .burst pkts _ :: recv, log, stats, pktsSum =>
      rxSingleLoop recv (pkts.foldl (fun log pkt => log ++ [.input pkt none]) log)
        (pkts.foldl (fun stats pkt => updatePktStats (packetLen pkt) stats) stats)
        (pktsSum + pkts.length)

/-- **`rx_single_api`** on the answers of `odp_pktin_recv`, one per queue. -/
def rxSingleApi (recv : List (Recv Pkt pktBurstSize)) (stats : PacketCounters) :
    RxOut Pkt :=
  rxSingleLoop packetLen recv [] stats 0

variable (api : PktVectorApi Pkt)

/-- The queues of `rx_multi_api`; after the last one the vector is handed over if it holds
    anything, on a failed queue it is not. -/
def rxMultiLoop : List (Recv Pkt pktBurstSize) → Disp Pkt Unit Unit → PacketCounters → Int →
    RxOut Pkt
  | [], d, stats, pktsSum =>
      ⟨if d.vec.hasData then d.log ++ [.inputMulti d.vec.pkt] else d.log, stats, pktsSum⟩
  | .fail code :: _, d, stats, _ => ⟨d.log, stats, Int.negSucc code⟩
  | .burst pkts _ :: recv, d, stats, pktsSum =>
      rxMultiLoop recv (pkts.foldl (gather api) d)
        (pkts.foldl (fun stats pkt => updatePktStats (packetLen pkt) stats) stats)
        (pktsSum + pkts.length)

/-- **`rx_multi_api`**; `vec₀` is the vector on the stack before `nfp_pkt_vector_init`. -/
def rxMultiApi (vec₀ : PktVector Pkt) (recv : List (Recv Pkt pktBurstSize))
    (stats : PacketCounters) : RxOut Pkt :=
  rxMultiLoop packetLen api recv ⟨api.init vec₀, []⟩ stats 0

end Rx

/-! ## What was received -/

section Received

variable {Pkt : Type} {size : Nat}

/-- The packets received in a call: those of the queues before the first that fails. -/
def received : List (Recv Pkt size) → List Pkt
  | [] => []
  | .fail _ :: _ => []
  | .burst pkts _ :: recv => pkts ++ received recv

/-- Some queue fails. -/
def fails : List (Recv Pkt size) → Bool
  | [] => false
  | .fail _ :: _ => true
  | .burst _ _ :: recv => fails recv

/-- The packets a list of effects frees. -/
def freed (log : List (Act Pkt Unit Unit)) : List Pkt :=
  log.filterMap fun
    | .packetFree pkt => some pkt
    | _ => none

/-- A tidy list of effects frees nothing. -/
theorem freed_tidy {log : List (Act Pkt Unit Unit)} (h : ∀ a ∈ log, a.Tidy) : freed log = [] := by
  unfold freed
  rw [List.filterMap_eq_nil_iff]
  intro a ha
  have hta := h a ha
  cases a with
  | packetFree pkt => exact hta.elim
  | _ => rfl

end Received

/-! ## The two loops -/

section Loops

variable {Pkt : Type} (packetLen : Pkt → Nat)

/-- `rx_single_api` hands over what was received, and nothing else. -/
theorem rxSingleLoop_handed (recv : List (Recv Pkt pktBurstSize)) (log : List (Act Pkt Unit Unit))
    (stats : PacketCounters) (pktsSum : Int) :
    handed (rxSingleLoop packetLen recv log stats pktsSum).log = handed log ++ received recv := by
  induction recv generalizing log stats pktsSum with
  | nil => simp [rxSingleLoop, received]
  | cons r recv ih =>
      cases r with
      | fail code => simp [rxSingleLoop, received]
      | burst pkts hfits =>
          have hin : ∀ (ps : List Pkt) (l : List (Act Pkt Unit Unit)),
              handed (ps.foldl (fun log pkt => log ++ [.input pkt none]) l) = handed l ++ ps := by
            intro ps
            induction ps with
            | nil => intro l; simp
            | cons p ps ihp =>
                intro l
                rw [List.foldl_cons, ihp, handed_append, List.append_assoc]
                rfl
          simp only [rxSingleLoop, received]
          rw [ih, hin, List.append_assoc]

/-- Counters and return value do not depend on how packets are handed over. -/
theorem rxMultiLoop_pkts_ret (api : PktVectorApi Pkt) (recv : List (Recv Pkt pktBurstSize))
    (d : Disp Pkt Unit Unit) (log : List (Act Pkt Unit Unit)) (stats : PacketCounters)
    (pktsSum : Int) :
    (rxMultiLoop packetLen api recv d stats pktsSum).pkts =
      (rxSingleLoop packetLen recv log stats pktsSum).pkts ∧
    (rxMultiLoop packetLen api recv d stats pktsSum).ret =
      (rxSingleLoop packetLen recv log stats pktsSum).ret := by
  induction recv generalizing d log stats pktsSum with
  | nil => exact ⟨rfl, rfl⟩
  | cons r recv ih =>
      cases r with
      | fail code => exact ⟨rfl, rfl⟩
      | burst pkts hfits => exact ih _ _ _ _

variable {api : PktVectorApi Pkt} (hapi : api.Documented)

/-- The buffer once everything received has been pushed. -/
def gathered (recv : List (Recv Pkt pktBurstSize)) (b : Batch Pkt (Act Pkt Unit Unit)) :
    Batch Pkt (Act Pkt Unit Unit) :=
  (received recv).foldl (Batch.push nfpPktVectorSize .inputMulti) b

include hapi

/-- **The effects of `rx_multi_api`'s loop**: the pushes of everything received, and a flush only
    when no queue fails. -/
theorem rxMultiLoop_log (recv : List (Recv Pkt pktBurstSize)) {d : Disp Pkt Unit Unit}
    (hroom : d.toBatch.Small nfpPktVectorSize) (stats : PacketCounters) (pktsSum : Int) :
    (rxMultiLoop packetLen api recv d stats pktsSum).log =
      if fails recv then (gathered recv d.toBatch).out
      else ((gathered recv d.toBatch).flush .inputMulti).out := by
  induction recv generalizing d stats pktsSum with
  | nil =>
      have hflush := flushVec_toBatch hapi d
      have hout := congrArg Batch.out hflush
      simp only [flushVec] at hout
      simp only [rxMultiLoop, fails, gathered, received, List.foldl_nil, Bool.false_eq_true,
        if_false]
      rw [← hout]
      split
      · rfl
      · rfl
  | cons r recv ih =>
      cases r with
      | fail code => rfl
      | burst pkts hfits =>
          have hpush := gatherAll_toBatch hapi pkts hroom
          have hroom' : (pkts.foldl (gather api) d).toBatch.Small nfpPktVectorSize := by
            rw [hpush]
            exact Batch.pushAll_small pkts hroom
          simp only [rxMultiLoop, fails]
          rw [ih hroom', hpush]
          simp only [gathered, received, List.foldl_append]

end Loops

/-! ## The call -/

section Call

variable {Pkt : Type} {recv : List (Recv Pkt pktBurstSize)}

/-- The empty buffer a call starts from. -/
theorem emptyBatch_small : (⟨[], []⟩ : Batch Pkt (Act Pkt Unit Unit)).Small nfpPktVectorSize := by
  show 0 < nfpPktVectorSize
  decide

/-- What is handed over and what is still held make up what was received. -/
theorem gathered_items :
    handed (gathered recv ⟨[], []⟩).out ++
      (gathered recv ⟨[], []⟩).held = received recv := by
  have h := Batch.pushAll_items Act.reads_handed nfpPktVectorSize (received recv)
    (⟨[], []⟩ : Batch Pkt (Act Pkt Unit Unit))
  simp only [Batch.items, List.flatMap_nil, List.map_nil, List.append_nil, List.nil_append,
    List.map_id] at h
  exact h

theorem gathered_held_length :
    (gathered recv ⟨[], []⟩).held.length =
      (received recv).length % nfpPktVectorSize := by
  unfold gathered
  rw [Batch.pushAll_held_length (received recv) emptyBatch_small, List.length_nil, Nat.zero_add]

theorem gathered_tidy :
    ∀ a ∈ (gathered recv ⟨[], []⟩).out, a.Tidy :=
  Batch.pushAll_out Act.inputMulti_tidy (received recv) fun _ h => absurd h List.not_mem_nil

variable {api : PktVectorApi Pkt} (hapi : api.Documented) (packetLen : Pkt → Nat)
  (vec₀ : PktVector Pkt) (stats : PacketCounters)

include hapi

theorem rxMultiApi_log :
    (rxMultiApi packetLen api vec₀ recv stats).log =
      if fails recv then (gathered recv ⟨[], []⟩).out
      else ((gathered recv ⟨[], []⟩).flush .inputMulti).out := by
  have h0 : (⟨api.init vec₀, []⟩ : Disp Pkt Unit Unit).toBatch = ⟨[], []⟩ := by
    simp only [Disp.toBatch, hapi.init_empty]
  unfold rxMultiApi
  rw [rxMultiLoop_log packetLen hapi recv (by rw [h0]; exact emptyBatch_small), h0]

/-- No packet is ever freed: the vector always has room. -/
theorem rxMultiApi_freed :
    freed (rxMultiApi packetLen api vec₀ recv stats).log = [] := by
  apply freed_tidy
  rw [rxMultiApi_log hapi]
  split
  · exact gathered_tidy
  · exact Batch.flush_out Act.inputMulti_tidy
      (Batch.pushAll_small (received recv) emptyBatch_small) gathered_tidy

/-- **When no queue fails everything received is handed over**, in order. -/
theorem rxMultiApi_ok (hf : fails recv = false) :
    handed (rxMultiApi packetLen api vec₀ recv stats).log =
      received recv := by
  rw [rxMultiApi_log hapi, hf, if_neg (by decide)]
  have h := Batch.flush_items Act.reads_handed (gathered recv ⟨[], []⟩)
  simp only [Batch.items, Batch.flush_held, List.map_nil, List.append_nil, List.map_id] at h
  exact h.trans gathered_items

/-- **When a queue fails, the vector's contents are left behind.** -/
theorem rxMultiApi_fail (hf : fails recv = true) :
    handed (rxMultiApi packetLen api vec₀ recv stats).log ++
      (gathered recv ⟨[], []⟩).held = received recv := by
  rw [rxMultiApi_log hapi, hf, if_pos rfl]
  exact gathered_items

end Call

/-! ## Loss -/

/-- **What a lossless reception is**: every packet received in the call was handed to the stack
    or freed, exactly once; those handed over are in the order of reception; and packets,
    counters and return value are those of `rx_single_api` on the same answers. -/
structure Lossless {Pkt : Type} (recv : List (Recv Pkt pktBurstSize))
    (single multi : RxOut Pkt) : Prop where
  once : (handed multi.log ++ freed multi.log).Perm (received recv)
  order : (handed multi.log).Sublist (received recv)
  packets : handed multi.log = handed single.log
  counters : multi.pkts = single.pkts
  value : multi.ret = single.ret

/-- **`rx_multi_api` loses nothing exactly when** no queue fails, or the packets received before
    the failing queue fill whole vectors. -/
theorem rxMultiApi_lossless_iff {Pkt : Type} (api : PktVectorApi Pkt)
    (hapi : api.Documented) (packetLen : Pkt → Nat) (vec₀ : PktVector Pkt)
    (stats : PacketCounters) (recv : List (Recv Pkt pktBurstSize)) :
    Lossless recv (rxSingleApi packetLen recv stats)
        (rxMultiApi packetLen api vec₀ recv stats) ↔
      fails recv = false ∨ nfpPktVectorSize ∣ (received recv).length := by
  have hsingle : handed (rxSingleApi packetLen recv stats).log =
      received recv := by
    unfold rxSingleApi
    rw [rxSingleLoop_handed]
    rfl
  have hrest := rxMultiLoop_pkts_ret packetLen api recv (⟨api.init vec₀, []⟩ : Disp Pkt Unit Unit)
    [] stats 0
  have hfreed := @rxMultiApi_freed _ recv _ hapi packetLen vec₀ stats
  -- everything turns on whether what was handed over is all that was received
  have hall : Lossless recv (rxSingleApi packetLen recv stats)
      (rxMultiApi packetLen api vec₀ recv stats) ↔
      handed (rxMultiApi packetLen api vec₀ recv stats).log =
        received recv := by
    constructor
    · intro h
      rw [h.packets, hsingle]
    · intro h
      refine ⟨?_, ?_, by rw [h, hsingle], hrest.1, hrest.2⟩
      · rw [hfreed, List.append_nil, h]
      · rw [h]
  rw [hall]
  cases hf : fails recv with
  | false => exact ⟨fun _ => Or.inl rfl, fun _ => rxMultiApi_ok hapi packetLen vec₀ stats hf⟩
  | true =>
      have hsplit := rxMultiApi_fail hapi packetLen vec₀ stats hf
      have hheld := @gathered_held_length _ recv
      constructor
      · intro h
        rw [h] at hsplit
        have hnil := List.append_right_eq_self.mp hsplit
        rw [hnil, List.length_nil] at hheld
        exact Or.inr (Nat.dvd_of_mod_eq_zero hheld.symm)
      · rintro (h | h)
        · cases h
        · rw [Nat.mod_eq_zero_of_dvd h] at hheld
          rw [List.length_eq_zero_iff.mp hheld, List.append_nil] at hsplit
          exact hsplit

/-- The counters at start-up. -/
def noPackets : PacketCounters := ⟨0, 0, 0, 0, 0, 0⟩

theorem rxMultiApi_lossless_two_queues :
    (PktVectorApi.reference Nat).Documented ∧
    Lossless [.burst [60, 1500] (by decide), .burst [90] (by decide)]
      (rxSingleApi id
        [.burst [60, 1500] (by decide), .burst [90] (by decide)] noPackets)
      (rxMultiApi id (.reference Nat) .empty
        [.burst [60, 1500] (by decide), .burst [90] (by decide)] noPackets) := by
  have hapi := PktVectorApi.reference_documented Nat
  exact ⟨hapi,
    (rxMultiApi_lossless_iff (.reference Nat) hapi id .empty noPackets _).mpr (Or.inl rfl)⟩

/-- One packet on the first queue, an error on the second: the packet is gone. -/
theorem rxMultiApi_loses_a_packet :
    (PktVectorApi.reference Nat).Documented ∧
    ¬ Lossless [.burst [60] (by decide), .fail 0]
      (rxSingleApi id [.burst [60] (by decide), .fail 0] noPackets)
      (rxMultiApi id (.reference Nat) .empty [.burst [60] (by decide), .fail 0] noPackets) := by
  refine ⟨PktVectorApi.reference_documented Nat, fun h => ?_⟩
  have hnone : handed (rxMultiApi id (.reference Nat) .empty
      [.burst [60] (by decide), .fail 0] noPackets).log = [] := by decide
  have hone : handed (rxSingleApi id
      [.burst [60] (by decide), .fail 0] noPackets).log = [60] := by decide
  have hp := h.packets
  rw [hnone, hone] at hp
  cases hp

end Nfp.Tcpperf
