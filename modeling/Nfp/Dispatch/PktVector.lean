/-
  File:      Nfp/Dispatch/PktVector.lean
  Subject:   THE PACKET VECTOR and the inner loop that fills it (include/api/nfp_pkt_vector.h; the
             `for (pkt_idx ...)` body and the flush of `pkt_io_recv` in example/fpm_direct and
             example/fpm_power, and of `rx_multi_api` in example/tcpperf -- the same lines in all
             three).

  `nfp_pkt_vector_init`, `nfp_pkt_vector_add` and `nfp_packet_input_multi` live in the binary
  library: they are the fields of `PktVectorApi`, and `PktVectorApi.Documented` is what
  nfp_pkt_vector.h says of the first two. Nothing is assumed of the vector that
  `nfp_packet_input_multi` leaves behind, nor of an `add` to a full vector.

  A dispatcher's effects are one list, `Act`, oldest first. `expand` reads a batch as the packets
  of it handed over one by one; under the documented vector the inner loop is a push of
  `Lib.Batch` (`gather_toBatch`) and the flush its flush, so everything about order, loss and
  batch sizes is `Lib.Batch`'s.
-/
import Nfp.Lib.Batch

namespace Nfp.Dispatch

open Nfp.Lib

/-- `NFP_PKT_VECTOR_SIZE` (nfp_config.h). -/
def nfpPktVectorSize : Nat := 32

/-- `nfp_pkt_vector_t`: its `pkt[]` up to `num`. -/
structure PktVector (Pkt : Type) where
  pkt : List Pkt
  fits : pkt.length ≤ nfpPktVectorSize

namespace PktVector

variable {Pkt : Type}

/-- The field `num`. -/
def num (v : PktVector Pkt) : Nat := v.pkt.length

/-- `NFP_PKT_VECTOR_IS_FULL`. -/
def isFull (v : PktVector Pkt) : Bool := v.num == nfpPktVectorSize

/-- `NFP_PKT_VECTOR_HAS_DATA`. -/
def hasData (v : PktVector Pkt) : Bool := v.num != 0

/-- The vector with nothing in it. -/
def empty : PktVector Pkt := ⟨[], Nat.zero_le _⟩

end PktVector

/-- The library's vector functions: `nfp_pkt_vector_init`, `nfp_pkt_vector_add` (the vector after
    it and the number of packets added) and the vector as `nfp_packet_input_multi` leaves it. -/
structure PktVectorApi (Pkt : Type) where
  init : PktVector Pkt → PktVector Pkt
  add : PktVector Pkt → Pkt → PktVector Pkt × Nat
  inputMulti : PktVector Pkt → PktVector Pkt

/-- **What nfp_pkt_vector.h documents**: `init` empties the vector, `add` appends the packet and
    returns 1 while there is room. -/
structure PktVectorApi.Documented {Pkt : Type} (api : PktVectorApi Pkt) : Prop where
  init_empty : ∀ v, (api.init v).pkt = []
  add_room : ∀ v p, v.num < nfpPktVectorSize →
    (api.add v p).1.pkt = v.pkt ++ [p] ∧ (api.add v p).2 = 1

/-- A vector that does what is documented: a full one refuses the packet. -/
def PktVectorApi.reference (Pkt : Type) : PktVectorApi Pkt where
  init _ := .empty
  add v p :=
    if h : v.num < nfpPktVectorSize then
      (⟨v.pkt ++ [p], by rw [List.length_append]; exact h⟩, 1)
    else (v, 0)
  inputMulti v := v

theorem PktVectorApi.reference_documented (Pkt : Type) :
    (PktVectorApi.reference Pkt).Documented where
  init_empty _ := rfl
  add_room v p h := by simp only [reference, dif_pos h, and_self]

/-! ## The effects of a dispatcher -/

/-- What a dispatcher does, one entry per call: a packet to the stack (`nfp_packet_input`, with
    the queue it came from, `none` for `ODP_QUEUE_INVALID`), a vector to the stack
    (`nfp_packet_input_multi`), a timeout handled, an event or a packet freed, the pending
    packets sent. -/
inductive Act (Pkt Ev Queue : Type) where
  | input (pkt : Pkt) (inQueue : Option Queue)
  | inputMulti (pkts : List Pkt)
  | timerHandle (ev : Ev)
  | eventFree (ev : Ev)
  | packetFree (pkt : Pkt)
  | sendPending
  deriving DecidableEq, Repr

namespace Act

variable {Pkt Ev Queue : Type}

/-- The packets an effect hands to the stack. -/
def handed : Act Pkt Ev Queue → List Pkt
  | .input pkt _ => [pkt]
  | .inputMulti pkts => pkts
  | _ => []

/-- A vector handed over reads as its packets handed over one by one. -/
def expand : Act Pkt Ev Queue → List (Act Pkt Ev Queue)
  | .inputMulti pkts => pkts.map fun pkt => .input pkt none
  | a => [a]

/-- `expand` keeps the packets handed over. -/
theorem expand_handed (a : Act Pkt Ev Queue) : a.expand.flatMap handed = a.handed := by
  cases a with
  | inputMulti pkts =>
      simp only [expand, List.flatMap_map, handed]
      induction pkts with
      | nil => rfl
      | cons p ps ih => rw [List.flatMap_cons, ih]; rfl
  | _ => rfl

theorem reads_handed : Reads (γ := Pkt) (inputMulti : List Pkt → Act Pkt Ev Queue) id handed :=
  fun v => (List.map_id v).symm

theorem reads_expand :
    Reads (γ := Act Pkt Ev Queue) inputMulti (fun pkt => input pkt none) expand :=
  fun _ => rfl

end Act

/-- An effect as a tidy dispatcher has it: no packet freed, no empty and no overlong vector. -/
def Act.Tidy {Pkt Ev Queue : Type} : Act Pkt Ev Queue → Prop
  | .packetFree _ => False
  | .inputMulti pkts => pkts ≠ [] ∧ pkts.length ≤ nfpPktVectorSize
  | _ => True

theorem Act.inputMulti_tidy {Pkt Ev Queue : Type} (pkts : List Pkt) (hne : pkts ≠ [])
    (hle : pkts.length ≤ nfpPktVectorSize) : (inputMulti pkts : Act Pkt Ev Queue).Tidy :=
  ⟨hne, hle⟩

/-- The packets a list of effects hands to the stack, in order. -/
def handed {Pkt Ev Queue : Type} (log : List (Act Pkt Ev Queue)) : List Pkt :=
  log.flatMap Act.handed

theorem handed_append {Pkt Ev Queue : Type} (l l' : List (Act Pkt Ev Queue)) :
    handed (l ++ l') = handed l ++ handed l' := List.flatMap_append

/-- Handing over in vectors or one by one, the packets are the same. -/
theorem handed_expand {Pkt Ev Queue : Type} (log : List (Act Pkt Ev Queue)) :
    handed (log.flatMap Act.expand) = handed log := by
  induction log with
  | nil => rfl
  | cons a log ih =>
      rw [List.flatMap_cons, handed_append, ih]
      simp only [handed, List.flatMap_cons, Act.expand_handed]

/-! ## One burst -/

/-- The result of `odp_pktin_recv(…, pkt_tbl, size)`: a negative number (`-1 - code`), or a burst
    of at most `size` packets, the length of the caller's `pkt_tbl`. -/
inductive Recv (Pkt : Type) (size : Nat) where
  | fail (code : Nat)
  | burst (pkts : List Pkt) (fits : pkts.length ≤ size)
  deriving DecidableEq, Repr

/-- The packets `pkt_tbl[0 .. pkt_cnt - 1]`: the loops over them do nothing on a negative count. -/
def Recv.pkts {Pkt : Type} {size : Nat} : Recv Pkt size → List Pkt
  | .fail _ => []
  | .burst pkts _ => pkts

/-- A loop over the queues and, inside, over each burst is one loop over all packets received. -/
theorem foldl_recv {Pkt δ : Type} {size : Nat} (f : δ → Pkt → δ) (recv : List (Recv Pkt size))
    (d : δ) :
    recv.foldl (fun d r => r.pkts.foldl f d) d = (recv.flatMap Recv.pkts).foldl f d := by
  induction recv generalizing d with
  | nil => rfl
  | cons r recv ih => rw [List.foldl_cons, ih, List.flatMap_cons, List.foldl_append]

/-- The vector being filled and the effects so far. -/
structure Disp (Pkt Ev Queue : Type) where
  vec : PktVector Pkt
  log : List (Act Pkt Ev Queue)

section Gather

variable {Pkt Ev Queue : Type} (api : PktVectorApi Pkt)

/-- One packet of a burst: add it to the vector, free it if that fails, hand the vector over and
    empty it once it is full. -/
def gather (d : Disp Pkt Ev Queue) (pkt : Pkt) : Disp Pkt Ev Queue :=
  if (api.add d.vec pkt).2 ≠ 1 then
    { vec := (api.add d.vec pkt).1, log := d.log ++ [.packetFree pkt] }
  else if (api.add d.vec pkt).1.isFull then
    { vec := api.init (api.inputMulti (api.add d.vec pkt).1),
      log := d.log ++ [.inputMulti (api.add d.vec pkt).1.pkt] }
  else { vec := (api.add d.vec pkt).1, log := d.log }

/-- `if (NFP_PKT_VECTOR_HAS_DATA(&vec))` after the queues: hand the rest over and empty it. -/
def flushVec (d : Disp Pkt Ev Queue) : Disp Pkt Ev Queue :=
  if d.vec.hasData then
    { vec := api.init (api.inputMulti d.vec), log := d.log ++ [.inputMulti d.vec.pkt] }
  else d

/-- The vector and the effects, as a buffer of `Lib.Batch`. -/
def Disp.toBatch (d : Disp Pkt Ev Queue) : Batch Pkt (Act Pkt Ev Queue) := ⟨d.vec.pkt, d.log⟩

variable {api}

/-- **The loop body is a push**: with room in the vector the packet is not freed. -/
theorem gather_toBatch (hapi : api.Documented) {d : Disp Pkt Ev Queue}
    (hroom : d.toBatch.Small nfpPktVectorSize) (pkt : Pkt) :
    (gather api d pkt).toBatch = d.toBatch.push nfpPktVectorSize .inputMulti pkt := by
  obtain ⟨hpkt, hone⟩ := hapi.add_room d.vec pkt hroom
  unfold gather
  rw [if_neg (by rw [hone]; exact fun h => h rfl)]
  have hfull : ((api.add d.vec pkt).1.isFull = true) ↔
      (d.vec.pkt ++ [pkt]).length = nfpPktVectorSize := by
    simp only [PktVector.isFull, PktVector.num, beq_iff_eq, hpkt]
  unfold Batch.push
  by_cases h : (d.vec.pkt ++ [pkt]).length = nfpPktVectorSize
  · rw [if_pos (hfull.mpr h)]
    have h' : (d.toBatch.held ++ [pkt]).length = nfpPktVectorSize := h
    rw [if_pos h']
    simp only [Disp.toBatch, hapi.init_empty, hpkt]
  · rw [if_neg (fun e => h (hfull.mp e))]
    have h' : ¬ (d.toBatch.held ++ [pkt]).length = nfpPktVectorSize := h
    rw [if_neg h']
    simp only [Disp.toBatch, hpkt]

/-- The loop over a burst is a sequence of pushes. -/
theorem gatherAll_toBatch (hapi : api.Documented) (pkts : List Pkt) {d : Disp Pkt Ev Queue}
    (hroom : d.toBatch.Small nfpPktVectorSize) :
    (pkts.foldl (gather api) d).toBatch =
      pkts.foldl (Batch.push nfpPktVectorSize .inputMulti) d.toBatch := by
  induction pkts generalizing d with
  | nil => rfl
  | cons pkt pkts ih =>
      have h1 := gather_toBatch hapi hroom pkt
      rw [List.foldl_cons, List.foldl_cons, ← h1]
      exact ih (by rw [h1]; exact Batch.push_small hroom pkt)

theorem flushVec_toBatch (hapi : api.Documented) (d : Disp Pkt Ev Queue) :
    (flushVec api d).toBatch = d.toBatch.flush .inputMulti := by
  unfold flushVec Batch.flush
  have hdata : d.vec.hasData = true ↔ d.toBatch.held ≠ [] := by
    simp only [PktVector.hasData, PktVector.num, Disp.toBatch, bne_iff_ne, ne_eq,
      List.length_eq_zero_iff]
  by_cases h : d.toBatch.held = []
  · rw [if_pos h, if_neg (fun e => hdata.mp e h)]
  · rw [if_neg h, if_pos (hdata.mpr h)]
    simp only [Disp.toBatch, hapi.init_empty]

end Gather

end Nfp.Dispatch
