/-
  File:      Nfp/Dispatch/FpmDirect.lean
  Subject:   The two workers of example/fpm_direct/app_main.c: `pkt_io_recv_single` hands every
             packet to the stack by itself, `pkt_io_recv` in vectors.

  A pass of the worker loop reads the scheduler once (`odp_schedule_multi`, only when
  `process_timers`) and every input queue once (`odp_pktin_recv`); `Pass` holds what they
  answered. The number of queues and the number of passes are whatever the lists are long.

  * `recvPass_expand`, `recvPass_tidy` -- one pass: read packet by packet the effects of both
    workers are the same, the vector is empty again, nothing was freed and every vector handed
    over holds between one packet and `NFP_PKT_VECTOR_SIZE`;
  * `pktIoRecv_agrees` -- the same for every run.
-/
import Nfp.Dispatch.PktVector

namespace Nfp.FpmDirect

open Nfp.Lib Nfp.Dispatch

/-- `PKT_BURST_SIZE`, the length of `pkt_tbl`. -/
def pktBurstSize : Nat := nfpPktVectorSize

/-- An event of the scheduler, by `odp_event_type`. -/
inductive Event (Pkt Ev : Type) where
  | invalid
  | timeout (ev : Ev)
  | packet (pkt : Pkt)
  | other (ev : Ev)
  deriving DecidableEq, Repr

/-- **What the environment answers in one pass** of the worker loop: the queue and the events of
    `odp_schedule_multi` (none for a count of zero or below), and `odp_pktin_recv` on each
    input queue in turn. -/
structure Pass (Pkt Ev Queue : Type) where
  inQueue : Queue
  events : List (Event Pkt Ev)
  recv : List (Recv Pkt pktBurstSize)

section Workers

variable {Pkt Ev Queue : Type}

/-- One scheduled event: a timeout is handled, a looped-back packet handed to the stack, anything
    else freed; `ODP_EVENT_INVALID` is skipped. -/
def dispatchEvent (inQueue : Queue) : Event Pkt Ev → List (Act Pkt Ev Queue)
  | .invalid => []
  | .timeout ev => [.timerHandle ev]
  | .packet pkt => [.input pkt (some inQueue)]
  | .other ev => [.eventFree ev]

/-- The scheduler part of a pass, the same in both workers. -/
def schedule (processTimers : Bool) (p : Pass Pkt Ev Queue) (log : List (Act Pkt Ev Queue)) :
    List (Act Pkt Ev Queue) :=
  if processTimers then p.events.foldl (fun log ev => log ++ dispatchEvent p.inQueue ev) log
  else log

/-- One pass of `pkt_io_recv_single`. -/
def recvSinglePass (processTimers : Bool) (log : List (Act Pkt Ev Queue))
    (p : Pass Pkt Ev Queue) : List (Act Pkt Ev Queue) :=
  p.recv.foldl (fun log r => r.pkts.foldl (fun log pkt => log ++ [.input pkt none]) log)
    (schedule processTimers p log) ++ [.sendPending]

/-- **`pkt_io_recv_single`**: its return value and its effects. `none` is
    `nfp_get_processing_state` returning NULL, `some passes` the passes during which the
    processing state stays set. -/
def pktIoRecvSingle (processTimers : Bool) (state : Option (List (Pass Pkt Ev Queue))) :
    Int × List (Act Pkt Ev Queue) :=
  match state with
  | none => (-1, [])
  | some passes => (0, passes.foldl (recvSinglePass processTimers) [])

/-- One pass of `pkt_io_recv`. -/
def recvPass (api : PktVectorApi Pkt) (processTimers : Bool) (d : Disp Pkt Ev Queue)
    (p : Pass Pkt Ev Queue) : Disp Pkt Ev Queue :=
  let d := { d with log := schedule processTimers p d.log }
  let d := p.recv.foldl (fun d r => r.pkts.foldl (gather api) d) d
  let d := flushVec api d
  { d with log := d.log ++ [.sendPending] }

/-- **`pkt_io_recv`**: its return value, the vector it leaves and its effects; `vec₀` is the
    vector on the stack before `nfp_pkt_vector_init`. -/
def pktIoRecv (api : PktVectorApi Pkt) (processTimers : Bool) (vec₀ : PktVector Pkt)
    (state : Option (List (Pass Pkt Ev Queue))) : Int × Disp Pkt Ev Queue :=
  match state with
  | none => (-1, ⟨vec₀, []⟩)
  | some passes => (0, passes.foldl (recvPass api processTimers) ⟨api.init vec₀, []⟩)

/-! ## The pieces of a pass -/

theorem schedule_eq (processTimers : Bool) (p : Pass Pkt Ev Queue)
    (log : List (Act Pkt Ev Queue)) :
    schedule processTimers p log = log ++ schedule processTimers p [] := by
  unfold schedule
  cases processTimers with
  | false => simp
  | true =>
      simp only [if_true]
      generalize p.events = evs
      induction evs generalizing log with
      | nil => simp
      | cons ev evs ih =>
          rw [List.foldl_cons, List.foldl_cons, ih, ih ([] ++ _), List.nil_append,
            List.append_assoc]

/-- The scheduler part hands nothing over in vectors and frees no packet. -/
theorem mem_schedule {processTimers : Bool} {p : Pass Pkt Ev Queue} {a : Act Pkt Ev Queue}
    (h : a ∈ schedule processTimers p []) : ∃ ev, a ∈ dispatchEvent p.inQueue ev := by
  unfold schedule at h
  cases processTimers with
  | false => simp at h
  | true =>
      simp only [if_true] at h
      have hflat : ∀ (evs : List (Event Pkt Ev)) (log : List (Act Pkt Ev Queue)),
          a ∈ evs.foldl (fun log ev => log ++ dispatchEvent p.inQueue ev) log →
            a ∈ log ∨ ∃ ev, a ∈ dispatchEvent p.inQueue ev := by
        intro evs
        induction evs with
        | nil => exact fun log hl => Or.inl hl
        | cons ev evs ih =>
            intro log hl
            rcases ih _ hl with hm | hm
            · rcases List.mem_append.mp hm with hm | hm
              · exact Or.inl hm
              · exact Or.inr ⟨ev, hm⟩
            · exact Or.inr hm
      rcases hflat _ _ h with hm | hm
      · exact absurd hm List.not_mem_nil
      · exact hm

theorem expand_dispatchEvent {inQueue : Queue} {ev : Event Pkt Ev} {a : Act Pkt Ev Queue}
    (h : a ∈ dispatchEvent inQueue ev) : a.expand = [a] := by
  cases ev with
  | invalid => exact absurd h List.not_mem_nil
  | timeout e => rw [List.mem_singleton.mp h]; rfl
  | packet p => rw [List.mem_singleton.mp h]; rfl
  | other e => rw [List.mem_singleton.mp h]; rfl

/-- A list of effects without vectors is its own expansion. -/
theorem flatMap_expand_self {log : List (Act Pkt Ev Queue)} (h : ∀ a ∈ log, a.expand = [a]) :
    log.flatMap Act.expand = log := by
  induction log with
  | nil => rfl
  | cons a log ih =>
      rw [List.flatMap_cons, h a List.mem_cons_self, ih fun b hb => h b (List.mem_cons_of_mem _ hb)]
      rfl

theorem schedule_expand (processTimers : Bool) (p : Pass Pkt Ev Queue) :
    (schedule processTimers p []).flatMap Act.expand = schedule processTimers p [] :=
  flatMap_expand_self fun _ ha => by
    obtain ⟨ev, hev⟩ := mem_schedule ha
    exact expand_dispatchEvent hev

/-- The queues of a pass of `pkt_io_recv_single`. -/
theorem foldl_input (pkts : List Pkt) (log : List (Act Pkt Ev Queue)) :
    pkts.foldl (fun log pkt => log ++ [.input pkt none]) log =
      log ++ pkts.map fun pkt => .input pkt none := by
  induction pkts generalizing log with
  | nil => simp
  | cons p ps ih => rw [List.foldl_cons, ih]; simp

/-! ## One pass -/

section Pass

variable {api : PktVectorApi Pkt} (hapi : api.Documented) (processTimers : Bool)

include hapi

/-- The buffer after the queues and the flush of a pass that starts with an empty vector. -/
theorem recvPass_toBatch {d : Disp Pkt Ev Queue} (hd : d.vec.pkt = []) (p : Pass Pkt Ev Queue) :
    (recvPass api processTimers d p).vec.pkt = [] ∧
    (recvPass api processTimers d p).log =
      (((p.recv.flatMap Recv.pkts).foldl (Batch.push nfpPktVectorSize .inputMulti)
        ⟨[], schedule processTimers p d.log⟩).flush .inputMulti).out ++ [.sendPending] := by
  have hsmall : (⟨d.vec, schedule processTimers p d.log⟩ : Disp Pkt Ev Queue).toBatch.Small
      nfpPktVectorSize := by
    show d.vec.pkt.length < nfpPktVectorSize
    rw [hd, List.length_nil]
    decide
  have hflush := flushVec_toBatch hapi
    ((p.recv.flatMap Recv.pkts).foldl (gather api) ⟨d.vec, schedule processTimers p d.log⟩)
  rw [gatherAll_toBatch hapi _ hsmall] at hflush
  have h0 : (⟨d.vec, schedule processTimers p d.log⟩ : Disp Pkt Ev Queue).toBatch =
      ⟨[], schedule processTimers p d.log⟩ := by simp only [Disp.toBatch, hd]
  rw [h0] at hflush
  simp only [recvPass, foldl_recv]
  constructor
  · have hh := congrArg Batch.held hflush
    rw [Batch.flush_held] at hh
    exact hh
  · exact congrArg (fun b => b.out ++ [Act.sendPending]) hflush

/-- **One pass, packet by packet**: `pkt_io_recv` adds to the effects what `pkt_io_recv_single`
    adds. -/
theorem recvPass_expand {d : Disp Pkt Ev Queue} (hd : d.vec.pkt = []) (p : Pass Pkt Ev Queue) :
    (recvPass api processTimers d p).log.flatMap Act.expand =
      recvSinglePass processTimers (d.log.flatMap Act.expand) p := by
  rw [(recvPass_toBatch hapi processTimers hd p).2]
  -- after the flush nothing is held, so the output alone carries the items
  have hitems := Batch.flush_items Act.reads_expand
    ((p.recv.flatMap Recv.pkts).foldl (Batch.push nfpPktVectorSize Act.inputMulti)
      ⟨[], schedule processTimers p d.log⟩)
  rw [Batch.pushAll_items Act.reads_expand] at hitems
  simp only [Batch.items, Batch.flush_held, List.map_nil, List.append_nil] at hitems
  rw [List.flatMap_append, hitems]
  unfold recvSinglePass
  rw [foldl_recv, foldl_input, schedule_eq processTimers p d.log, List.flatMap_append,
    schedule_expand, ← schedule_eq]
  rfl

omit hapi in
theorem schedule_tidy {log : List (Act Pkt Ev Queue)} (hlog : ∀ a ∈ log, a.Tidy)
    (p : Pass Pkt Ev Queue) : ∀ a ∈ schedule processTimers p log, a.Tidy := by
  intro a ha
  rw [schedule_eq] at ha
  rcases List.mem_append.mp ha with ha | ha
  · exact hlog a ha
  · obtain ⟨ev, hev⟩ := mem_schedule ha
    cases ev with
    | invalid => exact absurd hev List.not_mem_nil
    | timeout e => rw [List.mem_singleton.mp hev]; trivial
    | packet q => rw [List.mem_singleton.mp hev]; trivial
    | other e => rw [List.mem_singleton.mp hev]; trivial

/-- **One pass stays tidy.** -/
theorem recvPass_tidy {d : Disp Pkt Ev Queue} (hd : d.vec.pkt = []) (hlog : ∀ a ∈ d.log, a.Tidy)
    (p : Pass Pkt Ev Queue) : ∀ a ∈ (recvPass api processTimers d p).log, a.Tidy := by
  have h0 : (⟨[], schedule processTimers p d.log⟩ : Batch Pkt (Act Pkt Ev Queue)).Small
      nfpPktVectorSize := by
    show 0 < nfpPktVectorSize
    decide
  have hpush := Batch.pushAll_out Act.inputMulti_tidy (p.recv.flatMap Recv.pkts)
    (b := ⟨[], schedule processTimers p d.log⟩) (schedule_tidy processTimers hlog p)
  have hflush := Batch.flush_out Act.inputMulti_tidy
    (Batch.pushAll_small (p.recv.flatMap Recv.pkts) h0) hpush
  intro a ha
  rw [(recvPass_toBatch hapi processTimers hd p).2] at ha
  rcases List.mem_append.mp ha with ha | ha
  · exact hflush a ha
  · rw [List.mem_singleton.mp ha]
    trivial

/-! ## Every run -/

/-- The run invariant: nothing is carried over in the vector, packet by packet the effects are
    those of the single-packet worker, and they are tidy. -/
theorem recvPasses_run (passes : List (Pass Pkt Ev Queue)) {d : Disp Pkt Ev Queue}
    {log : List (Act Pkt Ev Queue)} (hd : d.vec.pkt = []) (hlog : d.log.flatMap Act.expand = log)
    (htidy : ∀ a ∈ d.log, a.Tidy) :
    (passes.foldl (recvPass api processTimers) d).vec.pkt = [] ∧
    (passes.foldl (recvPass api processTimers) d).log.flatMap Act.expand =
      passes.foldl (recvSinglePass processTimers) log ∧
    ∀ a ∈ (passes.foldl (recvPass api processTimers) d).log, a.Tidy := by
  induction passes generalizing d log with
  | nil => exact ⟨hd, hlog, htidy⟩
  | cons p passes ih =>
      have h1 := (recvPass_toBatch hapi processTimers hd p).1
      have h2 := recvPass_expand hapi processTimers hd p
      have h3 := recvPass_tidy hapi processTimers hd htidy p
      rw [hlog] at h2
      exact ih h1 h2 h3

end Pass

end Workers

/-- **The batched and the single-packet worker agree on every run**: same packets to the stack in
    the same order, no packet freed, no vector empty or longer than `NFP_PKT_VECTOR_SIZE`, and
    nothing left in the vector between passes. -/
theorem pktIoRecv_agrees {Pkt Ev Queue : Type} (api : PktVectorApi Pkt) (hapi : api.Documented)
    (processTimers : Bool) (vec₀ : PktVector Pkt) (passes : List (Pass Pkt Ev Queue)) :
    handed (pktIoRecv api processTimers vec₀ (some passes)).2.log =
      handed (pktIoRecvSingle processTimers (some passes)).2 ∧
    (∀ pkt, Act.packetFree pkt ∉ (pktIoRecv api processTimers vec₀ (some passes)).2.log) ∧
    (∀ pkts, Act.inputMulti pkts ∈ (pktIoRecv api processTimers vec₀ (some passes)).2.log →
      pkts ≠ [] ∧ pkts.length ≤ nfpPktVectorSize) ∧
    (pktIoRecv api processTimers vec₀ (some passes)).2.vec.pkt = [] := by
  have hstart : (⟨api.init vec₀, []⟩ : Disp Pkt Ev Queue).log.flatMap Act.expand = [] := rfl
  obtain ⟨hvec, hlog, htidy⟩ := recvPasses_run hapi processTimers passes
    (hapi.init_empty vec₀) hstart (fun _ ha => absurd ha List.not_mem_nil)
  refine ⟨?_, fun pkt hm => htidy _ hm, fun pkts hm => htidy _ hm, hvec⟩
  show handed (passes.foldl (recvPass api processTimers) ⟨api.init vec₀, []⟩).log =
    handed (passes.foldl (recvSinglePass processTimers) [])
  rw [← handed_expand, hlog]

/-- Two queues whose bursts cross the vector's boundary, with a failing queue between them and a
    looped-back packet before them. -/
def crossingPass : Pass Nat Unit Unit where
  inQueue := ()
  events := [.timeout (), .packet 100, .invalid]
  recv := [.burst (List.range 20) (by decide), .fail 0, .burst (List.range 30) (by decide)]

theorem pktIoRecv_agrees_crossing :
    (PktVectorApi.reference Nat).Documented ∧
    handed (pktIoRecv (.reference Nat) true .empty (some [crossingPass, crossingPass])).2.log =
      handed (pktIoRecvSingle true (some [crossingPass, crossingPass])).2 ∧
    (pktIoRecv (.reference Nat) true .empty (some [crossingPass, crossingPass])).2.vec.pkt =
      [] := by
  have hapi := PktVectorApi.reference_documented Nat
  have h := pktIoRecv_agrees (.reference Nat) hapi true .empty [crossingPass, crossingPass]
  exact ⟨hapi, h.1, h.2.2.2⟩

end Nfp.FpmDirect
