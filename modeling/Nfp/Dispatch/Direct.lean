/-
  File:      Nfp/Dispatch/Direct.lean
  Subject:   THE WORKERS OF THE DIRECT-MODE EXAMPLES, ALL TOGETHER: `pkt_io_recv` and
             `pkt_io_recv_single` of example/fpm_direct, example/udp_fwd_socket and
             example/udp_term_socket, `pkt_io_direct_mode_recv` and `pkt_io_direct_mode_recv_single`
             of example/webserver2 -- the same loop in all four, over the queues that
             `Dispatch.Queues` deals out. (fpm_power deals in the same way, but its workers sleep
             and run another loop, the one in `Power.Worker`.) What an input queue gives in a burst
             is left to the interface, a `Channel`.

  * `Sys`, `next` -- the workers, the interfaces and the stop, one `odp_pktin_recv` a step;
  * `Move` -- what a step of a worker can do; `Move.items` -- what it does to the packets the
    worker has: nothing, or it adds a burst from a queue the worker polls. With `Lib.Fanin` this
    is the whole argument;
  * `Move.traced`, `Worker.Traced.ended` -- a worker that has ended is a call of `pkt_io_recv` or
    `pkt_io_recv_single` as `Dispatch.FpmDirect` has them;
  * `direct_in_order` -- in any interleaving each packet is in its queue, in the vector of the one
    worker that polls it, or handed to the stack once, and where the interface keeps the order of
    a queue its packets are handed over in the order they arrived.
-/
import Nfp.Dispatch.FpmDirect
import Nfp.Dispatch.Queues
import Nfp.Lib.Channel
import Nfp.Lib.Fanin
import Nfp.Lib.Run

namespace Nfp.Direct

open Nfp.Lib Nfp.Dispatch Nfp.FpmDirect
open Nfp.Common (nfpFpInterfaceMax)

/-! ## The workers -/

/-- Where a worker stands: before `nfp_get_processing_state`, at the loop test, before the
    scheduler, before queue `i`, after the queues, at the end with a return value. -/
inductive Pc where
  | start
  | test
  | sched
  | queue (i : Nat)
  | rest
  | ended (ret : Int)
  deriving DecidableEq, Repr

/-- A worker: its place, its vector and its effects so far. -/
structure Worker (Pkt Ev Queue : Type) where
  pc : Pc
  disp : Disp Pkt Ev Queue

/-- What a worker is told in a step: whether there is a processing state, the events of the
    scheduler, what `odp_pktin_recv` makes of its choice or that it fails; `go` where it asks
    nothing. -/
inductive Answer (Pkt Ev Queue κ : Type) where
  | state (found : Bool)
  | go
  | events (inQueue : Queue) (evs : List (Event Pkt Ev))
  | burst (choice : κ)
  | fail (code : Nat)

/-- What all workers of a run share: the vector functions, how an input queue answers
    `odp_pktin_recv`, whether the single-packet functions were chosen on the command line, what the
    stack held in place of the vector, the arguments. -/
structure Setup (Pkt Pktin κ : Type) where
  api : PktVectorApi Pkt
  pktin : Channel Pkt κ
  single : Bool
  vec₀ : PktVector Pkt
  args : List (WorkerArg Pktin)

section Workers

variable {Pkt Ev Queue Pktin κ : Type}

/-- The variables of a worker before its loop: `nfp_pkt_vector_init(&vec)`, and no vector at all in
    the single-packet functions. -/
def Setup.begin (cfg : Setup Pkt Pktin κ) : Disp Pkt Ev Queue :=
  if cfg.single then ⟨.empty, []⟩ else ⟨cfg.api.init cfg.vec₀, []⟩

/-- The packets of one burst. -/
def Setup.take (cfg : Setup Pkt Pktin κ) (d : Disp Pkt Ev Queue) (pkts : List Pkt) :
    Disp Pkt Ev Queue :=
  if cfg.single then
    { d with log := pkts.foldl (fun log pkt => log ++ [.input pkt none]) d.log }
  else pkts.foldl (gather cfg.api) d

/-- The end of a pass: what is left in the vector, then `nfp_send_pending_pkt`. -/
def Setup.finish (cfg : Setup Pkt Pktin κ) (d : Disp Pkt Ev Queue) : Disp Pkt Ev Queue :=
  let d := if cfg.single then d else flushVec cfg.api d
  { d with log := d.log ++ [.sendPending] }

/-- `odp_pktin_recv` on a queue, for as many packets as `pkt_tbl` holds: those it returns, and
    those that go on waiting. -/
def Setup.pktinRecv (cfg : Setup Pkt Pktin κ) (choice : κ) (waiting : List Pkt) :
    List Pkt × List Pkt :=
  cfg.pktin.recv choice pktBurstSize waiting

/-- **One step of a worker**: its new state, and the queue it took packets from with those that
    wait there now. `none` where the answer does not fit the place. -/
def workerStep (cfg : Setup Pkt Pktin κ) (arg : WorkerArg Pktin) (running : Bool)
    (waiting : Pktin → List Pkt) (w : Worker Pkt Ev Queue) :
    Answer Pkt Ev Queue κ → Option (Worker Pkt Ev Queue × Option (Pktin × List Pkt))
  | .state found =>
      if w.pc = .start then
        if found then some (⟨.test, cfg.begin⟩, none) else some (⟨.ended (-1), w.disp⟩, none)
      else none
  | .go =>
      match w.pc with
      | .test => some (⟨if running then .sched else .ended 0, w.disp⟩, none)
      | .sched => if arg.processTimers then none else some (⟨.queue 0, w.disp⟩, none)
      | .queue i => if arg.polled.length ≤ i then some (⟨.rest, w.disp⟩, none) else none
      | .rest => some (⟨.test, cfg.finish w.disp⟩, none)
      | _ => none
  | .events inQueue evs =>
      if w.pc = .sched ∧ arg.processTimers then
        some (⟨.queue 0, { w.disp with log := schedule true ⟨inQueue, evs, []⟩ w.disp.log }⟩, none)
      else none
  | .burst choice =>
      match w.pc with
      | .queue i =>
          match arg.polled[i]? with
          | none => none
          | some q =>
              some (⟨.queue (i + 1), cfg.take w.disp (cfg.pktinRecv choice (waiting q)).1⟩,
                some (q, (cfg.pktinRecv choice (waiting q)).2))
      | _ => none
  | .fail _ =>
      match w.pc with
      | .queue i =>
          if i < arg.polled.length then some (⟨.queue (i + 1), w.disp⟩, none) else none
      | _ => none

/-- The packets an effect hands over that came from an input queue: the looped-back ones come with
    the queue of the scheduler. -/
def polledPkts : Act Pkt Ev Queue → List Pkt
  | .input pkt none => [pkt]
  | .inputMulti pkts => pkts
  | _ => []

/-- The packets from input queues a worker handed over, then those in its vector. -/
def Worker.items (w : Worker Pkt Ev Queue) : List Pkt := w.disp.toBatch.items id polledPkts

theorem reads_polledPkts :
    Reads (γ := Pkt) (Act.inputMulti : List Pkt → Act Pkt Ev Queue) id polledPkts :=
  fun v => (List.map_id v).symm

/-- Between two passes the vector is empty. -/
def Pc.between : Pc → Bool
  | .queue _ => false
  | .rest => false
  | _ => true

/-- **What holds of a worker between two steps**: its vector has room, and is empty between two
    passes (always, in the single-packet functions); it freed no packet, and handed over no empty
    and no overlong vector. -/
structure Worker.Sane (cfg : Setup Pkt Pktin κ) (w : Worker Pkt Ev Queue) : Prop where
  room : w.disp.toBatch.Small nfpPktVectorSize
  empty : w.pc.between = true ∨ cfg.single = true → w.disp.vec.pkt = []
  tidy : ∀ a ∈ w.disp.log, a.Tidy
  fresh : w.pc = .start → w.disp = ⟨.empty, []⟩

/-- A worker that was not started yet. -/
def Worker.idle : Worker Pkt Ev Queue := ⟨.start, ⟨.empty, []⟩⟩

theorem Worker.idle_sane (cfg : Setup Pkt Pktin κ) : (idle : Worker Pkt Ev Queue).Sane cfg where
  room := by
    show 0 < nfpPktVectorSize
    decide
  empty _ := rfl
  tidy _ ha := absurd ha List.not_mem_nil
  fresh _ := rfl

/-! ### The pieces of a step -/

section Pieces

variable {cfg : Setup Pkt Pktin κ} {d : Disp Pkt Ev Queue}

/-- The items of a buffer, after effects that hand over nothing from an input queue. -/
theorem items_silent {as : List (Act Pkt Ev Queue)} (h : ∀ a ∈ as, polledPkts a = []) :
    (Batch.mk d.vec.pkt (d.log ++ as)).items id polledPkts = d.toBatch.items id polledPkts := by
  have hnil : as.flatMap polledPkts = [] := List.flatMap_eq_nil_iff.mpr h
  simp only [Batch.items, List.flatMap_append, hnil, List.append_nil, Disp.toBatch]

theorem polledPkts_schedule {p : Pass Pkt Ev Queue} {a : Act Pkt Ev Queue}
    (h : a ∈ schedule true p []) : polledPkts a = [] := by
  obtain ⟨ev, hev⟩ := mem_schedule h
  cases ev with
  | invalid => exact absurd hev List.not_mem_nil
  | timeout e => rw [List.mem_singleton.mp hev]; rfl
  | packet q => rw [List.mem_singleton.mp hev]; rfl
  | other e => rw [List.mem_singleton.mp hev]; rfl

theorem begin_vec (hapi : cfg.api.Documented) :
    (cfg.begin : Disp Pkt Ev Queue).vec.pkt = [] ∧ (cfg.begin : Disp Pkt Ev Queue).log = [] := by
  unfold Setup.begin
  split
  · exact ⟨rfl, rfl⟩
  · exact ⟨hapi.init_empty _, rfl⟩

theorem take_toBatch (hapi : cfg.api.Documented) (hroom : d.toBatch.Small nfpPktVectorSize)
    (hm : cfg.single = false) (pkts : List Pkt) :
    (cfg.take d pkts).toBatch =
      pkts.foldl (Batch.push nfpPktVectorSize .inputMulti) d.toBatch := by
  simp only [Setup.take, hm, Bool.false_eq_true, if_false]
  exact gatherAll_toBatch hapi pkts hroom

theorem take_single (hs : cfg.single = true) (pkts : List Pkt) :
    cfg.take d pkts = { d with log := d.log ++ pkts.map fun pkt => .input pkt none } := by
  simp only [Setup.take, hs, if_true, foldl_input]

/-- **A burst adds its packets**, in order, to what the worker has. -/
theorem take_items (hapi : cfg.api.Documented) (hroom : d.toBatch.Small nfpPktVectorSize)
    (hsingle : cfg.single = true → d.vec.pkt = []) (pkts : List Pkt) :
    (cfg.take d pkts).toBatch.items id polledPkts = d.toBatch.items id polledPkts ++ pkts := by
  cases hm : cfg.single with
  | false =>
      rw [take_toBatch hapi hroom hm, Batch.pushAll_items reads_polledPkts, List.map_id]
  | true =>
      rw [take_single hm]
      have hread : (pkts.map fun pkt => (.input pkt none : Act Pkt Ev Queue)).flatMap polledPkts =
          pkts := by
        rw [List.flatMap_map]
        exact List.flatMap_singleton' pkts
      simp only [Disp.toBatch, Batch.items, hsingle hm, List.map_nil, List.append_nil,
        List.flatMap_append, hread]

theorem take_room (hapi : cfg.api.Documented) (hroom : d.toBatch.Small nfpPktVectorSize)
    (pkts : List Pkt) : (cfg.take d pkts).toBatch.Small nfpPktVectorSize := by
  cases hm : cfg.single with
  | false =>
      rw [take_toBatch hapi hroom hm]
      exact Batch.pushAll_small pkts hroom
  | true =>
      rw [take_single hm]
      exact hroom

theorem take_tidy (hapi : cfg.api.Documented) (hroom : d.toBatch.Small nfpPktVectorSize)
    (htidy : ∀ a ∈ d.log, a.Tidy) (pkts : List Pkt) : ∀ a ∈ (cfg.take d pkts).log, a.Tidy := by
  cases hm : cfg.single with
  | false =>
      have hout := Batch.pushAll_out Act.inputMulti_tidy pkts (b := d.toBatch) htidy
      rw [← take_toBatch hapi hroom hm] at hout
      exact hout
  | true =>
      rw [take_single hm]
      intro a ha
      rcases List.mem_append.mp ha with ha | ha
      · exact htidy a ha
      · obtain ⟨pkt, -, rfl⟩ := List.mem_map.mp ha
        trivial

/-- **The end of a pass** hands over what is in the vector and empties it. -/
theorem finish_spec (hapi : cfg.api.Documented) (hroom : d.toBatch.Small nfpPktVectorSize)
    (hsingle : cfg.single = true → d.vec.pkt = []) (htidy : ∀ a ∈ d.log, a.Tidy) :
    (cfg.finish d).vec.pkt = [] ∧
    (cfg.finish d).toBatch.items id polledPkts = d.toBatch.items id polledPkts ∧
    ∀ a ∈ (cfg.finish d).log, a.Tidy := by
  -- in both modes: a buffer that holds nothing and denotes the same, then `nfp_send_pending_pkt`
  obtain ⟨e, hfin, hvec, hitems, hlog⟩ : ∃ e : Disp Pkt Ev Queue,
      cfg.finish d = { e with log := e.log ++ [.sendPending] } ∧ e.vec.pkt = [] ∧
      e.toBatch.items id polledPkts = d.toBatch.items id polledPkts ∧ ∀ a ∈ e.log, a.Tidy := by
    cases hm : cfg.single with
    | true => exact ⟨d, by simp only [Setup.finish, hm, if_true], hsingle hm, rfl, htidy⟩
    | false =>
        have hflush := flushVec_toBatch hapi d
        refine ⟨flushVec cfg.api d, by simp [Setup.finish, hm], ?_, ?_, ?_⟩
        · have hheld := congrArg Batch.held hflush
          rw [Batch.flush_held] at hheld
          exact hheld
        · rw [hflush, Batch.flush_items reads_polledPkts]
        · have hout := Batch.flush_out Act.inputMulti_tidy hroom htidy
          rw [← hflush] at hout
          exact hout
  rw [hfin]
  refine ⟨hvec, ?_, fun a ha => ?_⟩
  · rw [← hitems]
    exact items_silent fun a ha => by rw [List.mem_singleton.mp ha]; rfl
  · rcases List.mem_append.mp ha with ha | ha
    · exact hlog a ha
    · rw [List.mem_singleton.mp ha]
      trivial

end Pieces

/-! ### What a step of a worker can do -/

/-- **The moves of a worker**, with the queue it takes packets from and those that stay there. -/
inductive Move (cfg : Setup Pkt Pktin κ) (arg : WorkerArg Pktin) (waiting : Pktin → List Pkt) :
    Worker Pkt Ev Queue → Worker Pkt Ev Queue → Option (Pktin × List Pkt) → Prop where
  | noState (d) : Move cfg arg waiting ⟨.start, d⟩ ⟨.ended (-1), d⟩ none
  | setUp (d) : Move cfg arg waiting ⟨.start, d⟩ ⟨.test, cfg.begin⟩ none
  | enter (d) : Move cfg arg waiting ⟨.test, d⟩ ⟨.sched, d⟩ none
  | leave (d) : Move cfg arg waiting ⟨.test, d⟩ ⟨.ended 0, d⟩ none
  | noTimers (d) (h : arg.processTimers = false) :
      Move cfg arg waiting ⟨.sched, d⟩ ⟨.queue 0, d⟩ none
  | events (d) (inQueue : Queue) (evs : List (Event Pkt Ev)) (h : arg.processTimers = true) :
      Move cfg arg waiting ⟨.sched, d⟩
        ⟨.queue 0, { d with log := schedule true ⟨inQueue, evs, []⟩ d.log }⟩ none
  | burst (d) (i : Nat) (q : Pktin) (choice : κ) (hq : arg.polled[i]? = some q) :
      Move cfg arg waiting ⟨.queue i, d⟩
        ⟨.queue (i + 1), cfg.take d (cfg.pktinRecv choice (waiting q)).1⟩
        (some (q, (cfg.pktinRecv choice (waiting q)).2))
  | failed (d) (i code : Nat) (hi : i < arg.polled.length) :
      Move cfg arg waiting ⟨.queue i, d⟩ ⟨.queue (i + 1), d⟩ none
  | allRead (d) (i : Nat) (hi : arg.polled.length ≤ i) :
      Move cfg arg waiting ⟨.queue i, d⟩ ⟨.rest, d⟩ none
  | passDone (d) : Move cfg arg waiting ⟨.rest, d⟩ ⟨.test, cfg.finish d⟩ none

section Step

variable {cfg : Setup Pkt Pktin κ} {arg : WorkerArg Pktin} {running : Bool}
  {waiting : Pktin → List Pkt} {w w' : Worker Pkt Ev Queue} {a : Answer Pkt Ev Queue κ}
  {took : Option (Pktin × List Pkt)}

theorem workerStep_move (h : workerStep cfg arg running waiting w a = some (w', took)) :
    Move cfg arg waiting w w' took := by
  obtain ⟨pc, d⟩ := w
  cases a with
  | state found =>
      simp only [workerStep] at h
      split at h
      · rename_i hpc
        obtain rfl : pc = .start := hpc
        split at h <;> cases h
        · exact .setUp d
        · exact .noState d
      · cases h
  | go =>
      cases pc with
      | test =>
          cases running <;> cases h
          · exact .leave d
          · exact .enter d
      | sched =>
          simp only [workerStep] at h
          split at h
          · cases h
          · rename_i ht
            cases h
            exact .noTimers d (Bool.eq_false_iff.mpr ht)
      | queue i =>
          simp only [workerStep] at h
          split at h
          · rename_i hi
            cases h
            exact .allRead d i hi
          · cases h
      | rest =>
          cases h
          exact .passDone d
      | start => cases h
      | ended ret => cases h
  | events inQueue evs =>
      simp only [workerStep] at h
      split at h
      · rename_i hpc
        obtain rfl : pc = .sched := hpc.1
        cases h
        exact .events d inQueue evs hpc.2
      · cases h
  | burst choice =>
      cases pc with
      | queue i =>
          simp only [workerStep] at h
          split at h
          · cases h
          · rename_i q hq
            cases h
            exact .burst d i q choice hq
      | _ => cases h
  | fail code =>
      cases pc with
      | queue i =>
          simp only [workerStep] at h
          split at h
          · rename_i hi
            cases h
            exact .failed d i code hi
          · cases h
      | _ => cases h

theorem small_of_empty {d : Disp Pkt Ev Queue} (h : d.vec.pkt = []) :
    d.toBatch.Small nfpPktVectorSize := by
  show d.vec.pkt.length < nfpPktVectorSize
  rw [h, List.length_nil]
  decide

/-- A worker moves on with its variables untouched. -/
theorem Worker.Sane.moveTo {pc pc' : Pc} {d : Disp Pkt Ev Queue}
    (h : Worker.Sane cfg ⟨pc, d⟩) (hb : pc'.between = true → pc.between = true)
    (hne : pc' ≠ .start) : Worker.Sane cfg ⟨pc', d⟩ where
  room := h.room
  empty he := h.empty (he.imp hb id)
  tidy := h.tidy
  fresh e := absurd e hne

theorem Move.sane (hapi : cfg.api.Documented) (h : Move cfg arg waiting w w' took)
    (hw : w.Sane cfg) : w'.Sane cfg := by
  have hsingle : cfg.single = true → w.disp.vec.pkt = [] := fun hs => hw.empty (.inr hs)
  cases h with
  | noState d => exact hw.moveTo id Pc.noConfusion
  | setUp d =>
      obtain ⟨hvec, hlog⟩ : (cfg.begin : Disp Pkt Ev Queue).vec.pkt = [] ∧ _ := begin_vec hapi
      refine ⟨small_of_empty hvec, fun _ => hvec, ?_, Pc.noConfusion⟩
      rw [hlog]
      exact fun _ ha => absurd ha List.not_mem_nil
  | enter d => exact hw.moveTo id Pc.noConfusion
  | leave d => exact hw.moveTo id Pc.noConfusion
  | noTimers d ht => exact hw.moveTo (fun hb => absurd hb Bool.false_ne_true) Pc.noConfusion
  | events d inQueue evs ht =>
      exact ⟨hw.room, fun _ => hw.empty (.inl rfl), schedule_tidy true hw.tidy _, Pc.noConfusion⟩
  | burst d i q choice hq =>
      refine ⟨take_room hapi hw.room _, fun he => ?_, take_tidy hapi hw.room hw.tidy _,
        Pc.noConfusion⟩
      have hs : cfg.single = true := he.resolve_left Bool.false_ne_true
      rw [take_single hs]
      exact hsingle hs
  | failed d i code hi => exact hw.moveTo (fun hb => absurd hb Bool.false_ne_true) Pc.noConfusion
  | allRead d i hi => exact hw.moveTo (fun hb => absurd hb Bool.false_ne_true) Pc.noConfusion
  | passDone d =>
      obtain ⟨hvec, -, htidy⟩ := finish_spec hapi hw.room hsingle hw.tidy
      exact ⟨small_of_empty hvec, fun _ => hvec, htidy, Pc.noConfusion⟩

/-- **What a move does to the packets a worker has**: nothing, or it adds a burst from a queue the
    worker polls. -/
theorem Move.items (hapi : cfg.api.Documented) (h : Move cfg arg waiting w w' took)
    (hw : w.Sane cfg) :
    (took = none ∧ w'.items = w.items) ∨
    ∃ q choice, took = some (q, (cfg.pktinRecv choice (waiting q)).2) ∧ q ∈ arg.polled ∧
      w'.items = w.items ++ (cfg.pktinRecv choice (waiting q)).1 := by
  have hsingle : cfg.single = true → w.disp.vec.pkt = [] := fun hs => hw.empty (.inr hs)
  cases h with
  | setUp d =>
      obtain ⟨hvec, hlog⟩ : (cfg.begin : Disp Pkt Ev Queue).vec.pkt = [] ∧ _ := begin_vec hapi
      obtain rfl : d = ⟨.empty, []⟩ := hw.fresh rfl
      refine .inl ⟨rfl, ?_⟩
      simp only [Worker.items, Disp.toBatch, hvec, hlog]
      rfl
  | events d inQueue evs ht =>
      refine .inl ⟨rfl, ?_⟩
      simp only [Worker.items, Disp.toBatch]
      rw [schedule_eq]
      exact items_silent fun a ha => polledPkts_schedule ha
  | burst d i q choice hq =>
      exact .inr ⟨q, choice, rfl, List.mem_of_getElem? hq, take_items hapi hw.room hsingle _⟩
  | passDone d => exact .inl ⟨rfl, (finish_spec hapi hw.room hsingle hw.tidy).2.1⟩
  | _ => exact .inl ⟨rfl, rfl⟩

end Step

/-! ### A worker is the dispatcher of its passes -/

/-- The variables of a worker in pass `p`, after the queues read so far. -/
def Setup.inPass (cfg : Setup Pkt Pktin κ) (processTimers : Bool) (d : Disp Pkt Ev Queue)
    (p : Pass Pkt Ev Queue) : Disp Pkt Ev Queue :=
  p.recv.foldl (fun d r => cfg.take d r.pkts) { d with log := schedule processTimers p d.log }

/-- One whole pass. -/
def Setup.pass (cfg : Setup Pkt Pktin κ) (processTimers : Bool) (d : Disp Pkt Ev Queue)
    (p : Pass Pkt Ev Queue) : Disp Pkt Ev Queue :=
  cfg.finish (cfg.inPass processTimers d p)

/-- The variables between two passes: some passes were made, each over all queues. -/
def Past (cfg : Setup Pkt Pktin κ) (arg : WorkerArg Pktin) (d : Disp Pkt Ev Queue) : Prop :=
  ∃ passes : List (Pass Pkt Ev Queue), (∀ p ∈ passes, p.recv.length = arg.polled.length) ∧
    d = passes.foldl (cfg.pass arg.processTimers) cfg.begin

/-- **The variables at each place** are those of the passes made so far. -/
def Worker.Traced (cfg : Setup Pkt Pktin κ) (arg : WorkerArg Pktin) (w : Worker Pkt Ev Queue) :
    Prop :=
  match w.pc with
  | .start => w.disp = ⟨.empty, []⟩
  | .test | .sched => Past cfg arg w.disp
  | .queue i => i ≤ arg.polled.length ∧ ∃ d p, Past cfg arg d ∧ p.recv.length = i ∧
      w.disp = cfg.inPass arg.processTimers d p
  | .rest => ∃ d p, Past cfg arg d ∧ p.recv.length = arg.polled.length ∧
      w.disp = cfg.inPass arg.processTimers d p
  | .ended ret => ret = -1 ∧ w.disp.log = [] ∨ ret = 0 ∧ Past cfg arg w.disp

section Traced

variable {cfg : Setup Pkt Pktin κ} {arg : WorkerArg Pktin} {waiting : Pktin → List Pkt}
  {w w' : Worker Pkt Ev Queue} {took : Option (Pktin × List Pkt)}

/-- One more queue read. -/
theorem inPass_append (t : Bool) (d : Disp Pkt Ev Queue) (p : Pass Pkt Ev Queue)
    (r : Recv Pkt pktBurstSize) :
    cfg.inPass t d { p with recv := p.recv ++ [r] } = cfg.take (cfg.inPass t d p) r.pkts :=
  List.foldl_append

theorem take_nil (d : Disp Pkt Ev Queue) : cfg.take d [] = d := by
  unfold Setup.take
  split <;> rfl

theorem Move.traced [Inhabited Queue] (h : Move cfg arg waiting w w' took)
    (hw : w.Traced cfg arg) : w'.Traced cfg arg := by
  cases h with
  | noState d => exact .inl ⟨rfl, by rw [show d = ⟨.empty, []⟩ from hw]⟩
  | setUp d => exact ⟨[], fun _ hp => absurd hp List.not_mem_nil, rfl⟩
  | enter d => exact hw
  | leave d => exact .inr ⟨rfl, hw⟩
  | noTimers d ht =>
      refine ⟨Nat.zero_le _, d, ⟨default, [], []⟩, hw, rfl, ?_⟩
      simp only [Setup.inPass, schedule, ht, Bool.false_eq_true, if_false, List.foldl_nil]
  | events d inQueue evs ht =>
      refine ⟨Nat.zero_le _, d, ⟨inQueue, evs, []⟩, hw, rfl, ?_⟩
      simp only [Setup.inPass, ht, List.foldl_nil]
  | burst d i q choice hq =>
      obtain ⟨-, d₀, p, hpast, hlen, hd⟩ := hw
      have hi := (List.getElem?_eq_some_iff.mp hq).1
      have hfits := cfg.pktin.le_max choice pktBurstSize (waiting q)
      refine ⟨hi, d₀, { p with recv := p.recv ++ [.burst _ hfits] }, hpast, ?_, ?_⟩
      · rw [List.length_append, hlen]
        rfl
      · rw [inPass_append, ← show d = cfg.inPass arg.processTimers d₀ p from hd]
        rfl
  | failed d i code hi =>
      obtain ⟨-, d₀, p, hpast, hlen, hd⟩ := hw
      refine ⟨hi, d₀, { p with recv := p.recv ++ [.fail code] }, hpast, ?_, ?_⟩
      · rw [List.length_append, hlen]
        rfl
      · rw [inPass_append, ← show d = cfg.inPass arg.processTimers d₀ p from hd]
        exact (take_nil d).symm
  | allRead d i hi =>
      obtain ⟨hle, d₀, p, hpast, hlen, hd⟩ := hw
      exact ⟨d₀, p, hpast, hlen.trans (Nat.le_antisymm hle hi), hd⟩
  | passDone d =>
      obtain ⟨d₀, p, ⟨passes, hall, rfl⟩, hlen, hd⟩ := hw
      refine ⟨passes ++ [p], fun p' hp' => ?_, ?_⟩
      · rcases List.mem_append.mp hp' with hp' | hp'
        · exact hall p' hp'
        · rw [List.mem_singleton.mp hp', hlen]
      · rw [List.foldl_append]
        exact congrArg cfg.finish hd

theorem pass_multi (hm : cfg.single = false) (t : Bool) (d : Disp Pkt Ev Queue)
    (p : Pass Pkt Ev Queue) : cfg.pass t d p = recvPass cfg.api t d p := by
  simp only [Setup.pass, Setup.inPass, Setup.finish, Setup.take, hm, Bool.false_eq_true, if_false]
  rfl

theorem inPass_single_log (hs : cfg.single = true) (recv : List (Recv Pkt pktBurstSize))
    (d : Disp Pkt Ev Queue) :
    (recv.foldl (fun d r => cfg.take d r.pkts) d).log =
      recv.foldl (fun log r => r.pkts.foldl (fun log pkt => log ++ [.input pkt none]) log)
        d.log := by
  induction recv generalizing d with
  | nil => rfl
  | cons r recv ih =>
      rw [List.foldl_cons, List.foldl_cons, ih]
      simp only [Setup.take, hs, if_true]

theorem pass_single (hs : cfg.single = true) (t : Bool) (d : Disp Pkt Ev Queue)
    (p : Pass Pkt Ev Queue) : (cfg.pass t d p).log = recvSinglePass t d.log p := by
  simp only [Setup.pass, Setup.inPass, Setup.finish, hs, if_true, inPass_single_log hs]
  rfl

theorem passes_single (hs : cfg.single = true) (t : Bool) (passes : List (Pass Pkt Ev Queue))
    (d : Disp Pkt Ev Queue) :
    (passes.foldl (cfg.pass t) d).log = passes.foldl (recvSinglePass t) d.log := by
  induction passes generalizing d with
  | nil => rfl
  | cons p passes ih => rw [List.foldl_cons, List.foldl_cons, ih, pass_single hs]

/-- **A worker that has ended is a call of `pkt_io_recv` or `pkt_io_recv_single`**: its return
    value and its effects. -/
theorem Worker.Traced.ended {ret : Int} {d : Disp Pkt Ev Queue}
    (h : Worker.Traced cfg arg ⟨.ended ret, d⟩) :
    ∃ state, (ret, d.log) =
      if cfg.single then pktIoRecvSingle arg.processTimers state
      else ((pktIoRecv cfg.api arg.processTimers cfg.vec₀ state).1,
        (pktIoRecv cfg.api arg.processTimers cfg.vec₀ state).2.log) := by
  rcases h with ⟨rfl, hlog⟩ | ⟨rfl, passes, -, hd⟩
  · refine ⟨none, ?_⟩
    rw [show d.log = [] from hlog]
    split <;> rfl
  · refine ⟨some passes, ?_⟩
    rw [show d = _ from hd]
    split
    · rename_i hs
      rw [passes_single hs]
      simp only [Setup.begin, hs, if_true]
      rfl
    · rename_i hm
      have hpass : cfg.pass arg.processTimers =
          (recvPass cfg.api arg.processTimers : Disp Pkt Ev Queue → _) := by
        funext d p
        exact pass_multi (Bool.eq_false_iff.mpr hm) _ d p
      rw [hpass]
      simp only [Setup.begin, hm, Bool.false_eq_true, if_false]
      rfl

end Traced

end Workers

/-! ## All workers -/

/-- The processing state, the packets that wait in each queue, all that ever arrived there, and
    the workers by their number. -/
structure Sys (Pkt Ev Queue Pktin : Type) where
  running : Bool
  waiting : Pktin → List Pkt
  arrived : Pktin → List Pkt
  workers : Nat → Worker Pkt Ev Queue

/-- A packet arrives; `nfp_stop_processing`; worker `j` makes a step. -/
inductive Label (Pkt Ev Queue κ : Type) where
  | arrive (pkt : Pkt)
  | stop
  | work (j : Nat) (a : Answer Pkt Ev Queue κ)

section System

variable {Pkt Ev Queue Pktin κ : Type} [DecidableEq Pktin]

/-- The queues after a worker took packets from one. -/
def afterTaking (waiting : Pktin → List Pkt) : Option (Pktin × List Pkt) → Pktin → List Pkt
  | none => waiting
  | some (q, left) => Function.update waiting q left

/-- **A step of the whole**; `rss` is the queue the interface's hash puts a packet on. -/
def next (cfg : Setup Pkt Pktin κ) (rss : Pkt → Pktin) (s : Sys Pkt Ev Queue Pktin) :
    Label Pkt Ev Queue κ → Option (Sys Pkt Ev Queue Pktin)
  | .arrive pkt =>
      some { s with
        waiting := Function.update s.waiting (rss pkt) (s.waiting (rss pkt) ++ [pkt])
        arrived := Function.update s.arrived (rss pkt) (s.arrived (rss pkt) ++ [pkt]) }
  | .stop => some { s with running := false }
  | .work j a =>
      match cfg.args[j]? with
      | none => none
      | some arg =>
          (workerStep cfg arg s.running s.waiting (s.workers j) a).map fun r =>
            { s with
              waiting := afterTaking s.waiting r.2
              workers := Function.update s.workers j r.1 }

/-- The threads are created, nothing has arrived yet. -/
def start : Sys Pkt Ev Queue Pktin := ⟨true, fun _ => [], fun _ => [], fun _ => .idle⟩

/-- The queues and the workers as sources and consumers of `Lib.Fanin`. -/
def Sys.toFanin (s : Sys Pkt Ev Queue Pktin) : Fanin Pktin Nat Pkt :=
  ⟨s.waiting, s.arrived, fun j => (s.workers j).items⟩

/-- **The invariant of the whole.** -/
structure Sys.Inv (cfg : Setup Pkt Pktin κ) (rss : Pkt → Pktin) (s : Sys Pkt Ev Queue Pktin) :
    Prop where
  sane : ∀ j, (s.workers j).Sane cfg
  traced : ∀ j arg, cfg.args[j]? = some arg → (s.workers j).Traced cfg arg
  flow : s.toFanin.Flow cfg.pktin.Fifo rss (Polls cfg.args)

omit [DecidableEq Pktin] in
/-- The items after a worker's step. -/
theorem items_update (s : Sys Pkt Ev Queue Pktin) (j : Nat) (w : Worker Pkt Ev Queue) :
    (fun k => (Function.update s.workers j w k).items) =
      Function.update (fun k => (s.workers k).items) j w.items := by
  funext k
  by_cases hk : k = j
  · subst hk
    simp only [Function.update_self]
  · simp only [Function.update_of_ne hk]

theorem start_inv (cfg : Setup Pkt Pktin κ) (rss : Pkt → Pktin) :
    (start : Sys Pkt Ev Queue Pktin).Inv cfg rss where
  sane _ := Worker.idle_sane cfg
  traced _ _ _ := rfl
  flow := Fanin.Flow.start

variable [Inhabited Queue] {cfg : Setup Pkt Pktin κ} {rss : Pkt → Pktin}

theorem next_inv (hapi : cfg.api.Documented)
    (halone : ∀ j k q, Polls cfg.args j q → Polls cfg.args k q → j = k)
    (s : Sys Pkt Ev Queue Pktin) (l : Label Pkt Ev Queue κ) (s' : Sys Pkt Ev Queue Pktin)
    (h : s.Inv cfg rss) (hnext : next cfg rss s l = some s') : s'.Inv cfg rss := by
  cases l with
  | arrive pkt =>
      cases hnext
      exact ⟨h.sane, h.traced, h.flow.arrive pkt⟩
  | stop =>
      cases hnext
      exact ⟨h.sane, h.traced, h.flow⟩
  | work j a =>
      simp only [next] at hnext
      split at hnext
      · cases hnext
      · rename_i arg harg
        obtain ⟨⟨w', took⟩, hstep, rfl⟩ := Option.map_eq_some_iff.mp hnext
        have hmove := workerStep_move hstep
        refine ⟨fun k => ?_, fun k arg' harg' => ?_, ?_⟩
        · by_cases hk : k = j
          · subst hk
            simp only [Function.update_self]
            exact hmove.sane hapi (h.sane k)
          · simp only [Function.update_of_ne hk]
            exact h.sane k
        · by_cases hk : k = j
          · subst hk
            obtain rfl : arg = arg' := Option.some.inj (harg.symm.trans harg')
            simp only [Function.update_self]
            exact hmove.traced (h.traced k arg harg)
          · simp only [Function.update_of_ne hk]
            exact h.traced k arg' harg'
        · -- a step without packets leaves the picture alone, a burst is a `take` of it
          simp only [Sys.toFanin, items_update]
          rcases hmove.items hapi (h.sane j) with ⟨rfl, hitems⟩ | ⟨q, choice, rfl, hq, hitems⟩
          · rw [hitems, Function.update_eq_self]
            exact h.flow
          · have hp : Polls cfg.args j q := ⟨arg, harg, hq⟩
            rw [hitems]
            exact h.flow.take hp (fun k hk => halone k j q hk hp)
              (cfg.pktin.conserves choice pktBurstSize (s.waiting q))
              fun hfifo => hfifo choice pktBurstSize (s.waiting q)

end System

/-! ## The result -/

section Results

variable {Name Pktio Pktin : Type}

variable {Pkt Ev Queue κ : Type} [DecidableEq Pktin] [Inhabited Queue]

/-- The packets from input queues a worker has handed to the stack. -/
def Worker.handedOver (w : Worker Pkt Ev Queue) : List Pkt := w.disp.log.flatMap polledPkts

/-- **Direct mode keeps the order of every queue**: for every number of workers and interfaces,
    every interleaving of the workers, the arrivals and the stop, and every answer of ODP, each
    queue has one worker; what that worker handed to the stack from the queue, then what it holds
    in its vector, then what still waits, is what arrived there, and in order if the interface
    gives it in order; no other worker has any of it. Between two passes nothing is held; no packet
    is freed and no vector handed over is empty or overlong; and a worker that has ended is a call
    of its function. The queues may be dealt out as any of the five programs does it; the loop is
    that of the four other than fpm_power. -/
theorem direct_in_order (p : Program) (odp : Odp Name Pktio Pktin) (hsep : odp.Separate)
    (maxWorkers numWorkers txQueues : Nat) (names : List Name)
    (hnames : names.length ≤ nfpFpInterfaceMax) (hworkers : numWorkers ≤ maxWorkers)
    (cfg : Setup Pkt Pktin κ) (hapi : cfg.api.Documented)
    (hdone : p.distribute odp maxWorkers numWorkers txQueues names = .done cfg.args)
    (rss : Pkt → Pktin) (s : Sys Pkt Ev Queue Pktin)
    (hreach : Reach (next cfg rss) anyStep start s) :
    (∀ name ∈ names, ∀ q ∈ odp.queuesOf name, ∃ j < numWorkers,
      (∀ k, Polls cfg.args k q ↔ k = j) ∧
      (Fanin.ofSource rss q (s.workers j).handedOver ++
          Fanin.ofSource rss q (s.workers j).disp.vec.pkt ++ s.waiting q).Perm (s.arrived q) ∧
      (cfg.pktin.Fifo → Fanin.ofSource rss q (s.workers j).handedOver ++
          Fanin.ofSource rss q (s.workers j).disp.vec.pkt ++ s.waiting q = s.arrived q) ∧
      ∀ k, k ≠ j → Fanin.ofSource rss q (s.workers k).handedOver = [] ∧
        Fanin.ofSource rss q (s.workers k).disp.vec.pkt = []) ∧
    (∀ j, (s.workers j).pc.between = true → (s.workers j).disp.vec.pkt = []) ∧
    (∀ j, ∀ a ∈ (s.workers j).disp.log, a.Tidy) ∧
    ∀ j arg ret d, cfg.args[j]? = some arg → s.workers j = ⟨.ended ret, d⟩ →
      ∃ state, (ret, d.log) =
        if cfg.single then pktIoRecvSingle arg.processTimers state
        else ((pktIoRecv cfg.api arg.processTimers cfg.vec₀ state).1,
          (pktIoRecv cfg.api arg.processTimers cfg.vec₀ state).2.log) := by
  obtain ⟨hall, hargs⟩ : (∀ name ∈ names,
      Served odp (p.first odp) (p.more odp txQueues) numWorkers name) ∧
      cfg.args = (List.range numWorkers).map (dealtArg odp names.length p.timers names) := by
    rcases distribute_cases p odp txQueues hnames hworkers with ⟨hall, hd⟩ | ⟨-, hbad⟩
    · exact ⟨hall, Distribution.done.inj (hdone.symm.trans hd)⟩
    · rw [hdone] at hbad
      exact hbad.elim
  have hone : ∀ name ∈ names, ∀ q ∈ odp.queuesOf name,
      ∃ j < numWorkers, ∀ k, Polls cfg.args k q ↔ k = j := fun name hname q hq => by
    rw [hargs]
    exact polled_by_one hsep hname (hall name hname).queuesOf hq
  have halone : ∀ j k q, Polls cfg.args j q → Polls cfg.args k q → j = k := by
    intro j k q hj hk
    obtain ⟨-, name, hname, hq⟩ := polls_dealt.mp (hargs ▸ hj)
    obtain ⟨i, -, hi⟩ := hone name hname q (List.mem_of_getElem? hq)
    rw [(hi j).mp hj, (hi k).mp hk]
  have hinv : s.Inv cfg rss := hreach.inv (start_inv cfg rss)
    fun s l s' h _ hnext => next_inv hapi halone s l s' h hnext
  refine ⟨fun name hname q hq => ?_, fun j hb => (hinv.sane j).empty (.inl hb),
    fun j => (hinv.sane j).tidy, fun j arg ret d harg hd => ?_⟩
  · obtain ⟨j, hj, hpolls⟩ := hone name hname q hq
    have hitems : ∀ k, Fanin.ofSource rss q (s.workers k).items =
        Fanin.ofSource rss q (s.workers k).handedOver ++
          Fanin.ofSource rss q (s.workers k).disp.vec.pkt := by
      intro k
      rw [← Fanin.ofSource_append]
      simp only [Worker.items, Batch.items, List.map_id]
      rfl
    refine ⟨j, hj, hpolls, ?_, fun hfifo => ?_, fun k hk => ?_⟩
    · rw [← hitems]
      exact hinv.flow.kept j q ((hpolls j).mpr rfl)
    · rw [← hitems]
      exact hinv.flow.order hfifo j q ((hpolls j).mpr rfl)
    · have hnone := hinv.flow.foreign k q fun h => hk ((hpolls k).mp h)
      exact List.append_eq_nil_iff.mp ((hitems k).symm.trans hnone)
  · exact (hd ▸ hinv.traced j arg harg).ended

end Results

/-- Two workers over the interfaces 7 and 5 of `twoQueues`, as udp_fwd_socket deals them. -/
def twoWorkers : Setup Nat (Nat × Nat) Nat where
  api := .reference Nat
  pktin := .queue
  single := false
  vec₀ := .empty
  args := (List.range 2).map (dealtArg twoQueues 2 Program.udpFwd.timers [7, 5])

/-- Three packets for the two queues of interface 7; worker 1 makes one pass, its second queue
    fails. -/
def onePass : List (Label Nat Unit Unit Nat) :=
  [.arrive 1, .arrive 2, .work 1 (.state true), .arrive 3, .work 1 .go, .work 1 .go,
    .work 1 (.burst 2), .work 1 (.fail 0), .work 1 .go, .work 1 .go]

theorem direct_in_order_two :
    Program.udpFwd.distribute twoQueues 64 2 3 [7, 5] = .done twoWorkers.args ∧
    ∃ s : Sys Nat Unit Unit (Nat × Nat),
      Reach (next twoWorkers fun pkt => (7, pkt % 2)) anyStep start s ∧
      (s.workers 1).handedOver = [1, 3] ∧ s.waiting (7, 0) = [2] ∧
      (∃ j < 2, Fanin.ofSource (fun pkt => (7, pkt % 2)) (7, 1) (s.workers j).handedOver ++
        Fanin.ofSource (fun pkt => (7, pkt % 2)) (7, 1) (s.workers j).disp.vec.pkt ++
          s.waiting (7, 1) = s.arrived (7, 1)) ∧
      ∀ j, ∀ a ∈ (s.workers j).disp.log, a.Tidy := by
  have hdone : Program.udpFwd.distribute twoQueues 64 2 3 [7, 5] = .done twoWorkers.args := by
    decide
  have hrun : (run (next twoWorkers fun pkt => (7, pkt % 2)) start onePass).any (fun s =>
      (s.workers 1).handedOver == [1, 3] && s.waiting (7, 0) == [2]) = true := by decide
  obtain ⟨s, hreach, hs⟩ := Reach.of_run_any hrun
  simp only [Bool.and_eq_true, beq_iff_eq] at hs
  have hall := direct_in_order .udpFwd twoQueues twoQueues_separate 64 2 3 [7, 5] (by decide)
    (by decide) twoWorkers (PktVectorApi.reference_documented Nat) hdone _ s hreach
  obtain ⟨j, hj, -, -, horder, -⟩ := hall.1 7 (by decide) (7, 1) (by decide)
  exact ⟨hdone, s, hreach, hs.1, hs.2, ⟨j, hj, horder Channel.queue_fifo⟩, hall.2.2.1⟩

end Nfp.Direct
