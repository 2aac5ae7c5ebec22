/-
  File:      Nfp/Tcpperf/Threads.lean
  Subject:   THE THREADS OF TCPPERF (example/tcpperf/app_main.c): `main` from the set-up of the
             socket to the end, `pktio_recv`, one of `run_server`, `run_server_single`,
             `run_client` and `run_client_single`, and the signal handler, at once.

  A step is one access of one thread to what the threads share, `exit_threads` and `gbl_args`, or
  one call; the answers of the calls are labels. What a thread does next is a function of the shared
  state and the answer (`appStep`, `pktioStep`, `mainStep`), what that changes is an `Effect`.

  * `Control` -- where the threads can be, and who has been told to end;
  * **`tcpperf_shuts_down`** -- a thread that has ended has told the others, and they all end
    within a fixed number of steps; only where `run_client_single` leaves on a receive error is
    nobody told, and `main` stays in `print_global_stats` until a signal comes.

  Descriptors and counters are in Accounts.lean.
-/
import Mathlib.Data.List.Perm.Basic
import Nfp.Dispatch.Tcpperf
import Nfp.Lib.Ledger
import Nfp.Lib.Run

namespace Nfp.Tcpperf.Threads

open Nfp.Lib Nfp.Tcpperf

/-- `appl_mode_t`. -/
inductive Mode where
  | server
  | client
  deriving DecidableEq, Repr

/-- The arguments that decide what the threads do: the mode, `single_thread`, and whether `laddr`
    was given. -/
structure Setting where
  mode : Mode
  singleThread : Bool
  laddr : Bool
  deriving DecidableEq, Repr

/-- `exit_threads` and what the threads share in `gbl_args`. -/
structure Gbl where
  exitThreads : Bool
  conStatus : Bool
  serverFd : Option Nat
  clientFd : Option Nat
  recvCalls : UInt64
  recvBytes : UInt64
  sendCalls : UInt64
  sendBytes : UInt64
  pkts : PacketCounters
  deriving DecidableEq, Repr

/-- The answer of a call: its result, whether `nfp_errno` asks to try again (`NFP_EWOULDBLOCK`,
    `NFP_EAGAIN`, `NFP_EINPROGRESS`), and for `rx_func` the lengths of the packets received. -/
structure Answer where
  ret : Int
  again : Bool
  lens : List Nat
  deriving DecidableEq, Repr

/-- Where the server or client thread stands. -/
inductive AppPc where
  | absent
  -- wait_for_client
  | waitTest
  | waitRx
  | waitSelect
  | waitAccept
  | gotClient (fd : Option Nat)
  | checkClient
  -- the client before it is connected
  | ioctlNonblock
  | connect
  | connectRx (retry : Nat)
  | connectSelect (retry : Nat)
  | connectTest (retry : Nat)
  | ioctlBlock
  -- the loop of either
  | connected
  | loopTest
  | loopRx
  | loopIo
  | addBytes (n : Nat)
  | addCalls
  | setExit
  | done
  /-- `run_client_single` has returned after a receive error -/
  | leftOnRxError
  deriving DecidableEq, Repr

/-- Where `pktio_recv` stands. -/
inductive PktioPc where
  | absent
  | test
  | rx
  | setExit
  | done
  deriving DecidableEq, Repr

/-- Where `main` stands: in `setup_server` or `setup_client`, where it creates the threads, in
    `print_global_stats`, behind it. -/
inductive MainPc where
  | socket
  | parse (fd : Nat)
  | bind (fd : Nat)
  | listen (fd : Nat)
  | closeSetup (fd : Nat)
  | createPktio
  | createApp
  | statsTest
  | statsSleep
  | statsExit
  | statsRead
  | join
  | closeClient
  | closeServer
  | terminate
  | ended
  deriving DecidableEq, Repr

/-- **What a step changes**: nothing shared, a field, the descriptors that are open, the packet
    counters; a thread is started; `main` drops a descriptor. -/
inductive Effect where
  | nothing
  | setExit
  | setCon
  | storeServer (fd : Nat)
  | storeClient (fd : Option Nat)
  | book (e : Entry Nat)
  | drop (fd : Nat)
  | rx (lens : List Nat)
  | transfer (n : Nat)
  | addRecvBytes (n : Nat)
  | addRecvCalls
  | addSendBytes (n : Nat)
  | addSendCalls
  | startPktio
  | startApp (pc : AppPc)
  deriving DecidableEq, Repr

/-- **The threads and what they share**, with the history: the descriptors opened and closed, those
    dropped, the results of `nfp_recv` or `nfp_send` that count, the lengths of the packets. -/
structure Perf where
  gbl : Gbl
  main : MainPc
  app : AppPc
  pktio : PktioPc
  log : List (Entry Nat)
  dropped : List Nat
  transfers : List Nat
  lens : List Nat
  deriving DecidableEq, Repr

/-- `gbl_args` as `main` sets it up. -/
def start : Perf where
  gbl := ⟨false, false, none, none, 0, 0, 0, 0, noPackets⟩
  main := .socket
  app := .absent
  pktio := .absent
  log := []
  dropped := []
  transfers := []
  lens := []

/-- A thread that `nfp_thread_join` does not wait for. -/
def AppPc.ended : AppPc → Bool
  | .absent | .done | .leftOnRxError => true
  | _ => false

def PktioPc.ended : PktioPc → Bool
  | .absent | .done => true
  | _ => false

/-! ## The threads -/

/-- `retry > 10`. -/
def maxRetry : Nat := 10

/-- **`run_server`**, **`run_server_single`**, **`run_client`**, **`run_client_single`**, with
    **`wait_for_client`**. -/
def appStep (cfg : Setting) (g : Gbl) (pc : AppPc) (a : Answer) : Option (AppPc × Effect) :=
  match pc with
  | .absent | .done | .leftOnRxError => none
  | .waitTest =>
      if g.exitThreads then some (.gotClient none, .nothing)
      else if cfg.singleThread then some (.waitRx, .nothing)
      else some (.waitSelect, .nothing)
  -- the result of rx_func is not looked at here
  | .waitRx => some (.waitSelect, .rx a.lens)
  | .waitSelect =>
      if a.ret = 0 then some (.waitTest, .nothing)
      else if a.ret < 0 then some (.gotClient none, .nothing)
      else some (.waitAccept, .nothing)
  | .waitAccept =>
      if a.ret < 0 then some (.gotClient none, .nothing)
      else some (.gotClient (some a.ret.toNat), .book (.acquire a.ret.toNat))
  | .gotClient fd => some (.checkClient, .storeClient fd)
  | .checkClient =>
      if g.exitThreads ∨ g.clientFd = none then some (.setExit, .nothing)
      else some (.connected, .nothing)
  | .ioctlNonblock =>
      if a.ret < 0 then some (.setExit, .nothing) else some (.connect, .nothing)
  | .connect =>
      if cfg.singleThread then
        if a.ret = -1 ∧ a.again = false then some (.setExit, .nothing)
        else some (.connectRx 1, .nothing)
      else if a.ret = -1 then some (.setExit, .nothing)
      else some (.connected, .nothing)
  | .connectRx retry => some (.connectSelect retry, .rx a.lens)
  | .connectSelect retry =>
      if a.ret ≤ 0 then some (.connectTest retry, .nothing) else some (.ioctlBlock, .nothing)
  | .connectTest retry =>
      if g.exitThreads then some (.ioctlBlock, .nothing)
      else if maxRetry < retry + 1 then some (.setExit, .nothing)
      else some (.connectRx (retry + 1), .nothing)
  | .ioctlBlock =>
      if a.ret < 0 then some (.setExit, .nothing) else some (.connected, .nothing)
  | .connected => some (.loopTest, .setCon)
  | .loopTest =>
      if g.exitThreads then
        match cfg.mode with
        | .server => some (.setExit, .nothing)
        | .client => some (.done, .nothing)
      else if cfg.singleThread then some (.loopRx, .nothing)
      else some (.loopIo, .nothing)
  | .loopRx =>
      match cfg.mode with
      | .server =>
          if a.ret < 0 then some (.setExit, .rx a.lens) else some (.loopIo, .rx a.lens)
      | .client =>
          if a.ret < 0 then some (.leftOnRxError, .rx a.lens)
          else if (pktBurstSize : Int) ≤ a.ret then some (.loopTest, .rx a.lens)
          else some (.loopIo, .rx a.lens)
  | .loopIo =>
      match cfg.mode with
      | .server =>
          if a.ret < 0 then
            if a.again then some (.loopTest, .nothing) else some (.setExit, .nothing)
          else if a.ret = 0 then some (.setExit, .nothing)
          else some (.addBytes a.ret.toNat, .transfer a.ret.toNat)
      | .client =>
          if a.ret < 0 then
            if cfg.singleThread ∧ a.again then some (.loopTest, .nothing)
            else some (.setExit, .nothing)
          else some (.addBytes a.ret.toNat, .transfer a.ret.toNat)
  | .addBytes n =>
      match cfg.mode with
      | .server => some (.addCalls, .addRecvBytes n)
      | .client => some (.addCalls, .addSendBytes n)
  | .addCalls =>
      match cfg.mode with
      | .server => some (.loopTest, .addRecvCalls)
      | .client => some (.loopTest, .addSendCalls)
  | .setExit => some (.done, .setExit)

/-- **`pktio_recv`**. -/
def pktioStep (g : Gbl) (pc : PktioPc) (a : Answer) : Option (PktioPc × Effect) :=
  match pc with
  | .absent | .done => none
  | .test => if g.exitThreads then some (.setExit, .nothing) else some (.rx, .nothing)
  | .rx => if a.ret < 0 then some (.setExit, .rx a.lens) else some (.test, .rx a.lens)
  | .setExit => some (.done, .setExit)

/-- Where the server or client thread begins. -/
def AppPc.first (cfg : Setting) : AppPc :=
  match cfg.mode with
  | .server => .waitTest
  | .client => if cfg.singleThread then .ioctlNonblock else .connect

/-- Closing what `gbl_args` holds, if it holds something. -/
def closing : Option Nat → Effect
  | some fd => .book (.release fd)
  | none => .nothing

/-- **`main`** with **`setup_server`**, **`setup_client`** and **`print_global_stats`**. The results
    of `nfp_thread_create` are not looked at. -/
def mainStep (cfg : Setting) (s : Perf) (a : Answer) : Option (MainPc × Effect) :=
  match s.main with
  | .socket =>
      if a.ret < 0 then some (.terminate, .nothing)
      else some (.parse a.ret.toNat, .book (.acquire a.ret.toNat))
  | .parse fd =>
      match cfg.mode with
      | .server =>
          if cfg.laddr ∧ a.ret = 0 then some (.closeSetup fd, .nothing)
          else some (.bind fd, .nothing)
      | .client =>
          if a.ret = 0 then some (.terminate, .drop fd)
          else some (.createPktio, .storeClient (some fd))
  | .bind fd =>
      if a.ret < 0 then some (.closeSetup fd, .nothing) else some (.listen fd, .nothing)
  | .listen fd =>
      if a.ret ≠ 0 then some (.closeSetup fd, .nothing) else some (.createPktio, .storeServer fd)
  | .closeSetup fd => some (.terminate, .book (.release fd))
  | .createPktio =>
      some (.createApp, if cfg.singleThread = false ∧ a.ret = 1 then .startPktio else .nothing)
  | .createApp =>
      some (.statsTest, if a.ret = 1 then .startApp (AppPc.first cfg) else .nothing)
  | .statsTest =>
      if s.gbl.exitThreads then some (.join, .nothing) else some (.statsSleep, .nothing)
  | .statsSleep =>
      if s.gbl.conStatus = false then some (.statsTest, .nothing) else some (.statsExit, .nothing)
  | .statsExit =>
      if s.gbl.exitThreads then some (.join, .nothing) else some (.statsRead, .nothing)
  | .statsRead => some (.statsTest, .nothing)
  | .join => if s.app.ended ∧ s.pktio.ended then some (.closeClient, .nothing) else none
  | .closeClient => some (.closeServer, closing s.gbl.clientFd)
  | .closeServer => some (.terminate, closing s.gbl.serverFd)
  | .terminate => some (.ended, .nothing)
  | .ended => none

/-! ## All together -/

/-- What an effect changes. -/
def Perf.apply (s : Perf) : Effect → Perf
  | .nothing => s
  | .setExit => { s with gbl := { s.gbl with exitThreads := true } }
  | .setCon => { s with gbl := { s.gbl with conStatus := true } }
  | .storeServer fd => { s with gbl := { s.gbl with serverFd := some fd } }
  | .storeClient fd => { s with gbl := { s.gbl with clientFd := fd } }
  | .book e => { s with log := s.log ++ [e] }
  | .drop fd => { s with dropped := s.dropped ++ [fd] }
  | .rx lens =>
      { s with lens := s.lens ++ lens
               gbl := { s.gbl with
                          pkts := lens.foldl (fun stats len => updatePktStats len stats) s.gbl.pkts } }
  | .transfer n => { s with transfers := s.transfers ++ [n] }
  | .addRecvBytes n =>
      { s with gbl := { s.gbl with recvBytes := s.gbl.recvBytes + UInt64.ofNat n } }
  | .addRecvCalls => { s with gbl := { s.gbl with recvCalls := s.gbl.recvCalls + 1 } }
  | .addSendBytes n =>
      { s with gbl := { s.gbl with sendBytes := s.gbl.sendBytes + UInt64.ofNat n } }
  | .addSendCalls => { s with gbl := { s.gbl with sendCalls := s.gbl.sendCalls + 1 } }
  | .startPktio => { s with pktio := .test }
  | .startApp pc => { s with app := pc }

/-- The steps; `sigint` is the signal handler. -/
inductive Step where
  | main (a : Answer)
  | app (a : Answer)
  | pktio (a : Answer)
  | sigint
  deriving DecidableEq, Repr

/-- **One step of one thread**. -/
def next (cfg : Setting) (s : Perf) : Step → Option Perf
  | .main a => (mainStep cfg s a).map fun r => { s.apply r.2 with main := r.1 }
  | .app a => (appStep cfg s.gbl s.app a).map fun r => { s.apply r.2 with app := r.1 }
  | .pktio a => (pktioStep s.gbl s.pktio a).map fun r => { s.apply r.2 with pktio := r.1 }
  | .sigint => some (s.apply .setExit)

section Steps

variable {cfg : Setting} {s s' : Perf} {l : Step} {a : Answer}

/-- **What a step can be.** -/
theorem next_cases (h : next cfg s l = some s') :
    (∃ a pc e, l = .main a ∧ mainStep cfg s a = some (pc, e) ∧ s' = { s.apply e with main := pc }) ∨
    (∃ a pc e, l = .app a ∧ appStep cfg s.gbl s.app a = some (pc, e) ∧
      s' = { s.apply e with app := pc }) ∨
    (∃ a pc e, l = .pktio a ∧ pktioStep s.gbl s.pktio a = some (pc, e) ∧
      s' = { s.apply e with pktio := pc }) ∨
    (l = .sigint ∧ s' = s.apply .setExit) := by
  cases l with
  | main a =>
      obtain ⟨⟨pc, e⟩, hr, rfl⟩ := Option.map_eq_some_iff.mp h
      exact Or.inl ⟨a, pc, e, rfl, hr, rfl⟩
  | app a =>
      obtain ⟨⟨pc, e⟩, hr, rfl⟩ := Option.map_eq_some_iff.mp h
      exact Or.inr (Or.inl ⟨a, pc, e, rfl, hr, rfl⟩)
  | pktio a =>
      obtain ⟨⟨pc, e⟩, hr, rfl⟩ := Option.map_eq_some_iff.mp h
      exact Or.inr (Or.inr (Or.inl ⟨a, pc, e, rfl, hr, rfl⟩))
  | sigint => exact Or.inr (Or.inr (Or.inr ⟨rfl, (Option.some.inj h).symm⟩))

@[simp] theorem apply_main (s : Perf) (e : Effect) : (s.apply e).main = s.main := by
  cases e <;> rfl

/-- `exit_threads` is never cleared. -/
theorem apply_exitThreads (e : Effect) (h : s.gbl.exitThreads = true) :
    (s.apply e).gbl.exitThreads = true := by
  cases e <;> first | exact h | rfl

/-- The effects that start no thread. -/
def Effect.quiet : Effect → Bool
  | .startPktio | .startApp _ => false
  | _ => true

theorem apply_app {e : Effect} (h : e.quiet = true) (s : Perf) : (s.apply e).app = s.app := by
  cases e with
  | startApp pc => cases h
  | _ => rfl

theorem apply_pktio {e : Effect} (h : e.quiet = true) (s : Perf) :
    (s.apply e).pktio = s.pktio := by
  cases e with
  | startPktio => cases h
  | _ => rfl

theorem appStep_quiet {g : Gbl} {pc pc' : AppPc} {e : Effect}
    (h : appStep cfg g pc a = some (pc', e)) : e.quiet = true := by
  cases pc <;> simp only [appStep] at h <;> (repeat' split at h) <;> cases h <;> rfl

theorem pktioStep_quiet {g : Gbl} {pc pc' : PktioPc} {e : Effect}
    (h : pktioStep g pc a = some (pc', e)) : e.quiet = true := by
  cases pc <;> simp only [pktioStep] at h <;> (repeat' split at h) <;> cases h <;> rfl

end Steps

/-! ## Where the threads can be -/

section Control

variable {cfg : Setting} {s s' : Perf} {l : Step} {a : Answer}

/-- `main` has not created the server or client thread yet. -/
def MainPc.creating : MainPc → Bool
  | .socket | .parse _ | .bind _ | .listen _ | .closeSetup _ | .createPktio | .createApp => true
  | _ => false

/-- `main` is in the loop of `print_global_stats`. -/
def MainPc.inStats : MainPc → Bool
  | .statsTest | .statsSleep | .statsExit | .statsRead => true
  | _ => false

/-- `main` is behind `nfp_thread_join`, or there was nothing to join. -/
def MainPc.past : MainPc → Bool
  | .closeClient | .closeServer | .terminate | .ended => true
  | _ => false

/-- The thread calls `rx_func` here or in a later round of the same loop. -/
def AppPc.receives : AppPc → Bool
  | .waitRx | .connectRx _ | .connectSelect _ | .connectTest _ | .loopRx => true
  | _ => false

/-- **Who is where**, and who has been told to end. -/
structure Control (cfg : Setting) (s : Perf) : Prop where
  app : s.main.creating = true → s.app = .absent
  pktio : s.main.creating = true → s.main ≠ .createApp → s.pktio = .absent
  joined : s.main.past = true → s.app.ended = true ∧ s.pktio.ended = true
  /-- one thread calls `rx_func` -/
  single : s.pktio ≠ .absent → cfg.singleThread = false
  receives : s.app.receives = true → cfg.singleThread = true
  left : s.app = .leftOnRxError → cfg.mode = .client ∧ cfg.singleThread = true
  toldByApp : s.app = .done → s.gbl.exitThreads = true
  toldByPktio : s.pktio = .done → s.gbl.exitThreads = true
  toldMain : s.app ≠ .absent → s.main.inStats = false → s.gbl.exitThreads = true

theorem start_control (cfg : Setting) : Control cfg start where
  app _ := rfl
  pktio _ _ := rfl
  joined h := by cases h
  single h := absurd rfl h
  receives h := by cases h
  left h := by cases h
  toldByApp h := by cases h
  toldByPktio h := by cases h
  toldMain h := absurd rfl h

/-- **A step of the server or client thread.** -/
structure AppMove (cfg : Setting) (g : Gbl) (pc pc' : AppPc) (e : Effect) : Prop where
  running : pc.ended = false
  present : pc' ≠ .absent
  receives : (pc.receives = true → cfg.singleThread = true) → pc'.receives = true →
    cfg.singleThread = true
  left : (pc.receives = true → cfg.singleThread = true) → pc' = .leftOnRxError →
    cfg.mode = .client ∧ cfg.singleThread = true
  told : pc' = .done → e = .setExit ∨ g.exitThreads = true

theorem appStep_move {g : Gbl} {pc pc' : AppPc} {e : Effect}
    (h : appStep cfg g pc a = some (pc', e)) : AppMove cfg g pc pc' e := by
  cases pc <;> simp only [appStep] at h <;> (repeat' split at h) <;> cases h <;>
    constructor <;> simp_all [AppPc.ended, AppPc.receives]

theorem first_running (cfg : Setting) : (AppPc.first cfg).receives = false ∧
    (AppPc.first cfg).ended = false := by
  unfold AppPc.first
  split
  · exact ⟨rfl, rfl⟩
  · split <;> exact ⟨rfl, rfl⟩

theorem ended_ne_done {pc : AppPc} (h : pc.ended = false) : pc ≠ .done ∧ pc ≠ .absent ∧
    pc ≠ .leftOnRxError := by
  cases pc <;> simp_all [AppPc.ended]

theorem control_app {pc : AppPc} {e : Effect} (hc : Control cfg s)
    (h : appStep cfg s.gbl s.app a = some (pc, e)) :
    Control cfg { s.apply e with app := pc } := by
  have hquiet := appStep_quiet h
  have hmove := appStep_move h
  have hpktio : (s.apply e).pktio = s.pktio := apply_pktio hquiet s
  have habsent : s.app ≠ .absent := (ended_ne_done hmove.running).2.1
  have hexit := @apply_exitThreads s e
  refine ⟨fun hm => ?_, fun hm _ => ?_, fun hm => ?_, fun hp => ?_, hmove.receives hc.receives,
    hmove.left hc.receives, fun hd => ?_, fun hd => ?_, fun _ hm => ?_⟩
  · rw [apply_main] at hm
    exact absurd (hc.app hm) habsent
  · rw [apply_main] at hm
    exact absurd (hc.app hm) habsent
  · rw [apply_main] at hm
    exact absurd (hc.joined hm).1 (by rw [hmove.running]; exact Bool.false_ne_true)
  · exact hc.single (hpktio ▸ hp)
  · rcases hmove.told hd with rfl | hset
    · rfl
    · exact hexit hset
  · exact hexit (hc.toldByPktio (hpktio ▸ hd))
  · rw [apply_main] at hm
    exact hexit (hc.toldMain habsent hm)

theorem pktioStep_move {g : Gbl} {pc pc' : PktioPc} {e : Effect}
    (h : pktioStep g pc a = some (pc', e)) :
    pc.ended = false ∧ (pc' = .done → e = .setExit) := by
  cases pc <;> simp only [pktioStep] at h <;> (repeat' split at h) <;> cases h <;>
    simp [PktioPc.ended]

theorem control_pktio {pc : PktioPc} {e : Effect} (hc : Control cfg s)
    (h : pktioStep s.gbl s.pktio a = some (pc, e)) :
    Control cfg { s.apply e with pktio := pc } := by
  have hquiet := pktioStep_quiet h
  obtain ⟨hrun, htold⟩ := pktioStep_move h
  have happ : (s.apply e).app = s.app := apply_app hquiet s
  have habsent : s.pktio ≠ .absent := fun h0 => by rw [h0] at hrun; cases hrun
  have hexit := @apply_exitThreads s e
  refine ⟨fun hm => ?_, fun hm hne => ?_, fun hm => ?_, fun _ => hc.single habsent, fun hr => ?_,
    fun hl => ?_, fun hd => ?_, fun hd => ?_, fun ha hm => ?_⟩
  · rw [apply_main] at hm
    exact happ.trans (hc.app hm)
  · rw [apply_main] at hm hne
    exact absurd (hc.pktio hm hne) habsent
  · rw [apply_main] at hm
    exact absurd (hc.joined hm).2 (by rw [hrun]; exact Bool.false_ne_true)
  · exact hc.receives (happ ▸ hr)
  · exact hc.left (happ ▸ hl)
  · exact hexit (hc.toldByApp (happ ▸ hd))
  · rw [htold hd]
    rfl
  · rw [apply_main] at hm
    exact hexit (hc.toldMain (happ ▸ ha) hm)

/-- **A step of `main` that creates no thread.** -/
structure MainMove (s : Perf) (pc : MainPc) (e : Effect) : Prop where
  quiet : e.quiet = true
  creating : pc.creating = true → s.main.creating = true ∧ s.main ≠ .createApp
  past : pc.past = true → s.main.past = true ∨ (s.app.ended = true ∧ s.pktio.ended = true) ∨
    (s.main.creating = true ∧ s.main ≠ .createApp)
  stats : pc.inStats = false → s.main.creating = true ∨ s.main.inStats = false ∨
    s.gbl.exitThreads = true

theorem closing_quiet (fd : Option Nat) : (closing fd).quiet = true := by
  cases fd <;> rfl

theorem mainStep_move {pc : MainPc} {e : Effect} (h : mainStep cfg s a = some (pc, e))
    (happ : s.main ≠ .createApp) (hpktio : s.main ≠ .createPktio) : MainMove s pc e := by
  cases hm : s.main <;> simp only [mainStep, hm] at h <;> (repeat' split at h) <;> cases h <;>
    constructor <;> first
      | exact closing_quiet _
      | simp_all [MainPc.creating, MainPc.past, MainPc.inStats, Effect.quiet]

/-- Only the place of `main` has changed, and what the effect of its step says. -/
theorem control_main {pc : MainPc} {e : Effect} (hc : Control cfg s)
    (h : mainStep cfg s a = some (pc, e)) : Control cfg { s.apply e with main := pc } := by
  have hexit := @apply_exitThreads s e
  by_cases hcreate : s.main = .createApp
  · have happ : s.app = .absent := hc.app (by rw [hcreate]; rfl)
    obtain ⟨hreceives, hrun⟩ := first_running cfg
    obtain ⟨hdone, -, hleft⟩ := ended_ne_done hrun
    simp only [mainStep, hcreate, Option.some.injEq, Prod.mk.injEq] at h
    obtain ⟨rfl, rfl⟩ := h
    split
    · exact ⟨fun hm => absurd hm Bool.false_ne_true, fun hm _ => absurd hm Bool.false_ne_true,
        fun hm => absurd hm Bool.false_ne_true, hc.single,
        fun hr => absurd (hreceives.symm.trans hr) Bool.false_ne_true,
        fun hl => absurd hl hleft, fun hd => absurd hd hdone, hc.toldByPktio,
        fun _ hm => absurd hm.symm Bool.false_ne_true⟩
    · exact ⟨fun hm => absurd hm Bool.false_ne_true, fun hm _ => absurd hm Bool.false_ne_true,
        fun hm => absurd hm Bool.false_ne_true, hc.single, hc.receives, hc.left, hc.toldByApp,
        hc.toldByPktio, fun ha _ => absurd happ ha⟩
  by_cases hcreate' : s.main = .createPktio
  · have happ : s.app = .absent := hc.app (by rw [hcreate']; rfl)
    simp only [mainStep, hcreate', Option.some.injEq, Prod.mk.injEq] at h
    obtain ⟨rfl, rfl⟩ := h
    split
    · rename_i hcond
      exact ⟨fun _ => happ, fun _ hne => absurd rfl hne, fun hm => absurd hm Bool.false_ne_true,
        fun _ => hcond.1, hc.receives, hc.left, hc.toldByApp, fun hd => PktioPc.noConfusion hd,
        fun ha _ => absurd happ ha⟩
    · exact ⟨fun _ => happ, fun _ hne => absurd rfl hne, fun hm => absurd hm Bool.false_ne_true,
        hc.single, hc.receives, hc.left, hc.toldByApp, hc.toldByPktio,
        fun ha _ => absurd happ ha⟩
  have hmove := mainStep_move h hcreate hcreate'
  have happ : (s.apply e).app = s.app := apply_app hmove.quiet s
  have hpktio : (s.apply e).pktio = s.pktio := apply_pktio hmove.quiet s
  refine ⟨fun hm => ?_, fun hm _ => ?_, fun hm => ?_, fun hp => hc.single (hpktio ▸ hp),
    fun hr => hc.receives (happ ▸ hr), fun hl => hc.left (happ ▸ hl),
    fun hd => hexit (hc.toldByApp (happ ▸ hd)), fun hd => hexit (hc.toldByPktio (hpktio ▸ hd)),
    fun ha hm => ?_⟩
  · exact happ.trans (hc.app (hmove.creating hm).1)
  · exact hpktio.trans (hc.pktio (hmove.creating hm).1 (hmove.creating hm).2)
  · show (s.apply e).app.ended = true ∧ (s.apply e).pktio.ended = true
    rw [happ, hpktio]
    rcases hmove.past hm with hpast | hboth | ⟨hcr, hne⟩
    · exact hc.joined hpast
    · exact hboth
    · rw [hc.app hcr, hc.pktio hcr hne]
      exact ⟨rfl, rfl⟩
  · have ha : s.app ≠ .absent := happ ▸ ha
    rcases hmove.stats hm with hcr | hstats | hset
    · exact absurd (hc.app hcr) ha
    · exact hexit (hc.toldMain ha hstats)
    · exact hexit hset

/-- **Every step keeps it.** -/
theorem control_next (hc : Control cfg s) (h : next cfg s l = some s') : Control cfg s' := by
  obtain ⟨a, pc, e, -, hstep, rfl⟩ | ⟨a, pc, e, -, hstep, rfl⟩ | ⟨a, pc, e, -, hstep, rfl⟩ |
    ⟨-, rfl⟩ := next_cases h
  · exact control_main hc hstep
  · exact control_app hc hstep
  · exact control_pktio hc hstep
  · exact ⟨hc.app, hc.pktio, hc.joined, hc.single, hc.receives, hc.left, fun _ => rfl,
      fun _ => rfl, fun _ _ => rfl⟩

theorem control_of_reach {ok : Perf → Step → Prop} (h : Reach (next cfg) ok start s) :
    Control cfg s :=
  h.inv (I := Control cfg) (start_control cfg) fun _ _ _ hc _ hs => control_next hc hs

end Control

/-! ## Once `exit_threads` is set

Every thread has only so many steps left, which its place tells. -/

section Shutdown

variable {cfg : Setting} {s s' : Perf} {l : Step} {a : Answer}

def AppPc.rank : AppPc → Nat
  | .absent | .done | .leftOnRxError => 0
  | .setExit => 1
  | .loopTest | .checkClient => 2
  | .addCalls | .connected | .gotClient _ => 3
  | .addBytes _ | .ioctlBlock | .waitTest | .waitAccept => 4
  | .loopIo | .connectTest _ | .waitSelect => 5
  | .loopRx | .connectSelect _ | .waitRx => 6
  | .connectRx _ => 7
  | .connect => 8
  | .ioctlNonblock => 9

def PktioPc.rank : PktioPc → Nat
  | .absent | .done => 0
  | .setExit => 1
  | .test => 2
  | .rx => 3

/-- `main` also answers for the threads it has not yet created. -/
def MainPc.rank : MainPc → Nat
  | .ended => 0
  | .terminate => 1
  | .closeServer => 2
  | .closeClient => 3
  | .join => 4
  | .statsTest | .statsExit => 5
  | .statsSleep | .statsRead => 6
  | .createApp => 15
  | .createPktio => 18
  | .closeSetup _ => 2
  | .listen _ => 19
  | .bind _ => 20
  | .parse _ => 21
  | .socket => 22

def Perf.rank (s : Perf) : Nat := s.main.rank + s.app.rank + s.pktio.rank

theorem appStep_rank {g : Gbl} {pc pc' : AppPc} {e : Effect} (hexit : g.exitThreads = true)
    (h : appStep cfg g pc a = some (pc', e)) : pc'.rank < pc.rank := by
  cases pc <;> simp only [appStep, hexit, true_or, if_true] at h <;> (repeat' split at h) <;>
    cases h <;> simp [AppPc.rank]

theorem pktioStep_rank {g : Gbl} {pc pc' : PktioPc} {e : Effect} (hexit : g.exitThreads = true)
    (h : pktioStep g pc a = some (pc', e)) : pc'.rank < pc.rank := by
  cases pc <;> simp only [pktioStep, hexit, if_true] at h <;> (repeat' split at h) <;>
    cases h <;> simp [PktioPc.rank]

theorem first_rank (cfg : Setting) : (AppPc.first cfg).rank ≤ 9 := by
  unfold AppPc.first
  split
  · decide
  · split <;> decide

/-- A step of `main`, with the thread it may start. -/
theorem mainStep_rank {pc : MainPc} {e : Effect} (hexit : s.gbl.exitThreads = true)
    (happ : s.main = .createApp → s.app = .absent)
    (hpktio : s.main = .createPktio → s.pktio = .absent)
    (h : mainStep cfg s a = some (pc, e)) :
    pc.rank + (s.apply e).app.rank + (s.apply e).pktio.rank < s.rank := by
  by_cases hcreate : s.main = .createApp
  · have hfirst := first_rank cfg
    simp only [mainStep, hcreate, Option.some.injEq, Prod.mk.injEq] at h
    obtain ⟨rfl, rfl⟩ := h
    unfold Perf.rank
    rw [hcreate, happ hcreate]
    split
    · show 5 + (AppPc.first cfg).rank + s.pktio.rank < 15 + 0 + s.pktio.rank
      omega
    · show 5 + s.app.rank + s.pktio.rank < 15 + 0 + s.pktio.rank
      rw [happ hcreate]
      show 5 + 0 + s.pktio.rank < 15 + 0 + s.pktio.rank
      omega
  by_cases hcreate' : s.main = .createPktio
  · simp only [mainStep, hcreate', Option.some.injEq, Prod.mk.injEq] at h
    obtain ⟨rfl, rfl⟩ := h
    unfold Perf.rank
    rw [hcreate', hpktio hcreate']
    split
    · show 15 + s.app.rank + 2 < 18 + s.app.rank + 0
      omega
    · show 15 + s.app.rank + s.pktio.rank < 18 + s.app.rank + 0
      rw [hpktio hcreate']
      show 15 + s.app.rank + 0 < 18 + s.app.rank + 0
      omega
  have hquiet := (mainStep_move h hcreate hcreate').quiet
  rw [apply_app hquiet, apply_pktio hquiet]
  have hmain : pc.rank < s.main.rank := by
    cases hm : s.main <;> simp only [mainStep, hm, hexit, if_true] at h <;>
      (repeat' split at h) <;> cases h <;> first | contradiction | simp [MainPc.rank]
  unfold Perf.rank
  omega

/-- **A step takes one off the rank.** -/
theorem next_rank (hc : Control cfg s) (hexit : s.gbl.exitThreads = true) (hl : l ≠ .sigint)
    (h : next cfg s l = some s') : s'.gbl.exitThreads = true ∧ s'.rank < s.rank := by
  obtain ⟨a, pc, e, -, hstep, rfl⟩ | ⟨a, pc, e, -, hstep, rfl⟩ | ⟨a, pc, e, -, hstep, rfl⟩ |
    ⟨rfl, -⟩ := next_cases h
  · exact ⟨apply_exitThreads e hexit, mainStep_rank hexit (fun hm => hc.app (by rw [hm]; rfl))
      (fun hm => hc.pktio (by rw [hm]; rfl) (by rw [hm]; exact MainPc.noConfusion)) hstep⟩
  · have hless := appStep_rank hexit hstep
    refine ⟨apply_exitThreads e hexit, ?_⟩
    show (s.apply e).main.rank + pc.rank + (s.apply e).pktio.rank < _
    rw [apply_main, apply_pktio (appStep_quiet hstep)]
    unfold Perf.rank
    omega
  · have hless := pktioStep_rank hexit hstep
    refine ⟨apply_exitThreads e hexit, ?_⟩
    show (s.apply e).main.rank + (s.apply e).app.rank + pc.rank < _
    rw [apply_main, apply_app (pktioStep_quiet hstep)]
    unfold Perf.rank
    omega
  · exact absurd rfl hl

theorem rank_le (s : Perf) : s.rank ≤ 34 := by
  have hmain : s.main.rank ≤ 22 := by cases s.main <;> simp [MainPc.rank]
  have happ : s.app.rank ≤ 9 := by cases s.app <;> simp [AppPc.rank]
  have hpktio : s.pktio.rank ≤ 3 := by cases s.pktio <;> simp [PktioPc.rank]
  unfold Perf.rank
  omega

/-- `main` has returned, and no thread is left. -/
def Perf.Ended (s : Perf) : Prop :=
  s.main = .ended ∧ s.app.ended = true ∧ s.pktio.ended = true

/-- **Nobody waits for ever**: as long as not all have ended, one of them can go on. -/
theorem ended_of_stuck (h : ∀ l, l ≠ .sigint → next cfg s l = none) : s.Ended := by
  have happ : s.app.ended = true := by
    have hnone := h (.app ⟨0, false, []⟩) Step.noConfusion
    simp only [next, Option.map_eq_none_iff] at hnone
    cases hpc : s.app <;> rw [hpc] at hnone <;> simp only [appStep] at hnone <;>
      first | rfl | (repeat' split at hnone) <;> cases hnone
  have hpktio : s.pktio.ended = true := by
    have hnone := h (.pktio ⟨0, false, []⟩) Step.noConfusion
    simp only [next, Option.map_eq_none_iff] at hnone
    cases hpc : s.pktio <;> rw [hpc] at hnone <;> simp only [pktioStep] at hnone <;>
      first | rfl | (repeat' split at hnone) <;> cases hnone
  have hmain : s.main = .ended := by
    have hnone := h (.main ⟨0, false, []⟩) Step.noConfusion
    simp only [next, Option.map_eq_none_iff] at hnone
    cases hpc : s.main <;> simp only [mainStep, hpc, happ, hpktio, and_self, if_true] at hnone <;>
      first | rfl | (repeat' split at hnone) <;> cases hnone
  exact ⟨hmain, happ, hpktio⟩

/-- `run_client_single` has left, no other thread is there to tell `main`. -/
structure Alone (s : Perf) : Prop where
  app : s.app = .leftOnRxError
  pktio : s.pktio = .absent
  exit : s.gbl.exitThreads = false
  main : s.main.inStats = true

theorem alone_next (ha : Alone s) (hl : l ≠ .sigint) (h : next cfg s l = some s') : Alone s' := by
  obtain ⟨a, pc, e, -, hstep, rfl⟩ | ⟨a, pc, e, -, hstep, rfl⟩ | ⟨a, pc, e, -, hstep, rfl⟩ |
    ⟨rfl, -⟩ := next_cases h
  · -- in the loop of `print_global_stats`, which ends with the flag only
    have hmain := ha.main
    cases hm : s.main <;> rw [hm] at hmain <;> cases hmain
    all_goals
      simp only [mainStep, hm, ha.exit, Bool.false_eq_true, if_false] at hstep
      (repeat' split at hstep) <;> cases hstep <;> exact ⟨ha.app, ha.pktio, ha.exit, rfl⟩
  · rw [ha.app] at hstep
    cases hstep
  · rw [ha.pktio] at hstep
    cases hstep
  · exact absurd rfl hl

/-- **The threads of tcpperf end together.** When one has ended, `exit_threads` is set; from then on
    the threads have 34 steps at most, and never wait for each other. The one that ends without a
    word is `run_client_single` on a receive error, and then `main` prints statistics until a signal
    comes. -/
theorem tcpperf_shuts_down (cfg : Setting) {s : Perf} (h : Reach (next cfg) anyStep start s) :
    (s.app = .done ∨ s.pktio = .done → s.gbl.exitThreads = true) ∧
    (s.gbl.exitThreads = true → ∀ ls s', .sigint ∉ ls → run (next cfg) s ls = some s' →
      ls.length ≤ 34 ∧ ((∀ l, l ≠ .sigint → next cfg s' l = none) → s'.Ended)) ∧
    (s.app = .leftOnRxError → (cfg.mode = .client ∧ cfg.singleThread = true) ∧
      (s.gbl.exitThreads = false → ∀ ls s', .sigint ∉ ls → run (next cfg) s ls = some s' →
        s'.main.inStats = true)) := by
  have hc := control_of_reach h
  have hno {ls : List Step} (hl : .sigint ∉ ls) : ∀ l ∈ ls, l ≠ .sigint :=
    fun l hm he => hl (he ▸ hm)
  refine ⟨fun hd => hd.elim hc.toldByApp hc.toldByPktio, fun hexit ls s' hl hrun => ?_,
    fun hleft => ⟨hc.left hleft, fun hexit ls s' hl hrun => ?_⟩⟩
  · have hbound : ls.length + s'.rank ≤ s.rank := by
      refine run_length_le (fun t l t' (ht : Control cfg t ∧ t.gbl.exitThreads = true) hl hs => ?_)
        ⟨hc, hexit⟩ (hno hl) hrun
      obtain ⟨hexit', hless⟩ := next_rank ht.1 ht.2 hl hs
      exact ⟨⟨control_next ht.1 hs, hexit'⟩, hless⟩
    have hle := rank_le s
    exact ⟨by omega, ended_of_stuck⟩
  · have hsingle := (hc.left hleft).2
    have hpktio : s.pktio = .absent := by
      refine Decidable.byContradiction fun hp => ?_
      rw [hc.single hp] at hsingle
      cases hsingle
    have hmain : s.main.inStats = true := by
      refine Bool.not_eq_false _ ▸ fun hm => ?_
      rw [hc.toldMain (by rw [hleft]; exact AppPc.noConfusion) hm] at hexit
      cases hexit
    have halone : Alone s' := run_inv (fun _ _ _ ha hl hs => alone_next ha hl hs)
      ⟨hleft, hpktio, hexit, hmain⟩ (hno hl) hrun
    exact halone.main

/-- An answer with this result. -/
def ret (n : Int) : Answer := ⟨n, false, []⟩

/-- A client in a single thread connects, and the first receive fails. -/
def brokenRun : List Step :=
  [.main (ret 3), .main (ret 1), .main (ret 0), .main (ret 1), .app (ret 0), .app (ret 0),
    .app (ret 2), .app (ret 1), .app (ret 0), .app (ret 0), .app (ret 0), .app (ret (-1))]

/-- `main` then goes round and round. -/
theorem tcpperf_shuts_down_broken :
    ∃ s, Reach (next ⟨.client, true, false⟩) anyStep start s ∧
      (s.app = .leftOnRxError ∧ s.gbl.exitThreads = false) ∧
      ∀ ls s', .sigint ∉ ls → run (next ⟨.client, true, false⟩) s ls = some s' →
        s'.main.inStats = true := by
  have hrun : (run (next ⟨.client, true, false⟩) start brokenRun).any (fun s =>
      decide (s.app = .leftOnRxError ∧ s.gbl.exitThreads = false)) = true := by decide
  obtain ⟨s, hs, hp⟩ := Reach.of_run_any hrun
  have hleft := of_decide_eq_true hp
  exact ⟨s, hs, hleft, ((tcpperf_shuts_down _ hs).2.2 hleft.1).2 hleft.2⟩

end Shutdown

end Nfp.Tcpperf.Threads
