/-
  File:      Nfp/Mains/Examples.lean
  Subject:   `main` OF THE EXAMPLES, every path of it: fpm, webserver, udpecho, multicast,
             ioctl_test (workers created at once from a cpumask), fpm_direct, fpm_power,
             webserver2, udp_fwd_socket (workers created one by one) and multiprocess (workers are
             processes). The `main`s of udp_term_socket and classifier are in `Term.Shutdown`, that
             of tcpperf in `Tcpperf.Threads`, the constructor of netwrap_proc in
             `NetwrapProc.Lifecycle`.

  A call that can fail is a question to the environment; `n` is `num_workers`. `Exit` is the place
  where `main` ends; `Example.left` and `Example.faults` say what is still held there and what went
  wrong on the way, and `mains_unwind` that they say it exactly.
-/
import Nfp.Mains.World

namespace Nfp.Mains

open Nfp.Lib Nfp.Lib.Cmd

/-- Where a `main` ends: at the call that failed; after the workers were joined in the end, with
    its service or without (and then whether the service had got its socket); as a child process.
    `usage` is an `exit` inside `parse_args`, behind an option that has stored the interfaces;
    `queues onTheSpot` is the check of the input queues, which some programs answer with `exit`;
    `noAddress` is the test of multiprocess without a local address to bind to, and the argument
    of `childFailed` says that a child got there. -/
inductive Exit where
  | sigaction
  | parse
  | usage
  | nfpInitialize
  | cores
  | interfaces
  | queues (onTheSpot : Bool)
  | threads
  | dispatcher
  | addresses
  | cli
  | service
  | served
  | servedWithout (opened : Bool)
  | noAddress
  | child
  | childFailed (noAddress : Bool)
  deriving DecidableEq, Repr

/-! ## The parts of the `main`s -/

/-- `parse_args`. It frees the interfaces it has stored when it fails; where `onTheSpot`, it may
    instead end the process itself with them stored. -/
def parseArgs (onTheSpot : Bool) : Cmd Act (Option Exit) := do
  if ← fails then
    if onTheSpot then
      if ← fails then
        perform (.acquire .args)
        return some .usage
    return some .parse
  perform (.acquire .args)
  return none

/-- `nfpexpl_sigaction_set`, `parse_args` and `nfp_initialize`. -/
def setUp (onTheSpot : Bool) : Cmd Act (Option Exit) := do
  if ← fails then return some .sigaction
  if let some x ← parseArgs onTheSpot then return some x
  if ← fails then
    perform (.release .args)
    return some .nfpInitialize
  perform (.acquire .nfp)
  return none

/-- `nfp_stop_processing`, the joins, `nfp_terminate` and `parse_args_cleanup`. -/
def giveUp (joins : Cmd Act Unit) (x : Exit) : Cmd Act Exit := do
  perform .stop
  joins
  terminate
  return x

/-- From the cpumask to the CLI file, where the workers are created at once: the end of `main`, or
    `none` with the workers running. -/
def workersFromCpumask (n : Nat) : Cmd Act (Option Exit) := do
  if ← fails then
    terminate
    return some .cores
  let k ← threadCreate n
  if k ≠ n then
    return some (← giveUp (if k ≠ -1 then joinWorkers k.toNat else pure ()) .threads)
  if ← fails then return some (← giveUp (joinWorkers n) .addresses)
  if ← fails then return some (← giveUp (joinWorkers n) .cli)
  return none

/-- `main` of fpm; `perfStat` is the option `-p`. -/
def fpmMain (perfStat : Bool) (n : Nat) : Cmd Act Exit := do
  if let some x ← setUp false then return x
  if let some x ← workersFromCpumask n then return x
  if perfStat then
    if ← fails then return ← giveUp (joinWorkers n) .service
    perform (.acquire .service)
  joinWorkers n
  if perfStat then perform (.release .service)
  terminate
  return .served

/-- `main` of webserver. -/
def webserverMain (n : Nat) : Cmd Act Exit := do
  if let some x ← setUp false then return x
  if let some x ← workersFromCpumask n then return x
  if ← fails then return ← giveUp (joinWorkers n) .service
  perform (.acquire .service)
  joinWorkers n
  perform (.release .service)
  terminate
  return .served

/-- `calls` calls on a socket, closed at the first one that fails. -/
def callsOrClose (r : Res) : Nat → Cmd Act Bool
  | 0 => return false
  | calls + 1 => do
      if ← fails then
        perform (.release r)
        return true
      callsOrClose r calls

/-- `udpecho_config`: whether it fails, and whether `udp_echo_cfg.sd` is a descriptor afterwards
    -- the failures after `nfp_socket` close it and leave it there. -/
def udpechoConfig : Cmd Act (Bool × Bool) := do
  if ← fails then return (true, false)
  perform (.acquire (.sock 0))
  return (← callsOrClose (.sock 0) 4, true)

/-- `udpecho_cleanup`. -/
def udpechoCleanup (sd : Bool) : Cmd Act Unit :=
  if sd then perform (.release (.sock 0)) else pure ()

/-- `main` of udpecho; its `parse_args` answers `-h` with `exit`. -/
def udpechoMain (n : Nat) : Cmd Act Exit := do
  if let some x ← setUp true then return x
  if let some x ← workersFromCpumask n then return x
  let (failed, sd) ← udpechoConfig
  if failed then perform .stop
  joinWorkers n
  udpechoCleanup sd
  terminate
  return if failed then .servedWithout sd else .served

/-- What `main` of multicast and of ioctl_test have in common: `parse_args` ends the process itself
    when it fails, nothing frees what it stored, the CLI file and the service thread are not
    checked. -/
def uncheckedMain (n : Nat) : Cmd Act Exit := do
  if let some x ← parseArgs true then return x
  if ← fails then return .nfpInitialize
  perform (.acquire .nfp)
  if ← fails then
    perform (.release .nfp)
    return .cores
  let k ← threadCreate n
  if k ≠ n then
    perform .stop
    if k ≠ -1 then joinWorkers k.toNat
    perform (.release .nfp)
    return .threads
  let noThread ← fails
  if !noThread then perform (.acquire .service)
  joinWorkers n
  perform (.release .service)
  perform (.release .nfp)
  return if noThread then .servedWithout false else .served

/-- `main` of multicast. -/
def multicastMain (n : Nat) : Cmd Act Exit := do
  if ← fails then return .sigaction
  uncheckedMain n

/-- `main` of ioctl_test, which sets no signal handler. -/
def ioctlTestMain (n : Nat) : Cmd Act Exit := uncheckedMain n

/-- The check of the input queues: `none` if it passes; otherwise the error path, or the `exit`
    that `Dispatch.Queues` calls `exited`, after `onTheSpot`. -/
def checkQueues (onTheSpot : Cmd Act Unit) : Cmd Act (Option Exit) := do
  match ← answer with
  | 0 => return none
  | 1 =>
      terminate
      return some (.queues false)
  | _ =>
      onTheSpot
      return some (.queues true)

/-- From the signal handler to the arguments of the workers, in fpm_direct and fpm_power. -/
def setUpDirect : Cmd Act (Option Exit) := do
  if let some x ← setUp false then return some x
  if ← fails then
    terminate
    return some .cores
  if ← fails then
    terminate
    return some .interfaces
  checkQueues (pure ())

/-- `main` of fpm_direct. -/
def fpmDirectMain (n : Nat) : Cmd Act Exit := do
  if let some x ← setUpDirect then return x
  if let some k ← createWorkers n then return ← giveUp (joinWorkers k) .threads
  if ← fails then return ← giveUp (joinWorkers n) .addresses
  if ← fails then return ← giveUp (joinWorkers n) .cli
  joinWorkers n
  terminate
  return .served

/-- The joins of the workers and of the thread for timer events. -/
def joinAll (n : Nat) : Cmd Act Unit := do
  joinWorkers n
  perform (.release .dispatcher)

/-- From the creation of the workers to the CLI file, where a thread for timer events is created
    after them. -/
def workersAndDispatcher (n : Nat) : Cmd Act (Option Exit) := do
  if let some k ← createWorkers n then return some (← giveUp (joinWorkers k) .threads)
  if ← fails then return some (← giveUp (joinWorkers n) .dispatcher)
  perform (.acquire .dispatcher)
  if ← fails then return some (← giveUp (joinAll n) .addresses)
  if ← fails then return some (← giveUp (joinAll n) .cli)
  return none

/-- `main` of fpm_power. -/
def fpmPowerMain (n : Nat) : Cmd Act Exit := do
  if let some x ← setUpDirect then return x
  if let some x ← workersAndDispatcher n then return x
  joinAll n
  terminate
  return .served

/-- `setup_webserver`: whether it fails, and whether it listens -- a failure of `nfp_bind` closes
    the socket and is no failure. -/
def setupWebserver : Cmd Act (Bool × Bool) := do
  if ← fails then return (true, false)
  perform (.acquire (.sock 0))
  if ← fails then
    perform (.release (.sock 0))
    return (true, false)
  if ← fails then
    perform (.release (.sock 0))
    return (false, false)
  return (false, true)

/-- `main` of webserver2 from the creation of the workers on. The workers that exist are joined only
    if there are any, which joining none comes to. -/
def webserver2Serve (n : Nat) : Cmd Act Exit := do
  if let some k ← createWorkers n then return ← giveUp (joinWorkers k) .threads
  if ← fails then return ← giveUp (joinWorkers n) .addresses
  if ← fails then return ← giveUp (joinWorkers n) .cli
  let (failed, listens) ← setupWebserver
  if failed then return ← giveUp (joinWorkers n) .service
  joinWorkers n
  terminate
  return if listens then .served else .servedWithout true

/-- `main` of webserver2; `direct` is the mode in which the workers poll queues. -/
def webserver2Main (direct : Bool) (n : Nat) : Cmd Act Exit := do
  if let some x ← setUp false then return x
  if ← fails then
    terminate
    return .cores
  if ← fails then
    terminate
    return .interfaces
  if direct then
    if ← fails then
      terminate
      return .queues false
  webserver2Serve n

/-- `create_local_sock`: whether it fails. -/
def createLocalSock (i : Nat) : Cmd Act Bool := do
  if ← fails then return true
  perform (.acquire (.sock i))
  callsOrClose (.sock i) 2

/-- The globals of udp_fwd_socket.c after `udp_fwd_cfg`: `sock_array_size`, and which of
    `sock_array` and `raddr` are there. -/
structure Fwd where
  failed : Bool
  size : Nat
  array : Bool
  raddr : Bool

/-- `udp_fwd_cfg`. -/
def udpFwdCfg (sockCount : Nat) : Cmd Act Fwd := do
  if ← fails then return ⟨true, 0, false, false⟩
  perform (.acquire .sockArray)
  let stopped ← times (fun i => do
    if ← createLocalSock i then return some i
    return none) 0 sockCount
  if let some k := stopped then return ⟨true, k, true, false⟩
  if ← fails then return ⟨true, sockCount, true, false⟩
  perform (.acquire .raddr)
  return ⟨false, sockCount, true, true⟩

/-- The loop of `udp_fwd_cleanup` over `sock_array`. -/
def closeSocks (size : Nat) : Cmd Act (Option Unit) :=
  times (fun i => do
    perform (.release (.sock i))
    return none) 0 size

/-- `udp_fwd_cleanup`. -/
def udpFwdCleanup (g : Fwd) : Cmd Act Unit := do
  if g.raddr then perform (.release .raddr)
  let _ ← closeSocks g.size
  if g.array then perform (.release .sockArray)

/-- `main` of udp_fwd_socket. -/
def udpFwdMain (sockCount : Nat) (n : Nat) : Cmd Act Exit := do
  if let some x ← setUp false then return x
  if n < 1 then
    terminate
    return .cores
  if let some x ← checkQueues (perform (.release .args)) then return x
  if let some x ← workersAndDispatcher n then return x
  let g ← udpFwdCfg sockCount
  if g.failed then perform .stop
  joinAll n
  udpFwdCleanup g
  terminate
  return if g.failed then .servedWithout true else .served

/-- `RETRY_MAX` of multiprocess. -/
def retryMax : Nat := 10

/-- The `do … while` around `nfp_bind` in `udp_test` and `tcp_test`: whether every call failed. -/
def bindRetry : Cmd Act Bool := do
  let bound ← times (fun _ => do
    if ← fails then return none
    return some ()) 0 retryMax
  return bound.isNone

/-- What `udp_test` and `tcp_test` begin with; `laddr` is the option `-l`. `none` if the socket is
    bound; otherwise whether it is left open, which it is where the local address has to be looked
    up and is not found. -/
def boundSocket (laddr : Bool) : Cmd Act (Option Bool) := do
  if ← fails then return some false
  perform (.acquire (.sock 0))
  if !laddr then
    if ← fails then return some true
    if ← fails then return some true
  if ← bindRetry then
    perform (.release (.sock 0))
    return some false
  return none

/-- `udp_test`: whether it leaves its socket open. -/
def udpTest (laddr : Bool) (recvCount : Nat) : Cmd Act Bool := do
  if let some unclosed ← boundSocket laddr then return unclosed
  let _ ← times (fun _ => do
    if ← fails then return some ()
    return none) 0 recvCount
  perform (.release (.sock 0))
  return false

/-- The `do … while` of `tcp_test` around `nfp_recv`, an error or the end of the stream being zero
    bytes. `total` is `total_recv_size`, not wrapped: it would take 2^64 bytes. -/
def tcpReceive (recvCount : Nat) : (passes : Nat) → (total : Nat) → Cmd Act Unit
  | 0, _ => pure ()
  | passes + 1, total => do
      let size ← answer
      if size = 0 then return
      if total + size < recvCount then tcpReceive recvCount passes (total + size)

/-- `tcp_test`: whether it leaves its socket open. Every pass but the last brings a byte, so that
    `recvCount + 1` passes are enough (`tcpReceive_enough`). -/
def tcpTest (laddr : Bool) (recvCount : Nat) : Cmd Act Bool := do
  if let some unclosed ← boundSocket laddr then return unclosed
  if ← fails then
    perform (.release (.sock 0))
    return false
  if ← fails then
    perform (.release (.sock 0))
    return false
  perform (.acquire (.sock 1))
  tcpReceive recvCount (recvCount + 1) 0
  perform (.release (.sock 1))
  perform (.release (.sock 0))
  return false

/-- The command line of multiprocess, as far as its tests read it. -/
structure TestArgs where
  tcp : Bool
  laddr : Bool
  recvCount : Nat
  deriving DecidableEq, Repr

/-- The test `main` of multiprocess runs. -/
def TestArgs.test (a : TestArgs) : Cmd Act Bool :=
  if a.tcp then tcpTest a.laddr a.recvCount else udpTest a.laddr a.recvCount

/-- `main` of multiprocess. `nfp_process_fork_n` returns 1 to the parent, 0 to a child, -1 to a
    parent whose fork failed (then there is no child) and -2 to a child whose set-up failed; the
    last is not looked for. -/
def multiprocessMain (a : TestArgs) (n : Nat) : Cmd Act Exit := do
  if let some x ← setUp false then return x
  if ← fails then
    terminate
    return .cores
  let ret ← answer
  if ret = 2 then return ← giveUp (pure ()) .threads
  if ret = 0 then
    perform .child
    perform (.release .args)
    return .child
  if ret = 1 then perform (.create (List.range n)) else perform .child
  if ← fails then
    return ← giveUp (joinWorkers n) (if ret = 1 then .addresses else .childFailed false)
  if ← fails then return ← giveUp (joinWorkers n) (if ret = 1 then .cli else .childFailed false)
  let unclosed ← a.test
  giveUp (joinWorkers n)
    (if ret = 1 then (if unclosed then .noAddress else .served) else .childFailed unclosed)

/-! ## What is left, and what went wrong -/

/-- The `main`s with what the command line decides. -/
inductive Example where
  | fpm (perfStat : Bool)
  | webserver
  | udpecho
  | multicast
  | ioctlTest
  | fpmDirect
  | fpmPower
  | webserver2 (direct : Bool)
  | udpFwd (sockCount : Nat)
  | multiprocess (a : TestArgs)
  deriving DecidableEq, Repr

def Example.main : Example → Nat → Cmd Act Exit
  | .fpm perfStat => fpmMain perfStat
  | .webserver => webserverMain
  | .udpecho => udpechoMain
  | .multicast => multicastMain
  | .ioctlTest => ioctlTestMain
  | .fpmDirect => fpmDirectMain
  | .fpmPower => fpmPowerMain
  | .webserver2 direct => webserver2Main direct
  | .udpFwd sockCount => udpFwdMain sockCount
  | .multiprocess a => multiprocessMain a

/-- **What a `main` still holds at its end**: multicast and ioctl_test never free their arguments;
    an `exit` inside `parse_args` leaves what it has stored; an `exit` in the check of the queues
    leaves NFP up, and in fpm_direct and fpm_power the arguments as well; webserver2 does not close
    the socket it listens on, nor multiprocess the one it has no address for. -/
def Example.left : Example → Exit → List Res
  | .multicast, .sigaction => []
  | .multicast, .parse => []
  | .multicast, _ => [.args]
  | .ioctlTest, .parse => []
  | .ioctlTest, _ => [.args]
  | .udpecho, .usage => [.args]
  | .fpmDirect, .queues true => [.args, .nfp]
  | .fpmPower, .queues true => [.args, .nfp]
  | .udpFwd _, .queues true => [.nfp]
  | .webserver2 _, .served => [.sock 0]
  | .multiprocess _, .noAddress => [.sock 0]
  | .multiprocess _, .childFailed true => [.sock 0]
  | _, _ => []

/-- **What went wrong on the way**: udpecho closes its socket twice when `udpecho_config` fails with
    it open; multicast and ioctl_test join their thread though it was never created; a child of
    multiprocess whose set-up failed goes on as if it were the parent, waits for children it does
    not have and terminates NFP. -/
def Example.faults : Example → Nat → Exit → List Fault
  | .udpecho, _, .servedWithout true => [.notHeld (.sock 0)]
  | .multicast, _, .servedWithout _ => [.notHeld .service]
  | .ioctlTest, _, .servedWithout _ => [.notHeld .service]
  | .multiprocess _, n, .childFailed _ => (List.range n).map .notRunning ++ [.notHeld .nfp]
  | _, _, _ => []

/-- `main` ends before it waits for its workers. -/
def Exit.early : Exit → Bool
  | .served => false
  | .servedWithout _ => false
  | _ => true

/-- **The end of a `main`**: what is held and what went wrong is what the tables say, no entry of
    `thread_tbl` runs, and a `main` that ends early waited for no thread it had not told to stop. -/
structure Example.Ends (e : Example) (n : Nat) (w : World) (x : Exit) : Prop where
  held : w.held = e.left x
  workers : w.workers = []
  faults : w.faults = e.faults n x
  waited : x.early = true → w.waited = false

end Nfp.Mains
