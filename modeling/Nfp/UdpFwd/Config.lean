/-
  File:      Nfp/UdpFwd/Config.lean
  Subject:   THE CONFIGURATION OF THE UDP FORWARDER while its workers run: `udp_fwd_cfg`,
             `create_local_sock` and `notify` of example/udp_fwd_socket/udp_fwd_socket.c. `main`
             (app_main.c) starts the workers first and calls `udp_fwd_cfg` then.

  `udp_fwd_cfg` registers `notify` on each socket as it creates it, and allocates and fills the
  remote address `raddr` only after the last of them; `notify` sends to `*raddr` without looking at
  it. The machine `next` interleaves the calls and assignments of `udp_fwd_cfg` with invocations of
  `notify` on registered sockets by any number of workers.

  * `cfgStep_placed` -- what `raddr` is at every point of `udp_fwd_cfg`: filled in only once it has
    returned 0 (`raddrAt_filled_iff`);
  * **`udpFwdCfg_ready`** -- so a run is safe as long as `notify` is called after that only, and
    every earlier call breaks it;
  * `udpFwdCfg_exposed` -- with any number of sockets there is such a call.
-/
import Mathlib.Data.List.Basic
import Nfp.Lib.Run

namespace Nfp.UdpFwd

open Nfp.Lib

/-- `struct nfp_sockaddr_in`; a field without a value holds what `malloc` left in it. The port is
    the number that is stored in network order. -/
structure SockaddrIn where
  len : Option Nat
  family : Option Nat
  port : Option Nat
  addr : Option UInt32
  deriving DecidableEq, Repr

/-- `NFP_AF_INET`. -/
def nfpAfInet : Nat := 2

/-- `sizeof(struct nfp_sockaddr_in)`. -/
def sizeofSockaddrIn : Nat := 16

/-- `TEST_LPORT`. -/
def testLport : Nat := 5001

/-- `TEST_RPORT`. -/
def testRport : Nat := 5000

/-- The arguments of `udp_fwd_cfg`; the addresses as `inet_addr` reads them. -/
structure Config where
  sockCount : Int
  laddr : UInt32
  raddr : UInt32

/-- Where `udp_fwd_cfg` is: before the call or the assignment named. `loop` is the head of the
    `for` loop, `close` the way out of a `create_local_sock` that fails. -/
inductive Pc where
  | mallocArray
  | loop (portIdx : Nat)
  | bind (portIdx : Nat) (sd : Int)
  | sigevent (portIdx : Nat) (sd : Int)
  | close (sd : Int)
  | memset
  | family
  | port
  | addr
  | len
  | returned (ret : Int)
  deriving DecidableEq, Repr

/-- **The state**: `sock_array`, the sockets with their local addresses, those on which `notify` is
    registered, `raddr` (`none` for NULL), and the sockets of the invocations of `notify` under
    way. -/
structure State where
  pc : Pc
  sockArray : List Int
  bound : List (Int × SockaddrIn)
  registered : List Int
  raddr : Option SockaddrIn
  active : List Int
  deriving DecidableEq, Repr

/-- `udp_fwd_cfg` is called. -/
def State.start : State := ⟨.mallocArray, [], [], [], none, []⟩

/-- A step: a call of `udp_fwd_cfg` with its result, an assignment of it (`go`), or a worker that
    enters or leaves `notify`. -/
inductive Label where
  | malloc (ok : Bool)
  | socket (sd : Int)
  | bind (ok : Bool)
  | sigevent (ok : Bool)
  | go
  | enter (sd : Int)
  | leave (sd : Int)
  deriving DecidableEq, Repr

/-- The local address of the socket number `portIdx`. -/
def localAddr (c : Config) (portIdx : Nat) : SockaddrIn :=
  ⟨some sizeofSockaddrIn, some nfpAfInet, some ((testLport + portIdx) % 0x10000), some c.laddr⟩

/-- The remote address, filled in. -/
def filled (c : Config) : SockaddrIn :=
  ⟨some sizeofSockaddrIn, some nfpAfInet, some testRport, some c.raddr⟩

/-- `memset(raddr, 0, sizeof(*raddr))`. -/
def zeroed : SockaddrIn := ⟨some 0, some 0, some 0, some 0⟩

/-- **`udp_fwd_cfg`** and `create_local_sock`. -/
def cfgStep (c : Config) (s : State) (l : Label) : Option State :=
  match s.pc, l with
  | .mallocArray, .malloc ok => some { s with pc := if ok then .loop 0 else .returned (-1) }
  | .loop portIdx, .socket sd =>
      if portIdx < c.sockCount then
        some { s with pc := if sd < 0 then .returned (-1) else .bind portIdx sd }
      else none
  | .bind portIdx sd, .bind true =>
      some { s with pc := .sigevent portIdx sd, bound := s.bound ++ [(sd, localAddr c portIdx)] }
  | .bind _ sd, .bind false => some { s with pc := .close sd }
  | .sigevent portIdx sd, .sigevent true =>
      some { s with
        pc := .loop (portIdx + 1)
        registered := s.registered ++ [sd]
        sockArray := s.sockArray ++ [sd] }
  | .sigevent _ sd, .sigevent false => some { s with pc := .close sd }
  | .close _, .go => some { s with pc := .returned (-1) }
  | .loop portIdx, .malloc ok =>
      if portIdx < c.sockCount then none
      else if ok then some { s with pc := .memset, raddr := some ⟨none, none, none, none⟩ }
      else some { s with pc := .returned (-1) }
  | .memset, .go => some { s with pc := .family, raddr := some zeroed }
  | .family, .go =>
      some { s with pc := .port, raddr := s.raddr.map fun a => { a with family := some nfpAfInet } }
  | .port, .go =>
      some { s with pc := .addr, raddr := s.raddr.map fun a => { a with port := some testRport } }
  | .addr, .go =>
      some { s with pc := .len, raddr := s.raddr.map fun a => { a with addr := some c.raddr } }
  | .len, .go =>
      some { s with
        pc := .returned 0
        raddr := s.raddr.map fun a => { a with len := some sizeofSockaddrIn } }
  | _, _ => none

/-- **The forwarder**: `notify` is invoked on any socket it is registered on. -/
def next (c : Config) (s : State) (l : Label) : Option State :=
  match l with
  | .enter sd => if sd ∈ s.registered then some { s with active := sd :: s.active } else none
  | .leave sd => if sd ∈ s.active then some { s with active := s.active.erase sd } else none
  | l => cfgStep c s l

/-- **`notify` finds `raddr` ready**: none is under way while it is NULL or not filled in. -/
def Ready (c : Config) (s : State) : Prop := s.active ≠ [] → s.raddr = some (filled c)

/-- **The callback in time**: `notify` is invoked after `udp_fwd_cfg` has returned 0 only. -/
def Timely (s : State) : Label → Prop
  | .enter _ => s.pc = .returned 0
  | _ => True

instance (s : State) : ∀ l, Decidable (Timely s l)
  | .enter _ => inferInstanceAs (Decidable (_ = _))
  | .malloc _ | .socket _ | .bind _ | .sigevent _ | .go | .leave _ => isTrue trivial

/-! ## What `raddr` is -/

/-- What `raddr` is at each point of `udp_fwd_cfg`. -/
def raddrAt (c : Config) : Pc → Option SockaddrIn
  | .memset => some ⟨none, none, none, none⟩
  | .family => some zeroed
  | .port => some { zeroed with family := some nfpAfInet }
  | .addr => some { zeroed with family := some nfpAfInet, port := some testRport }
  | .len => some { filled c with len := some 0 }
  | .returned ret => if ret = 0 then some (filled c) else none
  | _ => none

/-- It is filled in at the very end only. -/
theorem raddrAt_filled_iff (c : Config) (pc : Pc) :
    raddrAt c pc = some (filled c) ↔ pc = .returned 0 := by
  cases pc with
  | returned ret =>
      by_cases hret : ret = 0
      · subst hret
        exact ⟨fun _ => rfl, fun _ => rfl⟩
      · simp [raddrAt, hret]
  | _ => simp [raddrAt, filled, zeroed, sizeofSockaddrIn]

section Placed

variable {c : Config} {s s' : State} {pc : Pc}

/-- What a step of `udp_fwd_cfg` keeps: `raddr` is what the point in it says, and `notify` is left
    alone; once `udp_fwd_cfg` has returned 0 there is no step. -/
structure Placed (c : Config) (s s' : State) : Prop where
  raddr : s'.raddr = raddrAt c s'.pc
  active : s'.active = s.active
  running : s.pc ≠ .returned 0

/-- A step with `raddr` NULL before and after it. -/
theorem placed_null (hs : s.raddr = raddrAt c s.pc) (hpc : s.pc = pc) (hrunning : pc ≠ .returned 0)
    (hraddr : s'.raddr = s.raddr) (hbefore : raddrAt c pc = none) (hafter : raddrAt c s'.pc = none)
    (hactive : s'.active = s.active) : Placed c s s' := by
  refine ⟨?_, hactive, hpc ▸ hrunning⟩
  rw [hraddr, hs, hpc, hbefore, hafter]

/-- An assignment to a field of it. -/
theorem placed_field (hs : s.raddr = raddrAt c s.pc) (hpc : s.pc = pc)
    (hrunning : pc ≠ .returned 0) {f : SockaddrIn → SockaddrIn} (hraddr : s'.raddr = s.raddr.map f)
    (hafter : (raddrAt c pc).map f = raddrAt c s'.pc) (hactive : s'.active = s.active) :
    Placed c s s' := by
  refine ⟨?_, hactive, hpc ▸ hrunning⟩
  rw [hraddr, hs, hpc, hafter]

theorem cfgStep_placed {l : Label} (hs : s.raddr = raddrAt c s.pc)
    (h : cfgStep c s l = some s') : Placed c s s' := by
  unfold cfgStep at h
  split at h
  · rename_i ok hpc
    cases h
    exact placed_null hs hpc nofun rfl rfl (by cases ok <;> rfl) rfl
  · rename_i portIdx sd hpc
    split at h
    · cases h
      exact placed_null hs hpc nofun rfl rfl (by dsimp only; split <;> rfl) rfl
    · cases h
  · rename_i hpc
    cases h
    exact placed_null hs hpc nofun rfl rfl rfl rfl
  · rename_i hpc
    cases h
    exact placed_null hs hpc nofun rfl rfl rfl rfl
  · rename_i hpc
    cases h
    exact placed_null hs hpc nofun rfl rfl rfl rfl
  · rename_i hpc
    cases h
    exact placed_null hs hpc nofun rfl rfl rfl rfl
  · rename_i hpc
    cases h
    exact placed_null hs hpc nofun rfl rfl rfl rfl
  · rename_i ok hpc
    split at h
    · cases h
    · split at h
      · cases h
        exact ⟨rfl, rfl, hpc ▸ nofun⟩
      · cases h
        exact placed_null hs hpc nofun rfl rfl rfl rfl
  · rename_i hpc
    cases h
    exact ⟨rfl, rfl, hpc ▸ nofun⟩
  · rename_i hpc
    cases h
    exact placed_field hs hpc nofun rfl rfl rfl
  · rename_i hpc
    cases h
    exact placed_field hs hpc nofun rfl rfl rfl
  · rename_i hpc
    cases h
    exact placed_field hs hpc nofun rfl rfl rfl
  · rename_i hpc
    cases h
    exact placed_field hs hpc nofun rfl rfl rfl
  · cases h

end Placed

/-! ## Every run -/

/-- **The run invariant**: `raddr` is what the point in `udp_fwd_cfg` says, and `notify` is under way
    after its end only. -/
structure Inv (c : Config) (s : State) : Prop where
  placed : s.raddr = raddrAt c s.pc
  late : s.active ≠ [] → s.pc = .returned 0

section Runs

variable {c : Config} {s s' : State} {l : Label}

theorem Inv.ready (h : Inv c s) : Ready c s := by
  intro hactive
  rw [h.placed, raddrAt_filled_iff]
  exact h.late hactive

/-- A worker that enters `notify` finds `raddr` ready just if `udp_fwd_cfg` has returned 0. -/
theorem enter_ready_iff (h : Inv c s) {sd : Int} (hnext : next c s (.enter sd) = some s') :
    Ready c s' ↔ s.pc = .returned 0 := by
  simp only [next] at hnext
  split at hnext
  · cases hnext
    rw [← raddrAt_filled_iff c, ← h.placed]
    exact ⟨fun hready => hready (List.cons_ne_nil _ _), fun hraddr _ => hraddr⟩
  · cases hnext

/-- **One step**: if `notify` is invoked in time, the invariant stays. -/
theorem Inv.next (h : Inv c s) (htime : Timely s l) (hnext : next c s l = some s') : Inv c s' := by
  have hcfg : cfgStep c s l = some s' → Inv c s' := by
    intro hstep
    obtain ⟨hplaced, hactive, hpc⟩ := cfgStep_placed h.placed hstep
    refine ⟨hplaced, fun hne => ?_⟩
    rw [hactive] at hne
    exact absurd (h.late hne) hpc
  cases l with
  | enter sd =>
      simp only [UdpFwd.next] at hnext
      split at hnext
      · cases hnext
        exact ⟨h.placed, fun _ => htime⟩
      · cases hnext
  | leave sd =>
      simp only [UdpFwd.next] at hnext
      split at hnext
      · rename_i hmem
        cases hnext
        exact ⟨h.placed, fun _ => h.late (List.ne_nil_of_mem hmem)⟩
      · cases hnext
  | malloc ok => exact hcfg hnext
  | socket sd => exact hcfg hnext
  | bind ok => exact hcfg hnext
  | sigevent ok => exact hcfg hnext
  | go => exact hcfg hnext

/-- **Every run in which `notify` is invoked in time is safe**: none is under way while `raddr` is
    NULL or not filled in. From any state of it, every step keeps to that just if it is in time. -/
theorem udpFwdCfg_ready (h : Reach (next c) Timely .start s) :
    Ready c s ∧ ∀ l s', next c s l = some s' → (Ready c s' ↔ Timely s l) := by
  have hinv : Inv c s := by
    refine h.inv ⟨rfl, fun hne => absurd rfl hne⟩ fun t l t' ht htime hnext => ?_
    exact ht.next htime hnext
  refine ⟨hinv.ready, fun l s' hnext => ⟨fun hready => ?_, fun htime => ?_⟩⟩
  · cases l with
    | enter sd => exact (enter_ready_iff hinv hnext).mp hready
    | _ => trivial
  · exact (hinv.next htime hnext).ready

end Runs

/-- One socket, configured to the end; then its callback is called. -/
theorem udpFwdCfg_ready_one_socket :
    ∃ s, Reach (next ⟨1, 1, 2⟩) Timely .start s ∧ Ready ⟨1, 1, 2⟩ s ∧ s.active = [7] := by
  have hrun : (run (restrict (next ⟨1, 1, 2⟩) Timely) .start [.malloc true, .socket 7, .bind true,
      .sigevent true, .malloc true, .go, .go, .go, .go, .go, .enter 7]).any
        (fun s => s.active == [7]) = true := by decide
  obtain ⟨s, hs, hactive⟩ := Reach.of_run_any hrun
  exact ⟨s, hs.of_restrict, (udpFwdCfg_ready hs.of_restrict).1, by simpa using hactive⟩

/-- **With any number of sockets there is a datagram too early**: it comes in on the first of them
    while `raddr` is NULL. -/
theorem udpFwdCfg_exposed (c : Config) (hcount : 0 < c.sockCount) :
    ∃ s, Reach (next c) anyStep .start s ∧ s.active = [7] ∧ s.raddr = none := by
  have hrun : run (next c) .start
      [.malloc true, .socket 7, .bind true, .sigevent true, .enter 7] =
        some ⟨.loop 1, [7], [(7, localAddr c 0)], [7], none, [7]⟩ := by
    simp [run, next, cfgStep, State.start, hcount]
  exact ⟨_, .of_run hrun, rfl, rfl⟩

/-- A datagram between the registration of the only socket and the allocation of `raddr`. -/
theorem early_datagram_finds_no_address :
    ∃ s, Reach (next ⟨1, 1, 2⟩) anyStep .start s ∧ ¬ Ready ⟨1, 1, 2⟩ s ∧ s.raddr = none := by
  have hrun : (run (next ⟨1, 1, 2⟩) .start
      [.malloc true, .socket 7, .bind true, .sigevent true, .enter 7]).any
        (fun s => s.active == [7] && s.raddr == none) = true := by decide
  obtain ⟨s, hs, htest⟩ := Reach.of_run_any hrun
  obtain ⟨hactive, hraddr⟩ : s.active = [7] ∧ s.raddr = none := by simpa using htest
  refine ⟨s, hs, fun hready => ?_, hraddr⟩
  have hfilled := hready (by rw [hactive]; exact List.cons_ne_nil _ _)
  rw [hraddr] at hfilled
  cases hfilled

end Nfp.UdpFwd
