/-
  File:      Nfp/Netwrap/Common.lean
  Subject:   WHAT THE WRAPPERS OF example/netwrap_crt SHARE: the overloaded calls of libc, the calls
             a wrapper makes to either stack, `IS_NFP_SOCKET`, `LIBC_FUNCTION`, `NETWRAP_ERRNO`
             and the constructor `setup_wrappers`.

  A wrapper is a function of the globals, its arguments and the answers of the stack calls it
  makes; what it did is the log of those calls, with their results, and how it ended (`Ran`).
  Which stack a call goes to, and with which descriptors, is read off the log (`Presented`).

  * `side` -- the stack `IS_NFP_SOCKET` assigns to a descriptor number;
  * `Routed` -- a descriptor went to its own side; `route_routed` -- so it is in every wrapper
    that tests one descriptor and then calls one stack with it.
-/
import Mathlib.Data.Finset.Basic
import Nfp.Lib.Run

namespace Nfp.Netwrap

/-- The two stacks. -/
inductive Stack where
  | kernel
  | nfp
  deriving DecidableEq, Repr

/-- `nfp_global_params.socket`, whose descriptors fit an `int`. -/
structure SocketParams where
  numMax : Nat
  sdOffset : Nat
  fits : sdOffset + numMax ≤ 0x80000000

/-- The `libc_*` pointers. `sendfile64` has a `libc_read` of its own. -/
inductive LibcFn where
  | socket | shutdown | close | bind | accept | accept4 | listen | connect
  | read | write | recv | send
  | setsockopt | getsockopt | ioctl
  | fork | vfork
  | writev | sendfile64 | sendfileRead | select
  | epollCreate | epollCtl | epollWait
  deriving DecidableEq, Repr

/-- The globals of netwrap_crt: the parameters, `netwrap_constructor_called`,
    `setup_epoll_wrappers_called`, and which `libc_*` pointers are set. -/
structure Globals where
  params : SocketParams
  constructorCalled : Bool
  epollSetup : Bool
  loaded : LibcFn → Bool

/-- `IS_NFP_SOCKET`. -/
def isNfpSocket (g : Globals) (fd : Int) : Bool :=
  g.constructorCalled && decide (fd ≥ g.params.sdOffset)

/-- The stack a descriptor number is taken to belong to. -/
def side (g : Globals) (fd : Int) : Stack := if isNfpSocket g fd then .nfp else .kernel

/-! ## Addresses, options, sets, events -/

/-- A Linux socket address, read through its family; of another family than the two, the six
    bytes in which `sockaddr_in` has port and address. -/
inductive Sockaddr where
  | inet (port : UInt16) (addr : UInt32)
  | inet6 (port : UInt16) (flowinfo : UInt32) (addr : BitVec 128) (scopeId : UInt32)
  | other (family : UInt16) (port : UInt16) (addr : UInt32)
  deriving DecidableEq, Repr

/-- An NFP socket address, with its length byte. -/
inductive NfpSockaddr where
  | inet (len : UInt8) (port : UInt16) (addr : UInt32)
  | inet6 (len : UInt8) (port : UInt16) (flowinfo : UInt32) (addr : BitVec 128) (scopeId : UInt32)
  | other (family : UInt8)
  deriving DecidableEq, Repr

/-- `sizeof(struct sockaddr_in)`, the same in both stacks. -/
def sizeofSockaddrIn : Nat := 16

/-- `sizeof(struct sockaddr_in6)`, the same in both stacks. -/
def sizeofSockaddrIn6 : Nat := 28

/-- `struct timeval`. -/
structure Timeval where
  sec : Int
  usec : Int
  deriving DecidableEq, Repr

/-- `struct epoll_event` and `struct nfp_epoll_event`: the mask and `data.u64`. -/
structure EpollEvent where
  events : BitVec 32
  data : UInt64
  deriving DecidableEq, Repr

/-- A descriptor set, as the set of its members. -/
abbrev FdSet := Finset Int

/-- A `switch` that translates some values and passes the others through. -/
def translate (table : List (Int × Int)) (x : Int) : Int :=
  match table.find? fun e => e.1 = x with
  | some e => e.2
  | none => x

/-- `if (flags & a) nfp_flags |= b` for each pair of the table. -/
def translateFlags (table : List (Nat × Nat)) (flags : Nat) : Nat :=
  table.foldl (fun acc e => if flags &&& e.1 ≠ 0 then acc ||| e.2 else acc) 0

/-- The conversion to `nfp_size_t`, 32 bits wide. -/
def nfpSizeT (len : Nat) : Nat := len % 0x100000000

/-- The requests `ioctl` translates. -/
inductive NfpRequest where
  | fionread
  | fionbio
  | fioasync
  deriving DecidableEq, Repr

/-! ## The calls -/

/-- **The overloaded calls**, with their arguments; `none` is a NULL pointer. Of a buffer passed
    through only the length matters here; the buffers of `writev` are given. -/
inductive Call where
  | socket (domain type protocol : Int)
  | shutdown (sockfd how : Int)
  | close (sockfd : Int)
  | bind (sockfd : Int) (addr : Option Sockaddr) (addrlen : Nat)
  | accept (sockfd : Int) (addr : Bool) (addrlen : Option Nat)
  | accept4 (sockfd : Int) (addr : Bool) (addrlen : Option Nat) (flags : Nat)
  | listen (sockfd backlog : Int)
  | connect (sockfd : Int) (addr : Option Sockaddr) (addrlen : Nat)
  | read (sockfd : Int) (len : Nat)
  | write (sockfd : Int) (len : Nat)
  | recv (sockfd : Int) (len : Nat) (flags : Nat)
  | send (sockfd : Int) (len : Nat) (flags : Nat)
  | setsockopt (sockfd level optName : Int) (optVal : List UInt8)
  | getsockopt (sockfd level optName : Int) (optLen : Nat)
  | ioctl (fd : Int) (request : Nat)
  | writev (fd : Int) (iov : List (List UInt8))
  | sendfile64 (outFd inFd : Int) (offset : Option Int) (count : Nat)
  | select (nfds : Int) (readfds writefds exceptfds : Option FdSet) (timeout : Option Timeval)
  | epollCreate (size : Int)
  | epollCtl (epfd op fd : Int) (event : Option EpollEvent)
  | epollWait (epfd maxevents timeout : Int)
  deriving DecidableEq

/-- The members of a set below `nfds`. -/
def members (nfds : Int) : Option FdSet → Finset Int
  | none => ∅
  | some set => set.filter fun fd => 0 ≤ fd ∧ fd < nfds

/-- The descriptors a call is given. -/
def Call.descriptors : Call → Finset Int
  | .socket _ _ _ => ∅
  | .shutdown fd _ => {fd}
  | .close fd => {fd}
  | .bind fd _ _ => {fd}
  | .accept fd _ _ => {fd}
  | .accept4 fd _ _ _ => {fd}
  | .listen fd _ => {fd}
  | .connect fd _ _ => {fd}
  | .read fd _ => {fd}
  | .write fd _ => {fd}
  | .recv fd _ _ => {fd}
  | .send fd _ _ => {fd}
  | .setsockopt fd _ _ _ => {fd}
  | .getsockopt fd _ _ _ => {fd}
  | .ioctl fd _ => {fd}
  | .writev fd _ => {fd}
  | .sendfile64 outFd inFd _ _ => {outFd, inFd}
  | .select nfds readfds writefds exceptfds _ =>
      members nfds readfds ∪ members nfds writefds ∪ members nfds exceptfds
  | .epollCreate _ => ∅
  | .epollCtl epfd _ fd _ => {epfd, fd}
  | .epollWait epfd _ _ => {epfd}

/-- **The calls a wrapper makes**: the same call to libc, `lseek`, or a call of the NFP stack. -/
inductive StackCall where
  | libc (c : Call)
  | lseek (fd offset : Int) (fromStart : Bool)
  | nfpSocket (domain type protocol : Int)
  | nfpShutdown (fd how : Int)
  | nfpClose (fd : Int)
  | nfpBind (fd : Int) (addr : NfpSockaddr) (addrlen : Nat)
  | nfpAccept (fd : Int) (addr : Bool)
  | nfpListen (fd backlog : Int)
  | nfpConnect (fd : Int) (addr : NfpSockaddr) (addrlen : Nat)
  | nfpRecv (fd : Int) (len : Nat) (flags : Nat)
  | nfpSend (fd : Int) (len : Nat) (flags : Nat)
  | nfpSetsockopt (fd level optName : Int) (optVal : List UInt8)
  | nfpGetsockopt (fd level optName : Int) (optLen : Nat)
  | nfpIoctl (fd : Int) (request : NfpRequest)
  | nfpSelect (nfds : Int) (readfds : FdSet)
  | nfpEpollCreate (size : Int)
  | nfpEpollCtl (epfd op fd : Int) (event : EpollEvent)
  | nfpEpollWait (epfd maxevents timeout : Int)
  deriving DecidableEq

/-- The stack a call is made to. -/
def StackCall.stack : StackCall → Stack
  | .libc _ => .kernel
  | .lseek _ _ _ => .kernel
  | _ => .nfp

/-- The descriptors a stack is given in a call. -/
def StackCall.given : StackCall → Finset Int
  | .libc c => c.descriptors
  | .lseek fd _ _ => {fd}
  | .nfpSocket _ _ _ => ∅
  | .nfpShutdown fd _ => {fd}
  | .nfpClose fd => {fd}
  | .nfpBind fd _ _ => {fd}
  | .nfpAccept fd _ => {fd}
  | .nfpListen fd _ => {fd}
  | .nfpConnect fd _ _ => {fd}
  | .nfpRecv fd _ _ => {fd}
  | .nfpSend fd _ _ => {fd}
  | .nfpSetsockopt fd _ _ _ => {fd}
  | .nfpGetsockopt fd _ _ _ => {fd}
  | .nfpIoctl fd _ => {fd}
  | .nfpSelect _ readfds => readfds
  | .nfpEpollCreate _ => ∅
  | .nfpEpollCtl epfd _ fd _ => {epfd, fd}
  | .nfpEpollWait epfd _ _ => {epfd}

/-- A stack call and its result. -/
structure Entry where
  call : StackCall
  value : Int
  deriving DecidableEq

/-- The descriptor goes to the stack somewhere in the log. -/
def Presented (log : List Entry) (st : Stack) (fd : Int) : Prop :=
  ∃ e ∈ log, e.call.stack = st ∧ fd ∈ e.call.given

instance (log : List Entry) (st : Stack) (fd : Int) : Decidable (Presented log st fd) :=
  inferInstanceAs (Decidable (∃ e ∈ log, e.call.stack = st ∧ fd ∈ e.call.given))

theorem Presented.mono {log log' : List Entry} {st : Stack} {fd : Int} (h : Presented log st fd)
    (hsub : ∀ e ∈ log, e ∈ log') : Presented log' st fd := by
  obtain ⟨e, he, hst⟩ := h
  exact ⟨e, hsub e he, hst⟩

/-! ## What a wrapper did -/

/-- How a wrapper ends: it returns a value, with `errno` set or left alone; it is still under way;
    the process crashes on a NULL pointer; `exit` is called. -/
inductive End where
  | ret (value : Int) (errno : Option Int)
  | pending
  | crash
  | exit (code : Int)
  deriving DecidableEq, Repr

/-- **What a wrapper did**: the globals after it, the stack calls it made, and its end. -/
structure Ran where
  globals : Globals
  log : List Entry
  fin : End

/-- The answer of a stack call: its value, and `nfp_errno` or `errno` after it. -/
structure Answer where
  value : Int
  err : Int
  deriving DecidableEq, Repr

/-- What `dlsym` answers to `LIBC_FUNCTION`: the function, NULL, or NULL with `dlerror` set. -/
inductive Dlsym where
  | found
  | null
  | error
  deriving DecidableEq, Repr

/-- `EACCES`. -/
def eacces : Int := 13

/-- `EBADF`. -/
def ebadf : Int := 9

/-- `EFAULT`. -/
def efault : Int := 14

/-- `EINVAL`. -/
def einval : Int := 22

/-- `EOPNOTSUPP`. -/
def eopnotsupp : Int := 95

/-- `EAFNOSUPPORT`. -/
def eafnosupport : Int := 97

/-- `netwrap_errno[]`: for each NFP error number, up to `NFP_ELAST`, the one of Linux. -/
def netwrapErrnoTable : List Int :=
  [0, 1, 2, 3, 4, 5, 6, 7, 8, 9,
    10, 35, 12, 13, 14, 15, 16, 17, 18, 19,
    20, 21, 22, 23, 24, 25, 26, 27, 28, 29,
    30, 31, 32, 33, 34, 11, 115, 114, 88, 89,
    90, 91, 92, 93, 94, 95, 96, 97, 98, 99,
    100, 101, 102, 103, 104, 105, 106, 107, 108, 109,
    110, 111, 40, 36, 112, 113, 39, 22, 87, 122,
    116, 66, 22, 22, 22, 22, 22, 37, 38, 22,
    22, 22, 43, 42, 75, 125, 84, 22, 22, 74,
    72, 67, 71, 22, 22]

/-- `NETWRAP_ERRNO`. -/
def netwrapErrno (x : Int) : Int := if 0 ≤ x then netwrapErrnoTable.getD x.toNat x else x

/-- `LIBC_FUNCTION(f)` found the function. -/
def Globals.load (g : Globals) (f : LibcFn) : Globals :=
  { g with loaded := fun f' => if f' = f then true else g.loaded f' }

/-- The same call to libc. -/
def libcCall (g : Globals) (c : Call) (a : Answer) : Ran :=
  ⟨g, [⟨.libc c, a.value⟩], .ret a.value (some a.err)⟩

/-- `LIBC_FUNCTION(f)`, then the call if that gave a function. -/
def loadAndCall (g : Globals) (f : LibcFn) (dl : Dlsym) (c : Call) (a : Answer) : Ran :=
  match dl with
  | .error => ⟨g, [], .exit 1⟩
  | .null => ⟨g, [], .ret (-1) (some eacces)⟩
  | .found => libcCall (g.load f) c a

/-- The two libc branches most wrappers end in. -/
def viaLibc (g : Globals) (f : LibcFn) (dl : Dlsym) (c : Call) (a : Answer) : Ran :=
  if g.loaded f then libcCall g c a else loadAndCall g f dl c a

/-- One call of the NFP stack, its value returned and its error translated. -/
def nfpCall (g : Globals) (c : StackCall) (a : Answer) : Ran :=
  ⟨g, [⟨c, a.value⟩], .ret a.value (some (netwrapErrno a.err))⟩

/-- The wrapper returns without a stack call. -/
def refuse (g : Globals) (errno : Int) : Ran := ⟨g, [], .ret (-1) (some errno)⟩

/-- **The shape of a wrapper**: `fd` decides between the NFP branch and libc. -/
def route (g : Globals) (fd : Int) (f : LibcFn) (dl : Dlsym) (c : Call) (a : Answer) (nfp : Ran) :
    Ran :=
  if isNfpSocket g fd then nfp else viaLibc g f dl c a

/-- All pointers, in the order of the `setup_*` functions. -/
def allLibcFns : List LibcFn :=
  [.socket, .shutdown, .close, .bind, .accept, .accept4, .listen, .connect, .read, .write, .recv,
    .send, .setsockopt, .getsockopt, .ioctl, .fork, .vfork, .select, .writev, .sendfile64,
    .sendfileRead, .epollCreate, .epollCtl, .epollWait]

/-- **`setup_wrappers`**: nothing if `nfp_get_parameters` fails (`none`); otherwise every pointer is
    looked up, and a `dlerror` ends the process. -/
def setupWrappers (g : Globals) (params : Option SocketParams) (dl : LibcFn → Dlsym) :
    Option Globals :=
  match params with
  | none => some g
  | some p =>
      if allLibcFns.any fun f => dl f = .error then none
      else some ⟨p, true, true, fun f => decide (dl f = .found)⟩

/-- A constructor that finds the parameters marks itself as called, and keeps them. -/
theorem setupWrappers_called {g g' : Globals} {p : SocketParams} {dl : LibcFn → Dlsym}
    (h : setupWrappers g (some p) dl = some g') :
    g'.constructorCalled = true ∧ g'.params = p := by
  simp only [setupWrappers] at h
  split at h
  · cases h
  · cases h
    exact ⟨rfl, rfl⟩

/-- The parameters of a stack with descriptors 1024 to 1039. -/
def someParams : SocketParams := ⟨16, 1024, by decide⟩

/-- The globals after the constructor. -/
def someGlobals : Globals := ⟨someParams, true, true, fun _ => true⟩

/-! ## Routed descriptors -/

/-- The test of a descriptor gives the same in both. -/
structure SameTest (g g' : Globals) : Prop where
  params : g'.params = g.params
  called : g'.constructorCalled = g.constructorCalled

/-- **The descriptor goes to its own side**: to no other stack, and to its own as soon as the
    wrapper calls a stack. -/
structure Routed (g : Globals) (r : Ran) (fd : Int) : Prop where
  own : ∀ st, Presented r.log st fd → st = side g fd
  reach : r.log ≠ [] → Presented r.log (side g fd) fd

/-- **The NFP branch of a wrapper with one descriptor**: it calls the NFP stack only, and with
    that descriptor if at all. -/
structure OnlyNfp (g : Globals) (r : Ran) (fd : Int) : Prop where
  globals : r.globals = g
  stack : ∀ e ∈ r.log, e.call.stack = .nfp
  reach : r.log ≠ [] → ∃ e ∈ r.log, fd ∈ e.call.given

/-- **The libc branches**: the call itself, or none. -/
structure OnlyLibc (g : Globals) (r : Ran) (c : Call) : Prop where
  same : SameTest g r.globals
  log : r.log = [] ∨ ∃ v, r.log = [⟨.libc c, v⟩]

section Routed

variable {g : Globals} {c : Call} {fd : Int}

theorem SameTest.refl (g : Globals) : SameTest g g := ⟨rfl, rfl⟩

theorem SameTest.side {g' : Globals} (h : SameTest g g') (fd : Int) :
    Netwrap.side g' fd = Netwrap.side g fd := by
  unfold Netwrap.side isNfpSocket
  rw [h.params, h.called]

theorem isNfpSocket_iff :
    isNfpSocket g fd = true ↔ g.constructorCalled = true ∧ (g.params.sdOffset : Int) ≤ fd := by
  unfold isNfpSocket
  rw [Bool.and_eq_true, decide_eq_true_eq]

theorem side_nfp_iff :
    side g fd = .nfp ↔ g.constructorCalled = true ∧ (g.params.sdOffset : Int) ≤ fd := by
  rw [← isNfpSocket_iff]
  unfold side
  split
  · rename_i h
    exact ⟨fun _ => h, fun _ => rfl⟩
  · rename_i h
    exact ⟨nofun, fun h' => absurd h' h⟩

theorem side_nfp (h : isNfpSocket g fd = true) : side g fd = .nfp := if_pos h

theorem side_kernel (h : isNfpSocket g fd = false) : side g fd = .kernel := by
  unfold side
  rw [h]
  rfl

theorem onlyNfp_refuse (g : Globals) (fd errno : Int) : OnlyNfp g (refuse g errno) fd :=
  ⟨rfl, fun _ he => absurd he List.not_mem_nil, fun h => absurd rfl h⟩

/-- One call of the NFP stack with the descriptor, whatever the wrapper returns. -/
theorem onlyNfp_single (g : Globals) {call : StackCall} (v : Int) (fin : End)
    (hs : call.stack = .nfp) (hg : fd ∈ call.given) : OnlyNfp g ⟨g, [⟨call, v⟩], fin⟩ fd := by
  refine ⟨rfl, fun e he => ?_, fun _ => ⟨_, List.mem_singleton_self _, hg⟩⟩
  rw [List.mem_singleton.mp he]
  exact hs

theorem OnlyNfp.routed {r : Ran} (h : OnlyNfp g r fd) (hfd : isNfpSocket g fd = true) :
    Routed g r fd := by
  refine ⟨fun st hp => ?_, fun hne => ?_⟩
  · obtain ⟨e, he, hst, -⟩ := hp
    rw [side_nfp hfd, ← hst]
    exact h.stack e he
  · obtain ⟨e, he, hg⟩ := h.reach hne
    rw [side_nfp hfd]
    exact ⟨e, he, h.stack e he, hg⟩

theorem loadAndCall_only (g : Globals) (f : LibcFn) (dl : Dlsym) (c : Call) (a : Answer) :
    OnlyLibc g (loadAndCall g f dl c a) c := by
  cases dl with
  | error => exact ⟨.refl g, Or.inl rfl⟩
  | null => exact ⟨.refl g, Or.inl rfl⟩
  | found => exact ⟨⟨rfl, rfl⟩, Or.inr ⟨_, rfl⟩⟩

theorem viaLibc_only (g : Globals) (f : LibcFn) (dl : Dlsym) (c : Call) (a : Answer) :
    OnlyLibc g (viaLibc g f dl c a) c := by
  unfold viaLibc
  split
  · exact ⟨.refl g, Or.inr ⟨_, rfl⟩⟩
  · exact loadAndCall_only g f dl c a

theorem OnlyLibc.routed {r : Ran} (h : OnlyLibc g r c) (hfd : fd ∈ c.descriptors)
    (hside : side g fd = .kernel) : Routed g r fd := by
  rcases h.log with hlog | ⟨v, hlog⟩
  · refine ⟨fun st hp => ?_, fun hne => absurd hlog hne⟩
    obtain ⟨e, he, -⟩ := hp
    rw [hlog] at he
    exact absurd he List.not_mem_nil
  · refine ⟨fun st hp => ?_, fun _ => ?_⟩
    · obtain ⟨e, he, hst, -⟩ := hp
      rw [hlog] at he
      rw [List.mem_singleton.mp he] at hst
      rw [hside, ← hst]
      rfl
    · rw [hside]
      exact ⟨⟨.libc c, v⟩, by rw [hlog]; exact List.mem_singleton_self _, rfl, hfd⟩

/-- **A wrapper that tests one descriptor** and calls one stack with it. -/
theorem route_routed (f : LibcFn) (dl : Dlsym) (a : Answer) {nfp : Ran}
    (hone : fd ∈ c.descriptors) (hn : OnlyNfp g nfp fd) :
    Routed g (route g fd f dl c a nfp) fd := by
  unfold route
  cases h : isNfpSocket g fd with
  | true => exact hn.routed h
  | false => exact (viaLibc_only g f dl c a).routed hone (side_kernel h)

theorem route_same (fd : Int) (f : LibcFn) (dl : Dlsym) (a : Answer) {nfp : Ran}
    (hn : nfp.globals = g) : SameTest g (route g fd f dl c a nfp).globals := by
  unfold route
  split
  · rw [hn]
    exact .refl g
  · exact (viaLibc_only g f dl c a).same

end Routed

end Nfp.Netwrap
