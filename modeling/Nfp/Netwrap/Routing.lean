/-
  File:      Nfp/Netwrap/Routing.lean
  Subject:   WHICH STACK A DESCRIPTOR GOES TO, over every run of the overloaded calls after the
             constructor of example/netwrap_crt.

  The NFP stack issues descriptors from `sd_offset` on, the kernel below it; a world remembers who
  issued each open descriptor. A wrapper decides for the whole call by one descriptor. So a call
  that mixes the stacks goes wrong: `sendfile64` reads the file through the kernel whatever
  `in_fd` is, `epoll_ctl` takes `fd` where `epfd` goes, and `select` on an NFP descriptor forgets
  the kernel's members of `readfds` and the other two sets.

  * `exec` -- every overloaded call; `routeNext` -- a run of them;
  * `Issued` -- the invariant: whoever issued a descriptor, `IS_NFP_SOCKET` tells;
  * **`descriptors_routed`** -- a descriptor that is not mixed into a call of the other stack goes
    to the stack that issued it, and nowhere else.
-/
import Mathlib.Logic.Function.Basic
import Nfp.Netwrap.Epoll
import Nfp.Netwrap.Select
import Nfp.Netwrap.Transfer

namespace Nfp.Netwrap

open Nfp.Lib

/-! ## Every overloaded call -/

/-- The answers a wrapper may ask for: of `dlsym`; of the stack call; the peer's address of
    `nfp_accept`, and the answers of the two calls `accept4` goes on with; of `nfp_send`; those
    of `sendfile64`; of `nfp_select`. -/
structure Reply where
  dlsym : Dlsym
  answer : Answer
  peer : NfpSockaddr
  nonblock : Answer
  closed : Int
  sends : List (Outcome Int)
  file : FileAnswers
  polls : List Poll

/-- **An overloaded call**. -/
def exec (g : Globals) (c : Call) (r : Reply) : Ran :=
  match c with
  | .socket domain type protocol => socket g domain type protocol r.dlsym r.answer
  | .shutdown fd how => shutdown g fd how r.dlsym r.answer
  | .close fd => close g fd r.dlsym r.answer
  | .bind fd addr addrlen => bind g fd addr addrlen r.dlsym r.answer
  | .accept fd addr addrlen => accept g fd addr addrlen r.dlsym r.answer r.peer
  | .accept4 fd addr addrlen flags =>
      accept4 g fd addr addrlen flags r.dlsym r.answer r.peer r.nonblock r.closed
  | .listen fd backlog => listen g fd backlog r.dlsym r.answer
  | .connect fd addr addrlen => connect g fd addr addrlen r.dlsym r.answer
  | .read fd len => read g fd len r.dlsym r.answer
  | .write fd len => write g fd len r.dlsym r.answer
  | .recv fd len flags => recv g fd len flags r.dlsym r.answer
  | .send fd len flags => send g fd len flags r.dlsym r.answer
  | .setsockopt fd level optName optVal =>
      setsockopt g fd level optName optVal r.dlsym r.answer
  | .getsockopt fd level optName optLen =>
      getsockopt g fd level optName optLen r.dlsym r.answer
  | .ioctl fd request => ioctl g fd request r.dlsym r.answer
  | .writev fd iov => writev g fd iov r.dlsym r.answer r.sends
  | .sendfile64 outFd inFd offset count =>
      sendfile64 g outFd inFd offset count r.dlsym r.answer r.file
  | .select nfds readfds writefds exceptfds timeout =>
      select g nfds readfds writefds exceptfds timeout r.dlsym r.answer r.polls
  | .epollCreate size => epollCreate g size r.dlsym r.answer
  | .epollCtl epfd op fd event => epollCtl g epfd op fd event r.dlsym r.answer
  | .epollWait epfd maxevents timeout => epollWait g epfd maxevents timeout r.dlsym r.answer

/-- **The descriptor is not mixed into a call of the other stack**: the file of `sendfile64` is the
    kernel's, and the descriptor `epoll_ctl` registers is of the stack `epfd` goes to. -/
def Unmixed (g : Globals) (c : Call) (fd : Int) (st : Stack) : Prop :=
  match c with
  | .sendfile64 _ inFd _ _ => fd = inFd → st = .kernel
  | .epollCtl epfd _ fd' _ => fd = fd' → st = side g epfd
  | _ => True

/-- **The call gets as far as the descriptor**: it calls a stack at all; `sendfile64` to an NFP
    socket has data to send; and a `select` that goes to the NFP stack has the descriptor, one of
    that stack, in `readfds`. -/
def GetsTo (g : Globals) (c : Call) (r : Ran) (fd : Int) (st : Stack) : Prop :=
  r.log ≠ [] ∧
    match c with
    | .sendfile64 outFd inFd _ _ =>
        fd = outFd → st = .nfp → DataRead inFd r.log ∧ r.fin ≠ .pending
    | .select nfds readfds _ _ _ =>
        side g (nfds - 1) = .nfp → st = .nfp ∧ fd ∈ members nfds readfds
    | _ => True

/-- **The calls, by shape**: a wrapper tests the one descriptor it is given and calls one stack with
    it, unless it is one of the two that make a descriptor or of the three that take several. -/
theorem exec_shape (g : Globals) (c : Call) (r : Reply) :
    (∃ d f nfp, c.descriptors = {d} ∧ OnlyNfp g nfp d ∧
      exec g c r = route g d f r.dlsym c r.answer nfp) ∨
    (∃ domain type protocol, c = .socket domain type protocol) ∨
    (∃ size, c = .epollCreate size) ∨
    (∃ outFd inFd offset count, c = .sendfile64 outFd inFd offset count) ∨
    (∃ nfds readfds writefds exceptfds timeout,
      c = .select nfds readfds writefds exceptfds timeout) ∨
    (∃ epfd op fd event, c = .epollCtl epfd op fd event) := by
  have hone : ∀ {d : Int} {f : LibcFn} {nfp : Ran}, c.descriptors = {d} → OnlyNfp g nfp d →
      exec g c r = route g d f r.dlsym c r.answer nfp →
      ∃ d f nfp, c.descriptors = {d} ∧ OnlyNfp g nfp d ∧
        exec g c r = route g d f r.dlsym c r.answer nfp :=
    fun hc hnfp heq => ⟨_, _, _, hc, hnfp, heq⟩
  cases c with
  | socket domain type protocol => exact Or.inr (Or.inl ⟨domain, type, protocol, rfl⟩)
  | shutdown d how => exact Or.inl (hone rfl (nfpCall_only g d _ rfl rfl) rfl)
  | close d => exact Or.inl (hone rfl (nfpCall_only g d _ rfl rfl) rfl)
  | bind d addr addrlen => exact Or.inl (hone rfl (bindNfp_only g d _ addr addrlen) rfl)
  | accept d addr addrlen => exact Or.inl (hone rfl (acceptNfp_only g d _ addr addrlen _) rfl)
  | accept4 d addr addrlen flags =>
      exact Or.inl (hone rfl (accept4Nfp_only g d _ addr addrlen _ flags _ _) rfl)
  | listen d backlog => exact Or.inl (hone rfl (nfpCall_only g d _ rfl rfl) rfl)
  | connect d addr addrlen => exact Or.inl (hone rfl (connectNfp_only g d _ addr addrlen) rfl)
  | read d len => exact Or.inl (hone rfl (nfpCall_only g d _ rfl rfl) rfl)
  | write d len => exact Or.inl (hone rfl (nfpCall_only g d _ rfl rfl) rfl)
  | recv d len flags => exact Or.inl (hone rfl (nfpCall_only g d _ rfl rfl) rfl)
  | send d len flags => exact Or.inl (hone rfl (nfpCall_only g d _ rfl rfl) rfl)
  | setsockopt d level optName optVal =>
      have hnfp := sockoptNfp_only g d r.answer setOptions level optName
        (fun _ _ => rfl) fun l n => (rfl : (StackCall.nfpSetsockopt d l n optVal).given = {d})
      exact Or.inl (hone rfl hnfp rfl)
  | getsockopt d level optName optLen =>
      have hnfp := sockoptNfp_only g d r.answer getOptions level optName
        (fun _ _ => rfl) fun l n => (rfl : (StackCall.nfpGetsockopt d l n optLen).given = {d})
      exact Or.inl (hone rfl hnfp rfl)
  | ioctl d request => exact Or.inl (hone rfl (ioctlNfp_only g d _ request) rfl)
  | writev d iov => exact Or.inl (hone rfl (writevNfp_only g d iov _) rfl)
  | sendfile64 outFd inFd offset count =>
      exact Or.inr (Or.inr (Or.inr (Or.inl ⟨outFd, inFd, offset, count, rfl⟩)))
  | select nfds readfds writefds exceptfds timeout =>
      exact Or.inr (Or.inr (Or.inr (Or.inr
        (Or.inl ⟨nfds, readfds, writefds, exceptfds, timeout, rfl⟩))))
  | epollCreate size => exact Or.inr (Or.inr (Or.inl ⟨size, rfl⟩))
  | epollCtl epfd op d event =>
      exact Or.inr (Or.inr (Or.inr (Or.inr (Or.inr ⟨epfd, op, d, event, rfl⟩))))
  | epollWait epfd maxevents timeout =>
      have hnfp : OnlyNfp g (epollWaitNfp g epfd maxevents timeout r.answer) epfd :=
        onlyNfp_single g _ _ rfl (Finset.mem_singleton_self _)
      exact Or.inl (hone rfl hnfp rfl)

/-- **One call**: an unmixed descriptor goes to its own side only, and does go there. -/
theorem exec_routed (g : Globals) (c : Call) (r : Reply) {fd : Int} (hfd : fd ∈ c.descriptors)
    (hunmixed : Unmixed g c fd (side g fd)) :
    (∀ st, Presented (exec g c r).log st fd → st = side g fd) ∧
    (GetsTo g c (exec g c r) fd (side g fd) → Presented (exec g c r).log (side g fd) fd) := by
  have hwhole : Routed g (exec g c r) fd →
      (∀ st, Presented (exec g c r).log st fd → st = side g fd) ∧
      (GetsTo g c (exec g c r) fd (side g fd) → Presented (exec g c r).log (side g fd) fd) :=
    fun h => ⟨h.own, fun hgets => h.reach hgets.1⟩
  rcases exec_shape g c r with ⟨d, f, nfp, hc, hnfp, heq⟩ | ⟨domain, type, protocol, rfl⟩ |
    ⟨size, rfl⟩ | ⟨outFd, inFd, offset, count, rfl⟩ |
    ⟨nfds, readfds, writefds, exceptfds, timeout, rfl⟩ | ⟨epfd, op, d, event, rfl⟩
  · obtain rfl : fd = d := by rw [hc, Finset.mem_singleton] at hfd; exact hfd
    refine hwhole ?_
    rw [heq]
    exact route_routed f r.dlsym r.answer hfd hnfp
  · exact absurd hfd (Finset.notMem_empty _)
  · exact absurd hfd (Finset.notMem_empty _)
  · by_cases hin : fd = inFd
    · subst hin
      exact hwhole (sendfile64_inFd offset count _ _ _ (hunmixed rfl))
    · obtain rfl : fd = outFd := by
        rcases Finset.mem_insert.mp hfd with h | h
        · exact h
        · exact absurd (Finset.mem_singleton.mp h) hin
      obtain ⟨hown, hreach⟩ := sendfile64_outFd offset count r.dlsym r.answer r.file
        (fun h => absurd h hin) (rfl : exec g (.sendfile64 fd inFd offset count) r = _)
      exact ⟨hown, fun hgets => hreach hgets.1 (hgets.2 rfl)⟩
  · exact ⟨select_own r.dlsym r.answer r.polls hfd,
      fun hgets => select_reach r.dlsym r.answer r.polls hfd hgets.2 rfl hgets.1⟩
  · refine hwhole (epollCtl_routed r.dlsym r.answer hfd ?_)
    rcases Finset.mem_insert.mp hfd with rfl | h
    · rfl
    · exact hunmixed (Finset.mem_singleton.mp h)

/-- No call changes what the test of a descriptor reads. -/
theorem exec_same (g : Globals) (c : Call) (r : Reply) : SameTest g (exec g c r).globals := by
  rcases exec_shape g c r with ⟨d, f, nfp, -, hnfp, heq⟩ | ⟨domain, type, protocol, rfl⟩ |
    ⟨size, rfl⟩ | ⟨outFd, inFd, offset, count, rfl⟩ |
    ⟨nfds, readfds, writefds, exceptfds, timeout, rfl⟩ | ⟨epfd, op, d, event, rfl⟩
  · rw [heq]
    exact route_same d f _ _ hnfp.globals
  · simp only [exec, socket]
    split
    · split
      · split
        · exact .refl g
        · exact .refl g
      · exact .refl g
    · exact (loadAndCall_only g _ _ _ _).same
  · simp only [exec, epollCreate]
    split
    · exact .refl g
    · exact (loadAndCall_only g _ _ _ _).same
  · exact route_same outFd _ _ _ (@sendfileNfp_presents outFd inFd g offset count _ _ rfl).1
  · exact route_same _ _ _ _ (selectNfp_globals g nfds readfds timeout _)
  · exact route_same epfd _ _ _ (epollCtlNfp_globals g epfd op d event _)

/-! ## Who issued a descriptor -/

/-- **The descriptors a stack issues**: the NFP stack `num_max` of them from `sd_offset` on, the
    kernel those below. -/
def InRange (p : SocketParams) : Stack → Int → Prop
  | .kernel, fd => 0 ≤ fd ∧ fd < p.sdOffset
  | .nfp, fd => p.sdOffset ≤ fd ∧ fd ≤ p.sdOffset + p.numMax - 1

instance (p : SocketParams) (st : Stack) (fd : Int) : Decidable (InRange p st fd) := by
  cases st
  · exact inferInstanceAs (Decidable (0 ≤ fd ∧ fd < p.sdOffset))
  · exact inferInstanceAs (Decidable (p.sdOffset ≤ fd ∧ fd ≤ p.sdOffset + p.numMax - 1))

/-- The call answers with a new descriptor. -/
def StackCall.issues : StackCall → Bool
  | .libc (.socket _ _ _) => true
  | .libc (.accept _ _ _) => true
  | .libc (.accept4 _ _ _ _) => true
  | .libc (.epollCreate _) => true
  | .nfpSocket _ _ _ => true
  | .nfpAccept _ _ => true
  | .nfpEpollCreate _ => true
  | _ => false

/-- The descriptor a call gives back. -/
def StackCall.closes : StackCall → Option Int
  | .libc (.close fd) => some fd
  | .nfpClose fd => some fd
  | _ => none

/-- The issuers after a stack call. -/
def noteEntry (issued : Int → Option Stack) (e : Entry) : Int → Option Stack :=
  if e.call.issues ∧ 0 ≤ e.value then Function.update issued e.value (some e.call.stack)
  else
    match e.call.closes with
    | some fd => if e.value = 0 then Function.update issued fd none else issued
    | none => issued

/-- A stack answers with descriptors of its own only. -/
def Admissible (p : SocketParams) (e : Entry) : Prop :=
  e.call.issues = true → 0 ≤ e.value → InRange p e.call.stack e.value

instance (p : SocketParams) (e : Entry) : Decidable (Admissible p e) := by
  unfold Admissible
  infer_instance

/-- The globals, and who issued each open descriptor. -/
structure World where
  g : Globals
  issued : Int → Option Stack

/-- An overloaded call, or a descriptor the kernel issues by a call that is not overloaded. -/
inductive RouteLabel where
  | call (c : Call) (r : Reply)
  | kernelOpens (fd : Int)

/-- The process goes on after the wrapper. -/
def End.goesOn : End → Bool
  | .crash => false
  | .exit _ => false
  | _ => true

/-- **A step**; there is none where a stack would answer with a descriptor that is not its own, and
    none after which the process is gone. -/
def routeNext (w : World) : RouteLabel → Option World
  | .call c r =>
      if (∀ e ∈ (exec w.g c r).log, Admissible w.g.params e) ∧ (exec w.g c r).fin.goesOn then
        some ⟨(exec w.g c r).globals, (exec w.g c r).log.foldl noteEntry w.issued⟩
      else none
  | .kernelOpens fd =>
      if InRange w.g.params .kernel fd then
        some { w with issued := Function.update w.issued fd (some .kernel) }
      else none

/-- After the constructor, with nothing open. -/
def routeStart (g : Globals) : World := ⟨g, fun _ => none⟩

/-- **The invariant**: the constructor has been called, and the test of a descriptor gives the stack
    that issued it. -/
structure Issued (w : World) : Prop where
  called : w.g.constructorCalled = true
  sides : ∀ fd st, w.issued fd = some st → side w.g fd = st

section Issued

variable {g : Globals} {issued : Int → Option Stack}

/-- A descriptor in a stack's range is on its side. -/
theorem InRange.side {st : Stack} {fd : Int} (h : InRange g.params st fd)
    (hcalled : g.constructorCalled = true) : Netwrap.side g fd = st := by
  cases st with
  | nfp => exact side_nfp_iff.mpr ⟨hcalled, h.1⟩
  | kernel =>
      have hlt : fd < g.params.sdOffset := h.2
      refine side_kernel (Bool.eq_false_iff.mpr fun hs => ?_)
      have hge := (isNfpSocket_iff.mp hs).2
      omega

/-- A new entry in the table of issuers. -/
theorem update_sides {fd : Int} {new : Option Stack}
    (h : ∀ d st, issued d = some st → side g d = st) (hnew : ∀ st, new = some st → side g fd = st) :
    ∀ d st, Function.update issued fd new d = some st → side g d = st := by
  intro d st hd
  by_cases heq : d = fd
  · subst heq
    rw [Function.update_self] at hd
    exact hnew st hd
  · rw [Function.update_of_ne heq] at hd
    exact h d st hd

/-- One stack call. -/
theorem noteEntry_sides {e : Entry} (hcalled : g.constructorCalled = true)
    (h : ∀ fd st, issued fd = some st → side g fd = st) (he : Admissible g.params e) :
    ∀ fd st, noteEntry issued e fd = some st → side g fd = st := by
  unfold noteEntry
  split
  · rename_i hissue
    refine update_sides h fun st hst => ?_
    cases hst
    exact (he hissue.1 hissue.2).side hcalled
  · cases e.call.closes with
    | none => exact h
    | some d =>
        by_cases hv : e.value = 0
        · simp only [if_pos hv]
          exact update_sides h nofun
        · simp only [if_neg hv]
          exact h

/-- All stack calls of a wrapper. -/
theorem noteLog_sides {log : List Entry} (hcalled : g.constructorCalled = true)
    (h : ∀ fd st, issued fd = some st → side g fd = st) (hlog : ∀ e ∈ log, Admissible g.params e) :
    ∀ fd st, log.foldl noteEntry issued fd = some st → side g fd = st := by
  induction log generalizing issued with
  | nil => exact h
  | cons e log ih =>
      have he : Admissible g.params e := hlog e List.mem_cons_self
      exact ih (noteEntry_sides hcalled h he) fun e' he' => hlog e' (List.mem_cons_of_mem _ he')

/-- **A step keeps the invariant.** -/
theorem routeNext_issued {w w' : World} {l : RouteLabel} (hw : Issued w)
    (h : routeNext w l = some w') : Issued w' := by
  cases l with
  | call c r =>
      simp only [routeNext] at h
      split at h
      · rename_i hstep
        cases h
        have hsame := exec_same w.g c r
        refine ⟨hsame.called.trans hw.called, fun fd st hfd => ?_⟩
        rw [hsame.side fd]
        exact noteLog_sides hw.called hw.sides hstep.1 fd st hfd
      · cases h
  | kernelOpens fd =>
      simp only [routeNext] at h
      split at h
      · rename_i hrange
        cases h
        refine ⟨hw.called, update_sides hw.sides fun st hst => ?_⟩
        cases hst
        exact hrange.side hw.called
      · cases h

/-- **A whole run after the constructor.** -/
theorem issued_of_reach {g₀ : Globals} {p : SocketParams} {dl : LibcFn → Dlsym}
    (hsetup : setupWrappers g₀ (some p) dl = some g) {w : World}
    (hw : Reach routeNext anyStep (routeStart g) w) : Issued w := by
  have hstart : Issued (routeStart g) :=
    ⟨(setupWrappers_called hsetup).1, fun _ _ h => by cases h⟩
  refine hw.inv hstart fun t l t' ht _ hnext => ?_
  exact routeNext_issued ht hnext

end Issued

/-! ## After one run -/

/-- The globals before the constructor. -/
def unsetGlobals : Globals := ⟨⟨0, 0, by decide⟩, false, false, fun _ => false⟩

/-- Answers: the stack call gives `value`; the file holds five bytes, which the socket takes whole;
    the first poll finds 1024 ready. -/
def someReply (value : Int) : Reply where
  dlsym := .found
  answer := ⟨value, 0⟩
  peer := .other 0
  nonblock := ⟨0, 0⟩
  closed := 0
  sends := []
  file := ⟨0, 0, 0, 0, [.data [1, 2, 3, 4, 5] (by decide), .data [] (by decide)], [.took 5]⟩
  polls := [⟨1, 0, {1024}, ⟨0, 0⟩⟩]

/-- The kernel opens 3, the NFP stack a socket 1024 and an epoll descriptor 1025. -/
def someRun : List RouteLabel :=
  [.kernelOpens 3, .call (.socket 2 1 0) (someReply 1024), .call (.epollCreate 8) (someReply 1025)]

end Nfp.Netwrap
