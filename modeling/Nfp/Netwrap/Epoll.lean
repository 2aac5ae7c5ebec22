/-
  File:      Nfp/Netwrap/Epoll.lean
  Subject:   THE EPOLL WRAPPERS of example/netwrap_crt (netwrap_epoll.c), and what becomes of event
             masks that cross them. Both stacks number the same conditions differently; the
             wrappers copy the masks as they are, in both directions.

  * `nfpDenotes`, `linuxDenotes` -- the conditions a mask stands for in each encoding;
  * `epollNext` -- the wrappers `epoll_ctl` and `epoll_wait` on one NFP epoll descriptor, with what
    the application asked for, what the NFP stack has registered, and what was reported;
  * `Faithful` -- the application is told what it asked for; `Clean` -- the step hands over no
    mask that the two encodings read differently, and no NULL event;
  * `epollNext_faithful_iff` -- one step, **`epoll_faithful`** -- a whole run.
-/
import Mathlib.Data.List.Forall2
import Mathlib.Logic.Function.Basic
import Nfp.Netwrap.Common

namespace Nfp.Netwrap

open Nfp.Lib

/-! ## The wrappers -/

/-- **`epoll_create`**: after the setup every epoll descriptor is of the NFP stack. -/
def epollCreate (g : Globals) (size : Int) (dl : Dlsym) (a : Answer) : Ran :=
  if g.epollSetup then
    ⟨g, [⟨.nfpEpollCreate size, a.value⟩],
      .ret a.value (some (if a.value = -1 then netwrapErrno a.err else 0))⟩
  else loadAndCall g .epollCreate dl (.epollCreate size) a

/-- The NFP branch of `epoll_ctl`: `event` is read before anything else. -/
def epollCtlNfp (g : Globals) (epfd op fd : Int) (event : Option EpollEvent) (a : Answer) : Ran :=
  match event with
  | none => ⟨g, [], .crash⟩
  | some ev =>
      ⟨g, [⟨.nfpEpollCtl epfd op fd ⟨ev.events, ev.data⟩, a.value⟩],
        if a.value = 0 then .ret 0 none else .ret (-1) (some (netwrapErrno a.err))⟩

/-- **`epoll_ctl`**: only `epfd` is looked at. -/
def epollCtl (g : Globals) (epfd op fd : Int) (event : Option EpollEvent) (dl : Dlsym)
    (a : Answer) : Ran :=
  route g epfd .epollCtl dl (.epollCtl epfd op fd event) a (epollCtlNfp g epfd op fd event a)

/-- The loop over the ready events, of which `nfp_epoll_wait` stored `nfpEvents`. -/
def copyEvents (ready : Int) (nfpEvents : List EpollEvent) : List EpollEvent :=
  (nfpEvents.take ready.toNat).map fun ev => ⟨ev.events, ev.data⟩

/-- The NFP branch of `epoll_wait`, but for the events. -/
def epollWaitNfp (g : Globals) (epfd maxevents timeout : Int) (a : Answer) : Ran :=
  ⟨g, [⟨.nfpEpollWait epfd maxevents timeout, a.value⟩],
    .ret a.value (if a.value = -1 then some (netwrapErrno a.err) else none)⟩

/-- **`epoll_wait`**, but for the events. -/
def epollWait (g : Globals) (epfd maxevents timeout : Int) (dl : Dlsym) (a : Answer) : Ran :=
  route g epfd .epollWait dl (.epollWait epfd maxevents timeout) a
    (epollWaitNfp g epfd maxevents timeout a)

/-- The events `epoll_wait` writes itself; in the other branch libc writes them. -/
def epollWaitEvents (g : Globals) (epfd : Int) (a : Answer) (nfpEvents : List EpollEvent) :
    List EpollEvent :=
  if isNfpSocket g epfd then copyEvents a.value nfpEvents else []

theorem epollCtlNfp_globals (g : Globals) (epfd op fd : Int) (event : Option EpollEvent)
    (a : Answer) : (epollCtlNfp g epfd op fd event a).globals = g := by
  cases event with
  | none => rfl
  | some ev => rfl

/-- Every call of the NFP branch presents both descriptors to the NFP stack. -/
theorem epollCtlNfp_log {g : Globals} {epfd op fd : Int} {event : Option EpollEvent} {a : Answer}
    {e : Entry} (he : e ∈ (epollCtlNfp g epfd op fd event a).log) :
    e.call.stack = .nfp ∧ e.call.given = {epfd, fd} := by
  cases event with
  | none => exact absurd he List.not_mem_nil
  | some ev =>
      rw [List.mem_singleton.mp he]
      exact ⟨rfl, rfl⟩

/-- **A descriptor on `epfd`'s side is routed.** -/
theorem epollCtl_routed {g : Globals} {epfd op fd : Int} {event : Option EpollEvent} (dl : Dlsym)
    (a : Answer) {d : Int} (hd : d ∈ ({epfd, fd} : Finset Int)) (hside : side g d = side g epfd) :
    Routed g (epollCtl g epfd op fd event dl a) d := by
  unfold epollCtl route
  cases h : isNfpSocket g epfd with
  | false => exact (viaLibc_only g _ dl _ a).routed hd (hside.trans (side_kernel h))
  | true =>
      have hd' : isNfpSocket g d = true :=
        isNfpSocket_iff.mpr (side_nfp_iff.mp (hside.trans (side_nfp h)))
      refine OnlyNfp.routed ⟨epollCtlNfp_globals g epfd op fd event a,
        fun e he => (epollCtlNfp_log he).1, fun hne => ?_⟩ hd'
      obtain ⟨e, he⟩ := List.exists_mem_of_ne_nil _ hne
      exact ⟨e, he, by rw [(epollCtlNfp_log he).2]; exact hd⟩

/-! ## Two encodings of the same conditions -/

/-- What can be asked of, or reported about, a descriptor. -/
inductive Cond where
  | readable
  | priority
  | writable
  | error
  | hangup
  | peerHangup
  | oneShot
  deriving DecidableEq, Repr

/-- The bits of `NFP_EPOLLIN`, `NFP_EPOLLPRI`, `NFP_EPOLLOUT`, `NFP_EPOLLHUP`, `NFP_EPOLLRDHUP` and
    `NFP_EPOLLONESHOT`. -/
def nfpBit : Cond → Option Nat
  | .readable => some 0
  | .writable => some 1
  | .priority => some 2
  | .hangup => some 3
  | .peerHangup => some 4
  | .oneShot => some 5
  | .error => none

/-- The bits of `EPOLLIN`, `EPOLLPRI`, `EPOLLOUT`, `EPOLLERR`, `EPOLLHUP`, `EPOLLRDHUP` and
    `EPOLLONESHOT`. -/
def linuxBit : Cond → Nat
  | .readable => 0
  | .priority => 1
  | .writable => 2
  | .error => 3
  | .hangup => 4
  | .peerHangup => 13
  | .oneShot => 30

/-- The conditions the NFP encoding has. -/
def nfpHas (c : Cond) : Bool := (nfpBit c).isSome

/-- The mask stands for the condition, in the NFP encoding. -/
def nfpDenotes (mask : BitVec 32) (c : Cond) : Bool :=
  match nfpBit c with
  | some i => mask.getLsbD i
  | none => false

/-- The mask stands for the condition, in the Linux encoding. -/
def linuxDenotes (mask : BitVec 32) (c : Cond) : Bool := mask.getLsbD (linuxBit c)

/-- What is registered is what was asked for: nothing, or the same datum and the same conditions
    among those the NFP stack has. -/
def Agree : Option EpollEvent → Option EpollEvent → Prop
  | none, none => True
  | some asked, some interest =>
      interest.data = asked.data ∧
        ∀ c, nfpHas c = true → nfpDenotes interest.events c = linuxDenotes asked.events c
  | _, _ => False

/-- The application is told what the stack reported: the same datum and the same conditions. -/
def Told (reported told : EpollEvent) : Prop :=
  told.data = reported.data ∧ ∀ c, linuxDenotes told.events c = nfpDenotes reported.events c

/-- **A mask that both encodings read alike**, as far as the NFP stack has the conditions. -/
def MaskIn (mask : BitVec 32) : Prop :=
  mask.getLsbD 1 = mask.getLsbD 2 ∧ mask.getLsbD 3 = mask.getLsbD 4 ∧
    mask.getLsbD 4 = mask.getLsbD 13 ∧ mask.getLsbD 5 = mask.getLsbD 30

/-- **A mask that both encodings read alike** in all conditions. -/
def MaskOut (mask : BitVec 32) : Prop :=
  mask.getLsbD 1 = mask.getLsbD 2 ∧ mask.getLsbD 3 = false ∧ mask.getLsbD 4 = false ∧
    mask.getLsbD 13 = false ∧ mask.getLsbD 5 = mask.getLsbD 30

instance (mask : BitVec 32) : Decidable (MaskIn mask) := by
  unfold MaskIn
  infer_instance

instance (mask : BitVec 32) : Decidable (MaskOut mask) := by
  unfold MaskOut
  infer_instance

theorem agree_self_iff (ev : EpollEvent) :
    Agree (some ev) (some ⟨ev.events, ev.data⟩) ↔ MaskIn ev.events := by
  constructor
  · intro ⟨_, h⟩
    exact ⟨h .writable rfl, h .hangup rfl, h .peerHangup rfl, h .oneShot rfl⟩
  · intro ⟨hout, hhup, hrdhup, honce⟩
    refine ⟨rfl, fun c hc => ?_⟩
    cases c with
    | readable => rfl
    | priority => exact hout.symm
    | writable => exact hout
    | error => cases hc
    | hangup => exact hhup
    | peerHangup => exact hrdhup
    | oneShot => exact honce

theorem told_self_iff (ev : EpollEvent) : Told ev ⟨ev.events, ev.data⟩ ↔ MaskOut ev.events := by
  constructor
  · intro ⟨_, h⟩
    have herr : ev.events.getLsbD 3 = false := h .error
    have hhup : ev.events.getLsbD 4 = ev.events.getLsbD 3 := h .hangup
    have hrdhup : ev.events.getLsbD 13 = ev.events.getLsbD 4 := h .peerHangup
    exact ⟨h .priority, herr, hhup.trans herr, hrdhup.trans (hhup.trans herr), (h .oneShot).symm⟩
  · intro ⟨hout, herr, hhup, hrdhup, honce⟩
    refine ⟨rfl, fun c => ?_⟩
    cases c with
    | readable => rfl
    | priority => exact hout
    | writable => exact hout.symm
    | error => exact herr
    | hangup => exact hhup.trans herr.symm
    | peerHangup => exact hrdhup.trans hhup.symm
    | oneShot => exact honce.symm

/-- The list told is faithful to the list reported just if each of its masks reads alike. -/
theorem told_copyEvents_iff (ready : Int) (nfpEvents : List EpollEvent) :
    List.Forall₂ Told (nfpEvents.take ready.toNat) (copyEvents ready nfpEvents) ↔
      ∀ ev ∈ nfpEvents.take ready.toNat, MaskOut ev.events := by
  unfold copyEvents
  rw [List.forall₂_map_right_iff, List.forall₂_same]
  exact forall₂_congr fun ev _ => told_self_iff ev

/-! ## Runs on one NFP epoll descriptor -/

/-- An NFP epoll descriptor. -/
structure NfpEpoll where
  g : Globals
  epfd : Int
  isNfp : isNfpSocket g epfd = true

/-- `EPOLL_CTL_ADD`, the same in both stacks. -/
def ctlAdd : Int := 1

/-- `EPOLL_CTL_DEL`, the same in both stacks. -/
def ctlDel : Int := 2

/-- `EPOLL_CTL_MOD`, the same in both stacks. -/
def ctlMod : Int := 3

/-- What a successful `epoll_ctl` does to a list of registrations. -/
def applyCtl (op fd : Int) (ev : Option EpollEvent) (table : Int → Option EpollEvent) :
    Int → Option EpollEvent :=
  if op = ctlAdd ∨ op = ctlMod then Function.update table fd ev
  else if op = ctlDel then Function.update table fd none
  else table

/-- A call of a wrapper on the descriptor, with the answers it gets. -/
inductive EpollLabel where
  | ctl (op fd : Int) (event : Option EpollEvent) (dl : Dlsym) (a : Answer)
  | wait (maxevents timeout : Int) (dl : Dlsym) (a : Answer) (nfpEvents : List EpollEvent)

/-- What the application asked for and was told had been done, what the NFP stack has registered,
    each report of the stack with what the application was told, and whether the process crashed. -/
structure EpollState where
  asked : Int → Option EpollEvent
  interest : Int → Option EpollEvent
  reports : List (List EpollEvent × List EpollEvent)
  crashed : Bool

/-- A new epoll descriptor. -/
def epollStart : EpollState := ⟨fun _ => none, fun _ => none, [], false⟩

/-- What a call does to the registrations of the NFP stack. -/
def register (table : Int → Option EpollEvent) (e : Entry) : Int → Option EpollEvent :=
  match e.call with
  | .nfpEpollCtl _ op fd ev => if e.value = 0 then applyCtl op fd (some ev) table else table
  | _ => table

/-- The wrapper returned 0. -/
def End.succeeded : End → Bool
  | .ret v _ => v == 0
  | _ => false

/-- What a call of one of the two wrappers does. -/
def epollStep (E : NfpEpoll) (s : EpollState) : EpollLabel → EpollState
  | .ctl op fd event dl a =>
      let r := epollCtl E.g E.epfd op fd event dl a
      { s with
        asked := if r.fin.succeeded then applyCtl op fd event s.asked else s.asked
        interest := r.log.foldl register s.interest
        crashed := decide (r.fin = .crash) }
  | .wait _ _ _ a nfpEvents =>
      { s with
        reports :=
          (nfpEvents.take a.value.toNat, epollWaitEvents E.g E.epfd a nfpEvents) :: s.reports }

/-- **A step**: a wrapper is called, unless the process is gone. -/
def epollNext (E : NfpEpoll) (s : EpollState) (l : EpollLabel) : Option EpollState :=
  if s.crashed then none else some (epollStep E s l)

/-- **The application is told what it asked for.** -/
structure Faithful (s : EpollState) : Prop where
  alive : s.crashed = false
  registered : ∀ fd, Agree (s.asked fd) (s.interest fd)
  told : ∀ p ∈ s.reports, List.Forall₂ Told p.1 p.2

/-- **The step hands over no mask the encodings read differently**: a registration the stack
    accepts has a mask of the one kind, all events of a report have masks of the other, and no
    event is NULL. -/
def Clean (_ : EpollState) : EpollLabel → Prop
  | .ctl op _ event _ a =>
      ∃ ev ∈ event, (op = ctlAdd ∨ op = ctlMod) → a.value = 0 → MaskIn ev.events
  | .wait _ _ _ a nfpEvents => ∀ ev ∈ nfpEvents.take a.value.toNat, MaskOut ev.events

section Runs

variable {E : NfpEpoll} {s s' : EpollState}

/-- **`epoll_ctl` with a NULL event**: the process crashes. -/
theorem epollStep_null (op fd : Int) (dl : Dlsym) (a : Answer) :
    (epollStep E s (.ctl op fd none dl a)).crashed = true := by
  simp only [epollStep, epollCtl, route, E.isNfp, if_true, epollCtlNfp, decide_true]

/-- **`epoll_ctl` with an event**: both lists change in the same way if the stack accepts the call,
    and not at all if it does not. -/
theorem epollStep_event (op fd : Int) (ev : EpollEvent) (dl : Dlsym) (a : Answer) :
    epollStep E s (.ctl op fd (some ev) dl a) =
      if a.value = 0 then
        { s with
          asked := applyCtl op fd (some ev) s.asked
          interest := applyCtl op fd (some ⟨ev.events, ev.data⟩) s.interest
          crashed := false }
      else { s with crashed := false } := by
  simp only [epollStep, epollCtl, route, E.isNfp, if_true, epollCtlNfp, List.foldl_cons,
    List.foldl_nil, register]
  by_cases h : a.value = 0
  · simp only [if_pos h, End.succeeded]
    rfl
  · simp only [if_neg h, End.succeeded]
    rfl

theorem epollStep_wait (maxevents timeout : Int) (dl : Dlsym) (a : Answer)
    (nfpEvents : List EpollEvent) :
    epollStep E s (.wait maxevents timeout dl a nfpEvents) =
      { s with
        reports := (nfpEvents.take a.value.toNat, copyEvents a.value nfpEvents) :: s.reports } := by
  simp only [epollStep, epollWaitEvents, E.isNfp, if_true]

/-- Applying the same call to two lists that agree. -/
theorem applyCtl_agree {asked interest : Int → Option EpollEvent} {op fd : Int} {ev : EpollEvent}
    (h : ∀ d, Agree (asked d) (interest d)) :
    (∀ d, Agree (applyCtl op fd (some ev) asked d)
        (applyCtl op fd (some ⟨ev.events, ev.data⟩) interest d)) ↔
      (op = ctlAdd ∨ op = ctlMod → MaskIn ev.events) := by
  unfold applyCtl
  by_cases hop : op = ctlAdd ∨ op = ctlMod
  · rw [if_pos hop, if_pos hop, ← agree_self_iff]
    refine ⟨fun hall _ => ?_, fun hself d => ?_⟩
    · have := hall fd
      rw [Function.update_self, Function.update_self] at this
      exact this
    · by_cases hd : d = fd
      · subst hd
        rw [Function.update_self, Function.update_self]
        exact hself hop
      · rw [Function.update_of_ne hd, Function.update_of_ne hd]
        exact h d
  · rw [if_neg hop, if_neg hop]
    refine ⟨fun _ hop' => absurd hop' hop, fun _ d => ?_⟩
    by_cases hdel : op = ctlDel
    · rw [if_pos hdel, if_pos hdel]
      by_cases hd : d = fd
      · subst hd
        rw [Function.update_self, Function.update_self]
        trivial
      · rw [Function.update_of_ne hd, Function.update_of_ne hd]
        exact h d
    · rw [if_neg hdel, if_neg hdel]
      exact h d

/-- **One step**: from a faithful state, the next one is faithful just if the step is clean. -/
theorem epollNext_faithful_iff {l : EpollLabel} (hs : Faithful s)
    (h : epollNext E s l = some s') : Faithful s' ↔ Clean s l := by
  unfold epollNext at h
  rw [hs.alive] at h
  obtain rfl : epollStep E s l = s' := Option.some.inj h
  cases l with
  | ctl op fd event dl a =>
      cases event with
      | none =>
          refine ⟨fun hf => ?_, fun ⟨_, hev, _⟩ => by cases hev⟩
          have hcrash := @epollStep_null E s op fd dl a
          rw [hf.alive] at hcrash
          cases hcrash
      | some ev =>
          have hagree := @applyCtl_agree _ _ op fd ev hs.registered
          rw [epollStep_event]
          by_cases hv : a.value = 0
          · rw [if_pos hv]
            refine ⟨fun hf => ⟨ev, rfl, fun hop _ => hagree.mp hf.registered hop⟩, fun hc => ?_⟩
            obtain ⟨_, hev, hclean⟩ := hc
            cases hev
            exact ⟨rfl, hagree.mpr fun hop => hclean hop hv, hs.told⟩
          · rw [if_neg hv]
            exact ⟨fun _ => ⟨ev, rfl, fun _ hv' => absurd hv' hv⟩,
              fun _ => ⟨rfl, hs.registered, hs.told⟩⟩
  | wait maxevents timeout dl a nfpEvents =>
      rw [epollStep_wait]
      have htold := told_copyEvents_iff a.value nfpEvents
      refine ⟨fun hf => htold.mp (hf.told _ List.mem_cons_self), fun hc => ?_⟩
      refine ⟨hs.alive, hs.registered, fun p hp => ?_⟩
      rcases List.mem_cons.mp hp with rfl | hp
      · exact htold.mpr hc
      · exact hs.told p hp

theorem epollStart_faithful : Faithful epollStart :=
  ⟨rfl, fun _ => trivial, fun _ hp => absurd hp List.not_mem_nil⟩

/-- **Every run of clean steps is faithful**, and from any state of it the next step keeps to
    that just if it is clean. -/
theorem epoll_faithful (h : Reach (epollNext E) Clean epollStart s) :
    Faithful s ∧ ∀ l s', epollNext E s l = some s' → (Faithful s' ↔ Clean s l) := by
  have hs : Faithful s := by
    refine h.inv epollStart_faithful fun t l t' ht hclean hnext => ?_
    exact (epollNext_faithful_iff ht hnext).mpr hclean
  exact ⟨hs, fun l s' hnext => epollNext_faithful_iff hs hnext⟩

end Runs

/-- An epoll descriptor of that stack. -/
def someEpoll : NfpEpoll where
  g := someGlobals
  epfd := 1024
  isNfp := by decide

/-- `epoll_ctl` adds the descriptor 1025 with the mask and the datum 7, and the stack agrees. -/
def addStep (mask : BitVec 32) : EpollLabel := .ctl ctlAdd 1025 (some ⟨mask, 7⟩) .found ⟨0, 0⟩

/-- `epoll_wait` reports one event with the mask and the datum 7. -/
def reportStep (mask : BitVec 32) : EpollLabel := .wait 8 (-1) .found ⟨1, 0⟩ [⟨mask, 7⟩]

/-- The mask 7 is `EPOLLIN | EPOLLPRI | EPOLLOUT` in both encodings: registered and reported as
    such. -/
theorem epoll_faithful_alike :
    ∃ s, Reach (epollNext someEpoll) Clean epollStart s ∧ Faithful s ∧
      s.asked 1025 = some ⟨7, 7⟩ ∧ s.reports = [([⟨7, 7⟩], [⟨7, 7⟩])] := by
  have hadd : Reach (epollNext someEpoll) Clean epollStart
      (epollStep someEpoll epollStart (addStep 7)) :=
    .step _ _ (addStep 7) .start ⟨_, rfl, fun _ _ => by decide⟩ rfl
  have hreport := Reach.step _ _ (reportStep 7) hadd
    (by intro ev hev; rw [List.mem_singleton.mp hev]; decide) rfl
  exact ⟨_, hreport, (epoll_faithful hreport).1, by decide, by decide⟩

/-- **`EPOLLOUT` (4) is registered as `NFP_EPOLLPRI`**: the application asks to hear when it can
    write, and the stack will tell it about urgent data. -/
theorem epollout_registers_priority :
    ∃ s, Reach (epollNext someEpoll) anyStep epollStart s ∧ ¬ Faithful s ∧
      s.asked 1025 = some ⟨4, 7⟩ ∧ s.interest 1025 = some ⟨4, 7⟩ ∧
      linuxDenotes 4 .writable = true ∧ nfpDenotes 4 .writable = false ∧
      linuxDenotes 4 .priority = false ∧ nfpDenotes 4 .priority = true := by
  refine ⟨epollStep someEpoll epollStart (addStep 4), .step _ _ (addStep 4) .start trivial rfl,
    fun hf => ?_, by decide, by decide, by decide, by decide, by decide, by decide⟩
  have hwrite := (hf.registered 1025).2 .writable rfl
  revert hwrite
  decide

end Nfp.Netwrap
