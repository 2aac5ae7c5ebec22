/-
  File:      Nfp/Webserver/Epoll.lean
  Subject:   `webserver_epoll` of example/webserver/httpd.c: the loop around `nfp_epoll_wait`.

  The listening socket sits in slot 0 of the table; every other occupied slot is a connection.
  The state carries the interest list of the epoll instance: for each registered descriptor the
  slot its `data.ptr` points to. `nfp_epoll_ctl(ADD)` may fail (nobody looks at its result),
  `nfp_epoll_ctl(DEL)` leaves the descriptor unregistered. The events of one `nfp_epoll_wait`
  are any slots, in any order and with repetitions: while the batch is worked off, slots are
  freed and refilled.

  `handle_connection` returns early when `nfp_recv` fails, with the slot still occupied -- and the
  loop then deregisters the descriptor all the same. From then on nobody looks at that slot:

  * `InStep` -- a slot is occupied exactly when its descriptor is open and registered for it;
  * `Sound` -- the steps in which no `nfp_recv` on a connection and no `nfp_epoll_ctl(ADD)` fails;
  * **`webserverEpoll_inStep`** -- in every run of such steps table and interest list stay in step;
    `recv_error_leaks_slot` -- one failed `nfp_recv` is enough to break them apart.
-/
import Nfp.Lib.Run
import Nfp.Webserver.Connections

namespace Nfp.Webserver.Epoll

open Nfp.Lib

/-- `NUM_EPOLL_EVT`. -/
def numEpollEvt : Nat := 10

/-- Where the loop is. `event` holds the events of the batch still to be worked off, `cleanup i`
    the index of the loop over the table. -/
inductive Pc (N : Nat) where
  | create
  | start
  | head
  | wait
  | event (rest : List (Fin (N + 1)))
  | cleanup (i : Nat)
  | closeEpfd
  | done (ret : Int)
  deriving DecidableEq, Repr

/-- **The state**: the table (slot 0 and `N` more), the interest list, `*is_running`. -/
structure State (N : Nat) where
  table : Table (N + 1)
  interest : Int → Option (Fin (N + 1))
  running : Bool
  pc : Pc N

/-- What can happen next: `nfp_stop_processing` is called somewhere, or the server goes on -- by
    itself, or with the answers of the calls it makes. `add` tells whether the
    `nfp_epoll_ctl(ADD)` that follows succeeds; `wait none` is an error. -/
inductive Label (N : Nat) where
  | stop
  | go
  | create (ok : Bool) (add : Bool)
  | processingState (known : Bool)
  | wait (events : Option (List (Fin (N + 1))))
  | accept (a : Accept) (add : Bool)
  | handle (r : Recv)
  | close (c : Close)
  deriving DecidableEq

/-- **What the server starts from**: the listening socket is open, and so may other descriptors
    be. -/
structure Boot where
  servFd : Nat
  opened : Finset Int
  serv_open : (servFd : Int) ∈ opened
  nonneg : ∀ fd ∈ opened, 0 ≤ fd

/-- The table is all free and nothing is registered. -/
def State.boot (N : Nat) (b : Boot) : State N where
  table := .allFree b.opened
  interest _ := none
  running := true
  pc := .create

section Machine

variable {N : Nat} (servFd : Nat)

/-- `nfp_epoll_ctl(ADD)` of `fd` with `data.ptr = &connections[i]`. -/
def ctlAdd (interest : Int → Option (Fin (N + 1))) (fd : Int) (i : Fin (N + 1)) (ok : Bool) :
    Int → Option (Fin (N + 1)) :=
  if ok then Function.update interest fd (some i) else interest

/-- `nfp_epoll_ctl(DEL)`. -/
def ctlDel (interest : Int → Option (Fin (N + 1))) (fd : Int) : Int → Option (Fin (N + 1)) :=
  Function.update interest fd none

/-- The steps the server takes by itself. -/
def stepGo (s : State N) : Option (State N) :=
  match s.pc with
  | .head => if s.running then some { s with pc := .wait } else some { s with pc := .cleanup 0 }
  | .event [] => some { s with pc := .head }
  | .cleanup i =>
      if h : i < N + 1 then
        if s.table.Occupied ⟨i, h⟩ then none else some { s with pc := .cleanup (i + 1) }
      else some { s with pc := .closeEpfd }
  | _ => none

/-- `connections[0].fd = serv_fd`. -/
def listenSlot (t : Table (N + 1)) : Table (N + 1) :=
  { t with conns := Function.update t.conns 0 ⟨servFd, (t.conns 0).addr⟩ }

/-- `nfp_epoll_create`, then the listening socket in slot 0. -/
def stepCreate (s : State N) (ok add : Bool) : Option (State N) :=
  match s.pc with
  | .create =>
      if ok then
        some { s with
          table := listenSlot servFd s.table
          interest := ctlAdd s.interest servFd 0 add
          pc := .start }
      else some { s with pc := .done (-1) }
  | _ => none

/-- `nfp_epoll_wait`: at most `NUM_EPOLL_EVT` events. -/
def stepWait (s : State N) (events : Option (List (Fin (N + 1)))) : Option (State N) :=
  match s.pc, events with
  | .wait, none => some { s with pc := .cleanup 0 }
  | .wait, some evs => if evs.length ≤ numEpollEvt then some { s with pc := .event evs } else none
  | _, _ => none

/-- An event of the slot that holds `serv_fd`: accept and register. -/
def stepAccept (s : State N) (a : Accept) (add : Bool) : Option (State N) :=
  match s.pc with
  | .event (i :: rest) =>
      if (s.table.conns i).fd = servFd then
        match acceptConnection s.table a with
        | none => none
        | some o =>
            match o.conId with
            | none => some { s with table := o.table, pc := .event rest }
            | some j =>
                some { s with
                  table := o.table
                  interest := ctlAdd s.interest o.ret j add
                  pc := .event rest }
      else none
  | _ => none

/-- An event of any other slot: handle, and deregister whatever came of it. -/
def stepHandle (s : State N) (r : Recv) : Option (State N) :=
  match s.pc with
  | .event (i :: rest) =>
      if (s.table.conns i).fd = servFd then none
      else
        match handleConnection s.table i r with
        | none => none
        | some o =>
            some { s with
              table := o.table
              interest := ctlDel s.interest (s.table.conns i).fd
              pc := .event rest }
  | _ => none

/-- The clean-up: deregister and close what is left, then close the epoll instance. -/
def stepClose (s : State N) (c : Close) : Option (State N) :=
  match s.pc with
  | .cleanup i =>
      if h : i < N + 1 then
        if s.table.Occupied ⟨i, h⟩ then
          some { s with
            table := (s.table.close (s.table.conns ⟨i, h⟩).fd c).free ⟨i, h⟩
            interest := ctlDel s.interest (s.table.conns ⟨i, h⟩).fd
            pc := .cleanup (i + 1) }
        else none
      else none
  | .closeEpfd => some { s with pc := .done 0 }
  | _ => none

/-- **One step** of `webserver_epoll`. -/
def next (s : State N) : Label N → Option (State N)
  | .stop => some { s with running := false }
  | .go => stepGo s
  | .create ok add => stepCreate servFd s ok add
  | .processingState known =>
      if s.pc = .start then some { s with pc := if known then .head else .done (-1) } else none
  | .wait events => stepWait s events
  | .accept a add => stepAccept servFd s a add
  | .handle r => stepHandle servFd s r
  | .close c => stepClose s c

/-! ## The property -/

/-- **Table and interest list are in step**: a slot is occupied exactly when its descriptor is open
    and registered with `data.ptr` pointing to that slot. -/
def InStep (s : State N) : Prop :=
  ∀ i, s.table.Occupied i ↔
    (s.table.conns i).fd ∈ s.table.opened ∧ s.interest (s.table.conns i).fd = some i

instance (s : State N) : Decidable (InStep s) :=
  inferInstanceAs (Decidable (∀ _, _ ↔ _))

/-- The slot of the event that is worked off next. -/
def current : Pc N → Option (Fin (N + 1))
  | .event (i :: _) => some i
  | _ => none

/-- A connection is accepted, and so one that `nfp_epoll_ctl(ADD)` is called for. -/
def accepts (t : Table (N + 1)) (a : Accept) : Bool :=
  ((acceptConnection t a).bind Accepted.conId).isSome

/-- **A step with no failure that the loop ignores**: `nfp_recv` on a connection does not fail, and
    neither does `nfp_epoll_ctl(ADD)` where it is called. -/
def Sound (s : State N) : Label N → Prop
  | .handle r => r = .error → ∀ i, current s.pc = some i → ¬ s.table.Occupied i
  | .accept a add => accepts s.table a = true → add = true
  | .create ok add => ok = true → add = true
  | _ => True

instance (s : State N) (l : Label N) : Decidable (Sound s l) :=
  match l with
  | .handle _ => inferInstanceAs (Decidable (_ → ∀ _, _ → _))
  | .accept _ _ => inferInstanceAs (Decidable (_ → _))
  | .create _ _ => inferInstanceAs (Decidable (_ → _))
  | .stop => isTrue trivial
  | .go => isTrue trivial
  | .processingState _ => isTrue trivial
  | .wait _ => isTrue trivial
  | .close _ => isTrue trivial

/-! ## The invariant -/

/-- The loop is running. -/
def Running : Pc N → Prop
  | .start => True
  | .head => True
  | .wait => True
  | .event _ => True
  | _ => False

/-- **The invariant**: before the loop the table is free, in it the table is well kept and in step
    with the interest list. -/
structure Inv (s : State N) : Prop where
  before : s.pc = .create → s.table.WellKept ∧ (servFd : Int) ∈ s.table.opened ∧
    ∀ i, ¬ s.table.Occupied i
  during : Running s.pc → s.table.WellKept ∧ InStep s

variable {servFd} {s s' : State N}

/-- A step that moves on and touches neither table nor interest list. -/
theorem Inv.goto (h : Inv servFd s) (hrun : Running s.pc) {pc : Pc N} (hpc : pc ≠ .create) :
    Inv servFd { s with pc := pc } :=
  ⟨fun e => absurd e hpc, fun _ => h.during hrun⟩

/-- Out of the loop nothing is asked. -/
theorem Inv.left {pc : Pc N} (h : s.pc = pc) (hpc : pc ≠ .create) (hrun : ¬ Running pc) :
    Inv servFd s :=
  ⟨fun e => absurd (h.symm.trans e) hpc, fun hr => absurd (h ▸ hr) hrun⟩

/-- No slot of a well-kept table is in step by way of the descriptor -1. -/
theorem not_open_neg {t : Table (N + 1)} (h : t.WellKept) : (-1 : Int) ∉ t.opened := by
  intro hm
  have := h.nonneg _ hm
  omega

section Listen

variable {t : Table (N + 1)} (hk : t.WellKept) (hserv : (servFd : Int) ∈ t.opened)
  (hfree : ∀ i, ¬ t.Occupied i)

theorem listenSlot_zero : ((listenSlot servFd t).conns 0).fd = servFd := by
  simp only [listenSlot, Function.update_self]

include hfree in
/-- With all other slots free, only slot 0 is occupied. -/
theorem listenSlot_ne {j : Fin (N + 1)} (hj : j ≠ 0) : ((listenSlot servFd t).conns j).fd = -1 := by
  simp only [listenSlot, Function.update_of_ne hj]
  exact not_not.mp (hfree j)

include hk hserv hfree

/-- **The listening socket goes into slot 0** of a free table. -/
theorem listenSlot_wellKept : (listenSlot servFd t).WellKept := by
  refine ⟨hk.nonneg, fun j hj => ?_, fun j k hj e => ?_⟩
  · by_cases hj0 : j = 0
    · subst hj0
      rw [listenSlot_zero]
      exact hserv
    · exact absurd (listenSlot_ne hfree hj0) hj
  · have hj0 : j = 0 := Classical.byContradiction fun h => hj (listenSlot_ne hfree h)
    subst hj0
    refine Classical.byContradiction fun hk0 => ?_
    rw [listenSlot_zero, listenSlot_ne hfree (Ne.symm hk0)] at e
    omega

theorem inStep_listen (interest : Int → Option (Fin (N + 1))) {running : Bool} {pc : Pc N} :
    InStep ⟨listenSlot servFd t, ctlAdd interest servFd 0 true, running, pc⟩ := by
  intro j
  show (listenSlot servFd t).Occupied j ↔ ((listenSlot servFd t).conns j).fd ∈ t.opened ∧
    ctlAdd interest servFd 0 true ((listenSlot servFd t).conns j).fd = some j
  unfold Table.Occupied
  by_cases hj0 : j = 0
  · subst hj0
    rw [listenSlot_zero]
    refine ⟨fun _ => ⟨hserv, Function.update_self _ _ _⟩, fun _ => ?_⟩
    omega
  · rw [listenSlot_ne hfree hj0]
    exact ⟨fun h => absurd rfl h, fun h => absurd h.1 (not_open_neg hk)⟩

end Listen

/-- **A new connection, registered for its slot.** -/
theorem inStep_fill (hk : s.table.WellKept) (hin : InStep s) {i : Fin (N + 1)} {fd : Nat}
    (hfd : (fd : Int) ∉ s.table.opened) (addr : UInt32) (pc : Pc N) :
    InStep { s with
      table := s.table.fill i fd addr
      interest := ctlAdd s.interest fd i true
      pc := pc } := by
  intro j
  by_cases hji : j = i
  · subst hji
    have hocc : (s.table.fill j fd addr).Occupied j := by
      unfold Table.Occupied
      rw [Table.fill_conns_self]
      omega
    refine ⟨fun _ => ⟨?_, ?_⟩, fun _ => hocc⟩
    · rw [Table.fill_conns_self]
      exact Finset.mem_insert_self _ _
    · show ctlAdd s.interest fd j true _ = some j
      rw [Table.fill_conns_self]
      exact Function.update_self _ _ _
  · have hne := hk.ne_of_not_open hfd j
    have hconn := Table.fill_conns_ne (t := s.table) hji fd addr
    have hopen : (s.table.conns j).fd ∈ (s.table.fill i fd addr).opened ↔
        (s.table.conns j).fd ∈ s.table.opened := by
      simp only [Table.fill, Finset.mem_insert, hne, false_or]
    have hint :
        ctlAdd s.interest fd i true (s.table.conns j).fd = s.interest (s.table.conns j).fd :=
      Function.update_of_ne hne _ _
    unfold Table.Occupied
    simp only [hconn, hopen, hint]
    exact hin j

/-- **A connection closed, its slot freed, its descriptor deregistered.** -/
theorem inStep_release (hk : s.table.WellKept) (hin : InStep s) {i : Fin (N + 1)}
    {t : Table (N + 1)} (hocc : s.table.Occupied i) (hr : Released s.table t i) (pc : Pc N) :
    InStep { s with
      table := t, interest := ctlDel s.interest (s.table.conns i).fd, pc := pc } := by
  have hk' := hk.release hr
  intro j
  by_cases hji : j = i
  · subst hji
    have hfree : (t.conns j).fd = -1 := by rw [hr.conns, Table.free_conns_self]
    refine ⟨fun h => absurd hfree h, fun h => ?_⟩
    have hm : (t.conns j).fd ∈ t.opened := h.1
    rw [hfree] at hm
    exact absurd hm (not_open_neg hk')
  · have hconn : t.conns j = s.table.conns j := by rw [hr.conns, Table.free_conns_ne hji]
    have hne : s.table.Occupied j → (s.table.conns j).fd ≠ (s.table.conns i).fd :=
      fun hj e => hji (hk.distinct j i hj e)
    show t.Occupied j ↔ (t.conns j).fd ∈ t.opened ∧
      ctlDel s.interest (s.table.conns i).fd (t.conns j).fd = some j
    unfold Table.Occupied
    rw [hconn]
    constructor
    · intro hj
      obtain ⟨hopen, hreg⟩ := (hin j).mp hj
      exact ⟨hr.kept _ hopen (hne hj), (Function.update_of_ne (hne hj) _ _).trans hreg⟩
    · rintro ⟨hopen, -⟩ hfd
      rw [hfd] at hopen
      exact not_open_neg hk' hopen

/-- A free slot deregistered: nothing happens, -1 is not registered for any occupied slot. -/
theorem inStep_idle (hk : s.table.WellKept) (hin : InStep s) {i : Fin (N + 1)}
    (hfree : ¬ s.table.Occupied i) (pc : Pc N) :
    InStep { s with interest := ctlDel s.interest (s.table.conns i).fd, pc := pc } := by
  have hfd : (s.table.conns i).fd = -1 := not_not.mp hfree
  intro j
  show s.table.Occupied j ↔ (s.table.conns j).fd ∈ s.table.opened ∧
    ctlDel s.interest (s.table.conns i).fd (s.table.conns j).fd = some j
  rw [hfd]
  constructor
  · intro hj
    obtain ⟨hopen, hreg⟩ := (hin j).mp hj
    exact ⟨hopen, (Function.update_of_ne hj _ _).trans hreg⟩
  · rintro ⟨hopen, -⟩ hm
    rw [hm] at hopen
    exact not_open_neg hk hopen

/-! ## The steps -/

theorem inv_go (h : Inv servFd s) (hs : stepGo s = some s') : Inv servFd s' := by
  unfold stepGo at hs
  split at hs
  · rename_i hpc
    have hrun : Running s.pc := by rw [hpc]; trivial
    split at hs
    · cases hs
      exact h.goto hrun nofun
    · cases hs
      exact h.goto hrun nofun
  · rename_i hpc
    cases hs
    exact h.goto (by rw [hpc]; trivial) nofun
  · split at hs
    · split at hs
      · cases hs
      · cases hs
        exact .left rfl nofun id
    · cases hs
      exact .left rfl nofun id
  · cases hs

theorem inv_create (h : Inv servFd s) {ok add : Bool} (hadd : ok = true → add = true)
    (hs : stepCreate servFd s ok add = some s') : Inv servFd s' := by
  unfold stepCreate at hs
  split at hs
  · rename_i hpc
    split at hs
    · rename_i hok
      cases hs
      rw [hadd hok]
      obtain ⟨hk, hserv, hfree⟩ := h.before hpc
      exact ⟨nofun, fun _ => ⟨listenSlot_wellKept hk hserv hfree, inStep_listen hk hserv hfree _⟩⟩
    · cases hs
      exact .left rfl nofun id
  · cases hs

theorem inv_wait (h : Inv servFd s) {events : Option (List (Fin (N + 1)))}
    (hs : stepWait s events = some s') : Inv servFd s' := by
  unfold stepWait at hs
  split at hs
  · cases hs
    exact .left rfl nofun id
  · rename_i hpc
    split at hs
    · cases hs
      exact h.goto (by rw [hpc]; trivial) nofun
    · cases hs
  · cases hs

theorem inv_accept (h : Inv servFd s) {a : Accept} {add : Bool}
    (hadd : accepts s.table a = true → add = true)
    (hs : stepAccept servFd s a add = some s') : Inv servFd s' := by
  unfold stepAccept at hs
  split at hs
  · rename_i i rest hpc
    obtain ⟨hk, hin⟩ := h.during (by rw [hpc]; trivial)
    split at hs
    · split at hs
      · cases hs
      · rename_i o ho
        rcases acceptConnection_cases ho with
          ⟨ht, -, hid⟩ | ⟨j, fd, addr, -, hfree, hfd, ht, hret, hid⟩
        · rw [hid] at hs
          cases hs
          rw [ht]
          exact ⟨nofun, fun _ => ⟨hk, hin⟩⟩
        · have haccepts : accepts s.table a = true := by
            unfold accepts
            rw [ho, Option.bind_some, hid]
            rfl
          rw [hid] at hs
          cases hs
          rw [ht, hret, hadd haccepts]
          exact ⟨nofun, fun _ => ⟨hk.fill j hfd addr, inStep_fill hk hin hfd addr _⟩⟩
    · cases hs
  · cases hs

theorem inv_handle (h : Inv servFd s) {r : Recv} (hok : Sound s (.handle r))
    (hs : stepHandle servFd s r = some s') : Inv servFd s' := by
  unfold stepHandle at hs
  split at hs
  · rename_i i _ hpc
    obtain ⟨hk, hin⟩ := h.during (by rw [hpc]; trivial)
    split at hs
    · cases hs
    · split at hs
      · cases hs
      · rename_i o ho
        cases hs
        rcases handleConnection_cases ho with ⟨ht, hwhy⟩ | ⟨hocc, -, hr⟩
        · -- the slot was free: a failed `nfp_recv` is not among the sound steps
          have hfree : ¬ s.table.Occupied i := hwhy.elim id fun e => hok e i (by rw [hpc]; rfl)
          rw [ht]
          exact ⟨nofun, fun _ => ⟨hk, inStep_idle hk hin hfree _⟩⟩
        · exact ⟨nofun, fun _ => ⟨hk.release hr, inStep_release hk hin hocc hr _⟩⟩
  · cases hs

theorem inv_close {c : Close} (hs : stepClose s c = some s') : Inv servFd s' := by
  unfold stepClose at hs
  split at hs
  · split at hs
    · split at hs
      · cases hs
        exact .left rfl nofun id
      · cases hs
    · cases hs
  · cases hs
    exact .left rfl nofun id
  · cases hs

/-- **Every sound step keeps the invariant.** -/
theorem Inv.next {l : Label N} (h : Inv servFd s) (hok : Sound s l)
    (hs : next servFd s l = some s') : Inv servFd s' := by
  cases l with
  | stop =>
      cases hs
      exact ⟨h.before, h.during⟩
  | go => exact inv_go h hs
  | create ok add => exact inv_create h hok hs
  | processingState known =>
      simp only [Epoll.next] at hs
      split at hs
      · rename_i hpc
        cases hs
        have hrun : Running s.pc := by rw [hpc]; trivial
        cases known with
        | true => exact h.goto hrun nofun
        | false => exact h.goto hrun nofun
      · cases hs
  | wait events => exact inv_wait h hs
  | accept a add => exact inv_accept h hok hs
  | handle r => exact inv_handle h hok hs
  | close c => exact inv_close hs

end Machine

/-- **Every run of `webserver_epoll`** in which no `nfp_recv` on a connection and no
    `nfp_epoll_ctl(ADD)` fails: at every call of `nfp_epoll_wait` table and interest list are in
    step. -/
theorem webserverEpoll_inStep (N : Nat) (b : Boot) {s : State N}
    (h : Reach (next b.servFd) Sound (.boot N b) s) (hpc : s.pc = .wait) : InStep s := by
  have h0 : Inv b.servFd (State.boot N b) :=
    ⟨fun _ => ⟨Table.allFree_wellKept b.nonneg, b.serv_open, fun i hi => hi rfl⟩, fun hr => hr.elim⟩
  have hinv : Inv b.servFd s := h.inv h0 fun _ _ _ hi hok hs => hi.next hok hs
  exact (hinv.during (by rw [hpc]; trivial)).2

/-- The listening socket is descriptor 5. -/
def bootFive : Boot := ⟨5, {5}, by decide, by decide⟩

/-- Two connections; the first is answered and closed, and its number is given out again. -/
def reuse : List (Label 2) :=
  [.create true true, .processingState true, .go, .wait (some [0, 0]), .accept (.conn 7 1) true,
    .accept (.conn 8 2) true, .go, .go, .wait (some [1, 0, 1]), .handle (.data [71] [.ok]),
    .accept (.conn 7 3) true, .handle (.eof .ok), .go, .go]

theorem webserverEpoll_inStep_reuse :
    ∃ s, Reach (next bootFive.servFd) Sound (.boot 2 bootFive) s ∧
      (s.pc = .wait ∧ s.table.Occupied 2) ∧ InStep s := by
  have hrun : (run (restrict (next bootFive.servFd) Sound) (.boot 2 bootFive) reuse).any
      (fun s => decide (s.pc = .wait ∧ s.table.Occupied 2)) := by decide
  obtain ⟨s, hr, hs⟩ := Reach.of_run_any hrun
  have hs' := of_decide_eq_true hs
  have hr' := hr.of_restrict
  exact ⟨s, hr', hs', webserverEpoll_inStep 2 bootFive hr' hs'.1⟩

/-- **One connection whose `nfp_recv` fails**: back at `nfp_epoll_wait` its slot is occupied and
    its descriptor no longer registered. -/
theorem recv_error_leaks_slot :
    ∃ s : State 1, Reach (next bootFive.servFd) anyStep (.boot 1 bootFive) s ∧ s.pc = .wait ∧
      ¬ InStep s := by
  have hrun : (run (next bootFive.servFd) (State.boot 1 bootFive)
      [.create true true, .processingState true, .go, .wait (some [0]), .accept (.conn 7 1) true,
        .go, .go, .wait (some [1]), .handle .error, .go, .go]).any
      (fun s => decide (s.pc = .wait ∧ ¬ InStep s)) := by decide
  obtain ⟨s, hr, hs⟩ := Reach.of_run_any hrun
  have hs' := of_decide_eq_true hs
  exact ⟨s, hr, hs'.1, hs'.2⟩

end Nfp.Webserver.Epoll
