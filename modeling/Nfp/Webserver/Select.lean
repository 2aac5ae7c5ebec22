/-
  File:      Nfp/Webserver/Select.lean
  Subject:   `webserver_select` of example/webserver/httpd.c: the loop around `nfp_select`.

  `read_fd` is zeroed once, before the loop; from then on bits are set before every `nfp_select`
  and cleared, one by one, for the connections that were handled. A bit left standing for a
  descriptor that has been closed would come back with the next connection that is given the
  same number. The invariant (`LoopInv`) is that there is none: at every point of the loop each
  bit is that of `serv_fd` or of an occupied slot.

  A descriptor set is a finite set of descriptors (nfp_select.h: `NFP_FD_SET`, `NFP_FD_CLR`,
  `NFP_FD_ISSET`). Three ghost fields of the state remember what the last `nfp_select` reported,
  which descriptor was accepted since, and the calls of `nfp_recv` made so far, each with the other
  two as they were then.

  * `Monitored` -- what every call of `nfp_select` is given; `RecvCall.Reported` -- what every call
    of `nfp_recv` is made on;
  * `Inv.next`, `recvs_next` -- the step lemmas; **`webserverSelect_monitors`** -- every run.
-/
import Nfp.Lib.Run
import Nfp.Webserver.Connections

namespace Nfp.Webserver.Select

open Nfp.Lib

/-- Where the loop is. `slot i` and `cleanup i` are the two loops over the table; at `N` they are
    over. -/
inductive Pc where
  | start
  | head
  | select
  | accept
  | slot (i : Nat)
  | cleanup (i : Nat)
  | closeServ
  | done (ret : Int)
  deriving DecidableEq, Repr

/-- A call of `nfp_recv`: its descriptor, what the last `nfp_select` before it reported, and the
    descriptor accepted since. -/
structure RecvCall where
  fd : Int
  reported : Finset Int
  fresh : Option Int
  deriving DecidableEq

/-- **The state**: the table, `read_fd`, `nfds`, `*is_running`; ghost: what the last `nfp_select`
    reported, the descriptor accepted since, and the calls of `nfp_recv`. -/
structure State (N : Nat) where
  table : Table N
  readFd : Finset Int
  nfds : Int
  running : Bool
  pc : Pc
  reported : Finset Int
  fresh : Option Int
  recvs : List RecvCall

/-- What can happen next: `nfp_stop_processing` is called somewhere, or the server goes on -- by
    itself, or with the answer of the call it makes (for `nfp_select` the result and the set
    left behind). -/
inductive Label where
  | stop
  | go
  | processingState (known : Bool)
  | select (r : Int) (left : Finset Int)
  | accept (a : Accept)
  | handle (r : Recv)
  | close (c : Close)
  deriving DecidableEq

/-- **What the server starts from**: the listening socket is open, and so may other descriptors
    be. -/
structure Boot where
  servFd : Int
  opened : Finset Int
  serv_open : servFd ∈ opened
  nonneg : ∀ fd ∈ opened, 0 ≤ fd

/-- The table is all free, `NFP_FD_ZERO(&read_fd)`, `nfds = serv_fd`. -/
def State.boot (N : Nat) (b : Boot) : State N where
  table := .allFree b.opened
  readFd := ∅
  nfds := b.servFd
  running := true
  pc := .start
  reported := ∅
  fresh := none
  recvs := []

section Machine

variable {N : Nat} (servFd : Int)

/-- Slot `i` is occupied and its bit is set. -/
def Ready (s : State N) (i : Fin N) : Prop :=
  s.table.Occupied i ∧ (s.table.conns i).fd ∈ s.readFd

instance (s : State N) (i : Fin N) : Decidable (Ready s i) := inferInstanceAs (Decidable (_ ∧ _))

/-- The steps the server takes by itself. -/
def stepGo (s : State N) : Option (State N) :=
  match s.pc with
  | .head =>
      if s.running then
        some { s with
          readFd := monitorConnections s.table (insert servFd s.readFd)
          pc := .select }
      else some { s with pc := .cleanup 0 }
  | .accept => if servFd ∈ s.readFd then none else some { s with pc := .slot 0 }
  | .slot i =>
      if h : i < N then
        if Ready s ⟨i, h⟩ then none else some { s with pc := .slot (i + 1) }
      else some { s with pc := .head }
  | .cleanup i =>
      if h : i < N then
        if s.table.Occupied ⟨i, h⟩ then none else some { s with pc := .cleanup (i + 1) }
      else some { s with pc := .closeServ }
  | _ => none

/-- `nfp_select`: it never sets a bit it was not given; a time-out goes round the loop, an error
    leaves it, and neither reports anything. -/
def stepSelect (s : State N) (r : Int) (left : Finset Int) : Option (State N) :=
  match s.pc with
  | .select =>
      if left ⊆ s.readFd then
        some (if r ≤ 0 then
            if r = 0 then { s with readFd := left, reported := ∅, fresh := none, pc := .head }
            else { s with readFd := left, reported := ∅, fresh := none, pc := .cleanup 0 }
          else { s with readFd := left, reported := left, fresh := none, pc := .accept })
      else none
  | _ => none

/-- `accept_connection`, and the update of `nfds`. -/
def stepAccept (s : State N) (a : Accept) : Option (State N) :=
  match s.pc with
  | .accept =>
      if servFd ∈ s.readFd then
        match acceptConnection s.table a with
        | none => none
        | some o =>
            some { s with
              table := o.table
              nfds := if o.ret > s.nfds then o.ret else s.nfds
              fresh := o.conId.map fun _ => o.ret
              pc := .slot 0 }
      else none
  | _ => none

/-- `handle_connection` on a slot whose bit is set, and `NFP_FD_CLR`. -/
def stepHandle (s : State N) (r : Recv) : Option (State N) :=
  match s.pc with
  | .slot i =>
      if h : i < N then
        if Ready s ⟨i, h⟩ then
          match handleConnection s.table ⟨i, h⟩ r with
          | none => none
          | some o =>
              some { s with
                table := o.table
                readFd := s.readFd.erase (s.table.conns ⟨i, h⟩).fd
                recvs := s.recvs ++
                  (o.received.map fun fd => ⟨fd, s.reported, s.fresh⟩).toList
                pc := .slot (i + 1) }
        else none
      else none
  | _ => none

/-- The `nfp_close` calls of the clean-up: of every connection left, then of `serv_fd`. -/
def stepClose (s : State N) (c : Close) : Option (State N) :=
  match s.pc with
  | .cleanup i =>
      if h : i < N then
        if s.table.Occupied ⟨i, h⟩ then
          some { s with
            table := (s.table.close (s.table.conns ⟨i, h⟩).fd c).free ⟨i, h⟩
            readFd := s.readFd.erase (s.table.conns ⟨i, h⟩).fd
            pc := .cleanup (i + 1) }
        else none
      else none
  | .closeServ => some { s with table := s.table.close servFd c, pc := .done 0 }
  | _ => none

/-- **One step** of `webserver_select`. -/
def next (s : State N) : Label → Option (State N)
  | .stop => some { s with running := false }
  | .go => stepGo servFd s
  | .processingState known =>
      if s.pc = .start then some { s with pc := if known then .head else .done (-1) } else none
  | .select r left => stepSelect s r left
  | .accept a => stepAccept servFd s a
  | .handle r => stepHandle s r
  | .close c => stepClose servFd s c

/-! ## The property -/

/-- **What every call of `nfp_select` is given**: a set that holds exactly `serv_fd` and the
    descriptors of the occupied slots, all of them open, pairwise distinct and at most `nfds`. -/
structure Monitored (s : State N) : Prop where
  exact_set : ∀ fd, fd ∈ s.readFd ↔
    fd = servFd ∨ ∃ i, s.table.Occupied i ∧ (s.table.conns i).fd = fd
  distinct : ∀ i j, s.table.Occupied i → (s.table.conns i).fd = (s.table.conns j).fd → i = j
  apart : ∀ i, s.table.Occupied i → (s.table.conns i).fd ≠ servFd
  opened : ∀ fd ∈ s.readFd, fd ∈ s.table.opened
  below : ∀ fd ∈ s.readFd, fd ≤ s.nfds

/-- **What every call of `nfp_recv` is made on**: a descriptor that the `nfp_select` before it
    reported readable, and not the one accepted since. -/
def RecvCall.Reported (c : RecvCall) : Prop := c.fd ∈ c.reported ∧ c.fresh ≠ some c.fd

instance (c : RecvCall) : Decidable c.Reported := inferInstanceAs (Decidable (_ ∧ _))

/-! ## The invariant -/

/-- **The invariant of the loop**: a well-kept table, apart from `serv_fd` and below `nfds`, and
    no bit in `read_fd` that is not `serv_fd`'s or an occupied slot's. -/
structure LoopInv (s : State N) : Prop where
  kept : s.table.WellKept
  serv : servFd ∈ s.table.opened
  serv_le : servFd ≤ s.nfds
  apart : ∀ i, s.table.Occupied i → (s.table.conns i).fd ≠ servFd
  below : ∀ i, s.table.Occupied i → (s.table.conns i).fd ≤ s.nfds
  known : ∀ fd ∈ s.readFd, fd = servFd ∨ ∃ i, s.table.Occupied i ∧ (s.table.conns i).fd = fd

/-- What holds besides, by position: at `nfp_select` every bit that should be there is; after it
    the set has only shrunk, and does not hold a descriptor accepted since. -/
def Here (s : State N) : Prop :=
  match s.pc with
  | .select => servFd ∈ s.readFd ∧ ∀ i, s.table.Occupied i → (s.table.conns i).fd ∈ s.readFd
  | .accept => s.readFd ⊆ s.reported ∧ s.fresh = none
  | .slot _ => s.readFd ⊆ s.reported ∧ ∀ fd, s.fresh = some fd → fd ∉ s.readFd
  | _ => True

/-- The loop has been left. -/
def Left : Pc → Prop
  | .cleanup _ => True
  | .closeServ => True
  | .done _ => True
  | _ => False

/-- The invariant of the whole function. -/
def Inv (s : State N) : Prop := Left s.pc ∨ (LoopInv servFd s ∧ Here servFd s)

variable {servFd} {s s' : State N}

/-- Only the position changes. -/
theorem LoopInv.goto (h : LoopInv servFd s) (pc : Pc) : LoopInv servFd { s with pc := pc } :=
  ⟨h.kept, h.serv, h.serv_le, h.apart, h.below, h.known⟩

/-- The set may shrink. -/
theorem LoopInv.shrink (h : LoopInv servFd s) {set : Finset Int} (hsub : set ⊆ s.readFd) (pc : Pc)
    (reported : Finset Int) (fresh : Option Int) :
    LoopInv servFd { s with readFd := set, pc := pc, reported := reported, fresh := fresh } :=
  ⟨h.kept, h.serv, h.serv_le, h.apart, h.below, fun fd hfd => h.known fd (hsub hfd)⟩

/-- **At the head of the loop the set is made complete.** -/
theorem LoopInv.monitor (h : LoopInv servFd s) :
    Inv servFd { s with
      readFd := monitorConnections s.table (insert servFd s.readFd)
      pc := .select } := by
  refine Or.inr
    ⟨⟨h.kept, h.serv, h.serv_le, h.apart, h.below, fun fd hfd => ?_⟩, ?_, fun i hi => ?_⟩
  · rcases mem_monitorConnections.mp hfd with hfd | hfd
    · rcases Finset.mem_insert.mp hfd with hfd | hfd
      · exact Or.inl hfd
      · exact h.known fd hfd
    · exact Or.inr hfd
  · exact mem_monitorConnections.mpr (Or.inl (Finset.mem_insert_self _ _))
  · exact mem_monitorConnections.mpr (Or.inr ⟨i, hi, rfl⟩)

/-- **A new connection**: its descriptor was not open, so its bit is not set. -/
theorem LoopInv.accepted (h : LoopInv servFd s) {i : Fin N} {fd : Nat}
    (hfree : (s.table.conns i).fd = -1) (hfd : (fd : Int) ∉ s.table.opened) (addr : UInt32)
    (fresh : Option Int) :
    LoopInv servFd { s with
      table := s.table.fill i fd addr
      nfds := if (fd : Int) > s.nfds then fd else s.nfds
      fresh := fresh
      pc := .slot 0 } ∧ (fd : Int) ∉ s.readFd := by
  have hnfds : s.nfds ≤ (if (fd : Int) > s.nfds then (fd : Int) else s.nfds) := by
    split
    · omega
    · omega
  have hother : ∀ j, j ≠ i → (s.table.fill i fd addr).Occupied j → s.table.Occupied j := by
    intro j hj hocc
    unfold Table.Occupied at hocc ⊢
    rw [Table.fill_conns_ne hj] at hocc
    exact hocc
  refine ⟨⟨h.kept.fill i hfd addr, Finset.mem_insert_of_mem h.serv, le_trans h.serv_le hnfds,
    fun j hj => ?_, fun j hj => ?_, fun d hd => ?_⟩, fun hin => ?_⟩
  · by_cases hji : j = i
    · subst hji
      intro e
      rw [Table.fill_conns_self] at e
      exact hfd (e ▸ h.serv)
    · rw [Table.fill_conns_ne hji]
      exact h.apart j (hother j hji hj)
  · by_cases hji : j = i
    · subst hji
      show ((s.table.fill j fd addr).conns j).fd ≤
        if (fd : Int) > s.nfds then (fd : Int) else s.nfds
      rw [Table.fill_conns_self]
      split
      · omega
      · omega
    · rw [Table.fill_conns_ne hji]
      exact le_trans (h.below j (hother j hji hj)) hnfds
  · rcases h.known d hd with hd | ⟨j, hj, hd⟩
    · exact Or.inl hd
    · have hji : j ≠ i := fun e => hj (e ▸ hfree)
      refine Or.inr ⟨j, ?_, ?_⟩
      · unfold Table.Occupied
        rw [Table.fill_conns_ne hji]
        exact hj
      · rw [Table.fill_conns_ne hji]
        exact hd
  · -- a set bit is that of an open descriptor
    rcases h.known _ hin with e | ⟨j, hj, e⟩
    · exact hfd (e ▸ h.serv)
    · exact h.kept.ne_of_not_open hfd j e

/-- **A connection handled**: whatever happened to it, its bit is cleared. -/
theorem LoopInv.handled (h : LoopInv servFd s) {i : Fin N} {t : Table N}
    (ht : t = s.table ∨ (s.table.Occupied i ∧ Released s.table t i)) (recvs : List RecvCall)
    (pc : Pc) :
    LoopInv servFd { s with
      table := t, readFd := s.readFd.erase (s.table.conns i).fd, recvs := recvs, pc := pc } := by
  rcases ht with rfl | ⟨hocc, hr⟩
  · exact ⟨h.kept, h.serv, h.serv_le, h.apart, h.below,
      fun fd hfd => h.known fd (Finset.mem_of_mem_erase hfd)⟩
  · have hwas : ∀ j, t.Occupied j → s.table.Occupied j ∧ t.conns j = s.table.conns j := by
      intro j hj
      obtain ⟨-, e⟩ := Table.released_occupied hr hj
      exact ⟨by unfold Table.Occupied at hj ⊢; rw [← e]; exact hj, e⟩
    refine ⟨h.kept.release hr, hr.kept _ h.serv (h.apart i hocc).symm, h.serv_le, fun j hj => ?_,
      fun j hj => ?_, fun d hd => ?_⟩
    · rw [(hwas j hj).2]
      exact h.apart j (hwas j hj).1
    · rw [(hwas j hj).2]
      exact h.below j (hwas j hj).1
    · obtain ⟨hne, hin⟩ := Finset.mem_erase.mp hd
      rcases h.known d hin with e | ⟨j, hj, e⟩
      · exact Or.inl e
      · have hji : j ≠ i := by
          rintro rfl
          exact hne e.symm
        have hsame : t.conns j = s.table.conns j := by rw [hr.conns, Table.free_conns_ne hji]
        refine Or.inr ⟨j, ?_, by rw [hsame]; exact e⟩
        unfold Table.Occupied
        rw [hsame]
        exact hj

/-! ## The steps -/

theorem inv_go (h : Inv servFd s) (hs : stepGo servFd s = some s') : Inv servFd s' := by
  unfold stepGo at hs
  unfold Inv at h
  split at hs
  · rename_i hpc
    rw [hpc] at h
    obtain ⟨hl, -⟩ := h.resolve_left id
    split at hs
    · cases hs
      exact hl.monitor
    · cases hs
      exact Or.inl trivial
  · rename_i hpc
    rw [hpc] at h
    obtain ⟨hl, hh⟩ := h.resolve_left id
    unfold Here at hh
    rw [hpc] at hh
    split at hs
    · cases hs
    · cases hs
      refine Or.inr ⟨hl.goto _, hh.1, fun fd e => ?_⟩
      have hnone : s.fresh = some fd := e
      rw [hh.2] at hnone
      cases hnone
  · rename_i i hpc
    rw [hpc] at h
    obtain ⟨hl, hh⟩ := h.resolve_left id
    unfold Here at hh
    rw [hpc] at hh
    split at hs
    · split at hs
      · cases hs
      · cases hs
        exact Or.inr ⟨hl.goto _, hh⟩
    · cases hs
      exact Or.inr ⟨hl.goto _, trivial⟩
  · split at hs
    · split at hs
      · cases hs
      · cases hs
        exact Or.inl trivial
    · cases hs
      exact Or.inl trivial
  · cases hs

theorem inv_select (h : Inv servFd s) {r : Int} {left : Finset Int}
    (hs : stepSelect s r left = some s') : Inv servFd s' := by
  unfold stepSelect at hs
  split at hs
  · rename_i hpc
    unfold Inv at h
    rw [hpc] at h
    obtain ⟨hl, -⟩ := h.resolve_left id
    split at hs
    · rename_i hsub
      cases hs
      split
      · split
        · exact Or.inr ⟨hl.shrink hsub _ _ _, trivial⟩
        · exact Or.inl trivial
      · exact Or.inr ⟨hl.shrink hsub _ _ _, Finset.Subset.refl _, rfl⟩
    · cases hs
  · cases hs

theorem inv_accept (h : Inv servFd s) {a : Accept} (hs : stepAccept servFd s a = some s') :
    Inv servFd s' := by
  unfold stepAccept at hs
  split at hs
  · rename_i hpc
    unfold Inv at h
    rw [hpc] at h
    obtain ⟨hl, hh⟩ := h.resolve_left id
    unfold Here at hh
    rw [hpc] at hh
    split at hs
    · split at hs
      · cases hs
      · rename_i o ho
        cases hs
        rcases acceptConnection_cases ho with
          ⟨ht, hret, hid⟩ | ⟨i, fd, addr, -, hfree, hfd, ht, hret, hid⟩
        · have hnfds : (if o.ret > s.nfds then o.ret else s.nfds) = s.nfds := by
            have hpos := hl.kept.nonneg _ hl.serv
            have hle := hl.serv_le
            rw [hret, if_neg (by omega)]
          refine Or.inr ⟨?_, hh.1, fun fd e => ?_⟩
          · rw [hnfds, ht]
            exact ⟨hl.kept, hl.serv, hl.serv_le, hl.apart, hl.below, hl.known⟩
          · have hnone : (o.conId.map fun _ => o.ret) = some fd := e
            rw [hid] at hnone
            cases hnone
        · obtain ⟨hl', hnot⟩ := hl.accepted hfree hfd addr (some (fd : Int))
          rw [ht, hret, hid]
          refine Or.inr ⟨hl', hh.1, fun d e => ?_⟩
          have hd : (fd : Int) = d := Option.some.inj e
          exact hd ▸ hnot
    · cases hs
  · cases hs

theorem inv_handle (h : Inv servFd s) {r : Recv} (hs : stepHandle s r = some s') :
    Inv servFd s' := by
  unfold stepHandle at hs
  split at hs
  · rename_i i hpc
    unfold Inv at h
    rw [hpc] at h
    obtain ⟨hl, hh⟩ := h.resolve_left id
    unfold Here at hh
    rw [hpc] at hh
    split at hs
    · split at hs
      · split at hs
        · cases hs
        · rename_i o ho
          cases hs
          have ht : o.table = s.table ∨ (s.table.Occupied ⟨i, by assumption⟩ ∧
              Released s.table o.table ⟨i, by assumption⟩) := by
            rcases handleConnection_cases ho with ⟨ht, -⟩ | ⟨hocc, -, hr⟩
            · exact Or.inl ht
            · exact Or.inr ⟨hocc, hr⟩
          refine Or.inr ⟨hl.handled ht _ _, ?_, fun fd e hin => ?_⟩
          · exact fun d hd => hh.1 (Finset.mem_of_mem_erase hd)
          · exact hh.2 fd e (Finset.mem_of_mem_erase hin)
      · cases hs
    · cases hs
  · cases hs

theorem inv_close {c : Close} (hs : stepClose servFd s c = some s') : Inv servFd s' := by
  unfold stepClose at hs
  split at hs
  · split at hs
    · split at hs
      · cases hs
        exact Or.inl trivial
      · cases hs
    · cases hs
  · cases hs
    exact Or.inl trivial
  · cases hs

/-- **Every step keeps the invariant.** -/
theorem Inv.next {l : Label} (h : Inv servFd s) (hs : next servFd s l = some s') :
    Inv servFd s' := by
  cases l with
  | stop =>
      cases hs
      rcases h with h | ⟨hl, hh⟩
      · exact Or.inl h
      · exact Or.inr ⟨⟨hl.kept, hl.serv, hl.serv_le, hl.apart, hl.below, hl.known⟩, hh⟩
  | go => exact inv_go h hs
  | processingState known =>
      simp only [Select.next] at hs
      split at hs
      · rename_i hpc
        cases hs
        unfold Inv at h
        rw [hpc] at h
        obtain ⟨hl, -⟩ := h.resolve_left id
        cases known with
        | true => exact Or.inr ⟨hl.goto _, trivial⟩
        | false => exact Or.inl trivial
      · cases hs
  | select r left => exact inv_select h hs
  | accept a => exact inv_accept h hs
  | handle r => exact inv_handle h hs
  | close c => exact inv_close hs

/-- **The calls of `nfp_recv` a step makes**: none, or one on a slot of the table whose bit is
    set. -/
theorem recvs_next {l : Label} (hs : next servFd s l = some s') :
    s'.recvs = s.recvs ∨
    ∃ i, ∃ h : i < N, s.pc = .slot i ∧ Ready s ⟨i, h⟩ ∧
      s'.recvs = s.recvs ++ [⟨(s.table.conns ⟨i, h⟩).fd, s.reported, s.fresh⟩] := by
  cases l with
  | handle r =>
      simp only [Select.next, stepHandle] at hs
      split at hs
      · rename_i i hpc
        split at hs
        · rename_i h
          split at hs
          · rename_i hready
            split at hs
            · cases hs
            · rename_i o ho
              cases hs
              have hfd := handleConnection_received ho
              cases hrecv : o.received with
              | none => exact Or.inl (List.append_nil _)
              | some fd =>
                  rw [hrecv] at hfd
                  rw [hfd fd rfl]
                  exact Or.inr ⟨i, h, hpc, hready, rfl⟩
          · cases hs
        · cases hs
      · cases hs
  | stop =>
      cases hs
      exact Or.inl rfl
  | go =>
      simp only [Select.next, stepGo] at hs
      repeat' split at hs
      all_goals cases hs
      all_goals exact Or.inl rfl
  | processingState known =>
      simp only [Select.next] at hs
      split at hs
      · cases hs
        exact Or.inl rfl
      · cases hs
  | select r left =>
      simp only [Select.next, stepSelect] at hs
      repeat' split at hs
      all_goals cases hs
      all_goals exact Or.inl rfl
  | accept a =>
      simp only [Select.next, stepAccept] at hs
      repeat' split at hs
      all_goals cases hs
      all_goals exact Or.inl rfl
  | close c =>
      simp only [Select.next, stepClose] at hs
      repeat' split at hs
      all_goals cases hs
      all_goals exact Or.inl rfl

/-- **Every step makes its calls of `nfp_recv` on reported descriptors.** -/
theorem reported_next {l : Label} (h : Inv servFd s) (hrecvs : ∀ c ∈ s.recvs, c.Reported)
    (hs : next servFd s l = some s') : ∀ c ∈ s'.recvs, c.Reported := by
  rcases recvs_next hs with hsame | ⟨i, hi, hpc, hready, hmore⟩
  · rw [hsame]
    exact hrecvs
  · unfold Inv at h
    rw [hpc] at h
    obtain ⟨-, hh⟩ := h.resolve_left id
    unfold Here at hh
    rw [hpc] at hh
    rw [hmore]
    refine List.forall_mem_append.mpr ⟨hrecvs, List.forall_mem_singleton.mpr ?_⟩
    exact ⟨hh.1 hready.2, fun e => hh.2 _ e hready.2⟩

end Machine

theorem inv_boot (N : Nat) (b : Boot) : Inv b.servFd (State.boot N b) := by
  refine Or.inr ⟨⟨Table.allFree_wellKept b.nonneg, b.serv_open, le_refl _, fun i hi => ?_,
    fun i hi => ?_, fun fd hfd => ?_⟩, trivial⟩
  · exact absurd rfl hi
  · exact absurd rfl hi
  · exact absurd hfd (Finset.notMem_empty fd)

/-- **Every run of `webserver_select`**, for a table of any size: whenever `nfp_select` is called
    the set is exactly right, and every call of `nfp_recv` was made on a descriptor that the last
    `nfp_select` before it reported and that was not accepted since. -/
theorem webserverSelect_monitors (N : Nat) (b : Boot) {s : State N}
    (h : Reach (next b.servFd) anyStep (.boot N b) s) :
    (s.pc = .select → Monitored b.servFd s) ∧ ∀ c ∈ s.recvs, c.Reported := by
  have hboth : Inv b.servFd s ∧ ∀ c ∈ s.recvs, c.Reported :=
    h.inv (I := fun s => Inv b.servFd s ∧ ∀ c ∈ s.recvs, c.Reported)
      ⟨inv_boot N b, fun _ hc => absurd hc List.not_mem_nil⟩
      fun _ _ _ hi _ hs => ⟨hi.1.next hs, reported_next hi.1 hi.2 hs⟩
  obtain ⟨hinv, hrecvs⟩ := hboth
  refine ⟨fun hpc => ?_, hrecvs⟩
  unfold Inv at hinv
  rw [hpc] at hinv
  obtain ⟨hl, hh⟩ := hinv.resolve_left id
  unfold Here at hh
  rw [hpc] at hh
  refine ⟨fun fd => ⟨hl.known fd, ?_⟩, hl.kept.distinct, hl.apart, fun fd hfd => ?_,
    fun fd hfd => ?_⟩
  · rintro (rfl | ⟨i, hi, rfl⟩)
    · exact hh.1
    · exact hh.2 i hi
  · rcases hl.known fd hfd with rfl | ⟨i, hi, rfl⟩
    · exact hl.serv
    · exact hl.kept.live i hi
  · rcases hl.known fd hfd with rfl | ⟨i, hi, rfl⟩
    · exact hl.serv_le
    · exact hl.below i hi

/-- The listening socket is descriptor 5, and the process has 6 open besides. -/
def bootFive : Boot := ⟨5, {5, 6}, by decide, by decide⟩

/-- A connection comes, is answered and closed, and its number comes again while another waits. -/
def reuse : List Label :=
  [.processingState true, .go, .select 1 {5}, .accept (.conn 7 1), .go, .go, .go,
    .go, .select 2 {5, 7}, .accept (.conn 8 2), .handle (.data [71] [.error false, .ok]), .go, .go,
    .go, .select 1 {5}, .accept (.conn 7 3), .go, .go, .go, .go]

theorem webserverSelect_monitors_reuse :
    ∃ s : State 2, Reach (next bootFive.servFd) anyStep (.boot 2 bootFive) s ∧
      (s.pc = .select ∧ s.readFd = {5, 7, 8} ∧ s.recvs.map RecvCall.fd = [7]) ∧
      Monitored bootFive.servFd s ∧ ∀ c ∈ s.recvs, c.Reported := by
  have hrun : (run (next bootFive.servFd) (State.boot 2 bootFive) reuse).any (fun s =>
      decide (s.pc = .select ∧ s.readFd = {5, 7, 8} ∧ s.recvs.map RecvCall.fd = [7])) := by decide
  obtain ⟨s, hr, hs⟩ := Reach.of_run_any hrun
  have hs' := of_decide_eq_true hs
  obtain ⟨hselect, hrecvs⟩ := webserverSelect_monitors 2 bootFive hr
  exact ⟨s, hr, hs', hselect hs'.1, hrecvs⟩

end Nfp.Webserver.Select
