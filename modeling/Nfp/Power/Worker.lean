/-
  File:      Nfp/Power/Worker.lean
  Subject:   THE POWER-SAVING WORKERS of example/fpm_power/app_main.c: `pkt_io_recv_single` and
             `pkt_io_recv` poll their queues, and after `idle_tmo` without a packet drain stale
             interrupt events (`loop_intr_clear`), enable the RX interrupts queue by queue, sleep
             in `loop_intr_wait` and disable the interrupts again.

  The worker and the network are one machine (`next`): a packet may arrive between any two of
  the worker's calls; it raises a pending event exactly when the interrupt of its queue is
  enabled at that moment. The two workers differ only in how they hand packets to the stack
  (`Worker`); the number of queues is any `n`.

  A packet that arrives after the last poll of its queue and before that queue's interrupt is
  enabled raises no event, and nobody looks at the queue again before going to sleep:

  * `Window` -- an interrupt is about to be enabled on a queue that holds a packet, with no event
    pending; `window_loses` -- from there the worker's own steps lead into the lost state;
  * `Moves` -- the ways of the worker that enable and disable nothing;
  * `noLostWakeup` -- a run that enables no interrupt in such a state never loses a wake-up;
  * `lost_stays` -- and a lost one stays lost: time-outs of `odp_pktin_intr_wait` only go round
    the loop of `loop_intr_wait`.
-/
import Mathlib.Logic.Function.Basic
import Nfp.Lib.Run
import Nfp.Dispatch.PktVector

namespace Nfp.Power

open Nfp.Lib Nfp.Dispatch

/-- `PKT_BURST_SIZE`. -/
def pktBurstSize : Nat := nfpPktVectorSize

/-- **What the two workers do differently**: before the loop, with a burst, after the queues. -/
structure Worker (Pkt : Type) where
  init : Disp Pkt Unit Unit → Disp Pkt Unit Unit
  deliver : Disp Pkt Unit Unit → List Pkt → Disp Pkt Unit Unit
  flush : Disp Pkt Unit Unit → Disp Pkt Unit Unit

/-- `pkt_io_recv_single`: every packet by itself. -/
def pktIoRecvSingle (Pkt : Type) : Worker Pkt where
  init d := d
  deliver d pkts := { d with log := d.log ++ pkts.map fun pkt => .input pkt none }
  flush d := d

/-- `pkt_io_recv`: in vectors. -/
def pktIoRecv {Pkt : Type} (api : PktVectorApi Pkt) : Worker Pkt where
  init d := { d with vec := api.init d.vec }
  deliver d pkts := pkts.foldl (gather api) d
  flush d := flushVec api d

/-- Where the worker is. An index is the loop variable `i`; at `n` the loop is over. -/
inductive Pc where
  | register (i : Nat)
  | head
  | poll (i : Nat)
  | idle
  | clear
  | enable (i : Nat)
  | wait
  | disable (i : Nat)
  | done (ret : Int)
  deriving DecidableEq, Repr

/-- **The state**: the queues with the packets nobody has polled yet, their interrupts, the events
    pending in the wait mechanism, `*is_running`, and the worker's own variables. -/
structure State (n : Nat) (Pkt : Type) where
  queue : Fin n → List Pkt
  intr : Fin n → Bool
  pending : Nat
  running : Bool
  pc : Pc
  pktSum : Nat
  isIdling : Bool
  idlingStart : UInt64
  disp : Disp Pkt Unit Unit

/-- The worker is started on queues that may already hold packets; all interrupts are off. -/
def State.start {n : Nat} {Pkt : Type} (queue : Fin n → List Pkt) : State n Pkt where
  queue := queue
  intr _ := false
  pending := 0
  running := true
  pc := .register 0
  pktSum := 0
  isIdling := false
  idlingStart := 0
  disp := ⟨.empty, []⟩

/-- **What can happen next**: a packet arrives, `nfp_stop_processing` is called somewhere, or the
    worker goes on -- by itself (`go`) or with the answer of the call it makes: of
    `odp_pktin_intr_wait_register`, `odp_pktin_recv` (`none` for a negative one),
    `odp_time_local_ns`, `odp_pktin_intr_wait` or `odp_pktin_intr_set`. -/
inductive Label (n : Nat) (Pkt : Type) where
  | arrive (i : Fin n) (pkt : Pkt)
  | stop
  | go
  | register (ok : Bool)
  | recv (count : Option Nat)
  | time (now : UInt64)
  | intrWait (ret : Int)
  | intrSet (ok : Bool)
  deriving DecidableEq, Repr

section Machine

variable {n : Nat} {Pkt : Type}

/-- The worker moves on without touching anything else. -/
def State.goto (s : State n Pkt) (pc : Pc) : State n Pkt := { s with pc := pc }

/-- A packet arrives: an event exactly when the queue's interrupt is enabled. -/
def State.arrive (s : State n Pkt) (i : Fin n) (pkt : Pkt) : State n Pkt :=
  { s with
    queue := Function.update s.queue i (s.queue i ++ [pkt])
    pending := if s.intr i then s.pending + 1 else s.pending }

/-- `odp_pktin_intr_wait` may return `ret`: a failure, zero when no event is pending, or some of
    the pending events, at most `maxnum`. -/
def MayReturn (s : State n Pkt) (ret : Int) : Prop :=
  ret < 0 ∨ (ret = 0 ∧ s.pending = 0) ∨ (0 < ret ∧ ret ≤ s.pending ∧ ret ≤ n)

instance (s : State n Pkt) (ret : Int) : Decidable (MayReturn s ret) :=
  inferInstanceAs (Decidable (_ ∨ _ ∨ _))

/-- The steps the worker takes by itself. -/
def stepGo (w : Worker Pkt) (s : State n Pkt) : Option (State n Pkt) :=
  match s.pc with
  | .register i => if n ≤ i then some { s with pc := .head, disp := w.init s.disp } else none
  | .head =>
      if s.running then some { s with pc := .poll 0, pktSum := 0 } else some (s.goto (.done 0))
  | .poll i =>
      -- the vector's rest is handed over, then `nfp_send_pending_pkt`
      if n ≤ i then
        some { s with
          pc := .idle
          disp := ⟨(w.flush s.disp).vec, (w.flush s.disp).log ++ [.sendPending]⟩ }
      else none
  | .idle => if s.pktSum = 0 then none else some { s with pc := .head, isIdling := false }
  | .clear => if s.running then none else some (s.goto (.enable 0))
  | .enable i => if n ≤ i then some (s.goto .wait) else none
  | .wait => if s.running then none else some (s.goto (.disable 0))
  | .disable i => if n ≤ i then some (s.goto .head) else none
  | .done _ => none

/-- `pktin_intr_wait_register`: a failure ends the worker with -1. -/
def stepRegister (s : State n Pkt) (ok : Bool) : Option (State n Pkt) :=
  match s.pc with
  | .register i =>
      if i < n then some (if ok then s.goto (.register (i + 1)) else s.goto (.done (-1))) else none
  | _ => none

/-- `odp_pktin_recv` on queue `i`: a failed call takes nothing, a successful one the oldest
    packets, none only of an empty queue. -/
def stepRecv (w : Worker Pkt) (s : State n Pkt) (count : Option Nat) : Option (State n Pkt) :=
  match s.pc with
  | .poll i =>
      if h : i < n then
        match count with
        | none => some (s.goto (.poll (i + 1)))
        | some k =>
            if k ≤ pktBurstSize ∧ k ≤ (s.queue ⟨i, h⟩).length ∧ (k = 0 → s.queue ⟨i, h⟩ = []) then
              some { s with
                pc := .poll (i + 1)
                queue := Function.update s.queue ⟨i, h⟩ ((s.queue ⟨i, h⟩).drop k)
                pktSum := s.pktSum + k
                disp := w.deliver s.disp ((s.queue ⟨i, h⟩).take k) }
            else none
      else none
  | _ => none

/-- The idle test; `idling_crt - idling_start` is unsigned. -/
def stepTime (idleTmo : UInt64) (s : State n Pkt) (now : UInt64) : Option (State n Pkt) :=
  match s.pc with
  | .idle =>
      if s.pktSum = 0 then
        some (if s.isIdling then
            if now - s.idlingStart > idleTmo then s.goto .clear else s.goto .head
          else { s with pc := .head, isIdling := true, idlingStart := now })
      else none
  | _ => none

/-- `odp_pktin_intr_wait` in `loop_intr_clear`, which goes round while it returns events, and in
    `loop_intr_wait`, which goes round while it times out. -/
def stepIntrWait (s : State n Pkt) (ret : Int) : Option (State n Pkt) :=
  match s.pc with
  | .clear =>
      if s.running ∧ MayReturn s ret then
        some (if ret ≤ 0 then s.goto (.enable 0) else { s with pending := s.pending - ret.toNat })
      else none
  | .wait =>
      if s.running ∧ MayReturn s ret then
        some (if ret = 0 then s
          else { s with pc := .disable 0, pending := s.pending - ret.toNat })
      else none
  | _ => none

/-- `odp_pktin_intr_set` on queue `i`: a failure ends the worker. -/
def stepIntrSet (s : State n Pkt) (ok : Bool) : Option (State n Pkt) :=
  match s.pc with
  | .enable i =>
      if h : i < n then
        some (if ok then
            { s with pc := .enable (i + 1), intr := Function.update s.intr ⟨i, h⟩ true }
          else s.goto (.done 0))
      else none
  | .disable i =>
      if h : i < n then
        some (if ok then
            { s with pc := .disable (i + 1), intr := Function.update s.intr ⟨i, h⟩ false }
          else s.goto (.done 0))
      else none
  | _ => none

/-- **One step** of worker and network. -/
def next (w : Worker Pkt) (idleTmo : UInt64) (s : State n Pkt) :
    Label n Pkt → Option (State n Pkt)
  | .arrive i pkt => some (s.arrive i pkt)
  | .stop => some { s with running := false }
  | .go => stepGo w s
  | .register ok => stepRegister s ok
  | .recv count => stepRecv w s count
  | .time now => stepTime idleTmo s now
  | .intrWait ret => stepIntrWait s ret
  | .intrSet ok => stepIntrSet s ok

/-! ## The lost wake-up, and the window it comes from -/

/-- **A wake-up is lost**: the worker sits in `loop_intr_wait`, no event is pending, and one of its
    queues holds a packet. -/
def Lost (s : State n Pkt) : Prop := s.pc = .wait ∧ s.pending = 0 ∧ ∃ i, s.queue i ≠ []

instance [DecidableEq Pkt] (s : State n Pkt) : Decidable (Lost s) :=
  inferInstanceAs (Decidable (_ ∧ _ ∧ _))

/-- **The window**: the next interrupt to be enabled is that of a queue which already holds a
    packet, and no event is pending. -/
def Window (s : State n Pkt) : Prop :=
  ∃ i : Fin n, s.pc = .enable i ∧ s.queue i ≠ [] ∧ s.pending = 0

instance [DecidableEq Pkt] (s : State n Pkt) : Decidable (Window s) :=
  inferInstanceAs (Decidable (∃ _, _))

/-- A step that does not enable an interrupt inside the window. -/
def Timely (s : State n Pkt) (l : Label n Pkt) : Prop := l = .intrSet true → ¬ Window s

instance [DecidableEq Pkt] (s : State n Pkt) (l : Label n Pkt) : Decidable (Timely s l) :=
  inferInstanceAs (Decidable (_ → _))

/-- How many queues have had their interrupt enabled on the way to sleep. -/
def armed (n : Nat) : Pc → Nat
  | .enable i => i
  | .wait => n
  | _ => 0

/-- **The invariant**: a queue whose interrupt has been enabled on the way to sleep has it on, and
    holds a packet only if an event is pending. -/
def Guarded (s : State n Pkt) : Prop :=
  ∀ i : Fin n, i.val < armed n s.pc → s.intr i = true ∧ (s.queue i ≠ [] → 0 < s.pending)

/-- A step that arms no queue and leaves queues, interrupts and events alone while any is armed. -/
def Calm (s s' : State n Pkt) : Prop :=
  armed n s'.pc = 0 ∨
  (armed n s'.pc ≤ armed n s.pc ∧ s'.queue = s.queue ∧ s'.intr = s.intr ∧ s'.pending = s.pending)

theorem Guarded.of_calm {s s' : State n Pkt} (h : Guarded s) (hc : Calm s s') : Guarded s' := by
  intro i hi
  rcases hc with hc | ⟨hle, hq, hintr, hp⟩
  · omega
  · rw [hq, hintr, hp]
    exact h i (by omega)

/-- **How the worker moves** when it enables and disables nothing. -/
inductive Moves (n : Nat) : Pc → Pc → Prop where
  | registered (i : Nat) : Moves n (.register i) (.register (i + 1))
  | unregistered (i : Nat) : Moves n (.register i) (.done (-1))
  | started (i : Nat) : Moves n (.register i) .head
  | polls : Moves n .head (.poll 0)
  | leaves : Moves n .head (.done 0)
  | polled (i : Nat) : Moves n (.poll i) (.poll (i + 1))
  | flushed (i : Nat) : Moves n (.poll i) .idle
  | goesOn : Moves n .idle .head
  | tires : Moves n .idle .clear
  | clears : Moves n .clear .clear
  | cleared : Moves n .clear (.enable 0)
  | sleeps (i : Nat) (hi : n ≤ i) : Moves n (.enable i) .wait
  | waits : Moves n .wait .wait
  | wakes : Moves n .wait (.disable 0)
  | awake (i : Nat) (hi : n ≤ i) : Moves n (.disable i) .head

/-- Such a step; with queues armed behind it, it leaves queues, interrupts and events alone. -/
structure Moved (s s' : State n Pkt) : Prop where
  pc : Moves n s.pc s'.pc
  frame : armed n s'.pc ≠ 0 → s'.queue = s.queue ∧ s'.intr = s.intr ∧ s'.pending = s.pending

/-- No queue is armed on the way. -/
theorem Moves.armed_le {pc pc' : Pc} (h : Moves n pc pc') (hne : armed n pc' ≠ 0) :
    armed n pc' ≤ armed n pc := by
  cases h with
  | sleeps i hi => exact hi
  | waits => exact Nat.le_refl n
  | _ => exact absurd rfl hne

theorem Moved.calm {s s' : State n Pkt} (h : Moved s s') : Calm s s' := by
  by_cases hnone : armed n s'.pc = 0
  · exact Or.inl hnone
  · exact Or.inr ⟨h.pc.armed_le hnone, h.frame hnone⟩

section Moved

variable {w : Worker Pkt} {s s' : State n Pkt}

theorem stepGo_moved (h : stepGo w s = some s') : Moved s s' := by
  unfold stepGo at h
  split at h
  case h_1 i hpc =>
    split at h
    · cases h
      exact ⟨hpc ▸ .started i, fun hne => absurd rfl hne⟩
    · cases h
  case h_2 hpc =>
    split at h
    · cases h
      exact ⟨hpc ▸ .polls, fun hne => absurd rfl hne⟩
    · cases h
      exact ⟨hpc ▸ .leaves, fun hne => absurd rfl hne⟩
  case h_3 i hpc =>
    split at h
    · cases h
      exact ⟨hpc ▸ .flushed i, fun hne => absurd rfl hne⟩
    · cases h
  case h_4 hpc =>
    split at h
    · cases h
    · cases h
      exact ⟨hpc ▸ .goesOn, fun hne => absurd rfl hne⟩
  case h_5 hpc =>
    split at h
    · cases h
    · cases h
      exact ⟨hpc ▸ .cleared, fun hne => absurd rfl hne⟩
  case h_6 i hpc =>
    split at h
    · rename_i hi
      cases h
      exact ⟨hpc ▸ .sleeps i hi, fun _ => ⟨rfl, rfl, rfl⟩⟩
    · cases h
  case h_7 hpc =>
    split at h
    · cases h
    · cases h
      exact ⟨hpc ▸ .wakes, fun hne => absurd rfl hne⟩
  case h_8 i hpc =>
    split at h
    · rename_i hi
      cases h
      exact ⟨hpc ▸ .awake i hi, fun hne => absurd rfl hne⟩
    · cases h
  case h_9 => cases h

theorem stepRegister_moved {ok : Bool} (h : stepRegister s ok = some s') : Moved s s' := by
  unfold stepRegister at h
  split at h
  · rename_i i hpc
    split at h
    · cases h
      cases ok with
      | true => exact ⟨hpc ▸ .registered i, fun hne => absurd rfl hne⟩
      | false => exact ⟨hpc ▸ .unregistered i, fun hne => absurd rfl hne⟩
    · cases h
  · cases h

theorem stepRecv_moved {count : Option Nat} (h : stepRecv w s count = some s') : Moved s s' := by
  unfold stepRecv at h
  split at h
  · rename_i i hpc
    split at h
    · split at h
      · cases h
        exact ⟨hpc ▸ .polled i, fun hne => absurd rfl hne⟩
      · split at h
        · cases h
          exact ⟨hpc ▸ .polled i, fun hne => absurd rfl hne⟩
        · cases h
    · cases h
  · cases h

theorem stepTime_moved {idleTmo now : UInt64} (h : stepTime idleTmo s now = some s') :
    Moved s s' := by
  unfold stepTime at h
  split at h
  · rename_i hpc
    split at h
    · cases h
      split
      · split
        · exact ⟨hpc ▸ .tires, fun hne => absurd rfl hne⟩
        · exact ⟨hpc ▸ .goesOn, fun hne => absurd rfl hne⟩
      · exact ⟨hpc ▸ .goesOn, fun hne => absurd rfl hne⟩
    · cases h
  · cases h

theorem stepIntrWait_moved {ret : Int} (h : stepIntrWait s ret = some s') : Moved s s' := by
  unfold stepIntrWait at h
  split at h
  · rename_i hpc
    split at h
    · cases h
      split
      · exact ⟨hpc ▸ .cleared, fun hne => absurd rfl hne⟩
      · refine ⟨hpc ▸ .clears, fun hne => absurd ?_ hne⟩
        show armed n s.pc = 0
        rw [hpc]
        rfl
    · cases h
  · rename_i hpc
    split at h
    · cases h
      split
      · exact ⟨hpc ▸ .waits, fun _ => ⟨rfl, rfl, rfl⟩⟩
      · exact ⟨hpc ▸ .wakes, fun hne => absurd rfl hne⟩
    · cases h
  · cases h

end Moved

/-- An arrival on an armed queue raises an event. -/
theorem Guarded.arrive {s : State n Pkt} (h : Guarded s) (i : Fin n) (pkt : Pkt) :
    Guarded (s.arrive i pkt) := by
  intro j hj
  obtain ⟨hintr, hq⟩ := h j hj
  refine ⟨hintr, fun hne => ?_⟩
  show 0 < if s.intr i then s.pending + 1 else s.pending
  by_cases hi : s.intr i = true
  · rw [if_pos hi]
    omega
  · rw [if_neg hi]
    -- then the packet went to a queue that is not armed
    have hji : j ≠ i := fun e => hi (e ▸ hintr)
    have hsame : (s.arrive i pkt).queue j = s.queue j := Function.update_of_ne hji _ _
    exact hq (hsame ▸ hne)

/-- Enabling one more interrupt outside the window. -/
theorem Guarded.intrSet {s s' : State n Pkt} {ok : Bool} (h : Guarded s)
    (ht : Timely s (.intrSet ok)) (hs : stepIntrSet s ok = some s') : Guarded s' := by
  unfold stepIntrSet at hs
  split at hs
  · rename_i i hpc
    split at hs
    · rename_i hi
      cases hs
      cases ok with
      | false => exact h.of_calm (Or.inl rfl)
      | true =>
          intro j hj
          have hj' : j.val < i + 1 := hj
          by_cases hji : j = ⟨i, hi⟩
          · subst hji
            refine ⟨Function.update_self _ _ _, fun hne => ?_⟩
            have hw := ht rfl
            refine Nat.pos_of_ne_zero fun hp => hw ⟨⟨i, hi⟩, hpc, hne, hp⟩
          · have hlt : j.val < armed n s.pc := by
              have hne : j.val ≠ i := fun e => hji (Fin.ext e)
              rw [hpc]
              show j.val < i
              omega
            obtain ⟨hintr, hq⟩ := h j hlt
            exact ⟨(Function.update_of_ne hji _ _).trans hintr, hq⟩
    · cases hs
  · split at hs
    · cases hs
      cases ok with
      | true => exact h.of_calm (Or.inl rfl)
      | false => exact h.of_calm (Or.inl rfl)
    · cases hs
  · cases hs

/-- **Every step outside the window keeps the invariant.** -/
theorem Guarded.next {w : Worker Pkt} {idleTmo : UInt64} {s s' : State n Pkt} {l : Label n Pkt}
    (h : Guarded s) (ht : Timely s l) (hs : next w idleTmo s l = some s') : Guarded s' := by
  cases l with
  | arrive i pkt =>
      cases hs
      exact h.arrive i pkt
  | stop =>
      cases hs
      exact h.of_calm (Or.inr ⟨Nat.le_refl _, rfl, rfl, rfl⟩)
  | go => exact h.of_calm (stepGo_moved hs).calm
  | register ok => exact h.of_calm (stepRegister_moved hs).calm
  | recv count => exact h.of_calm (stepRecv_moved hs).calm
  | time now => exact h.of_calm (stepTime_moved hs).calm
  | intrWait ret => exact h.of_calm (stepIntrWait_moved hs).calm
  | intrSet ok => exact h.intrSet ht hs

/-- An invariant worker has lost nothing. -/
theorem Guarded.not_lost {s : State n Pkt} (h : Guarded s) : ¬ Lost s := by
  rintro ⟨hpc, hp, i, hne⟩
  have hi : i.val < armed n s.pc := by
    rw [hpc]
    exact i.isLt
  have hpos := (h i hi).2 hne
  omega

/-! ## The window loses the wake-up -/

/-- With every `odp_pktin_intr_set` succeeding and no packet arriving, the worker goes from
    enabling to sleep. -/
theorem reach_wait (w : Worker Pkt) (idleTmo : UInt64) (k : Nat) {s : State n Pkt} {i : Nat}
    (hk : i + k = n) (hpc : s.pc = .enable i) :
    ∃ s', Reach (next w idleTmo) anyStep s s' ∧ s'.pc = .wait ∧ s'.queue = s.queue ∧
      s'.pending = s.pending := by
  induction k generalizing s i with
  | zero =>
      have hgo : next w idleTmo s .go = some (s.goto .wait) := by
        simp only [next, stepGo, hpc]
        exact if_pos (by omega)
      exact ⟨s.goto .wait, .step s _ .go .start trivial hgo, rfl, rfl, rfl⟩
  | succ k ih =>
      have hi : i < n := by omega
      let s₁ : State n Pkt :=
        { s with pc := .enable (i + 1), intr := Function.update s.intr ⟨i, hi⟩ true }
      have hset : next w idleTmo s (.intrSet true) = some s₁ := by
        simp only [next, stepIntrSet, hpc, dif_pos hi]
        rfl
      obtain ⟨s', hr, h1, h2, h3⟩ := ih (s := s₁) (by omega) rfl
      have hfirst : Reach (next w idleTmo) anyStep s s₁ := .step s s₁ _ .start trivial hset
      exact ⟨s', hfirst.trans hr, h1, h2, h3⟩

/-- **From the window the worker goes to sleep on a packet.** -/
theorem window_loses (w : Worker Pkt) (idleTmo : UInt64) {s : State n Pkt} (h : Window s) :
    ∃ s', Reach (next w idleTmo) anyStep s s' ∧ Lost s' := by
  obtain ⟨i, hpc, hne, hp⟩ := h
  obtain ⟨s', hr, hwait, hq, hp'⟩ := reach_wait w idleTmo (n - i) (by omega) hpc
  refine ⟨s', hr, hwait, by rw [hp', hp], i, ?_⟩
  rw [hq]
  exact hne

/-- Nobody helps: no packet arrives, nobody stops the worker, `odp_pktin_intr_wait` does not
    fail. -/
def Quiet (_ : State n Pkt) : Label n Pkt → Prop
  | .arrive _ _ => False
  | .stop => False
  | .intrWait ret => 0 ≤ ret
  | _ => True

/-- **A lost wake-up stays lost** until a further packet arrives, the worker is stopped or
    `odp_pktin_intr_wait` fails. -/
theorem lost_stays {w : Worker Pkt} {idleTmo : UInt64} {s s' : State n Pkt}
    (hrun : s.running = true)
    (h : Lost s) (hr : Reach (next w idleTmo) Quiet s s') : s' = s := by
  refine hr.inv (I := fun t => t = s) rfl ?_
  rintro t l t' rfl hquiet hs
  obtain ⟨hpc, hp, -⟩ := h
  cases l with
  | arrive i pkt => exact hquiet.elim
  | stop => exact hquiet.elim
  | go => simp [next, stepGo, hpc, hrun] at hs
  | register ok => simp [next, stepRegister, hpc] at hs
  | recv count => simp [next, stepRecv, hpc] at hs
  | time now => simp [next, stepTime, hpc] at hs
  | intrSet ok => simp [next, stepIntrSet, hpc] at hs
  | intrWait ret =>
      have hret : 0 ≤ ret := hquiet
      simp only [next, stepIntrWait, hpc] at hs
      split at hs
      · rename_i hmay
        cases hs
        -- with no event pending only the time-out is left
        have hzero : ret = 0 := by
          rcases hmay.2 with h0 | ⟨h0, -⟩ | ⟨h0, h1, -⟩
          · omega
          · exact h0
          · omega
        rw [if_pos hzero]
      · cases hs

end Machine

/-- **No wake-up is lost** in a run, of either worker and on any number of queues, that never
    enables the interrupt of a queue which already holds a packet while no event is pending. -/
theorem noLostWakeup {n : Nat} {Pkt : Type} (w : Worker Pkt) (idleTmo : UInt64)
    (queue : Fin n → List Pkt) {s : State n Pkt}
    (h : Reach (next w idleTmo) Timely (.start queue) s) : ¬ Lost s := by
  have h0 : Guarded (State.start queue) := fun i hi => absurd hi (Nat.not_lt_zero _)
  have hinv : Guarded s := h.inv h0 fun _ _ _ hs ht hstep => hs.next ht hstep
  exact hinv.not_lost

/-- One queue with nothing in it. -/
def emptyQueue : State 1 Nat := .start fun _ => []

/-- Two empty polls and the way to sleep, up to enabling the interrupt. -/
def goesIdle : List (Label 1 Nat) :=
  [.register true, .go, .go, .recv (some 0), .go, .time 0, .go, .recv (some 0), .go, .time 1000,
    .intrWait 0]

/-- A packet that arrives after the interrupt has been enabled wakes the worker. -/
theorem noLostWakeup_late_packet :
    ∃ s, Reach (next (pktIoRecvSingle Nat) 1) Timely emptyQueue s ∧
      (s.pc = .wait ∧ s.queue 0 = [7]) ∧ ¬ Lost s := by
  have hrun : (run (restrict (next (pktIoRecvSingle Nat) 1) Timely) emptyQueue
      (goesIdle ++ [.intrSet true, .go, .arrive 0 7])).any
      (fun s => decide (s.pc = .wait ∧ s.queue 0 = [7])) := by decide
  obtain ⟨s, hr, hs⟩ := Reach.of_run_any hrun
  have hr' := hr.of_restrict
  exact ⟨s, hr', of_decide_eq_true hs, noLostWakeup _ _ _ hr'⟩

/-- **Both workers go to sleep on a packet** that arrives just before the interrupt is enabled. -/
theorem early_packet_loses_wakeup :
    (∃ s, Reach (next (pktIoRecvSingle Nat) 1) anyStep emptyQueue s ∧ Lost s) ∧
    ∃ s, Reach (next (pktIoRecv (.reference Nat)) 1) anyStep emptyQueue s ∧ Lost s := by
  have hboth : ∀ w : Worker Nat,
      (run (next w 1) emptyQueue (goesIdle ++ [.arrive 0 7])).any (fun s => decide (Window s)) →
      ∃ s, Reach (next w 1) anyStep emptyQueue s ∧ Lost s := by
    intro w hrun
    obtain ⟨s, hr, hs⟩ := Reach.of_run_any hrun
    obtain ⟨s', hr', hl⟩ := window_loses w 1 (of_decide_eq_true hs)
    exact ⟨s', hr.trans hr', hl⟩
  exact ⟨hboth _ (by decide), hboth _ (by decide)⟩

end Nfp.Power
