/-
  File:      Nfp/Power/Interrupts.lean
  Subject:   WHAT THE POWER-SAVING WORKERS LEAVE SWITCHED ON: the calls of `odp_pktin_intr_set` that
             `pkt_io_recv_single` and `pkt_io_recv` make (example/fpm_power/app_main.c), on any
             number of queues and with any of the calls failing.

  The machine is that of Nfp/Power/Worker.lean; beside it stands the list of the calls made so far
  (`Watched`). `pktin_intr_set` returns at the first queue that fails, and the worker leaves its loop
  then without a further call.

  * `SwitchedOff` -- after each call that enabled a queue there is one that tries to disable it;
  * `Lit` -- which queues are on at each place of the worker: the invariant of every run in which
    nothing fails but the first queue when enabling, or the last when disabling;
  * `interrupts_off` -- in these runs no interrupt is on when the worker polls or has left, and any
    other failure leaves one on.
-/
import Mathlib.Data.List.Induction
import Nfp.Power.Worker

namespace Nfp.Power

open Nfp.Lib

/-- One call of `odp_pktin_intr_set`, and whether it succeeded. -/
structure IntrCall (n : Nat) where
  queue : Fin n
  enable : Bool
  ok : Bool
  deriving DecidableEq, Repr

/-- **The interrupt of queue `i` is off again**: after each call that enabled it, and so after the
    last one, there is a call to disable it, successful or not. -/
def SwitchedOff {n : Nat} (calls : List (IntrCall n)) (i : Fin n) : Prop :=
  ∀ before after, calls = before ++ ⟨i, true, true⟩ :: after →
    ∃ c ∈ after, c.queue = i ∧ c.enable = false

/-- The same, computed call by call. -/
def leftOn {n : Nat} (calls : List (IntrCall n)) (i : Fin n) : Bool :=
  calls.foldl (fun on c => if c.queue = i then c.enable && (on || c.ok) else on) false

section LeftOn

variable {n : Nat} {calls : List (IntrCall n)} {i : Fin n}

theorem leftOn_concat (calls : List (IntrCall n)) (c : IntrCall n) (i : Fin n) :
    leftOn (calls ++ [c]) i =
      if c.queue = i then c.enable && (leftOn calls i || c.ok) else leftOn calls i := by
  unfold leftOn
  rw [List.foldl_append]
  rfl

/-- A further call: it disables the queue, or it does not enable it and it was off. -/
theorem switchedOff_concat {c : IntrCall n} :
    SwitchedOff (calls ++ [c]) i ↔
      c ≠ ⟨i, true, true⟩ ∧ (c.queue = i ∧ c.enable = false ∨ SwitchedOff calls i) := by
  constructor
  · intro h
    constructor
    · rintro rfl
      obtain ⟨c, hc, -⟩ := h calls [] rfl
      cases hc
    · by_cases hc : c.queue = i ∧ c.enable = false
      · exact Or.inl hc
      · refine Or.inr fun before after hcalls => ?_
        obtain ⟨c', hc', hoff⟩ := h before (after ++ [c]) (by rw [hcalls]; simp)
        rcases List.mem_append.mp hc' with hmem | hlast
        · exact ⟨c', hmem, hoff⟩
        · obtain rfl := List.mem_singleton.mp hlast
          exact absurd hoff hc
  · rintro ⟨hne, hoff⟩ before after hcalls
    rcases List.eq_nil_or_concat after with rfl | ⟨after', c', rfl⟩
    · exact absurd (List.append_inj' hcalls rfl).2 (by simpa using hne)
    · rw [List.concat_eq_append, ← List.cons_append, ← List.append_assoc] at hcalls
      obtain ⟨hfront, hlast⟩ := List.append_inj' hcalls rfl
      obtain rfl : c = c' := by simpa using hlast
      rw [List.concat_eq_append]
      rcases hoff with hc | hoff
      · exact ⟨c, List.mem_append_right _ List.mem_cons_self, hc⟩
      · obtain ⟨c', hmem, hc'⟩ := hoff before after' hfront
        exact ⟨c', List.mem_append_left _ hmem, hc'⟩

theorem switchedOff_iff : SwitchedOff calls i ↔ leftOn calls i = false := by
  induction calls using List.reverseRecOn with
  | nil =>
      refine iff_of_true (fun before after h => ?_) rfl
      cases before with
      | nil => cases h
      | cons c before => cases h
  | append_singleton calls c ih =>
      rw [switchedOff_concat, leftOn_concat, ih]
      obtain ⟨queue, enable, ok⟩ := c
      by_cases hqueue : queue = i
      · subst hqueue
        cases enable with
        | true => cases ok with
          | true => simp
          | false => simp
        | false => simp
      · simp [hqueue]

instance (calls : List (IntrCall n)) (i : Fin n) : Decidable (SwitchedOff calls i) :=
  decidable_of_iff (leftOn calls i = false) switchedOff_iff.symm

end LeftOn

section Watched

variable {n : Nat} {Pkt : Type}

/-- The calls of `odp_pktin_intr_set` in one step. -/
def callOf (s : State n Pkt) : Label n Pkt → List (IntrCall n)
  | .intrSet ok =>
      match s.pc with
      | .enable i => if h : i < n then [⟨⟨i, h⟩, true, ok⟩] else []
      | .disable i => if h : i < n then [⟨⟨i, h⟩, false, ok⟩] else []
      | _ => []
  | _ => []

/-- **Worker and network, with the calls made so far.** -/
structure Watched (n : Nat) (Pkt : Type) where
  state : State n Pkt
  calls : List (IntrCall n)

def Watched.start (queue : Fin n → List Pkt) : Watched n Pkt := ⟨.start queue, []⟩

/-- A step of the machine; the calls are only written down. -/
def Watched.next (w : Worker Pkt) (idleTmo : UInt64) (s : Watched n Pkt) (l : Label n Pkt) :
    Option (Watched n Pkt) :=
  (Power.next w idleTmo s.state l).map fun s' => ⟨s', s.calls ++ callOf s.state l⟩

/-- The worker polls its queues, or has left its loop. -/
def Pc.atRest : Pc → Bool
  | .poll _ => true
  | .done _ => true
  | _ => false

/-- **Interrupts are off** when the worker polls or has left. -/
def InterruptsOff (s : Watched n Pkt) : Prop :=
  s.state.pc.atRest = true → ∀ i, SwitchedOff s.calls i

instance (s : Watched n Pkt) : Decidable (InterruptsOff s) :=
  inferInstanceAs (Decidable (_ → _))

/-- Where a call may fail: at the first queue when enabling, at the last when disabling. -/
def Pc.mayFail (n : Nat) : Pc → Bool
  | .enable i => i == 0
  | .disable i => i + 1 == n
  | _ => true

/-- **A tidy step**: no call of `odp_pktin_intr_set` fails elsewhere. -/
def Tidy (s : Watched n Pkt) (l : Label n Pkt) : Prop :=
  l = .intrSet false → s.state.pc.mayFail n = true

instance [DecidableEq Pkt] (s : Watched n Pkt) (l : Label n Pkt) : Decidable (Tidy s l) :=
  inferInstanceAs (Decidable (_ → _))

/-! ## Which interrupts are on -/

/-- The queues that are on, by the place of the worker. -/
def Pc.lit : Pc → Nat → Bool
  | .enable i, j => j < i
  | .wait, _ => true
  | .disable i, j => i ≤ j
  | _, _ => false

/-- **The invariant**: just these are on. -/
def Lit (s : Watched n Pkt) : Prop := ∀ j : Fin n, leftOn s.calls j = s.state.pc.lit j

/-- A worker that only moves leaves the same queues on. -/
theorem Moves.lit_eq {pc pc' : Pc} (h : Moves n pc pc') (j : Fin n) : pc'.lit j = pc.lit j := by
  have hj := j.isLt
  cases h with
  | cleared => exact decide_eq_false (Nat.not_lt_zero j.val)
  | sleeps i hi =>
      have hlt : j.val < i := by omega
      exact (decide_eq_true hlt).symm
  | wakes => exact decide_eq_true (Nat.zero_le j.val)
  | awake i hi =>
      have hnot : ¬ i ≤ j.val := by omega
      exact (decide_eq_false hnot).symm
  | _ => rfl

variable {w : Worker Pkt} {idleTmo : UInt64} {s s' : Watched n Pkt} {l : Label n Pkt}

/-- A step that makes no call. -/
theorem Lit.of_lit_eq (h : Lit s) {t : State n Pkt}
    (hsame : ∀ j : Fin n, t.pc.lit j = s.state.pc.lit j) : Lit ⟨t, s.calls ++ []⟩ := by
  intro j
  rw [List.append_nil]
  exact (h j).trans (hsame j).symm

/-- **One call of `odp_pktin_intr_set`**: on queue `i`, to enable it or to disable it, and the worker
    goes on with the next one or leaves. -/
theorem stepIntrSet_cases {s s' : State n Pkt} {ok : Bool} (h : stepIntrSet s ok = some s') :
    ∃ i : Fin n, ∃ enable : Bool,
      s.pc = (if enable then .enable i else .disable i) ∧
      callOf s (.intrSet ok) = [⟨i, enable, ok⟩] ∧
      s'.pc = if ok then (if enable then .enable (i + 1) else .disable (i + 1)) else .done 0 := by
  unfold stepIntrSet at h
  split at h
  · rename_i i hpc
    split at h
    · rename_i hi
      refine ⟨⟨i, hi⟩, true, hpc, by simp [callOf, hpc, hi], ?_⟩
      cases h
      cases ok with
      | true => rfl
      | false => rfl
    · cases h
  · rename_i i hpc
    split at h
    · rename_i hi
      refine ⟨⟨i, hi⟩, false, hpc, by simp [callOf, hpc, hi], ?_⟩
      cases h
      cases ok with
      | true => rfl
      | false => rfl
    · cases h
  · cases h

/-- The queue the call is about changes, the others do not. -/
theorem Lit.intrSet (h : Lit s) {t : State n Pkt} {ok : Bool}
    (ht : Tidy s (.intrSet ok)) (hs : stepIntrSet s.state ok = some t) :
    Lit ⟨t, s.calls ++ callOf s.state (.intrSet ok)⟩ := by
  intro j
  obtain ⟨i, enable, hpc, hcall, hpc'⟩ := stepIntrSet_cases hs
  have hj := h j
  have hi := i.isLt
  unfold Tidy at ht
  show leftOn (s.calls ++ _) j = t.pc.lit j
  rw [hcall, leftOn_concat, hj, hpc', hpc]
  rw [hpc] at ht
  by_cases hij : i = j
  · subst hij
    cases enable with
    | true => cases ok with
      | true => simp [Pc.lit]
      | false => simp [Pc.lit]
    | false => cases ok with
      | true => simp [Pc.lit]
      | false => simp [Pc.lit]
  · have hne : i.val ≠ j.val := fun e => hij (Fin.ext e)
    simp only [hij, if_false]
    cases enable with
    | true => cases ok with
      | true =>
          simp only [Pc.lit, if_true, decide_eq_decide]
          omega
      | false =>
          -- the first queue fails: none was on
          have hfirst : i.val = 0 := by simpa [Pc.mayFail] using ht rfl
          simp [Pc.lit, hfirst]
    | false => cases ok with
      | true =>
          simp only [Pc.lit, if_true, Bool.false_eq_true, if_false, decide_eq_decide]
          omega
      | false =>
          -- the last queue fails: the others are off
          have hlast : i.val + 1 = n := by simpa [Pc.mayFail] using ht rfl
          simp only [Pc.lit, Bool.false_eq_true, if_false, decide_eq_false_iff_not]
          omega

/-- **Every tidy step keeps the invariant.** -/
theorem Lit.next (h : Lit s) (ht : Tidy s l) (hs : Watched.next w idleTmo s l = some s') :
    Lit s' := by
  obtain ⟨t, ht', rfl⟩ := Option.map_eq_some_iff.mp hs
  cases l with
  | arrive i pkt =>
      cases ht'
      exact h.of_lit_eq fun _ => rfl
  | stop =>
      cases ht'
      exact h.of_lit_eq fun _ => rfl
  | go => exact h.of_lit_eq (stepGo_moved ht').pc.lit_eq
  | register ok => exact h.of_lit_eq (stepRegister_moved ht').pc.lit_eq
  | recv count => exact h.of_lit_eq (stepRecv_moved ht').pc.lit_eq
  | time now => exact h.of_lit_eq (stepTime_moved ht').pc.lit_eq
  | intrWait ret => exact h.of_lit_eq (stepIntrWait_moved ht').pc.lit_eq
  | intrSet ok => exact h.intrSet ht ht'

theorem Lit.off (h : Lit s) : InterruptsOff s := by
  intro hrest i
  rw [switchedOff_iff, h i]
  cases hpc : s.state.pc with
  | poll => rfl
  | done => rfl
  | _ => rw [hpc] at hrest; cases hrest

/-- A failure anywhere else: the worker leaves, and a queue is still on, the first one when enabling
    and the last one when disabling. -/
theorem Lit.untidy (h : Lit s) (ht : ¬ Tidy s l) (hs : Watched.next w idleTmo s l = some s') :
    ¬ InterruptsOff s' := by
  intro hoff
  obtain ⟨t, ht', rfl⟩ := Option.map_eq_some_iff.mp hs
  obtain ⟨rfl, hfail⟩ := Classical.not_imp.mp ht
  obtain ⟨i, enable, hpc, hcall, hpc'⟩ := stepIntrSet_cases ht'
  have hi := i.isLt
  have hother : ∀ j, i ≠ j → s.state.pc.lit j = false := by
    intro j hij
    have hj := switchedOff_iff.mp (hoff (by rw [hpc']; rfl) j)
    rw [hcall, leftOn_concat, if_neg hij] at hj
    exact (h j).symm.trans hj
  rw [hpc] at hfail hother
  cases enable with
  | true =>
      have hpos : i.val ≠ 0 := by simpa [Pc.mayFail] using hfail
      have hfirst := hother ⟨0, by omega⟩ fun e => hpos (congrArg Fin.val e)
      simp [Pc.lit] at hfirst
      omega
  | false =>
      have hmore : i.val + 1 ≠ n := by simpa [Pc.mayFail] using hfail
      have hlast := hother ⟨n - 1, by omega⟩ fun e => by
        have hval : i.val = n - 1 := congrArg Fin.val e
        omega
      simp [Pc.lit] at hlast
      omega

end Watched

/-- **Interrupts are off when the worker polls or has left**, for either worker and any number of
    queues, in a run in which `odp_pktin_intr_set` fails nowhere but at the first queue when enabling
    or at the last when disabling; the next step that lets it fail elsewhere leaves one on. -/
theorem interrupts_off {n : Nat} {Pkt : Type} (w : Worker Pkt) (idleTmo : UInt64)
    (queue : Fin n → List Pkt) {s : Watched n Pkt}
    (h : Reach (Watched.next w idleTmo) Tidy (.start queue) s) :
    InterruptsOff s ∧
      ∀ l s', Watched.next w idleTmo s l = some s' → (InterruptsOff s' ↔ Tidy s l) := by
  have hlit : Lit s := h.inv (fun _ => rfl) fun _ _ _ hs ht hstep => hs.next ht hstep
  refine ⟨hlit.off, fun l s' hs => ⟨fun hoff => ?_, fun ht => (hlit.next ht hs).off⟩⟩
  by_contra ht
  exact hlit.untidy ht hs hoff

/-- Two queues with nothing in them. -/
def emptyQueues : Watched 2 Nat := .start fun _ => []

/-- Two empty rounds of polls and the way to sleep, up to enabling the first interrupt. -/
def bothIdle : List (Label 2 Nat) :=
  [.register true, .register true, .go, .go, .recv (some 0), .recv (some 0), .go, .time 0, .go,
    .recv (some 0), .recv (some 0), .go, .time 1000, .intrWait 0]

/-- The last queue cannot be disabled: the worker leaves, and has tried. -/
theorem interrupts_off_last_fails :
    ∃ s, Reach (Watched.next (pktIoRecvSingle Nat) 1) Tidy emptyQueues s ∧
      (s.state.pc = .done 0 ∧ s.calls =
        [⟨0, true, true⟩, ⟨1, true, true⟩, ⟨0, false, true⟩, ⟨1, false, false⟩]) ∧
      InterruptsOff s := by
  have hrun : (run (restrict (Watched.next (pktIoRecvSingle Nat) 1) Tidy) emptyQueues
      (bothIdle ++ [.intrSet true, .intrSet true, .go, .intrWait (-1), .intrSet true,
        .intrSet false])).any
      (fun s => decide (s.state.pc = .done 0 ∧ s.calls =
        [⟨0, true, true⟩, ⟨1, true, true⟩, ⟨0, false, true⟩, ⟨1, false, false⟩])) := by decide
  obtain ⟨s, hr, hs⟩ := Reach.of_run_any hrun
  have hr' := hr.of_restrict
  exact ⟨s, hr', of_decide_eq_true hs, (interrupts_off _ _ _ hr').1⟩

/-- **Both workers leave an interrupt on**: the second queue cannot be enabled, and the first stays
    on; or the first cannot be disabled, and the second stays on. -/
theorem failure_leaves_interrupt_on :
    (∃ s, Reach (Watched.next (pktIoRecvSingle Nat) 1) anyStep emptyQueues s ∧
      s.state.pc = .done 0 ∧ s.calls = [⟨0, true, true⟩, ⟨1, true, false⟩] ∧
      ¬ InterruptsOff s) ∧
    ∃ s, Reach (Watched.next (pktIoRecv (.reference Nat)) 1) anyStep emptyQueues s ∧
      s.state.pc = .done 0 ∧
      s.calls = [⟨0, true, true⟩, ⟨1, true, true⟩, ⟨0, false, false⟩] ∧
      ¬ InterruptsOff s := by
  constructor
  · have hrun : (run (Watched.next (pktIoRecvSingle Nat) 1) emptyQueues
        (bothIdle ++ [.intrSet true, .intrSet false])).any
        (fun s => decide (s.state.pc = .done 0 ∧ s.calls = [⟨0, true, true⟩, ⟨1, true, false⟩] ∧
          ¬ InterruptsOff s)) := by decide
    obtain ⟨s, hr, hs⟩ := Reach.of_run_any hrun
    exact ⟨s, hr, of_decide_eq_true hs⟩
  · have hrun : (run (Watched.next (pktIoRecv (.reference Nat)) 1) emptyQueues
        (bothIdle ++ [.intrSet true, .intrSet true, .go, .intrWait (-1), .intrSet false])).any
        (fun s => decide (s.state.pc = .done 0 ∧
          s.calls = [⟨0, true, true⟩, ⟨1, true, true⟩, ⟨0, false, false⟩] ∧
          ¬ InterruptsOff s)) := by decide
    obtain ⟨s, hr, hs⟩ := Reach.of_run_any hrun
    exact ⟨s, hr, of_decide_eq_true hs⟩

end Nfp.Power
