/-
  File:      Nfp/Mains/World.lean
  Subject:   WHAT A `main` HOLDS WHILE IT RUNS: the parsed arguments, NFP itself, the threads (or
             processes) it has started, the sockets and the memory of its service.

  The `main`s of the examples are commands of `Lib.Command` over the actions `Act`; a `World` is
  what somebody would know who watches them. Releasing something that is not held (a thread joined
  that was never created, a socket closed twice) and terminating NFP under a running thread are
  recorded as faults.
-/
import Nfp.Lib.Command
import Mathlib.Data.List.Range

namespace Nfp.Mains

open Nfp.Lib Nfp.Lib.Cmd

/-- What a `main` holds, the workers apart: `itf_param` of the parsed arguments (a table that a
    second `-i` has replaced is not counted), NFP between `nfp_initialize` and `nfp_terminate`, the
    thread that handles timer events, the thread of the service (`thread_perf`,
    `webserver_pthread`, `thread_ioctl`, `thread_mcast`), sockets by their place, and the two
    blocks of udp_fwd_socket. -/
inductive Res where
  | args
  | nfp
  | dispatcher
  | service
  | sock (i : Nat)
  | sockArray
  | raddr
  deriving DecidableEq, Repr

/-- What should not happen. -/
inductive Fault where
  /-- released, but not held -/
  | notHeld (r : Res)
  /-- entry `i` of `thread_tbl` joined, but not running -/
  | notRunning (i : Nat)
  /-- `nfp_terminate` while a thread runs -/
  | terminatedEarly
  deriving DecidableEq, Repr

/-- The actions: something acquired or released; entries of `thread_tbl` started or joined;
    `nfp_stop_processing`; the process goes on as a child of `nfp_process_fork_n`. -/
inductive Act where
  | acquire (r : Res)
  | release (r : Res)
  | create (is : List Nat)
  | join (is : List Nat)
  | stop
  | child
  deriving DecidableEq, Repr

/-- What is held, which entries of `thread_tbl` run, whether processing was stopped, whether a
    thread was waited for before that, and the faults so far. -/
structure World where
  held : List Res
  workers : List Nat
  stopped : Bool
  waited : Bool
  faults : List Fault
  deriving DecidableEq, Repr

/-- A program starts. -/
def World.start : World := ⟨[], [], false, false, []⟩

/-- The threads among what is held. -/
def Res.isThread : Res → Bool
  | .dispatcher => true
  | .service => true
  | _ => false

/-- The fault of releasing `r`. -/
def World.releaseFault (w : World) (r : Res) : List Fault :=
  if r ∉ w.held then [.notHeld r]
  else if r = .nfp ∧ (w.workers ≠ [] ∨ w.held.any Res.isThread) then [.terminatedEarly]
  else []

/-- **What an action does.** A child has its copy of the arguments; NFP and the other children are
    its parent's. -/
def step (w : World) : Act → World
  | .acquire r => { w with held := w.held ++ [r] }
  | .release r =>
      { w with
        held := w.held.erase r
        waited := w.waited || (r.isThread && !w.stopped)
        faults := w.faults ++ w.releaseFault r }
  | .create is => { w with workers := w.workers ++ is }
  | .join is =>
      { w with
        workers := w.workers.filter (· ∉ is)
        waited := w.waited || (!is.isEmpty && !w.stopped)
        faults := w.faults ++ (is.filter (· ∉ w.workers)).map .notRunning }
  | .stop => { w with stopped := true }
  | .child => { w with held := [.args], workers := [] }

section Step

variable (held : List Res) (workers : List Nat) (stopped waited : Bool) (faults : List Fault)

@[simp] theorem step_acquire (r : Res) :
    step ⟨held, workers, stopped, waited, faults⟩ (.acquire r) =
      ⟨held ++ [r], workers, stopped, waited, faults⟩ := rfl

@[simp] theorem step_stop :
    step ⟨held, workers, stopped, waited, faults⟩ .stop =
      ⟨held, workers, true, waited, faults⟩ := rfl

/-- What is held is released without a fault, NFP only once no thread runs. -/
theorem step_release {r : Res} (hr : r ∈ held)
    (hnfp : r = .nfp → workers = [] ∧ held.any Res.isThread = false) :
    step ⟨held, workers, stopped, waited, faults⟩ (.release r) =
      ⟨held.erase r, workers, stopped, waited || (r.isThread && !stopped), faults⟩ := by
  have hnone : World.releaseFault ⟨held, workers, stopped, waited, faults⟩ r = [] := by
    unfold World.releaseFault
    rw [if_neg (not_not.mpr hr), if_neg]
    rintro ⟨rfl, hthreads⟩
    obtain ⟨hw, hh⟩ := hnfp rfl
    rcases hthreads with h | h
    · exact h hw
    · rw [hh] at h
      cases h
  simp only [step, hnone, List.append_nil]

/-- Anything but NFP can be released while threads run. -/
theorem step_release_other {r : Res} (hr : r ∈ held) (hne : r ≠ .nfp) :
    step ⟨held, workers, stopped, waited, faults⟩ (.release r) =
      ⟨held.erase r, workers, stopped, waited || (r.isThread && !stopped), faults⟩ :=
  step_release held workers stopped waited faults hr fun h => absurd h hne

/-- A socket opened last, closed. -/
theorem step_close {i : Nat} (hnew : .sock i ∉ held) :
    step ⟨held ++ [.sock i], workers, stopped, waited, faults⟩ (.release (.sock i)) =
      ⟨held, workers, stopped, waited, faults⟩ := by
  rw [step_release_other _ _ _ _ _ (by simp) (by simp), List.erase_append_right _ hnew]
  simp [Res.isThread]

/-- The threads of the table, joined as they were created. -/
theorem step_join_all (n : Nat) :
    step ⟨held, List.range n, stopped, waited, faults⟩ (.join (List.range n)) =
      ⟨held, [], stopped, waited || (!(List.range n).isEmpty && !stopped), faults⟩ := by
  have hw : (List.range n).filter (· ∉ List.range n) = [] := by
    rw [List.filter_eq_nil_iff]
    intro i hi
    simpa using hi
  simp only [step, hw, List.map_nil, List.append_nil]

@[simp] theorem step_create_first (n : Nat) :
    step ⟨held, [], stopped, waited, faults⟩ (.create (List.range n)) =
      ⟨held, List.range n, stopped, waited, faults⟩ := rfl

theorem step_create_next (i : Nat) :
    step ⟨held, List.range i, stopped, waited, faults⟩ (.create [i]) =
      ⟨held, List.range (i + 1), stopped, waited, faults⟩ := by
  rw [List.range_succ]
  rfl

end Step

/-! ## The pieces the `main`s share -/

/-- `nfp_thread_create(thread_tbl, n, …)`: the number of threads created, or -1. -/
def threadCreate (n : Nat) : Cmd Act Int := do
  let k ← answer
  if k ≤ n then
    perform (.create (List.range k))
    return k
  else return -1

/-- The loop that creates the workers one by one: `none` if all are there, else how many. -/
def createWorkers (n : Nat) : Cmd Act (Option Nat) :=
  times (fun i => do
    if ← fails then return some i
    perform (.create [i])
    return none) 0 n

/-- `nfp_thread_join(thread_tbl, n)`. -/
def joinWorkers (n : Nat) : Cmd Act Unit := perform (.join (List.range n))

/-- `nfp_terminate` and `parse_args_cleanup`. -/
def terminate : Cmd Act Unit := do
  perform (.release .nfp)
  perform (.release .args)

section Pieces

variable {held : List Res} {stopped waited : Bool} {faults : List Fault}

/-- **Creating the workers at once**: all of them, or fewer with their number, or none with -1. -/
theorem wp_threadCreate {n : Nat} {P : World → Int → Prop}
    (hok : P ⟨held, List.range n, stopped, waited, faults⟩ n)
    (hfew : ∀ k < n, P ⟨held, List.range k, stopped, waited, faults⟩ k)
    (hnone : P ⟨held, [], stopped, waited, faults⟩ (-1)) :
    wp step P (threadCreate n) ⟨held, [], stopped, waited, faults⟩ := by
  simp only [threadCreate, wp_bind, wp_answer, wp_ite, wp_perform, wp_pure, step_create_first]
  intro k
  split
  · rename_i hk
    rcases Nat.lt_or_eq_of_le hk with hk | rfl
    · exact hfew k hk
    · exact hok
  · exact hnone

/-- **Creating them one by one.** -/
theorem wp_createWorkers {n : Nat} {P : World → Option Nat → Prop}
    (hok : P ⟨held, List.range n, stopped, waited, faults⟩ none)
    (hfew : ∀ k < n, P ⟨held, List.range k, stopped, waited, faults⟩ (some k)) :
    wp step P (createWorkers n) ⟨held, [], stopped, waited, faults⟩ := by
  refine wp_times (fun i w => w = ⟨held, List.range i, stopped, waited, faults⟩) n 0 ?_ ?_ rfl
  · rintro i - hi w rfl
    simp only [wp_bind, wp_fails, wp_ite, wp_pure, wp_perform, step_create_next]
    exact ⟨by simp, by simpa using hfew i (by omega)⟩
  · rintro w rfl
    simpa using hok

end Pieces

end Nfp.Mains
