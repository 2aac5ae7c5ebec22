/-
  File:      Nfp/Mains/Unwind.lean
  Subject:   EVERY PATH OF EVERY `main` ENDS AS THE TABLES SAY. Each part of `Mains.Examples` has a
             rule -- what has to hold at its ends for it to be right at its start -- and each
             `main` is the composition of the rules of its parts.

  * `Released` -- the end that is meant: nothing held, nothing gone wrong, nobody waited for;
  * `wp_setUp` … `wp_joinAll` -- the rules of the shared parts;
  * `wp_udpFwdCfg`, `wp_closeSocks` -- the two loops over `sock_array`;
  * `wp_test`, `tcpReceive_enough` -- the tests of multiprocess, and that their receive loop has
    passes enough;
  * `mains_unwind` -- the whole runs, for any answers of the environment.
-/
import Nfp.Mains.Examples

namespace Nfp.Mains

open Nfp.Lib Nfp.Lib.Cmd

/-- Nothing is held any more, nothing went wrong, nothing was waited for. -/
structure Released (w : World) : Prop where
  held : w.held = []
  workers : w.workers = []
  faults : w.faults = []
  waited : w.waited = false

/-- NFP is up and the first `n` entries of the thread table run. -/
def up (n : Nat) : World := ⟨[.args, .nfp], List.range n, false, false, []⟩

section Rules

variable {P : World → Option Exit → Prop} {Q : World → Exit → Prop} {n : Nat}

theorem wp_parseArgs {onTheSpot : Bool} (hok : P ⟨[.args], [], false, false, []⟩ none)
    (hfail : P World.start (some .parse))
    (husage : onTheSpot = true → P ⟨[.args], [], false, false, []⟩ (some .usage)) :
    wp step P (parseArgs onTheSpot) World.start := by
  simp only [parseArgs, wp_bind, wp_fails, wp_ite, Bool.false_eq_true, if_false, if_true,
    wp_perform, wp_pure]
  refine ⟨hok, ?_⟩
  cases onTheSpot with
  | false => exact hfail
  | true => exact ⟨hfail, husage rfl⟩

/-- The set-up, with the `exit` inside `parse_args` where there is one. -/
theorem wp_setUp {onTheSpot : Bool} (hok : P (up 0) none)
    (hfail : ∀ w x, Released w → x ∈ [.sigaction, .parse, .nfpInitialize] → P w (some x))
    (husage : onTheSpot = true → P ⟨[.args], [], false, false, []⟩ (some .usage)) :
    wp step P (setUp onTheSpot) World.start := by
  simp only [setUp, wp_bind, wp_fails, wp_ite, Bool.false_eq_true, if_false, if_true, wp_pure]
  refine ⟨wp_parseArgs ?_ ?_ husage, ?_⟩
  · simp only [wp_bind, wp_fails, wp_ite, Bool.false_eq_true, if_false, if_true, wp_perform,
      wp_pure, step_acquire]
    rw [step_release_other _ _ _ _ _ (by decide) (by decide)]
    exact ⟨hok, hfail _ _ ⟨rfl, rfl, rfl, rfl⟩ (by decide)⟩
  · exact hfail _ _ ⟨rfl, rfl, rfl, rfl⟩ (by decide)
  · exact hfail _ _ ⟨rfl, rfl, rfl, rfl⟩ (by decide)

/-- The same where every failure of `parse_args` is one of its results. -/
theorem wp_setUp_false (hok : P (up 0) none)
    (hfail : ∀ w x, Released w → x ∈ [.sigaction, .parse, .nfpInitialize] → P w (some x)) :
    wp step P (setUp false) World.start :=
  wp_setUp hok hfail fun h => absurd h Bool.false_ne_true

/-- `nfp_terminate` and `parse_args_cleanup` where nothing else is held. -/
theorem wp_terminate {R : World → Unit → Prop} {stopped waited : Bool} {faults : List Fault}
    (h : R ⟨[], [], stopped, waited, faults⟩ ()) :
    wp step R terminate ⟨[.args, .nfp], [], stopped, waited, faults⟩ := by
  simp only [terminate, wp_bind, wp_perform]
  rw [step_release _ _ _ _ _ (by decide) (fun _ => ⟨rfl, rfl⟩),
    step_release_other _ _ _ _ _ (by decide) (by decide)]
  simpa [Res.isThread] using h

theorem wp_joinWorkers {R : World → Unit → Prop} {held : List Res} {stopped waited : Bool}
    {faults : List Fault}
    (h : R ⟨held, [], stopped, waited || (!(List.range n).isEmpty && !stopped), faults⟩ ()) :
    wp step R (joinWorkers n) ⟨held, List.range n, stopped, waited, faults⟩ := by
  simp only [joinWorkers, wp_perform, step_join_all]
  exact h

/-- **Giving up** with the workers joined ends with nothing held. -/
theorem wp_giveUp {x : Exit} (h : ∀ w, Released w → Q w x) :
    wp step Q (giveUp (joinWorkers n) x) (up n) := by
  simp only [giveUp, wp_bind, wp_perform, up, step_stop]
  refine wp_joinWorkers (wp_terminate (h _ ⟨rfl, rfl, rfl, ?_⟩))
  simp

theorem wp_workersFromCpumask (hok : P (up n) none)
    (hfail : ∀ w x, Released w → x ∈ [.cores, .threads, .addresses, .cli] → P w (some x)) :
    wp step P (workersFromCpumask n) (up 0) := by
  have hgive : ∀ k x, x ∈ [Exit.cores, .threads, .addresses, .cli] →
      wp step (fun w x => P w (some x)) (giveUp (joinWorkers k) x) (up k) :=
    fun k x hx => wp_giveUp fun w hw => hfail w x hw hx
  simp only [workersFromCpumask, wp_bind, wp_fails, wp_ite, Bool.false_eq_true, if_false, if_true]
  refine ⟨wp_threadCreate ?_ (fun k hk => ?_) ?_, wp_terminate (hfail _ _ ⟨rfl, rfl, rfl, rfl⟩ ?_)⟩
  · rw [if_neg (not_not.mpr rfl)]
    exact ⟨⟨hok, hgive n .cli (by decide)⟩, hgive n .addresses (by decide)⟩
  · rw [if_pos (by omega), if_pos (by omega)]
    exact hgive k .threads (by decide)
  · rw [if_pos (by omega), if_neg (not_not.mpr rfl)]
    simp only [giveUp, wp_bind, wp_perform, wp_pure, step_stop]
    exact wp_terminate (hfail _ _ ⟨rfl, rfl, rfl, rfl⟩ (by decide))
  · decide

/-- Calls on a socket that is closed at the first failure. -/
theorem wp_callsOrClose {R : World → Bool → Prop} {r : Res} {w : World} (calls : Nat)
    (hok : R w false) (hfail : R (step w (.release r)) true) :
    wp step R (callsOrClose r calls) w := by
  induction calls with
  | zero => exact hok
  | succ calls ih =>
      simp only [callsOrClose, wp_bind, wp_fails, wp_ite, wp_perform, wp_pure, Bool.false_eq_true,
        if_false, if_true]
      exact ⟨ih, hfail⟩

/-- The check of the queues, with what an `exit` does before it. -/
theorem wp_checkQueues {onTheSpot : Cmd Act Unit} (hok : P (up 0) none)
    (herror : ∀ w, Released w → P w (some (.queues false)))
    (hexit : wp step (fun w _ => P w (some (.queues true))) onTheSpot (up 0)) :
    wp step P (checkQueues onTheSpot) (up 0) := by
  simp only [checkQueues, wp_bind, wp_answer]
  intro k
  rcases k with _ | _ | k
  · exact hok
  · simp only [wp_bind]
    exact wp_terminate (herror _ ⟨rfl, rfl, rfl, rfl⟩)
  · simp only [wp_bind]
    exact hexit

/-- NFP, the workers and the thread for timer events. -/
def upWithDispatcher (n : Nat) : World :=
  ⟨[.args, .nfp, .dispatcher], List.range n, false, false, []⟩

/-- Giving up with that thread running. -/
theorem wp_giveUp_all {x : Exit} (h : ∀ w, Released w → Q w x) :
    wp step Q (giveUp (joinAll n) x) (upWithDispatcher n) := by
  simp only [giveUp, joinAll, wp_bind, wp_perform, upWithDispatcher, step_stop]
  refine wp_joinWorkers ?_
  rw [step_release_other _ _ _ _ _ (by decide) (by decide)]
  exact wp_terminate (h _ ⟨rfl, rfl, rfl, by simp⟩)

end Rules

section Ends

variable {e : Example} {n : Nat}

/-- A place where a `main` ends with nothing held. -/
theorem Released.ends {w : World} (h : Released w) {x : Exit} (hleft : e.left x = [])
    (hfaults : e.faults n x = []) : e.Ends n w x :=
  ⟨hleft ▸ h.held, h.workers, hfaults ▸ h.faults, fun _ => h.waited⟩

/-- The programs that answer a bad number of queues with `exit` release everything elsewhere. -/
theorem Released.ends_unless_exit {w : World} (h : Released w) {x : Exit}
    (he : e = .fpmDirect ∨ e = .fpmPower ∨ ∃ sockCount, e = .udpFwd sockCount)
    (hx : x ≠ .queues true) : e.Ends n w x := by
  rcases he with rfl | rfl | ⟨sockCount, rfl⟩
  all_goals
    refine h.ends ?_ rfl
    cases x with
    | queues b => cases b <;> first | rfl | exact absurd rfl hx
    | _ => rfl

/-- A `main` that ends after its workers. -/
theorem ends_late {held : List Res} {stopped waited : Bool} {faults : List Fault} {x : Exit}
    (hheld : held = e.left x) (hfaults : faults = e.faults n x) (hx : x.early = false) :
    e.Ends n ⟨held, [], stopped, waited, faults⟩ x :=
  ⟨hheld, rfl, hfaults, fun h => absurd (hx.symm.trans h) Bool.false_ne_true⟩

theorem fpmMain_ends (perfStat : Bool) (n : Nat) :
    wp step (Example.Ends (.fpm perfStat) n) (fpmMain perfStat n) World.start := by
  have hrel : ∀ w x, Released w → Example.Ends (.fpm perfStat) n w x :=
    fun w x h => h.ends rfl rfl
  simp only [fpmMain, wp_bind]
  refine wp_setUp_false ?_ fun w x h _ => hrel w x h
  simp only [wp_bind]
  refine wp_workersFromCpumask ?_ fun w x h _ => hrel w x h
  cases perfStat with
  | false =>
      simp only [Bool.false_eq_true, if_false, wp_bind]
      exact wp_joinWorkers (wp_terminate (ends_late rfl rfl rfl))
  | true =>
      simp only [if_true, wp_bind, wp_fails, wp_ite, Bool.false_eq_true, if_false, wp_perform,
        wp_pure]
      refine ⟨?_, wp_giveUp fun w h => hrel w _ h⟩
      simp only [up, step_acquire]
      refine wp_joinWorkers ?_
      rw [step_release_other _ _ _ _ _ (by decide) (by decide)]
      exact wp_terminate (ends_late rfl rfl rfl)

theorem webserverMain_ends (n : Nat) :
    wp step (Example.Ends .webserver n) (webserverMain n) World.start := by
  have hrel : ∀ w x, Released w → Example.Ends .webserver n w x := fun w x h => h.ends rfl rfl
  simp only [webserverMain, wp_bind]
  refine wp_setUp_false ?_ fun w x h _ => hrel w x h
  simp only [wp_bind]
  refine wp_workersFromCpumask ?_ fun w x h _ => hrel w x h
  simp only [wp_bind, wp_fails, wp_ite, Bool.false_eq_true, if_false, if_true, wp_perform, wp_pure]
  refine ⟨?_, wp_giveUp fun w h => hrel w _ h⟩
  simp only [up, step_acquire]
  refine wp_joinWorkers ?_
  rw [step_release_other _ _ _ _ _ (by decide) (by decide)]
  exact wp_terminate (ends_late rfl rfl rfl)

/-- A failed `udpecho_config` leaves its descriptor, which `udpecho_cleanup` closes again. -/
theorem udpechoMain_ends (n : Nat) :
    wp step (Example.Ends .udpecho n) (udpechoMain n) World.start := by
  have hrel : ∀ w x, Released w → x.early = true → x ≠ .usage → Example.Ends .udpecho n w x := by
    intro w x h hx hu
    refine h.ends ?_ (by cases x <;> first | rfl | cases hx)
    cases x <;> first | rfl | exact absurd rfl hu
  simp only [udpechoMain, wp_bind]
  refine wp_setUp ?_ (fun w x h hx => hrel w x h (by revert x; decide) (by revert x; decide))
    fun _ => ⟨rfl, rfl, rfl, fun _ => rfl⟩
  simp only [wp_bind]
  refine wp_workersFromCpumask ?_
    fun w x h hx => hrel w x h (by revert x; decide) (by revert x; decide)
  simp only [udpechoConfig, wp_bind, wp_fails, wp_ite, Bool.false_eq_true, if_false, if_true,
    wp_perform, wp_pure, up, step_acquire]
  refine ⟨wp_callsOrClose 4 ?_ ?_, ?_⟩
  · simp only [udpechoCleanup, Bool.false_eq_true, if_false, if_true, wp_perform]
    refine wp_joinWorkers ?_
    rw [step_release_other _ _ _ _ _ (by decide) (by decide)]
    exact wp_terminate (ends_late rfl rfl rfl)
  · rw [step_release_other _ _ _ _ _ (by decide) (by decide)]
    simp only [udpechoCleanup, if_true, wp_perform]
    exact wp_joinWorkers (wp_terminate (ends_late rfl rfl rfl))
  · simp only [udpechoCleanup, Bool.false_eq_true, if_false, wp_pure]
    exact wp_joinWorkers (wp_terminate (ends_late rfl rfl rfl))

/-- **multicast and ioctl_test** keep their arguments at every place after `parse_args`. -/
theorem uncheckedMain_ends (he : e = .multicast ∨ e = .ioctlTest) :
    wp step (e.Ends n) (uncheckedMain n) World.start := by
  -- the places before the workers are waited for, then the last two
  have hfail : ∀ x ∈ [Exit.usage, .nfpInitialize, .cores, .threads], ∀ workers stopped waited,
      workers = [] → waited = false → e.Ends n ⟨[.args], workers, stopped, waited, []⟩ x := by
    rintro x hx workers stopped waited rfl rfl
    simp only [List.mem_cons, List.not_mem_nil, or_false] at hx
    rcases he with rfl | rfl <;> rcases hx with rfl | rfl | rfl | rfl <;>
      exact ⟨rfl, rfl, rfl, fun _ => rfl⟩
  have hserved : ∀ waited, e.Ends n ⟨[.args], [], false, waited, []⟩ .served := by
    rcases he with rfl | rfl <;> exact fun _ => ends_late rfl rfl rfl
  have hwithout : ∀ waited,
      e.Ends n ⟨[.args], [], false, waited, [.notHeld .service]⟩ (.servedWithout false) := by
    rcases he with rfl | rfl <;> exact fun _ => ends_late rfl rfl rfl
  have hparse : e.Ends n World.start .parse := by
    rcases he with rfl | rfl <;> exact ⟨rfl, rfl, rfl, fun _ => rfl⟩
  simp only [uncheckedMain, wp_bind]
  refine wp_parseArgs ?_ hparse fun _ => hfail _ (by decide) _ _ _ rfl rfl
  simp only [wp_bind, wp_fails, wp_ite, wp_perform, wp_pure, step_acquire, Bool.false_eq_true,
    if_false, if_true, List.cons_append, List.nil_append]
  refine ⟨⟨wp_threadCreate ?_ (fun k hk => ?_) ?_, hfail _ (by decide) _ _ _ rfl rfl⟩,
    hfail _ (by decide) _ _ _ rfl rfl⟩
  · rw [if_neg (not_not.mpr rfl)]
    simp only [Bool.not_true, Bool.not_false, Bool.false_eq_true, if_false, if_true, step_acquire]
    exact ⟨wp_joinWorkers (hserved _), wp_joinWorkers (hwithout _)⟩
  · rw [if_pos (by omega), if_pos (by omega)]
    simp only [step_stop]
    exact wp_joinWorkers (hfail _ (by decide) _ _ _ rfl (by simp [Res.isThread]))
  · rw [if_pos (by omega), if_neg (not_not.mpr rfl)]
    exact hfail _ (by decide) _ _ _ rfl rfl

theorem multicastMain_ends (n : Nat) :
    wp step (Example.Ends .multicast n) (multicastMain n) World.start := by
  simp only [multicastMain, wp_bind, wp_fails, wp_ite, Bool.false_eq_true, if_false, if_true,
    wp_pure]
  exact ⟨uncheckedMain_ends (.inl rfl), rfl, rfl, rfl, fun _ => rfl⟩

/-- The part fpm_direct and fpm_power share; what an `exit` leaves is the same in both. -/
theorem wp_setUpDirect {P : World → Option Exit → Prop} (hok : P (up 0) none)
    (hfail : ∀ w x, Released w →
      x ∈ [.sigaction, .parse, .nfpInitialize, .cores, .interfaces, .queues false] → P w (some x))
    (hexit : P (up 0) (some (.queues true))) : wp step P setUpDirect World.start := by
  simp only [setUpDirect, wp_bind]
  refine wp_setUp_false ?_ fun w x h hx => hfail w x h (by revert x; decide)
  simp only [wp_bind, wp_fails, wp_ite, Bool.false_eq_true, if_false, if_true]
  refine ⟨⟨wp_checkQueues hok (fun w h => hfail w _ h (by decide)) hexit, ?_⟩, ?_⟩
  · exact wp_terminate (hfail _ _ ⟨rfl, rfl, rfl, rfl⟩ (by decide))
  · exact wp_terminate (hfail _ _ ⟨rfl, rfl, rfl, rfl⟩ (by decide))

theorem fpmDirectMain_ends (n : Nat) :
    wp step (Example.Ends .fpmDirect n) (fpmDirectMain n) World.start := by
  have hrel : ∀ w x, Released w → x ≠ .queues true → Example.Ends .fpmDirect n w x :=
    fun w x h hx => h.ends_unless_exit (by simp) hx
  simp only [fpmDirectMain, wp_bind]
  refine wp_setUpDirect ?_ (fun w x h hx => hrel w x h (by revert x; decide))
    ⟨rfl, rfl, rfl, fun _ => rfl⟩
  simp only [wp_bind]
  refine wp_createWorkers ?_ fun k _ => wp_giveUp fun w h => hrel w _ h (by decide)
  simp only [wp_bind, wp_fails, wp_ite, Bool.false_eq_true, if_false, if_true]
  refine ⟨⟨?_, ?_⟩, ?_⟩
  · exact wp_joinWorkers (wp_terminate (ends_late rfl rfl rfl))
  · exact wp_giveUp fun w h => hrel w _ h (by decide)
  · exact wp_giveUp fun w h => hrel w _ h (by decide)

/-- The workers and the thread for timer events. -/
theorem wp_workersAndDispatcher {P : World → Option Exit → Prop}
    (hok : P (upWithDispatcher n) none)
    (hfail : ∀ w x, Released w → x ∈ [.threads, .dispatcher, .addresses, .cli] → P w (some x)) :
    wp step P (workersAndDispatcher n) (up 0) := by
  simp only [workersAndDispatcher, wp_bind]
  refine wp_createWorkers ?_ fun k _ => ?_
  · simp only [wp_bind, wp_fails, wp_ite, wp_perform, wp_pure, Bool.false_eq_true, if_false,
      if_true]
    refine ⟨⟨⟨hok, ?_⟩, ?_⟩, ?_⟩
    · exact wp_giveUp_all fun w h => hfail w _ h (by decide)
    · exact wp_giveUp_all fun w h => hfail w _ h (by decide)
    · exact wp_giveUp fun w h => hfail w _ h (by decide)
  · simp only [wp_bind]
    exact wp_giveUp fun w h => hfail w _ h (by decide)

/-- The workers and that thread, joined in the end. -/
theorem wp_joinAll {R : World → Unit → Prop} (held : List Res) {stopped : Bool}
    (h : ∀ waited, R ⟨[.args, .nfp] ++ held, [], stopped, waited, []⟩ ()) :
    wp step R (joinAll n)
      ⟨[.args, .nfp, .dispatcher] ++ held, List.range n, stopped, false, []⟩ := by
  simp only [joinAll, wp_bind]
  refine wp_joinWorkers ?_
  simp only [wp_perform]
  rw [step_release_other _ _ _ _ _ (by simp) (by decide)]
  exact h _

theorem fpmPowerMain_ends (n : Nat) :
    wp step (Example.Ends .fpmPower n) (fpmPowerMain n) World.start := by
  have hrel : ∀ w x, Released w → x ≠ .queues true → Example.Ends .fpmPower n w x :=
    fun w x h hx => h.ends_unless_exit (by simp) hx
  simp only [fpmPowerMain, wp_bind]
  refine wp_setUpDirect ?_ (fun w x h hx => hrel w x h (by revert x; decide))
    ⟨rfl, rfl, rfl, fun _ => rfl⟩
  simp only [wp_bind]
  refine wp_workersAndDispatcher ?_ fun w x h hx => hrel w x h (by revert x; decide)
  simp only [wp_bind]
  exact wp_joinAll [] fun waited => wp_terminate (ends_late rfl rfl rfl)

theorem webserver2Serve_ends (direct : Bool) (n : Nat) :
    wp step (Example.Ends (.webserver2 direct) n) (webserver2Serve n) (up 0) := by
  have hgive : ∀ k x, x.early = true →
      wp step (Example.Ends (.webserver2 direct) n) (giveUp (joinWorkers k) x) (up k) :=
    fun k x hx => wp_giveUp fun w h => h.ends (by cases x <;> first | rfl | cases hx) rfl
  simp only [webserver2Serve, wp_bind]
  refine wp_createWorkers ?_ fun k _ => hgive k _ rfl
  simp only [setupWebserver, wp_bind, wp_fails, wp_ite, wp_perform, wp_pure, Bool.false_eq_true,
    if_false, if_true]
  refine ⟨⟨⟨⟨⟨?_, ?_⟩, hgive n _ rfl⟩, hgive n _ rfl⟩, hgive n _ rfl⟩, hgive n _ rfl⟩
  · -- it listens, and keeps the socket to the end
    refine wp_joinWorkers ?_
    simp only [terminate, wp_bind, wp_perform]
    exact ends_late rfl rfl rfl
  · exact wp_joinWorkers (wp_terminate (ends_late rfl rfl rfl))

theorem webserver2Main_ends (direct : Bool) (n : Nat) :
    wp step (Example.Ends (.webserver2 direct) n) (webserver2Main direct n) World.start := by
  have hrel : ∀ w x, Released w → x.early = true → Example.Ends (.webserver2 direct) n w x :=
    fun w x h hx => h.ends (by cases x <;> first | rfl | cases hx) rfl
  have hdown : ∀ x, x.early = true →
      wp step (fun w _ => Example.Ends (.webserver2 direct) n w x) terminate (up 0) :=
    fun x hx => wp_terminate (hrel _ _ ⟨rfl, rfl, rfl, rfl⟩ hx)
  have hserve := webserver2Serve_ends direct n
  simp only [webserver2Main, wp_bind]
  refine wp_setUp_false ?_ fun w x h hx => hrel w x h (by revert x; decide)
  simp only [wp_bind, wp_fails, wp_ite, Bool.false_eq_true, if_false, if_true]
  refine ⟨⟨?_, hdown _ rfl⟩, hdown _ rfl⟩
  cases direct with
  | false => exact hserve
  | true => exact ⟨hserve, hdown _ rfl⟩

/-! ### The sockets of udp_fwd_socket -/

/-- The sockets in the first `k` entries of `sock_array`. -/
def socks (k : Nat) : List Res := (List.range k).map .sock

/-- What `udp_fwd_cfg` holds when it returns. -/
def Fwd.held (g : Fwd) : List Res :=
  (if g.array then .sockArray :: socks g.size else []) ++ if g.raddr then [.raddr] else []

/-- What it may return: without `sock_array` there is nothing else. -/
def Fwd.Fits (g : Fwd) : Prop := g.array = false → g.size = 0 ∧ g.raddr = false

section Fwd

variable {base : List Res} {workers : List Nat} {stopped waited : Bool} {faults : List Fault}

/-- One socket more, or the same as before. -/
theorem wp_createLocalSock {R : World → Bool → Prop} {held : List Res} {i : Nat}
    (hnew : .sock i ∉ held)
    (hok : R ⟨held ++ [.sock i], workers, stopped, waited, faults⟩ false)
    (hfail : R ⟨held, workers, stopped, waited, faults⟩ true) :
    wp step R (createLocalSock i) ⟨held, workers, stopped, waited, faults⟩ := by
  simp only [createLocalSock, wp_bind, wp_fails, wp_ite, wp_perform, wp_pure, Bool.false_eq_true,
    if_false, if_true, step_acquire]
  refine ⟨wp_callsOrClose 2 hok ?_, hfail⟩
  rwa [step_close _ _ _ _ _ hnew]

theorem wp_udpFwdCfg {R : World → Fwd → Prop} (sockCount : Nat) (hnew : ∀ i, .sock i ∉ base)
    (h : ∀ g : Fwd, g.Fits → R ⟨base ++ g.held, workers, stopped, waited, faults⟩ g) :
    wp step R (udpFwdCfg sockCount) ⟨base, workers, stopped, waited, faults⟩ := by
  simp only [udpFwdCfg, wp_bind, wp_fails, wp_ite, wp_perform, wp_pure, Bool.false_eq_true,
    if_false, if_true, step_acquire]
  constructor
  · -- the loop: before pass `i` the first `i` sockets are there
    refine wp_times (fun i w => w =
      ⟨base ++ .sockArray :: socks i, workers, stopped, waited, faults⟩) sockCount 0 ?_ ?_ rfl
    · rintro i - - w rfl
      have hfresh : Res.sock i ∉ base ++ .sockArray :: socks i := by
        simp [hnew, socks]
      simp only [wp_bind]
      refine wp_createLocalSock hfresh ?_ ?_
      · simp [socks, List.range_succ]
      · have hi := h ⟨true, i, true, false⟩ (fun e => absurd e.symm Bool.false_ne_true)
        simpa [Fwd.held] using hi
    · rintro w rfl
      have hless := h ⟨true, sockCount, true, false⟩ (fun e => absurd e.symm Bool.false_ne_true)
      have hall := h ⟨false, sockCount, true, true⟩ (fun e => absurd e.symm Bool.false_ne_true)
      simp only [wp_bind, wp_fails, wp_ite, wp_perform, wp_pure, Bool.false_eq_true, if_false,
        if_true, step_acquire, Nat.zero_add]
      exact ⟨by simpa [Fwd.held] using hall, by simpa [Fwd.held] using hless⟩
  · have hnone := h ⟨true, 0, false, false⟩ (fun _ => ⟨rfl, rfl⟩)
    simpa [Fwd.held] using hnone

/-- The loop of `udp_fwd_cleanup` closes every socket of the array. -/
theorem wp_closeSocks {R : World → Option Unit → Prop} {held : List Res} (k : Nat)
    (hnew : ∀ i, .sock i ∉ held)
    (h : R ⟨held, workers, stopped, waited, faults⟩ none) :
    wp step R (closeSocks k) ⟨held ++ socks k, workers, stopped, waited, faults⟩ := by
  refine wp_times (fun i w => w =
    ⟨held ++ (List.range' i (k - i)).map .sock, workers, stopped, waited, faults⟩) k 0 ?_ ?_ ?_
  · rintro i - hi w rfl
    have hrest : List.range' i (k - i) = i :: List.range' (i + 1) (k - (i + 1)) := by
      rw [show k - i = (k - (i + 1)) + 1 by omega, List.range'_succ]
    simp only [wp_bind, wp_perform, wp_pure]
    rw [step_release_other _ _ _ _ _ (by simp [hrest]) (by simp),
      List.erase_append_right _ (hnew i), hrest, List.map_cons, List.erase_cons_head]
    simp [Res.isThread]
  · rintro w rfl
    simpa using h
  · simp [socks, List.range_eq_range']

theorem wp_udpFwdCleanup {R : World → Unit → Prop} {g : Fwd} (hg : g.Fits)
    (hbase : ∀ r ∈ base, r = .args ∨ r = .nfp)
    (h : R ⟨base, workers, stopped, waited, faults⟩ ()) :
    wp step R (udpFwdCleanup g) ⟨base ++ g.held, workers, stopped, waited, faults⟩ := by
  have hnew : ∀ r, r ≠ .args → r ≠ .nfp → r ∉ base := fun r ha hn hr =>
    (hbase r hr).elim ha hn
  -- the sockets, then the array
  have harray : ∀ size, wp step (fun w _ => R (step w (.release .sockArray)) ()) (closeSocks size)
      ⟨base ++ .sockArray :: socks size, workers, stopped, waited, faults⟩ := by
    intro size
    rw [List.append_cons]
    refine wp_closeSocks size (fun i hi => ?_) ?_
    · rcases List.mem_append.mp hi with hi | hi
      · exact hnew _ (by simp) (by simp) hi
      · simp at hi
    · rw [step_release_other _ _ _ _ _ (by simp) (by decide),
        List.erase_append_right _ (hnew _ (by decide) (by decide))]
      simpa [Res.isThread] using h
  obtain ⟨failed, size, array, raddr⟩ := g
  cases array with
  | false =>
      obtain ⟨rfl, rfl⟩ := hg rfl
      simpa [udpFwdCleanup, closeSocks, times, Fwd.held] using h
  | true =>
      cases raddr with
      | false =>
          simp only [udpFwdCleanup, Fwd.held, wp_bind, Bool.false_eq_true, if_false, if_true,
            wp_perform, List.append_nil]
          exact harray size
      | true =>
          have hraddr : Res.raddr ∉ base ++ .sockArray :: socks size := by
            simp [hnew, socks]
          simp only [udpFwdCleanup, Fwd.held, wp_bind, if_true, wp_perform]
          rw [← List.append_assoc, step_release_other _ _ _ _ _ (by simp) (by decide),
            List.erase_append_right _ hraddr]
          simpa [Res.isThread] using harray size

theorem udpFwdMain_ends (sockCount n : Nat) :
    wp step (Example.Ends (.udpFwd sockCount) n) (udpFwdMain sockCount n) World.start := by
  have hrel : ∀ w x, Released w → x ≠ .queues true → Example.Ends (.udpFwd sockCount) n w x :=
    fun w x h hx => h.ends_unless_exit (by simp) hx
  simp only [udpFwdMain, wp_bind]
  refine wp_setUp_false ?_ fun w x h hx => hrel w x h (by revert x; decide)
  simp only [wp_bind, wp_ite]
  split
  · exact wp_terminate (hrel _ _ ⟨rfl, rfl, rfl, rfl⟩ (by decide))
  refine wp_checkQueues ?_ (fun w h => hrel w _ h (by decide)) ⟨rfl, rfl, rfl, fun _ => rfl⟩
  simp only [wp_bind]
  refine wp_workersAndDispatcher ?_ fun w x h hx => hrel w x h (by revert x; decide)
  simp only [wp_bind]
  refine wp_udpFwdCfg sockCount (by simp) fun g hg => ?_
  obtain ⟨failed, size, array, raddr⟩ := g
  cases failed with
  | false =>
      simp only [Bool.false_eq_true, if_false, wp_bind]
      refine wp_joinAll _ fun waited => wp_udpFwdCleanup hg (by simp) (wp_terminate ?_)
      exact ends_late rfl rfl rfl
  | true =>
      simp only [if_true, wp_bind, wp_perform, step_stop]
      refine wp_joinAll _ fun waited => wp_udpFwdCleanup hg (by simp) (wp_terminate ?_)
      exact ends_late rfl rfl rfl

end Fwd

/-! ### The tests of multiprocess -/

/-- **Enough passes**: where the loop has one for every byte to come, more make no difference. -/
theorem tcpReceive_enough (recvCount : Nat) {passes total : Nat} (more : Nat)
    (h : recvCount ≤ total + passes + 1) :
    tcpReceive recvCount (passes + 1 + more) total = tcpReceive recvCount (passes + 1) total := by
  induction passes generalizing total with
  | zero =>
      rw [Nat.add_right_comm]
      simp only [tcpReceive]
      refine congrArg (answer >>= ·) (funext fun size => ?_)
      split
      · rfl
      · rw [if_neg (by omega), if_neg (by omega)]
  | succ passes ih =>
      rw [Nat.add_right_comm]
      rw [tcpReceive, tcpReceive]
      refine congrArg (answer >>= ·) (funext fun size => ?_)
      split
      · rfl
      · rw [ih (by omega)]

section Tests

variable {held : List Res} {workers : List Nat} {stopped waited : Bool} {faults : List Fault}

/-- The receive loop touches nothing. -/
theorem wp_tcpReceive {R : World → Unit → Prop} {w : World} (recvCount passes total : Nat)
    (h : R w ()) : wp step R (tcpReceive recvCount passes total) w := by
  induction passes generalizing total with
  | zero => exact h
  | succ passes ih =>
      simp only [tcpReceive, wp_bind, wp_answer, wp_ite, wp_pure]
      intro size
      split
      · exact h
      · split
        · exact ih _
        · exact h

theorem wp_bindRetry {R : World → Bool → Prop} {w : World} (h : ∀ b, R w b) :
    wp step R bindRetry w := by
  simp only [bindRetry, wp_bind]
  refine wp_times (fun _ v => v = w) retryMax 0 ?_ ?_ rfl
  · rintro i - - v rfl
    simp only [wp_bind, wp_fails, wp_ite, wp_pure, Bool.false_eq_true, if_false, if_true]
    exact ⟨h _, trivial⟩
  · rintro v rfl
    exact h _

/-- The bound socket, or the same as before, or the socket left open. -/
theorem wp_boundSocket {R : World → Option Bool → Prop} {laddr : Bool} (hnew : .sock 0 ∉ held)
    (hok : R ⟨held ++ [.sock 0], workers, stopped, waited, faults⟩ none)
    (hfail : R ⟨held, workers, stopped, waited, faults⟩ (some false))
    (hopen : R ⟨held ++ [.sock 0], workers, stopped, waited, faults⟩ (some true)) :
    wp step R (boundSocket laddr) ⟨held, workers, stopped, waited, faults⟩ := by
  have hclosed : R (step ⟨held ++ [.sock 0], workers, stopped, waited, faults⟩
      (.release (.sock 0))) (some false) := by
    rwa [step_close _ _ _ _ _ hnew]
  have hbind : ∀ b, if b = true
      then R (step ⟨held ++ [.sock 0], workers, stopped, waited, faults⟩ (.release (.sock 0)))
        (some false)
      else R ⟨held ++ [.sock 0], workers, stopped, waited, faults⟩ none := by
    intro b
    cases b with
    | false => exact hok
    | true => exact hclosed
  simp only [boundSocket, wp_bind, wp_fails, wp_ite, wp_perform, wp_pure, Bool.false_eq_true,
    if_false, if_true, step_acquire]
  refine ⟨?_, hfail⟩
  cases laddr with
  | false => exact ⟨⟨wp_bindRetry hbind, hopen⟩, hopen⟩
  | true => exact wp_bindRetry hbind

theorem wp_test {R : World → Bool → Prop} {a : TestArgs} (hnew : ∀ i, .sock i ∉ held)
    (hok : R ⟨held, workers, stopped, waited, faults⟩ false)
    (hopen : R ⟨held ++ [.sock 0], workers, stopped, waited, faults⟩ true) :
    wp step R a.test ⟨held, workers, stopped, waited, faults⟩ := by
  have hclosed : R (step ⟨held ++ [.sock 0], workers, stopped, waited, faults⟩
      (.release (.sock 0))) false := by
    rwa [step_close _ _ _ _ _ (hnew 0)]
  obtain ⟨tcp, laddr, recvCount⟩ := a
  cases tcp with
  | false =>
      simp only [TestArgs.test, Bool.false_eq_true, if_false, udpTest, wp_bind]
      refine wp_boundSocket (hnew 0) ?_ hok hopen
      simp only [wp_bind]
      -- the receive loop leaves everything as it is
      refine wp_times (fun _ w => w =
        ⟨held ++ [.sock 0], workers, stopped, waited, faults⟩) recvCount 0 ?_ ?_ rfl
      · rintro i - - w rfl
        simp only [wp_bind, wp_fails, wp_ite, wp_perform, wp_pure, Bool.false_eq_true, if_false,
          if_true]
        exact ⟨trivial, hclosed⟩
      · rintro w rfl
        exact hclosed
  | true =>
      have hboth : R (step (step ⟨held ++ [.sock 0] ++ [.sock 1], workers, stopped, waited, faults⟩
          (.release (.sock 1))) (.release (.sock 0))) false := by
        have hcd : Res.sock 1 ∉ held ++ [.sock 0] := by simp [hnew]
        rwa [step_close _ _ _ _ _ hcd]
      simp only [TestArgs.test, if_true, tcpTest, wp_bind]
      refine wp_boundSocket (hnew 0) ?_ hok hopen
      simp only [wp_bind, wp_fails, wp_ite, wp_perform, wp_pure, Bool.false_eq_true, if_false,
        if_true, step_acquire]
      exact ⟨⟨wp_tcpReceive _ _ _ hboth, hclosed⟩, hclosed⟩

end Tests

/-- The parent that gives up with a socket left open. -/
theorem wp_giveUp_unclosed (a : TestArgs) (n : Nat) :
    wp step (Example.Ends (.multiprocess a) n) (giveUp (joinWorkers n) .noAddress)
      ⟨[.args, .nfp, .sock 0], List.range n, false, false, []⟩ := by
  simp only [giveUp, wp_bind, wp_perform, step_stop]
  refine wp_joinWorkers ?_
  simp only [terminate, wp_bind, wp_perform, wp_pure]
  exact ⟨rfl, rfl, rfl, fun _ => by simp [step, Res.isThread]⟩

/-- A child that gives up as if it were the parent, with a socket left open or not. -/
theorem wp_giveUp_child (a : TestArgs) (n : Nat) (unclosed : Bool) :
    wp step (Example.Ends (.multiprocess a) n) (giveUp (joinWorkers n) (.childFailed unclosed))
      ⟨.args :: (if unclosed then [.sock 0] else []), [], false, false, []⟩ := by
  simp only [giveUp, joinWorkers, terminate, wp_bind, wp_perform, wp_pure, step,
    World.releaseFault]
  refine ⟨?_, rfl, ?_, fun _ => by simp [Res.isThread]⟩
  · cases unclosed <;> rfl
  · cases unclosed <;> simp [Example.faults]

/-- **multiprocess**: the parent and the children that got their set-up end as they should but for
    the socket they found no address for; a child that did not goes on as the parent. -/
theorem multiprocessMain_ends (a : TestArgs) (n : Nat) :
    wp step (Example.Ends (.multiprocess a) n) (multiprocessMain a n) World.start := by
  have hrel : ∀ w x, Released w → (∀ b, x ≠ .childFailed b) → x ≠ .noAddress →
      Example.Ends (.multiprocess a) n w x := by
    intro w x h hc hx
    refine h.ends ?_ ?_
    · cases x <;> first | rfl | exact absurd rfl hx | exact absurd rfl (hc _)
    · cases x <;> first | rfl | exact absurd rfl (hc _)
  have hgive : ∀ x, (∀ b, x ≠ .childFailed b) → x ≠ .noAddress →
      wp step (Example.Ends (.multiprocess a) n) (giveUp (joinWorkers n) x) (up n) :=
    fun x hc hx => wp_giveUp fun w h => hrel w x h hc hx
  simp only [multiprocessMain, wp_bind]
  refine wp_setUp_false ?_ fun w x h hx => hrel w x h (by revert x; decide) (by revert x; decide)
  simp only [wp_bind, wp_fails, wp_ite, Bool.false_eq_true, if_false, if_true, wp_answer]
  refine ⟨fun ret => ?_, wp_terminate (hrel _ _ ⟨rfl, rfl, rfl, rfl⟩ (by decide) (by decide))⟩
  by_cases h2 : ret = 2
  · rw [if_pos h2]
    simp only [giveUp, wp_bind, wp_perform, wp_pure]
    exact wp_terminate (hrel _ _ ⟨rfl, rfl, rfl, rfl⟩ (by decide) (by decide))
  rw [if_neg h2]
  by_cases h0 : ret = 0
  · rw [if_pos h0]
    exact hrel _ _ ⟨rfl, rfl, rfl, rfl⟩ (by decide) (by decide)
  rw [if_neg h0]
  by_cases h1 : ret = 1
  · have hnew : ∀ i, Res.sock i ∉ [Res.args, .nfp] := by simp
    simp only [h1, if_true, wp_perform]
    refine ⟨⟨wp_test hnew ?_ ?_, hgive _ (by decide) (by decide)⟩,
      hgive _ (by decide) (by decide)⟩
    · exact hgive .served (by decide) (by decide)
    · exact wp_giveUp_unclosed a n
  · have hnew : ∀ i, Res.sock i ∉ [Res.args] := by simp
    simp only [h1, if_false, wp_perform]
    exact ⟨⟨wp_test hnew (wp_giveUp_child a n false) (wp_giveUp_child a n true),
      wp_giveUp_child a n false⟩, wp_giveUp_child a n false⟩

/-- **Every `main` ends as the tables say.** -/
theorem mains_unwind (e : Example) (n : Nat) (answers : List Nat) :
    e.Ends n (run step (e.main n) World.start answers).state
      (run step (e.main n) World.start answers).result := by
  refine (wp_iff (e.main n)).mp ?_ answers
  cases e with
  | fpm perfStat => exact fpmMain_ends perfStat n
  | webserver => exact webserverMain_ends n
  | udpecho => exact udpechoMain_ends n
  | multicast => exact multicastMain_ends n
  | ioctlTest => exact uncheckedMain_ends (.inr rfl)
  | fpmDirect => exact fpmDirectMain_ends n
  | fpmPower => exact fpmPowerMain_ends n
  | webserver2 direct => exact webserver2Main_ends direct n
  | udpFwd sockCount => exact udpFwdMain_ends sockCount n
  | multiprocess a => exact multiprocessMain_ends a n

-- the exceptions do occur: `exit` with NFP up, a socket closed twice, a child that goes on
example : (run step (fpmDirectMain 1) World.start [0, 0, 0, 0, 0, 2]).state.held = [.args, .nfp] :=
  rfl
example : (run step (udpechoMain 1) World.start [0, 0, 0, 0, 1, 0, 0, 0, 0, 1]).state.faults =
    [.notHeld (.sock 0)] := rfl
example : (run step (multiprocessMain ⟨false, false, 1⟩ 1) World.start
    [0, 0, 0, 0, 3]).state.faults = [.notRunning 0, .notHeld .nfp] := rfl
example : (run step (multiprocessMain ⟨true, false, 1⟩ 1) World.start
    [0, 0, 0, 0, 1, 0, 0, 0, 1]).state.held = [.sock 0] := rfl

end Ends

end Nfp.Mains
