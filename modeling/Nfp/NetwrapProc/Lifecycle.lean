/-
  File:      Nfp/NetwrapProc/Lifecycle.lean
  Subject:   START-UP AND TEAR-DOWN OF THE NETWRAP PROCESS (example/netwrap_proc/app_main.c):
             `nfp_netwrap_main_ctor`, which the loader runs before `main`, and
             `nfp_netwrap_main_dtor`, which the constructor calls itself on six failure exits and
             the loader runs once more when the process ends.

  What the destructor releases is decided by `netwrap_state` alone, which the constructor
  advances and nothing ever moves back. `failure` names the first step that fails, and
  `ctor_ledger` is the constructor read off it: what was acquired and released, and the state
  left behind. Both results are then about those few lists:

  * `processLife_sound_iff` -- over the whole life of the process nothing is released twice, or
    without having been acquired, exactly when start-up does not fail after `odp_init_global`;
  * `ctor_unwound_iff` -- a constructor that fails has released all it acquired, in reverse
    order, exactly when the failing step is not `nfp_get_default_worker_cpumask`: there the NFP
    instance is already up but `netwrap_state` has not been advanced past it.
-/
import Nfp.Lib.Ledger

namespace Nfp.NetwrapProc

open Nfp.Lib

/-- `enum netwrap_state_enum`. -/
inductive NetwrapState where
  | unint
  | odpInitGlobal
  | odpInitLocal
  | nfpInitGlobal
  | workersStarted
  deriving DecidableEq, Repr

/-- What start-up acquires: by `odp_init_global`, `odp_init_local`, `nfp_initialize` and, thread by
    thread, `nfp_thread_create`. -/
inductive Resource where
  | odpGlobal
  | odpLocal
  | nfp
  | worker (i : Nat)
  deriving DecidableEq, Repr

/-- The level of a resource: start-up goes up, tear-down has to come down. -/
def Resource.rank : Resource → Nat
  | .odpGlobal => 0
  | .odpLocal => 1
  | .nfp => 2
  | .worker _ => 3

/-- An effect: an acquisition that succeeded or a release, `nfp_stop_processing`, or
    `parse_args_cleanup`. -/
inductive Effect where
  | book (e : Entry Resource)
  | stopProcessing
  | parseArgsCleanup
  deriving DecidableEq, Repr

/-- The globals `netwrap_state` and `num_workers`, and the effects so far. -/
structure Proc where
  netwrapState : NetwrapState
  numWorkers : Nat
  log : List Effect

/-- Some more effects. -/
def Proc.emit (p : Proc) (es : List Effect) : Proc := { p with log := p.log ++ es }

/-- An assignment to `netwrap_state`. -/
def Proc.enter (p : Proc) (s : NetwrapState) : Proc := { p with netwrapState := s }

@[simp] theorem Proc.emit_log (p : Proc) (es : List Effect) : (p.emit es).log = p.log ++ es := rfl

@[simp] theorem Proc.emit_state (p : Proc) (es : List Effect) :
    (p.emit es).netwrapState = p.netwrapState := rfl

@[simp] theorem Proc.emit_workers (p : Proc) (es : List Effect) :
    (p.emit es).numWorkers = p.numWorkers := rfl

@[simp] theorem Proc.enter_log (p : Proc) (s : NetwrapState) : (p.enter s).log = p.log := rfl

/-- `nfp_thread_join(thread_tbl, n)`: the first `n` entries of the table, one by one. -/
def threadJoin (n : Nat) : List Effect :=
  (List.range n).map fun i => .book (.release (.worker i))

/-- `nfp_thread_create` with `n` threads created. -/
def threadsCreated (n : Nat) : List Effect :=
  (List.range n).map fun i => .book (.acquire (.worker i))

/-- The `switch (netwrap_state)` of the destructor: every case falls through to the next. -/
def teardown : NetwrapState → Nat → List Effect
  | .unint, _ => []
  | .odpInitGlobal, _ => [.book (.release .odpGlobal)]
  | .odpInitLocal, _ => [.book (.release .odpLocal), .book (.release .odpGlobal)]
  | .nfpInitGlobal, _ =>
      [.book (.release .nfp), .book (.release .odpLocal), .book (.release .odpGlobal)]
  | .workersStarted, numWorkers => threadJoin numWorkers ++
      [.book (.release .nfp), .book (.release .odpLocal), .book (.release .odpGlobal)]

/-- **`nfp_netwrap_main_dtor`**: it reads `netwrap_state` and leaves it as it is. -/
def nfpNetwrapMainDtor (p : Proc) : Proc :=
  p.emit (.stopProcessing :: teardown p.netwrapState p.numWorkers)

/-- **How the steps of a start-up end.** `workers` is `odp_cpumask_count` of the mask
    `nfp_get_default_worker_cpumask` fills in, `created` the return value of
    `nfp_thread_create`: the number of threads it created, or -1. -/
structure Startup where
  parseEnv : Bool
  odpInitGlobal : Bool
  odpInitLocal : Bool
  nfpInitialize : Bool
  workerCpumask : Bool
  workers : Nat
  created : Int
  configureAddresses : Bool
  cliProcessFile : Bool
  created_ge : -1 ≤ created
  created_le : created ≤ workers

/-- The constructor once the workers run: `configure_interface_addresses`, then
    `nfp_cli_process_file`. Both failure exits join the workers before the destructor does. -/
def ctorConfigure (o : Startup) (p : Proc) : Proc :=
  if o.configureAddresses = false then
    let p := (p.emit [.stopProcessing]).emit (threadJoin p.numWorkers)
    nfpNetwrapMainDtor (p.emit [.parseArgsCleanup])
  else if o.cliProcessFile = false then
    let p := (p.emit [.stopProcessing]).emit (threadJoin p.numWorkers)
    nfpNetwrapMainDtor (p.emit [.parseArgsCleanup])
  else p.emit [.parseArgsCleanup]

/-- The constructor from `nfp_thread_create` on. -/
def ctorThreads (o : Startup) (p : Proc) : Proc :=
  let p := p.emit (threadsCreated o.created.toNat)
  if o.created ≠ p.numWorkers then
    let p := p.emit [.stopProcessing]
    let p := if o.created ≠ -1 then p.emit (threadJoin o.created.toNat) else p
    nfpNetwrapMainDtor (p.emit [.parseArgsCleanup])
  else ctorConfigure o (p.enter .workersStarted)

/-- **`nfp_netwrap_main_ctor`**: every early return, with the destructor where the source calls
    it. -/
def nfpNetwrapMainCtor (o : Startup) : Proc :=
  let p : Proc := ⟨.unint, 0, []⟩
  if o.parseEnv = false then p
  else if o.odpInitGlobal = false then p.emit [.parseArgsCleanup]
  else
    let p := (p.emit [.book (.acquire .odpGlobal)]).enter .odpInitGlobal
    if o.odpInitLocal = false then nfpNetwrapMainDtor (p.emit [.parseArgsCleanup])
    else
      let p := (p.emit [.book (.acquire .odpLocal)]).enter .odpInitLocal
      if o.nfpInitialize = false then nfpNetwrapMainDtor (p.emit [.parseArgsCleanup])
      else
        -- the NFP instance is up, but `netwrap_state` still says `NETWRAP_ODP_INIT_LOCAL`
        let p := p.emit [.book (.acquire .nfp)]
        if o.workerCpumask = false then nfpNetwrapMainDtor (p.emit [.parseArgsCleanup])
        else ctorThreads o ({ p with numWorkers := o.workers }.enter .nfpInitGlobal)

/-- The life of the process: the constructor, and at exit the destructor. -/
def processLife (o : Startup) : Proc := nfpNetwrapMainDtor (nfpNetwrapMainCtor o)

/-! ## The constructor, read off its first failure -/

/-- The steps of start-up that can fail. -/
inductive Step where
  | parseEnv
  | odpInitGlobal
  | odpInitLocal
  | nfpInitialize
  | workerCpumask
  | threadCreate
  | configureAddresses
  | cliProcessFile
  deriving DecidableEq, Repr

/-- The first step that fails, if any does. -/
def failure (o : Startup) : Option Step :=
  if o.parseEnv = false then some .parseEnv
  else if o.odpInitGlobal = false then some .odpInitGlobal
  else if o.odpInitLocal = false then some .odpInitLocal
  else if o.nfpInitialize = false then some .nfpInitialize
  else if o.workerCpumask = false then some .workerCpumask
  else if o.created ≠ o.workers then some .threadCreate
  else if o.configureAddresses = false then some .configureAddresses
  else if o.cliProcessFile = false then some .cliProcessFile
  else none

/-- The acquisitions and releases among the effects. -/
def ledger (log : List Effect) : List (Entry Resource) :=
  log.filterMap fun
    | .book e => some e
    | _ => none

@[simp] theorem ledger_append (l l' : List Effect) : ledger (l ++ l') = ledger l ++ ledger l' :=
  List.filterMap_append

@[simp] theorem ledger_nil : ledger [] = [] := rfl

@[simp] theorem ledger_book (e : Entry Resource) (l : List Effect) :
    ledger (.book e :: l) = e :: ledger l := rfl

@[simp] theorem ledger_stopProcessing (l : List Effect) :
    ledger (.stopProcessing :: l) = ledger l := rfl

@[simp] theorem ledger_parseArgsCleanup (l : List Effect) :
    ledger (.parseArgsCleanup :: l) = ledger l := rfl

/-- The workers `0 .. n - 1`. -/
def workerList (n : Nat) : List Resource := (List.range n).map .worker

@[simp] theorem ledger_threadJoin (n : Nat) :
    ledger (threadJoin n) = (workerList n).map .release := by
  unfold threadJoin workerList ledger
  rw [List.filterMap_map, List.map_map]
  exact congrFun List.filterMap_eq_map (List.range n)

@[simp] theorem ledger_threadsCreated (n : Nat) :
    ledger (threadsCreated n) = (workerList n).map .acquire := by
  unfold threadsCreated workerList ledger
  rw [List.filterMap_map, List.map_map]
  exact congrFun List.filterMap_eq_map (List.range n)

/-- What the constructor acquired when `f` is its first failure. -/
def acquiredAt (o : Startup) : Option Step → List Resource
  | some .parseEnv | some .odpInitGlobal => []
  | some .odpInitLocal => [.odpGlobal]
  | some .nfpInitialize => [.odpGlobal, .odpLocal]
  | some .workerCpumask => [.odpGlobal, .odpLocal, .nfp]
  | some .threadCreate => [.odpGlobal, .odpLocal, .nfp] ++ workerList o.created.toNat
  | some .configureAddresses | some .cliProcessFile | none =>
      [.odpGlobal, .odpLocal, .nfp] ++ workerList o.workers

/-- What the constructor released when `f` is its first failure. -/
def releasedAt (o : Startup) : Option Step → List Resource
  | some .parseEnv | some .odpInitGlobal | none => []
  | some .odpInitLocal => [.odpGlobal]
  | some .nfpInitialize | some .workerCpumask => [.odpLocal, .odpGlobal]
  | some .threadCreate => workerList o.created.toNat ++ [.nfp, .odpLocal, .odpGlobal]
  | some .configureAddresses | some .cliProcessFile =>
      workerList o.workers ++ (workerList o.workers ++ [.nfp, .odpLocal, .odpGlobal])

/-- The state the constructor leaves behind when `f` is its first failure. -/
def stateAt : Option Step → NetwrapState
  | some .parseEnv | some .odpInitGlobal => .unint
  | some .odpInitLocal => .odpInitGlobal
  | some .nfpInitialize | some .workerCpumask => .odpInitLocal
  | some .threadCreate => .nfpInitGlobal
  | some .configureAddresses | some .cliProcessFile | none => .workersStarted

/-- The last part of the constructor. -/
theorem ctorConfigure_ledger (o : Startup) {p : Proc} (hp : p.netwrapState = .workersStarted)
    (hw : p.numWorkers = o.workers) :
    ledger (ctorConfigure o p).log = ledger p.log ++
      (if o.configureAddresses = false ∨ o.cliProcessFile = false then
        workerList o.workers ++ (workerList o.workers ++ [.nfp, .odpLocal, .odpGlobal])
      else []).map .release ∧
    (ctorConfigure o p).netwrapState = .workersStarted ∧
    (ctorConfigure o p).numWorkers = o.workers := by
  unfold ctorConfigure
  by_cases h1 : o.configureAddresses = false
  · rw [if_pos h1, if_pos (Or.inl h1)]
    refine ⟨?_, hp, hw⟩
    simp [nfpNetwrapMainDtor, teardown, hp, hw]
  · by_cases h2 : o.cliProcessFile = false
    · rw [if_neg h1, if_pos h2, if_pos (Or.inr h2)]
      refine ⟨?_, hp, hw⟩
      simp [nfpNetwrapMainDtor, teardown, hp, hw]
    · rw [if_neg h1, if_neg h2, if_neg (not_or.mpr ⟨h1, h2⟩)]
      refine ⟨?_, hp, hw⟩
      simp

/-- The constructor from `nfp_thread_create` on, when not all threads could be created: what was
    created is joined, by the constructor itself. -/
theorem ctorThreads_short (o : Startup) {p : Proc} (hp : p.netwrapState = .nfpInitGlobal)
    (hw : p.numWorkers = o.workers) (h : o.created ≠ o.workers) :
    ledger (ctorThreads o p).log = ledger p.log ++ (workerList o.created.toNat).map .acquire ++
      (workerList o.created.toNat ++ [Resource.nfp, .odpLocal, .odpGlobal]).map .release ∧
    (ctorThreads o p).netwrapState = .nfpInitGlobal := by
  have hne : o.created ≠ ((p.emit (threadsCreated o.created.toNat)).numWorkers : Int) := by
    rw [Proc.emit_workers, hw]
    exact h
  unfold ctorThreads
  rw [if_pos hne]
  by_cases h1 : o.created ≠ -1
  · simp only [if_pos h1]
    refine ⟨?_, hp⟩
    simp [nfpNetwrapMainDtor, teardown, hp]
  · -- -1 threads: nothing was created and nothing is joined
    have h2 : workerList o.created.toNat = [] := by
      rw [not_not.mp h1]
      rfl
    simp only [if_neg h1]
    refine ⟨?_, hp⟩
    simp [nfpNetwrapMainDtor, teardown, hp, h2]

/-- The process as the constructor has it before `nfp_thread_create`. -/
def threadsFrom (o : Startup) : Proc :=
  ⟨.nfpInitGlobal, o.workers,
    [.book (.acquire .odpGlobal), .book (.acquire .odpLocal), .book (.acquire .nfp)]⟩

/-- **The constructor by its first failure**: it acquires, then releases, and leaves the state
    behind; with `num_workers` set whenever that state will read it. -/
theorem ctor_ledger (o : Startup) :
    ledger (nfpNetwrapMainCtor o).log =
      (acquiredAt o (failure o)).map .acquire ++ (releasedAt o (failure o)).map .release ∧
    (nfpNetwrapMainCtor o).netwrapState = stateAt (failure o) ∧
    (stateAt (failure o) = .workersStarted → (nfpNetwrapMainCtor o).numWorkers = o.workers) := by
  unfold nfpNetwrapMainCtor failure
  by_cases h1 : o.parseEnv = false
  · rw [if_pos h1, if_pos h1]
    exact ⟨rfl, rfl, fun h => by cases h⟩
  rw [if_neg h1, if_neg h1]
  by_cases h2 : o.odpInitGlobal = false
  · rw [if_pos h2, if_pos h2]
    exact ⟨rfl, rfl, fun h => by cases h⟩
  rw [if_neg h2, if_neg h2]
  by_cases h3 : o.odpInitLocal = false
  · rw [if_pos h3, if_pos h3]
    exact ⟨rfl, rfl, fun h => by cases h⟩
  rw [if_neg h3, if_neg h3]
  by_cases h4 : o.nfpInitialize = false
  · rw [if_pos h4, if_pos h4]
    exact ⟨rfl, rfl, fun h => by cases h⟩
  rw [if_neg h4, if_neg h4]
  by_cases h5 : o.workerCpumask = false
  · rw [if_pos h5, if_pos h5]
    exact ⟨rfl, rfl, fun h => by cases h⟩
  rw [if_neg h5, if_neg h5]
  by_cases h6 : o.created ≠ o.workers
  · rw [if_pos h6]
    obtain ⟨hl, hs⟩ := ctorThreads_short o (p := threadsFrom o) rfl rfl h6
    exact ⟨hl, hs, fun h => by cases h⟩
  -- all threads run: the rest is the configuration
  have h7 : o.created = o.workers := not_not.mp h6
  have h8 : o.created.toNat = o.workers := by
    rw [h7]
    rfl
  unfold ctorThreads
  rw [if_neg h6, if_neg (fun h => h h7), h8]
  obtain ⟨hl, hs, hw⟩ := ctorConfigure_ledger o
    (p := ((threadsFrom o).emit (threadsCreated o.workers)).enter .workersStarted) rfl rfl
  refine ⟨hl.trans ?_, hs.trans ?_, fun _ => hw⟩
  · by_cases h9 : o.configureAddresses = false
    · rw [if_pos (Or.inl h9), if_pos h9]
      simp [threadsFrom, acquiredAt, releasedAt]
    · by_cases h10 : o.cliProcessFile = false
      · rw [if_pos (Or.inr h10), if_neg h9, if_pos h10]
        simp [threadsFrom, acquiredAt, releasedAt]
      · rw [if_neg (not_or.mpr ⟨h9, h10⟩), if_neg h9, if_neg h10]
        simp [threadsFrom, acquiredAt, releasedAt]
  · by_cases h9 : o.configureAddresses = false
    · rw [if_pos h9]
      rfl
    · by_cases h10 : o.cliProcessFile = false
      · rw [if_neg h9, if_pos h10]
        rfl
      · rw [if_neg h9, if_neg h10]
        rfl

/-! ## What tear-down books -/

/-- The resources the destructor releases in a state. -/
def releases : NetwrapState → Nat → List Resource
  | .unint, _ => []
  | .odpInitGlobal, _ => [.odpGlobal]
  | .odpInitLocal, _ => [.odpLocal, .odpGlobal]
  | .nfpInitGlobal, _ => [.nfp, .odpLocal, .odpGlobal]
  | .workersStarted, numWorkers => workerList numWorkers ++ [.nfp, .odpLocal, .odpGlobal]

theorem ledger_teardown (s : NetwrapState) (numWorkers : Nat) :
    ledger (teardown s numWorkers) = (releases s numWorkers).map .release := by
  cases s with
  | workersStarted => simp [teardown, releases]
  | _ => rfl

/-- The ledger of the whole life, by the first failure. -/
theorem processLife_ledger (o : Startup) :
    ledger (processLife o).log = (acquiredAt o (failure o)).map .acquire ++
      (releasedAt o (failure o) ++ releases (stateAt (failure o)) o.workers).map .release := by
  obtain ⟨hl, hs, hw⟩ := ctor_ledger o
  have hrel : releases (nfpNetwrapMainCtor o).netwrapState (nfpNetwrapMainCtor o).numWorkers =
      releases (stateAt (failure o)) o.workers := by
    rw [hs]
    cases hst : stateAt (failure o) with
    | workersStarted => rw [hw hst]
    | _ => rfl
  unfold processLife nfpNetwrapMainDtor
  rw [Proc.emit_log, ledger_append, ledger_stopProcessing, ledger_teardown, hrel, hl,
    List.map_append, List.append_assoc]

theorem workerList_nodup (n : Nat) : (workerList n).Nodup :=
  List.Nodup.map (fun _ _ h => Resource.worker.inj h) List.nodup_range

theorem mem_workerList {n : Nat} {r : Resource} (h : r ∈ workerList n) : ∃ i, r = .worker i := by
  obtain ⟨i, _, e⟩ := List.mem_map.mp h
  exact ⟨i, e.symm⟩

/-! ## Nothing is released twice -/

/-- Whatever fails, only what was acquired is ever released. -/
theorem processLife_owned (o : Startup) : OwnedFrom [] (ledger (processLife o).log) := by
  rw [processLife_ledger]
  refine ownedFrom_append (ownedFrom_map_acquire _ _) (ownedFrom_map_release fun r hr => ?_)
  rw [List.nil_append, acquired_map_acquire]
  generalize failure o = f at hr
  match f with
  | some .parseEnv | some .odpInitGlobal => exact absurd hr List.not_mem_nil
  | some .odpInitLocal => simpa [acquiredAt, releasedAt, releases, stateAt] using hr
  | some .nfpInitialize | some .workerCpumask | some .threadCreate | some .configureAddresses
  | some .cliProcessFile | none =>
      simp only [acquiredAt, releasedAt, releases, stateAt, List.mem_append, List.mem_cons] at hr ⊢
      tauto

/-- What the life of the process releases. -/
theorem processLife_released (o : Startup) : released (ledger (processLife o).log) =
    releasedAt o (failure o) ++ releases (stateAt (failure o)) o.workers := by
  rw [processLife_ledger, released_append, released_map_acquire, released_map_release,
    List.nil_append]

/-- Every state but the first makes the destructor end with `odp_term_global`. -/
theorem odpGlobal_mem_releases {s : NetwrapState} (h : s ≠ .unint) (n : Nat) :
    Resource.odpGlobal ∈ releases s n := by
  cases s with
  | unint => exact absurd rfl h
  | _ => simp [releases]

/-- The full tear-down names every resource once. -/
theorem releases_nodup (n : Nat) : (releases .workersStarted n).Nodup := by
  refine List.nodup_append.mpr ⟨workerList_nodup n, by decide, fun r hr q hq e => ?_⟩
  obtain ⟨i, rfl⟩ := mem_workerList hr
  subst e
  simp at hq

/-- **Nothing is released twice, or without having been acquired, exactly when** start-up does not
    fail after `odp_init_global`: the destructor the constructor calls on such a failure leaves
    `netwrap_state` as it is, and runs again at exit. -/
theorem processLife_sound_iff (o : Startup) :
    Sound (ledger (processLife o).log) ↔
      failure o = none ∨ failure o = some .parseEnv ∨ failure o = some .odpInitGlobal := by
  constructor
  · intro h
    have honce := h.once
    rw [processLife_released] at honce
    -- a failure that made the constructor call the destructor has `odp_term_global` on both sides
    have htwice : ∀ st : Step, failure o = some st → Resource.odpGlobal ∈ releasedAt o (some st) →
        stateAt (some st) ≠ .unint → False := by
      intro st hst hmem hne
      rw [hst] at honce
      have hdisj := (List.nodup_append.mp honce).2.2
      exact hdisj _ hmem _ (odpGlobal_mem_releases hne o.workers) rfl
    cases hf : failure o with
    | none => exact Or.inl rfl
    | some st =>
        right
        cases st with
        | parseEnv => exact Or.inl rfl
        | odpInitGlobal => exact Or.inr rfl
        | odpInitLocal => exact (htwice _ hf (by simp [releasedAt]) (by decide)).elim
        | nfpInitialize => exact (htwice _ hf (by simp [releasedAt]) (by decide)).elim
        | workerCpumask => exact (htwice _ hf (by simp [releasedAt]) (by decide)).elim
        | threadCreate => exact (htwice _ hf (by simp [releasedAt]) (by decide)).elim
        | configureAddresses => exact (htwice _ hf (by simp [releasedAt]) (by decide)).elim
        | cliProcessFile => exact (htwice _ hf (by simp [releasedAt]) (by decide)).elim
  · intro h
    refine ⟨?_, processLife_owned o⟩
    rw [processLife_released]
    rcases h with h | h | h
    · rw [h]
      exact releases_nodup o.workers
    · rw [h]
      exact List.nodup_nil
    · rw [h]
      exact List.nodup_nil

/-- A start-up in which everything works, with two workers. -/
def allGood : Startup where
  parseEnv := true
  odpInitGlobal := true
  odpInitLocal := true
  nfpInitialize := true
  workerCpumask := true
  workers := 2
  created := 2
  configureAddresses := true
  cliProcessFile := true
  created_ge := by decide
  created_le := by decide

/-- `odp_init_local` fails: `odp_term_global` runs in the constructor and again at exit. -/
theorem processLife_releases_twice :
    ¬ Sound (ledger (processLife { allGood with odpInitLocal := false }).log) := by
  intro h
  have htwo : released (ledger (processLife { allGood with odpInitLocal := false }).log) =
      [.odpGlobal, .odpGlobal] := by decide
  have honce := h.once
  rw [htwo] at honce
  exact absurd honce (by decide)

/-! ## Everything is released when start-up fails -/

theorem Resource.rank_le (r : Resource) : r.rank ≤ 3 := by
  cases r with
  | worker i => exact Nat.le_refl 3
  | _ => decide

/-- Joining workers first keeps tear-down falling. -/
theorem workers_falling (n : Nat) {l : List Resource}
    (h : l.Pairwise fun a b => b.rank ≤ a.rank) :
    (workerList n ++ l).Pairwise fun a b => b.rank ≤ a.rank := by
  have htop : ∀ r ∈ workerList n, r.rank = 3 := by
    intro r hr
    obtain ⟨i, rfl⟩ := mem_workerList hr
    rfl
  refine List.pairwise_append.mpr ⟨?_, h, fun a ha b _ => ?_⟩
  · refine (workerList_nodup n).imp_of_mem ?_
    intro a b ha _ _
    rw [htop a ha]
    exact b.rank_le
  · rw [htop a ha]
    exact b.rank_le

/-- Whatever fails, the constructor acquires upwards. -/
theorem acquiredAt_rising (o : Startup) (f : Option Step) :
    (acquiredAt o f).Pairwise fun a b => a.rank ≤ b.rank := by
  have hw : ∀ n, ([Resource.odpGlobal, .odpLocal, .nfp] ++ workerList n).Pairwise
      fun a b => a.rank ≤ b.rank := by
    intro n
    refine List.pairwise_append.mpr ⟨by decide, ?_, fun a _ b hb => ?_⟩
    · refine (workerList_nodup n).imp_of_mem ?_
      intro a b _ hb _
      obtain ⟨i, rfl⟩ := mem_workerList hb
      exact a.rank_le
    · obtain ⟨i, rfl⟩ := mem_workerList hb
      exact a.rank_le
  match f with
  | some .parseEnv | some .odpInitGlobal => exact .nil
  | some .odpInitLocal => exact List.pairwise_singleton _ _
  | some .nfpInitialize =>
      show [Resource.odpGlobal, .odpLocal].Pairwise fun a b => a.rank ≤ b.rank
      decide
  | some .workerCpumask =>
      show [Resource.odpGlobal, .odpLocal, .nfp].Pairwise fun a b => a.rank ≤ b.rank
      decide
  | some .threadCreate => exact hw _
  | some .configureAddresses | some .cliProcessFile | none => exact hw _

/-- Whatever fails, the constructor releases downwards. -/
theorem releasedAt_falling (o : Startup) (f : Option Step) :
    (releasedAt o f).Pairwise fun a b => b.rank ≤ a.rank := by
  have hrest : [Resource.nfp, .odpLocal, .odpGlobal].Pairwise fun a b => b.rank ≤ a.rank := by
    decide
  match f with
  | some .parseEnv | some .odpInitGlobal | none => exact .nil
  | some .odpInitLocal => exact List.pairwise_singleton _ _
  | some .nfpInitialize | some .workerCpumask =>
      show [Resource.odpLocal, .odpGlobal].Pairwise fun a b => b.rank ≤ a.rank
      decide
  | some .threadCreate => exact workers_falling _ hrest
  | some .configureAddresses | some .cliProcessFile =>
      exact workers_falling _ (workers_falling _ hrest)

/-- **A constructor that fails has released everything it acquired, in reverse order, exactly
    when** the failing step is not `nfp_get_default_worker_cpumask`. -/
theorem ctor_unwound_iff (o : Startup) (st : Step) (hst : failure o = some st) :
    Unwound Resource.rank (ledger (nfpNetwrapMainCtor o).log) ↔ st ≠ .workerCpumask := by
  have hl := (ctor_ledger o).1
  rw [hst] at hl
  have hacq : acquired (ledger (nfpNetwrapMainCtor o).log) = acquiredAt o (some st) := by
    rw [hl, acquired_append, acquired_map_acquire, acquired_map_release, List.append_nil]
  have hrel : released (ledger (nfpNetwrapMainCtor o).log) = releasedAt o (some st) := by
    rw [hl, released_append, released_map_acquire, released_map_release, List.nil_append]
  constructor
  · rintro h rfl
    -- the NFP instance was acquired and is never released
    have hc := h.complete
    rw [hacq, hrel] at hc
    have hnfp : Resource.nfp ∈ releasedAt o (some .workerCpumask) := hc .nfp (by simp [acquiredAt])
    simp [releasedAt] at hnfp
  · intro hne
    refine ⟨by rw [hacq]; exact acquiredAt_rising o _, fun r hr => ?_,
      by rw [hrel]; exact releasedAt_falling o _⟩
    rw [hacq] at hr
    rw [hrel]
    cases st with
    | workerCpumask => exact absurd rfl hne
    | _ =>
        simp only [acquiredAt, releasedAt, List.mem_append, List.mem_cons] at hr ⊢
        tauto

theorem ctor_unwound_one_thread :
    failure { allGood with created := 1, created_ge := by decide, created_le := by decide } =
        some .threadCreate ∧
    Unwound Resource.rank (ledger (nfpNetwrapMainCtor
      { allGood with created := 1, created_ge := by decide, created_le := by decide }).log) :=
  ⟨by decide, (ctor_unwound_iff _ .threadCreate (by decide)).mpr (by decide)⟩

/-- The worker cpumask cannot be had: the NFP instance stays up. -/
theorem ctor_leaks_nfp :
    failure { allGood with workerCpumask := false } = some .workerCpumask ∧
    ¬ Unwound Resource.rank
      (ledger (nfpNetwrapMainCtor { allGood with workerCpumask := false }).log) := by
  refine ⟨by decide, fun h => ?_⟩
  have hnfp := h.complete .nfp (by decide)
  exact absurd hnfp (by decide)

end Nfp.NetwrapProc
