/-
  File:      Nfp/Dispatch/Queues.lean
  Subject:   HOW THE INPUT QUEUES ARE DEALT OUT TO THE WORKERS: `configure_workers_arg` of
             example/fpm_direct and example/fpm_power, `configure_workers_arg_direct_rss` of
             example/webserver2, the interface loop in `main` of example/udp_fwd_socket and
             example/udp_term_socket.

  The queues are opened `ODP_PKTIO_OP_MT_UNSAFE`: two threads in `odp_pktin_recv` on one queue
  would be a race. Nothing guards against it but the way the queues are dealt out: worker `j` gets
  queue `j` of every interface.

  * `distribute_cases` -- when the arguments are filled in, and with what;
  * `polled_by_one` -- every queue of every interface is polled by exactly one worker;
  * `queues_dealt` -- the two together.
-/
import Mathlib.Data.List.Nodup
import Nfp.Common.CliArgParse

namespace Nfp.Direct

open Nfp.Common (nfpFpInterfaceMax)

/-- `struct worker_arg` (`struct pktio_thr_arg`): `pktin[]`, of the length `NFP_FP_INTERFACE_MAX`,
    with `none` where nothing was written, and `process_timers`, called `sched_process` in
    webserver2; fpm_power and the two UDP examples have no such field, their workers do not ask the
    scheduler. -/
structure WorkerArg (Pktin : Type) where
  numPktin : Nat
  pktin : List (Option Pktin)
  processTimers : Bool
  deriving DecidableEq, Repr

/-- The queues a worker copies to its stack and polls: `pktin[0 .. num_pktin - 1]`. -/
def WorkerArg.polled {Pktin : Type} (w : WorkerArg Pktin) : List Pktin :=
  (w.pktin.take w.numPktin).filterMap id

/-- **The packet interfaces**, as the calls below answer: `nfp_ifport_net_create` by its sign,
    `odp_pktio_lookup` (`none` for `ODP_PKTIO_INVALID`), the input queues of a pktio -- of which
    `odp_pktin_queue` returns the number and stores as many as asked for -- and the number of its
    output queues. -/
structure Odp (Name Pktio Pktin : Type) where
  created : Name → Bool
  lookup : Name → Option Pktio
  pktinQueues : Pktio → List Pktin
  pktoutQueue : Pktio → Nat

/-- How the distribution ends: the arguments of all workers; the error path on which `main`
    terminates NFP; an `exit` on the spot; a write past the end of an array. -/
inductive Distribution (Pktin : Type) where
  | done (args : List (WorkerArg Pktin))
  | error
  | exited
  | overrun
  deriving DecidableEq, Repr

section Spread

variable {Name Pktio Pktin : Type}

/-- `for (j ...) workers_arg[j].pktin[i] = pktin[j]`. -/
def store (i : Nat) : List (WorkerArg Pktin) → List Pktin → Option (List (WorkerArg Pktin))
  | w :: ws, q :: qs =>
      if i < nfpFpInterfaceMax then
        (store i ws qs).map fun ws => { w with pktin := w.pktin.set i (some q) } :: ws
      else none
  | ws, _ => some ws

/-- One interface: find its pktio, ask it for `numWorkers` input queues, pass the checks `more` of
    the pktio (`none` if they pass), store one queue in each worker's argument. -/
def spreadOne (odp : Odp Name Pktio Pktin) (tooFew : Distribution Pktin)
    (more : Pktio → Option (Distribution Pktin)) (numWorkers : Nat) (i : Nat) (name : Name)
    (args : List (WorkerArg Pktin)) : Distribution Pktin :=
  match odp.lookup name with
  | none => .error
  | some pktio =>
      if (odp.pktinQueues pktio).length ≠ numWorkers then tooFew
      else match more pktio with
        | some r => r
        | none =>
            match store i args ((odp.pktinQueues pktio).take numWorkers) with
            | none => .overrun
            | some args => .done args

/-- The loop over the interfaces, from interface `i` on; `first` is what is done for an interface
    before it is looked up. -/
def spreadFrom (odp : Odp Name Pktio Pktin) (tooFew : Distribution Pktin)
    (first : Name → Bool) (more : Pktio → Option (Distribution Pktin)) (numWorkers : Nat) :
    Nat → List Name → List (WorkerArg Pktin) → Distribution Pktin
  | _, [], args => .done args
  | i, name :: names, args =>
      if first name then
        match spreadOne odp tooFew more numWorkers i name args with
        | .done args => spreadFrom odp tooFew first more numWorkers (i + 1) names args
        | r => r
      else .error

/-- The arguments before the interfaces: `num_pktin` set, nothing in `pktin[]`. -/
def freshArgs (numWorkers ifCount : Nat) (timers : Nat → Bool) : List (WorkerArg Pktin) :=
  (List.range numWorkers).map fun j =>
    ⟨ifCount, List.replicate nfpFpInterfaceMax none, timers j⟩

/-- **`configure_workers_arg` of fpm_direct**: timers on the first worker; too few queues end the
    process where they are found. `maxWorkers` is the length of `workers_arg[]`. -/
def fpmDirectConfigureWorkersArg (odp : Odp Name Pktio Pktin) (maxWorkers numWorkers : Nat)
    (names : List Name) : Distribution Pktin :=
  if maxWorkers < numWorkers then .overrun
  else spreadFrom odp .exited (fun _ => true) (fun _ => none) numWorkers 0 names
    (freshArgs numWorkers names.length fun j => j == 0)

/-- **`configure_workers_arg` of fpm_power**: no timers in the workers, otherwise the same. -/
def fpmPowerConfigureWorkersArg (odp : Odp Name Pktio Pktin) (maxWorkers numWorkers : Nat)
    (names : List Name) : Distribution Pktin :=
  if maxWorkers < numWorkers then .overrun
  else spreadFrom odp .exited (fun _ => true) (fun _ => none) numWorkers 0 names
    (freshArgs numWorkers names.length fun _ => false)

/-- **`configure_workers_arg_direct_rss` of webserver2**: too few queues are an error like any
    other. -/
def webserver2ConfigureWorkersArgDirectRss (odp : Odp Name Pktio Pktin)
    (maxWorkers numWorkers : Nat) (names : List Name) : Distribution Pktin :=
  if maxWorkers < numWorkers then .overrun
  else spreadFrom odp .error (fun _ => true) (fun _ => none) numWorkers 0 names
    (freshArgs numWorkers names.length fun j => j == 0)

/-- **The interface loop in `main` of udp_fwd_socket**: the interface is created first, the output
    queues are counted as well, and too few input queues end the process without
    `nfp_terminate`. -/
def udpFwdPktioThrArgs (odp : Odp Name Pktio Pktin) (maxWorkers numWorkers txQueues : Nat)
    (names : List Name) : Distribution Pktin :=
  if maxWorkers < numWorkers then .overrun
  else spreadFrom odp .exited odp.created
    (fun pktio => if odp.pktoutQueue pktio ≠ txQueues then some .error else none) numWorkers 0
    names (freshArgs numWorkers names.length fun _ => false)

/-- **The interface loop in `main` of udp_term_socket**: every failure goes to `end`. -/
def udpTermPktioThrArgs (odp : Odp Name Pktio Pktin) (maxWorkers numWorkers txQueues : Nat)
    (names : List Name) : Distribution Pktin :=
  if maxWorkers < numWorkers then .overrun
  else spreadFrom odp .error odp.created
    (fun pktio => if odp.pktoutQueue pktio ≠ txQueues then some .error else none) numWorkers 0
    names (freshArgs numWorkers names.length fun _ => false)

/-- The five distributions. -/
inductive Program where
  | fpmDirect
  | fpmPower
  | webserver2
  | udpFwd
  | udpTerm
  deriving DecidableEq, Repr

/-- The distribution of each program; `txQueues` counts only in the last two. -/
def Program.distribute (odp : Odp Name Pktio Pktin) (maxWorkers numWorkers txQueues : Nat)
    (names : List Name) : Program → Distribution Pktin
  | .fpmDirect => fpmDirectConfigureWorkersArg odp maxWorkers numWorkers names
  | .fpmPower => fpmPowerConfigureWorkersArg odp maxWorkers numWorkers names
  | .webserver2 => webserver2ConfigureWorkersArgDirectRss odp maxWorkers numWorkers names
  | .udpFwd => udpFwdPktioThrArgs odp maxWorkers numWorkers txQueues names
  | .udpTerm => udpTermPktioThrArgs odp maxWorkers numWorkers txQueues names

/-! ## What is dealt -/

/-- The input queues of an interface by its name. -/
def Odp.queuesOf (odp : Odp Name Pktio Pktin) (name : Name) : List Pktin :=
  ((odp.lookup name).map odp.pktinQueues).getD []

/-- The argument of worker `j` once the interfaces `names` are dealt: queue `j` of each. -/
def dealtArg (odp : Odp Name Pktio Pktin) (ifCount : Nat) (timers : Nat → Bool)
    (names : List Name) (j : Nat) : WorkerArg Pktin :=
  ⟨ifCount, (names.map fun name => (odp.queuesOf name)[j]?) ++
    List.replicate (nfpFpInterfaceMax - names.length) none, timers j⟩

/-- An interface that is found, has one input queue for each worker and passes the other checks. -/
def Served (odp : Odp Name Pktio Pktin) (first : Name → Bool)
    (more : Pktio → Option (Distribution Pktin)) (numWorkers : Nat) (name : Name) : Prop :=
  first name = true ∧ ∃ pktio, odp.lookup name = some pktio ∧
    (odp.pktinQueues pktio).length = numWorkers ∧ more pktio = none

theorem store_eq {i : Nat} (hi : i < nfpFpInterfaceMax) (ws : List (WorkerArg Pktin))
    (qs : List Pktin) (hlen : ws.length = qs.length) :
    store i ws qs = some (List.zipWith
      (fun w q => { w with pktin := w.pktin.set i (some q) }) ws qs) := by
  induction ws generalizing qs with
  | nil => rfl
  | cons w ws ih =>
      cases qs with
      | nil => simp at hlen
      | cons q qs =>
          simp only [List.length_cons, Nat.add_right_cancel_iff] at hlen
          simp only [store, if_pos hi, ih qs hlen, Option.map_some, List.zipWith_cons_cons]

/-- The first free place of a worker's `pktin[]` is filled. -/
theorem dealtArg_set (odp : Odp Name Pktio Pktin) (ifCount : Nat) (timers : Nat → Bool)
    {names : List Name} {name : Name} {j : Nat} {q : Pktin}
    (hq : (odp.queuesOf name)[j]? = some q) (hroom : names.length < nfpFpInterfaceMax) :
    (dealtArg odp ifCount timers names j).pktin.set names.length (some q) =
      (dealtArg odp ifCount timers (names ++ [name]) j).pktin := by
  obtain ⟨k, hk⟩ : ∃ k, nfpFpInterfaceMax - names.length = k + 1 :=
    ⟨nfpFpInterfaceMax - names.length - 1, by omega⟩
  have hk' : nfpFpInterfaceMax - (names.length + 1) = k := by omega
  simp only [dealtArg, List.map_append, List.map_cons, List.map_nil, hq, List.length_append,
    List.length_cons, List.length_nil, Nat.zero_add, hk, hk', List.replicate_succ]
  rw [List.set_append_right _ _ (Nat.le_of_eq (List.length_map _))]
  simp

/-- **One interface dealt**: every worker has one queue more. -/
theorem store_dealt (odp : Odp Name Pktio Pktin) (ifCount : Nat) (timers : Nat → Bool)
    {names : List Name} {name : Name} {numWorkers : Nat}
    (hlen : (odp.queuesOf name).length = numWorkers) (hroom : names.length < nfpFpInterfaceMax) :
    store names.length ((List.range numWorkers).map (dealtArg odp ifCount timers names))
        (odp.queuesOf name) =
      some ((List.range numWorkers).map (dealtArg odp ifCount timers (names ++ [name]))) := by
  rw [store_eq hroom _ _ (by simp [hlen])]
  congr 1
  refine List.ext_getElem (by simp [hlen]) fun j h1 h2 => ?_
  simp only [List.length_map, List.length_range] at h2
  have hj : j < (odp.queuesOf name).length := hlen.symm ▸ h2
  have hq := List.getElem?_eq_getElem hj
  simp only [List.getElem_zipWith, List.getElem_map, List.getElem_range]
  rw [dealtArg_set odp ifCount timers hq hroom]
  rfl

section Loop

variable {odp : Odp Name Pktio Pktin} {tooFew : Distribution Pktin} {first : Name → Bool}
  {more : Pktio → Option (Distribution Pktin)} {numWorkers : Nat}

theorem Served.queuesOf {name : Name} (h : Served odp first more numWorkers name) :
    (odp.queuesOf name).length = numWorkers := by
  obtain ⟨-, pktio, hpktio, hlen, -⟩ := h
  simpa [Odp.queuesOf, hpktio] using hlen

theorem spreadOne_served {name : Name} (h : Served odp first more numWorkers name) (i : Nat)
    (args : List (WorkerArg Pktin)) :
    spreadOne odp tooFew more numWorkers i name args =
      match store i args (odp.queuesOf name) with
      | none => .overrun
      | some args => .done args := by
  obtain ⟨-, pktio, hpktio, hlen, hmore⟩ := h
  have hall : (odp.pktinQueues pktio).take numWorkers = odp.pktinQueues pktio :=
    List.take_of_length_le (Nat.le_of_eq hlen)
  simp only [spreadOne, hpktio, hlen, hmore, ne_eq, not_true_eq_false, if_false, Odp.queuesOf,
    Option.map_some, Option.getD_some, hall]

/-- An interface that is not served ends the distribution in one of the ways `Bad` admits. -/
theorem spreadOne_refused {Bad : Distribution Pktin → Prop} (herror : Bad .error)
    (htooFew : Bad tooFew) (hmore : ∀ pktio r, more pktio = some r → Bad r) {name : Name}
    (hfirst : first name = true) (h : ¬ Served odp first more numWorkers name) (i : Nat)
    (args : List (WorkerArg Pktin)) : Bad (spreadOne odp tooFew more numWorkers i name args) := by
  unfold spreadOne
  split
  · exact herror
  · rename_i pktio hpktio
    split
    · exact htooFew
    · rename_i hlen
      split
      · rename_i r hr
        exact hmore pktio r hr
      · rename_i hm
        exact absurd ⟨hfirst, pktio, hpktio, Decidable.not_not.mp hlen, hm⟩ h

/-- **The loop over the interfaces** fills the arguments if every interface is served, and ends in
    one of the ways `Bad` admits if not. -/
theorem spreadFrom_cases {Bad : Distribution Pktin → Prop} (herror : Bad .error)
    (htooFew : Bad tooFew) (hmore : ∀ pktio r, more pktio = some r → Bad r)
    (hdone : ∀ args, ¬ Bad (.done args)) (ifCount : Nat) (timers : Nat → Bool)
    (names before : List Name) (hroom : before.length + names.length ≤ nfpFpInterfaceMax) :
    (∀ name ∈ names, Served odp first more numWorkers name) ∧
        spreadFrom odp tooFew first more numWorkers before.length names
            ((List.range numWorkers).map (dealtArg odp ifCount timers before)) =
          .done ((List.range numWorkers).map (dealtArg odp ifCount timers (before ++ names))) ∨
      ¬ (∀ name ∈ names, Served odp first more numWorkers name) ∧
        Bad (spreadFrom odp tooFew first more numWorkers before.length names
          ((List.range numWorkers).map (dealtArg odp ifCount timers before))) := by
  -- along the interfaces: what was dealt before an interface is `before`
  induction names generalizing before with
  | nil => exact .inl ⟨fun _ h => absurd h List.not_mem_nil, by rw [List.append_nil]; rfl⟩
  | cons name names ih =>
      rw [List.length_cons] at hroom
      by_cases hserved : Served odp first more numWorkers name
      · have hstep : spreadOne odp tooFew more numWorkers before.length name
            ((List.range numWorkers).map (dealtArg odp ifCount timers before)) =
            .done ((List.range numWorkers).map
              (dealtArg odp ifCount timers (before ++ [name]))) := by
          rw [spreadOne_served hserved,
            store_dealt odp ifCount timers hserved.queuesOf (by omega)]
        have hnext := ih (before ++ [name]) (by
          simp only [List.length_append, List.length_cons, List.length_nil]
          omega)
        simp only [List.length_append, List.length_cons, List.length_nil, Nat.zero_add,
          List.append_assoc, List.singleton_append] at hnext
        simp only [spreadFrom, hserved.1, if_true, hstep, List.forall_mem_cons, hserved, true_and]
        exact hnext
      · refine .inr ⟨fun h => hserved (h name List.mem_cons_self), ?_⟩
        unfold spreadFrom
        split
        · rename_i hfirst
          have hbad := spreadOne_refused herror htooFew hmore hfirst hserved before.length
            ((List.range numWorkers).map (dealtArg odp ifCount timers before))
          split
          · rename_i hone
            exact absurd (hone ▸ hbad) (hdone _)
          · exact hbad
        · exact herror

end Loop

/-- What a program asks of an interface. -/
def Program.first (odp : Odp Name Pktio Pktin) : Program → Name → Bool
  | .udpFwd | .udpTerm => odp.created
  | _ => fun _ => true

/-- What a program asks of a pktio beside its input queues. -/
def Program.more (odp : Odp Name Pktio Pktin) (txQueues : Nat) :
    Program → Pktio → Option (Distribution Pktin)
  | .udpFwd | .udpTerm => fun pktio =>
      if odp.pktoutQueue pktio ≠ txQueues then some .error else none
  | _ => fun _ => none

/-- Which workers ask the scheduler. -/
def Program.timers : Program → Nat → Bool
  | .fpmDirect | .webserver2 => fun j => j == 0
  | _ => fun _ => false

/-- How a program ends on an interface with too few input queues. -/
def Program.tooFew : Program → Distribution Pktin
  | .webserver2 | .udpTerm => .error
  | _ => .exited

/-- The five distributions are one loop. -/
theorem distribute_eq (p : Program) (odp : Odp Name Pktio Pktin)
    (maxWorkers numWorkers txQueues : Nat) (names : List Name) :
    p.distribute odp maxWorkers numWorkers txQueues names =
      if maxWorkers < numWorkers then .overrun
      else spreadFrom odp p.tooFew (p.first odp) (p.more odp txQueues) numWorkers 0 names
        (freshArgs numWorkers names.length p.timers) := by
  cases p <;> rfl

/-- What a program does about an interface that is not served: `main` terminates NFP, or -- not in
    webserver2 and udp_term_socket -- the process exits on the spot. -/
def Program.Refuses (p : Program) : Distribution Pktin → Prop
  | .error => True
  | .exited => p ≠ .webserver2 ∧ p ≠ .udpTerm
  | _ => False

/-- **How a distribution ends**: every interface is served, and worker `j` has queue `j` of each;
    or one is not, and nothing is written past an array. The two bounds are what `parse_args` (at
    most `NFP_FP_INTERFACE_MAX` interfaces) and the computation of `num_workers` leave. -/
theorem distribute_cases (p : Program) (odp : Odp Name Pktio Pktin)
    {maxWorkers numWorkers : Nat} (txQueues : Nat) {names : List Name}
    (hnames : names.length ≤ nfpFpInterfaceMax) (hworkers : numWorkers ≤ maxWorkers) :
    (∀ name ∈ names, Served odp (p.first odp) (p.more odp txQueues) numWorkers name) ∧
        p.distribute odp maxWorkers numWorkers txQueues names =
          .done ((List.range numWorkers).map (dealtArg odp names.length p.timers names)) ∨
      ¬ (∀ name ∈ names, Served odp (p.first odp) (p.more odp txQueues) numWorkers name) ∧
        p.Refuses (p.distribute odp maxWorkers numWorkers txQueues names) := by
  have hmore : ∀ pktio (r : Distribution Pktin), p.more odp txQueues pktio = some r →
      p.Refuses r := by
    intro pktio r h
    cases p <;> simp only [Program.more] at h <;> (try split at h) <;> cases h <;> trivial
  have htooFew : p.Refuses (p.tooFew : Distribution Pktin) := by
    cases p <;> simp [Program.Refuses, Program.tooFew]
  rw [distribute_eq, if_neg (Nat.not_lt.mpr hworkers)]
  exact spreadFrom_cases trivial htooFew hmore (fun _ h => h) names.length p.timers names []
    (by simpa using hnames)

/-! ## Every queue has one worker -/

/-- **What ODP promises of its queues**: those of one pktio are distinct, and no two pktios share
    one. -/
structure Odp.Separate (odp : Odp Name Pktio Pktin) : Prop where
  nodup : ∀ pktio, (odp.pktinQueues pktio).Nodup
  disjoint : ∀ pktio pktio' q, q ∈ odp.pktinQueues pktio → q ∈ odp.pktinQueues pktio' →
    pktio = pktio'

/-- Worker `j` polls queue `q`. -/
def Polls (args : List (WorkerArg Pktin)) (j : Nat) (q : Pktin) : Prop :=
  ∃ arg, args[j]? = some arg ∧ q ∈ arg.polled

theorem dealtArg_polled (odp : Odp Name Pktio Pktin) (timers : Nat → Bool) (names : List Name)
    (j : Nat) :
    (dealtArg odp names.length timers names j).polled =
      names.filterMap fun name => (odp.queuesOf name)[j]? := by
  simp only [WorkerArg.polled, dealtArg]
  rw [List.take_append_of_le_length (Nat.le_of_eq (List.length_map _).symm),
    List.take_of_length_le (Nat.le_of_eq (List.length_map _)), List.filterMap_map]
  rfl

theorem polls_dealt {odp : Odp Name Pktio Pktin} {timers : Nat → Bool} {names : List Name}
    {numWorkers j : Nat} {q : Pktin} :
    Polls ((List.range numWorkers).map (dealtArg odp names.length timers names)) j q ↔
      j < numWorkers ∧ ∃ name ∈ names, (odp.queuesOf name)[j]? = some q := by
  unfold Polls
  by_cases hj : j < numWorkers
  · simp only [List.getElem?_map, List.getElem?_range hj, Option.map_some, Option.some.injEq,
      exists_eq_left', dealtArg_polled, List.mem_filterMap, hj, true_and]
  · have hnone : (List.range numWorkers)[j]? = none :=
      List.getElem?_eq_none (by simpa using Nat.le_of_not_lt hj)
    simp only [List.getElem?_map, hnone, Option.map_none, hj, false_and, reduceCtorEq,
      exists_false]

/-- Two interfaces that share a queue are one pktio. -/
theorem Odp.Separate.queuesOf_eq {odp : Odp Name Pktio Pktin} (hsep : odp.Separate)
    {name name' : Name} {q : Pktin} (h : q ∈ odp.queuesOf name) (h' : q ∈ odp.queuesOf name') :
    odp.queuesOf name = odp.queuesOf name' := by
  unfold Odp.queuesOf at h h' ⊢
  cases hn : odp.lookup name with
  | none => simp [hn] at h
  | some pktio =>
      cases hn' : odp.lookup name' with
      | none => simp [hn'] at h'
      | some pktio' =>
          simp only [hn, hn', Option.map_some, Option.getD_some] at h h' ⊢
          rw [hsep.disjoint pktio pktio' q h h']

theorem Odp.Separate.queuesOf_nodup {odp : Odp Name Pktio Pktin} (hsep : odp.Separate)
    (name : Name) : (odp.queuesOf name).Nodup := by
  unfold Odp.queuesOf
  cases odp.lookup name with
  | none => exact List.nodup_nil
  | some pktio => exact hsep.nodup pktio

/-- **Every queue of every interface has exactly one worker**, whatever the interfaces are -- the
    same one may be named twice. -/
theorem polled_by_one {odp : Odp Name Pktio Pktin} (hsep : odp.Separate) {timers : Nat → Bool}
    {names : List Name} {numWorkers : Nat} {name : Name} (hname : name ∈ names)
    (hlen : (odp.queuesOf name).length = numWorkers) {q : Pktin} (hq : q ∈ odp.queuesOf name) :
    ∃ j < numWorkers, ∀ k,
      Polls ((List.range numWorkers).map (dealtArg odp names.length timers names)) k q ↔ k = j := by
  obtain ⟨j, hj, rfl⟩ := List.mem_iff_getElem.mp hq
  refine ⟨j, hlen ▸ hj, fun k => ?_⟩
  rw [polls_dealt]
  constructor
  · rintro ⟨-, name', -, hk⟩
    -- both interfaces are one pktio, and there the queue has one place
    rw [← hsep.queuesOf_eq hq (List.mem_of_getElem? hk)] at hk
    obtain ⟨hk', hkq⟩ := List.getElem?_eq_some_iff.mp hk
    exact (List.Nodup.getElem_inj_iff (hsep.queuesOf_nodup name)).mp hkq
  · rintro rfl
    exact ⟨hlen ▸ hj, name, hname, List.getElem?_eq_getElem hj⟩

/-- **The queues are dealt out**: with every interface served the arguments are filled in, each
    queue of each interface goes to exactly one worker, worker `j` gets queue `j` of each interface
    in the order of the interfaces, and the scheduler is asked by the first worker alone
    (fpm_direct, webserver2) or by none; otherwise the program ends, by `nfp_terminate` or on the
    spot. -/
theorem queues_dealt (p : Program) (odp : Odp Name Pktio Pktin) (hsep : odp.Separate)
    (maxWorkers numWorkers txQueues : Nat) (names : List Name)
    (hnames : names.length ≤ nfpFpInterfaceMax) (hworkers : numWorkers ≤ maxWorkers) :
    ((∀ name ∈ names, Served odp (p.first odp) (p.more odp txQueues) numWorkers name) →
      ∃ args, p.distribute odp maxWorkers numWorkers txQueues names = .done args ∧
        args.length = numWorkers ∧
        (∀ name ∈ names, ∀ q ∈ odp.queuesOf name,
          ∃ j < numWorkers, ∀ k, Polls args k q ↔ k = j) ∧
        ∀ j arg, args[j]? = some arg →
          (arg.polled = names.filterMap fun name => (odp.queuesOf name)[j]?) ∧
            arg.polled.length = names.length ∧ arg.processTimers = p.timers j) ∧
    (¬ (∀ name ∈ names, Served odp (p.first odp) (p.more odp txQueues) numWorkers name) →
      p.Refuses (p.distribute odp maxWorkers numWorkers txQueues names)) := by
  rcases distribute_cases p odp txQueues hnames hworkers with ⟨hall, hdone⟩ | ⟨hnot, hbad⟩
  · refine ⟨fun _ => ⟨_, hdone, by simp, fun name hname q hq =>
      polled_by_one hsep hname (hall name hname).queuesOf hq, ?_⟩, fun h => absurd hall h⟩
    intro j arg harg
    obtain ⟨k, hk, rfl⟩ := Option.map_eq_some_iff.mp (List.getElem?_map ▸ harg)
    obtain ⟨hj, rfl⟩ := List.getElem?_eq_some_iff.mp hk
    rw [List.getElem_range]
    refine ⟨dealtArg_polled odp p.timers names j, ?_, rfl⟩
    rw [dealtArg_polled, List.length_filterMap_eq_countP, List.countP_eq_length]
    intro name hname
    have hlen := (hall name hname).queuesOf
    rw [List.getElem?_eq_getElem (by simpa [hlen] using hj)]
    rfl
  · exact ⟨fun h => absurd h hnot, fun _ => hbad⟩

end Spread

/-- Interfaces by number, each with two input queues and three output queues. -/
def twoQueues : Odp Nat Nat (Nat × Nat) where
  created _ := true
  lookup name := some name
  pktinQueues pktio := [(pktio, 0), (pktio, 1)]
  pktoutQueue _ := 3

theorem twoQueues_separate : twoQueues.Separate where
  nodup pktio := by simp [twoQueues]
  disjoint pktio pktio' q h h' := by
    simp only [twoQueues, List.mem_cons, List.not_mem_nil, or_false] at h h'
    rcases h with rfl | rfl <;> simpa using h'

theorem queues_dealt_two :
    ∃ args, Program.udpFwd.distribute twoQueues 64 2 3 [7, 5] = .done args ∧ args.length = 2 ∧
      (∀ name ∈ [7, 5], ∀ q ∈ twoQueues.queuesOf name, ∃ j < 2, ∀ k, Polls args k q ↔ k = j) ∧
      ∀ j arg, args[j]? = some arg →
        (arg.polled = [7, 5].filterMap fun name => (twoQueues.queuesOf name)[j]?) ∧
          arg.polled.length = [7, 5].length ∧ arg.processTimers = Program.udpFwd.timers j :=
  (queues_dealt .udpFwd twoQueues twoQueues_separate 64 2 3 [7, 5] (by decide) (by decide)).1
    fun name _ => ⟨rfl, name, rfl, rfl, rfl⟩

end Nfp.Direct
