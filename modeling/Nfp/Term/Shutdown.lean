/-
  File:      Nfp/Term/Shutdown.lean
  Subject:   THREADS AND CHANNEL IN THE TERMINATION EXAMPLES: `main` of
             example/udp_term_socket/app_main.c and of example/classifier/classifier_main.c, from
             the creation of the threads to the end.

  A `main` is a function of the outcomes of its steps; what it did is the list of its calls that
  create and join threads, create and destroy the channel, and stop and terminate NFP.

  * `ShutsDown` -- along such a list: a thread is joined when it is alive, NFP is terminated when
    none is, the channel is destroyed when none is that may use it, and at the end none is left;
    `shutsDown_joined` -- then every thread created is joined once, and no other is;
  * `udpTermMain_iff` -- `main` of udp_term_socket leaves its threads running just where
    `udp_channel_config` fails;
  * `classifierMain_iff` -- `main` of classifier joins threads it never created where
    `init_channel` fails, and on every path through `join_workers` it destroys the channel before
    it has joined the thread that sends to it.
-/
import Mathlib.Data.List.Nodup
import Mathlib.Data.List.Perm.Basic
import Mathlib.Data.List.Range
import Mathlib.Data.List.TakeWhile

namespace Nfp.Term

/-- The threads: the workers by their place in `thread_tbl`, `dispatcher_thread` of
    udp_term_socket, `thread_cls` of classifier, and the termination thread of either. -/
inductive Thread where
  | worker (i : Nat)
  | dispatcher
  | classif
  | termination
  deriving DecidableEq, Repr

/-- The calls of a `main`: `nfp_thread_create` and `nfp_thread_join`, with the threads created or
    joined, and the others by name. -/
inductive Act where
  | create (threads : List Thread)
  | join (threads : List Thread)
  | stopProcessing
  | channelCreate
  | channelDestroy
  | terminate
  deriving DecidableEq, Repr

/-- **Shut down in order**, from the threads `alive` on; `mayUse` tells which threads send to the
    channel or receive from it. -/
def ShutsDown (mayUse : Thread → Bool) : List Thread → List Act → Prop
  | alive, [] => alive = []
  | alive, .create threads :: log => ShutsDown mayUse (alive ++ threads) log
  | alive, .join threads :: log =>
      threads.Nodup ∧ threads ⊆ alive ∧ ShutsDown mayUse (alive.filter (· ∉ threads)) log
  | alive, .terminate :: log => alive = [] ∧ ShutsDown mayUse alive log
  | alive, .channelDestroy :: log =>
      (∀ t ∈ alive, mayUse t = false) ∧ ShutsDown mayUse alive log
  | alive, .stopProcessing :: log => ShutsDown mayUse alive log
  | alive, .channelCreate :: log => ShutsDown mayUse alive log

/-- The threads a list of calls creates. -/
def created (log : List Act) : List Thread :=
  log.flatMap fun a => match a with
    | .create threads => threads
    | _ => []

/-- The threads it joins. -/
def joined (log : List Act) : List Thread :=
  log.flatMap fun a => match a with
    | .join threads => threads
    | _ => []

/-- The first `n` entries of `thread_tbl`. -/
def workers (n : Nat) : List Thread := (List.range n).map .worker

theorem workers_nodup (n : Nat) : (workers n).Nodup :=
  List.Nodup.map (fun _ _ h => Thread.worker.inj h) List.nodup_range

/-- The other threads are not in the table. -/
theorem workers_disjoint (n : Nat) {others : List Thread} (h : ∀ i, Thread.worker i ∉ others) :
    (workers n).Disjoint others := by
  intro t ht hother
  obtain ⟨i, -, rfl⟩ := List.mem_map.mp ht
  exact h i hother

section ShutsDown

variable {mayUse : Thread → Bool} {a b : List Thread} {log : List Act}

theorem filter_left (hdis : a.Disjoint b) : (a ++ b).filter (· ∉ a) = b := by
  rw [List.filter_append]
  have ha : a.filter (· ∉ a) = [] := by simp
  have hb : b.filter (· ∉ a) = b := by
    rw [List.filter_eq_self]
    intro t ht
    simpa using fun hta => hdis hta ht
  rw [ha, hb, List.nil_append]

theorem filter_right (hdis : a.Disjoint b) : (a ++ b).filter (· ∉ b) = a := by
  rw [List.filter_append]
  have ha : a.filter (· ∉ b) = a := by
    rw [List.filter_eq_self]
    intro t ht
    simpa using fun htb => hdis ht htb
  have hb : b.filter (· ∉ b) = [] := by simp
  rw [ha, hb, List.append_nil]

/-- The first of two groups of threads is joined. -/
theorem shutsDown_join_left (ha : a.Nodup) (hdis : a.Disjoint b) :
    ShutsDown mayUse (a ++ b) (.join a :: log) ↔ ShutsDown mayUse b log := by
  rw [ShutsDown, filter_left hdis]
  exact ⟨fun h => h.2.2, fun h => ⟨ha, List.subset_append_left a b, h⟩⟩

/-- The second of them. -/
theorem shutsDown_join_right (hb : b.Nodup) (hdis : a.Disjoint b) :
    ShutsDown mayUse (a ++ b) (.join b :: log) ↔ ShutsDown mayUse a log := by
  rw [ShutsDown, filter_right hdis]
  exact ⟨fun h => h.2.2, fun h => ⟨hb, List.subset_append_right a b, h⟩⟩

/-- All that are left. -/
theorem shutsDown_join_all (ha : a.Nodup) :
    ShutsDown mayUse a (.join a :: log) ↔ ShutsDown mayUse [] log := by
  have h := @shutsDown_join_left mayUse a [] log ha (List.disjoint_nil_right a)
  rwa [List.append_nil] at h

/-- **Every thread created is joined once, and no other is.** -/
theorem shutsDown_joined {alive : List Thread} (h : ShutsDown mayUse alive log)
    (hfresh : (alive ++ created log).Nodup) : (joined log).Perm (alive ++ created log) := by
  induction log generalizing alive with
  | nil =>
      rw [show alive = [] from h]
      exact .refl _
  | cons c log ih =>
      cases c with
      | create threads =>
          have hmore : alive ++ created (.create threads :: log) =
              (alive ++ threads) ++ created log := (List.append_assoc _ _ _).symm
          rw [hmore] at hfresh ⊢
          exact ih h hfresh
      | join threads =>
          obtain ⟨hnodup, hsub, hrest⟩ := h
          have hfresh : (alive ++ created log).Nodup := hfresh
          have halive : alive.Nodup := hfresh.of_append_left
          -- those joined now and those still alive make up those alive before
          have hsplit : (threads ++ alive.filter (· ∉ threads)).Perm alive := by
            have hnd : (threads ++ alive.filter (· ∉ threads)).Nodup := by
              refine hnodup.append (halive.filter _) fun t ht hf => ?_
              simp [ht] at hf
            refine (List.perm_ext_iff_of_nodup hnd halive).mpr fun t => ?_
            rw [List.mem_append, List.mem_filter]
            by_cases ht : t ∈ threads
            · simp [ht, hsub ht]
            · simp [ht]
          have hfresh' : (alive.filter (· ∉ threads) ++ created log).Nodup :=
            hfresh.sublist (List.filter_sublist.append_right _)
          have hjoined : joined (.join threads :: log) = threads ++ joined log := rfl
          have hcreated : created (.join threads :: log) = created log := rfl
          rw [hjoined, hcreated]
          refine ((ih hrest hfresh').append_left threads).trans ?_
          rw [← List.append_assoc]
          exact hsplit.append_right _
      | terminate => exact ih h.2 hfresh
      | channelDestroy => exact ih h.2 hfresh
      | stopProcessing => exact ih h hfresh
      | channelCreate => exact ih h hfresh

/-- **The property**: every thread created is joined once and no other is, and all in order. -/
structure InOrder (mayUse : Thread → Bool) (log : List Act) : Prop where
  joins : (joined log).Perm (created log)
  order : ShutsDown mayUse [] log

theorem inOrder_iff (hfresh : (created log).Nodup) :
    InOrder mayUse log ↔ ShutsDown mayUse [] log :=
  ⟨fun h => h.order, fun h => ⟨shutsDown_joined h hfresh, h⟩⟩

end ShutsDown

/-- `enum TERMINATE_METHOD`. -/
inductive Method where
  | channel
  | posix
  deriving DecidableEq, Repr

/-- `MAX_WORKERS` of udp_term_socket. -/
def maxWorkers : Int := 64

/-- A step that is not left by its failure exit has succeeded. -/
theorem passed {step : Bool} : ¬ (!step) = true ↔ step = true := by
  cases step <;> decide

/-- What holds where a step fails and where it succeeds. -/
theorem either {Q : List Act → Prop} {fails : Prop} [Decidable fails] {exit rest : List Act}
    (hexit : Q exit) (hrest : Q rest) : Q (if fails then exit else rest) := by
  split
  · exact hexit
  · exact hrest

/-- A step whose failure exit is in order. -/
theorem shutsDown_exit {mayUse : Thread → Bool} {alive : List Thread} {fails : Prop}
    [Decidable fails] {exit rest : List Act} (hexit : ShutsDown mayUse alive exit) :
    ShutsDown mayUse alive (if fails then exit else rest) ↔
      (¬ fails → ShutsDown mayUse alive rest) := by
  by_cases h : fails
  · rw [if_pos h]
    exact ⟨fun _ hno => absurd h hno, fun _ => hexit⟩
  · rw [if_neg h]
    exact ⟨fun hrest _ => hrest, fun hrest => hrest h⟩

/-! ## `main` of udp_term_socket -/

/-- **How the steps of `main` come out**: of the calls, whether they succeed (`interfaces`: those on
    every interface; `worker i`: the creation of the `i`th worker), and the numbers and the method
    it works with. -/
structure UdpTermSteps where
  sigaction : Bool
  parseArgs : Bool
  nfpInit : Bool
  cpuCount : Int
  coreCount : Int
  interfaces : Bool
  worker : Nat → Bool
  dispatcher : Bool
  addresses : Bool
  cliFile : Bool
  method : Method
  channel : Bool
  socket : Bool
  termination : Bool

namespace UdpTermSteps

variable (s : UdpTermSteps)

/-- `num_workers`. -/
def numWorkers : Int :=
  let n := s.cpuCount - 2
  let n := if s.coreCount ≠ 0 ∧ s.coreCount < n then s.coreCount else n
  if n > maxWorkers then maxWorkers else n

/-- How many workers are created before the first that cannot be. -/
def workersCreated : Nat := ((List.range s.numWorkers.toNat).takeWhile s.worker).length

/-- From the label `end` on: `udp_channel_cleanup` destroys a valid channel. -/
def toEnd (chn : Bool) : List Act := if chn then [.channelDestroy, .terminate] else [.terminate]

/-- From `udp_socket_cfg` on, with `n` workers and the dispatcher. -/
def fromSocket (n : Nat) (chn : Bool) : List Act :=
  if !s.socket then .stopProcessing :: .join [.dispatcher] :: .join (workers n) :: toEnd chn
  else if !s.termination then
    .stopProcessing :: .join [.dispatcher] :: .join (workers n) :: toEnd chn
  else
    .create [.termination] :: .join (workers n) :: .join [.dispatcher] :: .join [.termination] ::
      toEnd chn

/-- From `configure_interface_addresses` on. -/
def fromAddresses (n : Nat) : List Act :=
  if !s.addresses then .stopProcessing :: .join (workers n) :: .join [.dispatcher] :: toEnd false
  else if !s.cliFile then
    .stopProcessing :: .join (workers n) :: .join [.dispatcher] :: toEnd false
  else
    match s.method with
    | .channel => if !s.channel then toEnd false else .channelCreate :: s.fromSocket n true
    | .posix => s.fromSocket n false

/-- From the creation of the workers on. -/
def fromWorkers : List Act :=
  if s.workersCreated < s.numWorkers then
    .create (workers s.workersCreated) :: .stopProcessing ::
      if 0 < s.workersCreated then .join (workers s.workersCreated) :: toEnd false
      else toEnd false
  else
    .create (workers s.numWorkers.toNat) ::
      if !s.dispatcher then
        .stopProcessing :: .join (workers s.numWorkers.toNat) :: toEnd false
      else .create [.dispatcher] :: s.fromAddresses s.numWorkers.toNat

/-- **`main`** of udp_term_socket. -/
def udpTermMain : List Act :=
  if !s.sigaction then []
  else if !s.parseArgs then []
  else if !s.nfpInit then []
  else if s.numWorkers < 1 then toEnd false
  else if !s.interfaces then toEnd false
  else s.fromWorkers

/-- **`main` gets as far as a channel it cannot create.** -/
structure NoChannel : Prop where
  started : s.sigaction = true ∧ s.parseArgs = true ∧ s.nfpInit = true
  enough : 1 ≤ s.numWorkers
  interfaces : s.interfaces = true
  workers : ∀ i < s.numWorkers.toNat, s.worker i = true
  dispatcher : s.dispatcher = true
  configured : s.addresses = true ∧ s.cliFile = true
  refused : s.method = .channel ∧ s.channel = false

variable {s}

/-- Any thread may use the channel: the workers and the dispatcher through `notify`. -/
def mayUse : Thread → Bool := fun _ => true

theorem toEnd_shutsDown (chn : Bool) (alive : List Thread) :
    ShutsDown mayUse alive (toEnd chn) ↔ alive = [] := by
  unfold toEnd
  cases chn with
  | false => simp [ShutsDown]
  | true =>
      refine ⟨fun h => h.2.1, fun h => ?_⟩
      rw [h]
      exact ⟨fun t ht => absurd ht List.not_mem_nil, rfl, rfl⟩

/-- From the socket on everything is shut down in order. -/
theorem fromSocket_shutsDown (n : Nat) (chn : Bool) :
    ShutsDown mayUse (workers n ++ [.dispatcher]) (s.fromSocket n chn) := by
  have hexit : ShutsDown mayUse (workers n ++ [.dispatcher])
      (.stopProcessing :: .join [.dispatcher] :: .join (workers n) :: toEnd chn) := by
    rw [ShutsDown, shutsDown_join_right (List.nodup_singleton _) (workers_disjoint n (by simp)),
      shutsDown_join_all (workers_nodup n), toEnd_shutsDown]
  unfold fromSocket
  refine either hexit (either hexit ?_)
  rw [ShutsDown, List.append_assoc,
    shutsDown_join_left (workers_nodup n) (workers_disjoint n (by simp)),
    shutsDown_join_left (List.nodup_singleton _) (by simp),
    shutsDown_join_all (List.nodup_singleton _), toEnd_shutsDown]

/-- From the addresses on, unless the channel cannot be created. -/
theorem fromAddresses_shutsDown (n : Nat) :
    ShutsDown mayUse (workers n ++ [.dispatcher]) (s.fromAddresses n) ↔
      ¬ ((s.addresses = true ∧ s.cliFile = true) ∧ s.method = .channel ∧ s.channel = false) := by
  have hexit : ShutsDown mayUse (workers n ++ [.dispatcher])
      (.stopProcessing :: .join (workers n) :: .join [.dispatcher] :: toEnd false) := by
    rw [ShutsDown, shutsDown_join_left (workers_nodup n) (workers_disjoint n (by simp)),
      shutsDown_join_all (List.nodup_singleton _), toEnd_shutsDown]
  unfold fromAddresses
  cases haddr : s.addresses with
  | false => exact ⟨fun _ h => Bool.noConfusion h.1.1, fun _ => hexit⟩
  | true =>
      cases hcli : s.cliFile with
      | false => exact ⟨fun _ h => Bool.noConfusion h.1.2, fun _ => hexit⟩
      | true =>
          cases hmethod : s.method with
          | posix => simp [fromSocket_shutsDown]
          | channel =>
              cases hchannel : s.channel with
              | true => simp [ShutsDown, fromSocket_shutsDown]
              | false => simp [toEnd_shutsDown]

/-- All workers are created just if every creation succeeds. -/
theorem workersCreated_lt_iff (hn : 1 ≤ s.numWorkers) :
    (s.workersCreated : Int) < s.numWorkers ↔
      ¬ ∀ i < s.numWorkers.toNat, s.worker i = true := by
  have hpre : (List.range s.numWorkers.toNat).takeWhile s.worker <+: List.range _ :=
    List.takeWhile_prefix s.worker
  have hall : s.workersCreated = s.numWorkers.toNat ↔
      ∀ i < s.numWorkers.toNat, s.worker i = true := by
    have hself := @List.takeWhile_eq_self_iff _ s.worker (List.range s.numWorkers.toNat)
    simp only [List.mem_range] at hself
    rw [← hself]
    refine ⟨fun h => hpre.eq_of_length (h.trans List.length_range.symm), fun h => ?_⟩
    unfold workersCreated
    rw [h, List.length_range]
  have hle : s.workersCreated ≤ s.numWorkers.toNat := by
    have := hpre.length_le
    rwa [List.length_range] at this
  rw [← hall]
  omega

/-- From the workers on. -/
theorem fromWorkers_shutsDown (hn : 1 ≤ s.numWorkers) :
    ShutsDown mayUse [] s.fromWorkers ↔
      ¬ ((∀ i < s.numWorkers.toNat, s.worker i = true) ∧ s.dispatcher = true ∧
        (s.addresses = true ∧ s.cliFile = true) ∧ s.method = .channel ∧ s.channel = false) := by
  unfold fromWorkers
  by_cases hlt : (s.workersCreated : Int) < s.numWorkers
  · have hsome := (workersCreated_lt_iff hn).mp hlt
    rw [if_pos hlt]
    refine ⟨fun _ h => hsome h.1, fun _ => ?_⟩
    rw [ShutsDown, ShutsDown, List.nil_append]
    by_cases hzero : 0 < s.workersCreated
    · rw [if_pos hzero, shutsDown_join_all (workers_nodup _), toEnd_shutsDown]
    · rw [if_neg hzero, toEnd_shutsDown, show s.workersCreated = 0 by omega]
      rfl
  · have hall : ∀ i < s.numWorkers.toNat, s.worker i = true := by
      by_contra h
      exact hlt ((workersCreated_lt_iff hn).mpr h)
    rw [if_neg hlt]
    cases hdisp : s.dispatcher with
    | false =>
        refine ⟨fun _ h => Bool.noConfusion h.2.1, fun _ => ?_⟩
        show ShutsDown mayUse (workers _) (.join _ :: toEnd false)
        rw [shutsDown_join_all (workers_nodup _), toEnd_shutsDown]
    | true =>
        show ShutsDown mayUse (workers _ ++ [.dispatcher]) (s.fromAddresses _) ↔ _
        rw [fromAddresses_shutsDown]
        exact not_congr ⟨fun h => ⟨hall, rfl, h⟩, fun h => h.2.2⟩

theorem created_toEnd (chn : Bool) : created (toEnd chn) = [] := by
  cases chn <;> rfl

theorem created_fromSocket (n : Nat) (chn : Bool) :
    (created (s.fromSocket n chn)).Sublist [.termination] := by
  have hexit : (created (toEnd chn)).Sublist [.termination] := by
    rw [created_toEnd]
    exact List.nil_sublist _
  unfold fromSocket
  refine either (Q := fun log => (created log).Sublist _) hexit
    (either (Q := fun log => (created log).Sublist _) hexit ?_)
  show (Thread.termination :: created (toEnd chn)).Sublist _
  rw [created_toEnd]

theorem created_fromAddresses (n : Nat) :
    (created (s.fromAddresses n)).Sublist [.termination] := by
  have hexit : (created (toEnd false)).Sublist [.termination] := List.nil_sublist _
  unfold fromAddresses
  refine either (Q := fun log => (created log).Sublist _) hexit
    (either (Q := fun log => (created log).Sublist _) hexit ?_)
  cases s.method with
  | posix => exact created_fromSocket n false
  | channel =>
      exact either (Q := fun log => (created log).Sublist _) hexit (created_fromSocket n true)

theorem created_fromWorkers : (created s.fromWorkers).Nodup := by
  have hnone : ∀ k, (workers k ++ created (toEnd false)).Nodup := fun k =>
    (List.append_nil _).symm ▸ workers_nodup k
  unfold fromWorkers
  refine either (Q := fun log => (created log).Nodup) ?_ ?_
  · show (workers s.workersCreated ++ created _).Nodup
    exact either (Q := fun log => (workers _ ++ created log).Nodup) (hnone _) (hnone _)
  · show (workers s.numWorkers.toNat ++ created _).Nodup
    refine either (Q := fun log => (workers _ ++ created log).Nodup) (hnone _) ?_
    have hsub : (Thread.dispatcher :: created (s.fromAddresses s.numWorkers.toNat)).Sublist
        [.dispatcher, .termination] := (created_fromAddresses _).cons_cons _
    have hall : (workers s.numWorkers.toNat ++ [Thread.dispatcher, .termination]).Nodup :=
      (workers_nodup _).append (by simp) (workers_disjoint _ (by simp))
    exact hall.sublist (hsub.append_left _)

/-- No thread is created twice. -/
theorem created_udpTermMain : (created s.udpTermMain).Nodup := by
  have hnil : (created []).Nodup := List.nodup_nil
  have hend : (created (toEnd false)).Nodup := List.nodup_nil
  unfold udpTermMain
  refine either (Q := fun log => (created log).Nodup) hnil
    (either (Q := fun log => (created log).Nodup) hnil
      (either (Q := fun log => (created log).Nodup) hnil
        (either (Q := fun log => (created log).Nodup) hend
          (either (Q := fun log => (created log).Nodup) hend created_fromWorkers))))

/-- **`main` of udp_term_socket** shuts down in order just if it does not get to a channel it
    cannot create. -/
theorem udpTermMain_iff : InOrder mayUse s.udpTermMain ↔ ¬ s.NoChannel := by
  have hnil : ShutsDown mayUse [] [] := rfl
  have hend : ShutsDown mayUse [] (toEnd false) := (toEnd_shutsDown false []).mpr rfl
  rw [inOrder_iff created_udpTermMain, udpTermMain, shutsDown_exit hnil, shutsDown_exit hnil,
    shutsDown_exit hnil, shutsDown_exit hend, shutsDown_exit hend, passed, passed, passed, passed]
  constructor
  · intro h hno
    obtain ⟨hsig, hparse, hinit⟩ := hno.started
    have henough : ¬ s.numWorkers < 1 := by
      have := hno.enough
      omega
    refine (fromWorkers_shutsDown hno.enough).mp (h hsig hparse hinit henough hno.interfaces) ?_
    exact ⟨hno.workers, hno.dispatcher, hno.configured, hno.refused⟩
  · intro h hsig hparse hinit hnum hif
    rw [fromWorkers_shutsDown (by omega)]
    rintro ⟨hworkers, hdispatcher, hconfigured, hrefused⟩
    exact h ⟨⟨hsig, hparse, hinit⟩, by omega, hif, hworkers, hdispatcher, hconfigured, hrefused⟩

end UdpTermSteps

/-! ## `main` of classifier -/

/-- **How the steps of `main` come out**; `worker` is what `nfp_thread_create` makes of the request
    for the workers: how many it can create, or none for its answer -1. -/
structure ClassifierSteps where
  sigaction : Bool
  parseArgs : Bool
  nfpInit : Bool
  cpuCount : Int
  coreCount : Int
  groupWorkers : Bool
  groupCls : Bool
  interfaces : Bool
  classifier : Bool
  method : Method
  channel : Bool
  worker : Option Nat
  classif : Bool
  addresses : Bool
  cliFile : Bool
  posix : Bool
  termination : Bool

namespace ClassifierSteps

variable (s : ClassifierSteps)

/-- `num_workers`. -/
def numWorkers : Int :=
  let n := s.cpuCount - 3
  if s.coreCount ≠ 0 ∧ s.coreCount < n then s.coreCount else n

/-- The workers created. -/
def workersCreated : Nat :=
  match s.worker with
  | none => 0
  | some k => min k s.numWorkers.toNat

/-- `ret_val` of their creation. -/
def retVal : Int :=
  match s.worker with
  | none => -1
  | some _ => s.workersCreated

/-- From the label `join_workers` on. -/
def joinWorkers (chn : Bool) : List Act :=
  let joins := [.stopProcessing, .join (workers s.numWorkers.toNat), .join [.classif], .terminate]
  if chn then .channelDestroy :: joins else joins

/-- From the creation of the classifier thread on. -/
def fromClassif (chn : Bool) : List Act :=
  if !s.classif then [.stopProcessing, .join (workers s.numWorkers.toNat), .terminate]
  else
    .create [.classif] ::
      if !s.addresses then s.joinWorkers chn
      else if !s.cliFile then s.joinWorkers chn
      else if s.method = .posix ∧ s.posix = false then s.joinWorkers chn
      else if !s.termination then s.joinWorkers chn
      else .create [.termination] :: .join [.termination] :: s.joinWorkers chn

/-- From the creation of the workers on. -/
def fromWorkers (chn : Bool) : List Act :=
  .create (workers s.workersCreated) ::
    if s.retVal ≠ s.numWorkers then
      .stopProcessing ::
        if s.retVal ≠ -1 then [.join (workers s.retVal.toNat), .terminate] else [.terminate]
    else s.fromClassif chn

/-- **`main`** of classifier. -/
def classifierMain : List Act :=
  if !s.sigaction then []
  else if !s.parseArgs then []
  else if !s.nfpInit then []
  else if s.cpuCount < 4 then [.terminate]
  else if !s.groupWorkers then [.terminate]
  else if !s.groupCls then [.terminate]
  else if !s.interfaces then [.terminate]
  else if !s.classifier then [.terminate]
  else
    match s.method with
    | .channel =>
        if !s.channel then
          [.stopProcessing, .join (workers s.numWorkers.toNat), .terminate]
        else .channelCreate :: s.fromWorkers true
    | .posix => s.fromWorkers false

/-- **`main` gets as far as the channel**, and with it as far as the classifier thread; where the
    channel cannot be created, there is a worker to wait for. -/
structure AtChannel : Prop where
  started : s.sigaction = true ∧ s.parseArgs = true ∧ s.nfpInit = true
  enough : 4 ≤ s.cpuCount
  groups : s.groupWorkers = true ∧ s.groupCls = true
  configured : s.interfaces = true ∧ s.classifier = true
  method : s.method = .channel
  refused : s.channel = false → 1 ≤ s.numWorkers
  threads : s.channel = true → s.retVal = s.numWorkers ∧ s.classif = true

variable {s}

/-- The classifier thread sends to the channel and the termination thread receives from it; the
    workers are given `NFP_CHANNEL_INVALID`. -/
def mayUse : Thread → Bool
  | .classif => true
  | .termination => true
  | _ => false

/-- With all the workers and the classifier thread, `join_workers` is in order just if there is no
    channel. -/
theorem joinWorkers_shutsDown (chn : Bool) :
    ShutsDown mayUse (workers s.numWorkers.toNat ++ [.classif]) (s.joinWorkers chn) ↔
      chn = false := by
  cases chn with
  | false =>
      refine iff_of_true ?_ rfl
      show ShutsDown mayUse (_ ++ [.classif]) [.join _, .join _, .terminate]
      rw [shutsDown_join_left (workers_nodup _) (workers_disjoint _ (by simp)),
        shutsDown_join_all (List.nodup_singleton _)]
      exact ⟨rfl, rfl⟩
  | true =>
      refine iff_of_false (fun h => ?_) (by simp)
      have hused : mayUse .classif = false := h.1 _ (List.mem_append_right _ List.mem_cons_self)
      exact Bool.noConfusion hused

/-- With all the workers, the rest is in order unless the classifier thread gets a channel. -/
theorem fromClassif_shutsDown (chn : Bool) :
    ShutsDown mayUse (workers s.numWorkers.toNat) (s.fromClassif chn) ↔
      ¬ (chn = true ∧ s.classif = true) := by
  unfold fromClassif
  cases hclassif : s.classif with
  | false =>
      refine iff_of_true ?_ (by simp)
      show ShutsDown mayUse _ [.join _, .terminate]
      rw [shutsDown_join_all (workers_nodup _)]
      exact ⟨rfl, rfl⟩
  | true =>
      have hjoin := @joinWorkers_shutsDown s chn
      have hchn : chn = false ↔ ¬ (chn = true ∧ true = true) := by simp
      rw [← hchn]
      have hexit : ∀ {fails : Prop} [Decidable fails] {rest : List Act},
          (ShutsDown mayUse (workers _ ++ [.classif]) rest ↔ chn = false) →
          (ShutsDown mayUse (workers _ ++ [.classif])
            (if fails then s.joinWorkers chn else rest) ↔ chn = false) := fun hrest =>
        either (Q := fun log => ShutsDown mayUse _ log ↔ chn = false) hjoin hrest
      refine hexit (hexit (hexit (hexit ?_)))
      show ShutsDown mayUse ((_ ++ [.classif]) ++ [.termination]) (.join _ :: _) ↔ _
      rw [shutsDown_join_right (List.nodup_singleton _), hjoin]
      intro t ht hterm
      rw [List.mem_singleton.mp hterm] at ht
      simp [workers] at ht

/-- The answer is the number of workers, or -1 when there are none. -/
theorem retVal_cases :
    (s.retVal = -1 ∧ s.workersCreated = 0) ∨ s.retVal = (s.workersCreated : Int) := by
  unfold retVal workersCreated
  cases s.worker with
  | none => exact .inl ⟨rfl, rfl⟩
  | some k => exact .inr rfl

/-- From the workers on. -/
theorem fromWorkers_shutsDown (chn : Bool) :
    ShutsDown mayUse [] (s.fromWorkers chn) ↔
      ¬ (chn = true ∧ s.retVal = s.numWorkers ∧ s.classif = true) := by
  unfold fromWorkers
  by_cases hret : s.retVal = s.numWorkers
  · have hall : s.workersCreated = s.numWorkers.toNat := by
      rcases @retVal_cases s with h | h <;> omega
    rw [if_neg (not_not_intro hret), hall]
    refine (fromClassif_shutsDown chn).trans (not_congr ?_)
    exact ⟨fun h => ⟨h.1, hret, h.2⟩, fun h => ⟨h.1, h.2.2⟩⟩
  · rw [if_pos hret]
    refine iff_of_true ?_ (fun h => hret h.2.1)
    rw [ShutsDown, ShutsDown, List.nil_append]
    rcases @retVal_cases s with ⟨hnone, hzero⟩ | hsome
    · rw [if_neg (not_not_intro hnone), hzero]
      exact ⟨rfl, rfl⟩
    · rw [if_pos (by omega), hsome, Int.toNat_natCast, shutsDown_join_all (workers_nodup _)]
      exact ⟨rfl, rfl⟩

/-- Threads that were never created are waited for, unless there are none. -/
theorem refused_shutsDown :
    ShutsDown mayUse [] [.stopProcessing, .join (workers s.numWorkers.toNat), .terminate] ↔
      ¬ 1 ≤ s.numWorkers := by
  refine ⟨fun h hone => ?_, fun h => ?_⟩
  · obtain ⟨-, hsub, -⟩ : _ ∧ workers s.numWorkers.toNat ⊆ [] ∧ _ := h
    have hmem : Thread.worker 0 ∈ workers s.numWorkers.toNat :=
      List.mem_map.mpr ⟨0, List.mem_range.mpr (by omega), rfl⟩
    exact List.not_mem_nil (hsub hmem)
  · rw [show s.numWorkers.toNat = 0 by omega]
    exact ⟨List.nodup_nil, List.Subset.refl _, rfl, rfl⟩

theorem created_joinWorkers (chn : Bool) : created (s.joinWorkers chn) = [] := by
  cases chn <;> rfl

theorem created_fromClassif (chn : Bool) :
    (created (s.fromClassif chn)).Sublist [.classif, .termination] := by
  have hexit : ∀ {fails : Prop} [Decidable fails] {rest : List Act},
      (Thread.classif :: created rest).Sublist [.classif, .termination] →
      (Thread.classif :: created (if fails then s.joinWorkers chn else rest)).Sublist
        [.classif, .termination] := fun hrest => by
    refine either (Q := fun log => (Thread.classif :: created log).Sublist _) ?_ hrest
    rw [created_joinWorkers]
    exact (List.nil_sublist _).cons_cons _
  unfold fromClassif
  refine either (Q := fun log => (created log).Sublist _) (List.nil_sublist _) ?_
  refine hexit (hexit (hexit (hexit ?_)))
  show (Thread.classif :: .termination :: created (s.joinWorkers chn)).Sublist _
  rw [created_joinWorkers]

theorem created_fromWorkers (chn : Bool) : (created (s.fromWorkers chn)).Nodup := by
  unfold fromWorkers
  show (workers _ ++ created _).Nodup
  refine either (Q := fun log => (workers _ ++ created log).Nodup) ?_ ?_
  · have hnone : (workers s.workersCreated ++ []).Nodup :=
      (List.append_nil _).symm ▸ workers_nodup _
    exact either (Q := fun log => (workers _ ++ created log).Nodup) hnone hnone
  · have hall : (workers s.workersCreated ++ [Thread.classif, .termination]).Nodup :=
      (workers_nodup _).append (by simp) (workers_disjoint _ (by simp))
    exact hall.sublist ((created_fromClassif chn).append_left _)

/-- No thread is created twice. -/
theorem created_classifierMain : (created s.classifierMain).Nodup := by
  have hexit : ∀ {fails : Prop} [Decidable fails] {exit rest : List Act}, created exit = [] →
      (created rest).Nodup → (created (if fails then exit else rest)).Nodup := fun hnil hrest =>
    either (Q := fun log => (created log).Nodup) (hnil ▸ List.nodup_nil) hrest
  unfold classifierMain
  refine hexit rfl (hexit rfl (hexit rfl (hexit rfl (hexit rfl (hexit rfl (hexit rfl
    (hexit rfl ?_)))))))
  cases s.method with
  | posix => exact created_fromWorkers false
  | channel => exact hexit rfl (created_fromWorkers true)

/-- The channel, where it is wanted, and what comes behind it. -/
theorem fromChannel_shutsDown :
    ShutsDown mayUse [] (match s.method with
      | .channel =>
          if !s.channel then [.stopProcessing, .join (workers s.numWorkers.toNat), .terminate]
          else .channelCreate :: s.fromWorkers true
      | .posix => s.fromWorkers false) ↔
      ¬ (s.method = .channel ∧ (s.channel = false → 1 ≤ s.numWorkers) ∧
        (s.channel = true → s.retVal = s.numWorkers ∧ s.classif = true)) := by
  cases s.method with
  | posix => exact iff_of_true ((fromWorkers_shutsDown false).mpr (by simp)) (by simp)
  | channel =>
      cases s.channel with
      | false =>
          refine refused_shutsDown.trans (not_congr ⟨fun h => ?_, fun h => h.2.1 rfl⟩)
          exact ⟨rfl, fun _ => h, fun ht => Bool.noConfusion ht⟩
      | true =>
          refine (fromWorkers_shutsDown true).trans (not_congr ⟨fun h => ?_, fun h => ?_⟩)
          · exact ⟨rfl, fun hf => Bool.noConfusion hf, fun _ => h.2⟩
          · exact ⟨rfl, h.2.2 rfl⟩

/-- **`main` of classifier** shuts down in order just if it does not get to the channel. -/
theorem classifierMain_iff : InOrder mayUse s.classifierMain ↔ ¬ s.AtChannel := by
  have hnil : ShutsDown mayUse [] [] := rfl
  have hend : ShutsDown mayUse [] [.terminate] := ⟨rfl, rfl⟩
  rw [inOrder_iff created_classifierMain, classifierMain, shutsDown_exit hnil,
    shutsDown_exit hnil, shutsDown_exit hnil, shutsDown_exit hend, shutsDown_exit hend,
    shutsDown_exit hend, shutsDown_exit hend, shutsDown_exit hend, fromChannel_shutsDown,
    passed, passed, passed, passed, passed, passed, passed]
  constructor
  · intro h hat
    obtain ⟨hsig, hparse, hinit⟩ := hat.started
    have henough : ¬ s.cpuCount < 4 := by
      have := hat.enough
      omega
    exact h hsig hparse hinit henough hat.groups.1 hat.groups.2 hat.configured.1
      hat.configured.2 ⟨hat.method, hat.refused, hat.threads⟩
  · rintro h hsig hparse hinit hcpu hworkers hcls hif hbuilt ⟨hmethod, hrefused, hthreads⟩
    exact h ⟨⟨hsig, hparse, hinit⟩, by omega, ⟨hworkers, hcls⟩, ⟨hif, hbuilt⟩, hmethod, hrefused,
      hthreads⟩

end ClassifierSteps

/-! ## The two programs -/

/-- **Threads and channel are shut down in order** in udp_term_socket unless it gets as far as a
    channel it cannot create, and in classifier unless it gets as far as the channel. -/
theorem shutdown_in_order_iff (u : UdpTermSteps) (c : ClassifierSteps) :
    (InOrder UdpTermSteps.mayUse u.udpTermMain ↔ ¬ u.NoChannel) ∧
      (InOrder ClassifierSteps.mayUse c.classifierMain ↔ ¬ c.AtChannel) :=
  ⟨UdpTermSteps.udpTermMain_iff, ClassifierSteps.classifierMain_iff⟩

/-- Four cores, two workers, and no channel to be had. -/
def channelRefused : UdpTermSteps where
  sigaction := true
  parseArgs := true
  nfpInit := true
  cpuCount := 4
  coreCount := 0
  interfaces := true
  worker := fun _ => true
  dispatcher := true
  addresses := true
  cliFile := true
  method := .channel
  channel := false
  socket := true
  termination := true

/-- Four cores, one worker, and every step of classifier succeeds. -/
def channelRun : ClassifierSteps where
  sigaction := true
  parseArgs := true
  nfpInit := true
  cpuCount := 4
  coreCount := 0
  groupWorkers := true
  groupCls := true
  interfaces := true
  classifier := true
  method := .channel
  channel := true
  worker := some 1
  classif := true
  addresses := true
  cliFile := true
  posix := true
  termination := true

/-- udp_term_socket terminates NFP with two workers and the dispatcher running, and classifier, all
    of whose steps succeed, destroys the channel its classifier thread sends to. -/
theorem shutdown_out_of_order :
    channelRefused.udpTermMain =
      [.create [.worker 0, .worker 1], .create [.dispatcher], .terminate] ∧
    ¬ InOrder UdpTermSteps.mayUse channelRefused.udpTermMain ∧
    channelRun.classifierMain =
      [.channelCreate, .create [.worker 0], .create [.classif], .create [.termination],
        .join [.termination], .channelDestroy, .stopProcessing, .join [.worker 0],
        .join [.classif], .terminate] ∧
    ¬ InOrder ClassifierSteps.mayUse channelRun.classifierMain := by
  refine ⟨by decide, fun h => ?_, by decide, fun h => ?_⟩
  · have halive : [.worker 0, .worker 1, .dispatcher] = ([] : List Thread) := h.order.1
    cases halive
  · have hused : ClassifierSteps.mayUse .classif = false :=
      h.order.2.2.1 _ (by decide)
    cases hused

end Nfp.Term
