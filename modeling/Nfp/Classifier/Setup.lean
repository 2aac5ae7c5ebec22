/-
  File:      Nfp/Classifier/Setup.lean
  Subject:   THE CLASSES OF SERVICE, QUEUES AND MATCHING RULES of the classifier: `init_classifier`,
             `build_classifier` and `cleanup_classifier` (example/classifier/classifier.c), for every
             list of interfaces and every outcome of the calls that create something.

  What ODP was asked to create and to destroy is a ledger. `classif_t` has a field for one rule;
  `build_classifier` creates a rule for each interface and writes none of them there.

  * `buildLoop_run` -- what the loop over the interfaces has created, wherever it stops;
  * `cleanupClassifier_log` -- the cleanup destroys every class of service that stands in
    `classif_t`, with its queue, and no rule;
  * `setup_undone_iff` -- so the set-up is undone just if no rule was created and no class of service
    failed, since `build_cos_w_queue` then destroys `ODP_COS_INVALID`.
-/
import Mathlib.Data.List.ReduceOption
import Mathlib.Logic.Function.Basic
import Nfp.Common.CliArgParse
import Nfp.Lib.Ledger

namespace Nfp.Classifier.Setup

open Nfp.Lib
open Nfp.Common (nfpFpInterfaceMax)

/-- What is created and destroyed, by its handle. -/
inductive Obj where
  /-- `none` is `ODP_COS_INVALID` -/
  | cos (handle : Option Nat)
  | queue (handle : Nat)
  | pmr (handle : Nat)
  deriving DecidableEq, Repr

/-- **ODP**, as far as it is used: the next handle, the queue of each class of service, and the
    ledger. -/
structure Odp where
  next : Nat
  queueOf : Nat → Option Nat
  log : List (Entry Obj)

/-- An object is created. -/
def Odp.create (o : Odp) (x : Obj) : Odp :=
  { o with next := o.next + 1, log := o.log ++ [.acquire x] }

def Odp.destroy (o : Odp) (x : Obj) : Odp := { o with log := o.log ++ [.release x] }

/-- `odp_cls_cos_create` with `cos_param.queue`. -/
def Odp.createCos (o : Odp) (queue : Nat) : Odp :=
  { o.create (.cos (some o.next)) with queueOf := Function.update o.queueOf o.next (some queue) }

/-- `classif_t`. -/
structure Classif where
  cosUdp : Option Nat
  pmrUdp : Option Nat
  cosDef : List (Option Nat)

structure State where
  classif : Classif
  odp : Odp

/-- Whether `odp_queue_create` and `odp_cls_cos_create` succeed. -/
structure CosAnswers where
  queue : Bool
  cos : Bool
  deriving DecidableEq, Repr

/-- Whether the calls for one interface succeed: `nfp_ifport_net_ifnet_get_by_name`,
    `nfp_ifnet_port_get`, `nfp_ifport_net_pktio_get`, those of `build_cos_w_queue`,
    `odp_pktio_default_cos_set`, `odp_pktio_error_cos_set` and `odp_cls_pmr_create`. -/
structure IfAnswers where
  ifnet : Bool
  port : Bool
  pktio : Bool
  cos : CosAnswers
  defaultCos : Bool
  errorCos : Bool
  pmr : Bool
  deriving DecidableEq, Repr

/-- `build_cos_w_queue`. -/
def buildCosWQueue (a : CosAnswers) (o : Odp) : Option Nat × Odp :=
  if a.queue then
    let queueCos := o.next
    let o := o.create (.queue queueCos)
    if a.cos then (some o.next, o.createCos queueCos)
    else (none, (o.destroy (.cos none)).destroy (.queue queueCos))
  else (none, o)

/-- `init_classifier`: nothing of what was there stays. -/
def initClassifier (_ : Classif) : Classif := ⟨none, none, List.replicate nfpFpInterfaceMax none⟩

/-- One round of the loop of `build_classifier`; whether it goes on. -/
def buildInterface (i : Nat) (a : IfAnswers) (s : State) : Bool × State :=
  if a.ifnet && a.port && a.pktio then
    let r := buildCosWQueue a.cos s.odp
    let s : State := ⟨{ s.classif with cosDef := s.classif.cosDef.set i r.1 }, r.2⟩
    match r.1 with
    | none => (false, s)
    | some _ =>
        if a.defaultCos && a.errorCos && a.pmr then
          -- `pmr_udp` is a local variable
          (true, { s with odp := s.odp.create (.pmr s.odp.next) })
        else (false, s)
  else (false, s)

/-- The loop, from interface `i` on. -/
def buildLoop : Nat → List IfAnswers → State → Int × State
  | _, [], s => (0, s)
  | i, a :: ifs, s =>
      match buildInterface i a s with
      | (true, s) => buildLoop (i + 1) ifs s
      | (false, s) => (-1, s)

/-- **`build_classifier`**. -/
def buildClassifier (udp : CosAnswers) (ifs : List IfAnswers) (s : State) : Int × State :=
  let r := buildCosWQueue udp s.odp
  let s : State := ⟨{ s.classif with cosUdp := r.1 }, r.2⟩
  match r.1 with
  | none => (-1, s)
  | some _ => buildLoop 0 ifs s

/-- A class of service is destroyed, its queue first. -/
def destroyCos (c : Nat) (o : Odp) : Odp :=
  match o.queueOf c with
  | none => o.destroy (.cos (some c))
  | some q => (o.destroy (.queue q)).destroy (.cos (some c))

/-- The loop of `cleanup_classifier`. -/
def cleanupDefaults : List (Option Nat) → Odp → Odp
  | [], o => o
  | none :: cosDef, o => cleanupDefaults cosDef o
  | some c :: cosDef, o => cleanupDefaults cosDef (destroyCos c o)

/-- **`cleanup_classifier`**. -/
def cleanupClassifier (s : State) : State :=
  let o := cleanupDefaults s.classif.cosDef s.odp
  let cosDef := s.classif.cosDef.map fun _ => none
  match s.classif.cosUdp with
  | none => ⟨{ s.classif with cosDef := cosDef }, o⟩
  | some c =>
      let o := match s.classif.pmrUdp with
        | none => o
        | some p => o.destroy (.pmr p)
      ⟨⟨none, s.classif.pmrUdp, cosDef⟩, destroyCos c o⟩

/-- Nothing has been created yet. -/
def Odp.start : Odp := ⟨0, fun _ => none, []⟩

/-- **The life of a classifier**: set up, successfully or not, and cleaned up. -/
def lifecycle (udp : CosAnswers) (ifs : List IfAnswers) (before : Classif) : State :=
  cleanupClassifier (buildClassifier udp ifs ⟨initClassifier before, .start⟩).2

/-! ## The property -/

/-- **A set-up is undone**: what was created has been destroyed once, and nothing else has. -/
structure Undone (l : List (Entry Obj)) : Prop extends Lib.Sound l where
  complete : ∀ x ∈ acquired l, x ∈ released l

/-- Every call for the interface succeeds. -/
def IfAnswers.ok (a : IfAnswers) : Bool :=
  a.ifnet && a.port && a.pktio && a.cos.queue && a.cos.cos && a.defaultCos && a.errorCos && a.pmr

/-- The class of service of the interface is what fails. -/
def IfAnswers.cosFails (a : IfAnswers) : Bool :=
  a.ifnet && a.port && a.pktio && a.cos.queue && !a.cos.cos

/-- **What can be undone**: the first queue was not to be had; or the first class of service was, and
    there is no interface, or the first one fails, and not by its class of service. -/
def Undoable (udp : CosAnswers) (ifs : List IfAnswers) : Prop :=
  udp.queue = false ∨
    udp.cos = true ∧ ∀ a, ifs.head? = some a → a.ok = false ∧ a.cosFails = false

/-! ## What has been created -/

def Obj.handle : Obj → Option Nat
  | .cos handle => handle
  | .queue handle => some handle
  | .pmr handle => some handle

/-- What `cleanup_classifier` destroys for some classes of service. -/
def held (queueOf : Nat → Option Nat) (cs : List Nat) : List Obj :=
  cs.flatMap fun c => (queueOf c).toList.map .queue ++ [.cos (some c)]

/-- The objects created so far, each with a handle of its own, and nothing destroyed. -/
structure Minted (o : Odp) (created : List Obj) : Prop where
  log : o.log = created.map .acquire
  valid : ∀ x ∈ created, ∃ n < o.next, x.handle = some n
  nodup : created.Nodup

/-- **They are accounted for**: the classes of service `cs` with their queues, and the rules. -/
structure Kept (o : Odp) (created : List Obj) (cs pmrs : List Nat) : Prop
    extends Minted o created where
  perm : created.Perm (held o.queueOf cs ++ pmrs.map .pmr)

section Kept

variable {o : Odp} {created : List Obj} {cs pmrs : List Nat}

/-- A new object is none of those there are. -/
theorem Minted.fresh (h : Minted o created) {x : Obj} (hx : x.handle = some o.next) :
    x ∉ created := by
  intro hmem
  obtain ⟨k, hk, hhandle⟩ := h.valid x hmem
  rw [hx, Option.some.injEq] at hhandle
  omega

theorem Minted.create (h : Minted o created) {x : Obj} (hx : x.handle = some o.next) :
    Minted (o.create x) (created ++ [x]) where
  log := by
    show o.log ++ _ = _
    rw [h.log, List.map_append]
    rfl
  valid y hy := by
    rcases List.mem_append.mp hy with hy | hy
    · obtain ⟨n, hn, hhandle⟩ := h.valid y hy
      exact ⟨n, Nat.lt_succ_of_lt hn, hhandle⟩
    · obtain rfl := List.mem_singleton.mp hy
      exact ⟨o.next, Nat.lt_succ_self _, hx⟩
  nodup := h.nodup.append (List.nodup_singleton _) (List.disjoint_singleton.mpr (h.fresh hx))

theorem Kept.start : Kept .start [] [] [] :=
  ⟨⟨rfl, fun _ hx => absurd hx List.not_mem_nil, List.nodup_nil⟩, .nil⟩

theorem Kept.of_perm {cs' : List Nat} (h : Kept o created cs pmrs) (hcs : cs.Perm cs') :
    Kept o created cs' pmrs :=
  ⟨h.toMinted, h.perm.trans ((hcs.flatMap_right _).append_right _)⟩

/-- A rule more. -/
theorem Kept.createPmr (h : Kept o created cs pmrs) :
    Kept (o.create (.pmr o.next)) (created ++ [.pmr o.next]) cs (pmrs ++ [o.next]) := by
  refine ⟨h.toMinted.create rfl, ?_⟩
  rw [List.map_append, ← List.append_assoc]
  exact h.perm.append_right _

theorem Kept.lt_next (h : Kept o created cs pmrs) {c : Nat} (hc : c ∈ cs) : c < o.next := by
  have hheld : Obj.cos (some c) ∈ held o.queueOf cs :=
    List.mem_flatMap.mpr ⟨c, hc, List.mem_append_right _ List.mem_cons_self⟩
  obtain ⟨n, hn, hhandle⟩ := h.valid _ (h.perm.mem_iff.mpr (List.mem_append_left _ hheld))
  cases hhandle
  exact hn

/-- A class of service more, with its queue. -/
theorem Kept.createCos (h : Kept o created cs pmrs) :
    Kept ((o.create (.queue o.next)).createCos o.next)
      (created ++ [.queue o.next] ++ [.cos (some (o.next + 1))]) (cs ++ [o.next + 1]) pmrs := by
  have hqueue : Minted (o.create (.queue o.next)) (created ++ [.queue o.next]) :=
    h.toMinted.create rfl
  have hcos := @Minted.create _ _ hqueue (.cos (some (o.next + 1))) rfl
  refine ⟨⟨hcos.log, hcos.valid, hcos.nodup⟩, ?_⟩
  -- the queues of the classes there were are as before
  have hheld : held (Function.update o.queueOf (o.next + 1) (some o.next)) cs =
      held o.queueOf cs := by
    refine List.flatMap_congr fun c hc => ?_
    have hlt := h.lt_next hc
    rw [Function.update_of_ne (by omega)]
  have hnew : held (Function.update o.queueOf (o.next + 1) (some o.next)) [o.next + 1] =
      [.queue o.next, .cos (some (o.next + 1))] := by
    unfold held
    rw [List.flatMap_singleton, Function.update_self]
    rfl
  show List.Perm _ (held (Function.update o.queueOf (o.next + 1) (some o.next)) _ ++ _)
  have hsplit : held (Function.update o.queueOf (o.next + 1) (some o.next)) (cs ++ [o.next + 1]) =
      held o.queueOf cs ++ [.queue o.next, .cos (some (o.next + 1))] := by
    rw [← hheld, ← hnew]
    exact List.flatMap_append
  rw [hsplit, List.append_assoc, List.append_assoc]
  have hfront := h.perm.append_right [Obj.queue o.next, Obj.cos (some (o.next + 1))]
  rw [List.append_assoc] at hfront
  exact hfront.trans (List.perm_append_comm.append_left _)

end Kept

/-! ## Building -/

/-- What a class of service that cannot be created leaves in the ledger. -/
def cosFailure (queue : Nat) : List (Entry Obj) :=
  [.acquire (.queue queue), .release (.cos none), .release (.queue queue)]

section Build

variable {o : Odp} {a : CosAnswers}

theorem buildCosWQueue_created (hqueue : a.queue = true) (hcos : a.cos = true) :
    buildCosWQueue a o = (some (o.next + 1), (o.create (.queue o.next)).createCos o.next) := by
  unfold buildCosWQueue
  rw [if_pos hqueue]
  exact if_pos hcos

theorem buildCosWQueue_noQueue (hqueue : a.queue = false) : buildCosWQueue a o = (none, o) := by
  unfold buildCosWQueue
  rw [hqueue]
  rfl

theorem buildCosWQueue_noCos (hqueue : a.queue = true) (hcos : a.cos = false) :
    buildCosWQueue a o =
      (none, ⟨o.next + 1, o.queueOf, o.log ++ cosFailure o.next⟩) := by
  unfold buildCosWQueue
  rw [hqueue, hcos]
  simp [Odp.create, Odp.destroy, cosFailure]

/-- The classes of service that stand in `classif_t`, in the order in which they are destroyed. -/
def Classif.classes (c : Classif) : List Nat := c.cosDef.reduceOption ++ c.cosUdp.toList

/-- **Where building ends**: `rules` interfaces have their rule, all else that was created stands in
    `classif_t`, and `failed` tells whether a class of service could not be created. -/
def Built (s : State) (rules : Nat) (failed : Bool) : Prop :=
  ∃ o created pmrs, Kept o created s.classif.classes pmrs ∧ pmrs.length = rules ∧
    s.classif.pmrUdp = none ∧ s.odp.queueOf = o.queueOf ∧
    s.odp.log = o.log ++ if failed then cosFailure o.next else []

/-- **The loop before interface `i`**: the interfaces before it have a class of service and a rule. -/
def Looping (i : Nat) (s : State) : Prop :=
  ∃ created udp defs pmrs, Kept s.odp created (defs ++ [udp]) pmrs ∧ defs.length = i ∧
    pmrs.length = i ∧
    s.classif = ⟨some udp, none, defs.map some ++ List.replicate (nfpFpInterfaceMax - i) none⟩

theorem classes_eq (udp : Nat) (defs : List Nat) (k : Nat) :
    (Classif.mk (some udp) none (defs.map some ++ List.replicate k none)).classes =
      defs ++ [udp] := by
  have hdefs : (defs.map some).reduceOption = defs := by
    rw [List.reduceOption, List.filterMap_map]
    exact List.filterMap_some
  show (defs.map some ++ List.replicate k none).reduceOption ++ [udp] = _
  rw [List.reduceOption_append, hdefs, List.reduceOption_replicate_none, List.append_nil]

theorem Looping.kept {i : Nat} {s : State} (h : Looping i s) :
    ∃ created pmrs, Kept s.odp created s.classif.classes pmrs ∧ pmrs.length = i ∧
      s.classif.pmrUdp = none := by
  obtain ⟨created, udp, defs, pmrs, hkept, -, hpmrs, hclassif⟩ := h
  refine ⟨created, pmrs, ?_, hpmrs, ?_⟩
  · rw [hclassif, classes_eq]
    exact hkept
  · rw [hclassif]

theorem Looping.built {i : Nat} {s : State} (h : Looping i s) : Built s i false := by
  obtain ⟨created, pmrs, hkept, hpmrs, hpmr⟩ := h.kept
  exact ⟨s.odp, created, pmrs, hkept, hpmrs, hpmr, rfl, (List.append_nil _).symm⟩

/-- The place of interface `i` in `cos_def`. -/
theorem set_cosDef {defs : List Nat} {i : Nat} (hdefs : defs.length = i)
    (hi : i < nfpFpInterfaceMax) (c : Option Nat) :
    (defs.map some ++ List.replicate (nfpFpInterfaceMax - i) none).set i c =
      defs.map some ++ c :: List.replicate (nfpFpInterfaceMax - (i + 1)) none := by
  have hmax : nfpFpInterfaceMax - i = nfpFpInterfaceMax - (i + 1) + 1 := by omega
  rw [List.set_append_right _ _ (by rw [List.length_map]; omega), List.length_map, hdefs,
    Nat.sub_self, hmax, List.replicate_succ, List.set_cons_zero]

/-- An interface whose class of service could not be had leaves `classif_t` as it was. -/
theorem Looping.unset {i : Nat} {s : State} (h : Looping i s) (hi : i < nfpFpInterfaceMax) :
    { s.classif with cosDef := s.classif.cosDef.set i none } = s.classif := by
  obtain ⟨created, udp, defs, pmrs, -, hdefs, -, hclassif⟩ := h
  have hmax : nfpFpInterfaceMax - i = nfpFpInterfaceMax - (i + 1) + 1 := by omega
  rw [hclassif]
  simp only
  rw [set_cosDef hdefs hi, hmax, List.replicate_succ]

/-- An interface with its class of service, before its rule. -/
theorem Looping.withCos {i : Nat} {s : State} (h : Looping i s) (hi : i < nfpFpInterfaceMax)
    {s' : State}
    (hs' : s' = ⟨{ s.classif with cosDef := s.classif.cosDef.set i (some (s.odp.next + 1)) },
      (s.odp.create (.queue s.odp.next)).createCos s.odp.next⟩) :
    Built s' i false ∧ Looping (i + 1) { s' with odp := s'.odp.create (.pmr s'.odp.next) } := by
  obtain ⟨created, udp, defs, pmrs, hkept, hdefs, hpmrs, hclassif⟩ := h
  have hclassif' : s'.classif = ⟨some udp, none, (defs ++ [s.odp.next + 1]).map some ++
      List.replicate (nfpFpInterfaceMax - (i + 1)) none⟩ := by
    rw [hs', hclassif]
    simp only
    rw [set_cosDef hdefs hi, List.map_append, List.append_assoc]
    rfl
  obtain ⟨created', hnew⟩ : ∃ created', Kept s'.odp created' (defs ++ [s.odp.next + 1] ++ [udp])
      pmrs := by
    rw [hs']
    refine ⟨_, hkept.createCos.of_perm ?_⟩
    rw [List.append_assoc, List.append_assoc]
    exact List.perm_append_comm.append_left defs
  constructor
  · refine ⟨s'.odp, created', pmrs, ?_, hpmrs, by rw [hclassif'], rfl, (List.append_nil _).symm⟩
    rw [hclassif', classes_eq]
    exact hnew
  · refine ⟨_, udp, defs ++ [s.odp.next + 1], _, hnew.createPmr, ?_, ?_, hclassif'⟩
    · rw [List.length_append, hdefs, List.length_singleton]
    · rw [List.length_append, hpmrs, List.length_singleton]

/-- **One interface**: it gets its class of service and its rule, or building ends there. -/
theorem buildInterface_run {i : Nat} {s : State} (h : Looping i s) (hi : i < nfpFpInterfaceMax)
    (a : IfAnswers) :
    ∃ s', buildInterface i a s = (a.ok, s') ∧
      (a.ok = true → Looping (i + 1) s') ∧ (a.ok = false → Built s' i a.cosFails) := by
  have hok : a.ok = (a.ifnet && a.port && a.pktio && a.cos.queue && a.cos.cos &&
      (a.defaultCos && a.errorCos && a.pmr)) := by
    simp only [IfAnswers.ok, Bool.and_assoc]
  unfold buildInterface
  rw [hok, IfAnswers.cosFails]
  have hno : ∀ {P : Prop}, false = true → P := fun h => absurd h Bool.false_ne_true
  cases a.ifnet && a.port && a.pktio with
  | false => exact ⟨s, rfl, hno, fun _ => h.built⟩
  | true =>
      rw [if_pos rfl, Bool.true_and]
      cases hqueue : a.cos.queue with
      | false =>
          rw [buildCosWQueue_noQueue hqueue]
          refine ⟨s, ?_, hno, fun _ => h.built⟩
          simp only
          rw [h.unset hi]
          rfl
      | true =>
          cases hcos : a.cos.cos with
          | false =>
              obtain ⟨created, pmrs, hkept, hpmrs, hpmr⟩ := h.kept
              rw [buildCosWQueue_noCos hqueue hcos]
              refine ⟨_, rfl, hno, fun _ => ?_⟩
              simp only
              rw [h.unset hi]
              exact ⟨s.odp, created, pmrs, hkept, hpmrs, hpmr, rfl, rfl⟩
          | true =>
              rw [buildCosWQueue_created hqueue hcos]
              obtain ⟨hbuilt, hlooping⟩ := h.withCos hi rfl
              simp only [Bool.true_and]
              cases a.defaultCos && a.errorCos && a.pmr with
              | false => exact ⟨_, rfl, hno, fun _ => hbuilt⟩
              | true => exact ⟨_, rfl, fun _ => hlooping, fun h => hno h.symm⟩

/-- **The loop**, wherever it stops: a rule for each interface before the first that fails. -/
theorem buildLoop_run {i : Nat} {ifs : List IfAnswers} {s : State} (h : Looping i s)
    (hifs : i + ifs.length ≤ nfpFpInterfaceMax) :
    Built (buildLoop i ifs s).2 (i + (ifs.takeWhile IfAnswers.ok).length)
      ((ifs.dropWhile IfAnswers.ok).head?.any IfAnswers.cosFails) := by
  induction ifs generalizing i s with
  | nil => exact h.built
  | cons a ifs ih =>
      rw [List.length_cons] at hifs
      obtain ⟨s', hrun, hgoes, hends⟩ := buildInterface_run h (by omega) a
      unfold buildLoop
      rw [hrun]
      cases hok : a.ok with
      | true =>
          have hcount : i + ((ifs.takeWhile IfAnswers.ok).length + 1) =
              i + 1 + (ifs.takeWhile IfAnswers.ok).length := by omega
          rw [List.takeWhile_cons_of_pos hok, List.dropWhile_cons_of_pos hok, List.length_cons, hcount]
          exact ih (hgoes hok) (by omega)
      | false =>
          have hnot : ¬ a.ok = true := by rw [hok]; exact Bool.false_ne_true
          rw [List.takeWhile_cons_of_neg hnot, List.dropWhile_cons_of_neg hnot]
          exact hends hok

/-- **`build_classifier`**, wherever it stops. -/
theorem buildClassifier_run (udp : CosAnswers) {ifs : List IfAnswers} (before : Classif)
    (hifs : ifs.length ≤ nfpFpInterfaceMax) :
    Built (buildClassifier udp ifs ⟨initClassifier before, .start⟩).2
      (if udp.queue && udp.cos then (ifs.takeWhile IfAnswers.ok).length else 0)
      (if udp.queue && udp.cos then (ifs.dropWhile IfAnswers.ok).head?.any IfAnswers.cosFails
        else udp.queue) := by
  unfold buildClassifier
  cases hqueue : udp.queue with
  | false =>
      rw [buildCosWQueue_noQueue hqueue]
      exact ⟨.start, [], [], Kept.start, rfl, rfl, rfl, rfl⟩
  | true =>
      cases hcos : udp.cos with
      | false =>
          rw [buildCosWQueue_noCos hqueue hcos]
          exact ⟨.start, [], [], Kept.start, rfl, rfl, rfl, rfl⟩
      | true =>
          rw [buildCosWQueue_created hqueue hcos]
          have hloop : Looping 0 ⟨⟨some 1, none, List.replicate nfpFpInterfaceMax none⟩,
              (Odp.start.create (.queue 0)).createCos 0⟩ :=
            ⟨_, 1, [], [], Kept.start.createCos, rfl, rfl, rfl⟩
          have hrun := @buildLoop_run 0 ifs _ hloop (by omega)
          rw [Nat.zero_add] at hrun
          exact hrun

end Build

/-! ## Cleaning up -/

theorem destroyCos_eq (c : Nat) (o : Odp) :
    destroyCos c o = { o with log := o.log ++ (held o.queueOf [c]).map .release } := by
  unfold destroyCos held
  rw [List.flatMap_singleton]
  cases o.queueOf c with
  | none => rfl
  | some q => simp [Odp.destroy]

theorem cleanupDefaults_eq (cosDef : List (Option Nat)) (o : Odp) :
    cleanupDefaults cosDef o =
      { o with log := o.log ++ (held o.queueOf cosDef.reduceOption).map .release } := by
  induction cosDef generalizing o with
  | nil => simp [cleanupDefaults, held]
  | cons c cosDef ih =>
      cases c with
      | none => exact ih o
      | some c =>
          rw [cleanupDefaults, ih, destroyCos_eq, List.reduceOption_cons_of_some]
          simp [held]

/-- **`cleanup_classifier`** destroys what stands in `classif_t`. -/
theorem cleanupClassifier_log {s : State} (hpmr : s.classif.pmrUdp = none) :
    (cleanupClassifier s).odp.log =
      s.odp.log ++ (held s.odp.queueOf s.classif.classes).map .release := by
  unfold cleanupClassifier Classif.classes
  rw [cleanupDefaults_eq, hpmr]
  cases s.classif.cosUdp with
  | none => rw [Option.toList_none, List.append_nil]
  | some c =>
      simp only
      rw [destroyCos_eq]
      simp [held]

/-- `ODP_COS_INVALID` was never created. -/
theorem Minted.invalid_not_mem {o : Odp} {created : List Obj} (h : Minted o created) :
    Obj.cos none ∉ created := by
  intro hmem
  obtain ⟨k, -, hhandle⟩ := h.valid _ hmem
  cases hhandle

/-- No rule is destroyed with the classes of service. -/
theorem pmr_not_mem_held (queueOf : Nat → Option Nat) (cs : List Nat) (p : Nat) :
    Obj.pmr p ∉ held queueOf cs := by
  intro hmem
  obtain ⟨c, -, hc⟩ := List.mem_flatMap.mp hmem
  simp at hc

/-- **What is left** after the cleanup: the rules, and the trace of a class of service that
    failed. -/
theorem Built.undone_iff {s : State} {rules : Nat} {failed : Bool} (h : Built s rules failed) :
    Undone (cleanupClassifier s).odp.log ↔ rules = 0 ∧ failed = false := by
  obtain ⟨o, created, pmrs, hkept, hrules, hpmr, hqueueOf, hlog⟩ := h
  rw [cleanupClassifier_log hpmr, hlog, hqueueOf, hkept.log]
  have hperm := hkept.perm
  generalize hheld : held o.queueOf s.classif.classes = destroyed at hperm
  cases failed with
  | true =>
      refine iff_of_false (fun h => ?_) fun h => Bool.false_ne_true h.2.symm
      have hreleased : Obj.cos none ∈ released (created.map .acquire ++ cosFailure o.next ++
          destroyed.map .release) := by
        simp [cosFailure]
      rcases h.owned.mem_acquired hreleased with hown | hacquired
      · cases hown
      · simp [cosFailure, hkept.toMinted.invalid_not_mem] at hacquired
  | false =>
      rw [if_neg Bool.false_ne_true, List.append_nil]
      have hacquired : acquired (created.map Entry.acquire ++ destroyed.map Entry.release) =
          created := by simp
      have hreleased : released (created.map Entry.acquire ++ destroyed.map Entry.release) =
          destroyed := by simp
      constructor
      · intro h
        refine ⟨?_, rfl⟩
        rw [← hrules, List.length_eq_zero_iff, List.eq_nil_iff_forall_not_mem]
        intro p hp
        have hcreated : Obj.pmr p ∈ created :=
          hperm.mem_iff.mpr (List.mem_append_right _ (List.mem_map_of_mem hp))
        have hgone := h.complete _ (hacquired.symm ▸ hcreated)
        rw [hreleased, ← hheld] at hgone
        exact pmr_not_mem_held _ _ p hgone
      · rintro ⟨hzero, -⟩
        rw [← hrules, List.length_eq_zero_iff] at hzero
        rw [hzero, List.map_nil, List.append_nil] at hperm
        refine ⟨⟨?_, ?_⟩, ?_⟩
        · rw [hreleased]
          exact hperm.nodup_iff.mp hkept.nodup
        · refine ownedFrom_append (ownedFrom_map_acquire _ _) (ownedFrom_map_release ?_)
          intro x hx
          rw [acquired_map_acquire]
          exact hperm.mem_iff.mpr hx
        · rw [hacquired, hreleased]
          exact fun x hx => hperm.mem_iff.mp hx

/-- **Where the set-up is undone**: for every number of interfaces and every outcome of the calls,
    just if it is `Undoable`. -/
theorem setup_undone_iff (udp : CosAnswers) (ifs : List IfAnswers) (before : Classif)
    (hifs : ifs.length ≤ nfpFpInterfaceMax) :
    Undone (lifecycle udp ifs before).odp.log ↔ Undoable udp ifs := by
  unfold lifecycle Undoable
  rw [(buildClassifier_run udp before hifs).undone_iff]
  cases udp.queue with
  | false => exact iff_of_true ⟨rfl, rfl⟩ (Or.inl rfl)
  | true =>
      cases udp.cos with
      | false => simp
      | true =>
          cases ifs with
          | nil => simp
          | cons a ifs =>
              cases hok : a.ok with
              | true => simp [hok]
              | false => simp [hok]

/-- An interface for which every call succeeds. -/
def allGood : IfAnswers := ⟨true, true, true, ⟨true, true⟩, true, true, true⟩

/-- An interface without a packet input, and another that is not reached. -/
theorem setup_undone_no_pktio :
    Undone (lifecycle ⟨true, true⟩ [{ allGood with pktio := false }, allGood]
      ⟨none, none, []⟩).odp.log :=
  (setup_undone_iff _ _ _ (by decide)).mpr (Or.inr ⟨rfl, by simp [allGood, IfAnswers.ok,
    IfAnswers.cosFails]⟩)

/-- With one interface and nothing failing the rule is left; and a class of service that cannot be
    created is destroyed all the same. -/
theorem setup_leaves_rule :
    (lifecycle ⟨true, true⟩ [allGood] ⟨none, none, []⟩).odp.log =
        [.acquire (.queue 0), .acquire (.cos (some 1)), .acquire (.queue 2),
          .acquire (.cos (some 3)), .acquire (.pmr 4), .release (.queue 2), .release (.cos (some 3)),
          .release (.queue 0), .release (.cos (some 1))] ∧
      (lifecycle ⟨true, false⟩ [] ⟨none, none, []⟩).odp.log =
        [.acquire (.queue 0), .release (.cos none), .release (.queue 0)] ∧
      ¬ Undone (lifecycle ⟨true, true⟩ [allGood] ⟨none, none, []⟩).odp.log := by
  have hlog : (lifecycle ⟨true, true⟩ [allGood] ⟨none, none, []⟩).odp.log =
        [.acquire (.queue 0), .acquire (.cos (some 1)), .acquire (.queue 2),
          .acquire (.cos (some 3)), .acquire (.pmr 4), .release (.queue 2), .release (.cos (some 3)),
          .release (.queue 0), .release (.cos (some 1))] := by decide
  refine ⟨hlog, by decide, fun h => ?_⟩
  have hrule := h.complete (.pmr 4)
  rw [hlog] at hrule
  revert hrule
  decide

end Nfp.Classifier.Setup
