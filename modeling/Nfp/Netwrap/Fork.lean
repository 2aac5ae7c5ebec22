/-
  File:      Nfp/Netwrap/Fork.lean
  Subject:   THE WRAPPER OF `fork` in example/netwrap_crt/netwrap_fork.c, called by any number of
             threads, in a process and in the processes it forks.

  The wrapper calls itself: the outer call sets the static flag `recursive`, the inner one finds it
  set and goes to libc, and behind the inner call the outer one clears the flag and, in the child,
  initialises NFP. Nothing protects the flag. The machine `next` interleaves the steps of all calls;
  a fork copies the process with its flag and with the calling thread only. The other threads of a
  process, those it creates later among them, are in the program until they call.

  * `fork_returns_own` -- in every run, what a call returns is what its own libc call returned;
  * **`fork_initialises`** -- a child has initialised NFP once when `fork` returns 0 in it, as long
    as no call makes its first test while another call of the process is between its own first test
    and its clearing of the flag;
  * `fork_exposed` -- a first test made while the flag is set can end in a child without NFP.
-/
import Mathlib.Data.Fin.Basic
import Mathlib.Logic.Function.Basic
import Nfp.Lib.Run

namespace Nfp.Netwrap.Fork

open Nfp.Lib

/-- What does not change while the threads run: whether `setup_fork_wrappers` has been called, and
    whether `libc_fork` is found. -/
structure Wrapper where
  setupForkWrappersCalled : Bool
  libcFork : Bool

/-- Where a call is: before the step named. -/
inductive Pc where
  | test
  | set
  | inner
  | libcFork
  | clear (pid : Int)
  | init (pid : Int)
  | ret (pid : Int)
  deriving DecidableEq, Repr

/-- **A call of a thread**: the outer calls that wait for it, where it is itself, and what `fork` of
    libc has returned to it. -/
structure Call where
  outer : Nat
  pc : Pc
  own : Option Int
  deriving DecidableEq, Repr

/-- **A process**: the static flag, how often NFP has been initialised in it since it was created,
    and the calls of its threads. -/
structure Proc (n : Nat) where
  recursive : Bool
  inits : Nat
  calls : Fin n → Option Call

/-- **A return** to the program. -/
structure Return where
  value : Int
  own : Option Int
  inits : Nat
  deriving DecidableEq, Repr

structure State (n : Nat) where
  procs : Nat → Option (Proc n)
  returns : List Return

/-- A thread of a process calls `fork`, or takes the next step of its call; `child` is the process
    that a libc call creates, none where it fails. -/
inductive Label (n : Nat) where
  | enter (p : Nat) (t : Fin n)
  | step (p : Nat) (t : Fin n) (child : Option Nat)

/-- The outcome of `fork` of libc. -/
def libcPid : Option Nat → Int
  | none => -1
  | some q => q

/-- **One step of a call** that does not return to the program: the flag, the initialisations and
    the call after it. -/
def advance (w : Wrapper) (recursive : Bool) (inits : Nat) (child : Option Nat) (c : Call) :
    Bool × Nat × Call :=
  match c.pc with
  | .test =>
      -- not set up, or set: straight to libc
      if w.setupForkWrappersCalled && !recursive then (recursive, inits, { c with pc := .set })
      else (recursive, inits, { c with pc := .libcFork })
  | .set => (true, inits, { c with pc := .inner })
  | .inner => (recursive, inits, { c with outer := c.outer + 1, pc := .test })
  | .libcFork =>
      if w.libcFork then
        (recursive, inits, { c with pc := .ret (libcPid child), own := some (libcPid child) })
      else (recursive, inits, { c with pc := .ret (-1) })
  | .clear pid => (false, inits, { c with pc := .init pid })
  | .init pid =>
      if pid < 0 then (recursive, inits, { c with pc := .ret (-1) })
      else if pid = 0 then (recursive, inits + 1, { c with pc := .ret 0 })
      else (recursive, inits, { c with pc := .ret pid })
  | .ret pid => (recursive, inits, { c with outer := c.outer - 1, pc := .clear pid })

/-- A call that is about to return to the program. -/
def Call.back (c : Call) : Option Int :=
  match c.outer, c.pc with
  | 0, .ret pid => some pid
  | _, _ => none

variable {n : Nat}

def State.put (s : State n) (p : Nat) (P : Proc n) : State n :=
  { s with procs := Function.update s.procs p (some P) }

def Proc.put (P : Proc n) (t : Fin n) (c : Option Call) : Proc n :=
  { P with calls := Function.update P.calls t c }

/-- The process after a step of a thread's call. -/
def Proc.advance (w : Wrapper) (P : Proc n) (t : Fin n) (child : Option Nat) (c : Call) : Proc n :=
  let r := Fork.advance w P.recursive P.inits child c
  ⟨r.1, r.2.1, Function.update P.calls t (some r.2.2)⟩

/-- **The process `fork` creates**: the flag as it is, and the calling thread with 0. -/
def Proc.child (P : Proc n) (t : Fin n) (c : Call) : Proc n where
  recursive := P.recursive
  inits := 0
  calls := Function.update (fun _ => none) t (some { c with pc := .ret 0, own := some 0 })

/-- **The machine.** -/
def next (w : Wrapper) (s : State n) : Label n → Option (State n)
  | .enter p t =>
      match s.procs p with
      | none => none
      | some P =>
          match P.calls t with
          | some _ => none
          | none => some (s.put p (P.put t (some ⟨0, .test, none⟩)))
  | .step p t child =>
      match s.procs p with
      | none => none
      | some P =>
          match P.calls t with
          | none => none
          | some c =>
              match c.back with
              | some pid =>
                  let s' := s.put p (P.put t none)
                  some { s' with returns := s.returns ++ [⟨pid, c.own, P.inits⟩] }
              | none =>
                  let s' := s.put p (P.advance w t child c)
                  match c.pc, w.libcFork, child with
                  | .libcFork, true, some q =>
                      if q ≠ 0 ∧ (s.procs q).isNone then some (s'.put q (P.child t c)) else none
                  | _, _, _ => some s'

/-- One process, and no thread in a call. -/
def State.start (n : Nat) : State n where
  procs := Function.update (fun _ => none) 1 (some ⟨false, 0, fun _ => none⟩)
  returns := []

/-- Between the first test and the clearing of the flag. -/
def Call.inside (c : Call) : Bool :=
  match c.outer, c.pc with
  | 0, .set => true
  | 0, .inner => true
  | 0, .clear _ => true
  | 0, _ => false
  | _ + 1, _ => true

/-- At the first test of a call no other call of the process is inside. -/
def Proc.mayTest (P : Proc n) (t : Fin n) : Bool :=
  (P.calls t).all fun c =>
    !(c.outer == 0 && c.pc == .test) ||
      decide (∀ t', t' ≠ t → (P.calls t').all (fun c' => !c'.inside) = true)

/-- **The condition**: no call makes its first test while another call of the process is between its
    own first test and its clearing of the flag. -/
def Alone (s : State n) : Label n → Prop
  | .enter _ _ => True
  | .step p t _ => (s.procs p).all (·.mayTest t) = true

instance (s : State n) (l : Label n) : Decidable (Alone s l) :=
  match l with
  | .enter _ _ => isTrue trivial
  | .step p t _ => inferInstanceAs (Decidable ((s.procs p).all (·.mayTest t) = true))

/-! ## What a step can do -/

section Steps

variable {w : Wrapper} {s s' : State n} {p : Nat} {t : Fin n} {child : Option Nat}

theorem put_procs {P P' : Proc n} {p' : Nat} (h : (s.put p P).procs p' = some P') :
    P' = P ∨ s.procs p' = some P' := by
  have h : Function.update s.procs p (some P) p' = some P' := h
  by_cases hp : p' = p
  · rw [hp, Function.update_self] at h
    exact .inl (Option.some.inj h).symm
  · rw [Function.update_of_ne hp] at h
    exact .inr h

theorem next_enter (h : next w s (.enter p t) = some s') :
    ∃ P, s.procs p = some P ∧ P.calls t = none ∧
      s' = s.put p (P.put t (some ⟨0, .test, none⟩)) := by
  rw [next] at h
  split at h
  · cases h
  · rename_i P hP
    split at h
    · cases h
    · rename_i hidle
      exact ⟨P, hP, hidle, (Option.some.inj h).symm⟩

/-- A call returns to the program, takes a step of its own, or forks. -/
theorem next_step (h : next w s (.step p t child) = some s') :
    ∃ P c, s.procs p = some P ∧ P.calls t = some c ∧
      ((∃ pid, c.back = some pid ∧ s'.procs = (s.put p (P.put t none)).procs ∧
          s'.returns = s.returns ++ [⟨pid, c.own, P.inits⟩]) ∨
        (c.back = none ∧ (c.pc = .libcFork → w.libcFork = true → child = none) ∧
          s' = s.put p (P.advance w t child c)) ∨
        ∃ q, c.back = none ∧ c.pc = .libcFork ∧ w.libcFork = true ∧ child = some q ∧ q ≠ 0 ∧
          s' = (s.put p (P.advance w t child c)).put q (P.child t c)) := by
  rw [next] at h
  split at h
  · cases h
  · rename_i P hP
    split at h
    · cases h
    · rename_i c hc
      refine ⟨P, c, hP, hc, ?_⟩
      split at h
      · rename_i pid hback
        cases h
        exact .inl ⟨pid, hback, rfl, rfl⟩
      · rename_i hback
        refine .inr ?_
        dsimp only at h
        split at h
        · rename_i q hpc hlibc
          split at h
          · rename_i hq
            cases h
            exact .inr ⟨q, hback, hpc, hlibc, rfl, hq.1, rfl⟩
          · cases h
        · rename_i hno
          cases h
          refine .inl ⟨hback, fun hpc hlibc => ?_, rfl⟩
          exact Option.eq_none_iff_forall_ne_some.mpr fun q hq => hno q hpc hlibc hq

end Steps

/-! ## What a call returns -/

/-- The pid a call carries back. -/
def Pc.carried : Pc → Option Int
  | .clear pid => some pid
  | .init pid => some pid
  | .ret pid => some pid
  | _ => none

/-- A call carries what libc returned to it, and -1 if libc cannot be called. -/
structure Call.Owns (c : Call) : Prop where
  carried : ∀ pid, c.pc.carried = some pid → pid = c.own.getD (-1) ∧ -1 ≤ pid
  waiting : c.pc.carried = none → c.own = none

theorem libcPid_ge (child : Option Nat) : -1 ≤ libcPid child := by
  unfold libcPid
  split <;> omega

theorem back_carried {c : Call} {pid : Int} (h : c.back = some pid) :
    c.pc.carried = some pid := by
  unfold Call.back at h
  split at h
  · rename_i hpc
    rw [hpc]
    exact h
  · cases h

/-- A call goes on with a pid of its own. -/
theorem Call.Owns.carry {c : Call} (h : c.Owns) {pc : Pc} {pid : Int}
    (hc : c.pc.carried = some pid) (hpc : pc.carried = some pid) (outer : Nat) :
    Call.Owns ⟨outer, pc, c.own⟩ where
  carried pid' hpid' := by
    have hsame : pid' = pid := Option.some.inj (hpid'.symm.trans hpc)
    rw [hsame]
    exact h.carried pid hc
  waiting hnone := absurd (hpc.symm.trans hnone) (Option.some_ne_none _)

/-- A call that carries nothing yet goes on so. -/
theorem Call.Owns.wait {c : Call} (h : c.Owns) {pc : Pc} (hc : c.pc.carried = none)
    (hpc : pc.carried = none) (outer : Nat) : Call.Owns ⟨outer, pc, c.own⟩ where
  carried _ hpid := absurd (hpc.symm.trans hpid) (Option.some_ne_none _).symm
  waiting _ := h.waiting hc

theorem advance_owns (w : Wrapper) (recursive : Bool) (inits : Nat) (child : Option Nat) {c : Call}
    (h : c.Owns) : (advance w recursive inits child c).2.2.Owns := by
  unfold advance
  split
  · rename_i hpc
    have hnone : c.pc.carried = none := congrArg Pc.carried hpc
    split
    · exact h.wait hnone rfl _
    · exact h.wait hnone rfl _
  · rename_i hpc
    exact h.wait (congrArg Pc.carried hpc) rfl _
  · rename_i hpc
    exact h.wait (congrArg Pc.carried hpc) rfl _
  · rename_i hpc
    split
    · refine ⟨fun pid hpid => ?_, fun hnone => absurd hnone (Option.some_ne_none _)⟩
      cases hpid
      exact ⟨rfl, libcPid_ge child⟩
    · refine ⟨fun pid hpid => ?_, fun hnone => absurd hnone (Option.some_ne_none _)⟩
      cases hpid
      have hown : c.own = none := h.waiting (congrArg Pc.carried hpc)
      exact ⟨by rw [hown]; rfl, by omega⟩
  · rename_i pid hpc
    exact h.carry (congrArg Pc.carried hpc) rfl _
  · rename_i pid hpc
    have hc : c.pc.carried = some pid := congrArg Pc.carried hpc
    have hge := (h.carried pid hc).2
    split
    · rw [show pid = -1 by omega] at hc
      exact h.carry hc rfl _
    · split
      · rename_i hzero
        rw [hzero] at hc
        exact h.carry hc rfl _
      · exact h.carry hc rfl _
  · rename_i pid hpc
    exact h.carry (congrArg Pc.carried hpc) rfl _

/-- What every run keeps. -/
structure OwnInv (s : State n) : Prop where
  calls : ∀ p P, s.procs p = some P → ∀ t c, P.calls t = some c → c.Owns
  returns : ∀ r ∈ s.returns, r.value = r.own.getD (-1)

/-- A process that is put back keeps the invariant of its calls. -/
theorem OwnInv.put {s : State n} (h : OwnInv s) (p : Nat) {P : Proc n}
    (hP : ∀ t c, P.calls t = some c → c.Owns) : OwnInv (s.put p P) where
  calls p' P' hP' := by
    rcases put_procs hP' with rfl | hold
    · exact hP
    · exact h.calls p' P' hold
  returns := h.returns

/-- One call of a process replaced. -/
theorem update_calls {calls : Fin n → Option Call} {t : Fin n} {x : Option Call}
    {C : Call → Prop} (h : ∀ t' c, calls t' = some c → C c) (hx : ∀ c, x = some c → C c)
    (t' : Fin n) (c : Call) (hc : Function.update calls t x t' = some c) : C c := by
  by_cases ht : t' = t
  · rw [ht, Function.update_self] at hc
    exact hx c hc
  · rw [Function.update_of_ne ht] at hc
    exact h t' c hc

theorem OwnInv.next {w : Wrapper} {s s' : State n} {l : Label n} (h : OwnInv s)
    (hs : next w s l = some s') : OwnInv s' := by
  cases l with
  | enter p t =>
      obtain ⟨P, hP, -, rfl⟩ := next_enter hs
      refine h.put p (update_calls (h.calls p P hP) ?_)
      rintro c ⟨⟩
      exact ⟨fun _ hpid => (by cases hpid), fun _ => rfl⟩
  | step p t child =>
      obtain ⟨P, c, hP, hc, hcases⟩ := next_step hs
      have hcalls := h.calls p P hP
      have hown : c.Owns := hcalls t c hc
      have hadvance : OwnInv (s.put p (P.advance w t child c)) := by
        refine h.put p (update_calls hcalls ?_)
        rintro c' ⟨⟩
        exact advance_owns w _ _ child hown
      rcases hcases with ⟨pid, hback, hprocs, hreturns⟩ | ⟨-, -, rfl⟩ | ⟨q, -, -, -, -, -, rfl⟩
      · have hdone : OwnInv (s.put p (P.put t none)) :=
          h.put p (update_calls hcalls fun _ hc' => by cases hc')
        refine ⟨hprocs ▸ hdone.calls, fun r hr => ?_⟩
        rw [hreturns] at hr
        rcases List.mem_append.mp hr with hr | hr
        · exact h.returns r hr
        · rw [List.mem_singleton.mp hr]
          exact (hown.carried pid (back_carried hback)).1
      · exact hadvance
      · refine hadvance.put q (update_calls (fun _ _ hc' => by cases hc') ?_)
        rintro c' ⟨⟩
        refine ⟨fun pid hpid => ?_, fun hnone => absurd hnone (Option.some_ne_none _)⟩
        cases hpid
        exact ⟨rfl, by omega⟩

/-- **In every run a call returns what its own libc call returned**, and -1 if libc cannot be
    called. -/
theorem fork_returns_own {w : Wrapper} {s : State n} (h : Reach (next w) anyStep (.start n) s) :
    ∀ r ∈ s.returns, r.value = r.own.getD (-1) := by
  refine (h.inv (I := OwnInv) ⟨fun p P hP t c hc => ?_, fun r hr => by cases hr⟩
    fun _ _ _ hinv _ hs => hinv.next hs).returns
  rcases @put_procs n ⟨fun _ => none, []⟩ 1 _ P p hP with rfl | hold
  · cases hc
  · cases hold

/-! ## One call inside at a time -/

/-- What a call does to the flag: nothing, about to set it, has set it and will clear it. -/
inductive Phase where
  | out
  | entering
  | raised
  deriving DecidableEq, Repr

def phaseOf : Option Call → Phase
  | none => .out
  | some ⟨0, .set, _⟩ => .entering
  | some ⟨0, .inner, _⟩ => .raised
  | some ⟨0, .clear _, _⟩ => .raised
  | some ⟨0, _, _⟩ => .out
  | some ⟨_ + 1, _, _⟩ => .raised

/-- How often NFP has been initialised in a process in which a call carries 0. -/
def dueOf : Option Call → Option Nat
  | some ⟨outer, .ret pid, _⟩ => if pid = 0 then some (if outer = 0 then 1 else 0) else none
  | some ⟨_, .clear pid, _⟩ => if pid = 0 then some 0 else none
  | some ⟨_, .init pid, _⟩ => if pid = 0 then some 0 else none
  | _ => none

/-- **The calls there are** where calls do not overlap: an outer call, or an inner one that goes to
    libc. -/
inductive Regular : Call → Prop
  | test (own : Option Int) : Regular ⟨0, .test, own⟩
  | set (own : Option Int) : Regular ⟨0, .set, own⟩
  | inner (own : Option Int) : Regular ⟨0, .inner, own⟩
  | innerTest (own : Option Int) : Regular ⟨1, .test, own⟩
  | innerLibc (own : Option Int) : Regular ⟨1, .libcFork, own⟩
  | innerRet (pid : Int) (own : Option Int) : Regular ⟨1, .ret pid, own⟩
  | clear (pid : Int) (own : Option Int) : Regular ⟨0, .clear pid, own⟩
  | init (pid : Int) (own : Option Int) : Regular ⟨0, .init pid, own⟩
  | ret (pid : Int) (own : Option Int) : Regular ⟨0, .ret pid, own⟩

/-- **The flag as a lock**: at most one call is inside, and the flag is set just if it has set
    it. -/
structure Excl (flag : Bool) (φ : Fin n → Phase) : Prop where
  one : ∀ t t', φ t ≠ .out → φ t' ≠ .out → t = t'
  flag : flag = true ↔ ∃ t, φ t = .raised

/-- **What is due**: one call at most carries 0, and NFP has been initialised as often as it
    says. -/
structure Dues (inits : Nat) (δ : Fin n → Option Nat) : Prop where
  count : ∀ t k, δ t = some k → inits = k
  one : ∀ t t', δ t ≠ none → δ t' ≠ none → t = t'

section Excl

variable {flag : Bool} {φ : Fin n → Phase} {t : Fin n}

theorem Excl.same (h : Excl flag φ) {x : Phase} (hx : x = φ t) :
    Excl flag (Function.update φ t x) := by
  rw [hx, Function.update_eq_self]
  exact h

/-- Where none is inside, one may come in. -/
theorem Excl.enter (h : Excl flag φ) (hout : ∀ t', φ t' = .out) :
    Excl flag (Function.update φ t .entering) where
  one a b ha hb := by
    have honly : ∀ c, Function.update φ t .entering c ≠ .out → c = t := fun c hc => by
      by_contra hne
      rw [Function.update_of_ne hne] at hc
      exact hc (hout c)
    rw [honly a ha, honly b hb]
  flag := by
    rw [h.flag]
    refine iff_of_false ?_ ?_
    · rintro ⟨a, ha⟩
      rw [hout a] at ha
      cases ha
    · rintro ⟨a, ha⟩
      by_cases hat : a = t
      · rw [hat, Function.update_self] at ha
        cases ha
      · rw [Function.update_of_ne hat, hout a] at ha
        cases ha

/-- The others, where one is inside. -/
theorem Excl.others (h : Excl flag φ) (ht : φ t ≠ .out) {x : Phase} {a : Fin n}
    (ha : Function.update φ t x a ≠ .out) : a = t := by
  by_contra hne
  rw [Function.update_of_ne hne] at ha
  exact hne (h.one a t ha ht)

/-- The one inside sets the flag. -/
theorem Excl.raise (h : Excl flag φ) (ht : φ t = .entering) :
    Excl true (Function.update φ t .raised) where
  one a b ha hb := by
    have hin : φ t ≠ .out := by simp [ht]
    rw [h.others hin ha, h.others hin hb]
  flag := iff_of_true rfl ⟨t, Function.update_self ..⟩

/-- It clears the flag and is out. -/
theorem Excl.lower (h : Excl flag φ) (ht : φ t = .raised) :
    Excl false (Function.update φ t .out) where
  one a b ha hb := by
    have hin : φ t ≠ .out := by simp [ht]
    rw [h.others hin ha, h.others hin hb]
  flag := by
    refine iff_of_false (by simp) ?_
    rintro ⟨a, ha⟩
    have hin : φ t ≠ .out := by simp [ht]
    have hat : a = t := h.others hin (x := .out) (by rw [ha]; decide)
    rw [hat, Function.update_self] at ha
    cases ha

end Excl

section Dues

variable {inits : Nat} {δ : Fin n → Option Nat} {t : Fin n}

theorem Dues.same (h : Dues inits δ) {x : Option Nat} (hx : x = δ t) :
    Dues inits (Function.update δ t x) := by
  rw [hx, Function.update_eq_self]
  exact h

theorem Dues.drop (h : Dues inits δ) : Dues inits (Function.update δ t none) := by
  have hold : ∀ a, Function.update δ t none a ≠ none → Function.update δ t none a = δ a := by
    intro a ha
    refine Function.update_of_ne (fun hat => ha ?_) _ _
    rw [hat, Function.update_self]
  refine ⟨fun a k ha => ?_, fun a b ha hb => ?_⟩
  · exact h.count a k ((hold a (by rw [ha]; exact Option.some_ne_none k)) ▸ ha)
  · exact h.one a b (hold a ha ▸ ha) (hold b hb ▸ hb)

/-- The call that carries 0 initialises NFP. -/
theorem Dues.init (h : Dues inits δ) (ht : δ t = some 0) :
    Dues (inits + 1) (Function.update δ t (some 1)) := by
  have honly : ∀ a, Function.update δ t (some 1) a ≠ none → a = t := by
    intro a ha
    by_contra hne
    rw [Function.update_of_ne hne] at ha
    exact hne (h.one a t ha (by rw [ht]; exact Option.some_ne_none 0))
  refine ⟨fun a k ha => ?_, fun a b ha hb => (honly a ha).trans (honly b hb).symm⟩
  rw [honly a (by rw [ha]; exact Option.some_ne_none k), Function.update_self] at ha
  cases ha
  rw [h.count t 0 ht]

/-- The call that a process is created with. -/
theorem Dues.first (t : Fin n) : Dues 0 (Function.update (fun _ => none) t (some 0)) := by
  have honly : ∀ a, Function.update (fun _ : Fin n => none) t (some 0) a ≠ none → a = t := by
    intro a ha
    by_contra hne
    rw [Function.update_of_ne hne] at ha
    exact ha rfl
  refine ⟨fun a k ha => ?_, fun a b ha hb => (honly a ha).trans (honly b hb).symm⟩
  rw [honly a (by rw [ha]; exact Option.some_ne_none k), Function.update_self] at ha
  exact Option.some.inj ha

end Dues

/-- What a run without overlap keeps of a process. -/
structure ProcInv (P : Proc n) : Prop where
  regular : ∀ t c, P.calls t = some c → Regular c
  excl : Excl P.recursive (phaseOf ∘ P.calls)
  dues : Dues P.inits (dueOf ∘ P.calls)

section ProcInv

variable {P : Proc n} {t : Fin n} {w : Wrapper} {child : Option Nat} {c : Call}

/-- The invariant after one call is replaced. -/
theorem ProcInv.replace (h : ProcInv P) {flag : Bool} {inits : Nat} {x : Option Call}
    (hx : ∀ c, x = some c → Regular c)
    (hexcl : Excl flag (Function.update (phaseOf ∘ P.calls) t (phaseOf x)))
    (hdues : Dues inits (Function.update (dueOf ∘ P.calls) t (dueOf x))) :
    ProcInv ⟨flag, inits, Function.update P.calls t x⟩ where
  regular := update_calls h.regular hx
  excl := by
    rw [← Function.comp_update] at hexcl
    exact hexcl
  dues := by
    rw [← Function.comp_update] at hdues
    exact hdues

theorem phaseOf_inside (h : c.inside = false) : phaseOf (some c) = .out := by
  obtain ⟨outer, pc, own⟩ := c
  cases outer with
  | succ k => cases h
  | zero => cases pc <;> first | rfl | cases h

theorem dueOf_ret {pid : Int} (hpid : pid ≠ 0) (outer : Nat) (own : Option Int) :
    dueOf (some ⟨outer, .ret pid, own⟩) = none := if_neg hpid

theorem libcPid_ne_zero (h : child ≠ some 0) : libcPid child ≠ 0 := by
  cases child with
  | none => decide
  | some q => exact fun hq => h (congrArg some (Int.ofNat_eq_zero.mp hq))

/-- A process no thread of which is in a call. -/
theorem idle_inv : ProcInv (n := n) ⟨false, 0, fun _ => none⟩ where
  regular _ _ hc := by cases hc
  excl := ⟨fun _ _ ha => absurd rfl ha, iff_of_false (by simp) (by rintro ⟨_, ha⟩; cases ha)⟩
  dues := ⟨fun _ _ ha => (by cases ha), fun _ _ ha => absurd rfl ha⟩

/-- Who makes the first test finds the others out. -/
theorem mayTest_out {own : Option Int} (hc : P.calls t = some ⟨0, .test, own⟩)
    (h : P.mayTest t = true) (t' : Fin n) : phaseOf (P.calls t') = .out := by
  by_cases ht : t' = t
  · rw [ht, hc]
    rfl
  · have hothers : ∀ t', t' ≠ t → (P.calls t').all (fun c' => !c'.inside) = true := by
      simpa [Proc.mayTest, hc] using h
    have hall := hothers t' ht
    cases hc' : P.calls t' with
    | none => rfl
    | some c' =>
        rw [hc'] at hall
        exact phaseOf_inside (by simpa using hall)

/-- **A step of a call keeps the invariant.** -/
theorem ProcInv.advance (h : ProcInv P) (hsetup : w.setupForkWrappersCalled = true)
    (hc : P.calls t = some c) (hback : c.back = none)
    (hzero : c.pc = .libcFork → w.libcFork = true → child ≠ some 0)
    (htest : P.mayTest t = true) : ProcInv (P.advance w t child c) := by
  have hphase : (phaseOf ∘ P.calls) t = phaseOf (some c) := congrArg phaseOf hc
  have hdue : (dueOf ∘ P.calls) t = dueOf (some c) := congrArg dueOf hc
  have hreg : ∀ {c' : Call}, Regular c' → ∀ x, some c' = some x → Regular x := by
    rintro c' hc' x ⟨⟩
    exact hc'
  have hraised : phaseOf (some c) = .raised → P.recursive = true := fun hr =>
    h.excl.flag.mpr ⟨t, hphase.trans hr⟩
  unfold Proc.advance Fork.advance
  cases h.regular t c hc with
  | test own =>
      have hout := mayTest_out hc htest
      have hclear : P.recursive = false := by
        rw [← Bool.not_eq_true, h.excl.flag]
        rintro ⟨a, ha⟩
        have hne : phaseOf (P.calls a) = .raised := ha
        rw [hout a] at hne
        cases hne
      simp only [hsetup, hclear, Bool.not_false, Bool.and_true, if_true]
      refine h.replace (hreg (.set own)) ?_ h.dues.drop
      exact hclear ▸ h.excl.enter hout
  | set own => exact h.replace (hreg (.inner own)) (h.excl.raise hphase) h.dues.drop
  | inner own => exact h.replace (hreg (.innerTest own)) (h.excl.same hphase.symm) h.dues.drop
  | innerTest own =>
      simp only [hsetup, hraised rfl, Bool.not_true, Bool.and_false, Bool.false_eq_true, if_false]
      refine h.replace (hreg (.innerLibc own)) ?_ h.dues.drop
      exact hraised rfl ▸ h.excl.same hphase.symm
  | innerLibc own =>
      have hsame : phaseOf (some ⟨1, .libcFork, own⟩) = (phaseOf ∘ P.calls) t := hphase.symm
      dsimp only
      split
      · rename_i hlibc
        have hpid : libcPid child ≠ 0 := libcPid_ne_zero (hzero rfl hlibc)
        refine h.replace (hreg (.innerRet _ _)) (h.excl.same hsame) ?_
        rw [dueOf_ret hpid]
        exact h.dues.drop
      · exact h.replace (hreg (.innerRet _ _)) (h.excl.same hsame) h.dues.drop
  | innerRet pid own =>
      exact h.replace (hreg (.clear pid own)) (h.excl.same hphase.symm) (h.dues.same hdue.symm)
  | clear pid own =>
      exact h.replace (hreg (.init pid own)) (h.excl.lower hphase) (h.dues.same hdue.symm)
  | init pid own =>
      dsimp only
      split
      · exact h.replace (hreg (.ret _ own)) (h.excl.same hphase.symm) h.dues.drop
      · split
        · rename_i hpid
          rw [hpid] at hdue
          exact h.replace (hreg (.ret 0 own)) (h.excl.same hphase.symm) (h.dues.init hdue)
        · rename_i hpid
          refine h.replace (hreg (.ret pid own)) (h.excl.same hphase.symm) ?_
          rw [dueOf_ret hpid]
          exact h.dues.drop
  | ret pid own => cases hback

/-- **The process that is created** has the invariant, with NFP to be initialised. -/
theorem ProcInv.forked (h : ProcInv P) (hc : P.calls t = some c) (hpc : c.pc = .libcFork) :
    ProcInv (P.child t c) := by
  have hphase : (phaseOf ∘ P.calls) t = phaseOf (some c) := congrArg phaseOf hc
  cases h.regular t c hc with
  | innerLibc own =>
      have hflag : P.recursive = true := h.excl.flag.mpr ⟨t, hphase⟩
      have hraised : Excl true (Function.update (fun _ : Fin n => Phase.out) t .raised) := by
        have hset := (idle_inv.excl.enter (t := t) fun _ => rfl).raise (Function.update_self ..)
        rwa [Function.update_idem] at hset
      unfold Proc.child
      rw [hflag]
      refine idle_inv.replace ?_ hraised (Dues.first t)
      rintro c' ⟨⟩
      exact .innerRet 0 (some 0)
  | _ => cases hpc

end ProcInv

/-- **What a run without overlap keeps.** -/
structure Inv (s : State n) : Prop where
  procs : ∀ p P, s.procs p = some P → ProcInv P
  returns : ∀ r ∈ s.returns, r.value = 0 → r.inits = 1

theorem Inv.put {s : State n} (h : Inv s) (p : Nat) {P : Proc n} (hP : ProcInv P) :
    Inv (s.put p P) where
  procs p' P' hP' := by
    rcases put_procs hP' with rfl | hold
    · exact hP
    · exact h.procs p' P' hold
  returns := h.returns

theorem Inv.next {w : Wrapper} {s s' : State n} {l : Label n} (h : Inv s)
    (hsetup : w.setupForkWrappersCalled = true) (halone : Alone s l)
    (hs : next w s l = some s') : Inv s' := by
  cases l with
  | enter p t =>
      obtain ⟨P, hP, hidle, rfl⟩ := next_enter hs
      have hproc := h.procs p P hP
      have hphase : (phaseOf ∘ P.calls) t = .out := congrArg phaseOf hidle
      refine h.put p (hproc.replace ?_ (hproc.excl.same hphase.symm) hproc.dues.drop)
      rintro c ⟨⟩
      exact .test none
  | step p t child =>
      obtain ⟨P, c, hP, hc, hcases⟩ := next_step hs
      have hproc := h.procs p P hP
      have htest : P.mayTest t = true := by
        have hall : (s.procs p).all (·.mayTest t) = true := halone
        rwa [hP] at hall
      rcases hcases with ⟨pid, hback, hprocs, hreturns⟩ | ⟨hback, hlibc, rfl⟩ |
        ⟨q, hback, hpc, -, rfl, hq, rfl⟩
      · cases hproc.regular t c hc with
        | ret pid' own =>
            cases hback
            have hphase : (phaseOf ∘ P.calls) t = .out := congrArg phaseOf hc
            have hdone : Inv (s.put p (P.put t none)) := by
              refine h.put p (hproc.replace ?_ (hproc.excl.same hphase.symm) hproc.dues.drop)
              exact fun _ hc' => by cases hc'
            refine ⟨hprocs ▸ hdone.procs, fun r hr hzero => ?_⟩
            rw [hreturns] at hr
            rcases List.mem_append.mp hr with hr | hr
            · exact h.returns r hr hzero
            · rw [List.mem_singleton.mp hr] at hzero ⊢
              have hdue : (dueOf ∘ P.calls) t = some 1 := by
                rw [Function.comp_apply, hc]
                exact if_pos hzero
              exact hproc.dues.count t 1 hdue
        | _ => cases hback
      · refine h.put p (hproc.advance hsetup hc hback (fun hpc hfound => ?_) htest)
        rw [hlibc hpc hfound]
        exact (Option.some_ne_none 0).symm
      · have hzero : some q ≠ some 0 := fun h => hq (Option.some.inj h)
        have hadvance := hproc.advance hsetup hc hback (fun _ _ => hzero) htest
        exact (h.put p hadvance).put q (hproc.forked hc hpc)

theorem start_inv : Inv (.start n) where
  procs p P hP := by
    rcases @put_procs n ⟨fun _ => none, []⟩ 1 _ P p hP with rfl | hold
    · exact idle_inv
    · cases hold
  returns r hr := by cases hr

/-- **Every child has initialised NFP once when `fork` returns 0 in it**, and every call returns
    what its own libc call returned, as long as no call makes its first test while another call of
    the process is between its own first test and its clearing of the flag. -/
theorem fork_initialises {w : Wrapper} (hsetup : w.setupForkWrappersCalled = true) {s : State n}
    (h : Reach (next w) Alone (.start n) s) :
    ∀ r ∈ s.returns, (r.value = 0 → r.inits = 1) ∧ r.value = r.own.getD (-1) := by
  have hinv : Inv s := h.inv start_inv fun _ _ _ hinv halone hs => hinv.next hsetup halone hs
  exact fun r hr => ⟨hinv.returns r hr, fork_returns_own h.free r hr⟩

/-- Steps of one thread, none of which forks. -/
def steps (p : Nat) (t : Fin 2) (k : Nat) : List (Label 2) := List.replicate k (.step p t none)

/-- One call of a thread, from its start to its return, and the steps of the child. -/
def wholeCall (t : Fin 2) (child : Nat) : List (Label 2) :=
  .enter 1 t :: steps 1 t 4 ++ .step 1 t (some child) :: steps child t 4 ++ steps 1 t 4

/-- Two threads, one after the other. -/
theorem fork_initialises_in_turn :
    ∃ s, Reach (next ⟨true, true⟩) Alone (.start 2) s ∧
      s.returns = [⟨0, some 0, 1⟩, ⟨7, some 7, 0⟩, ⟨0, some 0, 1⟩, ⟨8, some 8, 0⟩] ∧
      ∀ r ∈ s.returns, (r.value = 0 → r.inits = 1) ∧ r.value = r.own.getD (-1) := by
  have hrun : (run (restrict (next ⟨true, true⟩) Alone) (.start 2)
      (wholeCall 0 7 ++ wholeCall 1 8)).any (fun s => decide (s.returns =
        [⟨0, some 0, 1⟩, ⟨7, some 7, 0⟩, ⟨0, some 0, 1⟩, ⟨8, some 8, 0⟩])) = true := by decide
  obtain ⟨s, hs, hreturns⟩ := Reach.of_run_any hrun
  exact ⟨s, hs.of_restrict, of_decide_eq_true hreturns, fork_initialises rfl hs.of_restrict⟩

/-- **A first test made while the flag is set** can end in a child without NFP: the call goes
    straight to libc, and 0 comes back to the program. -/
theorem fork_exposed {w : Wrapper} (hlibc : w.libcFork = true) {s : State n} {p q : Nat}
    {P : Proc n} {t : Fin n} {own : Option Int} (hP : s.procs p = some P)
    (hc : P.calls t = some ⟨0, .test, own⟩) (hflag : P.recursive = true) (hq : q ≠ 0)
    (hfree : s.procs q = none) :
    ∃ s', Reach (next w) anyStep s s' ∧ ⟨0, some 0, 0⟩ ∈ s'.returns := by
  have hpq : q ≠ p := fun h => by
    rw [h, hP] at hfree
    cases hfree
  let c₁ : Call := ⟨0, .libcFork, own⟩
  let P₁ : Proc n := P.put t (some c₁)
  let s₁ : State n := s.put p P₁
  let s₂ : State n := (s₁.put p (P₁.advance w t (some q) c₁)).put q (P₁.child t c₁)
  have hP₁ : s₁.procs p = some P₁ := Function.update_self ..
  have hc₁ : P₁.calls t = some c₁ := Function.update_self ..
  have hfree₁ : s₁.procs q = none := (Function.update_of_ne hpq ..).trans hfree
  have hP₂ : s₂.procs q = some (P₁.child t c₁) := Function.update_self ..
  have hc₂ : (P₁.child t c₁).calls t = some ⟨0, .ret 0, some 0⟩ := by
    simp [Proc.child, c₁]
  have hinits : (P₁.child t c₁).inits = 0 := rfl
  have htest : next w s (.step p t none) = some s₁ := by
    simp [next, hP, hc, Call.back, Proc.advance, advance, hflag, s₁, P₁, c₁, Proc.put]
  have hfork : next w s₁ (.step p t (some q)) = some s₂ := by
    simp [next, hP₁, hc₁, hfree₁, hq, hlibc, Call.back, s₂, c₁]
  have hret : next w s₂ (.step q t none) = some { s₂.put q ((P₁.child t c₁).put t none) with
      returns := s₂.returns ++ [⟨0, some 0, 0⟩] } := by
    simp [next, hP₂, hc₂, Call.back, hinits]
  have hrun : run (next w) s [.step p t none, .step p t (some q), .step q t none] = some _ :=
    (run_cons htest).trans ((run_cons hfork).trans (run_cons hret))
  exact ⟨_, .of_run hrun, List.mem_append_right _ List.mem_cons_self⟩

/-- Two threads: the second tests the flag the first has set, and its child is not initialised; or
    both test before either sets it, the first clears it, and the second calls itself once more, so
    that its child is initialised twice. -/
theorem overlapping_forks_misinitialise :
    (∃ s, Reach (next ⟨true, true⟩) anyStep (.start 2) s ∧ s.returns = [⟨0, some 0, 0⟩]) ∧
      ∃ s, Reach (next ⟨true, true⟩) anyStep (.start 2) s ∧ s.returns = [⟨0, some 0, 2⟩] := by
  have hnone : (run (next ⟨true, true⟩) (.start 2)
      [.enter 1 0, .step 1 0 none, .step 1 0 none, .enter 1 1, .step 1 1 none, .step 1 1 (some 7),
        .step 7 1 none]).any (fun s => decide (s.returns = [⟨0, some 0, 0⟩])) = true := by decide
  have htwice : (run (next ⟨true, true⟩) (.start 2) (.enter 1 0 :: .enter 1 1 :: steps 1 0 1 ++
      steps 1 1 2 ++ steps 1 0 6 ++ steps 1 1 5 ++ .step 1 1 (some 7) :: steps 7 1 7)).any
        (fun s => decide (s.returns = [⟨0, some 0, 2⟩])) = true := by decide +kernel
  obtain ⟨s, hs, hreturns⟩ := Reach.of_run_any hnone
  obtain ⟨s', hs', hreturns'⟩ := Reach.of_run_any htwice
  exact ⟨⟨s, hs, of_decide_eq_true hreturns⟩, s', hs', of_decide_eq_true hreturns'⟩

end Nfp.Netwrap.Fork
