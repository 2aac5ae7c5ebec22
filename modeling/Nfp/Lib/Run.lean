/-
  File:      Nfp/Lib/Run.lean
  Subject:   RUNS OF A LABELLED MACHINE. Nothing here names a program: a machine is a partial
             step function `next : σ → α → Option σ` (the label carries the caller's arguments
             and the answers of whatever the machine calls), `none` where the label cannot
             happen in the state.

  * `Reach next ok s₀` -- the states reached from `s₀` by steps that meet `ok`; a run without a
    condition takes `ok := anyStep`;
  * `Reach.inv` -- the induction over a run, once: a property of the start that every admitted
    step keeps holds in every state reached;
  * `Reach.mono` -- a run under one condition is a run under another that the first implies on
    the states an invariant describes;
  * `run`, `Reach.of_run` -- an explicit list of labels, evaluated; what it reaches is reached;
  * `restrict`, `Reach.of_restrict` -- the same under a condition: the machine that refuses the
    steps which do not meet it;
  * `Admitted`, `run_simulates`, `run_refines` -- a machine below an abstract one: where the
    abstract one admits each label, the run below does not fail and ends in a state related to
    the abstract one; a machine whose loops need fuel has enough from some amount on.
-/
import Mathlib.Logic.Basic

namespace Nfp.Lib

variable {σ α : Type}

/-- **The states reached** from `s₀` by steps of `next` whose label meets `ok` in the state
    before the step. -/
inductive Reach (next : σ → α → Option σ) (ok : σ → α → Prop) (s₀ : σ) : σ → Prop where
  | start : Reach next ok s₀ s₀
  | step (s s' : σ) (a : α) (h : Reach next ok s₀ s) (hok : ok s a) (hs : next s a = some s') :
      Reach next ok s₀ s'

/-- The condition that admits every step. -/
def anyStep : σ → α → Prop := fun _ _ => True

section Reach

variable {next : σ → α → Option σ} {ok ok' : σ → α → Prop} {s₀ s s' : σ}

/-- **The invariant rule**: what holds at the start and is kept by every admitted step holds in
    every state reached. -/
theorem Reach.inv {I : σ → Prop} (h0 : I s₀)
    (hstep : ∀ s a s', I s → ok s a → next s a = some s' → I s')
    (h : Reach next ok s₀ s) : I s := by
  induction h with
  | start => exact h0
  | step s s' a _ hok hs ih => exact hstep s a s' ih hok hs

/-- **Changing the condition**: on states an invariant describes, a condition that implies
    another one admits no more runs. -/
theorem Reach.mono {I : σ → Prop} (h0 : I s₀)
    (hstep : ∀ s a s', I s → ok s a → next s a = some s' → I s')
    (himp : ∀ s a, I s → ok s a → ok' s a)
    (h : Reach next ok s₀ s) : Reach next ok' s₀ s := by
  induction h with
  | start => exact .start
  | step s s' a hr hok hs ih =>
      have hI : I s := hr.inv h0 hstep
      exact .step s s' a ih (himp s a hI hok) hs

/-- Dropping the condition. -/
theorem Reach.free (h : Reach next ok s₀ s) : Reach next anyStep s₀ s :=
  h.mono (I := fun _ => True) trivial (fun _ _ _ _ _ _ => trivial) (fun _ _ _ _ => trivial)

/-- The machine that refuses the steps which do not meet `ok`. -/
def restrict (next : σ → α → Option σ) (ok : σ → α → Prop) [∀ s a, Decidable (ok s a)] (s : σ)
    (a : α) : Option σ :=
  if ok s a then next s a else none

/-- A run of the restricted machine is a run whose steps meet the condition. -/
theorem Reach.of_restrict [∀ s a, Decidable (ok s a)]
    (h : Reach (restrict next ok) anyStep s₀ s) : Reach next ok s₀ s := by
  induction h with
  | start => exact .start
  | step t t' a _ _ hs ih =>
      unfold restrict at hs
      split at hs
      · rename_i hok
        exact .step t t' a ih hok hs
      · cases hs

/-- A run continued by a run. -/
theorem Reach.trans (h : Reach next ok s₀ s) (h' : Reach next ok s s') : Reach next ok s₀ s' := by
  induction h' with
  | start => exact h
  | step t t' a _ hok hs ih => exact .step t t' a ih hok hs

end Reach

/-- An explicit list of labels, taken one after the other. -/
def run (next : σ → α → Option σ) : σ → List α → Option σ
  | s, [] => some s
  | s, a :: as => (next s a).bind fun s' => run next s' as

section Run

variable {next : σ → α → Option σ}

@[simp] theorem run_nil (s : σ) : run next s [] = some s := rfl

theorem run_cons {s s' : σ} {a : α} {as : List α} (h : next s a = some s') :
    run next s (a :: as) = run next s' as := by
  simp only [run, h, Option.bind_some]

/-- What an explicit list of labels reaches is reached. -/
theorem Reach.of_run {s s' : σ} {as : List α} (h : run next s as = some s') :
    Reach next anyStep s s' := by
  induction as generalizing s with
  | nil =>
      simp only [run_nil, Option.some.injEq] at h
      subst h
      exact .start
  | cons a as ih =>
      cases hn : next s a with
      | none => simp [run, hn] at h
      | some t =>
          rw [run_cons hn] at h
          have h1 : Reach next anyStep s t := .step s t a .start trivial hn
          exact h1.trans (ih h)

/-- An explicit list of labels ends in a state that passes the test `p`: such a state is
    reached. -/
theorem Reach.of_run_any {s : σ} {as : List α} {p : σ → Bool}
    (h : (run next s as).any p = true) : ∃ s', Reach next anyStep s s' ∧ p s' = true := by
  cases hr : run next s as with
  | none => rw [hr] at h; cases h
  | some s' =>
      rw [hr] at h
      exact ⟨s', .of_run hr, h⟩

/-- **The invariant rule for a list of labels**: what the admitted labels keep holds at its end. -/
theorem run_inv {I : σ → Prop} {ok : α → Prop}
    (hstep : ∀ s a s', I s → ok a → next s a = some s' → I s') {s s' : σ} {as : List α}
    (hs : I s) (hok : ∀ a ∈ as, ok a) (h : run next s as = some s') : I s' := by
  induction as generalizing s with
  | nil =>
      cases h
      exact hs
  | cons a as ih =>
      obtain ⟨t, ht, hrest⟩ := Option.bind_eq_some_iff.mp h
      exact ih (hstep s a t hs (hok a List.mem_cons_self) ht)
        (fun b hb => hok b (List.mem_cons_of_mem _ hb)) hrest

/-- **The variant rule**: where each admitted label takes something off `rank`, a list of them is no
    longer than what is taken off. -/
theorem run_length_le {I : σ → Prop} {ok : α → Prop} {rank : σ → Nat}
    (hstep : ∀ s a s', I s → ok a → next s a = some s' → I s' ∧ rank s' < rank s) {s s' : σ}
    {as : List α} (hs : I s) (hok : ∀ a ∈ as, ok a) (h : run next s as = some s') :
    as.length + rank s' ≤ rank s := by
  induction as generalizing s with
  | nil =>
      cases h
      exact Nat.le_of_eq (Nat.zero_add _)
  | cons a as ih =>
      obtain ⟨t, ht, hrest⟩ := Option.bind_eq_some_iff.mp h
      obtain ⟨hI, hless⟩ := hstep s a t hs (hok a List.mem_cons_self) ht
      have hle := ih hI (fun b hb => hok b (List.mem_cons_of_mem _ hb)) hrest
      rw [List.length_cons]
      omega

end Run

/-! ## Refinement -/

section Refine

variable {μ : Type} {exec : Nat → σ → α → Option σ} {apply : μ → α → μ} {ok : μ → α → Prop}
  {R : σ → μ → Prop}

/-- Every label of a list is admitted by the abstract machine where it stands. -/
def Admitted (apply : μ → α → μ) (ok : μ → α → Prop) : μ → List α → Prop
  | _, [] => True
  | q, a :: as => ok q a ∧ Admitted apply ok (apply q a) as

/-- **From steps to runs**: if each admitted step can be taken below and keeps the relation, so can
    each admitted run. -/
theorem run_simulates {next : σ → α → Option σ}
    (hstep : ∀ q a, ok q a → ∀ s, R s q → ∃ s', next s a = some s' ∧ R s' (apply q a))
    (as : List α) (q : μ) (h : Admitted apply ok q as) (s : σ) (hs : R s q) :
    ∃ s', run next s as = some s' ∧ R s' (as.foldl apply q) := by
  induction as generalizing q s with
  | nil => exact ⟨s, rfl, hs⟩
  | cons a as ih =>
      obtain ⟨t, ht, hR⟩ := hstep q a h.1 s hs
      obtain ⟨s', hs', hR'⟩ := ih (apply q a) h.2 t hR
      exact ⟨s', by rw [run_cons ht]; exact hs', hR'⟩

/-- **The same with fuel**: if each admitted step can be taken below once there is enough, so can
    each admitted run. -/
theorem run_refines
    (hstep : ∀ q a, ok q a → ∃ N, ∀ n, N ≤ n → ∀ s, R s q →
      ∃ s', exec n s a = some s' ∧ R s' (apply q a))
    (as : List α) (q : μ) (h : Admitted apply ok q as) :
    ∃ N, ∀ n, N ≤ n → ∀ s, R s q →
      ∃ s', run (exec n) s as = some s' ∧ R s' (as.foldl apply q) := by
  induction as generalizing q with
  | nil => exact ⟨0, fun _ _ s hs => ⟨s, rfl, hs⟩⟩
  | cons a as ih =>
      obtain ⟨N₁, h1⟩ := hstep q a h.1
      obtain ⟨N₂, h2⟩ := ih (apply q a) h.2
      refine ⟨max N₁ N₂, fun n hn s hs => ?_⟩
      obtain ⟨t, ht, hR⟩ := h1 n (Nat.le_trans (Nat.le_max_left _ _) hn) s hs
      obtain ⟨s', hs', hR'⟩ := h2 n (Nat.le_trans (Nat.le_max_right _ _) hn) t hR
      exact ⟨s', by rw [run_cons ht]; exact hs', hR'⟩

end Refine

end Nfp.Lib
