/-
  File:      Nfp/Lib/Command.lean
  Subject:   COMMANDS THAT ACT AND ASK, and rules of pre- and postconditions for them. Nothing here
             names a program.

  A command does actions, asks its environment for numbers and returns a value. What an action does
  is a function `step` on the states of whoever watches; the answers are a list, zero once it is
  used up.

  * `Cmd.run` -- a command run on a state with a list of answers;
  * `Cmd.wp` -- the weakest precondition: what has to hold before the command for a postcondition
    to hold after it, whatever the answers; `wp_iff` -- it is exactly that;
  * `wp_bind`, `wp_perform`, `wp_answer`, `wp_fails` -- the rules, one for each way to build a
    command; they are `simp` lemmas, so that the precondition of a concrete command computes;
  * `Cmd.times`, `wp_times` -- a bounded loop that may stop early, and its invariant rule.
-/
import Mathlib.Logic.Basic

namespace Nfp.Lib

/-- A command over actions `α` that returns a `β`. -/
inductive Cmd (α β : Type) where
  | ret (b : β)
  | act (a : α) (rest : Cmd α β)
  | ask (rest : Nat → Cmd α β)

namespace Cmd

variable {α β γ σ : Type}

/-- One command, then another that depends on its result. -/
def andThen : Cmd α β → (β → Cmd α γ) → Cmd α γ
  | .ret b, f => f b
  | .act a rest, f => .act a (rest.andThen f)
  | .ask rest, f => .ask fun n => (rest n).andThen f

instance : Monad (Cmd α) where
  pure := .ret
  bind := andThen

/-- One action. -/
def perform (a : α) : Cmd α Unit := .act a (.ret ())

/-- The answer to a question. -/
def answer : Cmd α Nat := .ask .ret

/-- A call that fails or not, by its result: zero is success. -/
def fails : Cmd α Bool := .ask fun n => .ret (n != 0)

/-- The end of a command: the state, the result and the answers not used. -/
structure End (σ β : Type) where
  state : σ
  result : β
  left : List Nat

/-- **A command run** on a state with a list of answers. -/
def run (step : σ → α → σ) : Cmd α β → σ → List Nat → End σ β
  | .ret b, s, answers => ⟨s, b, answers⟩
  | .act a rest, s, answers => run step rest (step s a) answers
  | .ask rest, s, [] => run step (rest 0) s []
  | .ask rest, s, n :: answers => run step (rest n) s answers

/-- **The weakest precondition.** -/
def wp (step : σ → α → σ) (P : σ → β → Prop) : Cmd α β → σ → Prop
  | .ret b, s => P s b
  | .act a rest, s => wp step P rest (step s a)
  | .ask rest, s => ∀ n, wp step P (rest n) s

section Rules

variable {step : σ → α → σ} {P Q : σ → β → Prop} {s : σ}

/-- **What it says**: whatever the answers, the command ends in the postcondition. -/
theorem wp_iff (c : Cmd α β) :
    wp step P c s ↔ ∀ answers, P (run step c s answers).state (run step c s answers).result := by
  induction c generalizing s with
  | ret b => exact ⟨fun h _ => h, fun h => h []⟩
  | act a rest ih => exact ih
  | ask rest ih =>
      constructor
      · intro h answers
        cases answers with
        | nil => exact (ih 0).mp (h 0) []
        | cons n answers => exact (ih n).mp (h n) answers
      · exact fun h n => (ih n).mpr fun answers => h (n :: answers)

theorem wp_mono (hPQ : ∀ s b, P s b → Q s b) {c : Cmd α β} (h : wp step P c s) :
    wp step Q c s := by
  induction c generalizing s with
  | ret b => exact hPQ s b h
  | act a rest ih => exact ih h
  | ask rest ih => exact fun n => ih n (h n)

@[simp] theorem wp_pure (b : β) : wp step P (pure b) s ↔ P s b := Iff.rfl

@[simp] theorem wp_bind {R : σ → γ → Prop} (c : Cmd α β) (f : β → Cmd α γ) :
    wp step R (c >>= f) s ↔ wp step (fun s b => wp step R (f b) s) c s := by
  show wp step R (c.andThen f) s ↔ _
  induction c generalizing s with
  | ret b => exact Iff.rfl
  | act a rest ih => exact ih
  | ask rest ih => exact forall_congr' fun n => ih n

@[simp] theorem wp_perform {R : σ → Unit → Prop} (a : α) :
    wp step R (perform a) s ↔ R (step s a) () := Iff.rfl

@[simp] theorem wp_answer {R : σ → Nat → Prop} :
    wp step R (answer : Cmd α Nat) s ↔ ∀ n, R s n := Iff.rfl

@[simp] theorem wp_fails {R : σ → Bool → Prop} :
    wp step R (fails : Cmd α Bool) s ↔ R s false ∧ R s true := by
  constructor
  · exact fun h => ⟨h 0, h 1⟩
  · intro h n
    cases n with
    | zero => exact h.1
    | succ n => exact h.2

@[simp] theorem wp_ite (p : Prop) [Decidable p] (c d : Cmd α β) :
    wp step P (if p then c else d) s ↔ if p then wp step P c s else wp step P d s := by
  split <;> exact Iff.rfl

end Rules

/-! ## Bounded loops -/

/-- `for (i = first; i < first + n; i++)` over a body that may end the loop with a result. -/
def times (body : Nat → Cmd α (Option β)) : Nat → Nat → Cmd α (Option β)
  | _, 0 => pure none
  | first, n + 1 => do
      match ← body first with
      | some b => pure (some b)
      | none => times body (first + 1) n

/-- **The invariant rule**: `I i` holds before pass `i`; a pass that ends the loop ends it in the
    postcondition, and so does the last one. -/
theorem wp_times {step : σ → α → σ} {R : σ → Option β → Prop} (I : Nat → σ → Prop)
    {body : Nat → Cmd α (Option β)} (n first : Nat)
    (hbody : ∀ i, first ≤ i → i < first + n → ∀ s, I i s →
      wp step (fun s r => match r with
        | none => I (i + 1) s
        | some b => R s (some b)) (body i) s)
    (hend : ∀ s, I (first + n) s → R s none) {s : σ} (h : I first s) :
    wp step R (times body first n) s := by
  induction n generalizing first s with
  | zero => exact hend s h
  | succ n ih =>
      have hfirst := hbody first (Nat.le_refl _) (by omega) s h
      rw [times, wp_bind]
      refine wp_mono (fun s' r hr => ?_) hfirst
      cases r with
      | some b => exact hr
      | none =>
          refine ih (first + 1) (fun i hi hlt s hs => hbody i (by omega) (by omega) s hs)
            (fun s hs => hend s ?_) hr
          rwa [show first + (n + 1) = first + 1 + n by omega]

end Cmd

end Nfp.Lib
