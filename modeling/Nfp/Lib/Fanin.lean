/-
  File:      Nfp/Lib/Fanin.lean
  Subject:   SOURCES EMPTIED BY CONSUMERS. Nothing here names a program.

  Elements arrive at sources, each at the source that `src` names; a consumer takes some of the
  elements that wait at a source. `Fanin` is the state: what waits at each source, all that ever
  arrived there, and what each consumer has taken, in the order it took it.

  * `Fanin.Flow` -- the invariant: of a source it polls, a consumer has exactly what arrived there
    less what still waits, in the order of arrival where `fifo` holds; of any other source it has
    nothing;
  * `Flow.arrive`, `Flow.take` -- the two steps keep it. The second needs that no source is
    polled by two consumers, the only place where that matters, and for the order that the
    elements are taken first in, first out.
-/
import Mathlib.Logic.Function.Basic

namespace Nfp.Lib

variable {ι κ α : Type}

/-- What waits at each source, what ever arrived there, and what each consumer took. -/
structure Fanin (ι κ α : Type) where
  waiting : ι → List α
  arrived : ι → List α
  got : κ → List α

namespace Fanin

variable [DecidableEq ι]

/-- An element arrives at source `i`. -/
def arrive (f : Fanin ι κ α) (i : ι) (x : α) : Fanin ι κ α :=
  { f with
    waiting := Function.update f.waiting i (f.waiting i ++ [x])
    arrived := Function.update f.arrived i (f.arrived i ++ [x]) }

/-- Consumer `k` takes the elements `taken` from source `i`, where `left` stay. -/
def take [DecidableEq κ] (f : Fanin ι κ α) (k : κ) (i : ι) (taken left : List α) : Fanin ι κ α :=
  { f with
    waiting := Function.update f.waiting i left
    got := Function.update f.got k (f.got k ++ taken) }

/-- The elements of a list that came from source `i`. -/
def ofSource (src : α → ι) (i : ι) (xs : List α) : List α := xs.filter fun x => src x = i

section OfSource

variable {src : α → ι} {i i' : ι} {xs : List α}

@[simp] theorem ofSource_nil : ofSource src i [] = [] := rfl

@[simp] theorem ofSource_append (ys : List α) :
    ofSource src i (xs ++ ys) = ofSource src i xs ++ ofSource src i ys :=
  List.filter_append ..

/-- A list from one source, read from that source. -/
theorem ofSource_same (h : ∀ x ∈ xs, src x = i) : ofSource src i xs = xs :=
  List.filter_eq_self.mpr fun x hx => decide_eq_true (h x hx)

/-- A list from one source, read from another. -/
theorem ofSource_other (h : ∀ x ∈ xs, src x = i) (hne : i ≠ i') : ofSource src i' xs = [] :=
  List.filter_eq_nil_iff.mpr fun x hx => by
    rw [decide_eq_true_eq, h x hx]
    exact hne

end OfSource

/-- **Every element is where its source and its order say.** -/
structure Flow (fifo : Prop) (src : α → ι) (polls : κ → ι → Prop) (f : Fanin ι κ α) : Prop where
  /-- what waits at a source came from it -/
  home : ∀ i, ∀ x ∈ f.waiting i, src x = i
  /-- of a source it polls, a consumer took what arrived and does not wait -/
  kept : ∀ k i, polls k i → (ofSource src i (f.got k) ++ f.waiting i).Perm (f.arrived i)
  /-- it took what arrived first, in that order -/
  order : fifo → ∀ k i, polls k i → ofSource src i (f.got k) ++ f.waiting i = f.arrived i
  /-- of any other source it took nothing -/
  foreign : ∀ k i, ¬ polls k i → ofSource src i (f.got k) = []

variable {fifo : Prop} {src : α → ι} {polls : κ → ι → Prop} {f : Fanin ι κ α}

theorem Flow.start : Flow fifo src polls ⟨fun _ => [], fun _ => [], fun _ => []⟩ where
  home _ _ hx := absurd hx List.not_mem_nil
  kept _ _ _ := .refl _
  order _ _ _ _ := rfl
  foreign _ _ _ := rfl

theorem Flow.arrive (h : Flow fifo src polls f) (x : α) :
    Flow fifo src polls (f.arrive (src x) x) where
  home i y hy := by
    by_cases hi : i = src x
    · subst hi
      simp only [Fanin.arrive, Function.update_self, List.mem_append, List.mem_singleton] at hy
      rcases hy with hy | rfl
      · exact h.home _ y hy
      · rfl
    · simp only [Fanin.arrive, Function.update_of_ne hi] at hy
      exact h.home i y hy
  kept k i hp := by
    by_cases hi : i = src x
    · subst hi
      simp only [Fanin.arrive, Function.update_self, ← List.append_assoc]
      exact (h.kept k _ hp).append_right [x]
    · simp only [Fanin.arrive, Function.update_of_ne hi]
      exact h.kept k i hp
  order hf k i hp := by
    by_cases hi : i = src x
    · subst hi
      simp only [Fanin.arrive, Function.update_self, ← h.order hf k _ hp, List.append_assoc]
    · simp only [Fanin.arrive, Function.update_of_ne hi]
      exact h.order hf k i hp
  foreign k i hp := h.foreign k i hp

section Take

variable [DecidableEq κ] {k : κ} {i : ι} {taken left : List α}

/-- What this consumer took is not from another source; the other consumers took nothing. -/
theorem ofSource_take_other (htaken : ∀ x ∈ taken, src x = i) {i' : ι} (hi : i' ≠ i) (k' : κ) :
    ofSource src i' ((f.take k i taken left).got k') = ofSource src i' (f.got k') := by
  by_cases hk : k' = k
  · subst hk
    simp only [Fanin.take, Function.update_self, ofSource_append,
      ofSource_other htaken (Ne.symm hi), List.append_nil]
  · simp only [Fanin.take, Function.update_of_ne hk]

/-- From its own source it has what was taken, behind what it had. -/
theorem ofSource_take_same (htaken : ∀ x ∈ taken, src x = i) :
    ofSource src i ((f.take k i taken left).got k) = ofSource src i (f.got k) ++ taken := by
  simp only [Fanin.take, Function.update_self, ofSource_append, ofSource_same htaken]

/-- **Taking from a source only this consumer polls.** -/
theorem Flow.take (h : Flow fifo src polls f) (hp : polls k i)
    (halone : ∀ k', polls k' i → k' = k) (hkeeps : (taken ++ left).Perm (f.waiting i))
    (hline : fifo → taken ++ left = f.waiting i) :
    Flow fifo src polls (f.take k i taken left) := by
  have hhome : ∀ x ∈ taken ++ left, src x = i := fun x hx => h.home i x (hkeeps.mem_iff.mp hx)
  have htaken : ∀ x ∈ taken, src x = i := fun x hx => hhome x (List.mem_append_left _ hx)
  have hhere : (f.take k i taken left).waiting i = left := Function.update_self ..
  have hthere : ∀ i', i' ≠ i → (f.take k i taken left).waiting i' = f.waiting i' :=
    fun i' hi => Function.update_of_ne hi ..
  refine ⟨fun i' x hx => ?_, fun k' i' hp' => ?_, fun hf k' i' hp' => ?_, fun k' i' hp' => ?_⟩
  · by_cases hi : i' = i
    · subst hi
      rw [hhere] at hx
      exact hhome x (List.mem_append_right _ hx)
    · rw [hthere i' hi] at hx
      exact h.home i' x hx
  · by_cases hi : i' = i
    · subst hi
      obtain rfl := halone k' hp'
      rw [hhere, ofSource_take_same htaken, List.append_assoc]
      exact (hkeeps.append_left _).trans (h.kept k' i' hp')
    · rw [hthere i' hi, ofSource_take_other htaken hi]
      exact h.kept k' i' hp'
  · by_cases hi : i' = i
    · subst hi
      obtain rfl := halone k' hp'
      rw [hhere, ofSource_take_same htaken, List.append_assoc, hline hf]
      exact h.order hf k' i' hp'
    · rw [hthere i' hi, ofSource_take_other htaken hi]
      exact h.order hf k' i' hp'
  · by_cases hk : k' = k
    · subst hk
      have hi : i' ≠ i := fun e => hp' (e ▸ hp)
      rw [ofSource_take_other htaken hi]
      exact h.foreign k' i' hp'
    · simp only [Fanin.take, Function.update_of_ne hk]
      exact h.foreign k' i' hp'

end Take

end Fanin

end Nfp.Lib
