/-
  File:      Nfp/Queue/Traverse.lean
  Subject:   THE _SAFE LOOPS of nfp_queue.h: the current element may be removed and its memory
             reused inside the loop.

  A FOREACH_SAFE loop reads the next element before its body runs. The body here removes the
  elements that `p` names with the REMOVE of the kind and then overwrites them (`free`, reuse):
  that is what the second loop variable is for.

  * `Loop` -- the five loops: one for each kind of list, and the one from the back;
  * `removing` -- the body;
  * **`foreachSafe_removes`** -- each loop ends, has removed exactly what `p` names, and leaves the
    rest in its order and every other list alone.
-/
import Nfp.Queue.Tailq
import Nfp.Queue.Stailq

namespace Nfp.Queue

open Nfp.Lib

variable {H E : Type} [DecidableEq H] [DecidableEq E]

/-! ## 1. The loops -/

/-- `NFP_SLIST_FOREACH_SAFE`. -/
def nfpSlistForeachSafe (body : E → Cells H E → Option (Cells H E)) (n : Nat) (m : Cells H E)
    (h : H) : Option (Cells H E) :=
  forEachSafe (fun m x => some (nfpSlistNext m x)) body n (nfpSlistFirst m h) m

/-- `NFP_STAILQ_FOREACH_SAFE`. -/
def nfpStailqForeachSafe (body : E → Cells H E → Option (Cells H E)) (n : Nat) (m : Cells H E)
    (h : H) : Option (Cells H E) :=
  forEachSafe (fun m x => some (nfpStailqNext m x)) body n (nfpStailqFirst m h) m

/-- `NFP_LIST_FOREACH_SAFE`. -/
def nfpListForeachSafe (body : E → Cells H E → Option (Cells H E)) (n : Nat) (m : Cells H E)
    (h : H) : Option (Cells H E) :=
  forEachSafe (fun m x => some (nfpListNext m x)) body n (nfpListFirst m h) m

/-- `NFP_TAILQ_FOREACH_SAFE`. -/
def nfpTailqForeachSafe (body : E → Cells H E → Option (Cells H E)) (n : Nat) (m : Cells H E)
    (h : H) : Option (Cells H E) :=
  forEachSafe (fun m x => some (nfpTailqNext m x)) body n (nfpTailqFirst m h) m

/-- `NFP_TAILQ_FOREACH_REVERSE_SAFE`. -/
def nfpTailqForeachReverseSafe (body : E → Cells H E → Option (Cells H E)) (n : Nat)
    (m : Cells H E) (h : H) : Option (Cells H E) := do
  let last ← nfpTailqLast m h
  forEachSafe nfpTailqPrev body n last m

/-- The five loops. -/
inductive Loop where
  | slist
  | stailq
  | list
  | tailq
  | tailqReverse
  deriving DecidableEq, Repr

namespace Loop

/-- The kind of list a loop goes over. -/
def kind : Loop → Hanging H E
  | slist => Queue.slist
  | stailq => Queue.stailq
  | list => dlist
  | tailq => Queue.tailq
  | tailqReverse => Queue.tailq

/-- The macro that takes an element out (`n` rounds for the search of the singly-linked ones). -/
def remove (inv : Bool) (n : Nat) (h : H) (x : E) (m : Cells H E) : Loop → Option (Cells H E)
  | slist => nfpSlistRemove n m h x
  | stailq => nfpStailqRemove n m h x
  | list => nfpListRemove inv m x
  | tailq => nfpTailqRemove inv m h x
  | tailqReverse => nfpTailqRemove inv m h x

/-- The loop. -/
def foreachSafe (body : E → Cells H E → Option (Cells H E)) (n : Nat) (m : Cells H E) (h : H) :
    Loop → Option (Cells H E)
  | slist => nfpSlistForeachSafe body n m h
  | stailq => nfpStailqForeachSafe body n m h
  | list => nfpListForeachSafe body n m h
  | tailq => nfpTailqForeachSafe body n m h
  | tailqReverse => nfpTailqForeachReverseSafe body n m h

end Loop

/-- The body: remove what `p` names, then overwrite both its pointers with `junk`. -/
def removing (remove : E → Cells H E → Option (Cells H E)) (p : E → Bool)
    (junk : E → Option E × Option (Slot H E)) (x : E) (m : Cells H E) : Option (Cells H E) :=
  if p x then do
    let m ← remove x m
    let m := m.setFst (.elem x) (junk x).1
    some (m.setSnd (.elem x) (junk x).2)
  else some m

/-! ## 2. The body and the step -/

section Body

variable {m : Cells H E} {qs : Lists H E} {h : H} {x : E} {xs : List E}

/-- An element that was taken out is in no list. -/
theorem unused_erase {K : Hanging H E} (hr : Represents K m qs) (hq : qs h = some xs)
    (hx : x ∈ xs) : Unused (Function.update qs h (some (xs.erase x))) x := by
  intro k ys hk
  by_cases hkh : k = h
  · rw [hkh, Function.update_self] at hk
    cases hk
    exact (K.nodup (hr.hangs h xs hq)).not_mem_erase
  · rw [Function.update_of_ne hkh] at hk
    exact hr.apart h k xs ys (Ne.symm hkh) hq hk x hx

/-- **The body filters**, whatever is written into the removed elements. -/
theorem filters_removing {K : Hanging H E} {k : Nat} {remove : E → Cells H E → Option (Cells H E)}
    (hrem : ∀ (m : Cells H E) (qs : Lists H E) (xs : List E) (x : E), Represents K m qs →
      qs h = some xs → xs.length ≤ k → x ∈ xs → ∃ m', remove x m = some m' ∧
        Represents K m' (Function.update qs h (some (xs.erase x))))
    (p : E → Bool) (junk : E → Option E × Option (Slot H E)) :
    Filters K h k p (removing remove p junk) := by
  intro m qs xs x hr hq hlen hx
  by_cases hp : p x = true
  · obtain ⟨m₁, hm₁, hr₁⟩ := hrem m qs xs x hr hq hlen hx
    refine ⟨(m₁.setFst (.elem x) (junk x).1).setSnd (.elem x) (junk x).2, ?_, ?_⟩
    · rw [removing, if_pos hp, hm₁]
      rfl
    · rw [if_pos hp]
      have hown : Own ([] : List H) [x] (.elem x) := own_elem List.mem_cons_self
      exact hr₁.unused (unused_erase hr hq hx)
        (((m₁.within_refl _).setFst hown _).setSnd hown _)
  · refine ⟨m, if_neg hp, ?_⟩
    rw [if_neg hp, ← hq, Function.update_eq_self]
    exact hr

/-- Each REMOVE takes out the element it names. -/
theorem Loop.remove_represents (l : Loop) (inv : Bool) {n : Nat} (hr : Represents l.kind m qs)
    (hq : qs h = some xs) (hlen : xs.length ≤ n) (hx : x ∈ xs) :
    ∃ m', l.remove inv n h x m = some m' ∧
      Represents l.kind m' (Function.update qs h (some (xs.erase x))) := by
  obtain ⟨as, bs, rfl, hxa, -⟩ := split_at hx (l.kind.nodup (hr.hangs h xs hq))
  rw [erase_split hxa]
  have hn : as.length ≤ n := by rw [List.length_append] at hlen; omega
  cases l with
  | slist => exact ⟨_, nfpSlistRemove_eq (hr.hangs h _ hq) hn, represents_removeFst as hr hq⟩
  | stailq => exact nfpStailqRemove_represents as hr hq hn
  | list => exact nfpListRemove_represents inv hr hq
  | tailq => exact nfpTailqRemove_represents inv hr hq
  | tailqReverse => exact nfpTailqRemove_represents inv hr hq

omit [DecidableEq H] [DecidableEq E] in
theorem walks_fst (K : Hanging H E) (h : H) :
    Walks K h .forward fun m x => some (m.fst (.elem x)) :=
  fun _ _ _ _ hk => congrArg some (next_hung (K.hung hk))

/-- **Removal inside the loop.** Each of the five loops runs to its end although its body removes
    elements and overwrites them; what is left of the list is what `p` does not name, in its
    order, and no other list changes. -/
theorem foreachSafe_removes (l : Loop) (inv : Bool) (p : E → Bool)
    (junk : E → Option E × Option (Slot H E)) {n : Nat} (hr : Represents l.kind m qs)
    (hq : qs h = some xs) (hn : xs.length ≤ n) :
    ∃ m', l.foreachSafe (removing (fun x m => l.remove inv n h x m) p junk) n m h = some m' ∧
      Represents l.kind m' (Function.update qs h (some (xs.filter fun x => !p x))) := by
  have hb : Filters l.kind h n p (removing (fun x m => l.remove inv n h x m) p junk) :=
    filters_removing (fun m qs xs x hr hq hlen hx => l.remove_represents inv hr hq hlen hx) p junk
  have hfirst : m.fst (.head h) = xs.head? :=
    (l.kind.hung (hr.hangs h xs hq)).first.trans Option.or_none
  have hforward := forEachSafe_filters (walks_fst l.kind h) hb hr hq hn hn
  rw [Dir.order, ← hfirst] at hforward
  cases l with
  | slist => exact hforward
  | stailq => exact hforward
  | list => exact hforward
  | tailq => exact hforward
  | tailqReverse =>
      have hlast : nfpTailqLast m h = some (Dir.backward.order xs).head? := by
        rw [nfpTailqLast_hangs (hr.hangs h xs hq), Dir.order, List.head?_reverse]
      have hw : Walks (tailq : Hanging H E) h .backward nfpTailqPrev :=
        fun _ _ _ _ hk => nfpTailqPrev_walks hk
      rw [Loop.foreachSafe, nfpTailqForeachReverseSafe, hlast]
      exact forEachSafe_filters hw hb hr hq hn hn

end Body

/-- A tail queue with the elements 1, 2 and 3. -/
def threeQueued : Cells Unit Nat where
  fst
    | .head () => some 1
    | .elem 1 => some 2
    | .elem 2 => some 3
    | .elem _ => none
  snd
    | .head () => some (.elem 3)
    | .elem 1 => some (.head ())
    | .elem 2 => some (.elem 1)
    | .elem _ => some (.elem 2)

theorem foreachSafe_removes_three :
    ∃ m', Loop.tailqReverse.foreachSafe (removing (fun x m => Loop.tailqReverse.remove true 3 () x m)
      (· != 2) fun _ => (some 9, none)) 3 threeQueued () = some m' ∧
      Represents tailq m' (Function.update (fun _ => some [1, 2, 3]) () (some [2])) := by
  have hr : Represents tailq threeQueued fun _ => some [1, 2, 3] := by
    refine ⟨fun h xs hq => ?_, fun h h' _ _ hne => absurd rfl hne⟩
    cases hq
    show TailqHangs threeQueued h [1, 2, 3]
    exact ⟨⟨⟨rfl, rfl, rfl, rfl, trivial⟩, rfl, rfl, rfl, trivial⟩, rfl⟩
  exact foreachSafe_removes .tailqReverse true (· != 2) (fun _ => (some 9, none)) hr rfl
    (Nat.le_refl 3)

end Nfp.Queue
