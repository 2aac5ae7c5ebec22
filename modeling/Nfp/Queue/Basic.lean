/-
  File:      Nfp/Queue/Basic.lean
  Subject:   THE LISTS OF include/api/nfp_queue.h: what they are for, and what the four kinds
             share.

  The header has singly-linked lists (SLIST), singly-linked tail queues (STAILQ), lists (LIST)
  and tail queues (TAILQ), all as macros over a structure with one or two pointers: a head
  (`first`, and for the tail queues `last`) and the entry inside each element (`next`, and for
  the two doubly linked kinds `prev`). A pointer to a pointer (`last`, `prev`) is the address of
  a `first` or of a `next`. Memory is therefore `Nfp.Lib.Cells`: `fst` is `first` or `next`,
  `snd` is `last` or `prev`.

  * `Lists` -- what a user of the header has in mind: for each head the list of its elements;
    `insertAfter`, `insertBefore`, `removeAfter` are the operations on them, `modify` changes the
    list of one head, `everywhere` the one list that an element is in;
  * `forEach_hung` -- the loop of the FOREACH macros visits the list that hangs on a head;
  * `forEachSafe` -- the loop of the FOREACH_SAFE macros around any body, `forEachSafe_filters`:
    a body that takes the current element out (and may then overwrite it) leaves the rest.

  The checks of a build with INVARIANTS are modelled (`assertCheck`: a failed one ends the run);
  the traces of NFP_QUEUE_MACRO_DEBUG are not: by default their macros are empty.
-/
import Nfp.Lib.Chain
import Nfp.Lib.Run

namespace Nfp.Queue

open Nfp.Lib

variable {H E : Type} [DecidableEq H] [DecidableEq E]

/-! ## 1. Lists of elements -/

/-- The lists of the heads in use. -/
abbrev Lists (H E : Type) := H → Option (List E)

/-- Put `e` behind `x`. -/
def insertAfter (x e : E) : List E → List E
  | [] => []
  | y :: ys => if y = x then y :: e :: ys else y :: insertAfter x e ys

/-- Put `e` in front of `x`. -/
def insertBefore (x e : E) : List E → List E
  | [] => []
  | y :: ys => if y = x then e :: y :: ys else y :: insertBefore x e ys

/-- Take out the element behind `x`. -/
def removeAfter (x : E) : List E → List E
  | [] => []
  | y :: ys => if y = x then y :: ys.tail else y :: removeAfter x ys

/-- Change the list of one head. -/
def Lists.modify (qs : Lists H E) (h : H) (f : List E → List E) : Lists H E :=
  Function.update qs h ((qs h).map f)

/-- Change the lists of all heads: where the operation names an element and no head. -/
def Lists.everywhere (qs : Lists H E) (f : List E → List E) : Lists H E := fun h => (qs h).map f

/-- `panic` where a check fails, in a build with INVARIANTS. -/
def assertCheck (inv ok : Bool) : Option Unit := if inv && !ok then none else some ()

@[simp] theorem assertCheck_true (inv : Bool) : assertCheck inv true = some () := by
  simp [assertCheck]

section Split

variable {x e y : E} {as bs : List E}

theorem insertAfter_of_not_mem {xs : List E} (hx : x ∉ xs) : insertAfter x e xs = xs := by
  induction xs with
  | nil => rfl
  | cons a xs ih =>
      have ha : a ≠ x := fun h => hx (h ▸ List.mem_cons_self)
      rw [insertAfter, if_neg ha, ih fun h => hx (List.mem_cons_of_mem _ h)]

theorem insertBefore_of_not_mem {xs : List E} (hx : x ∉ xs) : insertBefore x e xs = xs := by
  induction xs with
  | nil => rfl
  | cons a xs ih =>
      have ha : a ≠ x := fun h => hx (h ▸ List.mem_cons_self)
      rw [insertBefore, if_neg ha, ih fun h => hx (List.mem_cons_of_mem _ h)]

theorem insertAfter_split (hx : x ∉ as) :
    insertAfter x e (as ++ x :: bs) = as ++ x :: e :: bs := by
  induction as with
  | nil => exact if_pos rfl
  | cons a as ih =>
      have ha : a ≠ x := fun h => hx (h ▸ List.mem_cons_self)
      rw [List.cons_append, insertAfter, if_neg ha, ih fun h => hx (List.mem_cons_of_mem _ h)]
      rfl

theorem insertBefore_split (hx : x ∉ as) :
    insertBefore x e (as ++ x :: bs) = as ++ e :: x :: bs := by
  induction as with
  | nil => exact if_pos rfl
  | cons a as ih =>
      have ha : a ≠ x := fun h => hx (h ▸ List.mem_cons_self)
      rw [List.cons_append, insertBefore, if_neg ha, ih fun h => hx (List.mem_cons_of_mem _ h)]
      rfl

theorem removeAfter_split (hx : x ∉ as) :
    removeAfter x (as ++ x :: y :: bs) = as ++ x :: bs := by
  induction as with
  | nil => exact if_pos rfl
  | cons a as ih =>
      have ha : a ≠ x := fun h => hx (h ▸ List.mem_cons_self)
      rw [List.cons_append, removeAfter, if_neg ha, ih fun h => hx (List.mem_cons_of_mem _ h)]
      rfl

theorem erase_split (hx : x ∉ as) : (as ++ x :: bs).erase x = as ++ bs := by
  rw [List.erase_append_right _ hx, List.erase_cons_head]

omit [DecidableEq E] in
theorem modify_some {qs : Lists H E} {h : H} {xs : List E} (hq : qs h = some xs)
    (f : List E → List E) : qs.modify h f = Function.update qs h (some (f xs)) := by
  rw [Lists.modify, hq]
  rfl

omit [DecidableEq E] in
/-- An operation that names an element changes the list the element is in. -/
theorem everywhere_some {K : Hanging H E} {m : Cells H E} {qs : Lists H E} {h : H} {xs : List E}
    {f : List E → List E} (hr : Represents K m qs) (hq : qs h = some xs) (hx : x ∈ xs)
    (hf : ∀ ys, x ∉ ys → f ys = ys) :
    qs.everywhere f = Function.update qs h (some (f xs)) := by
  funext k
  by_cases hk : k = h
  · rw [hk, Function.update_self, Lists.everywhere, hq]
    rfl
  · rw [Function.update_of_ne hk, Lists.everywhere]
    cases hqk : qs k with
    | none => rfl
    | some ys => exact congrArg some (hf ys (hr.apart h k xs ys (Ne.symm hk) hq hqk x hx))

omit [DecidableEq E] in
/-- An element of a list without repetition, with what stands before and behind it. -/
theorem split_at {xs : List E} (hx : x ∈ xs) (hn : xs.Nodup) :
    ∃ as bs, xs = as ++ x :: bs ∧ x ∉ as ∧ x ∉ bs ∧ as.Nodup ∧ bs.Nodup ∧ ∀ a ∈ as, a ∉ bs := by
  obtain ⟨as, bs, rfl⟩ := List.append_of_mem hx
  obtain ⟨ha, hb, hab⟩ := List.nodup_append.mp hn
  obtain ⟨hxb, hbn⟩ := List.nodup_cons.mp hb
  refine ⟨as, bs, rfl, fun h => ?_, hxb, ha, hbn, fun a haa hbb => ?_⟩
  · exact hab x h x List.mem_cons_self rfl
  · exact hab a haa a (List.mem_cons_of_mem _ hbb) rfl

end Split

/-! ## 2. The FOREACH loops -/

/-- Front to back, or back to front. -/
inductive Dir where
  | forward
  | backward
  deriving DecidableEq, Repr

/-- The elements in the order of a traversal. -/
def Dir.order : Dir → List E → List E
  | forward, xs => xs
  | backward, xs => xs.reverse

omit [DecidableEq E] in
@[simp] theorem Dir.order_order (d : Dir) (xs : List E) : d.order (d.order xs) = xs := by
  cases d with
  | forward => rfl
  | backward => exact List.reverse_reverse xs

omit [DecidableEq E] in
@[simp] theorem Dir.length_order (d : Dir) (xs : List E) : (d.order xs).length = xs.length := by
  cases d with
  | forward => rfl
  | backward => exact List.length_reverse

omit [DecidableEq E] in
theorem Dir.order_filter (d : Dir) (q : E → Bool) (xs : List E) :
    d.order (xs.filter q) = (d.order xs).filter q := by
  cases d with
  | forward => rfl
  | backward => exact List.filter_reverse.symm

omit [DecidableEq E] in
theorem Dir.nodup_order {d : Dir} {xs : List E} (h : (d.order xs).Nodup) : xs.Nodup := by
  cases d with
  | forward => exact h
  | backward => exact List.nodup_reverse.mp h

theorem Dir.order_erase (d : Dir) {as bs : List E} {x : E} (ha : x ∉ as) (hb : x ∉ bs) :
    (d.order (as ++ x :: bs)).erase x = d.order (as ++ bs) := by
  cases d with
  | forward => exact erase_split ha
  | backward =>
      have hb' : x ∉ bs.reverse := fun h => hb (List.mem_reverse.mp h)
      have hrev : (as ++ x :: bs).reverse = bs.reverse ++ x :: as.reverse := by simp
      rw [order, order, hrev, erase_split hb', List.reverse_append]

omit [DecidableEq H] [DecidableEq E] in
/-- What stands behind an element is what its link leads to. -/
theorem next_hung {m : Cells H E} {p : Slot H E} {as bs : List E} {x : E}
    (h : Hung m.fst p (as ++ x :: bs) none) : m.fst (.elem x) = bs.head? :=
  h.behind.first.trans Option.or_none

omit [DecidableEq H] [DecidableEq E] in
theorem forEach_hung {m : Cells H E} {p : Slot H E} {xs : List E} (h : Hung m.fst p xs none)
    {n : Nat} (hn : xs.length ≤ n) :
    forEach (fun x => some (m.fst (.elem x))) n (m.fst p) = some xs := by
  have hfirst : m.fst p = xs.head? := h.first.trans Option.or_none
  rw [hfirst]
  refine forEach_reads xs (fun as x bs e => ?_) hn
  subst e
  exact congrArg some (next_hung h)

/-- `for (var = first; var && (tvar = next(var), 1); var = tvar) body`: the next element is read
    before the body runs. -/
def forEachSafe (next : Cells H E → E → Option (Option E))
    (body : E → Cells H E → Option (Cells H E)) :
    Nat → Option E → Cells H E → Option (Cells H E)
  | _, none, m => some m
  | 0, some _, _ => none
  | n + 1, some x, m => do
      let y ← next m x
      let m ← body x m
      forEachSafe next body n y m

section Safe

variable {K : Hanging H E} {h : H} {k : Nat} {p : E → Bool} {body : E → Cells H E → Option (Cells H E)}
  {next : Cells H E → E → Option (Option E)} {d : Dir}

/-- The body takes the current element out where `p` says so, and keeps it otherwise, in lists of
    at most `k` elements. -/
def Filters (K : Hanging H E) (h : H) (k : Nat) (p : E → Bool)
    (body : E → Cells H E → Option (Cells H E)) : Prop :=
  ∀ (m : Cells H E) (qs : Lists H E) (xs : List E) (x : E), Represents K m qs → qs h = some xs →
    xs.length ≤ k → x ∈ xs → ∃ m', body x m = some m' ∧
      Represents K m' (Function.update qs h (some (if p x then xs.erase x else xs)))

/-- The step of the loop leads from each element to the next one in the order of `d`. -/
def Walks (K : Hanging H E) (h : H) (d : Dir) (next : Cells H E → E → Option (Option E)) : Prop :=
  ∀ (m : Cells H E) (as bs : List E) (x : E), K.hangs m h (d.order (as ++ x :: bs)) →
    next m x = some bs.head?

/-- The loop, with `done` behind it. -/
theorem forEachSafe_from (hw : Walks K h d next) (hb : Filters K h k p body) (rest : List E) :
    ∀ (done : List E) (m : Cells H E) (qs : Lists H E) (n : Nat), Represents K m qs →
      qs h = some (d.order (done ++ rest)) → (done ++ rest).length ≤ k → rest.length ≤ n →
      ∃ m', forEachSafe next body n rest.head? m = some m' ∧
        Represents K m'
          (Function.update qs h (some (d.order (done ++ rest.filter fun x => !p x)))) := by
  induction rest with
  | nil =>
      intro done m qs n hr hq _ _
      refine ⟨m, by cases n <;> rfl, ?_⟩
      rw [List.filter_nil, ← hq, Function.update_eq_self]
      exact hr
  | cons x rest ih =>
      intro done m qs n hr hq hlen hn
      obtain ⟨j, rfl⟩ : ∃ j, n = j + 1 := ⟨n - 1, by rw [List.length_cons] at hn; omega⟩
      have hj : rest.length ≤ j := by rw [List.length_cons] at hn; omega
      have hnext : next m x = some rest.head? := hw m done rest x (hr.hangs h _ hq)
      obtain ⟨-, hxr, hxd⟩ := List.nodup_append.mp (d.nodup_order (K.nodup (hr.hangs h _ hq)))
      have hmem : x ∈ d.order (done ++ x :: rest) := by cases d <;> simp [Dir.order]
      obtain ⟨m₁, hm₁, hr₁⟩ := hb m qs _ x hr hq (by rw [d.length_order]; exact hlen) hmem
      -- what stands behind the loop variable now, with the element or without it
      obtain ⟨done', hd', hf', hl'⟩ : ∃ done', (if p x then (d.order (done ++ x :: rest)).erase x
          else d.order (done ++ x :: rest)) = d.order (done' ++ rest) ∧
          done' ++ rest.filter (fun x => !p x) = done ++ (x :: rest).filter (fun x => !p x) ∧
          (done' ++ rest).length ≤ (done ++ x :: rest).length := by
        cases hp : p x with
        | true =>
            refine ⟨done, ?_, ?_, by simp⟩
            · rw [if_pos rfl]
              exact d.order_erase (fun hd => hxd x hd x List.mem_cons_self rfl)
                (List.nodup_cons.mp hxr).1
            · rw [List.filter_cons_of_neg (by simp [hp])]
        | false =>
            refine ⟨done ++ [x], ?_, ?_, by simp⟩
            · simp
            · rw [List.filter_cons_of_pos (by simp [hp])]
              simp
      rw [hd'] at hr₁
      obtain ⟨m', hm', hr'⟩ := ih done' m₁ _ j hr₁ (Function.update_self _ _ _)
        (Nat.le_trans hl' hlen) hj
      refine ⟨m', ?_, ?_⟩
      · show (next m x).bind _ = some m'
        rw [hnext, Option.bind_some, hm₁]
        exact hm'
      · rw [Function.update_idem, hf'] at hr'
        exact hr'

/-- **The safe loop**: every element is looked at once, what `p` names is taken out, the rest
    stays in its order. -/
theorem forEachSafe_filters (hw : Walks K h d next) (hb : Filters K h k p body) {m : Cells H E}
    {qs : Lists H E} {xs : List E} {n : Nat} (hr : Represents K m qs) (hq : qs h = some xs)
    (hk : xs.length ≤ k) (hn : xs.length ≤ n) :
    ∃ m', forEachSafe next body n (d.order xs).head? m = some m' ∧
      Represents K m' (Function.update qs h (some (xs.filter fun x => !p x))) := by
  have hq' : qs h = some (d.order ([] ++ d.order xs)) := by
    rw [List.nil_append, d.order_order]
    exact hq
  obtain ⟨m', hm', hr'⟩ := forEachSafe_from hw hb (d.order xs) [] m qs n hr hq'
    (by rw [List.nil_append, d.length_order]; exact hk) (by rw [d.length_order]; exact hn)
  refine ⟨m', hm', ?_⟩
  rw [List.nil_append, d.order_filter, d.order_order] at hr'
  exact hr'

end Safe

end Nfp.Queue
