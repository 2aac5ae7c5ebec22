/-
  File:      Nfp/Queue/Slist.lean
  Subject:   SINGLY-LINKED LISTS (NFP_SLIST_*): every run of the macros keeps the lists the user
             has in mind.

  * `slist` -- what hangs on a head: the links from `slh_first` on, to NULL;
  * `SlistOp`, `SlistOp.exec` -- the macros on memory; a dereferenced NULL pointer ends the run
    (`none`), the search loop of NFP_SLIST_REMOVE gets fuel;
  * `SlistOp.apply`, `SlistOp.Ok` -- the same operations on lists, and what a caller has to
    respect: an element is put into one list at a time, and what is named has to be there;
  * **`slist_refines`** -- from any memory, any sequence of operations a caller may make runs to
    its end and leaves the lists that `apply` says; NFP_SLIST_FOREACH then visits them.
-/
import Nfp.Queue.Basic

namespace Nfp.Queue

open Nfp.Lib

variable {H E : Type} [DecidableEq H] [DecidableEq E]

/-! ## 1. The macros -/

/-- `NFP_SLIST_FIRST`. -/
def nfpSlistFirst (m : Cells H E) (h : H) : Option E := m.fst (.head h)

/-- `NFP_SLIST_EMPTY`. -/
def nfpSlistEmpty (m : Cells H E) (h : H) : Bool := (nfpSlistFirst m h).isNone

/-- `NFP_SLIST_NEXT`. -/
def nfpSlistNext (m : Cells H E) (x : E) : Option E := m.fst (.elem x)

/-- `NFP_SLIST_INIT`. -/
def nfpSlistInit (m : Cells H E) (h : H) : Cells H E := m.setFst (.head h) none

/-- `NFP_SLIST_INSERT_AFTER`. -/
def nfpSlistInsertAfter (m : Cells H E) (x e : E) : Cells H E :=
  let m := m.setFst (.elem e) (nfpSlistNext m x)
  m.setFst (.elem x) (some e)

/-- `NFP_SLIST_INSERT_HEAD`. -/
def nfpSlistInsertHead (m : Cells H E) (h : H) (e : E) : Cells H E :=
  let m := m.setFst (.elem e) (nfpSlistFirst m h)
  m.setFst (.head h) (some e)

/-- `NFP_SLIST_REMOVE_AFTER`. -/
def nfpSlistRemoveAfter (m : Cells H E) (x : E) : Option (Cells H E) := do
  let y ← nfpSlistNext m x
  some (m.setFst (.elem x) (nfpSlistNext m y))

/-- `NFP_SLIST_REMOVE_HEAD`. -/
def nfpSlistRemoveHead (m : Cells H E) (h : H) : Option (Cells H E) := do
  let x ← nfpSlistFirst m h
  some (m.setFst (.head h) (nfpSlistNext m x))

/-- The loop of the two REMOVE macros for singly linked elements:
    `while (NEXT(curelm) != elm) curelm = NEXT(curelm)`. -/
def searchBefore (m : Cells H E) (e : E) : Nat → Option E → Option E
  | 0, _ => none
  | _ + 1, none => none
  | n + 1, some cur => if m.fst (.elem cur) = some e then some cur
      else searchBefore m e n (m.fst (.elem cur))

/-- `NFP_SLIST_REMOVE`. -/
def nfpSlistRemove (n : Nat) (m : Cells H E) (h : H) (e : E) : Option (Cells H E) :=
  if nfpSlistFirst m h = some e then nfpSlistRemoveHead m h
  else do
    let cur ← searchBefore m e n (nfpSlistFirst m h)
    nfpSlistRemoveAfter m cur

/-- `NFP_SLIST_SWAP`. -/
def nfpSlistSwap (m : Cells H E) (h h' : H) : Cells H E :=
  let swapFirst := nfpSlistFirst m h
  let m := m.setFst (.head h) (nfpSlistFirst m h')
  m.setFst (.head h') swapFirst

/-- `NFP_SLIST_FOREACH`: the elements visited. -/
def nfpSlistForeach (n : Nat) (m : Cells H E) (h : H) : Option (List E) :=
  forEach (fun x => some (nfpSlistNext m x)) n (nfpSlistFirst m h)

/-- `NFP_SLIST_FOREACH_PREVPTR`: the elements visited, each with the place that leads to it (the
    variable `varp`). -/
def nfpSlistForeachPrevptr (m : Cells H E) : Nat → Slot H E → Option (List (Slot H E × E))
  | 0, p => if m.fst p = none then some [] else none
  | n + 1, p =>
      match m.fst p with
      | none => some []
      | some x => (nfpSlistForeachPrevptr m n (.elem x)).map ((p, x) :: ·)

/-! ## 2. The operations and their meaning -/

/-- An operation. Where the macro is not given the head, `h` says whose list is meant. -/
inductive SlistOp (H E : Type) where
  | init (h : H)
  | insertHead (h : H) (e : E)
  | insertAfter (h : H) (x e : E)
  | remove (h : H) (e : E)
  | removeHead (h : H)
  | removeAfter (h : H) (x : E)
  | swap (h h' : H)
  deriving DecidableEq, Repr

namespace SlistOp

/-- The macros. -/
def exec (n : Nat) (m : Cells H E) : SlistOp H E → Option (Cells H E)
  | init h => some (nfpSlistInit m h)
  | insertHead h e => some (nfpSlistInsertHead m h e)
  | insertAfter _ x e => some (nfpSlistInsertAfter m x e)
  | remove h e => nfpSlistRemove n m h e
  | removeHead h => nfpSlistRemoveHead m h
  | removeAfter _ x => nfpSlistRemoveAfter m x
  | swap h h' => some (nfpSlistSwap m h h')

/-- What an operation means. -/
def apply (qs : Lists H E) : SlistOp H E → Lists H E
  | init h => Function.update qs h (some [])
  | insertHead h e => qs.modify h (e :: ·)
  | insertAfter h x e => qs.modify h (Queue.insertAfter x e)
  | remove h e => qs.modify h (·.erase e)
  | removeHead h => qs.modify h List.tail
  | removeAfter h x => qs.modify h (Queue.removeAfter x)
  | swap h h' => Function.update (Function.update qs h (qs h')) h' (qs h)

/-- What a caller has to respect. -/
def Ok (qs : Lists H E) : SlistOp H E → Prop
  | init _ => True
  | insertHead h e => (∃ xs, qs h = some xs) ∧ Unused qs e
  | insertAfter h x e => (∃ xs, qs h = some xs ∧ x ∈ xs) ∧ Unused qs e
  | remove h e => ∃ xs, qs h = some xs ∧ e ∈ xs
  | removeHead h => ∃ x xs, qs h = some (x :: xs)
  | removeAfter h x => ∃ as y bs, qs h = some (as ++ x :: y :: bs)
  | swap h h' => (∃ xs, qs h = some xs) ∧ ∃ xs', qs h' = some xs'

end SlistOp

/-- **What hangs on the head of a singly-linked list.** -/
def slist : Hanging H E where
  hangs m h xs := Hung m.fst (.head h) xs none
  hung hk := hk
  frame hh hx hk := hk.frame hh.1 fun x hxs => (hx x hxs).1

/-! ## 3. One operation -/

section Steps

variable {m : Cells H E} {qs : Lists H E} {h h' : H} {x e : E} {xs as bs : List E}

theorem represents_insertFst (as : List E) (hr : Represents slist m qs)
    (hq : qs h = some (as ++ bs)) (hu : Unused qs e) :
    Represents slist ((m.setFst (.elem e) (m.fst (endOf (.head h) as))).setFst
      (endOf (.head h) as) (some e)) (Function.update qs h (some (as ++ e :: bs))) := by
  have hung : Hung m.fst (.head h) (as ++ bs) none := hr.hangs h _ hq
  have he := hu h _ hq
  rw [List.mem_append, not_or] at he
  refine hr.insert hq hu ?_ (hung.link he.1 he.2)
  refine ((m.within_refl _).setFst (own_elem List.mem_cons_self) _).setFst ?_ _
  exact own_endOf (own_head List.mem_cons_self)
    fun a ha => List.mem_cons_of_mem _ (List.mem_append_left _ ha)

theorem represents_removeFst (as : List E) (hr : Represents slist m qs)
    (hq : qs h = some (as ++ x :: bs)) :
    Represents slist (m.setFst (endOf (.head h) as) (m.fst (.elem x)))
      (Function.update qs h (some (as ++ bs))) := by
  have hung : Hung m.fst (.head h) (as ++ x :: bs) none := hr.hangs h _ hq
  refine hr.remove hq ((m.within_refl _).setFst ?_ _) hung.unlink
  exact own_endOf (own_head List.mem_cons_self) fun a ha => List.mem_append_left _ ha

/-- A list, each element with the place that leads to it. -/
def placed : Slot H E → List E → List (Slot H E × E)
  | _, [] => []
  | p, x :: xs => (p, x) :: placed (.elem x) xs

omit [DecidableEq H] [DecidableEq E] in
theorem nfpSlistForeachPrevptr_hung {p : Slot H E} {n : Nat} (hh : Hung m.fst p xs none)
    (hn : xs.length ≤ n) : nfpSlistForeachPrevptr m n p = some (placed p xs) := by
  induction xs generalizing p n with
  | nil =>
      have hnull : m.fst p = none := hh.first
      cases n <;> simp [nfpSlistForeachPrevptr, placed, hnull]
  | cons x xs ih =>
      obtain ⟨k, rfl⟩ : ∃ k, n = k + 1 := ⟨n - 1, by rw [List.length_cons] at hn; omega⟩
      have hk : xs.length ≤ k := by rw [List.length_cons] at hn; omega
      have hfirst : m.fst p = some x := hh.first
      have hrest := ih ⟨hh.links.1, hh.links.2⟩ hk
      simp [nfpSlistForeachPrevptr, placed, hfirst, hrest]

omit [DecidableEq H] in
/-- **The search loop**: it stops at the element in front of `x`. -/
theorem searchBefore_hung {p : Slot H E} (a : E) (as : List E) {n : Nat}
    (hh : Hung m.fst p (a :: as ++ x :: bs) none) (hx : x ∉ a :: as) (hn : (a :: as).length ≤ n) :
    ∃ c, searchBefore m x n (some a) = some c ∧ Slot.elem c = endOf (.elem a : Slot H E) as := by
  induction as generalizing a p n with
  | nil =>
      obtain ⟨k, rfl⟩ : ∃ k, n = k + 1 := ⟨n - 1, by rw [List.length_cons] at hn; omega⟩
      have hnext : m.fst (.elem a) = some x := hh.links.1
      exact ⟨a, if_pos hnext, rfl⟩
  | cons b as ih =>
      obtain ⟨k, rfl⟩ : ∃ k, n = k + 1 := ⟨n - 1, by rw [List.length_cons] at hn; omega⟩
      have hnext : m.fst (.elem a) = some b := hh.links.1
      have hb : ¬ m.fst (.elem a) = some x := by
        rw [hnext]
        intro e
        cases e
        exact hx (List.mem_cons_of_mem _ List.mem_cons_self)
      have hk : (b :: as).length ≤ k := by rw [List.length_cons] at hn; omega
      obtain ⟨c, hc, hce⟩ := ih b ⟨hnext, hh.links.2⟩ (fun h => hx (List.mem_cons_of_mem _ h)) hk
      refine ⟨c, ?_, hce⟩
      rw [searchBefore, if_neg hb, hnext]
      exact hc

/-- **NFP_SLIST_REMOVE** writes where the element hung. -/
theorem nfpSlistRemove_eq {n : Nat} (hh : Hung m.fst (.head h) (as ++ x :: bs) none)
    (hn : as.length ≤ n) :
    nfpSlistRemove n m h x = some (m.setFst (endOf (.head h) as) (m.fst (.elem x))) := by
  cases as with
  | nil =>
      have hfirst : nfpSlistFirst m h = some x := hh.first
      rw [nfpSlistRemove, if_pos hfirst, nfpSlistRemoveHead, hfirst]
      rfl
  | cons a as =>
      have hx : x ∉ a :: as := hh.not_before
      have hfirst : nfpSlistFirst m h = some a := hh.first
      have hne : ¬ nfpSlistFirst m h = some x := by
        rw [hfirst]
        intro e
        cases e
        exact hx List.mem_cons_self
      obtain ⟨c, hc, hce⟩ := searchBefore_hung a as hh hx hn
      have hnext : nfpSlistNext m c = some x := by
        rw [nfpSlistNext, hce]
        exact hh.before
      rw [nfpSlistRemove, if_neg hne, hfirst, hc, Option.bind_eq_bind, Option.bind_some,
        nfpSlistRemoveAfter, hnext, Option.bind_eq_bind, Option.bind_some, hce]
      rfl

theorem represents_swap (hr : Represents slist m qs) (hq : qs h = some xs)
    (hq' : qs h' = some bs) :
    Represents slist (nfpSlistSwap m h h')
      (Function.update (Function.update qs h (some bs)) h' (some xs)) := by
  have hung : Hung m.fst (.head h) xs none := hr.hangs h _ hq
  have hung' : Hung m.fst (.head h') bs none := hr.hangs h' _ hq'
  have hval : (nfpSlistSwap m h h').fst (.head h') = m.fst (.head h) := Function.update_self _ _ _
  have hval' : (nfpSlistSwap m h h').fst (.head h) = m.fst (.head h') :=
    Cells.update_pair _ fun e => congrArg m.fst e.symm
  have hin : ∀ x, (nfpSlistSwap m h h').fst (.elem x) = m.fst (.elem x) := fun x => by
    simp [nfpSlistSwap]
  refine hr.exchange hq hq' ?_ ?_ ?_
  · exact ((m.within_refl _).setFst (own_head List.mem_cons_self) _).setFst
      (own_head (List.mem_cons_of_mem _ List.mem_cons_self)) _
  · exact ⟨hval'.trans hung'.first, hung'.links.frame fun x _ => hin x⟩
  · exact ⟨hval.trans hung.first, hung.links.frame fun x _ => hin x⟩

/-- **One operation**: where a caller may make it, it runs and does what it means. -/
theorem slist_step (qs : Lists H E) (op : SlistOp H E) (hok : op.Ok qs) :
    ∃ N, ∀ n, N ≤ n → ∀ m, Represents slist m qs →
      ∃ m', op.exec n m = some m' ∧ Represents slist m' (op.apply qs) := by
  cases op with
  | init h =>
      refine ⟨0, fun _ _ m hr => ⟨_, rfl, hr.init ?_ ⟨Function.update_self _ _ _, trivial⟩⟩⟩
      exact (m.within_refl _).setFst (own_head List.mem_cons_self) _
  | insertHead h e =>
      obtain ⟨⟨xs, hq⟩, hu⟩ := hok
      refine ⟨0, fun _ _ m hr => ⟨_, rfl, ?_⟩⟩
      rw [SlistOp.apply, modify_some hq]
      exact represents_insertFst [] hr hq hu
  | insertAfter h x e =>
      obtain ⟨⟨xs, hq, hx⟩, hu⟩ := hok
      refine ⟨0, fun _ _ m hr => ⟨_, rfl, ?_⟩⟩
      obtain ⟨as, bs, rfl, hxa, -⟩ := split_at hx (slist.nodup (hr.hangs h xs hq))
      rw [SlistOp.apply, modify_some hq, insertAfter_split hxa]
      have hq2 : qs h = some ((as ++ [x]) ++ bs) := by simpa using hq
      have hres := represents_insertFst (as ++ [x]) hr hq2 hu
      rw [endOf_append, List.append_assoc] at hres
      exact hres
  | remove h e =>
      obtain ⟨xs, hq, he⟩ := hok
      refine ⟨xs.length, fun n hn m hr => ?_⟩
      obtain ⟨as, bs, rfl, hea, -⟩ := split_at he (slist.nodup (hr.hangs h xs hq))
      have hlen : as.length ≤ n := by rw [List.length_append] at hn; omega
      refine ⟨_, nfpSlistRemove_eq (hr.hangs h _ hq) hlen, ?_⟩
      rw [SlistOp.apply, modify_some hq, erase_split hea]
      exact represents_removeFst as hr hq
  | removeHead h =>
      obtain ⟨x, xs, hq⟩ := hok
      refine ⟨0, fun _ _ m hr => ?_⟩
      have hfirst : m.fst (.head h) = some x := (slist.hung (hr.hangs h _ hq)).first
      refine ⟨m.setFst (.head h) (m.fst (.elem x)), ?_, ?_⟩
      · show (m.fst (.head h)).bind _ = _
        rw [hfirst]
        rfl
      · rw [SlistOp.apply, modify_some hq]
        exact represents_removeFst [] hr hq
  | removeAfter h x =>
      obtain ⟨as, y, bs, hq⟩ := hok
      refine ⟨0, fun _ _ m hr => ?_⟩
      have hung := slist.hung (hr.hangs h _ hq)
      have hxa : x ∉ as := hung.not_before
      have hnext : m.fst (.elem x) = some y := hung.behind.first
      refine ⟨m.setFst (.elem x) (m.fst (.elem y)), ?_, ?_⟩
      · show (m.fst (.elem x)).bind _ = _
        rw [hnext]
        rfl
      · rw [SlistOp.apply, modify_some hq, removeAfter_split hxa]
        have hq2 : qs h = some ((as ++ [x]) ++ y :: bs) := by simpa using hq
        have hres := represents_removeFst (as ++ [x]) hr hq2
        rw [endOf_append, List.append_assoc] at hres
        exact hres
  | swap h h' =>
      obtain ⟨⟨xs, hq⟩, ⟨xs', hq'⟩⟩ := hok
      refine ⟨0, fun _ _ m hr => ⟨_, rfl, ?_⟩⟩
      rw [SlistOp.apply, hq, hq']
      exact represents_swap hr hq hq'

end Steps

/-! ## 4. Runs -/

/-- **Singly-linked lists refine lists.** From any memory, every sequence of operations a caller
    may make runs to its end, no NULL pointer is dereferenced, and then every head in use reads as
    the list it should hold. -/
theorem slist_refines (ops : List (SlistOp H E))
    (hok : Admitted SlistOp.apply SlistOp.Ok (fun _ => none) ops) :
    ∃ N, ∀ n, N ≤ n → ∀ m : Cells H E,
      ∃ m', run (SlistOp.exec n) m ops = some m' ∧
        ∀ h xs, ops.foldl SlistOp.apply (fun _ => none) h = some xs →
          nfpSlistFirst m' h = xs.head? ∧ (nfpSlistEmpty m' h = true ↔ xs = []) ∧
          ∀ k, xs.length ≤ k → nfpSlistForeach k m' h = some xs ∧
            nfpSlistForeachPrevptr m' k (.head h) = some (placed (.head h) xs) := by
  obtain ⟨N, hN⟩ := run_refines slist_step ops _ hok
  refine ⟨N, fun n hn m => ?_⟩
  obtain ⟨m', hm', hr⟩ := hN n hn m (represents_none slist m)
  refine ⟨m', hm', fun h xs hq => ?_⟩
  have hung := slist.hung (hr.hangs h xs hq)
  have hfirst : nfpSlistFirst m' h = xs.head? := hung.first.trans Option.or_none
  refine ⟨hfirst, ?_, fun k hk => ⟨forEach_hung hung hk, nfpSlistForeachPrevptr_hung hung hk⟩⟩
  rw [nfpSlistEmpty, hfirst, Option.isNone_iff_eq_none, List.head?_eq_none_iff]

/-- Two lists, filled, cut and swapped. -/
def slistSample : List (SlistOp Bool Nat) :=
  [.init false, .init true, .insertHead false 1, .insertHead false 2, .insertAfter false 1 3,
    .insertHead true 4, .remove false 1, .swap false true, .removeAfter true 2, .removeHead false]

theorem slist_refines_sample :
    ∃ N, ∀ n, N ≤ n → ∀ m : Cells Bool Nat, ∃ m', run (SlistOp.exec n) m slistSample = some m' ∧
      nfpSlistForeach 1 m' true = some [2] ∧ nfpSlistEmpty m' false = true := by
  have hok : Admitted SlistOp.apply SlistOp.Ok (fun _ => none) slistSample := by
    simp [slistSample, Admitted, SlistOp.Ok, SlistOp.apply, Unused, Lists.modify, Queue.insertAfter]
    exact ⟨[], 3, [], rfl⟩
  obtain ⟨N, hN⟩ := slist_refines slistSample hok
  refine ⟨N, fun n hn m => ?_⟩
  obtain ⟨m', hm', hread⟩ := hN n hn m
  exact ⟨m', hm', ((hread true [2] rfl).2.2 1 (Nat.le_refl 1)).1, (hread false [] rfl).2.1.mpr rfl⟩

end Nfp.Queue
