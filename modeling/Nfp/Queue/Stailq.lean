/-
  File:      Nfp/Queue/Stailq.lean
  Subject:   SINGLY-LINKED TAIL QUEUES (NFP_STAILQ_*): every run of the macros keeps the lists the
             user has in mind, and `stqh_last` is always the place where the next element goes.

  * `stailq` -- what hangs on a head: the links from `stqh_first` on, and in `stqh_last` the
    address of the last link;
  * `represents_stailqInsert`, `represents_stailqRemove` -- an element put in or taken out
    anywhere: `stqh_last` moves exactly when nothing stands behind the element;
  * **`stailq_refines`** -- from any memory, any sequence of operations a caller may make runs to
    its end and leaves the lists that `apply` says; FOREACH visits them, LAST is their last
    element.
-/
import Nfp.Queue.Slist

namespace Nfp.Queue

open Nfp.Lib

variable {H E : Type} [DecidableEq H] [DecidableEq E]

/-! ## 1. The macros -/

/-- `NFP_STAILQ_FIRST`. -/
def nfpStailqFirst (m : Cells H E) (h : H) : Option E := m.fst (.head h)

/-- `NFP_STAILQ_EMPTY`. -/
def nfpStailqEmpty (m : Cells H E) (h : H) : Bool := (nfpStailqFirst m h).isNone

/-- `NFP_STAILQ_NEXT`. -/
def nfpStailqNext (m : Cells H E) (x : E) : Option E := m.fst (.elem x)

/-- `NFP_STAILQ_INIT`. -/
def nfpStailqInit (m : Cells H E) (h : H) : Cells H E :=
  let m := m.setFst (.head h) none
  m.setSnd (.head h) (some (.head h))

/-- `NFP_STAILQ_CONCAT`. -/
def nfpStailqConcat (m : Cells H E) (h h' : H) : Option (Cells H E) :=
  if nfpStailqEmpty m h' then some m
  else do
    let last ← m.snd (.head h)
    let m := m.setFst last (nfpStailqFirst m h')
    let m := m.setSnd (.head h) (m.snd (.head h'))
    some (nfpStailqInit m h')

/-- `NFP_STAILQ_INSERT_AFTER`. -/
def nfpStailqInsertAfter (m : Cells H E) (h : H) (x e : E) : Cells H E :=
  let m := m.setFst (.elem e) (nfpStailqNext m x)
  let m := if nfpStailqNext m e = none then m.setSnd (.head h) (some (.elem e)) else m
  m.setFst (.elem x) (some e)

/-- `NFP_STAILQ_INSERT_HEAD`. -/
def nfpStailqInsertHead (m : Cells H E) (h : H) (e : E) : Cells H E :=
  let m := m.setFst (.elem e) (nfpStailqFirst m h)
  let m := if nfpStailqNext m e = none then m.setSnd (.head h) (some (.elem e)) else m
  m.setFst (.head h) (some e)

/-- `NFP_STAILQ_INSERT_TAIL`. -/
def nfpStailqInsertTail (m : Cells H E) (h : H) (e : E) : Option (Cells H E) := do
  let m := m.setFst (.elem e) none
  let last ← m.snd (.head h)
  let m := m.setFst last (some e)
  some (m.setSnd (.head h) (some (.elem e)))

/-- `NFP_STAILQ_LAST`: NULL for an empty queue, else the element around `stqh_last` (`none` where
    that is not the address of a link of an element). -/
def nfpStailqLast (m : Cells H E) (h : H) : Option (Option E) :=
  if nfpStailqEmpty m h then some none
  else match m.snd (.head h) with
    | some (.elem x) => some (some x)
    | _ => none

/-- `NFP_STAILQ_REMOVE_AFTER`. -/
def nfpStailqRemoveAfter (m : Cells H E) (h : H) (x : E) : Option (Cells H E) := do
  let y ← nfpStailqNext m x
  let m := m.setFst (.elem x) (nfpStailqNext m y)
  some (if nfpStailqNext m x = none then m.setSnd (.head h) (some (.elem x)) else m)

/-- `NFP_STAILQ_REMOVE_HEAD`. -/
def nfpStailqRemoveHead (m : Cells H E) (h : H) : Option (Cells H E) := do
  let x ← nfpStailqFirst m h
  let m := m.setFst (.head h) (nfpStailqNext m x)
  some (if nfpStailqFirst m h = none then m.setSnd (.head h) (some (.head h)) else m)

/-- `NFP_STAILQ_REMOVE`. -/
def nfpStailqRemove (n : Nat) (m : Cells H E) (h : H) (e : E) : Option (Cells H E) :=
  if nfpStailqFirst m h = some e then nfpStailqRemoveHead m h
  else do
    let cur ← searchBefore m e n (nfpStailqFirst m h)
    nfpStailqRemoveAfter m h cur

/-- `NFP_STAILQ_SWAP`. -/
def nfpStailqSwap (m : Cells H E) (h h' : H) : Cells H E :=
  let swapFirst := nfpStailqFirst m h
  let swapLast := m.snd (.head h)
  let m := m.setFst (.head h) (nfpStailqFirst m h')
  let m := m.setSnd (.head h) (m.snd (.head h'))
  let m := m.setFst (.head h') swapFirst
  let m := m.setSnd (.head h') swapLast
  let m := if nfpStailqEmpty m h then m.setSnd (.head h) (some (.head h)) else m
  if nfpStailqEmpty m h' then m.setSnd (.head h') (some (.head h')) else m

/-- `NFP_STAILQ_FOREACH`: the elements visited. -/
def nfpStailqForeach (n : Nat) (m : Cells H E) (h : H) : Option (List E) :=
  forEach (fun x => some (nfpStailqNext m x)) n (nfpStailqFirst m h)

/-! ## 2. The operations and their meaning -/

/-- An operation. -/
inductive StailqOp (H E : Type) where
  | init (h : H)
  | insertHead (h : H) (e : E)
  | insertTail (h : H) (e : E)
  | insertAfter (h : H) (x e : E)
  | concat (h h' : H)
  | remove (h : H) (e : E)
  | removeHead (h : H)
  | removeAfter (h : H) (x : E)
  | swap (h h' : H)
  deriving DecidableEq, Repr

namespace StailqOp

/-- The macros. -/
def exec (n : Nat) (m : Cells H E) : StailqOp H E → Option (Cells H E)
  | init h => some (nfpStailqInit m h)
  | insertHead h e => some (nfpStailqInsertHead m h e)
  | insertTail h e => nfpStailqInsertTail m h e
  | insertAfter h x e => some (nfpStailqInsertAfter m h x e)
  | concat h h' => nfpStailqConcat m h h'
  | remove h e => nfpStailqRemove n m h e
  | removeHead h => nfpStailqRemoveHead m h
  | removeAfter h x => nfpStailqRemoveAfter m h x
  | swap h h' => some (nfpStailqSwap m h h')

/-- What an operation means. -/
def apply (qs : Lists H E) : StailqOp H E → Lists H E
  | init h => Function.update qs h (some [])
  | insertHead h e => qs.modify h (e :: ·)
  | insertTail h e => qs.modify h (· ++ [e])
  | insertAfter h x e => qs.modify h (Queue.insertAfter x e)
  | concat h h' => Function.update (qs.modify h (· ++ (qs h').getD [])) h' (some [])
  | remove h e => qs.modify h (·.erase e)
  | removeHead h => qs.modify h List.tail
  | removeAfter h x => qs.modify h (Queue.removeAfter x)
  | swap h h' => Function.update (Function.update qs h (qs h')) h' (qs h)

/-- What a caller has to respect. A queue is not appended to itself. -/
def Ok (qs : Lists H E) : StailqOp H E → Prop
  | init _ => True
  | insertHead h e => (∃ xs, qs h = some xs) ∧ Unused qs e
  | insertTail h e => (∃ xs, qs h = some xs) ∧ Unused qs e
  | insertAfter h x e => (∃ xs, qs h = some xs ∧ x ∈ xs) ∧ Unused qs e
  | concat h h' => h ≠ h' ∧ (∃ xs, qs h = some xs) ∧ ∃ xs', qs h' = some xs'
  | remove h e => ∃ xs, qs h = some xs ∧ e ∈ xs
  | removeHead h => ∃ x xs, qs h = some (x :: xs)
  | removeAfter h x => ∃ as y bs, qs h = some (as ++ x :: y :: bs)
  | swap h h' => (∃ xs, qs h = some xs) ∧ ∃ xs', qs h' = some xs'

end StailqOp

/-- **What hangs on the head of a singly-linked tail queue.** -/
structure StailqHangs (m : Cells H E) (h : H) (xs : List E) : Prop where
  hung : Hung m.fst (.head h) xs none
  last : m.snd (.head h) = some (endOf (.head h) xs)

def stailq : Hanging H E where
  hangs := StailqHangs
  hung hk := hk.hung
  frame hh hx hk := ⟨hk.hung.frame hh.1 fun x hxs => (hx x hxs).1, hh.2.trans hk.last⟩

/-! ## 3. One operation -/

section Steps

variable {m m' : Cells H E} {qs : Lists H E} {h h' : H} {x e : E} {xs bs : List E}

/-- **An element put in anywhere.** -/
theorem represents_stailqInsert (as : List E) (hr : Represents stailq m qs)
    (hq : qs h = some (as ++ bs)) (hu : Unused qs e)
    (hf : m'.fst = Function.update (Function.update m.fst (.elem e) (m.fst (endOf (.head h) as)))
      (endOf (.head h) as) (some e))
    (hs : m'.snd = if bs = [] then Function.update m.snd (.head h) (some (.elem e)) else m.snd) :
    Represents stailq m' (Function.update qs h (some (as ++ e :: bs))) := by
  have hk : StailqHangs m h (as ++ bs) := hr.hangs h _ hq
  have he := hu h _ hq
  rw [List.mem_append, not_or] at he
  have hhead : Own [h] (e :: (as ++ bs)) (.head h) := own_head List.mem_cons_self
  refine hr.insert hq hu (fun p hp => ⟨?_, ?_⟩) (⟨?_, ?_⟩ : StailqHangs m' h (as ++ e :: bs))
  · have hend := own_endOf hhead
      fun a (ha : a ∈ as) => List.mem_cons_of_mem e (List.mem_append_left bs ha)
    rw [hf, Cells.update_outside hend hp, Cells.update_outside (own_elem List.mem_cons_self) hp]
  · rw [hs]
    split
    · exact Cells.update_outside hhead hp _ _
    · rfl
  · rw [hf]
    exact hk.hung.link he.1 he.2
  · rw [hs]
    split
    · rename_i hb
      rw [hb, Function.update_self, endOf_append]
      rfl
    · rename_i hb
      rw [hk.last, endOf_middle hb]

/-- **An element taken out anywhere.** -/
theorem represents_stailqRemove (as : List E) (hr : Represents stailq m qs)
    (hq : qs h = some (as ++ x :: bs))
    (hf : m'.fst = Function.update m.fst (endOf (.head h) as) (m.fst (.elem x)))
    (hs : m'.snd = if bs = [] then Function.update m.snd (.head h) (some (endOf (.head h) as))
      else m.snd) :
    Represents stailq m' (Function.update qs h (some (as ++ bs))) := by
  have hk : StailqHangs m h (as ++ x :: bs) := hr.hangs h _ hq
  have hhead : Own [h] (as ++ x :: bs) (.head h) := own_head List.mem_cons_self
  refine hr.remove hq (fun p hp => ⟨?_, ?_⟩) (⟨?_, ?_⟩ : StailqHangs m' h (as ++ bs))
  · have hend := own_endOf hhead fun a (ha : a ∈ as) => List.mem_append_left (x :: bs) ha
    rw [hf, Cells.update_outside hend hp]
  · rw [hs]
    split
    · exact Cells.update_outside hhead hp _ _
    · rfl
  · rw [hf]
    exact hk.hung.unlink
  · rw [hs]
    split
    · rename_i hb
      rw [hb, Function.update_self, List.append_nil]
    · rename_i hb
      rw [hk.last, endOf_middle hb]

/-- INSERT_HEAD and INSERT_AFTER write at the place that leads to what stands behind. -/
theorem represents_stailqPut (as : List E) (hr : Represents stailq m qs)
    (hq : qs h = some (as ++ bs)) (hu : Unused qs e) :
    let m₁ := m.setFst (.elem e) (m.fst (endOf (.head h) as))
    let m₂ := if m₁.fst (.elem e) = none then m₁.setSnd (.head h) (some (.elem e)) else m₁
    Represents stailq (m₂.setFst (endOf (.head h) as) (some e))
      (Function.update qs h (some (as ++ e :: bs))) := by
  intro m₁ m₂
  have hk : StailqHangs m h (as ++ bs) := hr.hangs h _ hq
  have hnull : m₁.fst (.elem e) = none ↔ bs = [] := by
    have hval : m₁.fst (.elem e) = m.fst (endOf (.head h) as) := Function.update_self _ _ _
    rw [hval]
    exact (hung_append.mp hk.hung).2.first_none
  refine represents_stailqInsert as hr hq hu ?_ ?_
  · by_cases hb : m₁.fst (.elem e) = none
    · simp only [m₂, if_pos hb]
      rfl
    · simp only [m₂, if_neg hb]
      rfl
  · by_cases hb : m₁.fst (.elem e) = none
    · simp only [m₂, if_pos hb, if_pos (hnull.mp hb)]
      rfl
    · simp only [m₂, if_neg hb, if_neg (mt hnull.mpr hb)]
      rfl

/-- REMOVE_HEAD and REMOVE_AFTER write at the place that leads to the element. -/
theorem represents_stailqCut (as : List E) (hr : Represents stailq m qs)
    (hq : qs h = some (as ++ x :: bs)) :
    let m₁ := m.setFst (endOf (.head h) as) (m.fst (.elem x))
    Represents stailq (if m₁.fst (endOf (.head h) as) = none
      then m₁.setSnd (.head h) (some (endOf (.head h) as)) else m₁)
      (Function.update qs h (some (as ++ bs))) := by
  intro m₁
  have hk : StailqHangs m h (as ++ x :: bs) := hr.hangs h _ hq
  have hnull : m₁.fst (endOf (.head h) as) = none ↔ bs = [] := by
    have hval : m₁.fst (endOf (.head h) as) = m.fst (.elem x) := Function.update_self _ _ _
    rw [hval]
    exact hk.hung.behind.first_none
  by_cases hb : m₁.fst (endOf (.head h) as) = none
  · rw [if_pos hb]
    exact represents_stailqRemove as hr hq rfl (if_pos (hnull.mp hb)).symm
  · rw [if_neg hb]
    exact represents_stailqRemove as hr hq rfl (if_neg (mt hnull.mpr hb)).symm

theorem nfpStailqRemove_represents {n : Nat} (as : List E) (hr : Represents stailq m qs)
    (hq : qs h = some (as ++ x :: bs)) (hn : as.length ≤ n) :
    ∃ m', nfpStailqRemove n m h x = some m' ∧
      Represents stailq m' (Function.update qs h (some (as ++ bs))) := by
  have hh := stailq.hung (hr.hangs h _ hq)
  refine ⟨_, ?_, represents_stailqCut as hr hq⟩
  cases as with
  | nil =>
      have hfirst : nfpStailqFirst m h = some x := hh.first
      rw [nfpStailqRemove, if_pos hfirst, nfpStailqRemoveHead, hfirst]
      rfl
  | cons a as =>
      have hx : x ∉ a :: as := hh.not_before
      have hfirst : nfpStailqFirst m h = some a := hh.first
      have hne : ¬ nfpStailqFirst m h = some x := by
        rw [hfirst]
        intro e
        cases e
        exact hx List.mem_cons_self
      obtain ⟨c, hc, hce⟩ := searchBefore_hung a as hh hx hn
      have hnext : nfpStailqNext m c = some x := by
        rw [nfpStailqNext, hce]
        exact hh.before
      rw [nfpStailqRemove, if_neg hne, hfirst, hc, Option.bind_eq_bind, Option.bind_some,
        nfpStailqRemoveAfter, hnext, Option.bind_eq_bind, Option.bind_some]
      simp only [nfpStailqNext, hce]
      rfl

theorem nfpStailqInsertTail_represents (hr : Represents stailq m qs) (hq : qs h = some xs)
    (hu : Unused qs e) :
    ∃ m', nfpStailqInsertTail m h e = some m' ∧
      Represents stailq m' (Function.update qs h (some (xs ++ [e]))) := by
  have hk : StailqHangs m h xs := hr.hangs h _ hq
  have hq' : qs h = some (xs ++ []) := by rw [List.append_nil]; exact hq
  have hend : m.fst (endOf (.head h) xs) = none := hk.hung.fst_endOf
  refine ⟨((m.setFst (.elem e) none).setFst (endOf (.head h) xs) (some e)).setSnd (.head h)
    (some (.elem e)), ?_, represents_stailqInsert xs hr hq' hu ?_ (if_pos rfl).symm⟩
  · show (m.snd (.head h)).bind _ = _
    rw [hk.last]
    rfl
  · rw [hend]
    rfl

theorem nfpStailqConcat_represents (hr : Represents stailq m qs) (hne : h ≠ h')
    (hq : qs h = some xs) (hq' : qs h' = some bs) :
    ∃ m', nfpStailqConcat m h h' = some m' ∧
      Represents stailq m' (Function.update (Function.update qs h (some (xs ++ bs))) h'
        (some [])) := by
  have hk : StailqHangs m h xs := hr.hangs h _ hq
  have hk' : StailqHangs m h' bs := hr.hangs h' _ hq'
  by_cases hb : bs = []
  · subst hb
    have hempty : nfpStailqEmpty m h' = true := Option.isNone_iff_eq_none.mpr hk'.hung.first
    refine ⟨m, if_pos hempty, ?_⟩
    rw [List.append_nil, ← hq, Function.update_eq_self, ← hq', Function.update_eq_self]
    exact hr
  · have hempty : ¬ nfpStailqEmpty m h' = true := fun he =>
      hb (hk'.hung.first_none.mp (Option.isNone_iff_eq_none.mp he))
    refine ⟨nfpStailqInit ((m.setFst (endOf (.head h) xs) (m.fst (.head h'))).setSnd (.head h)
      (m.snd (.head h'))) h', ?_, hr.concat hne hq hq' ?_ (⟨?_, ?_⟩ : StailqHangs _ h (xs ++ bs))
      (⟨?_, ?_⟩ : StailqHangs _ h' [])⟩
    · rw [nfpStailqConcat, if_neg hempty, hk.last]
      rfl
    · have hhead : Own [h, h'] (xs ++ bs) (.head h) := own_head List.mem_cons_self
      have hhead' : Own [h, h'] (xs ++ bs) (.head h') :=
        own_head (List.mem_cons_of_mem _ List.mem_cons_self)
      have hend := own_endOf hhead fun a (ha : a ∈ xs) => List.mem_append_left bs ha
      exact ((((m.within_refl _).setFst hend _).setSnd hhead _).setFst hhead' _).setSnd hhead' _
    · refine (hk.hung.join hk'.hung (hr.apart h h' _ _ hne hq hq')).update ?_ (by simp) none
      exact fun e => hne (by cases e; rfl)
    · have hs : (Slot.head h : Slot H E) ≠ .head h' := fun e => hne (by cases e; rfl)
      simp only [nfpStailqInit, Cells.setSnd_snd, Cells.setFst_snd, Function.update_of_ne hs,
        Function.update_self]
      rw [hk'.last, endOf_append, endOf_of_ne_nil _ _ hb]
    · exact ⟨Function.update_self _ _ _, trivial⟩
    · exact Function.update_self _ _ _

/-- What NFP_STAILQ_SWAP leaves in the two heads, also when they are the same. -/
theorem nfpStailqSwap_spec (m : Cells H E) (h h' : H) :
    (nfpStailqSwap m h h').fst =
      Function.update (Function.update m.fst (.head h) (m.fst (.head h'))) (.head h')
        (m.fst (.head h)) ∧
    (nfpStailqSwap m h h').snd =
      Function.update (Function.update m.snd (.head h)
        (if m.fst (.head h') = none then some (.head h) else m.snd (.head h'))) (.head h')
        (if m.fst (.head h) = none then some (.head h') else m.snd (.head h)) := by
  by_cases hne : h = h'
  · subst hne
    by_cases h1 : m.fst (.head h) = none <;>
      simp [nfpStailqSwap, nfpStailqEmpty, nfpStailqFirst, h1]
  · have hs : (Slot.head h : Slot H E) ≠ .head h' := fun e => hne (by cases e; rfl)
    by_cases h1 : m.fst (.head h) = none <;> by_cases h2 : m.fst (.head h') = none <;>
      simp [nfpStailqSwap, nfpStailqEmpty, nfpStailqFirst, h1, h2, hs, Function.update_comm hs]

omit [DecidableEq H] [DecidableEq E] in
/-- A tail queue on another head: an empty one ends there, any other where it ended. -/
theorem StailqHangs.moved (hk : StailqHangs m h xs) (hf : m'.fst (.head h') = m.fst (.head h))
    (hx : ∀ x, m'.fst (.elem x) = m.fst (.elem x))
    (hs : m'.snd (.head h') = if m.fst (.head h) = none then some (.head h')
      else m.snd (.head h)) : StailqHangs m' h' xs := by
  refine ⟨⟨hf.trans hk.hung.first, hk.hung.links.frame fun x _ => hx x⟩, ?_⟩
  rw [hs, hk.last]
  exact hk.hung.endOf_moved

theorem nfpStailqSwap_represents (hr : Represents stailq m qs) (hq : qs h = some xs)
    (hq' : qs h' = some bs) :
    Represents stailq (nfpStailqSwap m h h')
      (Function.update (Function.update qs h (some bs)) h' (some xs)) := by
  have hk : StailqHangs m h xs := hr.hangs h _ hq
  have hk' : StailqHangs m h' bs := hr.hangs h' _ hq'
  obtain ⟨hf, hs⟩ := nfpStailqSwap_spec m h h'
  have hhead : Own [h, h'] (xs ++ bs) (.head h) := own_head List.mem_cons_self
  have hhead' : Own [h, h'] (xs ++ bs) (.head h') :=
    own_head (List.mem_cons_of_mem _ List.mem_cons_self)
  have hin : ∀ x, (nfpStailqSwap m h h').fst (.elem x) = m.fst (.elem x) := fun x => by
    rw [hf, Function.update_of_ne (by simp), Function.update_of_ne (by simp)]
  refine hr.exchange hq hq' (fun p hp => ⟨?_, ?_⟩) (hk'.moved ?_ hin ?_) (hk.moved ?_ hin ?_)
  · rw [hf, Cells.update_outside hhead' hp, Cells.update_outside hhead hp]
  · rw [hs, Cells.update_outside hhead' hp, Cells.update_outside hhead hp]
  · rw [hf, Cells.update_pair _ fun e => congrArg m.fst e.symm]
  · rw [hs, Cells.update_pair _ fun e => by cases e; rfl]
  · rw [hf, Function.update_self]
  · rw [hs, Function.update_self]

/-- **One operation.** -/
theorem stailq_step (qs : Lists H E) (op : StailqOp H E) (hok : op.Ok qs) :
    ∃ N, ∀ n, N ≤ n → ∀ m, Represents stailq m qs →
      ∃ m', op.exec n m = some m' ∧ Represents stailq m' (op.apply qs) := by
  cases op with
  | init h =>
      refine ⟨0, fun _ _ m hr => ⟨_, rfl, hr.init ?_ (⟨⟨?_, trivial⟩, ?_⟩ : StailqHangs _ h [])⟩⟩
      · have hhead : Own [h] ([] : List E) (.head h) := own_head List.mem_cons_self
        exact ((m.within_refl _).setFst hhead _).setSnd hhead _
      · exact Function.update_self _ _ _
      · exact Function.update_self _ _ _
  | insertHead h e =>
      obtain ⟨⟨xs, hq⟩, hu⟩ := hok
      refine ⟨0, fun _ _ m hr => ⟨_, rfl, ?_⟩⟩
      rw [StailqOp.apply, modify_some hq]
      exact represents_stailqPut [] hr hq hu
  | insertTail h e =>
      obtain ⟨⟨xs, hq⟩, hu⟩ := hok
      refine ⟨0, fun _ _ m hr => ?_⟩
      rw [StailqOp.apply, modify_some hq]
      exact nfpStailqInsertTail_represents hr hq hu
  | insertAfter h x e =>
      obtain ⟨⟨xs, hq, hx⟩, hu⟩ := hok
      refine ⟨0, fun _ _ m hr => ⟨_, rfl, ?_⟩⟩
      obtain ⟨as, bs, rfl, hxa, -⟩ := split_at hx (stailq.nodup (hr.hangs h xs hq))
      rw [StailqOp.apply, modify_some hq, insertAfter_split hxa]
      have hq2 : qs h = some ((as ++ [x]) ++ bs) := by simpa using hq
      have hres := represents_stailqPut (as ++ [x]) hr hq2 hu
      rw [endOf_append, List.append_assoc] at hres
      exact hres
  | concat h h' =>
      obtain ⟨hne, ⟨xs, hq⟩, ⟨xs', hq'⟩⟩ := hok
      refine ⟨0, fun _ _ m hr => ?_⟩
      rw [StailqOp.apply, modify_some hq, hq', Option.getD_some]
      exact nfpStailqConcat_represents hr hne hq hq'
  | remove h e =>
      obtain ⟨xs, hq, he⟩ := hok
      refine ⟨xs.length, fun n hn m hr => ?_⟩
      obtain ⟨as, bs, rfl, hea, -⟩ := split_at he (stailq.nodup (hr.hangs h xs hq))
      have hlen : as.length ≤ n := by rw [List.length_append] at hn; omega
      rw [StailqOp.apply, modify_some hq, erase_split hea]
      exact nfpStailqRemove_represents as hr hq hlen
  | removeHead h =>
      obtain ⟨x, xs, hq⟩ := hok
      refine ⟨0, fun _ _ m hr => ?_⟩
      have hfirst : m.fst (.head h) = some x := (stailq.hung (hr.hangs h _ hq)).first
      rw [StailqOp.apply, modify_some hq]
      refine ⟨_, ?_, represents_stailqCut [] hr hq⟩
      show (m.fst (.head h)).bind _ = _
      rw [hfirst]
      rfl
  | removeAfter h x =>
      obtain ⟨as, y, bs, hq⟩ := hok
      refine ⟨0, fun _ _ m hr => ?_⟩
      have hung := stailq.hung (hr.hangs h _ hq)
      have hxa : x ∉ as := hung.not_before
      have hnext : m.fst (.elem x) = some y := hung.behind.first
      have hq2 : qs h = some ((as ++ [x]) ++ y :: bs) := by simpa using hq
      have hres := represents_stailqCut (as ++ [x]) hr hq2
      rw [endOf_append, List.append_assoc] at hres
      rw [StailqOp.apply, modify_some hq, removeAfter_split hxa]
      refine ⟨_, ?_, hres⟩
      show (m.fst (.elem x)).bind _ = _
      rw [hnext]
      rfl
  | swap h h' =>
      obtain ⟨⟨xs, hq⟩, ⟨xs', hq'⟩⟩ := hok
      refine ⟨0, fun _ _ m hr => ⟨_, rfl, ?_⟩⟩
      rw [StailqOp.apply, hq, hq']
      exact nfpStailqSwap_represents hr hq hq'

omit [DecidableEq H] [DecidableEq E] in
theorem nfpStailqLast_hangs (hk : StailqHangs m h xs) : nfpStailqLast m h = some xs.getLast? := by
  rcases List.eq_nil_or_concat xs with rfl | ⟨ys, x, rfl⟩
  · have hempty : nfpStailqEmpty m h = true := Option.isNone_iff_eq_none.mpr hk.hung.first
    rw [nfpStailqLast, if_pos hempty]
    rfl
  · have hempty : ¬ nfpStailqEmpty m h = true := fun he => by
      simpa using hk.hung.first_none.mp (Option.isNone_iff_eq_none.mp he)
    rw [nfpStailqLast, if_neg hempty, hk.last]
    simp

end Steps

/-! ## 4. Runs -/

/-- **Tail queues refine lists.** From any memory, every sequence of operations a caller may make
    runs to its end, and then every head in use reads as the list it should hold, from the front
    and at the back. -/
theorem stailq_refines (ops : List (StailqOp H E))
    (hok : Admitted StailqOp.apply StailqOp.Ok (fun _ => none) ops) :
    ∃ N, ∀ n, N ≤ n → ∀ m : Cells H E,
      ∃ m', run (StailqOp.exec n) m ops = some m' ∧
        ∀ h xs, ops.foldl StailqOp.apply (fun _ => none) h = some xs →
          nfpStailqFirst m' h = xs.head? ∧ (nfpStailqEmpty m' h = true ↔ xs = []) ∧
          nfpStailqLast m' h = some xs.getLast? ∧
          ∀ k, xs.length ≤ k → nfpStailqForeach k m' h = some xs := by
  obtain ⟨N, hN⟩ := run_refines stailq_step ops _ hok
  refine ⟨N, fun n hn m => ?_⟩
  obtain ⟨m', hm', hr⟩ := hN n hn m (represents_none stailq m)
  refine ⟨m', hm', fun h xs hq => ?_⟩
  have hk : StailqHangs m' h xs := hr.hangs h xs hq
  have hfirst : nfpStailqFirst m' h = xs.head? := hk.hung.first.trans Option.or_none
  refine ⟨hfirst, ?_, nfpStailqLast_hangs hk, fun k hk' => forEach_hung hk.hung hk'⟩
  rw [nfpStailqEmpty, Option.isNone_iff_eq_none]
  exact hk.hung.first_none

/-- Two tail queues, filled at both ends, joined and emptied from the front. -/
def stailqSample : List (StailqOp Bool Nat) :=
  [.init false, .init true, .insertTail false 1, .insertTail false 2, .insertHead true 3,
    .insertAfter true 3 4, .concat false true, .remove false 4, .swap false true,
    .removeAfter true 2, .removeHead true]

theorem stailq_refines_sample :
    ∃ N, ∀ n, N ≤ n → ∀ m : Cells Bool Nat, ∃ m', run (StailqOp.exec n) m stailqSample = some m' ∧
      nfpStailqLast m' true = some (some 2) ∧ nfpStailqEmpty m' false = true := by
  have hok : Admitted StailqOp.apply StailqOp.Ok (fun _ => none) stailqSample := by
    simp [stailqSample, Admitted, StailqOp.Ok, StailqOp.apply, Unused, Lists.modify,
      Queue.insertAfter]
    exact ⟨⟨[1], 3, [], rfl⟩, 1, [2], rfl⟩
  obtain ⟨N, hN⟩ := stailq_refines stailqSample hok
  refine ⟨N, fun n hn m => ?_⟩
  obtain ⟨m', hm', hread⟩ := hN n hn m
  exact ⟨m', hm', (hread true [2] rfl).2.2.1, (hread false [] rfl).2.1.mpr rfl⟩

end Nfp.Queue
