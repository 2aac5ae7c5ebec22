/-
  File:      Nfp/Queue/Tailq.lean
  Subject:   TAIL QUEUES (NFP_TAILQ_*), linked both ways and with the address of the last link in
             the head: work at both ends, from anywhere, and traversal in both directions.

  A head and the entry of an element have the same shape (two pointers), and NFP_TAILQ_LAST and
  NFP_TAILQ_PREV rely on it: they read the `prev` of an entry as the `last` of a head. In
  `Cells` both are `snd`, so the cast of the source is the identity.

  * `tailq` -- what hangs on a head: the links, the way back, and the last link in `tqh_last`;
  * `represents_tailqInsert`, `represents_tailqRemove` -- an element put in or taken out anywhere;
  * `nfpTailqPrev_hangs`, `nfpTailqLast_hangs` -- the casts read what they should: NULL in front of
    the first element and for an empty queue;
  * **`tailq_refines`** -- from any memory, any sequence of operations a caller may make runs to
    its end and leaves the lists that `apply` says; FOREACH visits them, FOREACH_REVERSE visits
    them backwards. With INVARIANTS no check of the header fails.
-/
import Nfp.Queue.Dlist

namespace Nfp.Queue

open Nfp.Lib

variable {H E : Type} [DecidableEq H] [DecidableEq E]

/-! ## 1. The macros -/

/-- `NFP_TAILQ_FIRST`. -/
def nfpTailqFirst (m : Cells H E) (h : H) : Option E := m.fst (.head h)

/-- `NFP_TAILQ_EMPTY`. -/
def nfpTailqEmpty (m : Cells H E) (h : H) : Bool := (nfpTailqFirst m h).isNone

/-- `NFP_TAILQ_NEXT`. -/
def nfpTailqNext (m : Cells H E) (x : E) : Option E := m.fst (.elem x)

/-- `NFP_TAILQ_LAST`: `tqh_last` read as a head, and what its `tqh_last` leads to. -/
def nfpTailqLast (m : Cells H E) (h : H) : Option (Option E) := do
  let last ← m.snd (.head h)
  let q ← m.snd last
  some (m.fst q)

/-- `NFP_TAILQ_PREV`: `tqe_prev` read as a head, and what its `tqh_last` leads to. -/
def nfpTailqPrev (m : Cells H E) (x : E) : Option (Option E) := do
  let prev ← m.snd (.elem x)
  let q ← m.snd prev
  some (m.fst q)

/-- `NFP_QMD_TAILQ_CHECK_HEAD`. -/
def nfpQmdTailqCheckHead (m : Cells H E) (h : H) : Bool := checkHead m h

/-- `NFP_QMD_TAILQ_CHECK_TAIL`. -/
def nfpQmdTailqCheckTail (m : Cells H E) (h : H) : Bool :=
  match m.snd (.head h) with
  | some q => (m.fst q).isNone
  | none => false

/-- `NFP_QMD_TAILQ_CHECK_NEXT`. -/
def nfpQmdTailqCheckNext (m : Cells H E) (x : E) : Bool := checkNext m x

/-- `NFP_QMD_TAILQ_CHECK_PREV`. -/
def nfpQmdTailqCheckPrev (m : Cells H E) (x : E) : Bool := checkPrev m x

/-- `if (o != NULL) o->prev = q; else head->last = r`. -/
def setPrevOrLast (m : Cells H E) (h : H) (o : Option E) (q r : Option (Slot H E)) : Cells H E :=
  match o with
  | some y => m.setSnd (.elem y) q
  | none => m.setSnd (.head h) r

/-- `NFP_TAILQ_INIT`. -/
def nfpTailqInit (m : Cells H E) (h : H) : Cells H E :=
  let m := m.setFst (.head h) none
  m.setSnd (.head h) (some (.head h))

/-- `NFP_TAILQ_CONCAT`. -/
def nfpTailqConcat (m : Cells H E) (h h' : H) : Option (Cells H E) :=
  if nfpTailqEmpty m h' then some m
  else do
    let last ← m.snd (.head h)
    let m := m.setFst last (nfpTailqFirst m h')
    let y ← nfpTailqFirst m h'
    let m := m.setSnd (.elem y) (m.snd (.head h))
    let m := m.setSnd (.head h) (m.snd (.head h'))
    some (nfpTailqInit m h')

/-- `NFP_TAILQ_INSERT_AFTER`. -/
def nfpTailqInsertAfter (inv : Bool) (m : Cells H E) (h : H) (x e : E) : Option (Cells H E) := do
  assertCheck inv (nfpQmdTailqCheckNext m x)
  let m := m.setFst (.elem e) (nfpTailqNext m x)
  let m := setPrevOrLast m h (nfpTailqNext m e) (some (.elem e)) (some (.elem e))
  let m := m.setFst (.elem x) (some e)
  some (m.setSnd (.elem e) (some (.elem x)))

/-- `NFP_TAILQ_INSERT_BEFORE`. -/
def nfpTailqInsertBefore (inv : Bool) (m : Cells H E) (x e : E) : Option (Cells H E) :=
  putBefore inv m x e

/-- `NFP_TAILQ_INSERT_HEAD`. -/
def nfpTailqInsertHead (inv : Bool) (m : Cells H E) (h : H) (e : E) : Option (Cells H E) := do
  assertCheck inv (nfpQmdTailqCheckHead m h)
  let m := m.setFst (.elem e) (nfpTailqFirst m h)
  let m := setPrevOrLast m h (nfpTailqFirst m h) (some (.elem e)) (some (.elem e))
  let m := m.setFst (.head h) (some e)
  some (m.setSnd (.elem e) (some (.head h)))

/-- `NFP_TAILQ_INSERT_TAIL`. -/
def nfpTailqInsertTail (inv : Bool) (m : Cells H E) (h : H) (e : E) : Option (Cells H E) := do
  assertCheck inv (nfpQmdTailqCheckTail m h)
  let m := m.setFst (.elem e) none
  let m := m.setSnd (.elem e) (m.snd (.head h))
  let last ← m.snd (.head h)
  let m := m.setFst last (some e)
  some (m.setSnd (.head h) (some (.elem e)))

/-- `NFP_TAILQ_REMOVE`. -/
def nfpTailqRemove (inv : Bool) (m : Cells H E) (h : H) (x : E) : Option (Cells H E) := do
  assertCheck inv (nfpQmdTailqCheckNext m x)
  assertCheck inv (nfpQmdTailqCheckPrev m x)
  let m := setPrevOrLast m h (nfpTailqNext m x) (m.snd (.elem x)) (m.snd (.elem x))
  let prev ← m.snd (.elem x)
  some (m.setFst prev (nfpTailqNext m x))

/-- `NFP_TAILQ_SWAP`. -/
def nfpTailqSwap (m : Cells H E) (h h' : H) : Cells H E :=
  let swapFirst := nfpTailqFirst m h
  let swapLast := m.snd (.head h)
  let m := m.setFst (.head h) (nfpTailqFirst m h')
  let m := m.setSnd (.head h) (m.snd (.head h'))
  let m := m.setFst (.head h') swapFirst
  let m := m.setSnd (.head h') swapLast
  let m := setPrevOrLast m h (nfpTailqFirst m h) (some (.head h)) (some (.head h))
  setPrevOrLast m h' (nfpTailqFirst m h') (some (.head h')) (some (.head h'))

/-- `NFP_TAILQ_FOREACH`: the elements visited. -/
def nfpTailqForeach (n : Nat) (m : Cells H E) (h : H) : Option (List E) :=
  forEach (fun x => some (nfpTailqNext m x)) n (nfpTailqFirst m h)

/-- `NFP_TAILQ_FOREACH_REVERSE`: the elements visited. -/
def nfpTailqForeachReverse (n : Nat) (m : Cells H E) (h : H) : Option (List E) := do
  let last ← nfpTailqLast m h
  forEach (nfpTailqPrev m) n last

/-! ## 2. The operations and their meaning -/

/-- An operation. -/
inductive TailqOp (H E : Type) where
  | init (h : H)
  | insertHead (h : H) (e : E)
  | insertTail (h : H) (e : E)
  | insertAfter (h : H) (x e : E)
  | insertBefore (x e : E)
  | concat (h h' : H)
  | remove (h : H) (e : E)
  | swap (h h' : H)
  deriving DecidableEq, Repr

namespace TailqOp

/-- The macros. -/
def exec (inv : Bool) (m : Cells H E) : TailqOp H E → Option (Cells H E)
  | init h => some (nfpTailqInit m h)
  | insertHead h e => nfpTailqInsertHead inv m h e
  | insertTail h e => nfpTailqInsertTail inv m h e
  | insertAfter h x e => nfpTailqInsertAfter inv m h x e
  | insertBefore x e => nfpTailqInsertBefore inv m x e
  | concat h h' => nfpTailqConcat m h h'
  | remove h e => nfpTailqRemove inv m h e
  | swap h h' => some (nfpTailqSwap m h h')

/-- What an operation means. -/
def apply (qs : Lists H E) : TailqOp H E → Lists H E
  | init h => Function.update qs h (some [])
  | insertHead h e => qs.modify h (e :: ·)
  | insertTail h e => qs.modify h (· ++ [e])
  | insertAfter h x e => qs.modify h (Queue.insertAfter x e)
  | insertBefore x e => qs.everywhere (Queue.insertBefore x e)
  | concat h h' => Function.update (qs.modify h (· ++ (qs h').getD [])) h' (some [])
  | remove h e => qs.modify h (·.erase e)
  | swap h h' => Function.update (Function.update qs h (qs h')) h' (qs h)

/-- What a caller has to respect. -/
def Ok (qs : Lists H E) : TailqOp H E → Prop
  | init _ => True
  | insertHead h e => (∃ xs, qs h = some xs) ∧ Unused qs e
  | insertTail h e => (∃ xs, qs h = some xs) ∧ Unused qs e
  | insertAfter h x e => (∃ xs, qs h = some xs ∧ x ∈ xs) ∧ Unused qs e
  | insertBefore x e => (∃ h xs, qs h = some xs ∧ x ∈ xs) ∧ Unused qs e
  | concat h h' => h ≠ h' ∧ (∃ xs, qs h = some xs) ∧ ∃ xs', qs h' = some xs'
  | remove h e => ∃ xs, qs h = some xs ∧ e ∈ xs
  | swap h h' => (∃ xs, qs h = some xs) ∧ ∃ xs', qs h' = some xs'

end TailqOp

/-- **What hangs on the head of a tail queue**: a list, and the last link. -/
structure TailqHangs (m : Cells H E) (h : H) (xs : List E) : Prop extends ListHangs m h xs where
  last : m.snd (.head h) = some (endOf (.head h) xs)

def tailq : Hanging H E where
  hangs := TailqHangs
  hung hk := hk.hung
  frame hh hx hk := ⟨dlist.frame hh hx hk.toListHangs, hh.2.trans hk.last⟩

/-! ## 3. One operation -/

section Steps

variable {m m' : Cells H E} {qs : Lists H E} {h h' : H} {x e : E} {as bs xs : List E}

@[simp] theorem setPrevOrLast_fst (m : Cells H E) (h : H) (o : Option E)
    (q r : Option (Slot H E)) : (setPrevOrLast m h o q r).fst = m.fst := by
  cases o <;> rfl

/-- What the head holds once the link behind an element is known: `tqh_last` moves exactly when
    there is nothing behind. -/
def lastMoved (g : Slot H E → Option (Slot H E)) (h : H) (o : Option E) (r : Option (Slot H E)) :
    Slot H E → Option (Slot H E) :=
  match o with
  | some _ => g
  | none => Function.update g (.head h) r

@[simp] theorem setPrevOrLast_snd (m : Cells H E) (h : H) (o : Option E)
    (q r : Option (Slot H E)) :
    (setPrevOrLast m h o q r).snd = tellBack (lastMoved m.snd h o r) o q := by
  cases o <;> rfl

@[simp] theorem lastMoved_elem (g : Slot H E → Option (Slot H E)) (h : H) (o : Option E)
    (r : Option (Slot H E)) (x : E) : lastMoved g h o r (.elem x) = g (.elem x) := by
  cases o with
  | none => simp [lastMoved]
  | some _ => rfl

theorem lastMoved_outside {S : Slot H E → Prop} {p : Slot H E} (hh : S (.head h)) (hp : ¬ S p)
    (g : Slot H E → Option (Slot H E)) (o : Option E) (r : Option (Slot H E)) :
    lastMoved g h o r p = g p := by
  cases o with
  | none => exact Cells.update_outside hh hp _ _
  | some _ => rfl

theorem backTo_lastMoved {g : Slot H E → Option (Slot H E)} {p : Slot H E} (hb : BackTo g p xs)
    (h : H) (o : Option E) (r : Option (Slot H E)) : BackTo (lastMoved g h o r) p xs :=
  hb.frame fun x _ => lastMoved_elem g h o r x

/-- **An element put in anywhere.** -/
theorem represents_tailqInsert (as : List E) (hr : Represents tailq m qs)
    (hq : qs h = some (as ++ bs)) (hu : Unused qs e)
    (hf : m'.fst = Function.update (Function.update m.fst (.elem e) (m.fst (endOf (.head h) as)))
      (endOf (.head h) as) (some e))
    (hs : m'.snd = Function.update (tellBack (lastMoved m.snd h bs.head? (some (.elem e))) bs.head?
      (some (.elem e))) (.elem e) (some (endOf (.head h) as))) :
    Represents tailq m' (Function.update qs h (some (as ++ e :: bs))) := by
  have hk : TailqHangs m h (as ++ bs) := hr.hangs h _ hq
  have he := hu h _ hq
  rw [List.mem_append, not_or] at he
  have hhead : Own [h] (e :: (as ++ bs)) (.head h) := own_head List.mem_cons_self
  have hnew : Own [h] (e :: (as ++ bs)) (.elem e) := own_elem List.mem_cons_self
  have hbs : ∀ b, bs.head? = some b → Own [h] (e :: (as ++ bs)) (.elem b) := fun b hb =>
    own_elem (List.mem_cons_of_mem _ (List.mem_append_right _ (List.mem_of_mem_head? hb)))
  refine hr.insert hq hu (fun p hp => ⟨?_, ?_⟩) (⟨⟨?_, ?_⟩, ?_⟩ : TailqHangs m' h (as ++ e :: bs))
  · have hend := own_endOf hhead
      fun a (ha : a ∈ as) => List.mem_cons_of_mem e (List.mem_append_left bs ha)
    rw [hf, Cells.update_outside hend hp, Cells.update_outside hnew hp]
  · rw [hs, Cells.update_outside hnew hp, tellBack_outside hbs hp, lastMoved_outside hhead hp]
  · rw [hf]
    exact hk.hung.link he.1 he.2
  · rw [hs]
    exact (backTo_lastMoved hk.back _ _ _).link hk.hung.nodup he.1 he.2
  · rw [hs, Function.update_of_ne (by simp), tellBack_of_ne (by simp)]
    cases bs with
    | nil =>
        rw [endOf_append]
        exact Function.update_self _ _ _
    | cons b bs =>
        rw [endOf_middle (List.cons_ne_nil b bs)]
        exact hk.last

/-- **An element taken out anywhere.** -/
theorem represents_tailqRemove (as : List E) (hr : Represents tailq m qs)
    (hq : qs h = some (as ++ x :: bs))
    (hf : m'.fst = Function.update m.fst (endOf (.head h) as) (m.fst (.elem x)))
    (hs : m'.snd = tellBack (lastMoved m.snd h bs.head? (m.snd (.elem x))) bs.head?
      (m.snd (.elem x))) :
    Represents tailq m' (Function.update qs h (some (as ++ bs))) := by
  have hk : TailqHangs m h (as ++ x :: bs) := hr.hangs h _ hq
  have hhead : Own [h] (as ++ x :: bs) (.head h) := own_head List.mem_cons_self
  have hbs : ∀ b, bs.head? = some b → Own [h] (as ++ x :: bs) (.elem b) := fun b hb =>
    own_elem (List.mem_append_right _ (List.mem_cons_of_mem _ (List.mem_of_mem_head? hb)))
  refine hr.remove hq (fun p hp => ⟨?_, ?_⟩) (⟨⟨?_, ?_⟩, ?_⟩ : TailqHangs m' h (as ++ bs))
  · have hend := own_endOf hhead fun a (ha : a ∈ as) => List.mem_append_left (x :: bs) ha
    rw [hf, Cells.update_outside hend hp]
  · rw [hs, tellBack_outside hbs hp, lastMoved_outside hhead hp]
  · rw [hf]
    exact hk.hung.unlink
  · have hback := (backTo_lastMoved hk.back h bs.head? (m.snd (.elem x))).unlink hk.hung.nodup
    rw [lastMoved_elem] at hback
    rw [hs]
    exact hback
  · rw [hs, tellBack_of_ne (by simp)]
    cases bs with
    | nil =>
        rw [List.append_nil, ← back_at hk.back]
        exact Function.update_self _ _ _
    | cons b bs =>
        rw [← endOf_middle (List.cons_ne_nil b bs)]
        exact hk.last

theorem nfpTailqInsertHead_represents (inv : Bool) (hr : Represents tailq m qs)
    (hq : qs h = some xs) (hu : Unused qs e) :
    ∃ m', nfpTailqInsertHead inv m h e = some m' ∧
      Represents tailq m' (Function.update qs h (some (e :: xs))) := by
  have hk : TailqHangs m h xs := hr.hangs h _ hq
  have hfirst : m.fst (.head h) = xs.head? := hk.hung.first.trans Option.or_none
  rw [nfpTailqInsertHead, nfpQmdTailqCheckHead, checkHead_ok hk.toListHangs, assertCheck_true]
  refine ⟨_, rfl, represents_tailqInsert [] hr hq hu ?_ ?_⟩
  · simp [nfpTailqFirst]
  · simp [nfpTailqFirst, hfirst]

theorem nfpTailqInsertAfter_represents (inv : Bool) (hr : Represents tailq m qs)
    (hq : qs h = some (as ++ x :: bs)) (hu : Unused qs e) :
    ∃ m', nfpTailqInsertAfter inv m h x e = some m' ∧
      Represents tailq m' (Function.update qs h (some (as ++ x :: e :: bs))) := by
  have hk : TailqHangs m h (as ++ x :: bs) := hr.hangs h _ hq
  have hnext := next_hung hk.hung
  have hq2 : qs h = some ((as ++ [x]) ++ bs) := by simpa using hq
  have hres := fun (m' : Cells H E) hf hs =>
    (represents_tailqInsert (as ++ [x]) hr hq2 hu hf hs : Represents tailq m' _)
  rw [endOf_append, List.append_assoc] at hres
  rw [nfpTailqInsertAfter, nfpQmdTailqCheckNext, checkNext_ok hk.toListHangs, assertCheck_true]
  refine ⟨_, rfl, hres _ ?_ ?_⟩
  · simp [nfpTailqNext]
  · simp [nfpTailqNext, hnext]

theorem nfpTailqInsertBefore_represents (inv : Bool) (hr : Represents tailq m qs)
    (hq : qs h = some (as ++ x :: bs)) (hu : Unused qs e) :
    ∃ m', nfpTailqInsertBefore inv m x e = some m' ∧
      Represents tailq m' (Function.update qs h (some (as ++ e :: x :: bs))) := by
  have hk : TailqHangs m h (as ++ x :: bs) := hr.hangs h _ hq
  have hxe : x ≠ e := fun h' => hu h _ hq (h' ▸ List.mem_append_right _ List.mem_cons_self)
  obtain ⟨m', hm', hf, hs⟩ := putBefore_eq inv hk.toListHangs hxe
  exact ⟨m', hm', represents_tailqInsert as hr hq hu hf hs⟩

omit [DecidableEq H] [DecidableEq E] in
theorem checkTail_ok (hk : TailqHangs m h xs) : nfpQmdTailqCheckTail m h = true := by
  rw [nfpQmdTailqCheckTail, hk.last]
  exact Option.isNone_iff_eq_none.mpr hk.hung.fst_endOf

theorem nfpTailqInsertTail_represents (inv : Bool) (hr : Represents tailq m qs)
    (hq : qs h = some xs) (hu : Unused qs e) :
    ∃ m', nfpTailqInsertTail inv m h e = some m' ∧
      Represents tailq m' (Function.update qs h (some (xs ++ [e]))) := by
  have hk : TailqHangs m h xs := hr.hangs h _ hq
  have hq' : qs h = some (xs ++ []) := by rw [List.append_nil]; exact hq
  refine ⟨(((m.setFst (.elem e) none).setSnd (.elem e) (m.snd (.head h))).setFst
    (endOf (.head h) xs) (some e)).setSnd (.head h) (some (.elem e)), ?_,
    represents_tailqInsert xs hr hq' hu ?_ ?_⟩
  · rw [nfpTailqInsertTail, checkTail_ok hk, assertCheck_true]
    simp [hk.last]
  · rw [hk.hung.fst_endOf]
    rfl
  · rw [← hk.last]
    exact Function.update_comm (by simp) _ _ _

theorem nfpTailqRemove_represents (inv : Bool) (hr : Represents tailq m qs)
    (hq : qs h = some (as ++ x :: bs)) :
    ∃ m', nfpTailqRemove inv m h x = some m' ∧
      Represents tailq m' (Function.update qs h (some (as ++ bs))) := by
  have hk : TailqHangs m h (as ++ x :: bs) := hr.hangs h _ hq
  have hnext := next_hung hk.hung
  have hprev := back_at hk.back
  have hx : x ∉ bs := (List.nodup_cons.mp (List.nodup_append.mp hk.hung.nodup).2.1).1
  have hkeep : tellBack (lastMoved m.snd h bs.head? (some (endOf (.head h) as))) bs.head?
      (some (endOf (.head h) as)) (.elem x) = m.snd (.elem x) := by
    rw [tellBack_of_ne fun b hb e => ?_, lastMoved_elem]
    cases e
    exact hx (List.mem_of_mem_head? hb)
  refine ⟨(setPrevOrLast m h bs.head? (m.snd (.elem x)) (m.snd (.elem x))).setFst
    (endOf (.head h) as) (m.fst (.elem x)), ?_, represents_tailqRemove as hr hq ?_ ?_⟩
  · rw [nfpTailqRemove, nfpQmdTailqCheckNext, nfpQmdTailqCheckPrev, checkNext_ok hk.toListHangs,
      checkPrev_ok hk.toListHangs, assertCheck_true]
    simp [nfpTailqNext, hnext, hprev, hkeep]
  · rw [Cells.setFst_fst, setPrevOrLast_fst]
  · rw [Cells.setFst_snd, setPrevOrLast_snd]

theorem nfpTailqConcat_represents (hr : Represents tailq m qs) (hne : h ≠ h')
    (hq : qs h = some xs) (hq' : qs h' = some bs) :
    ∃ m', nfpTailqConcat m h h' = some m' ∧
      Represents tailq m' (Function.update (Function.update qs h (some (xs ++ bs))) h'
        (some [])) := by
  have hk : TailqHangs m h xs := hr.hangs h _ hq
  have hk' : TailqHangs m h' bs := hr.hangs h' _ hq'
  cases bs with
  | nil =>
      have hempty : nfpTailqEmpty m h' = true := Option.isNone_iff_eq_none.mpr hk'.hung.first
      refine ⟨m, if_pos hempty, ?_⟩
      rw [List.append_nil, ← hq, Function.update_eq_self, ← hq', Function.update_eq_self]
      exact hr
  | cons y bs =>
      have hfirst : m.fst (.head h') = some y := hk'.hung.first
      have hempty : ¬ nfpTailqEmpty m h' = true := by simp [nfpTailqEmpty, nfpTailqFirst, hfirst]
      have hs : (Slot.head h : Slot H E) ≠ .head h' := fun e => hne (by cases e; rfl)
      refine ⟨nfpTailqInit (((m.setFst (endOf (.head h) xs) (some y)).setSnd (.elem y)
        (some (endOf (.head h) xs))).setSnd (.head h) (m.snd (.head h'))) h', ?_,
        hr.concat hne hq hq' ?_ (⟨⟨?_, ?_⟩, ?_⟩ : TailqHangs _ h (xs ++ y :: bs))
        (⟨⟨⟨?_, trivial⟩, trivial⟩, ?_⟩ : TailqHangs _ h' [])⟩
      · rw [nfpTailqConcat, if_neg hempty, hk.last]
        simp [nfpTailqFirst, Function.update_of_ne (head_ne_endOf hne.symm), hfirst, hk.last]
      · have hhead : Own [h, h'] (xs ++ y :: bs) (.head h) := own_head List.mem_cons_self
        have hhead' : Own [h, h'] (xs ++ y :: bs) (.head h') :=
          own_head (List.mem_cons_of_mem _ List.mem_cons_self)
        have hend := own_endOf hhead fun a (ha : a ∈ xs) => List.mem_append_left (y :: bs) ha
        have hy : Own [h, h'] (xs ++ y :: bs) (.elem y) :=
          own_elem (List.mem_append_right _ List.mem_cons_self)
        exact (((((m.within_refl _).setFst hend _).setSnd hy _).setSnd hhead _).setFst hhead'
          _).setSnd hhead' _
      · have hjoin := hk.hung.join hk'.hung (hr.apart h h' _ _ hne hq hq')
        rw [hfirst] at hjoin
        exact hjoin.update hs (by simp) none
      · have hjoin := hk.back.join hk'.back hk'.hung.nodup (hr.apart h h' _ _ hne hq hq')
        exact BackTo.update (BackTo.update hjoin (by simp) _) (by simp) _
      · simp only [nfpTailqInit, Cells.setSnd_snd, Cells.setFst_snd, Function.update_of_ne hs,
          Function.update_self]
        rw [hk'.last, endOf_append]
        rfl
      · exact Function.update_self _ _ _
      · exact Function.update_self _ _ _

/-- What NFP_TAILQ_SWAP writes, also when the two heads are the same. -/
theorem nfpTailqSwap_spec (m : Cells H E) (h h' : H) :
    (nfpTailqSwap m h h').fst =
      Function.update (Function.update m.fst (.head h) (m.fst (.head h'))) (.head h')
        (m.fst (.head h)) ∧
    (nfpTailqSwap m h h').snd =
      tellBack (tellBack (Function.update (Function.update m.snd (.head h)
          (if m.fst (.head h') = none then some (.head h) else m.snd (.head h'))) (.head h')
          (if m.fst (.head h) = none then some (.head h') else m.snd (.head h)))
        (m.fst (.head h')) (some (.head h))) (m.fst (.head h)) (some (.head h')) := by
  by_cases hne : h = h'
  · subst hne
    cases h1 : m.fst (.head h) <;>
      simp [nfpTailqSwap, nfpTailqFirst, setPrevOrLast, tellBack, h1]
  · have hs : (Slot.head h : Slot H E) ≠ .head h' := fun e => hne (by cases e; rfl)
    have hy : ∀ y, (Slot.elem y : Slot H E) ≠ .head h' := by simp
    cases h1 : m.fst (.head h) <;> cases h2 : m.fst (.head h') <;>
      simp [nfpTailqSwap, nfpTailqFirst, setPrevOrLast, tellBack, h1, h2, hs,
        Function.update_comm hs, Function.update_comm (hy _)]

theorem nfpTailqSwap_represents (hr : Represents tailq m qs) (hq : qs h = some xs)
    (hq' : qs h' = some bs) :
    Represents tailq (nfpTailqSwap m h h')
      (Function.update (Function.update qs h (some bs)) h' (some xs)) := by
  have hk : TailqHangs m h xs := hr.hangs h _ hq
  have hk' : TailqHangs m h' bs := hr.hangs h' _ hq'
  have hfirst : m.fst (.head h) = xs.head? := hk.hung.first.trans Option.or_none
  have hfirst' : m.fst (.head h') = bs.head? := hk'.hung.first.trans Option.or_none
  obtain ⟨hf, hs⟩ := nfpTailqSwap_spec m h h'
  have hin : ∀ x, (nfpTailqSwap m h h').fst (.elem x) = m.fst (.elem x) := fun x => by
    rw [hf, Function.update_of_ne (by simp), Function.update_of_ne (by simp)]
  have hback : BackTo (nfpTailqSwap m h h').snd (.head h) bs ∧
      BackTo (nfpTailqSwap m h h').snd (.head h') xs := by
    rw [hs, hfirst, hfirst']
    have hb : ∀ v w, BackTo (Function.update (Function.update m.snd (.head h) v) (.head h') w)
        (.head h) xs := fun v w => BackTo.update (hk.back.update (by simp) v) (by simp) w
    have hb' : ∀ v w, BackTo (Function.update (Function.update m.snd (.head h) v) (.head h') w)
        (.head h') bs := fun v w => BackTo.update (hk'.back.update (by simp) v) (by simp) w
    by_cases hne : h = h'
    · subst hne
      rw [hq] at hq'
      cases hq'
      have htwice := fun v w =>
        ((hb v w).tell hk.hung.nodup (.head h)).tell hk.hung.nodup (.head h)
      exact ⟨htwice _ _, htwice _ _⟩
    · exact (hb _ _).exchange (hb' _ _) hk.hung.nodup hk'.hung.nodup
        (hr.apart h h' _ _ hne hq hq')
  have hhead : Own [h, h'] (xs ++ bs) (.head h) := own_head List.mem_cons_self
  have hhead' : Own [h, h'] (xs ++ bs) (.head h') :=
    own_head (List.mem_cons_of_mem _ List.mem_cons_self)
  refine hr.exchange hq hq' (fun p hp => ⟨?_, ?_⟩)
    (⟨⟨⟨?_, ?_⟩, hback.1⟩, ?_⟩ : TailqHangs _ h bs)
    (⟨⟨⟨?_, ?_⟩, hback.2⟩, ?_⟩ : TailqHangs _ h' xs)
  · rw [hf, Cells.update_outside hhead' hp, Cells.update_outside hhead hp]
  · rw [hs, hfirst, hfirst']
    rw [tellBack_outside (fun b hb => own_elem (List.mem_append_left _ (List.mem_of_mem_head? hb))) hp,
      tellBack_outside (fun b hb => own_elem (List.mem_append_right _ (List.mem_of_mem_head? hb))) hp,
      Cells.update_outside hhead' hp, Cells.update_outside hhead hp]
  · rw [hf, Cells.update_pair _ fun e => congrArg m.fst e.symm]
    exact hk'.hung.first
  · exact hk'.hung.links.frame fun x _ => hin x
  · rw [hs, tellBack_of_ne (by simp), tellBack_of_ne (by simp),
      Cells.update_pair _ fun e => by cases e; rfl, hk'.last]
    exact hk'.hung.endOf_moved
  · rw [hf, Function.update_self]
    exact hk.hung.first
  · exact hk.hung.links.frame fun x _ => hin x
  · rw [hs, tellBack_of_ne (by simp), tellBack_of_ne (by simp), Function.update_self, hk.last]
    exact hk.hung.endOf_moved

/-- **One operation.** -/
theorem tailq_step (inv : Bool) (qs : Lists H E) (op : TailqOp H E) (hok : op.Ok qs)
    (m : Cells H E) (hr : Represents tailq m qs) :
    ∃ m', op.exec inv m = some m' ∧ Represents tailq m' (op.apply qs) := by
  cases op with
  | init h =>
      refine ⟨_, rfl, hr.init ?_ (⟨⟨⟨?_, trivial⟩, trivial⟩, ?_⟩ : TailqHangs _ h [])⟩
      · have hhead : Own [h] ([] : List E) (.head h) := own_head List.mem_cons_self
        exact ((m.within_refl _).setFst hhead _).setSnd hhead _
      · exact Function.update_self _ _ _
      · exact Function.update_self _ _ _
  | insertHead h e =>
      obtain ⟨⟨xs, hq⟩, hu⟩ := hok
      rw [TailqOp.apply, modify_some hq]
      exact nfpTailqInsertHead_represents inv hr hq hu
  | insertTail h e =>
      obtain ⟨⟨xs, hq⟩, hu⟩ := hok
      rw [TailqOp.apply, modify_some hq]
      exact nfpTailqInsertTail_represents inv hr hq hu
  | insertAfter h x e =>
      obtain ⟨⟨xs, hq, hx⟩, hu⟩ := hok
      obtain ⟨as, bs, rfl, hxa, -⟩ := split_at hx (tailq.nodup (hr.hangs h xs hq))
      rw [TailqOp.apply, modify_some hq, insertAfter_split hxa]
      exact nfpTailqInsertAfter_represents inv hr hq hu
  | insertBefore x e =>
      obtain ⟨⟨h, xs, hq, hx⟩, hu⟩ := hok
      rw [TailqOp.apply, everywhere_some hr hq hx fun _ => insertBefore_of_not_mem]
      obtain ⟨as, bs, rfl, hxa, -⟩ := split_at hx (tailq.nodup (hr.hangs h xs hq))
      rw [insertBefore_split hxa]
      exact nfpTailqInsertBefore_represents inv hr hq hu
  | concat h h' =>
      obtain ⟨hne, ⟨xs, hq⟩, ⟨xs', hq'⟩⟩ := hok
      rw [TailqOp.apply, modify_some hq, hq', Option.getD_some]
      exact nfpTailqConcat_represents hr hne hq hq'
  | remove h e =>
      obtain ⟨xs, hq, he⟩ := hok
      obtain ⟨as, bs, rfl, hea, -⟩ := split_at he (tailq.nodup (hr.hangs h xs hq))
      rw [TailqOp.apply, modify_some hq, erase_split hea]
      exact nfpTailqRemove_represents inv hr hq
  | swap h h' =>
      obtain ⟨⟨xs, hq⟩, ⟨xs', hq'⟩⟩ := hok
      rw [TailqOp.apply, hq, hq']
      exact ⟨_, rfl, nfpTailqSwap_represents hr hq hq'⟩

omit [DecidableEq H] [DecidableEq E] in
/-- **NFP_TAILQ_PREV**: the place in front of an element is an entry or the head; read as a head,
    its second pointer leads to what stands in front. -/
theorem nfpTailqPrev_hangs (hk : TailqHangs m h (as ++ x :: bs)) :
    nfpTailqPrev m x = some as.getLast? := by
  rw [nfpTailqPrev, back_at hk.back]
  rcases List.eq_nil_or_concat as with rfl | ⟨cs, y, rfl⟩
  · show (m.snd (.head h)).bind _ = _
    rw [hk.last]
    exact congrArg some hk.hung.fst_endOf
  · rw [List.concat_eq_append] at hk ⊢
    have hk' : TailqHangs m h (cs ++ y :: x :: bs) := by simpa using hk
    rw [endOf_append]
    show (m.snd (.elem y)).bind _ = _
    rw [back_at hk'.back, List.getLast?_concat]
    exact congrArg some hk'.hung.before

omit [DecidableEq H] [DecidableEq E] in
/-- **NFP_TAILQ_LAST**, also of an empty queue. -/
theorem nfpTailqLast_hangs (hk : TailqHangs m h xs) : nfpTailqLast m h = some xs.getLast? := by
  rw [nfpTailqLast, hk.last]
  rcases List.eq_nil_or_concat xs with rfl | ⟨cs, y, rfl⟩
  · show (m.snd (.head h)).bind _ = _
    rw [hk.last]
    exact congrArg some hk.hung.first
  · rw [List.concat_eq_append] at hk ⊢
    rw [endOf_append]
    show (m.snd (.elem y)).bind _ = _
    rw [back_at hk.back, List.getLast?_concat]
    exact congrArg some hk.hung.before

omit [DecidableEq H] [DecidableEq E] in
/-- The two steps of a traversal, over the order they give. -/
theorem nfpTailqPrev_walks (hk : TailqHangs m h (Dir.backward.order (as ++ x :: bs))) :
    nfpTailqPrev m x = some bs.head? := by
  have hrev : Dir.backward.order (as ++ x :: bs) = bs.reverse ++ x :: as.reverse := by
    simp [Dir.order]
  rw [hrev] at hk
  rw [nfpTailqPrev_hangs hk, List.getLast?_reverse]

omit [DecidableEq H] [DecidableEq E] in
theorem nfpTailqForeachReverse_hangs (hk : TailqHangs m h xs) {n : Nat} (hn : xs.length ≤ n) :
    nfpTailqForeachReverse n m h = some xs.reverse := by
  rw [nfpTailqForeachReverse, nfpTailqLast_hangs hk, ← List.head?_reverse]
  refine forEach_reads xs.reverse (fun as x bs e => ?_) (by simpa using hn)
  have hk' : TailqHangs m h (Dir.backward.order (as ++ x :: bs)) := by
    rw [← e]
    simpa [Dir.order] using hk
  exact nfpTailqPrev_walks hk'

end Steps

/-! ## 4. Runs -/

/-- **Tail queues refine lists.** From any memory, every sequence of operations a caller may make
    runs to its end, checked or not, and then every head in use reads as the list it should hold,
    forwards and backwards. -/
theorem tailq_refines (inv : Bool) (ops : List (TailqOp H E))
    (hok : Admitted TailqOp.apply TailqOp.Ok (fun _ => none) ops) (m : Cells H E) :
    ∃ m', run (TailqOp.exec inv) m ops = some m' ∧
      ∀ h xs, ops.foldl TailqOp.apply (fun _ => none) h = some xs →
        nfpTailqFirst m' h = xs.head? ∧ (nfpTailqEmpty m' h = true ↔ xs = []) ∧
        nfpTailqLast m' h = some xs.getLast? ∧
        ∀ k, xs.length ≤ k →
          nfpTailqForeach k m' h = some xs ∧ nfpTailqForeachReverse k m' h = some xs.reverse := by
  obtain ⟨m', hm', hr⟩ := run_simulates (tailq_step inv) ops _ hok m (represents_none tailq m)
  refine ⟨m', hm', fun h xs hq => ?_⟩
  have hk : TailqHangs m' h xs := hr.hangs h xs hq
  refine ⟨hk.hung.first.trans Option.or_none, ?_, nfpTailqLast_hangs hk, fun k hn => ?_⟩
  · rw [nfpTailqEmpty, Option.isNone_iff_eq_none]
    exact hk.hung.first_none
  · exact ⟨forEach_hung hk.hung hn, nfpTailqForeachReverse_hangs hk hn⟩

/-- Two tail queues, worked on at both ends and in the middle, joined and swapped. -/
def tailqSample : List (TailqOp Bool Nat) :=
  [.init false, .init true, .insertTail false 1, .insertHead false 2, .insertTail true 3,
    .insertAfter true 3 4, .insertBefore 4 5, .concat false true, .remove false 4,
    .swap false true, .remove true 2]

theorem tailq_refines_sample :
    ∃ m', run (TailqOp.exec true) ⟨fun _ => some 7, fun _ => none⟩ tailqSample = some m' ∧
      nfpTailqForeach 3 m' true = some [1, 3, 5] ∧
      nfpTailqForeachReverse 3 m' true = some [5, 3, 1] ∧ nfpTailqLast m' false = some none := by
  have hok : Admitted TailqOp.apply TailqOp.Ok (fun _ => none) tailqSample := by
    simp [tailqSample, Admitted, TailqOp.Ok, TailqOp.apply, Unused, Lists.modify,
      Lists.everywhere, Queue.insertAfter, Queue.insertBefore]
  obtain ⟨m', hm', hread⟩ := tailq_refines true tailqSample hok ⟨fun _ => some 7, fun _ => none⟩
  have hends := (hread true [1, 3, 5] rfl).2.2.2 3 (Nat.le_refl 3)
  exact ⟨m', hm', hends.1, hends.2, (hread false [] rfl).2.2.1⟩

end Nfp.Queue
