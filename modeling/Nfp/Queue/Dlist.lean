/-
  File:      Nfp/Queue/Dlist.lean
  Subject:   LISTS (NFP_LIST_*), linked both ways: an element is put in or taken out at once, from
             anywhere, and without naming the list it is in.

  * `dlist` -- what hangs on a head: the links to NULL, and in each `le_prev` the address of the
    pointer that leads to the element;
  * `represents_listInsert`, `represents_listRemove` -- an element put in or taken out anywhere;
  * **`list_refines`** -- from any memory, any sequence of operations a caller may make runs to
    its end and leaves the lists that `apply` says. With INVARIANTS no check of the header fails.
-/
import Nfp.Queue.Basic

namespace Nfp.Queue

open Nfp.Lib

variable {H E : Type} [DecidableEq H] [DecidableEq E]

/-! ## 1. The macros -/

/-- `NFP_LIST_FIRST`. -/
def nfpListFirst (m : Cells H E) (h : H) : Option E := m.fst (.head h)

/-- `NFP_LIST_EMPTY`. -/
def nfpListEmpty (m : Cells H E) (h : H) : Bool := (nfpListFirst m h).isNone

/-- `NFP_LIST_NEXT`. -/
def nfpListNext (m : Cells H E) (x : E) : Option E := m.fst (.elem x)

/-- First element and head name each other. -/
def checkHead (m : Cells H E) (h : H) : Bool :=
  match m.fst (.head h) with
  | some x => decide (m.snd (.elem x) = some (.head h))
  | none => true

/-- An element and the next one name each other. -/
def checkNext (m : Cells H E) (x : E) : Bool :=
  match m.fst (.elem x) with
  | some y => decide (m.snd (.elem y) = some (.elem x))
  | none => true

/-- What an element names in front leads to it. -/
def checkPrev (m : Cells H E) (x : E) : Bool :=
  match m.snd (.elem x) with
  | some q => decide (m.fst q = some x)
  | none => false

/-- `NFP_QMD_LIST_CHECK_HEAD`. -/
def nfpQmdListCheckHead (m : Cells H E) (h : H) : Bool := checkHead m h

/-- `NFP_QMD_LIST_CHECK_NEXT`. -/
def nfpQmdListCheckNext (m : Cells H E) (x : E) : Bool := checkNext m x

/-- `NFP_QMD_LIST_CHECK_PREV`. -/
def nfpQmdListCheckPrev (m : Cells H E) (x : E) : Bool := checkPrev m x

/-- `if (o != NULL) o->prev = q`. -/
def setPrev (m : Cells H E) (o : Option E) (q : Option (Slot H E)) : Cells H E :=
  match o with
  | some y => m.setSnd (.elem y) q
  | none => m

/-- `NFP_LIST_INIT`. -/
def nfpListInit (m : Cells H E) (h : H) : Cells H E := m.setFst (.head h) none

/-- `NFP_LIST_INSERT_AFTER`. The pointer tested is the one just copied. -/
def nfpListInsertAfter (inv : Bool) (m : Cells H E) (x e : E) : Option (Cells H E) := do
  assertCheck inv (nfpQmdListCheckNext m x)
  let m := m.setFst (.elem e) (nfpListNext m x)
  let m := setPrev m (nfpListNext m x) (some (.elem e))
  let m := m.setFst (.elem x) (some e)
  some (m.setSnd (.elem e) (some (.elem x)))

/-- INSERT_BEFORE, the same text for lists and tail queues: no head is touched. -/
def putBefore (inv : Bool) (m : Cells H E) (x e : E) : Option (Cells H E) := do
  assertCheck inv (checkPrev m x)
  let m := m.setSnd (.elem e) (m.snd (.elem x))
  let m := m.setFst (.elem e) (some x)
  let prev ← m.snd (.elem x)
  let m := m.setFst prev (some e)
  some (m.setSnd (.elem x) (some (.elem e)))

/-- `NFP_LIST_INSERT_BEFORE`. -/
def nfpListInsertBefore (inv : Bool) (m : Cells H E) (x e : E) : Option (Cells H E) :=
  putBefore inv m x e

/-- `NFP_LIST_INSERT_HEAD`. -/
def nfpListInsertHead (inv : Bool) (m : Cells H E) (h : H) (e : E) : Option (Cells H E) := do
  assertCheck inv (nfpQmdListCheckHead m h)
  let m := m.setFst (.elem e) (nfpListFirst m h)
  let m := setPrev m (nfpListFirst m h) (some (.elem e))
  let m := m.setFst (.head h) (some e)
  some (m.setSnd (.elem e) (some (.head h)))

/-- `NFP_LIST_REMOVE`. -/
def nfpListRemove (inv : Bool) (m : Cells H E) (x : E) : Option (Cells H E) := do
  assertCheck inv (nfpQmdListCheckNext m x)
  assertCheck inv (nfpQmdListCheckPrev m x)
  let m := setPrev m (nfpListNext m x) (m.snd (.elem x))
  let prev ← m.snd (.elem x)
  some (m.setFst prev (nfpListNext m x))

/-- `NFP_LIST_SWAP`. -/
def nfpListSwap (m : Cells H E) (h h' : H) : Cells H E :=
  let swapTmp := nfpListFirst m h
  let m := m.setFst (.head h) (nfpListFirst m h')
  let m := m.setFst (.head h') swapTmp
  let m := setPrev m (nfpListFirst m h) (some (.head h))
  setPrev m (nfpListFirst m h') (some (.head h'))

/-- `NFP_LIST_FOREACH`: the elements visited. -/
def nfpListForeach (n : Nat) (m : Cells H E) (h : H) : Option (List E) :=
  forEach (fun x => some (nfpListNext m x)) n (nfpListFirst m h)

/-! ## 2. The operations and their meaning -/

/-- An operation. Three of them name an element and no list. -/
inductive ListOp (H E : Type) where
  | init (h : H)
  | insertHead (h : H) (e : E)
  | insertAfter (x e : E)
  | insertBefore (x e : E)
  | remove (e : E)
  | swap (h h' : H)
  deriving DecidableEq, Repr

namespace ListOp

/-- The macros. -/
def exec (inv : Bool) (m : Cells H E) : ListOp H E → Option (Cells H E)
  | init h => some (nfpListInit m h)
  | insertHead h e => nfpListInsertHead inv m h e
  | insertAfter x e => nfpListInsertAfter inv m x e
  | insertBefore x e => nfpListInsertBefore inv m x e
  | remove e => nfpListRemove inv m e
  | swap h h' => some (nfpListSwap m h h')

/-- What an operation means. -/
def apply (qs : Lists H E) : ListOp H E → Lists H E
  | init h => Function.update qs h (some [])
  | insertHead h e => qs.modify h (e :: ·)
  | insertAfter x e => qs.everywhere (Queue.insertAfter x e)
  | insertBefore x e => qs.everywhere (Queue.insertBefore x e)
  | remove e => qs.everywhere (·.erase e)
  | swap h h' => Function.update (Function.update qs h (qs h')) h' (qs h)

/-- What a caller has to respect. -/
def Ok (qs : Lists H E) : ListOp H E → Prop
  | init _ => True
  | insertHead h e => (∃ xs, qs h = some xs) ∧ Unused qs e
  | insertAfter x e => (∃ h xs, qs h = some xs ∧ x ∈ xs) ∧ Unused qs e
  | insertBefore x e => (∃ h xs, qs h = some xs ∧ x ∈ xs) ∧ Unused qs e
  | remove e => ∃ h xs, qs h = some xs ∧ e ∈ xs
  | swap h h' => (∃ xs, qs h = some xs) ∧ ∃ xs', qs h' = some xs'

end ListOp

/-- **What hangs on the head of a list.** -/
structure ListHangs (m : Cells H E) (h : H) (xs : List E) : Prop where
  hung : Hung m.fst (.head h) xs none
  back : BackTo m.snd (.head h) xs

def dlist : Hanging H E where
  hangs := ListHangs
  hung hk := hk.hung
  frame hh hx hk := ⟨hk.hung.frame hh.1 fun x hxs => (hx x hxs).1,
    hk.back.frame fun x hxs => (hx x hxs).2⟩

/-! ## 3. One operation -/

section Steps

variable {m m' : Cells H E} {qs : Lists H E} {h h' : H} {x e : E} {as bs xs : List E}

@[simp] theorem setPrev_fst (m : Cells H E) (o : Option E) (q : Option (Slot H E)) :
    (setPrev m o q).fst = m.fst := by
  cases o <;> rfl

@[simp] theorem setPrev_snd (m : Cells H E) (o : Option E) (q : Option (Slot H E)) :
    (setPrev m o q).snd = tellBack m.snd o q := by
  cases o <;> rfl

omit [DecidableEq H] [DecidableEq E] in
/-- What the element in `le_prev` names: the place in front. -/
theorem back_at {g : Slot H E → Option (Slot H E)} {p : Slot H E}
    (hb : BackTo g p (as ++ x :: bs)) : g (.elem x) = some (endOf p as) :=
  (backTo_append.mp hb).2.1

omit [DecidableEq H] in
theorem checkPrev_ok (hk : ListHangs m h (as ++ x :: bs)) : checkPrev m x = true := by
  rw [checkPrev, back_at hk.back]
  exact decide_eq_true hk.hung.before

theorem checkNext_ok (hk : ListHangs m h (as ++ x :: bs)) : checkNext m x = true := by
  rw [checkNext, next_hung hk.hung]
  cases bs with
  | nil => rfl
  | cons y bs => exact decide_eq_true (backTo_append.mp hk.back).2.2.1

theorem checkHead_ok (hk : ListHangs m h xs) : checkHead m h = true := by
  have hfirst : m.fst (.head h) = xs.head? := hk.hung.first.trans Option.or_none
  rw [checkHead, hfirst]
  cases xs with
  | nil => rfl
  | cons x xs => exact decide_eq_true hk.back.1

/-- What INSERT_BEFORE writes. -/
theorem putBefore_eq (inv : Bool) (hk : ListHangs m h (as ++ x :: bs)) (hxe : x ≠ e) :
    ∃ m', putBefore inv m x e = some m' ∧
      m'.fst = Function.update (Function.update m.fst (.elem e) (m.fst (endOf (.head h) as)))
        (endOf (.head h) as) (some e) ∧
      m'.snd = Function.update (Function.update m.snd (.elem x) (some (.elem e))) (.elem e)
        (some (endOf (.head h) as)) := by
  have hslot : (Slot.elem x : Slot H E) ≠ .elem e := fun h' => hxe (by cases h'; rfl)
  have hprev := back_at hk.back
  refine ⟨(((m.setSnd (.elem e) (m.snd (.elem x))).setFst (.elem e) (some x)).setFst
    (endOf (.head h) as) (some e)).setSnd (.elem x) (some (.elem e)), ?_, ?_, ?_⟩
  · rw [putBefore, checkPrev_ok hk, assertCheck_true]
    simp [hslot, hprev]
  · rw [hk.hung.before]
    rfl
  · rw [← hprev]
    exact Function.update_comm hslot.symm _ _ _

/-- **An element put in anywhere.** -/
theorem represents_listInsert (as : List E) (hr : Represents dlist m qs)
    (hq : qs h = some (as ++ bs)) (hu : Unused qs e)
    (hf : m'.fst = Function.update (Function.update m.fst (.elem e) (m.fst (endOf (.head h) as)))
      (endOf (.head h) as) (some e))
    (hs : m'.snd = Function.update (tellBack m.snd bs.head? (some (.elem e))) (.elem e)
      (some (endOf (.head h) as))) :
    Represents dlist m' (Function.update qs h (some (as ++ e :: bs))) := by
  have hk : ListHangs m h (as ++ bs) := hr.hangs h _ hq
  have he := hu h _ hq
  rw [List.mem_append, not_or] at he
  have hnew : Own [h] (e :: (as ++ bs)) (.elem e) := own_elem List.mem_cons_self
  refine hr.insert hq hu (fun p hp => ⟨?_, ?_⟩) (⟨?_, ?_⟩ : ListHangs m' h (as ++ e :: bs))
  · have hend := own_endOf (own_head List.mem_cons_self : Own [h] (e :: (as ++ bs)) (.head h))
      fun a (ha : a ∈ as) => List.mem_cons_of_mem e (List.mem_append_left bs ha)
    rw [hf, Cells.update_outside hend hp, Cells.update_outside hnew hp]
  · rw [hs, Cells.update_outside hnew hp]
    refine tellBack_outside (fun b hb => own_elem ?_) hp _
    exact List.mem_cons_of_mem _ (List.mem_append_right _ (List.mem_of_mem_head? hb))
  · rw [hf]
    exact hk.hung.link he.1 he.2
  · rw [hs]
    exact hk.back.link hk.hung.nodup he.1 he.2

/-- **An element taken out anywhere.** -/
theorem represents_listRemove (as : List E) (hr : Represents dlist m qs)
    (hq : qs h = some (as ++ x :: bs))
    (hf : m'.fst = Function.update m.fst (endOf (.head h) as) (m.fst (.elem x)))
    (hs : m'.snd = tellBack m.snd bs.head? (m.snd (.elem x))) :
    Represents dlist m' (Function.update qs h (some (as ++ bs))) := by
  have hk : ListHangs m h (as ++ x :: bs) := hr.hangs h _ hq
  refine hr.remove hq (fun p hp => ⟨?_, ?_⟩) (⟨?_, ?_⟩ : ListHangs m' h (as ++ bs))
  · have hend := own_endOf (own_head List.mem_cons_self : Own [h] (as ++ x :: bs) (.head h))
      fun a (ha : a ∈ as) => List.mem_append_left (x :: bs) ha
    rw [hf, Cells.update_outside hend hp]
  · rw [hs]
    refine tellBack_outside (fun b hb => own_elem ?_) hp _
    exact List.mem_append_right _ (List.mem_cons_of_mem _ (List.mem_of_mem_head? hb))
  · rw [hf]
    exact hk.hung.unlink
  · rw [hs]
    exact hk.back.unlink hk.hung.nodup

theorem nfpListInsertHead_represents (inv : Bool) (hr : Represents dlist m qs)
    (hq : qs h = some xs) (hu : Unused qs e) :
    ∃ m', nfpListInsertHead inv m h e = some m' ∧
      Represents dlist m' (Function.update qs h (some (e :: xs))) := by
  have hk : ListHangs m h xs := hr.hangs h _ hq
  have hfirst : m.fst (.head h) = xs.head? := hk.hung.first.trans Option.or_none
  rw [nfpListInsertHead, nfpQmdListCheckHead, checkHead_ok hk, assertCheck_true]
  refine ⟨_, rfl, represents_listInsert [] hr hq hu ?_ ?_⟩
  · simp [nfpListFirst]
  · simp [nfpListFirst, hfirst]

theorem nfpListInsertAfter_represents (inv : Bool) (hr : Represents dlist m qs)
    (hq : qs h = some (as ++ x :: bs)) (hu : Unused qs e) :
    ∃ m', nfpListInsertAfter inv m x e = some m' ∧
      Represents dlist m' (Function.update qs h (some (as ++ x :: e :: bs))) := by
  have hk : ListHangs m h (as ++ x :: bs) := hr.hangs h _ hq
  have hxe : x ≠ e := fun h' => hu h _ hq (h' ▸ List.mem_append_right _ List.mem_cons_self)
  have hnext := next_hung hk.hung
  have hq2 : qs h = some ((as ++ [x]) ++ bs) := by simpa using hq
  have hres := fun (m' : Cells H E) hf hs =>
    (represents_listInsert (as ++ [x]) hr hq2 hu hf hs : Represents dlist m' _)
  rw [endOf_append, List.append_assoc] at hres
  rw [nfpListInsertAfter, nfpQmdListCheckNext, checkNext_ok hk, assertCheck_true]
  refine ⟨_, rfl, hres _ ?_ ?_⟩
  · simp [nfpListNext]
  · simp [nfpListNext, hnext, hxe]

theorem nfpListInsertBefore_represents (inv : Bool) (hr : Represents dlist m qs)
    (hq : qs h = some (as ++ x :: bs)) (hu : Unused qs e) :
    ∃ m', nfpListInsertBefore inv m x e = some m' ∧
      Represents dlist m' (Function.update qs h (some (as ++ e :: x :: bs))) := by
  have hxe : x ≠ e := fun h' => hu h _ hq (h' ▸ List.mem_append_right _ List.mem_cons_self)
  obtain ⟨m', hm', hf, hs⟩ := putBefore_eq inv (hr.hangs h _ hq) hxe
  exact ⟨m', hm', represents_listInsert as hr hq hu hf hs⟩

theorem nfpListRemove_represents (inv : Bool) (hr : Represents dlist m qs)
    (hq : qs h = some (as ++ x :: bs)) :
    ∃ m', nfpListRemove inv m x = some m' ∧
      Represents dlist m' (Function.update qs h (some (as ++ bs))) := by
  have hk : ListHangs m h (as ++ x :: bs) := hr.hangs h _ hq
  have hnext := next_hung hk.hung
  have hprev := back_at hk.back
  have hx : x ∉ bs := (List.nodup_cons.mp (List.nodup_append.mp hk.hung.nodup).2.1).1
  have hkeep : tellBack m.snd bs.head? (some (endOf (.head h) as)) (.elem x) = m.snd (.elem x) := by
    refine tellBack_of_ne (fun b hb e => ?_) _
    cases e
    exact hx (List.mem_of_mem_head? hb)
  refine ⟨(setPrev m bs.head? (m.snd (.elem x))).setFst (endOf (.head h) as) (m.fst (.elem x)), ?_,
    represents_listRemove as hr hq ?_ ?_⟩
  · rw [nfpListRemove, nfpQmdListCheckNext, nfpQmdListCheckPrev, checkNext_ok hk, checkPrev_ok hk,
      assertCheck_true]
    simp [nfpListNext, hnext, hprev, hkeep]
  · rw [Cells.setFst_fst, setPrev_fst]
  · rw [Cells.setFst_snd, setPrev_snd]

/-- What NFP_LIST_SWAP writes, also when the two heads are the same. -/
theorem nfpListSwap_spec (m : Cells H E) (h h' : H) :
    (nfpListSwap m h h').fst =
      Function.update (Function.update m.fst (.head h) (m.fst (.head h'))) (.head h')
        (m.fst (.head h)) ∧
    (nfpListSwap m h h').snd =
      tellBack (tellBack m.snd (m.fst (.head h')) (some (.head h))) (m.fst (.head h))
        (some (.head h')) := by
  by_cases hne : h = h'
  · subst hne
    simp [nfpListSwap, nfpListFirst]
  · have hs : (Slot.head h : Slot H E) ≠ .head h' := fun e => hne (by cases e; rfl)
    simp [nfpListSwap, nfpListFirst, hs]

theorem nfpListSwap_represents (hr : Represents dlist m qs) (hq : qs h = some xs)
    (hq' : qs h' = some bs) :
    Represents dlist (nfpListSwap m h h')
      (Function.update (Function.update qs h (some bs)) h' (some xs)) := by
  have hk : ListHangs m h xs := hr.hangs h _ hq
  have hk' : ListHangs m h' bs := hr.hangs h' _ hq'
  have hfirst : m.fst (.head h) = xs.head? := hk.hung.first.trans Option.or_none
  have hfirst' : m.fst (.head h') = bs.head? := hk'.hung.first.trans Option.or_none
  obtain ⟨hf, hs⟩ := nfpListSwap_spec m h h'
  have hhead : Own [h, h'] (xs ++ bs) (.head h) := own_head List.mem_cons_self
  have hhead' : Own [h, h'] (xs ++ bs) (.head h') :=
    own_head (List.mem_cons_of_mem _ List.mem_cons_self)
  have hin : ∀ x, (nfpListSwap m h h').fst (.elem x) = m.fst (.elem x) := fun x => by
    rw [hf, Function.update_of_ne (by simp), Function.update_of_ne (by simp)]
  have hback : BackTo (nfpListSwap m h h').snd (.head h) bs ∧
      BackTo (nfpListSwap m h h').snd (.head h') xs := by
    rw [hs, hfirst, hfirst']
    by_cases hne : h = h'
    · subst hne
      rw [hq] at hq'
      cases hq'
      have htwice := (hk.back.tell hk.hung.nodup (.head h)).tell hk.hung.nodup (.head h)
      exact ⟨htwice, htwice⟩
    · exact hk.back.exchange hk'.back hk.hung.nodup hk'.hung.nodup
        (hr.apart h h' _ _ hne hq hq')
  refine hr.exchange hq hq' (fun p hp => ⟨?_, ?_⟩) (⟨⟨?_, ?_⟩, hback.1⟩ : ListHangs _ h bs)
    (⟨⟨?_, ?_⟩, hback.2⟩ : ListHangs _ h' xs)
  · rw [hf, Cells.update_outside hhead' hp, Cells.update_outside hhead hp]
  · rw [hs, hfirst, hfirst']
    rw [tellBack_outside (fun b hb => own_elem (List.mem_append_left _ (List.mem_of_mem_head? hb))) hp,
      tellBack_outside (fun b hb => own_elem (List.mem_append_right _ (List.mem_of_mem_head? hb))) hp]
  · rw [hf, Cells.update_pair _ fun e => congrArg m.fst e.symm]
    exact hk'.hung.first
  · exact hk'.hung.links.frame fun x _ => hin x
  · rw [hf, Function.update_self]
    exact hk.hung.first
  · exact hk.hung.links.frame fun x _ => hin x

/-- **One operation.** -/
theorem list_step (inv : Bool) (qs : Lists H E) (op : ListOp H E) (hok : op.Ok qs) (m : Cells H E)
    (hr : Represents dlist m qs) :
    ∃ m', op.exec inv m = some m' ∧ Represents dlist m' (op.apply qs) := by
  cases op with
  | init h =>
      refine ⟨_, rfl, hr.init ?_ (⟨⟨Function.update_self _ _ _, trivial⟩, trivial⟩ : ListHangs _ h [])⟩
      exact (m.within_refl _).setFst (own_head List.mem_cons_self) _
  | insertHead h e =>
      obtain ⟨⟨xs, hq⟩, hu⟩ := hok
      rw [ListOp.apply, modify_some hq]
      exact nfpListInsertHead_represents inv hr hq hu
  | insertAfter x e =>
      obtain ⟨⟨h, xs, hq, hx⟩, hu⟩ := hok
      rw [ListOp.apply, everywhere_some hr hq hx fun _ => insertAfter_of_not_mem]
      obtain ⟨as, bs, rfl, hxa, -⟩ := split_at hx (dlist.nodup (hr.hangs h xs hq))
      rw [insertAfter_split hxa]
      exact nfpListInsertAfter_represents inv hr hq hu
  | insertBefore x e =>
      obtain ⟨⟨h, xs, hq, hx⟩, hu⟩ := hok
      rw [ListOp.apply, everywhere_some hr hq hx fun _ => insertBefore_of_not_mem]
      obtain ⟨as, bs, rfl, hxa, -⟩ := split_at hx (dlist.nodup (hr.hangs h xs hq))
      rw [insertBefore_split hxa]
      exact nfpListInsertBefore_represents inv hr hq hu
  | remove e =>
      obtain ⟨h, xs, hq, he⟩ := hok
      rw [ListOp.apply, everywhere_some hr hq he fun _ => List.erase_of_not_mem]
      obtain ⟨as, bs, rfl, hea, -⟩ := split_at he (dlist.nodup (hr.hangs h xs hq))
      rw [erase_split hea]
      exact nfpListRemove_represents inv hr hq
  | swap h h' =>
      obtain ⟨⟨xs, hq⟩, ⟨xs', hq'⟩⟩ := hok
      rw [ListOp.apply, hq, hq']
      exact ⟨_, rfl, nfpListSwap_represents hr hq hq'⟩

end Steps

/-! ## 4. Runs -/

/-- **Lists refine lists.** From any memory, every sequence of operations a caller may make runs to
    its end, checked or not, and then every head in use reads as the list it should hold. -/
theorem list_refines (inv : Bool) (ops : List (ListOp H E))
    (hok : Admitted ListOp.apply ListOp.Ok (fun _ => none) ops) (m : Cells H E) :
    ∃ m', run (ListOp.exec inv) m ops = some m' ∧
      ∀ h xs, ops.foldl ListOp.apply (fun _ => none) h = some xs →
        nfpListFirst m' h = xs.head? ∧ (nfpListEmpty m' h = true ↔ xs = []) ∧
        ∀ k, xs.length ≤ k → nfpListForeach k m' h = some xs := by
  obtain ⟨m', hm', hr⟩ := run_simulates (list_step inv) ops _ hok m (represents_none dlist m)
  refine ⟨m', hm', fun h xs hq => ?_⟩
  have hk : ListHangs m' h xs := hr.hangs h xs hq
  refine ⟨hk.hung.first.trans Option.or_none, ?_, fun k hk' => forEach_hung hk.hung hk'⟩
  rw [nfpListEmpty, Option.isNone_iff_eq_none]
  exact hk.hung.first_none

/-- Two lists, one of them worked on through its elements only. -/
def listSample : List (ListOp Bool Nat) :=
  [.init false, .init true, .insertHead false 1, .insertHead true 4, .insertAfter 1 2,
    .insertBefore 2 3, .remove 1, .swap false true, .insertBefore 4 1, .remove 3]

theorem list_refines_sample :
    ∃ m', run (ListOp.exec true) ⟨fun _ => some 7, fun _ => none⟩ listSample = some m' ∧
      nfpListForeach 2 m' false = some [1, 4] ∧ nfpListForeach 1 m' true = some [2] := by
  have hok : Admitted ListOp.apply ListOp.Ok (fun _ => none) listSample := by
    simp [listSample, Admitted, ListOp.Ok, ListOp.apply, Unused, Lists.modify, Lists.everywhere,
      Queue.insertAfter, Queue.insertBefore]
  obtain ⟨m', hm', hread⟩ := list_refines true listSample hok ⟨fun _ => some 7, fun _ => none⟩
  exact ⟨m', hm', (hread false [1, 4] rfl).2.2 2 (Nat.le_refl 2),
    (hread true [2] rfl).2.2 1 (Nat.le_refl 1)⟩

end Nfp.Queue
