/-
  File:      Nfp/Lib/Chain.lean
  Subject:   INTRUSIVE LINKED LISTS IN MEMORY. Nothing here names a program: the heads and the
             elements are any two types.

  A `Slot` is a pair of neighbouring pointers, in a list head or inside an element: the first
  leads to an element (or is NULL), the second is the address of a place. Lists are kept by
  writing to places; how much of the second pointers a kind of list uses is its own affair.

  * `LinksTo f xs o` -- every element of `xs` leads to its successor, the last one to `o`;
    `Hung f p xs o` -- the same with the place `p` in front;
  * `BackTo g p xs` -- the second pointers lead back: each element names the place that leads to
    it, the first one `p`;
  * `endOf p xs` -- the place that leads out of the list: where an element is appended;
  * `Hung.retarget` -- a write at that place changes where the list leads, and nothing else;
  * `forEach` -- the loop from one element to the next, `forEach_reads`: it visits the list;
  * `Hanging`, `Represents` -- a kind of list, and a memory that holds one list for each head in
    use, no element in two of them; `Represents.change` -- what an operation with a known
    footprint has to show.
-/
import Mathlib.Logic.Function.Basic
import Mathlib.Data.List.Nodup

namespace Nfp.Lib

variable {H E : Type}

/-- Where a pair of pointers stands: in a list head, or in an element. -/
inductive Slot (H E : Type) where
  | head (h : H)
  | elem (e : E)
  deriving DecidableEq, Repr

/-- The place that leads out of a list that starts at `p`. -/
def endOf : Slot H E → List E → Slot H E
  | p, [] => p
  | _, x :: xs => endOf (.elem x) xs

section EndOf

variable {p : Slot H E} {x : E} {xs ys : List E}

@[simp] theorem endOf_nil : endOf p [] = p := rfl

@[simp] theorem endOf_cons : endOf p (x :: xs) = endOf (.elem x) xs := rfl

@[simp] theorem endOf_append : endOf p (xs ++ ys) = endOf (endOf p xs) ys := by
  induction xs generalizing p with
  | nil => rfl
  | cons x xs ih => exact ih

theorem endOf_of_ne_nil (p q : Slot H E) (h : xs ≠ []) : endOf p xs = endOf q xs := by
  cases xs with
  | nil => exact absurd rfl h
  | cons x xs => rfl

/-- An element in the middle does not matter. -/
theorem endOf_middle (h : ys ≠ []) : endOf p (xs ++ x :: ys) = endOf p (xs ++ ys) := by
  rw [endOf_append, endOf_append, endOf_cons]
  exact endOf_of_ne_nil _ _ h

/-- The end of a list is its start or one of its elements. -/
theorem endOf_cases (p : Slot H E) (xs : List E) :
    endOf p xs = p ∨ ∃ x ∈ xs, endOf p xs = .elem x := by
  induction xs generalizing p with
  | nil => exact Or.inl rfl
  | cons x xs ih =>
      refine Or.inr ?_
      rcases ih (.elem x) with h | ⟨y, hy, h⟩
      · exact ⟨x, List.mem_cons_self, h⟩
      · exact ⟨y, List.mem_cons_of_mem _ hy, h⟩

theorem endOf_ne_elem (hp : p ≠ .elem x) (hx : x ∉ xs) : endOf p xs ≠ .elem x := by
  intro h
  rcases endOf_cases p xs with hs | ⟨y, hy, hs⟩
  · exact hp (hs.symm.trans h)
  · rw [hs] at h
    cases h
    exact hx hy

theorem elem_ne_endOf {k : H} (hx : x ∉ xs) : Slot.elem x ≠ endOf (Slot.head k) xs :=
  Ne.symm (endOf_ne_elem (fun h => by cases h) hx)

theorem head_ne_endOf {k k' : H} (hk : k' ≠ k) : Slot.head k' ≠ endOf (Slot.head k) xs := by
  intro e
  rcases endOf_cases (Slot.head k) xs with hs | ⟨y, _, hs⟩
  · rw [hs] at e
    cases e
    exact hk rfl
  · rw [hs] at e
    cases e

theorem elem_ne_elem (h : x ∉ xs) : ∀ y ∈ xs, (Slot.elem y : Slot H E) ≠ .elem x :=
  fun y hy e => h (by cases e; exact hy)

end EndOf

/-! ## 1. The links -/

/-- **The links of a list**: each element leads to the next one, the last one to `o`. -/
def LinksTo (f : Slot H E → Option E) : List E → Option E → Prop
  | [], _ => True
  | x :: xs, o => f (.elem x) = xs.head?.or o ∧ LinksTo f xs o

/-- **A list hung on a place**: the place leads to the first element. -/
structure Hung (f : Slot H E → Option E) (p : Slot H E) (xs : List E) (o : Option E) : Prop where
  first : f p = xs.head?.or o
  links : LinksTo f xs o

/-- **The way back**: each element names the place that leads to it. -/
def BackTo (g : Slot H E → Option (Slot H E)) : Slot H E → List E → Prop
  | _, [] => True
  | p, x :: xs => g (.elem x) = some p ∧ BackTo g (.elem x) xs

section Links

variable {f f' : Slot H E → Option E} {p q : Slot H E} {x y : E} {xs ys : List E}
  {o o' : Option E}

@[simp] theorem linksTo_nil : LinksTo f [] o := trivial

@[simp] theorem linksTo_cons :
    LinksTo f (x :: xs) o ↔ f (.elem x) = xs.head?.or o ∧ LinksTo f xs o := Iff.rfl

@[simp] theorem linksTo_append :
    LinksTo f (xs ++ ys) o ↔ LinksTo f xs (ys.head?.or o) ∧ LinksTo f ys o := by
  induction xs with
  | nil => exact ⟨fun h => ⟨trivial, h⟩, fun h => h.2⟩
  | cons x xs ih =>
      simp only [List.cons_append, linksTo_cons, ih, List.head?_append, Option.or_assoc]
      exact and_assoc.symm

theorem LinksTo.frame (h : LinksTo f xs o) (hf : ∀ x ∈ xs, f' (.elem x) = f (.elem x)) :
    LinksTo f' xs o := by
  induction xs with
  | nil => trivial
  | cons x xs ih =>
      refine ⟨?_, ih h.2 fun y hy => hf y (List.mem_cons_of_mem _ hy)⟩
      rw [hf x List.mem_cons_self]
      exact h.1

theorem Hung.frame (h : Hung f p xs o) (hp : f' p = f p)
    (hf : ∀ x ∈ xs, f' (.elem x) = f (.elem x)) : Hung f' p xs o :=
  ⟨hp.trans h.first, h.links.frame hf⟩

/-- **A list in two parts**: the first leads to the second, which hangs on its end. -/
theorem hung_append :
    Hung f p (xs ++ ys) o ↔ Hung f p xs (ys.head?.or o) ∧ Hung f (endOf p xs) ys o := by
  induction xs generalizing p with
  | nil =>
      refine ⟨fun h => ⟨⟨h.first, trivial⟩, h⟩, fun h => h.2⟩
  | cons x xs ih =>
      constructor
      · intro h
        have htail : Hung f (.elem x) (xs ++ ys) o := ⟨h.links.1, h.links.2⟩
        obtain ⟨h1, h2⟩ := ih.mp htail
        exact ⟨⟨h.first, h1.first, h1.links⟩, h2⟩
      · rintro ⟨h1, h2⟩
        have htail : Hung f (.elem x) (xs ++ ys) o :=
          ih.mpr ⟨⟨h1.links.1, h1.links.2⟩, h2⟩
        exact ⟨h1.first, htail.first, htail.links⟩

/-- The list behind an element hangs on it. -/
theorem Hung.behind (h : Hung f p (xs ++ x :: ys) o) : Hung f (.elem x) ys o := by
  have h2 := (hung_append.mp h).2
  exact ⟨h2.links.1, h2.links.2⟩

/-- What leads to an element. -/
theorem Hung.before (h : Hung f p (xs ++ x :: ys) o) : f (endOf p xs) = some x :=
  (hung_append.mp h).2.first

/-- What the end of a list leads to. -/
theorem Hung.fst_endOf (h : Hung f p xs o) : f (endOf p xs) = o := by
  rw [← List.append_nil xs] at h
  exact (hung_append.mp h).2.first

/-- Where a list leads: to NULL exactly when it is empty. -/
theorem Hung.first_none (h : Hung f p xs none) : f p = none ↔ xs = [] := by
  rw [h.first, Option.or_none, List.head?_eq_none_iff]

/-- The end of a list on another head: there if the list is empty, else where it was. -/
theorem Hung.endOf_moved {k k' : H} (h : Hung f (.head k) xs none) :
    (if f (.head k) = none then some (.head k') else some (endOf (.head k) xs)) =
      some (endOf (.head k') xs) := by
  by_cases hnil : xs = []
  · rw [if_pos (h.first_none.mpr hnil), hnil]
    rfl
  · rw [if_neg (mt h.first_none.mp hnil), endOf_of_ne_nil _ _ hnil]

/-- A list hangs as well on any place that leads to the same element. -/
theorem Hung.move (h : Hung f p xs o) (hq : f q = f p) : Hung f q xs o :=
  ⟨hq.trans h.first, h.links⟩

/-- The list that hangs on a place is determined by the links. -/
theorem Hung.unique (h : Hung f p xs none) (h' : Hung f p ys none) : xs = ys := by
  induction xs generalizing p ys with
  | nil =>
      cases ys with
      | nil => rfl
      | cons y ys =>
          have hf := h.first
          rw [h'.first] at hf
          cases hf
  | cons x xs ih =>
      cases ys with
      | nil =>
          have hf := h.first
          rw [h'.first] at hf
          cases hf
      | cons y ys =>
          have hf := h.first
          rw [h'.first] at hf
          have hxy : y = x := Option.some.inj hf
          subst hxy
          have htail := ih ⟨h.links.1, h.links.2⟩ ⟨h'.links.1, h'.links.2⟩
          rw [htail]

/-- **A list that ends has no element twice**: behind the second occurrence would stand what
    stands behind the first. -/
theorem Hung.nodup (h : Hung f p xs none) : xs.Nodup := by
  induction xs generalizing p with
  | nil => exact List.nodup_nil
  | cons x xs ih =>
      have htail : Hung f (.elem x) xs none := ⟨h.links.1, h.links.2⟩
      refine List.nodup_cons.mpr ⟨fun hx => ?_, ih htail⟩
      obtain ⟨as, bs, rfl⟩ := List.append_of_mem hx
      have hlen := congrArg List.length (htail.unique htail.behind)
      rw [List.length_append, List.length_cons] at hlen
      omega

theorem Hung.not_before (h : Hung f p (xs ++ x :: ys) none) : x ∉ xs :=
  fun hx => (List.nodup_append.mp h.nodup).2.2 x hx x List.mem_cons_self rfl

/-- The two parts of a list without repetition: what leads out of the first is not in the
    second. -/
theorem Hung.apart {k : H} {as bs : List E} (h : Hung f (.head k) (as ++ bs) none) :
    as.Nodup ∧ ∀ b ∈ bs, (Slot.elem b : Slot H E) ≠ endOf (.head k) as := by
  obtain ⟨ha, _, hab⟩ := List.nodup_append.mp h.nodup
  exact ⟨ha, fun b hb => elem_ne_endOf fun hba => hab b hba b hb rfl⟩

end Links

/-! ## Loops over a list -/

/-- `for (var = first; var; var = next(var))`: the elements visited, from `var` on, in at most
    `n` rounds. -/
def forEach (next : E → Option (Option E)) : Nat → Option E → Option (List E)
  | _, none => some []
  | 0, some _ => none
  | n + 1, some x => do
      let y ← next x
      let rest ← forEach next n y
      some (x :: rest)

theorem forEach_cons {next : E → Option (Option E)} {n : Nat} {x : E} {y : Option E}
    {rest : List E} (hnext : next x = some y) (hrest : forEach next n y = some rest) :
    forEach next (n + 1) (some x) = some (x :: rest) := by
  show (next x).bind _ = _
  rw [hnext, Option.bind_some, hrest]
  rfl

/-- A loop that ends has gone on from its first element. -/
theorem forEach_some {next : E → Option (Option E)} {n : Nat} {x : E} {visited : List E}
    (h : forEach next n (some x) = some visited) :
    ∃ k y rest, n = k + 1 ∧ next x = some y ∧ forEach next k y = some rest ∧
      visited = x :: rest := by
  cases n with
  | zero => cases h
  | succ k =>
      change (next x).bind _ = some visited at h
      obtain ⟨y, hnext, h⟩ := Option.bind_eq_some_iff.mp h
      obtain ⟨rest, hrest, h⟩ := Option.bind_eq_some_iff.mp h
      exact ⟨k, y, rest, rfl, hnext, hrest, (Option.some.inj h).symm⟩

/-- **The loop visits the list**, in order and to its end. -/
theorem forEach_reads {next : E → Option (Option E)} (xs : List E) {n : Nat}
    (hnext : ∀ as x bs, xs = as ++ x :: bs → next x = some bs.head?) (hn : xs.length ≤ n) :
    forEach next n xs.head? = some xs := by
  induction xs generalizing n with
  | nil => cases n <;> rfl
  | cons x xs ih =>
      obtain ⟨k, rfl⟩ : ∃ k, n = k + 1 := ⟨n - 1, by rw [List.length_cons] at hn; omega⟩
      have hk : xs.length ≤ k := by rw [List.length_cons] at hn; omega
      exact forEach_cons (hnext [] x xs rfl)
        (ih (fun as y bs e => hnext (x :: as) y bs (by rw [e]; rfl)) hk)

section Retarget

variable [DecidableEq H] [DecidableEq E] {f : Slot H E → Option E} {p : Slot H E}
  {xs : List E} {o : Option E}

/-- **A write at the end of a list** makes it lead somewhere else; the list stays. -/
theorem Hung.retarget (h : Hung f p xs o) (hp : ∀ x ∈ xs, p ≠ .elem x) (hn : xs.Nodup)
    (o' : Option E) : Hung (Function.update f (endOf p xs) o') p xs o' := by
  induction xs generalizing p with
  | nil => exact ⟨Function.update_self _ _ _, trivial⟩
  | cons x xs ih =>
      have hx : x ∉ xs := (List.nodup_cons.mp hn).1
      have htail : Hung f (.elem x) xs o := ⟨h.links.1, h.links.2⟩
      have hnew := ih htail (fun y hy e => hx (by cases e; exact hy)) (List.nodup_cons.mp hn).2
      refine ⟨?_, hnew.first, hnew.links⟩
      -- the place in front is not the one written
      have hne : p ≠ endOf (.elem x) xs := by
        intro e
        rcases endOf_cases (Slot.elem x) xs with hs | ⟨y, hy, hs⟩
        · exact hp x List.mem_cons_self (e.trans hs)
        · exact hp y (List.mem_cons_of_mem _ hy) (e.trans hs)
      rw [endOf_cons, Function.update_of_ne hne]
      exact h.first

/-- A write at another place leaves a list alone. -/
theorem Hung.update (h : Hung f p xs o) {q : Slot H E} (hp : p ≠ q)
    (hq : ∀ x ∈ xs, Slot.elem x ≠ q) (v : Option E) : Hung (Function.update f q v) p xs o :=
  h.frame (Function.update_of_ne hp _ _) fun x hx => Function.update_of_ne (hq x hx) _ _

variable {k k' : H} {x e : E} {as bs ys : List E}

/-- **Putting an element in**: it leads where the place in front of it led, and that place leads
    to it. -/
theorem Hung.link (h : Hung f (.head k) (as ++ bs) none) (ha : e ∉ as) (hb : e ∉ bs) :
    Hung (Function.update (Function.update f (.elem e) (f (endOf (.head k) as)))
      (endOf (.head k) as) (some e)) (.head k) (as ++ e :: bs) none := by
  obtain ⟨hpre, hpost⟩ := hung_append.mp h
  obtain ⟨hn, hab⟩ := h.apart
  have hpre' := hpre.update (q := .elem e) (by simp) (elem_ne_elem ha) (f (endOf (.head k) as))
  refine hung_append.mpr ⟨hpre'.retarget (by simp) hn _, Function.update_self _ _ _, ?_, ?_⟩
  · rw [Function.update_of_ne (elem_ne_endOf ha), Function.update_self]
    exact hpost.first
  · refine hpost.links.frame fun b hbb => ?_
    rw [Function.update_of_ne (hab b hbb), Function.update_of_ne (elem_ne_elem hb b hbb)]

/-- **Taking an element out**: the place in front of it leads where it led. -/
theorem Hung.unlink (h : Hung f (.head k) (as ++ x :: bs) none) :
    Hung (Function.update f (endOf (.head k) as) (f (.elem x))) (.head k) (as ++ bs) none := by
  obtain ⟨hpre, hpost⟩ := hung_append.mp h
  obtain ⟨hn, hab⟩ := h.apart
  have hx : f (.elem x) = bs.head?.or none := hpost.links.1
  refine hung_append.mpr ⟨?_, ?_, ?_⟩
  · rw [hx]
    exact hpre.retarget (by simp) hn _
  · rw [Function.update_self]
    exact hx
  · exact hpost.links.2.frame fun b hb =>
      Function.update_of_ne (hab b (List.mem_cons_of_mem _ hb)) _ _

/-- **Joining two lists**: the end of the first leads to the second. -/
theorem Hung.join (h : Hung f (.head k) as none) (h' : Hung f (.head k') bs none)
    (hab : ∀ a ∈ as, a ∉ bs) :
    Hung (Function.update f (endOf (.head k) as) (f (.head k'))) (.head k) (as ++ bs) none := by
  refine hung_append.mpr ⟨?_, ?_, ?_⟩
  · rw [h'.first]
    exact h.retarget (by simp) h.nodup _
  · rw [Function.update_self]
    exact h'.first
  · exact h'.links.frame fun b hb =>
      Function.update_of_ne (elem_ne_endOf fun hba => hab b hba hb) _ _

end Retarget

section Back

variable {g g' : Slot H E → Option (Slot H E)} {p q : Slot H E} {x : E} {xs ys : List E}

@[simp] theorem backTo_nil : BackTo g p [] := trivial

@[simp] theorem backTo_cons :
    BackTo g p (x :: xs) ↔ g (.elem x) = some p ∧ BackTo g (.elem x) xs := Iff.rfl

@[simp] theorem backTo_append :
    BackTo g p (xs ++ ys) ↔ BackTo g p xs ∧ BackTo g (endOf p xs) ys := by
  induction xs generalizing p with
  | nil => simp
  | cons x xs ih =>
      rw [List.cons_append, backTo_cons, backTo_cons, ih, endOf_cons, and_assoc]

theorem BackTo.frame (h : BackTo g p xs) (hg : ∀ x ∈ xs, g' (.elem x) = g (.elem x)) :
    BackTo g' p xs := by
  induction xs generalizing p with
  | nil => trivial
  | cons x xs ih =>
      refine ⟨?_, ih h.2 fun y hy => hg y (List.mem_cons_of_mem _ hy)⟩
      rw [hg x List.mem_cons_self]
      exact h.1

variable [DecidableEq H] [DecidableEq E]

theorem BackTo.update (h : BackTo g p xs) (hq : ∀ x ∈ xs, Slot.elem x ≠ q)
    (v : Option (Slot H E)) : BackTo (Function.update g q v) p xs :=
  h.frame fun x hx => Function.update_of_ne (hq x hx) _ _

/-- **The way back to another place**: the first element is told, the others stay. -/
theorem BackTo.move (h : BackTo g p (x :: xs)) (hx : x ∉ xs) (q : Slot H E) :
    BackTo (Function.update g (.elem x) (some q)) q (x :: xs) := by
  refine ⟨Function.update_self _ _ _, BackTo.update h.2 (fun y hy e => hx ?_) _⟩
  cases e
  exact hy

/-- The element `o`, if there is one, is told that `q` leads to it. -/
def tellBack (g : Slot H E → Option (Slot H E)) (o : Option E) (q : Option (Slot H E)) :
    Slot H E → Option (Slot H E) :=
  match o with
  | some b => Function.update g (.elem b) q
  | none => g

theorem tellBack_of_ne {o : Option E} {r : Slot H E} (hr : ∀ b, o = some b → r ≠ .elem b)
    (q' : Option (Slot H E)) : tellBack g o q' r = g r := by
  cases o with
  | none => rfl
  | some b => exact Function.update_of_ne (hr b rfl) _ _

theorem tellBack_outside {o : Option E} {r : Slot H E} {S : Slot H E → Prop}
    (ho : ∀ b, o = some b → S (.elem b)) (hr : ¬ S r) (q' : Option (Slot H E)) :
    tellBack g o q' r = g r :=
  tellBack_of_ne (fun b hb e => hr (by rw [e]; exact ho b hb)) q'

/-- The list behind is told its new way back. -/
theorem BackTo.tell (h : BackTo g p xs) (hn : xs.Nodup) (q : Slot H E) :
    BackTo (tellBack g xs.head? (some q)) q xs := by
  cases xs with
  | nil => trivial
  | cons x xs => exact BackTo.move h (List.nodup_cons.mp hn).1 q

theorem BackTo.tell_other (h : BackTo g p xs) {o : Option E} (ho : ∀ b, o = some b → b ∉ xs)
    (v : Option (Slot H E)) : BackTo (tellBack g o v) p xs :=
  h.frame fun x hx => tellBack_of_ne (fun b hb e => ho b hb (by cases e; exact hx)) v

/-- **Two lists change places, the way back**: each first element is told, the one list after the
    other. -/
theorem BackTo.exchange (h : BackTo g p xs) (h' : BackTo g q ys) (hn : xs.Nodup) (hn' : ys.Nodup)
    (hap : ∀ x ∈ xs, x ∉ ys) :
    BackTo (tellBack (tellBack g ys.head? (some p)) xs.head? (some q)) p ys ∧
      BackTo (tellBack (tellBack g ys.head? (some p)) xs.head? (some q)) q xs := by
  constructor
  · exact (h'.tell hn' p).tell_other (fun b hb => hap b (List.mem_of_mem_head? hb)) _
  · exact (h.tell_other (fun b hb hbx => hap b hbx (List.mem_of_mem_head? hb)) _).tell hn q

variable {k : H} {e : E} {as bs : List E}

/-- **Putting an element in, the way back**: it names the place in front of it, and the element
    behind names it. -/
theorem BackTo.link (h : BackTo g (.head k) (as ++ bs)) (hn : (as ++ bs).Nodup) (ha : e ∉ as)
    (hb : e ∉ bs) :
    BackTo (Function.update (tellBack g bs.head? (some (.elem e))) (.elem e)
      (some (endOf (.head k) as))) (.head k) (as ++ e :: bs) := by
  obtain ⟨_, hbn, hab⟩ := List.nodup_append.mp hn
  obtain ⟨hpre, hpost⟩ := backTo_append.mp h
  refine backTo_append.mpr ⟨?_, Function.update_self _ _ _, ?_⟩
  · refine BackTo.update (hpre.tell_other (fun b hbh hba => ?_) _)
      (fun a haa e' => ha (by cases e'; exact haa)) _
    exact hab b hba b (List.mem_of_mem_head? hbh) rfl
  · exact BackTo.update (hpost.tell hbn _) (fun b hbb e' => hb (by cases e'; exact hbb)) _

/-- **Joining two lists, the way back**: the first element of the second is told. -/
theorem BackTo.join (h : BackTo g (.head k) as) (h' : BackTo g q bs) (hn : bs.Nodup)
    (hap : ∀ a ∈ as, a ∉ bs) :
    BackTo (tellBack g bs.head? (some (endOf (.head k) as))) (.head k) (as ++ bs) :=
  backTo_append.mpr ⟨h.tell_other (fun b hb hba => hap b hba (List.mem_of_mem_head? hb)) _,
    h'.tell hn _⟩

/-- **Taking an element out, the way back**: the element behind is told what the one taken out
    named. -/
theorem BackTo.unlink (h : BackTo g (.head k) (as ++ x :: bs)) (hn : (as ++ x :: bs).Nodup) :
    BackTo (tellBack g bs.head? (g (.elem x))) (.head k) (as ++ bs) := by
  obtain ⟨_, hbn, hab⟩ := List.nodup_append.mp hn
  obtain ⟨hpre, hx, hpost⟩ := backTo_append.mp h
  refine backTo_append.mpr ⟨hpre.tell_other (fun b hbh hba => ?_) _, ?_⟩
  · exact hab b hba b (List.mem_cons_of_mem _ (List.mem_of_mem_head? hbh)) rfl
  · rw [hx]
    exact hpost.tell (List.nodup_cons.mp hbn).2 _

end Back

/-! ## 2. Memory that holds lists -/

/-- Memory: the two pointers of every place. -/
structure Cells (H E : Type) where
  fst : Slot H E → Option E
  snd : Slot H E → Option (Slot H E)

namespace Cells

/-- The pointers of `p` are the same in both memories. -/
def SameAt (m m' : Cells H E) (p : Slot H E) : Prop := m'.fst p = m.fst p ∧ m'.snd p = m.snd p

/-- Outside `S` nothing is written. -/
def Within (m m' : Cells H E) (S : Slot H E → Prop) : Prop := ∀ p, ¬ S p → m.SameAt m' p

theorem within_refl (m : Cells H E) (S : Slot H E → Prop) : m.Within m S :=
  fun _ _ => ⟨rfl, rfl⟩

variable [DecidableEq H] [DecidableEq E]

/-- Two writes, the second of which changes nothing where both go to one place. -/
theorem update_pair {α : Type} {p q : Slot H E} {v w : α} (f : Slot H E → α) (h : p = q → v = w) :
    Function.update (Function.update f p v) q w p = v := by
  by_cases hpq : p = q
  · rw [← hpq, Function.update_self, h hpq]
  · rw [Function.update_of_ne hpq, Function.update_self]

/-- A write inside `S` is not seen outside. -/
theorem update_outside {α : Type} {S : Slot H E → Prop} {p q : Slot H E} (hp : S p) (hq : ¬ S q)
    (f : Slot H E → α) (v : α) : Function.update f p v q = f q :=
  Function.update_of_ne (fun e => hq (by rw [e]; exact hp)) _ _

/-- A write to the first pointer of a place. -/
def setFst (m : Cells H E) (p : Slot H E) (o : Option E) : Cells H E :=
  { m with fst := Function.update m.fst p o }

/-- A write to the second pointer of a place. -/
def setSnd (m : Cells H E) (p : Slot H E) (q : Option (Slot H E)) : Cells H E :=
  { m with snd := Function.update m.snd p q }

@[simp] theorem setFst_fst (m : Cells H E) (p : Slot H E) (o : Option E) :
    (m.setFst p o).fst = Function.update m.fst p o := rfl

@[simp] theorem setFst_snd (m : Cells H E) (p : Slot H E) (o : Option E) :
    (m.setFst p o).snd = m.snd := rfl

@[simp] theorem setSnd_fst (m : Cells H E) (p : Slot H E) (q : Option (Slot H E)) :
    (m.setSnd p q).fst = m.fst := rfl

@[simp] theorem setSnd_snd (m : Cells H E) (p : Slot H E) (q : Option (Slot H E)) :
    (m.setSnd p q).snd = Function.update m.snd p q := rfl

section Within

variable {m m' : Cells H E} {S : Slot H E → Prop} {p : Slot H E}

theorem Within.setFst (h : m.Within m' S) (hp : S p) (o : Option E) :
    m.Within (m'.setFst p o) S := by
  intro q hq
  have hne : q ≠ p := fun e => hq (e ▸ hp)
  refine ⟨?_, (h q hq).2⟩
  rw [setFst_fst, Function.update_of_ne hne]
  exact (h q hq).1

theorem Within.setSnd (h : m.Within m' S) (hp : S p) (q : Option (Slot H E)) :
    m.Within (m'.setSnd p q) S := by
  intro r hr
  have hne : r ≠ p := fun e => hr (e ▸ hp)
  refine ⟨(h r hr).1, ?_⟩
  rw [setSnd_snd, Function.update_of_ne hne]
  exact (h r hr).2

end Within

end Cells

/-- **A kind of list**: what it means that a list hangs on a head. The links lead through it, and
    only the head and the elements of the list matter. -/
structure Hanging (H E : Type) where
  hangs : Cells H E → H → List E → Prop
  hung : ∀ {m : Cells H E} {h : H} {xs : List E}, hangs m h xs → Hung m.fst (.head h) xs none
  frame : ∀ {m m' : Cells H E} {h : H} {xs : List E}, m.SameAt m' (.head h) →
    (∀ x ∈ xs, m.SameAt m' (.elem x)) → hangs m h xs → hangs m' h xs

theorem Hanging.nodup (K : Hanging H E) {m : Cells H E} {h : H} {xs : List E}
    (hk : K.hangs m h xs) : xs.Nodup := (K.hung hk).nodup

/-- **What memory holds**: the list of every head that is in use (`none`: the head was never
    initialised), and no element in two lists. -/
structure Represents (K : Hanging H E) (m : Cells H E) (qs : H → Option (List E)) : Prop where
  hangs : ∀ h xs, qs h = some xs → K.hangs m h xs
  apart : ∀ h h' xs xs', h ≠ h' → qs h = some xs → qs h' = some xs' → ∀ x ∈ xs, x ∉ xs'

/-- An element that is in no list. -/
def Unused (qs : H → Option (List E)) (e : E) : Prop := ∀ h xs, qs h = some xs → e ∉ xs

/-- Elements that are in no list but those of the heads `hs`. -/
def Outside (qs : H → Option (List E)) (hs : List H) (zs : List E) : Prop :=
  ∀ z ∈ zs, ∀ h xs, h ∉ hs → qs h = some xs → z ∉ xs

/-- The places of some heads and of some elements. -/
def Own (hs : List H) (zs : List E) (p : Slot H E) : Prop :=
  (∃ h ∈ hs, p = .head h) ∨ ∃ z ∈ zs, p = .elem z

section Own

variable {hs : List H} {zs : List E} {h : H} {z : E}

theorem own_head (hh : h ∈ hs) : Own hs zs (.head h) := Or.inl ⟨h, hh, rfl⟩

theorem own_elem (hz : z ∈ zs) : Own hs zs (.elem z) := Or.inr ⟨z, hz, rfl⟩

theorem own_head_iff : Own hs zs (.head h) ↔ h ∈ hs := by
  refine ⟨?_, own_head⟩
  rintro (⟨h', hh, e⟩ | ⟨z, _, e⟩)
  · cases e; exact hh
  · cases e

theorem own_elem_iff : Own hs zs (.elem z) ↔ z ∈ zs := by
  refine ⟨?_, own_elem⟩
  rintro (⟨h, _, e⟩ | ⟨z', hz, e⟩)
  · cases e
  · cases e; exact hz

theorem own_endOf {p : Slot H E} {xs : List E} (hp : Own hs zs p) (hxs : ∀ x ∈ xs, x ∈ zs) :
    Own hs zs (endOf p xs) := by
  rcases endOf_cases p xs with e | ⟨x, hx, e⟩
  · rw [e]; exact hp
  · rw [e]; exact own_elem (hxs x hx)

end Own

section Represents

variable {K : Hanging H E} {m m' : Cells H E} {qs : H → Option (List E)} {h h' : H}
  {xs xs' ys ys' zs : List E}

/-- Memory in which no head is in use, whatever it contains. -/
theorem represents_none (K : Hanging H E) (m : Cells H E) :
    Represents K m (fun _ => none) :=
  ⟨fun _ _ e => absurd e (Option.some_ne_none _).symm,
    fun _ _ _ _ _ e => absurd e (Option.some_ne_none _).symm⟩

/-- The elements of a list are in no other one. -/
theorem Represents.outside (hr : Represents K m qs) (hq : qs h = some xs) : Outside qs [h] xs := by
  intro x hx h' xs' hne hq'
  exact hr.apart h h' xs xs' (fun e => hne (by rw [e]; exact List.mem_singleton_self _)) hq hq' x hx

theorem Outside.cons {hs : List H} {e : E} (ho : Outside qs hs zs) (hu : Unused qs e) :
    Outside qs hs (e :: zs) := by
  intro z hz h xs hne hq
  rcases List.mem_cons.mp hz with rfl | hz
  · exact hu h xs hq
  · exact ho z hz h xs hne hq

/-- The elements of two lists are in no third one. -/
theorem Represents.outside₂ (hr : Represents K m qs) (hq : qs h = some xs)
    (hq' : qs h' = some xs') : Outside qs [h, h'] (xs ++ xs') := by
  intro z hz k ys hne hk
  have hkh : k ∉ [h] := fun e => hne (by rw [List.mem_singleton.mp e]; exact List.mem_cons_self)
  have hkh' : k ∉ [h'] := fun e =>
    hne (by rw [List.mem_singleton.mp e]; exact List.mem_cons_of_mem _ List.mem_cons_self)
  rcases List.mem_append.mp hz with hz | hz
  · exact hr.outside hq z hz k ys hkh hk
  · exact hr.outside hq' z hz k ys hkh' hk

/-- **An operation with a footprint**: each list of the heads in it has to hang, the others hang
    as before. -/
theorem Represents.change (hr : Represents K m qs) {qs' : H → Option (List E)} {hs : List H}
    (hS : m.Within m' (Own hs zs)) (ho : Outside qs hs zs)
    (hout : ∀ k, k ∉ hs → qs' k = qs k)
    (hin : ∀ k ∈ hs, ∀ xs, qs' k = some xs → K.hangs m' k xs ∧ ∀ x ∈ xs, x ∈ zs)
    (hap : ∀ k ∈ hs, ∀ k' ∈ hs, ∀ xs xs', k ≠ k' → qs' k = some xs → qs' k' = some xs' →
      ∀ x ∈ xs, x ∉ xs') :
    Represents K m' qs' := by
  refine ⟨fun k xs hq => ?_, fun k k' xs xs' hne hq hq' x hx hx' => ?_⟩
  · by_cases hk : k ∈ hs
    · exact (hin k hk xs hq).1
    · rw [hout k hk] at hq
      refine K.frame (hS _ fun e => hk (own_head_iff.mp e)) (fun x hx => hS _ fun e => ?_)
        (hr.hangs k xs hq)
      exact ho x (own_elem_iff.mp e) k xs hk hq hx
  · by_cases hk : k ∈ hs
    · by_cases hk' : k' ∈ hs
      · exact hap k hk k' hk' xs xs' hne hq hq' x hx hx'
      · rw [hout k' hk'] at hq'
        exact ho x ((hin k hk xs hq).2 x hx) k' xs' hk' hq' hx'
    · rw [hout k hk] at hq
      by_cases hk' : k' ∈ hs
      · exact ho x ((hin k' hk' xs' hq').2 x hx') k xs hk hq hx
      · rw [hout k' hk'] at hq'
        exact hr.apart k k' xs xs' hne hq hq' x hx hx'

/-- **A write into an element that is in no list** changes no list. -/
theorem Represents.unused {e : E} (hr : Represents K m qs) (hu : Unused qs e)
    (hS : m.Within m' (Own [] [e])) : Represents K m' qs :=
  hr.change hS (fun z hz h xs _ hq => by rw [List.mem_singleton.mp hz]; exact hu h xs hq)
    (fun _ _ => rfl) (fun _ hk => absurd hk List.not_mem_nil)
    fun _ hk => absurd hk List.not_mem_nil

variable [DecidableEq H]

/-- **An operation on one list.** -/
theorem Represents.one (hr : Represents K m qs) (ho : Outside qs [h] zs)
    (hS : m.Within m' (Own [h] zs)) (hk : K.hangs m' h ys) (hys : ∀ y ∈ ys, y ∈ zs) :
    Represents K m' (Function.update qs h (some ys)) := by
  refine hr.change hS ho (fun k hkh => ?_) (fun k hkh xs hq => ?_)
    (fun k hkh k' hkh' _ _ hne => absurd ?_ hne)
  · exact Function.update_of_ne (fun e => hkh (List.mem_singleton.mpr e)) _ _
  · rw [List.mem_singleton.mp hkh, Function.update_self] at hq
    cases hq
    rw [List.mem_singleton.mp hkh]
    exact ⟨hk, hys⟩
  · rw [List.mem_singleton.mp hkh, List.mem_singleton.mp hkh']

/-- **An element more** in one list. -/
theorem Represents.insert {e : E} {as bs : List E} (hr : Represents K m qs)
    (hq : qs h = some (as ++ bs)) (hu : Unused qs e)
    (hS : m.Within m' (Own [h] (e :: (as ++ bs)))) (hk : K.hangs m' h (as ++ e :: bs)) :
    Represents K m' (Function.update qs h (some (as ++ e :: bs))) :=
  hr.one ((hr.outside hq).cons hu) hS hk fun y hy => by simpa [or_left_comm] using hy

/-- **An element less** in one list. -/
theorem Represents.remove {x : E} {as bs : List E} (hr : Represents K m qs)
    (hq : qs h = some (as ++ x :: bs)) (hS : m.Within m' (Own [h] (as ++ x :: bs)))
    (hk : K.hangs m' h (as ++ bs)) :
    Represents K m' (Function.update qs h (some (as ++ bs))) := by
  refine hr.one (hr.outside hq) hS hk fun y hy => ?_
  rcases List.mem_append.mp hy with hy | hy
  · exact List.mem_append_left _ hy
  · exact List.mem_append_right _ (List.mem_cons_of_mem _ hy)

/-- **An operation on two lists.** -/
theorem Represents.two (hr : Represents K m qs) (hne : h ≠ h') (ho : Outside qs [h, h'] zs)
    (hS : m.Within m' (Own [h, h'] zs)) (hk : K.hangs m' h ys) (hk' : K.hangs m' h' ys')
    (hys : ∀ y ∈ ys, y ∈ zs) (hys' : ∀ y ∈ ys', y ∈ zs) (hap : ∀ y ∈ ys, y ∉ ys') :
    Represents K m' (Function.update (Function.update qs h (some ys)) h' (some ys')) := by
  have hval : Function.update (Function.update qs h (some ys)) h' (some ys') h = some ys := by
    rw [Function.update_of_ne hne, Function.update_self]
  have hval' : Function.update (Function.update qs h (some ys)) h' (some ys') h' = some ys' :=
    Function.update_self _ _ _
  have hmem : ∀ {k : H}, k ∈ [h, h'] → k = h ∨ k = h' := fun hk => by simpa using hk
  refine hr.change hS ho (fun k hkh => ?_) (fun k hkh xs hq => ?_)
    (fun k hkh k' hkh' xs xs' hkk hq hq' x hx hx' => ?_)
  · have hkh1 : k ≠ h := fun e => hkh (by rw [e]; exact List.mem_cons_self)
    have hkh2 : k ≠ h' := fun e => hkh (by rw [e]; simp)
    rw [Function.update_of_ne hkh2, Function.update_of_ne hkh1]
  · rcases hmem hkh with rfl | rfl
    · rw [hval] at hq
      cases hq
      exact ⟨hk, hys⟩
    · rw [hval'] at hq
      cases hq
      exact ⟨hk', hys'⟩
  · rcases hmem hkh with rfl | rfl <;> rcases hmem hkh' with rfl | rfl
    · exact hkk rfl
    · rw [hval] at hq
      rw [hval'] at hq'
      cases hq
      cases hq'
      exact hap x hx hx'
    · rw [hval'] at hq
      rw [hval] at hq'
      cases hq
      cases hq'
      exact hap x hx' hx
    · exact hkk rfl

/-- **Two lists change places.** -/
theorem Represents.exchange (hr : Represents K m qs) (hq : qs h = some xs)
    (hq' : qs h' = some xs') (hS : m.Within m' (Own [h, h'] (xs ++ xs')))
    (hk : K.hangs m' h xs') (hk' : K.hangs m' h' xs) :
    Represents K m' (Function.update (Function.update qs h (some xs')) h' (some xs)) := by
  by_cases hne : h = h'
  · subst hne
    rw [hq] at hq'
    cases hq'
    rw [Function.update_idem]
    refine hr.one (hr.outside hq) (fun p hp => hS p fun e => hp ?_) hk fun y hy => hy
    rcases e with ⟨k, hk, e⟩ | ⟨z, hz, e⟩
    · exact Or.inl ⟨k, by simpa using hk, e⟩
    · exact Or.inr ⟨z, by simpa using hz, e⟩
  · exact hr.two hne (hr.outside₂ hq hq') hS hk hk' (fun y hy => List.mem_append_right _ hy)
      (fun y hy => List.mem_append_left _ hy) fun y hy hyx => hr.apart h h' _ _ hne hq hq' y hyx hy

/-- **One list behind another**, which is then empty. -/
theorem Represents.concat (hr : Represents K m qs) (hne : h ≠ h') (hq : qs h = some xs)
    (hq' : qs h' = some xs') (hS : m.Within m' (Own [h, h'] (xs ++ xs')))
    (hk : K.hangs m' h (xs ++ xs')) (hk' : K.hangs m' h' []) :
    Represents K m' (Function.update (Function.update qs h (some (xs ++ xs'))) h' (some [])) :=
  hr.two hne (hr.outside₂ hq hq') hS hk hk' (fun _ hy => hy)
    (fun _ hy => absurd hy List.not_mem_nil) fun _ _ => List.not_mem_nil

/-- **A list begins anew.** -/
theorem Represents.init (hr : Represents K m qs) (hS : m.Within m' (Own [h] []))
    (hk : K.hangs m' h []) : Represents K m' (Function.update qs h (some [])) :=
  hr.one (fun _ hz => absurd hz List.not_mem_nil) hS hk fun _ hy => hy

end Represents

end Nfp.Lib
