/-
  File:      Nfp/Lib/Memory.lean
  Subject:   PROGRAMS ON MEMORY, as a C program has it: blocks that an allocator hands out or refuses,
             and texts that lie in a buffer up to a NUL. Nothing here names a program; blocks and
             characters are of any type.

  * `Prog` -- a program on a state; where it stops at a fault, what it did before stays
    (`Prog.bind_ok` runs a program step by step); `Prog.Keeps` -- a program keeps an invariant, put
    together from its pieces;
  * `Memory` -- the blocks, the allocator's answers to come, and the ledger of what was handed out
    and freed; `Live` -- blocks that can be freed one after the other (`Live.freeAll`); `Handed` --
    blocks have only been handed out; `Balance` -- those that are left when some have been freed;
  * `Holds` -- a text stands at an offset of a buffer; `Holds.cutText` -- writing a NUL over the
    first separator leaves the text before it, the text behind it, and every text further on.
-/
import Nfp.Lib.Ledger
import Nfp.Lib.Text

namespace Nfp.Lib

/-! ## Programs -/

section Programs

variable {σ ε α β : Type}

/-- A program on the state `σ`: it ends with a value or stops at a fault. -/
def Prog (σ ε α : Type) : Type := σ → Except ε α × σ

instance : Monad (Prog σ ε) where
  pure a s := (.ok a, s)
  bind p f s :=
    match p s with
    | (.ok a, s') => f a s'
    | (.error e, s') => (.error e, s')

/-- The program that stops. -/
def Prog.stop (e : ε) : Prog σ ε α := fun s => (.error e, s)

theorem Prog.bind_ok {p : Prog σ ε α} {f : α → Prog σ ε β} {s s' : σ} {a : α}
    (h : p s = (.ok a, s')) : (p >>= f) s = f a s' := by
  show (match p s with
    | (.ok a, s') => f a s'
    | (.error e, s') => (.error e, s')) = f a s'
  rw [h]

theorem Prog.bind_error {p : Prog σ ε α} {f : α → Prog σ ε β} {s s' : σ} {e : ε}
    (h : p s = (.error e, s')) : (p >>= f) s = (.error e, s') := by
  show (match p s with
    | (.ok a, s') => f a s'
    | (.error e, s') => (.error e, s')) = (.error e, s')
  rw [h]

theorem Prog.bind_stops {p : Prog σ ε α} {s : σ} {e : ε} (h : (p s).1 = .error e)
    (f : α → Prog σ ε β) : ((p >>= f) s).1 = .error e := by
  rcases hp : p s with ⟨r, s'⟩
  rw [hp] at h
  obtain rfl : r = .error e := h
  rw [bind_error hp]

theorem Prog.bind_of_eq {p q : Prog σ ε α} {s s' : σ} (h : p s = q s') (f : α → Prog σ ε β) :
    (p >>= f) s = (q >>= f) s' := by
  show (match p s with
    | (.ok a, s') => f a s'
    | (.error e, s') => (.error e, s')) = _
  rw [h]
  rfl

/-- A value put behind a program changes nothing of what it did. -/
theorem Prog.bind_pure_snd (p : Prog σ ε α) (b : β) (s : σ) :
    ((p >>= fun _ => pure b) s).2 = (p s).2 := by
  rcases hp : p s with ⟨r, s'⟩
  cases r with
  | ok a => rw [bind_ok hp]; rfl
  | error e => rw [bind_error hp]

/-- **An invariant that a program keeps**, also where it stops. -/
def Prog.Keeps (I : σ → Prop) (p : Prog σ ε α) : Prop := ∀ s, I s → I (p s).2

section Keeps

variable {I : σ → Prop} {p : Prog σ ε α} {f : α → Prog σ ε β}

theorem Prog.keeps_pure (a : α) : Keeps I (pure a : Prog σ ε α) := fun _ h => h

theorem Prog.keeps_stop (e : ε) : Keeps I (stop e : Prog σ ε α) := fun _ h => h

/-- A program that changes nothing. -/
theorem Prog.keeps_of_eq (h : ∀ s, (p s).2 = s) : Keeps I p := by
  intro s hs
  rw [h s]
  exact hs

theorem Prog.Keeps.bind (hp : Keeps I p) (hf : ∀ a, Keeps I (f a)) : Keeps I (p >>= f) := by
  intro s hs
  have hmid := hp s hs
  rcases hr : p s with ⟨r, s'⟩
  rw [hr] at hmid
  cases r with
  | ok a =>
      rw [bind_ok hr]
      exact hf a s' hmid
  | error e =>
      rw [bind_error hr]
      exact hmid

end Keeps

end Programs

/-! ## Blocks -/

/-- Memory that is handed out in blocks, one number after the other. `answers` are those the
    allocator has still to give, and `ledger` is what it handed out and got back. -/
structure Memory (β : Type) where
  /-- a block that was freed holds nothing -/
  blocks : List (Option β)
  answers : Nat → Bool
  ledger : List (Entry Nat)
  refused : Nat

namespace Memory

variable {β : Type}

/-- What lies in a block. -/
def load (m : Memory β) (b : Nat) : Option β := m.blocks[b]?.join

def store (b : Nat) (v : β) (m : Memory β) : Memory β :=
  { m with blocks := m.blocks.set b (some v) }

/-- A block is asked for; a request that does not fit any memory is refused. -/
def alloc (fits : Bool) (v : β) (m : Memory β) : Option Nat × Memory β :=
  let answers := fun n => m.answers (n + 1)
  if fits && m.answers 0 then
    (some m.blocks.length,
      { m with
        blocks := m.blocks ++ [some v]
        answers := answers
        ledger := m.ledger ++ [.acquire m.blocks.length] })
  else (none, { m with answers := answers, refused := m.refused + 1 })

def free (m : Memory β) (b : Nat) : Memory β :=
  { m with blocks := m.blocks.set b none, ledger := m.ledger ++ [.release b] }

def freeAll (m : Memory β) (bs : List Nat) : Memory β := bs.foldl free m

theorem load_free_of_ne {b c : Nat} (m : Memory β) (h : b ≠ c) : (m.free c).load b = m.load b := by
  show (m.blocks.set c none)[b]?.join = _
  rw [List.getElem?_set_ne h.symm]
  rfl

/-- **Freeing** touches no other block. -/
theorem load_freeAll {b : Nat} {bs : List Nat} (m : Memory β) (h : b ∉ bs) :
    (m.freeAll bs).load b = m.load b := by
  induction bs generalizing m with
  | nil => rfl
  | cons c bs ih =>
      rw [List.mem_cons, not_or] at h
      show ((m.free c).freeAll bs).load b = _
      rw [ih _ h.2, load_free_of_ne m h.1]

theorem refused_freeAll (m : Memory β) (bs : List Nat) : (m.freeAll bs).refused = m.refused := by
  induction bs generalizing m with
  | nil => rfl
  | cons b bs ih => exact ih (m.free b)

theorem lt_of_load {b : Nat} {v : β} {m : Memory β} (h : m.load b = some v) :
    b < m.blocks.length := by
  by_contra hge
  unfold load at h
  rw [List.getElem?_eq_none (Nat.not_lt.mp hge)] at h
  cases h

/-- The blocks there are stay when others are put behind. -/
theorem load_append_of_lt {b : Nat} {m m' : Memory β} {more : List (Option β)}
    (hblocks : m'.blocks = m.blocks ++ more) (hb : b < m.blocks.length) : m'.load b = m.load b := by
  unfold load
  rw [hblocks, List.getElem?_append_left hb]

theorem load_of_append {b : Nat} {v : β} {m m' : Memory β} {more : List (Option β)}
    (hblocks : m'.blocks = m.blocks ++ more) (h : m.load b = some v) : m'.load b = some v :=
  (load_append_of_lt hblocks (lt_of_load h)).trans h

theorem freeAll_append (m : Memory β) (bs cs : List Nat) :
    m.freeAll (bs ++ cs) = (m.freeAll bs).freeAll cs := List.foldl_append

/-- Blocks that are there, each named once: those that can be freed. -/
structure Live (m : Memory β) (bs : List Nat) : Prop where
  nodup : bs.Nodup
  there : ∀ b ∈ bs, m.load b ≠ none

section Live

variable {m : Memory β} {bs cs : List Nat}

theorem Live.left (h : m.Live (bs ++ cs)) : m.Live bs :=
  ⟨h.nodup.of_append_left, fun b hb => h.there b (List.mem_append_left cs hb)⟩

/-- A block that is not freed yet. -/
theorem Live.load_freeAll {b : Nat} (h : m.Live (bs ++ cs)) (hb : b ∈ cs) :
    (m.freeAll bs).load b = m.load b := by
  obtain ⟨-, -, hdisjoint⟩ := List.nodup_append.mp h.nodup
  exact Memory.load_freeAll m fun hmem => hdisjoint b hmem b hb rfl

/-- When some are freed the others can be freed still. -/
theorem Live.freeAll (h : m.Live (bs ++ cs)) : (m.freeAll bs).Live cs := by
  refine ⟨h.nodup.of_append_right, fun b hb => ?_⟩
  rw [h.load_freeAll hb]
  exact h.there b (List.mem_append_right bs hb)

end Live

theorem length_freeAll (m : Memory β) (bs : List Nat) :
    (m.freeAll bs).blocks.length = m.blocks.length := by
  induction bs generalizing m with
  | nil => rfl
  | cons b bs ih => exact (ih (m.free b)).trans List.length_set

theorem ledger_freeAll (m : Memory β) (bs : List Nat) :
    (m.freeAll bs).ledger = m.ledger ++ bs.map .release := by
  induction bs generalizing m with
  | nil => exact (List.append_nil _).symm
  | cons b bs ih =>
      refine (ih (m.free b)).trans ?_
      rw [List.map_cons, ← List.singleton_append, ← List.append_assoc]
      rfl

/-- A block that was freed holds nothing. -/
theorem load_freeAll_of_mem {b : Nat} {bs : List Nat} (m : Memory β) (h : b ∈ bs) :
    (m.freeAll bs).load b = none := by
  induction bs generalizing m with
  | nil => cases h
  | cons c bs ih =>
      by_cases hmem : b ∈ bs
      · exact ih (m.free c) hmem
      · obtain rfl : b = c := (List.mem_cons.mp h).resolve_right hmem
        refine (load_freeAll (m.free b) hmem).trans ?_
        unfold load free
        rw [List.getElem?_set_self']
        cases m.blocks[b]? with
        | none => rfl
        | some v => rfl

/-- **Blocks have only been handed out** since there were `n` of them and the ledger was `l`. -/
structure Handed (n : Nat) (l : List (Entry Nat)) (m : Memory β) : Prop where
  le : n ≤ m.blocks.length
  ledger : m.ledger = l ++ (List.range' n (m.blocks.length - n)).map .acquire

section Handed

variable {m : Memory β} {n : Nat} {l : List (Entry Nat)}

theorem Handed.start (m : Memory β) : Handed m.blocks.length m.ledger m :=
  ⟨Nat.le_refl _, by simp⟩

theorem Handed.store (h : Handed n l m) (b : Nat) (v : β) : Handed n l (m.store b v) := by
  have hlength : (m.store b v).blocks.length = m.blocks.length := List.length_set
  refine ⟨hlength ▸ h.le, ?_⟩
  rw [hlength]
  exact h.ledger

theorem Handed.alloc (h : Handed n l m) (fits : Bool) (v : β) : Handed n l (m.alloc fits v).2 := by
  unfold Memory.alloc
  by_cases hyes : (fits && m.answers 0) = true
  · rw [if_pos hyes]
    have hle := h.le
    have hsucc : m.blocks.length + 1 - n = m.blocks.length - n + 1 := by omega
    have hlast : n + (m.blocks.length - n) = m.blocks.length := by omega
    refine ⟨by simp only [List.length_append]; omega, ?_⟩
    simp only [List.length_append, List.length_singleton]
    rw [h.ledger, hsucc, List.range'_1_concat, hlast, List.map_append, List.append_assoc]
    rfl
  · rw [if_neg hyes]
    exact ⟨h.le, h.ledger⟩

end Handed

/-- **The balance between two memories**: blocks have been handed out, none of them twice, and
    freed, none twice, and `left` are those that have not been freed. The blocks there were before
    hold what they held. -/
structure Balance (m m' : Memory β) (left : List Nat) : Prop where
  le : m.blocks.length ≤ m'.blocks.length
  others : ∀ b < m.blocks.length, m'.load b = m.load b
  ledger : ∃ new, m'.ledger = m.ledger ++ new ∧ (acquired new).Nodup ∧
    (∀ b ∈ acquired new, m.blocks.length ≤ b ∧ b < m'.blocks.length) ∧
    (acquired new).Perm (released new ++ left)

section Balance

variable {m m' m'' : Memory β} {left left' : List Nat}

theorem Balance.of_handed (h : Handed m.blocks.length m.ledger m')
    (hothers : ∀ b < m.blocks.length, m'.load b = m.load b) :
    m.Balance m' (List.range' m.blocks.length (m'.blocks.length - m.blocks.length)) := by
  have hle := h.le
  refine ⟨hle, hothers, _, h.ledger, ?_, fun b hb => ?_, ?_⟩
  · rw [acquired_map_acquire]
    exact List.nodup_range'
  · rw [acquired_map_acquire, List.mem_range'_1] at hb
    omega
  · rw [acquired_map_acquire, released_map_acquire]
    exact .refl _

theorem Balance.nodup (h : m.Balance m' left) : left.Nodup := by
  obtain ⟨new, -, hnodup, -, hperm⟩ := h.ledger
  exact (hperm.nodup_iff.mp hnodup).of_append_right

theorem Balance.bounds (h : m.Balance m' left) {b : Nat} (hb : b ∈ left) :
    m.blocks.length ≤ b ∧ b < m'.blocks.length := by
  obtain ⟨new, -, -, hbounds, hperm⟩ := h.ledger
  exact hbounds b (hperm.mem_iff.mpr (List.mem_append_right _ hb))

/-- Some of what is left is freed. -/
theorem Balance.freeAll (h : m.Balance m' left) {bs : List Nat} (hperm : left.Perm (bs ++ left')) :
    m.Balance (m'.freeAll bs) left' := by
  have hmem : ∀ b ∈ bs, m.blocks.length ≤ b := fun b hb =>
    (h.bounds (hperm.mem_iff.mpr (List.mem_append_left _ hb))).1
  obtain ⟨new, hledger, hnodup, hbounds, hbalance⟩ := h.ledger
  refine ⟨by rw [length_freeAll]; exact h.le, fun b hb => ?_, new ++ bs.map .release, ?_, ?_, ?_, ?_⟩
  · have hnot : b ∉ bs := fun hin => by
      have hge := hmem b hin
      omega
    rw [load_freeAll m' hnot, h.others b hb]
  · rw [ledger_freeAll, hledger, List.append_assoc]
  · rw [acquired_append, acquired_map_release, List.append_nil]
    exact hnodup
  · rw [acquired_append, acquired_map_release, List.append_nil, length_freeAll]
    exact hbounds
  · rw [acquired_append, acquired_map_release, List.append_nil, released_append,
      released_map_release, List.append_assoc]
    exact hbalance.trans (hperm.append_left _)

/-- **One stretch after the other**: what the first left is left still. -/
theorem Balance.trans (h : m.Balance m' left) (h' : m'.Balance m'' left') :
    m.Balance m'' (left ++ left') := by
  have hle := h.le
  have hle' := h'.le
  obtain ⟨new, hledger, hnodup, hbounds, hbalance⟩ := h.ledger
  obtain ⟨new', hledger', hnodup', hbounds', hbalance'⟩ := h'.ledger
  refine ⟨Nat.le_trans hle hle', fun b hb => ?_, new ++ new', ?_, ?_, fun b hb => ?_, ?_⟩
  · rw [h'.others b (by omega), h.others b hb]
  · rw [hledger', hledger, List.append_assoc]
  · rw [acquired_append]
    refine hnodup.append hnodup' fun b hb hb' => ?_
    have hlt := (hbounds b hb).2
    have hge := (hbounds' b hb').1
    omega
  · rw [acquired_append] at hb
    rcases List.mem_append.mp hb with hb | hb
    · have hin := hbounds b hb
      omega
    · have hin := hbounds' b hb
      omega
  · rw [acquired_append, released_append]
    refine (hbalance.append hbalance').trans ?_
    rw [List.append_assoc, List.append_assoc]
    refine List.Perm.append_left _ ?_
    rw [← List.append_assoc, ← List.append_assoc]
    exact List.perm_append_comm.append_right _

/-- **What the ledger says** of a balance: nothing is freed twice, and left is what was handed out
    and not freed. -/
theorem Balance.entries (h : m.Balance m' left) :
    ∃ new, m'.ledger = m.ledger ++ new ∧ (released new).Nodup ∧
      ∀ b, b ∈ acquired new ∧ b ∉ released new ↔ b ∈ left := by
  obtain ⟨new, hledger, hnodup, -, hperm⟩ := h.ledger
  have hsplit := hperm.nodup_iff.mp hnodup
  refine ⟨new, hledger, hsplit.of_append_left, fun b => ⟨fun ⟨hin, hout⟩ => ?_, fun hb => ?_⟩⟩
  · exact (List.mem_append.mp (hperm.mem_iff.mp hin)).resolve_left hout
  · exact ⟨hperm.mem_iff.mpr (List.mem_append_right _ hb),
      fun hout => (List.disjoint_of_nodup_append hsplit) hout hb⟩

end Balance

end Memory

/-! ## Texts in a buffer -/

section Texts

variable {α : Type} {nul : α} {buf : List α} {p : Nat} {s : List α}

/-- A NUL is written at an offset, if there is one. -/
def putNul (nul : α) (buf : List α) : Option Nat → List α
  | none => buf
  | some q => buf.set q nul

/-- The text `s` stands at `p`, with a NUL behind it. -/
structure Holds (nul : α) (buf : List α) (p : Nat) (s : List α) : Prop where
  stands : ∃ rest, buf.drop p = s ++ nul :: rest
  clean : nul ∉ s

theorem Holds.mem_drop {k : Nat} (h : Holds nul buf p s) (hk : k ≤ s.length) :
    nul ∈ buf.drop (p + k) := by
  obtain ⟨rest, hdrop⟩ := h.stands
  rw [← List.drop_drop, hdrop, List.drop_append_of_le_length hk]
  exact List.mem_append_right _ List.mem_cons_self

/-- A NUL written before a text does not touch it. -/
theorem Holds.set_of_lt {j : Nat} (h : Holds nul buf p s) (hj : j < p) :
    Holds nul (buf.set j nul) p s := by
  refine ⟨?_, h.clean⟩
  rw [List.drop_set_of_lt hj]
  exact h.stands

/-- The text behind a character of a text. -/
theorem Holds.behind {front rest : List α} {d : α} (h : Holds nul buf p (front ++ d :: rest)) :
    Holds nul buf (p + front.length + 1) rest := by
  obtain ⟨tail, hdrop⟩ := h.stands
  have hclean := h.clean
  rw [List.mem_append, List.mem_cons, not_or, not_or] at hclean
  refine ⟨⟨tail, ?_⟩, hclean.2.2⟩
  rw [Nat.add_assoc, ← List.drop_drop, hdrop, List.append_assoc]
  simp

/-- A NUL written into a text ends it there. -/
theorem Holds.set_sep {front rest : List α} {d : α} (h : Holds nul buf p (front ++ d :: rest)) :
    Holds nul (buf.set (p + front.length) nul) p front := by
  obtain ⟨tail, hdrop⟩ := h.stands
  have hclean := h.clean
  rw [List.mem_append, not_or] at hclean
  refine ⟨⟨rest ++ nul :: tail, ?_⟩, hclean.1⟩
  rw [List.drop_set, if_neg (by omega), hdrop, Nat.add_sub_cancel_left, List.append_assoc]
  simp

variable [DecidableEq α]

/-- The text at an offset. -/
def strAt (nul : α) (buf : List α) (p : Nat) : List α := (buf.drop p).takeWhile (· ≠ nul)

/-- `strchr` at an offset: where the first `d` of the text stands. -/
def strchr (nul d : α) (buf : List α) (p : Nat) : Option Nat :=
  ((strAt nul buf p).idxOf? d).map (p + ·)

theorem Holds.strAt_eq (h : Holds nul buf p s) : strAt nul buf p = s := by
  obtain ⟨rest, hdrop⟩ := h.stands
  have hall : ∀ a ∈ s, decide (a ≠ nul) = true := by
    intro a ha
    exact decide_eq_true fun heq => h.clean (heq ▸ ha)
  unfold strAt
  rw [hdrop, List.takeWhile_append_of_pos hall, List.takeWhile_cons_of_neg (by simp),
    List.append_nil]

/-- `strchr` finds the place where `cut` cuts. -/
theorem Holds.strchr_eq (h : Holds nul buf p s) (d : α) :
    strchr nul d buf p = (cut d s).2.map fun _ => p + (cut d s).1.length := by
  unfold strchr
  rw [h.strAt_eq]
  rcases cut_cases d s with ⟨hd, hcut⟩ | ⟨front, rest, hs, hd, hcut⟩
  · rw [hcut, List.idxOf?_eq_none_iff.mpr hd]
    rfl
  · have hfront : front.findIdx? (· == d) = none := by
      refine List.findIdx?_eq_none_iff.mpr fun a ha => beq_eq_false_iff_ne.mpr ?_
      intro heq
      exact hd (heq ▸ ha)
    rw [hcut, hs, List.idxOf?, List.findIdx?_append, hfront, List.findIdx?_cons, beq_self_eq_true]
    simp

/-- **Cutting a text** at its first `d`: the part before it, the part behind it, and the texts
    further on. -/
theorem Holds.cutText (h : Holds nul buf p s) (d : α) :
    Holds nul (putNul nul buf (strchr nul d buf p)) p (cut d s).1 ∧
      (∀ rest, (cut d s).2 = some rest →
        Holds nul (putNul nul buf (strchr nul d buf p)) (p + (cut d s).1.length + 1) rest) ∧
      ∀ q t, p + s.length < q → Holds nul buf q t →
        Holds nul (putNul nul buf (strchr nul d buf p)) q t := by
  have hstrchr := h.strchr_eq d
  rcases cut_cases d s with ⟨-, hcut⟩ | ⟨front, rest, hs, -, hcut⟩
  · rw [hcut] at hstrchr
    rw [hstrchr, hcut]
    exact ⟨h, fun _ hrest => absurd hrest.symm (Option.some_ne_none _), fun _ _ _ ht => ht⟩
  · rw [hcut] at hstrchr
    rw [hstrchr, hcut]
    rw [hs] at h
    refine ⟨h.set_sep, fun t heq => ?_, fun q t hq ht => ?_⟩
    · rw [← Option.some.inj heq]
      exact h.behind.set_of_lt (Nat.lt_succ_self _)
    · have hlen : s.length = front.length + (rest.length + 1) := by
        rw [hs, List.length_append, List.length_cons]
      have hbefore : p + front.length < q := by omega
      exact ht.set_of_lt hbefore

end Texts

end Nfp.Lib
