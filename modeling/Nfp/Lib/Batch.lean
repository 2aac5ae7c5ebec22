/-
  File:      Nfp/Lib/Batch.lean
  Subject:   A BATCHING BUFFER: elements are held until `cap` of them are there, then handed on as
             one batch; a flush hands on what is left. Nothing here names a program.

  The buffer writes its batches to an output that may hold other things as well: `wrap` makes an
  output entry of a batch, and `read` says which items an entry stands for (`Reads`: a batch
  stands for its elements, one by one, under `item`).

  * `Batch.items` -- what the buffer denotes: the items of the output, then the held elements;
    `push` appends one item to it, `flush` leaves it alone;
  * `Batch.Small` -- fewer than `cap` elements are held (kept by `push`);
  * `pushAll_held_length` -- how many elements are held after any number of pushes: the count
    modulo `cap`.
-/
import Mathlib.Data.List.Basic

namespace Nfp.Lib

variable {α β γ : Type}

/-- The held elements, oldest first, and the output so far. -/
structure Batch (α β : Type) where
  held : List α
  out : List β

/-- **An output entry reads as items**: a batch reads as its elements, in order. -/
def Reads (wrap : List α → β) (item : α → γ) (read : β → List γ) : Prop :=
  ∀ v, read (wrap v) = v.map item

namespace Batch

/-- Hold one more element; at `cap` held elements hand them on. -/
def push (cap : Nat) (wrap : List α → β) (b : Batch α β) (x : α) : Batch α β :=
  if (b.held ++ [x]).length = cap then ⟨[], b.out ++ [wrap (b.held ++ [x])]⟩
  else ⟨b.held ++ [x], b.out⟩

/-- Hand on what is held, if anything is. -/
def flush (wrap : List α → β) (b : Batch α β) : Batch α β :=
  if b.held = [] then b else ⟨[], b.out ++ [wrap b.held]⟩

/-- What the buffer denotes: the items handed on, then the held ones. -/
def items (item : α → γ) (read : β → List γ) (b : Batch α β) : List γ :=
  b.out.flatMap read ++ b.held.map item

/-- Fewer than `cap` elements are held. -/
def Small (cap : Nat) (b : Batch α β) : Prop := b.held.length < cap

section Items

variable {wrap : List α → β} {item : α → γ} {read : β → List γ}

theorem push_items (hr : Reads wrap item read) (cap : Nat) (b : Batch α β) (x : α) :
    (push cap wrap b x).items item read = b.items item read ++ [item x] := by
  unfold push
  split
  · simp [items, hr (b.held ++ [x])]
  · simp [items]

/-- **Nothing is lost, doubled or moved by any number of pushes.** -/
theorem pushAll_items (hr : Reads wrap item read) (cap : Nat) (xs : List α) (b : Batch α β) :
    (xs.foldl (push cap wrap) b).items item read = b.items item read ++ xs.map item := by
  induction xs generalizing b with
  | nil => simp
  | cons x xs ih =>
      rw [List.foldl_cons, ih, push_items hr]
      simp

theorem flush_items (hr : Reads wrap item read) (b : Batch α β) :
    (flush wrap b).items item read = b.items item read := by
  unfold flush
  split
  · rfl
  · simp [items, hr b.held]

@[simp] theorem flush_held (b : Batch α β) : (flush wrap b).held = [] := by
  unfold flush
  split
  · assumption
  · rfl

end Items

section Size

variable {wrap : List α → β} {cap : Nat}

theorem push_held_length {b : Batch α β} (hb : b.Small cap) (x : α) :
    (push cap wrap b x).held.length = (b.held.length + 1) % cap := by
  unfold Small at hb
  unfold push
  split
  · rename_i h
    simp only [List.length_append, List.length_cons, List.length_nil] at h
    rw [List.length_nil, ← h, Nat.zero_add, Nat.mod_self]
  · rename_i h
    simp only [List.length_append, List.length_cons, List.length_nil, Nat.zero_add] at h ⊢
    exact (Nat.mod_eq_of_lt (by omega)).symm

theorem push_small {b : Batch α β} (hb : b.Small cap) (x : α) : (push cap wrap b x).Small cap := by
  have hcap : 0 < cap := Nat.lt_of_le_of_lt (Nat.zero_le _) hb
  unfold Small
  rw [push_held_length hb]
  exact Nat.mod_lt _ hcap

/-- **How much is held after any number of pushes**: the count modulo the capacity. -/
theorem pushAll_held_length (xs : List α) {b : Batch α β} (hb : b.Small cap) :
    (xs.foldl (push cap wrap) b).held.length = (b.held.length + xs.length) % cap := by
  induction xs generalizing b with
  | nil => exact (Nat.mod_eq_of_lt hb).symm
  | cons x xs ih =>
      rw [List.foldl_cons, ih (push_small hb x), push_held_length hb, List.length_cons,
        Nat.mod_add_mod]
      congr 1
      omega

theorem pushAll_small (xs : List α) {b : Batch α β} (hb : b.Small cap) :
    (xs.foldl (push cap wrap) b).Small cap := by
  have hcap : 0 < cap := Nat.lt_of_le_of_lt (Nat.zero_le _) hb
  unfold Small
  rw [pushAll_held_length xs hb]
  exact Nat.mod_lt _ hcap

end Size

/-! ## What a push or a flush adds to the output -/

section Out

variable {wrap : List α → β} {cap : Nat} {P : β → Prop}

/-- A property of output entries that every batch of at least one and at most `cap` elements has
    is kept by a push. -/
theorem push_out (hP : ∀ v, v ≠ [] → v.length ≤ cap → P (wrap v)) {b : Batch α β}
    (hb : ∀ e ∈ b.out, P e) (x : α) : ∀ e ∈ (push cap wrap b x).out, P e := by
  unfold push
  split
  · rename_i h
    intro e he
    rcases List.mem_append.mp he with he | he
    · exact hb e he
    · rw [List.mem_singleton.mp he]
      exact hP _ (by simp) (Nat.le_of_eq h)
  · exact hb

theorem pushAll_out (hP : ∀ v, v ≠ [] → v.length ≤ cap → P (wrap v)) (xs : List α)
    {b : Batch α β} (hb : ∀ e ∈ b.out, P e) : ∀ e ∈ (xs.foldl (push cap wrap) b).out, P e := by
  induction xs generalizing b with
  | nil => exact hb
  | cons x xs ih => exact ih (push_out hP hb x)

theorem flush_out (hP : ∀ v, v ≠ [] → v.length ≤ cap → P (wrap v)) {b : Batch α β}
    (hs : b.Small cap) (hb : ∀ e ∈ b.out, P e) : ∀ e ∈ (flush wrap b).out, P e := by
  unfold flush
  split
  · exact hb
  · rename_i h
    intro e he
    rcases List.mem_append.mp he with he | he
    · exact hb e he
    · rw [List.mem_singleton.mp he]
      exact hP _ h (Nat.le_of_lt hs)

end Out

end Batch

end Nfp.Lib
