/-
  File:      Nfp/Lib/Channel.lean
  Subject:   A CHANNEL OF WHICH ONLY A CONTRACT IS KNOWN. Nothing here names a program: the items
             are any type, and so are the choices the channel has.

  Items are put on a channel one behind the other; a receive takes some of them off. Which ones is
  the channel's affair.

  * `Channel` -- what a receive takes and leaves; that nothing is lost or doubled, and that no more
    comes than was asked for, are fields of it;
  * `Channel.Fifo` -- the further promise that items come out in the order they were put in;
  * `Channel.queue` -- a channel that keeps both.
-/
import Mathlib.Data.List.Basic

namespace Nfp.Lib

/-- **A channel**: by its choice, what a receive of at most `max` items takes off and what stays,
    of the items on it in the order they were put there. -/
structure Channel (ι κ : Type) where
  recv : κ → Nat → List ι → List ι × List ι
  conserves : ∀ a max xs, ((recv a max xs).1 ++ (recv a max xs).2).Perm xs
  le_max : ∀ a max xs, (recv a max xs).1.length ≤ max

namespace Channel

variable {ι κ : Type}

/-- First in, first out: what is received was put on before what stays, in this order. -/
def Fifo (c : Channel ι κ) : Prop :=
  ∀ a max xs, (c.recv a max xs).1 ++ (c.recv a max xs).2 = xs

/-- A queue; it has a choice only of how many items it gives. -/
def queue : Channel ι Nat where
  recv k max xs := (xs.take (min k max), xs.drop (min k max))
  conserves k max xs := List.Perm.of_eq (List.take_append_drop (min k max) xs)
  le_max k max xs := Nat.le_trans (List.length_take_le _ xs) (Nat.min_le_right k max)

theorem queue_fifo : (queue : Channel ι Nat).Fifo := fun k max xs =>
  List.take_append_drop (min k max) xs

end Channel

end Nfp.Lib
