/-
  File:      Nfp/Lib/Bytes.lean
  Subject:   NUMBERS AS BYTES, least significant first, and a value written over the front of a
             buffer. Nothing here names a program.

  * `leBytes`, `ofLe` -- the bytes of a number in a field of some width, and back
    (`ofLe_leBytes`); `leBytes_add` -- a wide field is two narrow ones, which is what a reader
    with another layout sees;
  * `ofLe_take`, `drop_leBytes` -- taking one field off the front;
  * `ofLe_append`, `ofLe_lt`, `ofLe_inj` -- the number of a string of bytes, in parts; with
    `List.reverse` it is the number with the most significant byte first (`ofLe_reverse_iff`);
  * `writeOver` -- what `memcpy` does to a buffer that may be longer;
  * `slice`, `writeAt` -- some bytes of a buffer, and bytes written into it: a slice reads what was
    written there, and what was there before elsewhere (`slice_writeAt`, `slice_writeAt_apart`).
-/
import Mathlib.Data.List.Basic

namespace Nfp.Lib

/-- The bytes of a number in a field of `width` bytes. -/
def leBytes : Nat → Nat → List UInt8
  | 0, _ => []
  | width + 1, n => UInt8.ofNat n :: leBytes width (n / 256)

/-- The number some bytes hold. -/
def ofLe : List UInt8 → Nat
  | [] => 0
  | b :: bytes => b.toNat + 256 * ofLe bytes

/-- How many numbers fit a field of `width` bytes. -/
def capacity : Nat → Nat
  | 0 => 1
  | width + 1 => 256 * capacity width

/-- The front of a buffer replaced by the first `n` of some bytes. -/
def writeOver (buf bytes : List UInt8) (n : Nat) : List UInt8 := bytes.take n ++ buf.drop n

@[simp] theorem length_leBytes (width n : Nat) : (leBytes width n).length = width := by
  induction width generalizing n with
  | zero => rfl
  | succ width ih => rw [leBytes, List.length_cons, ih]

/-- **What is read back** is the number, as far as the field goes. -/
theorem ofLe_leBytes (width n : Nat) : ofLe (leBytes width n) = n % capacity width := by
  induction width generalizing n with
  | zero => exact (Nat.mod_one n).symm
  | succ width ih =>
      have hbyte : (UInt8.ofNat n).toNat = n % 256 := UInt8.toNat_ofNat'
      rw [leBytes, ofLe, ih, hbyte, capacity, Nat.mod_mul]

theorem ofLe_leBytes_of_lt {width n : Nat} (h : n < capacity width) :
    ofLe (leBytes width n) = n := by
  rw [ofLe_leBytes, Nat.mod_eq_of_lt h]

/-- **A field is two fields**: the low part, then the high part. -/
theorem leBytes_add (v w n : Nat) :
    leBytes (v + w) n = leBytes v n ++ leBytes w (n / capacity v) := by
  induction v generalizing n with
  | zero =>
      rw [Nat.zero_add, capacity, Nat.div_one]
      rfl
  | succ v ih =>
      rw [Nat.add_right_comm, leBytes, ih, Nat.div_div_eq_div_mul]
      rfl

/-- The first field of a structure. -/
theorem ofLe_take {width n : Nat} (h : n < capacity width) (rest : List UInt8) :
    ofLe ((leBytes width n ++ rest).take width) = n := by
  rw [List.take_left' (length_leBytes width n), ofLe_leBytes_of_lt h]

/-- What stands behind it. -/
theorem drop_leBytes (width n : Nat) (rest : List UInt8) :
    (leBytes width n ++ rest).drop width = rest :=
  List.drop_left' (length_leBytes width n)

/-! ## Strings of bytes as numbers -/

theorem ofLe_append (bytes more : List UInt8) :
    ofLe (bytes ++ more) = ofLe bytes + capacity bytes.length * ofLe more := by
  induction bytes with
  | nil => simp [ofLe, capacity]
  | cons b bytes ih =>
      rw [List.cons_append, ofLe, ih, ofLe, List.length_cons, capacity, Nat.mul_add, Nat.mul_assoc,
        Nat.add_assoc]

theorem ofLe_lt (bytes : List UInt8) : ofLe bytes < capacity bytes.length := by
  induction bytes with
  | nil => exact Nat.one_pos
  | cons b bytes ih =>
      have hb := b.toNat_lt
      rw [ofLe, List.length_cons, capacity]
      omega

/-- Strings of one length with one number are the same. -/
theorem ofLe_inj {bytes more : List UInt8} (hlen : bytes.length = more.length)
    (h : ofLe bytes = ofLe more) : bytes = more := by
  induction bytes generalizing more with
  | nil => exact (List.length_eq_zero_iff.mp hlen.symm).symm
  | cons b bytes ih =>
      obtain _ | ⟨c, more⟩ := more
      · cases hlen
      · have hb := b.toNat_lt
        have hc := c.toNat_lt
        rw [ofLe, ofLe] at h
        have hhead : b = c := UInt8.toNat_inj.mp (by omega)
        rw [hhead, ih (Nat.succ.inj hlen) (by omega)]

/-- **A number in the other order**: a field holds `n` with its most significant byte first just if
    it reads as the bytes of `n` turned round. -/
theorem ofLe_reverse_iff {bytes : List UInt8} {n : Nat} (h : n < capacity bytes.length) :
    ofLe bytes.reverse = n ↔ ofLe bytes = ofLe (leBytes bytes.length n).reverse := by
  constructor
  · rintro rfl
    have hbytes : leBytes bytes.length (ofLe bytes.reverse) = bytes.reverse :=
      ofLe_inj (by rw [length_leBytes, List.length_reverse]) (ofLe_leBytes_of_lt h)
    rw [hbytes, List.reverse_reverse]
  · intro heq
    have hbytes : bytes = (leBytes bytes.length n).reverse :=
      ofLe_inj (by rw [List.length_reverse, length_leBytes]) heq
    rw [List.reverse_eq_iff.mpr hbytes, ofLe_leBytes_of_lt h]

/-! ## Fields of a buffer -/

theorem capacity_le {v w : Nat} (h : v ≤ w) : capacity v ≤ capacity w := by
  induction w with
  | zero =>
      obtain rfl := Nat.le_zero.mp h
      exact Nat.le_refl _
  | succ w ih =>
      rcases Nat.lt_or_eq_of_le h with hlt | rfl
      · have hw := ih (Nat.le_of_lt_succ hlt)
        rw [capacity]
        omega
      · exact Nat.le_refl _

/-- `n` bytes from `o` on. -/
def slice (buf : List UInt8) (o n : Nat) : List UInt8 := (buf.drop o).take n

/-- Bytes written into a buffer at `o`. -/
def writeAt (buf : List UInt8) (o : Nat) (bytes : List UInt8) : List UInt8 :=
  buf.take o ++ bytes ++ buf.drop (o + bytes.length)

section Fields

variable {buf bytes : List UInt8} {o n p : Nat}

theorem getElem?_slice (i : Nat) :
    (slice buf o n)[i]? = if i < n then buf[o + i]? else none := by
  rw [slice, List.getElem?_take, List.getElem?_drop]

theorem ofLe_slice_lt (buf : List UInt8) (o n : Nat) : ofLe (slice buf o n) < capacity n := by
  have hlen : (slice buf o n).length ≤ n := List.length_take_le n _
  exact Nat.lt_of_lt_of_le (ofLe_lt _) (capacity_le hlen)

theorem length_writeAt (h : o + bytes.length ≤ buf.length) :
    (writeAt buf o bytes).length = buf.length := by
  simp [writeAt]
  omega

theorem getElem?_writeAt (h : o + bytes.length ≤ buf.length) (i : Nat) :
    (writeAt buf o bytes)[i]? =
      if o ≤ i ∧ i < o + bytes.length then bytes[i - o]? else buf[i]? := by
  have hlen : (buf.take o).length = o := by simp; omega
  rw [writeAt, List.append_assoc]
  by_cases hi : i < o
  · rw [List.getElem?_append_left (by omega), List.getElem?_take_of_lt hi, if_neg (by omega)]
  · rw [List.getElem?_append_right (by omega), hlen]
    by_cases hb : i < o + bytes.length
    · rw [List.getElem?_append_left (by omega), if_pos (by omega)]
    · rw [List.getElem?_append_right (by omega), List.getElem?_drop, if_neg (by omega)]
      congr 1
      omega

/-- **What was written is read.** -/
theorem slice_writeAt (h : o + bytes.length ≤ buf.length) :
    slice (writeAt buf o bytes) o bytes.length = bytes := by
  refine List.ext_getElem? fun i => ?_
  rw [getElem?_slice, getElem?_writeAt h]
  by_cases hi : i < bytes.length
  · rw [if_pos hi, if_pos (by omega), Nat.add_sub_cancel_left]
  · rw [if_neg hi, List.getElem?_eq_none (Nat.not_lt.mp hi)]

/-- A number written into a field is read back. -/
theorem ofLe_slice_writeAt {width k : Nat} (h : o + width ≤ buf.length) (hk : k < capacity width) :
    ofLe (slice (writeAt buf o (leBytes width k)) o width) = k := by
  have hfits : o + (leBytes width k).length ≤ buf.length := by rw [length_leBytes]; exact h
  have hs := slice_writeAt hfits
  rw [length_leBytes] at hs
  rw [hs, ofLe_leBytes_of_lt hk]

/-- **What stands elsewhere stays.** -/
theorem slice_writeAt_apart (h : o + bytes.length ≤ buf.length)
    (hp : p + n ≤ o ∨ o + bytes.length ≤ p) :
    slice (writeAt buf o bytes) p n = slice buf p n := by
  refine List.ext_getElem? fun i => ?_
  rw [getElem?_slice, getElem?_slice, getElem?_writeAt h]
  by_cases hi : i < n
  · rw [if_pos hi, if_pos hi, if_neg (by omega)]
  · rw [if_neg hi, if_neg hi]

end Fields

end Nfp.Lib
