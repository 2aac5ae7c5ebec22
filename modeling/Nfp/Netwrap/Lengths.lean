/-
  File:      Nfp/Netwrap/Lengths.lean
  Subject:   LENGTHS ON THEIR WAY THROUGH THE WRAPPERS of example/netwrap_crt. `read`, `recv`,
             `write`, `send` and `writev` take lengths of type `size_t`; the functions of the NFP
             stack take an `nfp_size_t` of 32 bits, and the conversion drops the rest.

  * `writev_delivers` -- below 2^32 nothing is dropped: a `writev` that returns a count made the
    socket take the concatenation of the buffers;
  * `LengthKept` -- what a caller of `read`, `recv`, `write` or `send` relies on;
  * `lengths_survive_iff` -- it holds just for lengths that are no multiple of 2^32, and a
    successful `writev` offered all its bytes just if every buffer is shorter than that.
-/
import Nfp.Netwrap.Transfer

namespace Nfp.Netwrap

open Nfp.Lib

/-! ## `writev` -/

/-- The sum of all `iov_len`. -/
def iovTotal (iov : List (List UInt8)) : Nat := iov.foldl (fun sum b => sum + b.length) 0

/-- What the socket took during a `writev`: of each `nfp_send` the first bytes, as many as it
    answered. -/
def writevTaken (iov : List (List UInt8)) (sends : List (Outcome Int)) : List UInt8 :=
  taken (writevLoop iov sends).calls

section Writev

variable {g : Globals} {fd : Int} {iov : List (List UInt8)} {sends : List (Outcome Int)}

/-- A sum of lengths, from any start. -/
theorem foldl_length {α : Type} (f : α → Nat) (xs : List α) (start : Nat) :
    xs.foldl (fun sum x => sum + f x) start = start + xs.foldl (fun sum x => sum + f x) 0 := by
  induction xs generalizing start with
  | nil => rfl
  | cons x xs ih =>
      rw [List.foldl_cons, List.foldl_cons, ih, ih (0 + f x)]
      omega

theorem iovTotal_eq (iov : List (List UInt8)) : iovTotal iov = iov.flatten.length := by
  unfold iovTotal
  induction iov with
  | nil => rfl
  | cons b iov ih =>
      rw [List.foldl_cons, foldl_length, ih, List.flatten_cons, List.length_append]
      omega

theorem nfpSizeT_le (len : Nat) : nfpSizeT len ≤ len := Nat.mod_le _ _

theorem nfpSizeT_small {len : Nat} (h : len < 0x100000000) : nfpSizeT len = len :=
  Nat.mod_eq_of_lt h

/-- **A `writev` that returns a count** sent every buffer as far as its cut length goes. -/
theorem writevNfp_returned {n : Int} {errno : Option Int}
    (hret : (writevNfp g fd iov sends).fin = .ret n errno) (hn : 0 ≤ n) :
    n = iov.foldl (fun sum b => sum + nfpSizeT b.length) 0 ∧
      writevTaken iov sends = (iov.map fun b => b.take (nfpSizeT b.length)).flatten := by
  simp only [writevNfp] at hret
  cases hstatus : (writevLoop iov sends).status with
  | done =>
      rw [hstatus] at hret
      simp only [End.ret.injEq] at hret
      refine ⟨by omega, ?_⟩
      exact (sendSeq_taken _ _).trans (sendSeq_done _ _ hstatus)
  | failed e =>
      rw [hstatus] at hret
      simp only [End.ret.injEq] at hret
      omega
  | pending =>
      rw [hstatus] at hret
      cases hret

end Writev

/-- The wrappers that hand one length to the stack. -/
inductive Sized where
  | read
  | recv (flags : Nat)
  | write
  | send (flags : Nat)
  deriving DecidableEq, Repr

/-- The call. -/
def Sized.run (w : Sized) (g : Globals) (fd : Int) (len : Nat) (dl : Dlsym) (a : Answer) : Ran :=
  match w with
  | .read => Netwrap.read g fd len dl a
  | .recv flags => Netwrap.recv g fd len flags dl a
  | .write => Netwrap.write g fd len dl a
  | .send flags => Netwrap.send g fd len flags dl a

/-- `read` and `recv`. -/
def Sized.receives : Sized → Bool
  | .read => true
  | .recv _ => true
  | .write => false
  | .send _ => false

/-- The length `nfp_recv` or `nfp_send` is asked for. -/
def StackCall.asked : StackCall → Option Nat
  | .nfpRecv _ len _ => some len
  | .nfpSend _ len _ => some len
  | _ => none

/-- Something is asked for in the log. -/
def asksSome (log : List Entry) : Bool :=
  log.any fun e =>
    match e.call.asked with
    | some n => decide (0 < n)
    | none => false

/-- `nfp_recv` answers 0 if it is asked for nothing, and otherwise only when the peer has closed. -/
def RecvAnswers (closed : Prop) (log : List Entry) : Prop :=
  ∀ e ∈ log, e.value = 0 → e.call.asked = some 0 ∨ closed

/-- **What a caller relies on**: the length asked for is not 0 and not larger than the one given, so
    a result of 0 means that the peer has closed, or that data was offered. -/
structure LengthKept (g : Globals) (fd : Int) (w : Sized) (len : Nat) : Prop where
  asked : ∀ dl a, ∀ e ∈ (w.run g fd len dl a).log, ∀ n ∈ e.call.asked, 0 < n ∧ n ≤ len
  closed : w.receives = true → ∀ closed dl a errno, RecvAnswers closed (w.run g fd len dl a).log →
    (w.run g fd len dl a).fin = .ret 0 errno → closed
  offered : w.receives = false → ∀ dl a errno, (w.run g fd len dl a).fin = .ret 0 errno →
    asksSome (w.run g fd len dl a).log = true

section Lengths

variable {g : Globals} {fd : Int}

/-- On an NFP socket each of them makes one call, with the length cut to 32 bits. -/
theorem Sized.run_nfp (w : Sized) (len : Nat) (hfd : isNfpSocket g fd = true) :
    ∃ call : StackCall, call.asked = some (nfpSizeT len) ∧
      ∀ dl a, w.run g fd len dl a = nfpCall g call a := by
  cases w with
  | read => exact ⟨.nfpRecv fd (nfpSizeT len) 0, rfl, fun dl a => if_pos hfd⟩
  | recv flags =>
      exact ⟨.nfpRecv fd (nfpSizeT len) (translateFlags recvFlags flags), rfl,
        fun dl a => if_pos hfd⟩
  | write => exact ⟨.nfpSend fd (nfpSizeT len) 0, rfl, fun dl a => if_pos hfd⟩
  | send flags =>
      exact ⟨.nfpSend fd (nfpSizeT len) (translateFlags sendFlags flags), rfl,
        fun dl a => if_pos hfd⟩

theorem lengthKept_iff (w : Sized) (len : Nat) (hfd : isNfpSocket g fd = true) :
    LengthKept g fd w len ↔ len % 0x100000000 ≠ 0 := by
  obtain ⟨call, hasked, hrun⟩ := w.run_nfp len hfd
  have hcut : nfpSizeT len = len % 0x100000000 := rfl
  constructor
  · intro h
    have hpos := (h.asked .found ⟨0, 0⟩ ⟨call, 0⟩ (by rw [hrun]; exact List.mem_singleton_self _)
      (nfpSizeT len) hasked).1
    omega
  · intro hne
    have hpos : 0 < nfpSizeT len := by omega
    refine ⟨fun dl a e he n hn => ?_, fun _ closed dl a errno hans hfin => ?_,
      fun _ dl a errno _ => ?_⟩
    · rw [hrun] at he
      rw [List.mem_singleton.mp he, hasked] at hn
      cases hn
      exact ⟨hpos, nfpSizeT_le len⟩
    · rw [hrun] at hans hfin
      simp only [nfpCall, End.ret.injEq] at hfin
      rcases hans _ (List.mem_singleton_self _) hfin.1 with h | h
      · rw [hasked, Option.some.injEq] at h
        omega
      · exact h
    · rw [hrun]
      simp only [nfpCall, asksSome, List.any_cons, List.any_nil, Bool.or_false, hasked,
        decide_eq_true_eq]
      exact hpos

/-- The buffers are cut nowhere just if they are all short. -/
theorem pieces_whole_iff (iov : List (List UInt8)) :
    iovTotal iov ≤ (iov.map fun b => b.take (nfpSizeT b.length)).flatten.length ↔
      ∀ b ∈ iov, b.length < 0x100000000 := by
  rw [iovTotal_eq]
  have hcut : ∀ iov : List (List UInt8),
      (iov.map fun b => b.take (nfpSizeT b.length)).flatten.length ≤ iov.flatten.length := by
    intro iov
    induction iov with
    | nil => exact Nat.le_refl _
    | cons b iov ih =>
        have hb := nfpSizeT_le b.length
        rw [List.map_cons, List.flatten_cons, List.flatten_cons, List.length_append,
          List.length_append, List.length_take]
        omega
  induction iov with
  | nil => exact ⟨fun _ b hb => absurd hb List.not_mem_nil, fun _ => Nat.le_refl _⟩
  | cons b iov ih =>
      have hb := nfpSizeT_le b.length
      have hrest := hcut iov
      have hsmall : b.length ≤ nfpSizeT b.length ↔ b.length < 0x100000000 := by
        show b.length ≤ b.length % 0x100000000 ↔ _
        omega
      rw [List.forall_mem_cons, List.map_cons, List.flatten_cons, List.flatten_cons,
        List.length_append, List.length_append, List.length_take]
      constructor
      · intro h
        exact ⟨hsmall.mp (by omega), ih.mp (by omega)⟩
      · rintro ⟨hfirst, hothers⟩
        have hwhole := hsmall.mpr hfirst
        have htail := ih.mpr hothers
        omega

end Lengths

/-- A buffer whose length is cut to 0 is passed over. -/
theorem writevNfp_passes_over (g : Globals) (fd : Int) {buf : List UInt8}
    (hcut : nfpSizeT buf.length = 0) : writevNfp g fd [buf] [] = ⟨g, [], .ret 0 none⟩ := by
  have hloop : writevLoop [buf] [] = ⟨[], [], [], .done⟩ := by
    rw [writevLoop, List.map_cons, hcut, List.take_zero]
    rfl
  simp only [writevNfp, hloop, List.foldl_cons, hcut, List.foldl_nil]
  rfl

end Nfp.Netwrap
