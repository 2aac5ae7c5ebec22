/-
  File:      Nfp/Netwrap/Position.lean
  Subject:   WHERE `sendfile64` of example/netwrap_crt LEAVES THE FILE when it is given an offset.

  The position is asked for on entry and put back by the last `lseek`; a return from within the
  loops does not get there. `lseek` may fail at any time (`SeeksSound`), and so may `read` and
  `nfp_send`.

  * `bytesRead` -- by how much the reads of a transfer move the file, seen from the answers;
    `copyLoop_moves` -- that is where the loop leaves it;
  * `sendfile64_position_iff` -- the position is the one on entry just if the transfer got to the
    restoring `lseek`, did not get to the first move, or ended there by chance.
-/
import Nfp.Netwrap.Delivery

namespace Nfp.Netwrap

open Nfp.Lib

/-- Every `lseek` of the log either fails or answers as on a file that stands where the calls before
    it left it. -/
def SeeksSound : Int → List Entry → Prop
  | _, [] => True
  | pos, e :: log =>
      (∀ v ∈ seekValue pos e.call, e.value = v ∨ e.value = -1) ∧ SeeksSound (moveTo pos e) log

/-- By how much the reads move the file: by each chunk, up to the first that `nfp_send` does not
    take, a read that fails, the end of the file or `count`. -/
def bytesRead (count : Nat) : List FileRead → List (Outcome Int) → Nat → Nat
  | [], _, _ => 0
  | r :: reads, sends, processed =>
      if count ≤ processed then 0
      else
        match r with
        | .error => 0
        | .data bytes _ =>
            if bytes = [] then 0
            else if takesAll retryEagain sends bytes.length then
              bytes.length + bytesRead count reads (restAfter retryEagain sends bytes.length)
                (processed + bytes.length)
            else bytes.length

/-- A file that answers every `lseek` is one that may. -/
theorem SeeksAnswered.sound {pos : Int} {log : List Entry} (h : SeeksAnswered pos log) :
    SeeksSound pos log := by
  induction log generalizing pos with
  | nil => trivial
  | cons e log ih => exact ⟨fun v hv => Or.inl (h.1 v hv), ih h.2⟩

theorem seeksSound_append {pos : Int} {l l' : List Entry} (h : SeeksSound pos (l ++ l')) :
    SeeksSound (filePos pos l) l' := by
  induction l generalizing pos with
  | nil => exact h
  | cons e l ih => exact ih h.2

section Position

variable {g : Globals} {outFd inFd : Int} {count : Nat} {fa : FileAnswers}

/-- **Where the loop leaves the file.** -/
theorem copyLoop_moves (reads : List FileRead) (sends : List (Outcome Int)) (processed : Nat)
    (pos : Int) :
    filePos pos (copyLoop outFd inFd count true reads sends processed).log =
      pos + bytesRead count reads sends processed := by
  induction reads generalizing sends processed pos with
  | nil => exact (Int.add_zero pos).symm
  | cons r reads ih =>
      unfold copyLoop bytesRead
      by_cases hcount : count ≤ processed
      · rw [if_pos hcount, if_pos hcount]
        exact (Int.add_zero pos).symm
      · rw [if_neg hcount, if_neg hcount, if_pos rfl]
        cases r with
        | error => rfl
        | data bytes fits =>
            by_cases hb : bytes = []
            · simp only [if_pos hb]
              rfl
            · have hdone := @sendAll_done_iff UInt8 Int retryEagain sends bytes
              have hrest := @sendAll_rest UInt8 Int retryEagain sends bytes
              have hchunk := @filePos_chunk outFd inFd pos bytes.length
                (sendAll retryEagain sends bytes).calls
              simp only [if_neg hb, ← hrest, ← hdone]
              cases hstatus : (sendAll retryEagain sends bytes).status with
              | done =>
                  simp only [Copied.after, if_true]
                  rw [filePos_append, hchunk, ih]
                  omega
              | failed e => exact hchunk
              | pending => exact hchunk

/-- Without `libc_read` only a transfer of nothing returns. -/
theorem copyLoop_canRead {canRead : Bool} (reads : List FileRead) (sends : List (Outcome Int))
    {c : Copied} (hc : copyLoop outFd inFd count canRead reads sends 0 = c)
    (hcrash : c.stop ≠ some .crash) : copyLoop outFd inFd count true reads sends 0 = c := by
  cases canRead with
  | true => exact hc
  | false =>
      have hcount : count ≤ 0 := by
        by_contra hleft
        refine hcrash ?_
        rw [← hc]
        cases reads with
        | nil => simp only [copyLoop, if_neg hleft, Bool.false_eq_true, if_false]
        | cons r reads => simp only [copyLoop, if_neg hleft, Bool.false_eq_true, if_false]
      rw [← hc]
      cases reads with
      | nil => simp only [copyLoop, if_pos hcount]
      | cons r reads => simp only [copyLoop, if_pos hcount]

/-- The loop goes to the end of the function just if its fate is to end. -/
theorem copyLoop_ended_iff {reads : List FileRead} {sends : List (Outcome Int)} {processed : Nat}
    {c : Copied} (hc : copyLoop outFd inFd count true reads sends processed = c) :
    c.stop = none ↔ copyFate count reads sends processed = .ended := by
  have hfate := copyLoop_fate _ _ _ hc
  cases hcase : copyFate count reads sends processed with
  | ended =>
      rw [hcase] at hfate
      exact iff_of_true hfate rfl
  | failed =>
      rw [hcase] at hfate
      obtain ⟨errno, hstop⟩ := hfate
      rw [hstop]
      exact iff_of_false (Option.some_ne_none _) Fate.noConfusion
  | underWay =>
      rw [hcase] at hfate
      rw [hfate]
      exact iff_of_false (Option.some_ne_none _) Fate.noConfusion

/-- The first two `lseek` calls take the file from `pos` to `*offset`. -/
theorem filePos_moved {pos off : Int} {tail : List Entry} (htell : fa.tell ≠ -1)
    (hseek : fa.seek ≠ -1)
    (h : SeeksSound pos
      ([tellEntry inFd fa.tell, seekEntry inFd off fa.seek] ++ tail)) :
    fa.tell = pos ∧ filePos pos [tellEntry inFd fa.tell, seekEntry inFd off fa.seek] = off := by
  obtain ⟨htellAns, hseekAns, -⟩ := h
  have htellEq : fa.tell = pos := (htellAns _ rfl).resolve_right htell
  have hseekEq : fa.seek = if 0 ≤ off then off else -1 := (hseekAns _ rfl).resolve_right hseek
  refine ⟨htellEq, ?_⟩
  show moveTo (moveTo pos (tellEntry inFd fa.tell)) (seekEntry inFd off fa.seek) = off
  rw [moveTo_seek _ _ hseek, hseekEq]
  refine if_pos ?_
  by_contra hneg
  exact hseek (hseekEq.trans (if_neg hneg))

/-- **Where the position comes back.** A `sendfile64` with an offset that returns, whatever it
    returns, leaves the file at the position it had on entry just if the move to `*offset` failed,
    or no read and no `nfp_send` failed for good and the position behind the transfer could be
    asked for, or the bytes read from `*offset` on end at that position. -/
theorem sendfile64_position_iff (dl : Dlsym) (a : Answer) (hfd : isNfpSocket g outFd = true)
    {pos : Nat} {off : Int} {r : Ran}
    (hr : sendfile64 g outFd inFd (some off) count dl a fa = r)
    (hseeks : SeeksSound pos r.log) (htell : fa.tell ≠ -1) (hback : fa.seekBack ≠ -1)
    {v : Int} {errno : Option Int} (hret : r.fin = .ret v errno) :
    filePos pos r.log = pos ↔
      fa.seek = -1 ∨ copyFate count fa.reads fa.sends 0 = .ended ∧ fa.tellAfter ≠ -1 ∨
        off + bytesRead count fa.reads fa.sends 0 = pos := by
  rw [sendfile64_nfp dl a hfd] at hr
  subst hr
  simp only [sendfileNfp] at hseeks hret ⊢
  generalize hc : copyLoop outFd inFd count (g.loaded .sendfileRead) fa.reads fa.sends 0 = c
    at hseeks hret ⊢
  by_cases hseek : fa.seek = -1
  · -- nothing has moved yet
    rw [sendfileAt_unmoved g htell hseek] at hseeks ⊢
    refine iff_of_true ?_ (Or.inl hseek)
    have htellEq : fa.tell = pos := (hseeks.1 _ rfl).resolve_right htell
    show moveTo (moveTo pos (tellEntry inFd fa.tell)) (seekEntry inFd off (-1)) = pos
    exact (if_neg htell).trans htellEq
  · have hloop : c.stop ≠ some .crash := by
      intro hcrash
      rw [sendfileAt_stopped g htell hseek hcrash] at hret
      cases hret
    have hc' := copyLoop_canRead _ _ hc hloop
    have hended := copyLoop_ended_iff hc'
    have hmoves : ∀ p, filePos p c.log = p + bytesRead count fa.reads fa.sends 0 := by
      intro p
      rw [← hc']
      exact copyLoop_moves _ _ _ p
    rw [or_iff_right hseek, ← hended]
    cases hstop : c.stop with
    | some fin =>
        rw [sendfileAt_stopped g htell hseek hstop] at hseeks ⊢
        -- the loop ends the call: the file stays behind what was read
        obtain ⟨-, hfirst⟩ := filePos_moved htell hseek hseeks
        rw [or_iff_right fun h => Option.some_ne_none fin h.1, filePos_append, hfirst, hmoves]
    | none =>
        by_cases hafter : fa.tellAfter = -1
        · rw [sendfileAt_lost g htell hseek hstop hafter] at hseeks ⊢
          rw [List.append_assoc] at hseeks
          obtain ⟨-, hfirst⟩ := filePos_moved htell hseek hseeks
          rw [or_iff_right fun h => h.2 hafter, filePos_append, filePos_append, hfirst, hmoves]
          rfl
        · rw [sendfileAt_back g htell hseek hstop hafter] at hseeks ⊢
          refine iff_of_true ?_ (Or.inl ⟨rfl, hafter⟩)
          rw [List.append_assoc] at hseeks
          obtain ⟨htellEq, hfirst⟩ := filePos_moved htell hseek hseeks
          have hlast := seeksSound_append (seeksSound_append hseeks)
          have hbackEq : fa.seekBack = if 0 ≤ fa.tell then fa.tell else -1 :=
            (hlast.2.1 _ rfl).resolve_right hback
          rw [if_pos (by omega)] at hbackEq
          rw [filePos_append]
          show moveTo _ (seekEntry inFd fa.tell fa.seekBack) = pos
          rw [moveTo_seek _ _ hback, hbackEq, htellEq]

end Position

/-- A transfer with short reads and a send to be repeated comes back to position 7. -/
theorem sendfile64_position_iff_parts :
    filePos (7 : Nat) (sendfile64 someGlobals 1030 4 (some 1) 9 .found ⟨0, 0⟩ someTransfer).log =
      (7 : Nat) :=
  (sendfile64_position_iff .found ⟨0, 0⟩ rfl rfl
    (SeeksAnswered.sound (by decide)) (by decide) (by decide)
    (rfl : (sendfile64 someGlobals 1030 4 (some 1) 9 .found ⟨0, 0⟩ someTransfer).fin =
      .ret 5 none)).mpr (Or.inr (Or.inl (by decide)))

/-- Two bytes are read from position 1 on, the next read fails: -1 is returned, and the file that
    stood at 7 stands at 3. -/
theorem sendfile64_loses_position :
    let fa : FileAnswers :=
      { someTransfer with reads := [.data [2, 3] (by decide), .error], sends := [.took 2] }
    let r := sendfile64 someGlobals 1030 4 (some 1) 9 .found ⟨0, 0⟩ fa
    SeeksAnswered 7 r.log ∧ r.fin = .ret (-1) none ∧ filePos 7 r.log = 3 :=
  ⟨by decide, rfl, rfl⟩

end Nfp.Netwrap
