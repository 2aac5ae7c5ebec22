/-
  File:      Nfp/Netwrap/Delivery.lean
  Subject:   WHAT THE SOCKET HAS TAKEN when `writev` or `sendfile64` of example/netwrap_crt returns.

  A regular file is its content and a position. The position after a call is read off the log
  (`filePos`); `RegularFile` says that `lseek` and `read` answered as such a file does, with any
  pattern of short reads.

  * `copyLoop_front`, `copyLoop_position` -- the loop delivers the file from where it stands, and
    leaves the position behind what it delivered;
  * `sendfile64_delivers` -- a call that returns `n` delivered the `n` bytes from its start;
  * `runsOver` -- the loop reads up to `BUF_SIZE` bytes whatever is left of `count`: where it runs
    over, seen from the answers; `sendfile64_count_iff` -- a call keeps to `count` just if it does
    not, and without short reads sends whole buffers; `sendfile64_always_keeps_iff` -- for which
    arguments no call runs over;
  * `gathered_error_iff` -- when -1 means that the socket took nothing.
-/
import Nfp.Netwrap.Transfer

namespace Nfp.Netwrap

open Nfp.Lib

/-! ## The file behind `in_fd` -/

/-- The position after a call. -/
def moveTo (pos : Int) (e : Entry) : Int :=
  match e.call with
  | .lseek _ _ _ => if e.value = -1 then pos else e.value
  | .libc (.read _ _) => pos + max e.value 0
  | _ => pos

/-- The position after the calls of a log. -/
def filePos (pos : Int) (log : List Entry) : Int := log.foldl moveTo pos

/-- What `lseek` answers on a regular file that stands at `pos`. -/
def seekValue (pos : Int) : StackCall → Option Int
  | .lseek _ off fromStart => some (if fromStart then (if 0 ≤ off then off else -1) else pos)
  | _ => none

/-- Every `lseek` of the log answers so. -/
def SeeksAnswered : Int → List Entry → Prop
  | _, [] => True
  | pos, e :: log => (∀ v ∈ seekValue pos e.call, e.value = v) ∧ SeeksAnswered (moveTo pos e) log

/-- What `read` answers from `pos` on: the bytes there, any number of them but none at the end
    only, or an error. -/
def ReadsFrom (content : List UInt8) : Nat → List FileRead → Prop
  | _, [] => True
  | pos, .error :: reads => ReadsFrom content pos reads
  | pos, .data bytes _ :: reads =>
      bytes <+: content.drop pos ∧ (bytes = [] → content.length ≤ pos) ∧
        ReadsFrom content (pos + bytes.length) reads

/-- No read is short before the end of the file. -/
def NoShortRead (content : List UInt8) : Nat → List FileRead → Prop
  | _, [] => True
  | pos, .error :: reads => NoShortRead content pos reads
  | pos, .data bytes _ :: reads =>
      bytes.length = min bufSize (content.length - pos) ∧
        NoShortRead content (pos + bytes.length) reads

/-- Such a log and such reads can be checked. -/
def decideSeeks : ∀ pos log, Decidable (SeeksAnswered pos log)
  | _, [] => isTrue trivial
  | pos, e :: log =>
      have := decideSeeks (moveTo pos e) log
      inferInstanceAs (Decidable (_ ∧ _))

instance (pos : Int) (log : List Entry) : Decidable (SeeksAnswered pos log) := decideSeeks pos log

def decideReads (content : List UInt8) :
    ∀ pos reads, Decidable (ReadsFrom content pos reads)
  | _, [] => isTrue trivial
  | pos, .error :: reads => decideReads content pos reads
  | pos, .data bytes _ :: reads =>
      have := decideReads content (pos + bytes.length) reads
      inferInstanceAs (Decidable (_ ∧ _ ∧ _))

instance (content : List UInt8) (pos : Nat) (reads : List FileRead) :
    Decidable (ReadsFrom content pos reads) := decideReads content pos reads

/-- Where the transfer starts: `*offset`, or the position. -/
def startOf (pos : Nat) (offset : Option Int) : Int := offset.getD pos

/-- **The file behaves as a regular one that nobody else changes.** -/
structure RegularFile (content : List UInt8) (pos : Nat) (offset : Option Int) (log : List Entry)
    (reads : List FileRead) : Prop where
  seeks : SeeksAnswered pos log
  reads : ReadsFrom content (startOf pos offset).toNat reads

section Position

variable {outFd inFd : Int}

theorem filePos_append (pos : Int) (l l' : List Entry) :
    filePos pos (l ++ l') = filePos (filePos pos l) l' := List.foldl_append

theorem seeksAnswered_append {pos : Int} {l l' : List Entry} :
    SeeksAnswered pos (l ++ l') ↔ SeeksAnswered pos l ∧ SeeksAnswered (filePos pos l) l' := by
  induction l generalizing pos with
  | nil => exact ⟨fun h => ⟨trivial, h⟩, fun h => h.2⟩
  | cons e l ih =>
      show _ ∧ SeeksAnswered _ (l ++ l') ↔ (_ ∧ _) ∧ SeeksAnswered (filePos (moveTo pos e) l) l'
      rw [ih, and_assoc]

/-- `nfp_send` leaves the file alone. -/
theorem filePos_sendEntries (pos : Int) (calls : List (List UInt8 × Outcome Int)) :
    filePos pos (sendEntries outFd calls) = pos := by
  induction calls with
  | nil => rfl
  | cons c calls ih => exact ih

theorem seeksAnswered_sendEntries (pos : Int) (calls : List (List UInt8 × Outcome Int)) :
    SeeksAnswered pos (sendEntries outFd calls) := by
  induction calls with
  | nil => trivial
  | cons c calls ih => exact ⟨nofun, ih⟩

theorem moveTo_seek (pos off : Int) {v : Int} (hv : v ≠ -1) : moveTo pos (seekEntry inFd off v) = v :=
  if_neg hv

theorem tell_answered {pos v : Int} (h : v = pos) :
    ∀ w ∈ seekValue pos (tellEntry inFd v).call, (tellEntry inFd v).value = w := by
  intro w hw
  cases hw
  exact h

theorem seek_answered (pos : Int) {off v : Int} (h : v = if 0 ≤ off then off else -1) :
    ∀ w ∈ seekValue pos (seekEntry inFd off v).call, (seekEntry inFd off v).value = w := by
  intro w hw
  cases hw
  exact h

/-- A chunk that was read and sent moves the file by its length. -/
theorem filePos_chunk (pos : Int) (n : Nat) (calls : List (List UInt8 × Outcome Int)) :
    filePos pos (readEntry inFd n :: sendEntries outFd calls) = pos + n := by
  show filePos (pos + max (n : Int) 0) _ = _
  rw [filePos_sendEntries]
  omega

end Position

/-! ## What the loop delivers -/

section Loop

variable {outFd inFd : Int} {count : Nat} {canRead : Bool}

/-- The loop itself returns -1 only. -/
theorem copyLoop_stop (reads : List FileRead) (sends : List (Outcome Int)) (processed : Nat)
    {v : Int} {errno : Option Int}
    (h : (copyLoop outFd inFd count canRead reads sends processed).stop = some (.ret v errno)) :
    v = -1 := by
  fun_induction copyLoop outFd inFd count canRead reads sends processed with
  | case1 sends processed =>
      dsimp only at h
      split at h
      · cases h
      · split at h
        · cases h
        · cases h
  | case2 r reads sends processed hcount => cases h
  | case3 reads sends processed hcount hread => cases h; rfl
  | case4 reads sends processed hcount hread fits => cases h
  | case5 reads sends processed hcount hread bytes fits hne log accepted hdone ih => exact ih h
  | case6 reads sends processed hcount hread bytes fits hne log accepted e hfailed => cases h; rfl
  | case7 reads sends processed hcount hread bytes fits hne log accepted hpending => cases h
  | case8 r reads sends processed hcount hread => cases h

/-- The loop makes no `lseek`. -/
theorem copyLoop_seeks (reads : List FileRead) (sends : List (Outcome Int)) (processed : Nat)
    (pos : Int) :
    SeeksAnswered pos (copyLoop outFd inFd count canRead reads sends processed).log := by
  have hchunk : ∀ pos (n : Int) calls,
      SeeksAnswered pos (readEntry inFd n :: sendEntries outFd calls) := fun pos n calls =>
    ⟨nofun, seeksAnswered_sendEntries _ calls⟩
  fun_induction copyLoop outFd inFd count canRead reads sends processed generalizing pos with
  | case1 sends processed => trivial
  | case2 r reads sends processed hcount => trivial
  | case3 reads sends processed hcount hread => exact ⟨nofun, trivial⟩
  | case4 reads sends processed hcount hread fits => exact ⟨nofun, trivial⟩
  | case5 reads sends processed hcount hread bytes fits hne log accepted hdone ih =>
      exact seeksAnswered_append.mpr ⟨hchunk _ _ _, ih _⟩
  | case6 reads sends processed hcount hread bytes fits hne log accepted e hfailed =>
      exact hchunk _ _ _
  | case7 reads sends processed hcount hread bytes fits hne log accepted hpending =>
      exact hchunk _ _ _
  | case8 r reads sends processed hcount hread => trivial

/-- **The socket takes the file from where it stands**, at every moment of the loop. -/
theorem copyLoop_front {content : List UInt8} (reads : List FileRead) (sends : List (Outcome Int))
    (processed : Nat) {pos : Nat} (h : ReadsFrom content pos reads) :
    (copyLoop outFd inFd count canRead reads sends processed).accepted <+: content.drop pos := by
  revert pos
  fun_induction copyLoop outFd inFd count canRead reads sends processed with
  | case1 sends processed => exact fun _ => List.nil_prefix
  | case2 r reads sends processed hcount => exact fun _ => List.nil_prefix
  | case3 reads sends processed hcount hread => exact fun _ => List.nil_prefix
  | case4 reads sends processed hcount hread fits => exact fun _ => List.nil_prefix
  | case5 =>
      rename_i bytes fits hne log accepted hdone ih
      rintro pos ⟨hfront, -, hreads⟩
      have hsent : accepted = bytes := sendAll_done _ bytes hdone
      have hsplit : bytes ++ content.drop (pos + bytes.length) = content.drop pos := by
        obtain ⟨tail, htail⟩ := hfront
        rw [← htail, ← List.drop_drop, ← htail, List.drop_left]
      show accepted ++ _ <+: content.drop pos
      rw [hsent, ← hsplit]
      exact (List.prefix_append_right_inj bytes).mpr (ih hreads)
  | case6 => exact fun h => (sendAll_front _ _).trans h.1
  | case7 => exact fun h => (sendAll_front _ _).trans h.1
  | case8 r reads sends processed hcount hread => exact fun _ => List.nil_prefix

/-- **`data_processed` and the position move by what the socket took**, if the loop gets to its
    end. -/
theorem copyLoop_position (reads : List FileRead) (sends : List (Outcome Int)) (processed : Nat)
    (pos : Int) {c : Copied}
    (hc : copyLoop outFd inFd count canRead reads sends processed = c) (h : c.stop = none) :
    c.processed = processed + c.accepted.length ∧
      filePos pos c.log = pos + c.accepted.length := by
  subst hc
  fun_induction copyLoop outFd inFd count canRead reads sends processed generalizing pos with
  | case1 sends processed => exact ⟨rfl, (Int.add_zero pos).symm⟩
  | case2 r reads sends processed hcount => exact ⟨rfl, (Int.add_zero pos).symm⟩
  | case3 reads sends processed hcount hread => cases h
  | case4 reads sends processed hcount hread fits => exact ⟨rfl, rfl⟩
  | case5 reads sends processed hcount hread bytes fits hne log accepted hdone ih =>
      obtain ⟨hproc, hpos⟩ := ih (pos + bytes.length) h
      have hsent : accepted = bytes := sendAll_done sends bytes hdone
      have hmove : filePos pos log = pos + bytes.length := filePos_chunk pos _ _
      simp only [Copied.after]
      rw [hproc, filePos_append, hmove, hpos, hsent, List.length_append]
      exact ⟨by omega, by omega⟩
  | case6 reads sends processed hcount hread bytes fits hne log accepted e hfailed => cases h
  | case7 reads sends processed hcount hread bytes fits hne log accepted hpending => cases h
  | case8 r reads sends processed hcount hread => cases h

/-- A loop gets to its end with `count` bytes, or at the end of the file. -/
theorem copyLoop_exhausts {content : List UInt8} (reads : List FileRead)
    (sends : List (Outcome Int)) (processed : Nat) {pos : Nat} (hreads : ReadsFrom content pos reads)
    {c : Copied} (hc : copyLoop outFd inFd count canRead reads sends processed = c)
    (h : c.stop = none) : count ≤ c.processed ∨ content.length ≤ pos + c.accepted.length := by
  subst hc
  revert pos
  fun_induction copyLoop outFd inFd count canRead reads sends processed with
  | case1 sends processed =>
      dsimp only at h
      split at h
      · exact fun _ => Or.inl ‹_›
      · split at h
        · cases h
        · cases h
  | case2 r reads sends processed hcount => exact fun _ => Or.inl hcount
  | case3 reads sends processed hcount hread => cases h
  | case4 reads sends processed hcount hread fits => exact fun hreads => Or.inr (hreads.2.1 rfl)
  | case5 =>
      rename_i bytes fits hne log accepted hdone ih
      intro pos hreads
      have hsent : accepted = bytes := sendAll_done _ bytes hdone
      have hrec := ih h hreads.2.2
      simp only [Copied.after]
      rw [hsent, List.length_append]
      omega
  | case6 => cases h
  | case7 => cases h
  | case8 r reads sends processed hcount hread => cases h

end Loop

/-! ## What `sendfile64` delivers -/

/-- The bytes the socket took. -/
def sendfileAccepted (g : Globals) (outFd inFd : Int) (offset : Option Int) (count : Nat)
    (fa : FileAnswers) : List UInt8 :=
  let c := copyLoop outFd inFd count (g.loaded .sendfileRead) fa.reads fa.sends 0
  match offset with
  | none => c.accepted
  | some _ => if fa.tell = -1 ∨ fa.seek = -1 then [] else c.accepted

section Sendfile

variable {g : Globals} {outFd inFd : Int} {offset : Option Int} {count : Nat} {fa : FileAnswers}

theorem sendfile64_nfp (dl : Dlsym) (a : Answer) (hfd : isNfpSocket g outFd = true) :
    sendfile64 g outFd inFd offset count dl a fa =
      (sendfileNfp g outFd inFd offset count fa).ran := if_pos hfd

/-- What the socket took is what it took in the loop, or nothing. -/
theorem sendfileAccepted_loop {c : Copied}
    (hc : copyLoop outFd inFd count (g.loaded .sendfileRead) fa.reads fa.sends 0 = c) :
    sendfileAccepted g outFd inFd offset count fa = [] ∨
      sendfileAccepted g outFd inFd offset count fa = c.accepted := by
  unfold sendfileAccepted
  rw [hc]
  cases offset with
  | none => exact Or.inr rfl
  | some off =>
      dsimp only
      split
      · exact Or.inl rfl
      · exact Or.inr rfl

/-- **A call that returns a count** went through the loop, and every `lseek` was answered. -/
theorem sendfileNfp_returned {c : Copied}
    (hc : copyLoop outFd inFd count (g.loaded .sendfileRead) fa.reads fa.sends 0 = c)
    {s : SendfileRan} (hs : sendfileNfp g outFd inFd offset count fa = s) {n : Nat}
    {errno : Option Int} (hret : s.ran.fin = .ret n errno) :
    c.stop = none ∧ n = c.processed ∧ sendfileAccepted g outFd inFd offset count fa = c.accepted ∧
      match offset with
      | none => s.ran.log = c.log
      | some off => fa.seek ≠ -1 ∧ fa.seekBack ≠ -1 ∧ s.offset = some fa.tellAfter ∧
          s.ran.log = [tellEntry inFd fa.tell, seekEntry inFd off fa.seek] ++ c.log ++
            [tellEntry inFd fa.tellAfter, seekEntry inFd fa.tell fa.seekBack] := by
  have hstop : ∀ v e, c.stop = some (.ret v e) → v = -1 := by
    intro v e h
    rw [← hc] at h
    exact copyLoop_stop _ _ _ h
  have hnot : ∀ e, c.stop ≠ some (.ret n e) := by
    intro e h
    have := hstop n e h
    omega
  subst hs
  cases offset with
  | none =>
      simp only [sendfileNfp, hc] at hret ⊢
      cases hcase : c.stop with
      | none =>
          rw [hcase] at hret
          simp only [Option.getD_none, End.ret.injEq] at hret
          refine ⟨rfl, by omega, ?_, trivial⟩
          simp only [sendfileAccepted, hc]
      | some fin =>
          rw [hcase] at hret
          simp only [Option.getD_some] at hret
          exact absurd (hcase.trans (congrArg some hret)) (hnot errno)
  | some off =>
      simp only [sendfileNfp, hc] at hret ⊢
      by_cases htell : fa.tell = -1
      · rw [sendfileAt_untold g htell] at hret
        cases hret
      by_cases hseek : fa.seek = -1
      · rw [sendfileAt_unmoved g htell hseek] at hret
        cases hret
      cases hcase : c.stop with
      | some fin =>
          rw [sendfileAt_stopped g htell hseek hcase] at hret
          exact absurd (hcase.trans (congrArg some hret)) (hnot errno)
      | none =>
          by_cases hafter : fa.tellAfter = -1
          · rw [sendfileAt_lost g htell hseek hcase hafter] at hret
            cases hret
          rw [sendfileAt_back g htell hseek hcase hafter] at hret ⊢
          by_cases hback : fa.seekBack = -1
          · rw [if_pos hback] at hret
            cases hret
          rw [if_neg hback, End.ret.injEq] at hret
          refine ⟨rfl, by omega, ?_, hseek, hback, rfl, rfl⟩
          simp only [sendfileAccepted, hc]
          rw [if_neg (not_or.mpr ⟨htell, hseek⟩)]

/-- **The four `lseek` calls** on a regular file: the transfer starts at `*offset`, ends behind what
    was delivered, and the position comes back. -/
theorem seeks_around {pos : Nat} {off : Int} {fa : FileAnswers} {c : Copied} {m : Nat}
    (hmove : ∀ p, filePos p c.log = p + m)
    (hseek : fa.seek ≠ -1) (hback : fa.seekBack ≠ -1) {log : List Entry}
    (hlog : log = [tellEntry inFd fa.tell, seekEntry inFd off fa.seek] ++ c.log ++
      [tellEntry inFd fa.tellAfter, seekEntry inFd fa.tell fa.seekBack])
    (h : SeeksAnswered pos log) :
    0 ≤ off ∧ fa.tellAfter = off + m ∧ filePos pos log = pos := by
  rw [hlog, List.append_assoc, seeksAnswered_append, seeksAnswered_append] at h
  obtain ⟨⟨htellAns, hseekAns, -⟩, -, hafterAns, hbackAns, -⟩ := h
  have htellEq : fa.tell = pos := htellAns _ rfl
  have hseekEq : fa.seek = if 0 ≤ off then off else -1 := hseekAns _ rfl
  have hoff : 0 ≤ off := by
    by_contra hneg
    exact hseek (hseekEq.trans (if_neg hneg))
  rw [if_pos hoff] at hseekEq
  have hfirst : filePos pos [tellEntry inFd fa.tell, seekEntry inFd off fa.seek] = off := by
    show moveTo (moveTo pos (tellEntry inFd fa.tell)) (seekEntry inFd off fa.seek) = off
    rw [moveTo_seek _ _ hseek, hseekEq]
  have hafterEq : fa.tellAfter = off + m := by
    have : fa.tellAfter = filePos (filePos pos _) c.log := hafterAns _ rfl
    rw [this, hfirst, hmove]
  have hbackEq : fa.seekBack = fa.tell := by
    have : fa.seekBack = if 0 ≤ fa.tell then fa.tell else -1 := hbackAns _ rfl
    rw [this, if_pos (by omega)]
  refine ⟨hoff, hafterEq, ?_⟩
  rw [hlog, filePos_append]
  show moveTo _ (seekEntry inFd fa.tell fa.seekBack) = pos
  rw [moveTo_seek _ _ hback, hbackEq, htellEq]

end Sendfile

/-- Reads that give these chunks, each as far as the buffer goes. -/
def readsOf (chunks : List (List UInt8)) : List FileRead :=
  chunks.map fun bytes => .data (bytes.take bufSize) (List.length_take_le bufSize bytes)

/-- Five bytes from `*offset` on, with short reads, partial sends and a send to be repeated. -/
def someTransfer : FileAnswers where
  tell := 7
  seek := 1
  tellAfter := 6
  seekBack := 7
  reads := readsOf [[2, 3], [4, 5, 6], []]
  sends := [.took 1, .failed 35, .took 1, .took 0, .took 2, .took 9]

/-- **The call keeps to `count`**: the socket takes no more than `count` bytes, and, if no read was
    short, the call returns `count` or the rest of the file. -/
def KeepsToCount (g : Globals) (outFd inFd : Int) (offset : Option Int) (count : Nat) (dl : Dlsym)
    (a : Answer) (content : List UInt8) (pos : Nat) (fa : FileAnswers) : Prop :=
  (sendfileAccepted g outFd inFd offset count fa).length ≤ count ∧
  ∀ (n : Nat) (errno : Option Int),
    (sendfile64 g outFd inFd offset count dl a fa).fin = .ret n errno →
    NoShortRead content (startOf pos offset).toNat fa.reads →
      n = min count (content.length - (startOf pos offset).toNat)

/-- **A read runs over `count`**, seen from the answers: it gives more bytes than are left of `count`,
    and `nfp_send` takes more than are left before it fails for good. A read that gives no more is
    followed by another one once `nfp_send` has taken all of it. -/
def runsOver (count : Nat) : List FileRead → List (Outcome Int) → Nat → Bool
  | [], _, _ => false
  | .error :: _, _, _ => false
  | .data bytes _ :: reads, sends, processed =>
      if count ≤ processed ∨ bytes = [] then false
      else if count < processed + bytes.length then
        takesAll retryEagain sends (count - processed + 1)
      else
        takesAll retryEagain sends bytes.length &&
          runsOver count reads (restAfter retryEagain sends bytes.length)
            (processed + bytes.length)

/-- **The call runs over `count`**: it gets to its loop, and there a read does. -/
def RunsOver (g : Globals) (offset : Option Int) (count : Nat) (fa : FileAnswers) : Prop :=
  g.loaded .sendfileRead = true ∧ (offset ≠ none → fa.tell ≠ -1 ∧ fa.seek ≠ -1) ∧
    runsOver count fa.reads fa.sends 0 = true

/-- `n` rounded up to whole buffers. -/
def wholeBuffers (n : Nat) : Nat := (n + (bufSize - 1)) / bufSize * bufSize

section Count

variable {g : Globals} {outFd inFd : Int} {offset : Option Int} {count : Nat} {fa : FileAnswers}
  {content : List UInt8} {pos : Nat}

/-- A loop without `libc_read`, or with nothing to copy, takes nothing. -/
theorem copyLoop_idle {canRead : Bool} (h : canRead = false ∨ count = 0) (reads : List FileRead)
    (sends : List (Outcome Int)) :
    (copyLoop outFd inFd count canRead reads sends 0).accepted = [] := by
  cases reads with
  | nil => rfl
  | cons r reads =>
      unfold copyLoop
      split
      · rfl
      · rename_i hcount
        rcases h with rfl | h
        · rfl
        · omega

/-- A negative `*offset` is refused, and nothing is sent. -/
theorem sendfileAccepted_negative {off : Int} (hoff : off < 0)
    (h : SeeksAnswered pos (sendfileNfp g outFd inFd (some off) count fa).ran.log) :
    sendfileAccepted g outFd inFd (some off) count fa = [] := by
  simp only [sendfileAccepted]
  refine if_pos ?_
  by_contra hboth
  obtain ⟨htell, hseek⟩ := not_or.mp hboth
  have hlog : ∃ tail, (sendfileNfp g outFd inFd (some off) count fa).ran.log =
      tellEntry inFd fa.tell :: seekEntry inFd off fa.seek :: tail := by
    simp only [sendfileNfp]
    cases hstop : (copyLoop outFd inFd count (g.loaded .sendfileRead) fa.reads fa.sends 0).stop with
    | some fin =>
        rw [sendfileAt_stopped g htell hseek hstop]
        exact ⟨_, rfl⟩
    | none =>
        by_cases hafter : fa.tellAfter = -1
        · rw [sendfileAt_lost g htell hseek hstop hafter]
          exact ⟨_, rfl⟩
        · rw [sendfileAt_back g htell hseek hstop hafter]
          exact ⟨_, rfl⟩
  obtain ⟨tail, hlog⟩ := hlog
  rw [hlog] at h
  have hans : fa.seek = if 0 ≤ off then off else -1 := h.2.1 _ rfl
  rw [if_neg (by omega)] at hans
  exact hseek hans

/-- What the socket takes is in the file. -/
theorem sendfileAccepted_le (h : ReadsFrom content (startOf pos offset).toNat fa.reads) :
    (sendfileAccepted g outFd inFd offset count fa).length ≤
      content.length - (startOf pos offset).toNat := by
  have hfront := @copyLoop_front outFd inFd count (g.loaded .sendfileRead) content fa.reads
    fa.sends 0 _ h
  have hlen := hfront.length_le
  rw [List.length_drop] at hlen
  rcases @sendfileAccepted_loop g outFd inFd offset count fa _ rfl with hacc | hacc
  · rw [hacc]
    exact Nat.zero_le _
  · rw [hacc]
    exact hlen

/-- A call whose socket took no more than `count` bytes returns the smaller of the two. -/
theorem sendfileNfp_min (hreads : ReadsFrom content (startOf pos offset).toNat fa.reads)
    (hle : (sendfileAccepted g outFd inFd offset count fa).length ≤ count)
    {n : Nat} {errno : Option Int}
    (hret : (sendfileNfp g outFd inFd offset count fa).ran.fin = .ret n errno) :
    n = min count (content.length - (startOf pos offset).toNat) := by
  obtain ⟨hstop, hn, hacc, -⟩ := sendfileNfp_returned rfl rfl hret
  have hfile := @sendfileAccepted_le g outFd inFd offset count fa content pos hreads
  have hproc := (@copyLoop_position outFd inFd count (g.loaded .sendfileRead) fa.reads
    fa.sends 0 0 _ rfl hstop).1
  have hend := @copyLoop_exhausts outFd inFd count (g.loaded .sendfileRead) content fa.reads
    fa.sends 0 _ hreads _ rfl hstop
  rw [hacc] at hle hfile
  omega

/-- On a regular file the bound is all there is to it. -/
theorem keepsToCount_iff_le (dl : Dlsym) (a : Answer) (hfd : isNfpSocket g outFd = true)
    (hreads : ReadsFrom content (startOf pos offset).toNat fa.reads) :
    KeepsToCount g outFd inFd offset count dl a content pos fa ↔
      (sendfileAccepted g outFd inFd offset count fa).length ≤ count := by
  refine ⟨fun h => h.1, fun hle => ⟨hle, fun n errno hret _ => ?_⟩⟩
  rw [sendfile64_nfp dl a hfd] at hret
  exact sendfileNfp_min hreads hle hret

/-- With `count` bytes processed the loop is over. -/
theorem copyLoop_past {canRead : Bool} (reads : List FileRead) (sends : List (Outcome Int))
    {processed : Nat} (h : count ≤ processed) :
    copyLoop outFd inFd count canRead reads sends processed = ⟨[], [], processed, none⟩ := by
  cases reads with
  | nil => rw [copyLoop, if_pos h]
  | cons r reads =>
      unfold copyLoop
      rw [if_pos h]

/-- A pass that reads no bytes sends none. -/
theorem copyLoop_nothing {r : FileRead} (reads : List FileRead) (sends : List (Outcome Int))
    {processed : Nat}
    (h : count ≤ processed ∨ ∀ bytes fits, r = .data bytes fits → bytes = []) :
    (copyLoop outFd inFd count true (r :: reads) sends processed).accepted = [] := by
  unfold copyLoop
  split
  · rfl
  · rename_i hcount
    cases r with
    | error => rfl
    | data bytes fits =>
        rw [if_pos rfl]
        simp only [if_pos (h.resolve_left hcount bytes fits rfl)]

/-- **What a pass sends**: what `nfp_send` takes of the bytes read and, if it takes all of them, what
    the rest of the loop sends. -/
theorem copyLoop_accepted {bytes : List UInt8} (fits : bytes.length ≤ bufSize)
    (reads : List FileRead) (sends : List (Outcome Int)) {processed : Nat}
    (hleft : ¬ count ≤ processed) (hne : bytes ≠ []) :
    (copyLoop outFd inFd count true (.data bytes fits :: reads) sends processed).accepted =
      (sendAll retryEagain sends bytes).sent ++
        if takesAll retryEagain sends bytes.length then
          (copyLoop outFd inFd count true reads (restAfter retryEagain sends bytes.length)
            (processed + bytes.length)).accepted
        else [] := by
  rw [copyLoop, if_neg hleft, if_pos rfl, ← sendAll_rest]
  simp only [if_neg hne, ← sendAll_done_iff]
  cases hstatus : (sendAll retryEagain sends bytes).status with
  | done =>
      rw [if_pos rfl]
      rfl
  | failed e => rw [if_neg (fun h => by cases h), List.append_nil]
  | pending => rw [if_neg (fun h => by cases h), List.append_nil]

/-- **The loop sends more than `count` bytes just if a read runs over.** -/
theorem copyLoop_over_iff (reads : List FileRead) (sends : List (Outcome Int)) {processed : Nat}
    (hle : processed ≤ count) :
    count < processed + (copyLoop outFd inFd count true reads sends processed).accepted.length ↔
      runsOver count reads sends processed = true := by
  induction reads generalizing sends processed with
  | nil => exact iff_of_false (Nat.not_lt_of_le hle) Bool.false_ne_true
  | cons r reads ih =>
      cases r with
      | error =>
          rw [copyLoop_nothing reads sends (Or.inr fun _ _ h => FileRead.noConfusion h)]
          exact iff_of_false (Nat.not_lt_of_le hle) Bool.false_ne_true
      | data bytes fits =>
          by_cases hidle : count ≤ processed ∨ bytes = []
          · have hnone : count ≤ processed ∨ ∀ b f, FileRead.data bytes fits = .data b f → b = [] :=
              hidle.imp_right fun hnil b f hb => (FileRead.data.inj hb).symm.trans hnil
            rw [copyLoop_nothing reads sends hnone, runsOver, if_pos hidle]
            exact iff_of_false (Nat.not_lt_of_le hle) Bool.false_ne_true
          · obtain ⟨hcount, hne⟩ := not_or.mp hidle
            rw [runsOver, if_neg hidle, copyLoop_accepted fits reads sends hcount hne,
              List.length_append]
            by_cases hover : count < processed + bytes.length
            · -- this read is the last one, whatever becomes of it
              rw [if_pos hover, copyLoop_past reads _ (Nat.le_of_lt hover), ite_self,
                ← @le_sendAll_sent_iff UInt8 Int retryEagain sends bytes _ (by omega),
                List.length_nil]
              omega
            · rw [if_neg hover]
              by_cases hall : takesAll retryEagain sends bytes.length = true
              · rw [if_pos hall, hall, Bool.true_and, ← ih _ (by omega),
                  sendAll_done sends bytes ((sendAll_done_iff sends bytes).mpr hall),
                  Nat.add_assoc]
              · have hfront := (@sendAll_front UInt8 Int retryEagain sends bytes).length_le
                rw [if_neg hall, Bool.eq_false_iff.mpr hall, Bool.false_and, List.length_nil]
                exact iff_of_false (by omega) Bool.false_ne_true

/-- **The socket takes more than `count` bytes just if the call runs over.** -/
theorem sendfileAccepted_over_iff :
    count < (sendfileAccepted g outFd inFd offset count fa).length ↔
      RunsOver g offset count fa := by
  by_cases hread : g.loaded .sendfileRead = true
  · have hover : count < (copyLoop outFd inFd count (g.loaded .sendfileRead) fa.reads fa.sends
        0).accepted.length ↔ runsOver count fa.reads fa.sends 0 = true := by
      rw [hread, ← @copyLoop_over_iff outFd inFd count fa.reads fa.sends 0 (Nat.zero_le _),
        Nat.zero_add]
    unfold RunsOver
    rw [← hover]
    cases offset with
    | none => exact ⟨fun h => ⟨hread, fun hne => absurd rfl hne, h⟩, fun h => h.2.2⟩
    | some off =>
        simp only [sendfileAccepted]
        split
        · rename_i hseek
          refine iff_of_false (Nat.not_lt_zero _) fun h => ?_
          obtain ⟨htell, hmove⟩ := h.2.1 (Option.some_ne_none off)
          exact hseek.elim htell hmove
        · rename_i hseek
          exact ⟨fun h => ⟨hread, fun _ => not_or.mp hseek, h⟩, fun h => h.2.2⟩
  · have hnil : sendfileAccepted g outFd inFd offset count fa = [] := by
      rcases @sendfileAccepted_loop g outFd inFd offset count fa _ rfl with hacc | hacc
      · exact hacc
      · rw [hacc]
        exact copyLoop_idle (Or.inl (by simpa using hread)) _ _
    rw [hnil]
    exact iff_of_false (Nat.not_lt_zero _) fun h => hread h.1

/-- **Without short reads the loop sends whole buffers**, up to the end of the file. -/
theorem copyLoop_wholeBuffers {canRead : Bool} (reads : List FileRead) (sends : List (Outcome Int))
    (processed : Nat) {pos : Nat} (hfull : NoShortRead content pos reads) {c : Copied}
    (hc : copyLoop outFd inFd count canRead reads sends processed = c) (h : c.stop = none) :
    c.processed = processed + min (wholeBuffers (count - processed)) (content.length - pos) := by
  subst hc
  revert pos
  fun_induction copyLoop outFd inFd count canRead reads sends processed with
  | case1 sends processed =>
      intro pos hfull
      dsimp only at h ⊢
      split at h
      · simp only [wholeBuffers, bufSize]
        omega
      · split at h
        · cases h
        · cases h
  | case2 r reads sends processed hcount =>
      intro pos hfull
      simp only [wholeBuffers, bufSize]
      omega
  | case3 reads sends processed hcount hread => cases h
  | case4 reads sends processed hcount hread fits =>
      intro pos hfull
      have hlen := hfull.1
      simp only [wholeBuffers, bufSize, List.length_nil] at hlen ⊢
      omega
  | case5 =>
      rename_i hcount hread bytes fits hne log accepted hdone ih
      intro pos hfull
      have hlen := hfull.1
      have hrec := ih h hfull.2
      simp only [Copied.after]
      rw [hrec]
      simp only [wholeBuffers, bufSize] at hlen ⊢
      omega
  | case6 => cases h
  | case7 => cases h
  | case8 r reads sends processed hcount hread => cases h

/-- A chunk that one `nfp_send` takes whole. -/
theorem copyLoop_chunk {bytes : List UInt8} (fits : bytes.length ≤ bufSize) (hne : bytes ≠ [])
    {k : Nat} (hk : bytes.length ≤ k) (reads : List FileRead) (sends : List (Outcome Int))
    {processed : Nat} (hleft : processed < count) :
    copyLoop outFd inFd count true (.data bytes fits :: reads) (.took k :: sends) processed =
      (copyLoop outFd inFd count true reads sends (processed + bytes.length)).after
        (readEntry inFd bytes.length :: sendEntries outFd [(bytes, .took k)]) bytes := by
  rw [copyLoop, if_neg (by omega), if_pos rfl]
  simp only [if_neg hne, sendAll_took sends hne hk]

/-- `k` reads of one byte each from `pos` on, and then the others. -/
def byteReads (content : List UInt8) (more : List FileRead) : Nat → Nat → List FileRead
  | _, 0 => more
  | pos, k + 1 =>
      .data ((content.drop pos).take 1) ((List.length_take_le 1 _).trans (by decide)) ::
        byteReads content more (pos + 1) k

theorem byteReads_from {more : List FileRead} (k : Nat) (hlen : pos + k ≤ content.length)
    (hmore : ReadsFrom content (pos + k) more) :
    ReadsFrom content pos (byteReads content more pos k) := by
  induction k generalizing pos with
  | zero => exact hmore
  | succ k ih =>
      have hone : ((content.drop pos).take 1).length = 1 := by
        rw [List.length_take, List.length_drop]
        omega
      refine ⟨List.take_prefix _ _, fun hnil => ?_, ?_⟩
      · rw [hnil] at hone
        cases hone
      · rw [hone]
        refine ih (by omega) ?_
        rw [Nat.add_right_comm]
        exact hmore

/-- Read and sent byte by byte, the loop gets as far as it likes below `count`. -/
theorem copyLoop_bytes {more : List FileRead} (k : Nat) (hlen : pos + k ≤ content.length)
    (sends : List (Outcome Int)) {processed : Nat} (hleft : processed + k < count) {c : Copied}
    (hc : copyLoop outFd inFd count true more sends (processed + k) = c) :
    ∃ log bytes, bytes.length = k ∧
      copyLoop outFd inFd count true (byteReads content more pos k)
        (List.replicate k (.took 2) ++ sends) processed = c.after log bytes := by
  induction k generalizing pos processed with
  | zero => exact ⟨[], [], rfl, hc⟩
  | succ k ih =>
      have hone : ((content.drop pos).take 1).length = 1 := by
        rw [List.length_take, List.length_drop]
        omega
      have hne : (content.drop pos).take 1 ≠ [] := by
        intro hnil
        rw [hnil] at hone
        cases hone
      obtain ⟨log, bytes, hbytes, hloop⟩ := @ih (pos + 1) (by omega) (processed + 1) (by omega)
        (by rw [Nat.add_right_comm]; exact hc)
      refine ⟨readEntry inFd 1 :: sendEntries outFd [((content.drop pos).take 1, .took 2)] ++ log,
        (content.drop pos).take 1 ++ bytes, ?_, ?_⟩
      · rw [List.length_append, hone, hbytes, Nat.add_comm]
      · rw [byteReads, List.replicate_succ, List.cons_append,
          copyLoop_chunk _ hne (by omega) _ _ (by omega), hone, hloop]
        simp only [Copied.after, List.append_assoc]
        rfl

/-- The answers with which more than `count` bytes go out: all but one byte of `count` one by one,
    and then two. -/
def overrun (content : List UInt8) (pos : Nat) (offset : Option Int) (count : Nat) :
    FileAnswers where
  tell := pos
  seek := startOf pos offset
  tellAfter := startOf pos offset + (count + 1 : Nat)
  seekBack := pos
  reads := byteReads content
    [.data ((content.drop ((startOf pos offset).toNat + (count - 1))).take 2)
      ((List.length_take_le 2 _).trans (by decide))] (startOf pos offset).toNat (count - 1)
  sends := List.replicate (count - 1) (.took 2) ++ [.took 2]

/-- With those answers the loop gets to its end, `count + 1` bytes taken. -/
theorem copyLoop_overrun (hcount : 0 < count)
    (hlen : (startOf pos offset).toNat + count < content.length) {c : Copied}
    (hc : copyLoop outFd inFd count true (overrun content pos offset count).reads
      (overrun content pos offset count).sends 0 = c) :
    c.stop = none ∧ c.accepted.length = count + 1 := by
  have htwo : ((content.drop ((startOf pos offset).toNat + (count - 1))).take 2).length = 2 := by
    rw [List.length_take, List.length_drop]
    omega
  have hne : (content.drop ((startOf pos offset).toNat + (count - 1))).take 2 ≠ [] := by
    intro hnil
    rw [hnil] at htwo
    cases htwo
  have hlast := @copyLoop_chunk outFd inFd count _
    ((List.length_take_le 2 (content.drop ((startOf pos offset).toNat + (count - 1)))).trans
      (by decide)) hne 2 (by omega) [] [] (0 + (count - 1)) (by omega)
  obtain ⟨log, bytes, hbytes, hloop⟩ := @copyLoop_bytes outFd inFd count content
    (startOf pos offset).toNat _ (count - 1) (by omega) [.took 2] 0 (by omega) _ hlast
  have hend : copyLoop outFd inFd count true [] [] (0 + (count - 1) + 2) =
      ⟨[], [], 0 + (count - 1) + 2, none⟩ := by
    rw [copyLoop, if_pos (by omega)]
  rw [← hc]
  unfold overrun
  rw [hloop, htwo, hend]
  simp only [Copied.after, List.length_append, hbytes, htwo, List.length_nil]
  exact ⟨trivial, by omega⟩

/-- Those are answers of a regular file, and the socket takes a byte too much. -/
theorem overrun_regular (hread : g.loaded .sendfileRead = true) (hcount : 0 < count)
    (hstart : 0 ≤ startOf pos offset)
    (hlen : (startOf pos offset).toNat + count < content.length) {fa : FileAnswers}
    (hfa : overrun content pos offset count = fa) :
    RegularFile content pos offset (sendfileNfp g outFd inFd offset count fa).ran.log fa.reads ∧
      (sendfileAccepted g outFd inFd offset count fa).length = count + 1 := by
  have hreads : ReadsFrom content (startOf pos offset).toNat fa.reads := by
    rw [← hfa]
    refine byteReads_from _ (by omega) ⟨List.take_prefix _ _, fun hnil => ?_, trivial⟩
    have hempty := congrArg List.length hnil
    rw [List.length_take, List.length_drop, List.length_nil] at hempty
    omega
  have hloop := fun c => @copyLoop_overrun outFd inFd offset count content pos hcount hlen c
  rw [hfa, ← hread] at hloop
  obtain ⟨hstop, hlength⟩ := hloop _ rfl
  have hseeks := @copyLoop_seeks outFd inFd count (g.loaded .sendfileRead) fa.reads fa.sends 0
  have hmove := fun p => @copyLoop_position outFd inFd count (g.loaded .sendfileRead) fa.reads
    fa.sends 0 p _ rfl hstop
  cases offset with
  | none => exact ⟨⟨hseeks pos, hreads⟩, hlength⟩
  | some off =>
      have htell : fa.tell = pos := by rw [← hfa]; rfl
      have hseek : fa.seek = off := by rw [← hfa]; rfl
      have hafter : fa.tellAfter = off + (count + 1 : Nat) := by rw [← hfa]; rfl
      have hback : fa.seekBack = pos := by rw [← hfa]; rfl
      have hoff : 0 ≤ off := hstart
      refine ⟨⟨?_, hreads⟩, ?_⟩
      · simp only [sendfileNfp]
        rw [sendfileAt_back g (by omega) (by omega) hstop (by omega), List.append_assoc,
          seeksAnswered_append, seeksAnswered_append]
        have hfirst : filePos pos [tellEntry inFd fa.tell, seekEntry inFd off fa.seek] = off := by
          show moveTo (moveTo pos (tellEntry inFd fa.tell)) (seekEntry inFd off fa.seek) = off
          rw [moveTo_seek _ _ (by omega), hseek]
        rw [hfirst, (hmove off).2, hlength]
        refine ⟨⟨tell_answered htell, seek_answered _ (by rw [hseek, if_pos hoff]), trivial⟩,
          hseeks off, tell_answered hafter, seek_answered _ (by rw [hback, htell]; simp), trivial⟩
      · simp only [sendfileAccepted]
        rw [if_neg (by omega)]
        exact hlength

/-- **When a call keeps to `count`**: just if it does not run over. Without short reads a call that
    returns has sent `count` bytes rounded up to whole buffers, or the rest of the file, and so
    keeps to `count` just if that is a multiple of `BUF_SIZE` or the file ends within it. -/
theorem sendfile64_count_iff (dl : Dlsym) (a : Answer) (hfd : isNfpSocket g outFd = true)
    (hfile : RegularFile content pos offset (sendfile64 g outFd inFd offset count dl a fa).log
      fa.reads) :
    (KeepsToCount g outFd inFd offset count dl a content pos fa ↔ ¬ RunsOver g offset count fa) ∧
    ∀ (n : Nat) (errno : Option Int),
      (sendfile64 g outFd inFd offset count dl a fa).fin = .ret n errno →
      NoShortRead content (startOf pos offset).toNat fa.reads →
        n = min (wholeBuffers count) (content.length - (startOf pos offset).toNat) ∧
        (KeepsToCount g outFd inFd offset count dl a content pos fa ↔
          bufSize ∣ count ∨ content.length - (startOf pos offset).toNat ≤ count) := by
  have hle := @keepsToCount_iff_le g outFd inFd offset count fa content pos dl a hfd hfile.reads
  rw [hle]
  refine ⟨?_, fun n errno hret hfull => ?_⟩
  · rw [← sendfileAccepted_over_iff, Nat.not_lt]
  · rw [sendfile64_nfp dl a hfd] at hret
    obtain ⟨hstop, hn, hacc, -⟩ := sendfileNfp_returned rfl rfl hret
    have hwhole := @copyLoop_wholeBuffers outFd inFd count content _ fa.reads fa.sends 0 _ hfull _
      rfl hstop
    have hproc := (@copyLoop_position outFd inFd count (g.loaded .sendfileRead) fa.reads
      fa.sends 0 0 _ rfl hstop).1
    rw [hacc]
    simp only [wholeBuffers, bufSize] at hwhole ⊢
    omega

/-- Without an offset no `lseek` is made: what is read decides. -/
theorem regularFile_none (dl : Dlsym) (a : Answer) (hfd : isNfpSocket g outFd = true)
    (hreads : ReadsFrom content pos fa.reads) :
    RegularFile content pos none (sendfile64 g outFd inFd none count dl a fa).log fa.reads := by
  refine ⟨?_, hreads⟩
  rw [sendfile64_nfp dl a hfd]
  exact copyLoop_seeks fa.reads fa.sends 0 pos

/-- A read of `bytes`, taken at once. -/
def oneRead (bytes : List UInt8) (fits : bytes.length ≤ bufSize) : FileAnswers where
  tell := 0
  seek := 0
  tellAfter := 0
  seekBack := 0
  reads := [.data bytes fits]
  sends := [.took bytes.length]

/-- Of a file of two buffers one is asked for, and sent. -/
theorem sendfile64_count_iff_one_buffer :
    ∃ (bytes : List UInt8) (fits : bytes.length ≤ bufSize),
      bytes.length = 1024 ∧
      (sendfile64 someGlobals 1030 4 none 1024 .found ⟨0, 0⟩ (oneRead bytes fits)).fin =
        .ret 1024 none ∧
      KeepsToCount someGlobals 1030 4 none 1024 .found ⟨0, 0⟩ (bytes ++ bytes) 0
        (oneRead bytes fits) := by
  obtain ⟨bytes, hlen⟩ : ∃ bytes : List UInt8, bytes.length = 1024 :=
    ⟨List.replicate 1024 7, List.length_replicate⟩
  have hne : bytes ≠ [] := fun h => absurd hlen (by rw [h]; decide)
  have hreads : ReadsFrom (bytes ++ bytes) 0 [.data bytes (Nat.le_of_eq hlen)] :=
    ⟨⟨bytes, rfl⟩, fun h => absurd h hne, trivial⟩
  have hfull : NoShortRead (bytes ++ bytes) 0 [.data bytes (Nat.le_of_eq hlen)] := by
    refine ⟨?_, trivial⟩
    rw [List.length_append, hlen]
    decide
  have hret : (sendfile64 someGlobals 1030 4 none 1024 .found ⟨0, 0⟩
      (oneRead bytes (Nat.le_of_eq hlen))).fin = .ret 1024 none := by
    rw [sendfile64_nfp .found ⟨0, 0⟩ rfl]
    simp only [sendfileNfp, oneRead]
    rw [show someGlobals.loaded .sendfileRead = true from rfl,
      copyLoop_chunk (Nat.le_of_eq hlen) hne (Nat.le_refl _) [] [] (by decide), hlen]
    rfl
  refine ⟨bytes, Nat.le_of_eq hlen, hlen, hret, ?_⟩
  exact ((sendfile64_count_iff .found ⟨0, 0⟩ rfl (regularFile_none .found ⟨0, 0⟩ rfl hreads)).2
    1024 none hret hfull).2.mpr (Or.inl (by decide))

/-- **Which arguments are safe**: no call on a regular file runs over `count` just if it sends
    nothing (`libc_read` is not set, `*offset` is negative or `count` is 0) or the file ends within
    `count` bytes. -/
theorem sendfile64_always_keeps_iff (dl : Dlsym) (a : Answer) (hfd : isNfpSocket g outFd = true) :
    (∀ fa : FileAnswers,
      RegularFile content pos offset (sendfile64 g outFd inFd offset count dl a fa).log fa.reads →
        KeepsToCount g outFd inFd offset count dl a content pos fa) ↔
      g.loaded .sendfileRead = false ∨ startOf pos offset < 0 ∨ count = 0 ∨
        content.length ≤ startOf pos offset + count := by
  constructor
  · intro h
    by_contra hnot
    obtain ⟨hread, hnot⟩ := not_or.mp hnot
    obtain ⟨hstart, hnot⟩ := not_or.mp hnot
    obtain ⟨hcount, hlen⟩ := not_or.mp hnot
    have hread : g.loaded .sendfileRead = true := by simpa using hread
    have hlen : (startOf pos offset).toNat + count < content.length := by omega
    obtain ⟨hfile, hover⟩ := @overrun_regular g outFd inFd offset count content pos hread
      (by omega) (by omega) hlen _ rfl
    rw [← sendfile64_nfp dl a hfd] at hfile
    have hle := (h _ hfile).1
    omega
  · intro h fa hfile
    rw [keepsToCount_iff_le dl a hfd hfile.reads]
    rw [sendfile64_nfp dl a hfd] at hfile
    have hfits := @sendfileAccepted_le g outFd inFd offset count fa content pos hfile.reads
    have hidle : g.loaded .sendfileRead = false ∨ count = 0 →
        (sendfileAccepted g outFd inFd offset count fa).length ≤ count := by
      intro hidle
      have hnil := @copyLoop_idle outFd inFd count _ hidle fa.reads fa.sends
      rcases @sendfileAccepted_loop g outFd inFd offset count fa _ rfl with hacc | hacc
      · rw [hacc]
        exact Nat.zero_le _
      · rw [hacc, hnil]
        exact Nat.zero_le _
    rcases h with hread | hstart | hcount | hlen
    · exact hidle (Or.inl hread)
    · cases offset with
      | none => exact absurd hstart (by unfold startOf; rw [Option.getD_none]; omega)
      | some off =>
          have hoff : off < 0 := hstart
          rw [sendfileAccepted_negative hoff hfile.seeks]
          exact Nat.zero_le _
    · exact hidle (Or.inr hcount)
    · omega

end Count

/-- One byte is asked for, five are read and sent. -/
theorem sendfile64_exceeds_count :
    let content : List UInt8 := [1, 2, 3, 4, 5]
    let fa : FileAnswers := ⟨0, 0, 5, 0, [.data content (by decide)], [.took 5]⟩
    RegularFile content 0 (some 0)
        (sendfile64 someGlobals 1030 4 (some 0) 1 .found ⟨0, 0⟩ fa).log fa.reads ∧
      (sendfile64 someGlobals 1030 4 (some 0) 1 .found ⟨0, 0⟩ fa).fin = .ret 5 none ∧
      sendfileAccepted someGlobals 1030 4 (some 0) 1 fa = content :=
  ⟨⟨by decide, by decide⟩, rfl, rfl⟩

/-! ## A failed call -/

/-- How the loop comes out, seen from the answers to `read` and `nfp_send` alone. -/
inductive Fate where
  | ended
  | failed
  | underWay
  deriving DecidableEq, Repr

/-- The loop fails at a read that fails, or where `nfp_send` fails for good before it has taken
    what was read. -/
def copyFate (count : Nat) : List FileRead → List (Outcome Int) → Nat → Fate
  | [], _, processed => if count ≤ processed then .ended else .underWay
  | r :: reads, sends, processed =>
      if count ≤ processed then .ended
      else
        match r with
        | .error => .failed
        | .data bytes _ =>
            if bytes = [] then .ended
            else if failsWithin retryEagain sends bytes.length then .failed
            else if takesAll retryEagain sends bytes.length then
              copyFate count reads (restAfter retryEagain sends bytes.length)
                (processed + bytes.length)
            else .underWay

/-- The first read gives data, and `nfp_send` takes some of it. -/
def firstTaken (count : Nat) (reads : List FileRead) (sends : List (Outcome Int)) : Bool :=
  match reads with
  | .data (_ :: _) _ :: _ => count != 0 && takesSome retryEagain sends
  | _ => false

/-- **A transfer breaks off half-way**: `nfp_send` takes something, and later a read, an `nfp_send`
    or one of the last two `lseek` calls fails. -/
def BreaksOff (g : Globals) (offset : Option Int) (count : Nat) (fa : FileAnswers) : Prop :=
  g.loaded .sendfileRead = true ∧ (offset ≠ none → fa.tell ≠ -1 ∧ fa.seek ≠ -1) ∧
    firstTaken count fa.reads fa.sends = true ∧
    (copyFate count fa.reads fa.sends 0 = .failed ∨
      copyFate count fa.reads fa.sends 0 = .ended ∧ offset ≠ none ∧
        (fa.tellAfter = -1 ∨ fa.seekBack = -1))

section Failed

variable {g : Globals} {outFd inFd : Int} {offset : Option Int} {count : Nat} {fa : FileAnswers}

/-- How the loop stops is its fate. -/
theorem copyLoop_fate (reads : List FileRead) (sends : List (Outcome Int)) (processed : Nat)
    {c : Copied} (hc : copyLoop outFd inFd count true reads sends processed = c) :
    match copyFate count reads sends processed with
    | .ended => c.stop = none
    | .failed => ∃ errno, c.stop = some (.ret (-1) errno)
    | .underWay => c.stop = some .pending := by
  subst hc
  induction reads generalizing sends processed with
  | nil =>
      rw [copyFate, copyLoop]
      by_cases hcount : count ≤ processed
      · rw [if_pos hcount, if_pos hcount]
      · rw [if_neg hcount, if_neg hcount, if_pos rfl]
  | cons r reads ih =>
      by_cases hcount : count ≤ processed
      · unfold copyFate copyLoop
        rw [if_pos hcount, if_pos hcount]
      · unfold copyFate copyLoop
        rw [if_neg hcount, if_neg hcount, if_pos rfl]
        cases r with
        | error => exact ⟨none, rfl⟩
        | data bytes fits =>
            by_cases hb : bytes = []
            · simp only [if_pos hb]
            · have hfails := @sendAll_fails UInt8 Int retryEagain sends bytes
              have hdone := @sendAll_done_iff UInt8 Int retryEagain sends bytes
              have hrest := @sendAll_rest UInt8 Int retryEagain sends bytes
              simp only [if_neg hb, ← hfails, ← hrest, ← hdone]
              cases hstatus : (sendAll retryEagain sends bytes).status with
              | done => exact ih _ _
              | failed e => exact ⟨some (netwrapErrno e), rfl⟩
              | pending => rfl

/-- The socket takes something in the loop just if it takes something of the first chunk. -/
theorem copyLoop_taken (reads : List FileRead) (sends : List (Outcome Int)) :
    (copyLoop outFd inFd count true reads sends 0).accepted = [] ↔
      firstTaken count reads sends = false := by
  by_cases hcount : count = 0
  · refine ⟨fun _ => ?_, fun _ => copyLoop_idle (Or.inr hcount) reads sends⟩
    unfold firstTaken
    split
    · rw [hcount]
      rfl
    · rfl
  · cases reads with
    | nil => exact ⟨fun _ => rfl, fun _ => rfl⟩
    | cons r reads =>
        unfold copyLoop
        rw [if_neg (by omega), if_pos rfl]
        cases r with
        | error => exact ⟨fun _ => rfl, fun _ => rfl⟩
        | data bytes fits =>
            cases bytes with
            | nil => exact ⟨fun _ => rfl, fun _ => rfl⟩
            | cons b bytes =>
                have hne : b :: bytes ≠ [] := List.cons_ne_nil b bytes
                have hfirst : firstTaken count (.data (b :: bytes) fits :: reads) sends =
                    takesSome retryEagain sends := by
                  simp [firstTaken, hcount]
                rw [hfirst, ← sendAll_sent_nil_iff sends hne]
                simp only [if_neg hne]
                split
                · rename_i hdone
                  have hall := sendAll_done sends _ hdone
                  simp only [Copied.after, hall]
                  exact ⟨nofun, nofun⟩
                · rfl
                · rfl

/-- A call whose first two `lseek` calls succeed ends as its loop does, if that ends it. -/
theorem sendfileNfp_stopped (hseeks : offset ≠ none → fa.tell ≠ -1 ∧ fa.seek ≠ -1) {c : Copied}
    (hc : copyLoop outFd inFd count (g.loaded .sendfileRead) fa.reads fa.sends 0 = c) {fin : End}
    (hstop : c.stop = some fin) : (sendfileNfp g outFd inFd offset count fa).ran.fin = fin := by
  unfold sendfileNfp
  rw [hc]
  cases offset with
  | none =>
      show c.stop.getD _ = fin
      rw [hstop]
      rfl
  | some off =>
      obtain ⟨htell, hseek⟩ := hseeks nofun
      dsimp only
      rw [sendfileAt_stopped g htell hseek hstop]

/-- A call whose first two `lseek` calls succeed returns -1 where the loop fails, or one of the
    last two after it. -/
theorem sendfileNfp_fails_iff (hread : g.loaded .sendfileRead = true)
    (hseeks : offset ≠ none → fa.tell ≠ -1 ∧ fa.seek ≠ -1) {s : SendfileRan}
    (hs : sendfileNfp g outFd inFd offset count fa = s) :
    (∃ errno, s.ran.fin = .ret (-1) errno) ↔
      copyFate count fa.reads fa.sends 0 = .failed ∨
        copyFate count fa.reads fa.sends 0 = .ended ∧ offset ≠ none ∧
          (fa.tellAfter = -1 ∨ fa.seekBack = -1) := by
  have hfate := @copyLoop_fate outFd inFd count fa.reads fa.sends 0 _ rfl
  rw [← hread] at hfate
  have hstopped := fun fin => @sendfileNfp_stopped g outFd inFd offset count fa hseeks _ rfl fin
  subst hs
  cases hcase : copyFate count fa.reads fa.sends 0 with
  | failed =>
      rw [hcase] at hfate
      obtain ⟨errno, hstop⟩ := hfate
      exact ⟨fun _ => Or.inl rfl, fun _ => ⟨errno, hstopped _ hstop⟩⟩
  | underWay =>
      rw [hcase] at hfate
      rw [hstopped _ hfate]
      constructor
      · rintro ⟨errno, h⟩
        cases h
      · rintro (h | ⟨h, -⟩)
        · cases h
        · cases h
  | ended =>
      rw [hcase] at hfate
      have hstop := hfate
      cases offset with
      | none =>
          simp only [sendfileNfp]
          rw [hstop, Option.getD_none]
          constructor
          · rintro ⟨errno, h⟩
            rw [End.ret.injEq] at h
            omega
          · rintro (h | ⟨-, h, -⟩)
            · cases h
            · exact absurd rfl h
      | some off =>
          have hsome : some off ≠ none := Option.some_ne_none off
          obtain ⟨htell, hseek⟩ := hseeks hsome
          simp only [sendfileNfp]
          by_cases hafter : fa.tellAfter = -1
          · rw [sendfileAt_lost g htell hseek hstop hafter]
            exact ⟨fun _ => Or.inr ⟨trivial, hsome, Or.inl hafter⟩, fun _ => ⟨none, rfl⟩⟩
          · rw [sendfileAt_back g htell hseek hstop hafter]
            by_cases hback : fa.seekBack = -1
            · rw [if_pos hback]
              exact ⟨fun _ => Or.inr ⟨trivial, hsome, Or.inr hback⟩, fun _ => ⟨none, rfl⟩⟩
            · rw [if_neg hback]
              constructor
              · rintro ⟨errno, h⟩
                rw [End.ret.injEq] at h
                omega
              · rintro (h | ⟨-, -, h⟩)
                · cases h
                · exact absurd h (not_or.mpr ⟨hafter, hback⟩)

/-- What a call takes, once its first two `lseek` calls have succeeded. -/
theorem sendfileAccepted_nil_iff (hread : g.loaded .sendfileRead = true)
    (hseeks : offset ≠ none → fa.tell ≠ -1 ∧ fa.seek ≠ -1) :
    sendfileAccepted g outFd inFd offset count fa = [] ↔
      firstTaken count fa.reads fa.sends = false := by
  rw [← @copyLoop_taken outFd inFd, ← hread]
  cases offset with
  | none => exact Iff.rfl
  | some off =>
      simp only [sendfileAccepted]
      rw [if_neg (not_or.mpr (hseeks nofun))]

/-- **A failed `sendfile64`** took nothing just if the transfer does not break off half-way. -/
theorem sendfileNfp_error_iff :
    ((∃ errno, (sendfileNfp g outFd inFd offset count fa).ran.fin = .ret (-1) errno) →
        sendfileAccepted g outFd inFd offset count fa = []) ↔
      ¬ BreaksOff g offset count fa := by
  by_cases hread : g.loaded .sendfileRead = true
  · by_cases hseeks : offset ≠ none → fa.tell ≠ -1 ∧ fa.seek ≠ -1
    · rw [sendfileNfp_fails_iff hread hseeks rfl, sendfileAccepted_nil_iff hread hseeks]
      constructor
      · rintro h ⟨-, -, htaken, hfails⟩
        rw [h hfails] at htaken
        cases htaken
      · intro h hfails
        exact Bool.eq_false_iff.mpr fun htaken => h ⟨hread, hseeks, htaken, hfails⟩
    · have hnil : sendfileAccepted g outFd inFd offset count fa = [] := by
        cases offset with
        | none => exact absurd (fun h => absurd rfl h) hseeks
        | some off =>
            simp only [sendfileAccepted]
            refine if_pos ?_
            by_contra hboth
            exact hseeks fun _ => not_or.mp hboth
      exact ⟨fun _ h => hseeks h.2.1, fun _ _ => hnil⟩
  · have hnil : sendfileAccepted g outFd inFd offset count fa = [] := by
      rcases @sendfileAccepted_loop g outFd inFd offset count fa _ rfl with hacc | hacc
      · exact hacc
      · rw [hacc]
        exact copyLoop_idle (Or.inl (by simpa using hread)) _ _
    exact ⟨fun _ h => hread h.1, fun _ _ => hnil⟩

/-- **A failed `writev`** took nothing just if `nfp_send` does not fail for good after it took
    something. -/
theorem writevNfp_error_iff (fd : Int) (iov : List (List UInt8)) (sends : List (Outcome Int)) :
    ((∃ errno, (writevNfp g fd iov sends).fin = .ret (-1) errno) →
        (writevLoop iov sends).sent = []) ↔
      ¬ (failsSeq retryEagain sends (iov.map fun b => nfpSizeT b.length) = true ∧
        takesSome retryEagain sends = true) := by
  have hlens : (iov.map fun b => b.take (nfpSizeT b.length)).map List.length =
      iov.map fun b => nfpSizeT b.length := by
    rw [List.map_map]
    refine List.map_congr_left fun b _ => ?_
    have hle : nfpSizeT b.length ≤ b.length := Nat.mod_le _ _
    show (b.take _).length = _
    rw [List.length_take]
    omega
  have hfails := @sendSeq_fails UInt8 Int retryEagain sends
    (iov.map fun b => b.take (nfpSizeT b.length))
  have hsent := @sendSeq_sent_nil_iff UInt8 Int retryEagain sends
    (iov.map fun b => b.take (nfpSizeT b.length))
  rw [hlens] at hfails
  have hret : (∃ errno, (writevNfp g fd iov sends).fin = .ret (-1) errno) ↔
      failsSeq retryEagain sends (iov.map fun b => nfpSizeT b.length) = true := by
    rw [← hfails]
    simp only [writevNfp, writevLoop]
    cases (sendSeq retryEagain sends (iov.map fun b => b.take (nfpSizeT b.length))).status with
    | done =>
        refine ⟨fun ⟨errno, h⟩ => ?_, nofun⟩
        simp only [End.ret.injEq] at h
        omega
    | failed e => exact ⟨fun _ => rfl, fun _ => ⟨_, rfl⟩⟩
    | pending => exact ⟨fun ⟨errno, h⟩ => (by cases h), nofun⟩
  have hbytes : failsSeq retryEagain sends (iov.map fun b => nfpSizeT b.length) = true →
      (iov.map fun b => b.take (nfpSizeT b.length)).flatten ≠ [] := by
    intro hfail hflat
    rw [← hlens, failsSeq_zero] at hfail
    · cases hfail
    · intro n hn
      obtain ⟨p, hp, rfl⟩ := List.mem_map.mp hn
      rw [List.flatten_eq_nil_iff.mp hflat p hp]
      rfl
  rw [hret]
  unfold writevLoop
  rw [hsent]
  constructor
  · rintro h ⟨hfails, htakes⟩
    rcases h hfails with hflat | hnone
    · exact hbytes hfails hflat
    · rw [htakes] at hnone
      cases hnone
  · intro h hfails
    exact Or.inr (Bool.eq_false_iff.mpr fun htakes => h ⟨hfails, htakes⟩)

/-- **When -1 means that nothing was sent**: of every `writev` and every `sendfile64` on an NFP
    socket, just if `nfp_send`, and with `sendfile64` a read or one of the last two `lseek` calls,
    does not fail after an `nfp_send` of the same call has taken something. -/
theorem gathered_error_iff (dl : Dlsym) (a : Answer) {fd : Int} (hfd : isNfpSocket g fd = true) :
    (∀ (iov : List (List UInt8)) (sends : List (Outcome Int)),
      ((∃ errno, (writev g fd iov dl a sends).fin = .ret (-1) errno) →
          (writevLoop iov sends).sent = []) ↔
        ¬ (failsSeq retryEagain sends (iov.map fun b => nfpSizeT b.length) = true ∧
          takesSome retryEagain sends = true)) ∧
    ∀ (inFd : Int) (offset : Option Int) (count : Nat) (fa : FileAnswers),
      ((∃ errno, (sendfile64 g fd inFd offset count dl a fa).fin = .ret (-1) errno) →
          sendfileAccepted g fd inFd offset count fa = []) ↔
        ¬ BreaksOff g offset count fa := by
  refine ⟨fun iov sends => ?_, fun inFd offset count fa => ?_⟩
  · have hnfp : writev g fd iov dl a sends = writevNfp g fd iov sends := if_pos hfd
    rw [hnfp]
    exact writevNfp_error_iff fd iov sends
  · rw [sendfile64_nfp dl a hfd]
    exact sendfileNfp_error_iff

end Failed

/-- A `writev` that fails at its first `nfp_send` took nothing. -/
theorem gathered_error_iff_at_once :
    (∃ errno, (writev someGlobals 1030 [[1, 2]] .found ⟨0, 0⟩ [.failed 35, .failed 32]).fin =
        .ret (-1) errno) ∧
      (writevLoop [[1, 2]] [.failed 35, .failed 32]).sent = [] :=
  ⟨⟨some 32, rfl⟩,
    ((gathered_error_iff .found ⟨0, 0⟩ rfl).1 [[1, 2]] [.failed 35, .failed 32]).mpr (by decide)
      (⟨some 32, rfl⟩ : ∃ errno,
        (writev someGlobals 1030 [[1, 2]] .found ⟨0, 0⟩ [.failed 35, .failed 32]).fin =
          .ret (-1) errno)⟩

/-- One byte of two is taken, then `nfp_send` fails: both wrappers return -1. -/
theorem gathered_error_after_a_byte :
    let sends : List (Outcome Int) := [.took 1, .failed 32]
    let fa : FileAnswers := ⟨0, 0, 0, 0, [.data [1, 2] (by decide)], sends⟩
    (writev someGlobals 1030 [[1, 2]] .found ⟨0, 0⟩ sends).fin = .ret (-1) (some 32) ∧
      (writevLoop [[1, 2]] sends).sent = [1] ∧
    (sendfile64 someGlobals 1030 4 none 2 .found ⟨0, 0⟩ fa).fin = .ret (-1) (some 32) ∧
      sendfileAccepted someGlobals 1030 4 none 2 fa = [1] := by
  decide

end Nfp.Netwrap
