/-
  File:      Nfp/Netwrap/Transfer.lean
  Subject:   THE GATHERING WRAPPERS of example/netwrap_crt: `writev` (netwrap_uio.c) and
             `sendfile64` (netwrap_sendfile.c). Their NFP branches are loops of partial sends
             (`Lib.Send`) that ask again after `NFP_EAGAIN`.

  `sendfile64` tests `out_fd` only: in its NFP branch the file is read through `lseek` and libc's
  `read`, whatever kind of descriptor `in_fd` is.

  * `copyLoop` -- the loop over the file; `copyLoop_round` -- what one round of it can do;
  * `sendfileNfp_log` -- the calls of the NFP branch: those of the loop, between calls of `lseek`;
  * `writevNfp_only`, `sendfile64_inFd`, `sendfile64_outFd` -- which descriptors are presented, and
    to whom.
-/
import Nfp.Lib.Send
import Nfp.Netwrap.Socket

namespace Nfp.Netwrap

open Nfp.Lib

/-- `NFP_EAGAIN`, which is also `NFP_EWOULDBLOCK`. -/
def nfpEagain : Int := 35

/-- After which failures the loops ask again. -/
def retryEagain (err : Int) : Bool := err == nfpEagain

/-- The `nfp_send` calls of a loop. -/
def sendEntries (fd : Int) (calls : List (List UInt8 × Outcome Int)) : List Entry :=
  calls.map fun c =>
    ⟨.nfpSend fd c.1.length 0,
      match c.2 with
      | .took k => (min k c.1.length : Nat)
      | .failed _ => -1⟩

/-! ## `writev` -/

/-- The loop over the buffers: each length is cut to `nfp_size_t`. -/
def writevLoop (iov : List (List UInt8)) (sends : List (Outcome Int)) : Sent UInt8 Int :=
  sendSeq retryEagain sends (iov.map fun b => b.take (nfpSizeT b.length))

/-- The NFP branch of `writev`. -/
def writevNfp (g : Globals) (fd : Int) (iov : List (List UInt8)) (sends : List (Outcome Int)) :
    Ran :=
  ⟨g, sendEntries fd (writevLoop iov sends).calls,
    match (writevLoop iov sends).status with
    | .done => .ret (iov.foldl (fun sum b => sum + nfpSizeT b.length) 0 : Nat) none
    | .failed e => .ret (-1) (some (netwrapErrno e))
    | .pending => .pending⟩

/-- **`writev`**. -/
def writev (g : Globals) (fd : Int) (iov : List (List UInt8)) (dl : Dlsym) (a : Answer)
    (sends : List (Outcome Int)) : Ran :=
  route g fd .writev dl (.writev fd iov) a (writevNfp g fd iov sends)

theorem sendEntries_nfp {fd : Int} {calls : List (List UInt8 × Outcome Int)} {e : Entry}
    (he : e ∈ sendEntries fd calls) : e.call.stack = .nfp ∧ e.call.given = {fd} := by
  obtain ⟨c, -, rfl⟩ := List.mem_map.mp he
  exact ⟨rfl, rfl⟩

theorem writevNfp_only (g : Globals) (fd : Int) (iov : List (List UInt8))
    (sends : List (Outcome Int)) : OnlyNfp g (writevNfp g fd iov sends) fd := by
  refine ⟨rfl, fun e he => (sendEntries_nfp he).1, fun hne => ?_⟩
  obtain ⟨e, he⟩ := List.exists_mem_of_ne_nil _ hne
  refine ⟨e, he, ?_⟩
  rw [(sendEntries_nfp he).2]
  exact Finset.mem_singleton_self _

/-! ## `sendfile64` -/

/-- `BUF_SIZE`. -/
def bufSize : Nat := 1024

/-- What libc's `read` answers: an error, or what it put into the buffer, nothing at the end. -/
inductive FileRead where
  | error
  | data (bytes : List UInt8) (fits : bytes.length ≤ bufSize)
  deriving DecidableEq

/-- What the loop did: its calls, the bytes the socket took, `data_processed`, and, where the loop
    ends the wrapper, how. -/
structure Copied where
  log : List Entry
  accepted : List UInt8
  processed : Nat
  stop : Option End

/-- The loop went on after some calls. -/
def Copied.after (log : List Entry) (accepted : List UInt8) (c : Copied) : Copied :=
  { c with log := log ++ c.log, accepted := accepted ++ c.accepted }

/-- libc's `read` on the file. -/
def readEntry (inFd : Int) (value : Int) : Entry := ⟨.libc (.read inFd bufSize), value⟩

/-- **`while (data_processed < count)`**; `canRead` tells whether `libc_read` is set, which the loop
    does not ask. -/
def copyLoop (outFd inFd : Int) (count : Nat) (canRead : Bool) :
    List FileRead → List (Outcome Int) → Nat → Copied
  | [], _, processed =>
      ⟨[], [], processed,
        if count ≤ processed then none else if canRead then some .pending else some .crash⟩
  | r :: reads, sends, processed =>
      if count ≤ processed then ⟨[], [], processed, none⟩
      else if canRead then
        match r with
        | .error => ⟨[readEntry inFd (-1)], [], processed, some (.ret (-1) none)⟩
        | .data bytes _ =>
            if bytes = [] then ⟨[readEntry inFd 0], [], processed, none⟩
            else
              let log := readEntry inFd bytes.length ::
                sendEntries outFd (sendAll retryEagain sends bytes).calls
              let accepted := (sendAll retryEagain sends bytes).sent
              match (sendAll retryEagain sends bytes).status with
              | .done =>
                  (copyLoop outFd inFd count canRead reads (sendAll retryEagain sends bytes).rest
                    (processed + bytes.length)).after log accepted
              | .failed e => ⟨log, accepted, processed, some (.ret (-1) (some (netwrapErrno e)))⟩
              | .pending => ⟨log, accepted, processed, some .pending⟩
      else ⟨[], [], processed, some .crash⟩

/-- The answers `sendfile64` gets: of the four `lseek` calls (the position on entry, the move to
    `*offset`, the position afterwards, the way back), of `read`, and of `nfp_send`. -/
structure FileAnswers where
  tell : Int
  seek : Int
  tellAfter : Int
  seekBack : Int
  reads : List FileRead
  sends : List (Outcome Int)

/-- What `sendfile64` did: besides, `*offset`. -/
structure SendfileRan where
  ran : Ran
  offset : Option Int

/-- `lseek(in_fd, 0, SEEK_CUR)`. -/
def tellEntry (inFd : Int) (value : Int) : Entry := ⟨.lseek inFd 0 false, value⟩

/-- `lseek(in_fd, offset, SEEK_SET)`. -/
def seekEntry (inFd offset : Int) (value : Int) : Entry := ⟨.lseek inFd offset true, value⟩

/-- The NFP branch with `offset != NULL`. -/
def sendfileAt (g : Globals) (inFd off : Int) (fa : FileAnswers) (c : Copied) : SendfileRan :=
  if fa.tell = -1 then ⟨⟨g, [tellEntry inFd (-1)], .ret (-1) none⟩, some off⟩
  else if fa.seek = -1 then
    ⟨⟨g, [tellEntry inFd fa.tell, seekEntry inFd off (-1)], .ret (-1) none⟩, some off⟩
  else
    let log := [tellEntry inFd fa.tell, seekEntry inFd off fa.seek] ++ c.log
    match c.stop with
    | some fin => ⟨⟨g, log, fin⟩, some off⟩
    | none =>
        if fa.tellAfter = -1 then
          ⟨⟨g, log ++ [tellEntry inFd (-1)], .ret (-1) none⟩, some (-1)⟩
        else
          ⟨⟨g, log ++ [tellEntry inFd fa.tellAfter, seekEntry inFd fa.tell fa.seekBack],
            .ret (if fa.seekBack = -1 then -1 else c.processed) none⟩, some fa.tellAfter⟩

section Ways

variable {inFd off : Int} {fa : FileAnswers} {c : Copied}

/-- The position on entry is not told. -/
theorem sendfileAt_untold (g : Globals) (htell : fa.tell = -1) : sendfileAt g inFd off fa c =
    ⟨⟨g, [tellEntry inFd (-1)], .ret (-1) none⟩, some off⟩ := if_pos htell

/-- The move to `*offset` fails. -/
theorem sendfileAt_unmoved (g : Globals) (htell : fa.tell ≠ -1) (hseek : fa.seek = -1) :
    sendfileAt g inFd off fa c =
      ⟨⟨g, [tellEntry inFd fa.tell, seekEntry inFd off (-1)], .ret (-1) none⟩, some off⟩ :=
  (if_neg htell).trans (if_pos hseek)

/-- The loop ends the call, with the file where the loop left it. -/
theorem sendfileAt_stopped (g : Globals) (htell : fa.tell ≠ -1) (hseek : fa.seek ≠ -1) {fin : End}
    (hstop : c.stop = some fin) : sendfileAt g inFd off fa c =
      ⟨⟨g, [tellEntry inFd fa.tell, seekEntry inFd off fa.seek] ++ c.log, fin⟩, some off⟩ := by
  unfold sendfileAt
  rw [if_neg htell, if_neg hseek, hstop]

/-- The position behind the transfer is not told, and `*offset` is lost. -/
theorem sendfileAt_lost (g : Globals) (htell : fa.tell ≠ -1) (hseek : fa.seek ≠ -1)
    (hstop : c.stop = none) (hafter : fa.tellAfter = -1) : sendfileAt g inFd off fa c =
      ⟨⟨g, [tellEntry inFd fa.tell, seekEntry inFd off fa.seek] ++ c.log ++ [tellEntry inFd (-1)],
        .ret (-1) none⟩, some (-1)⟩ := by
  unfold sendfileAt
  rw [if_neg htell, if_neg hseek, hstop]
  exact if_pos hafter

/-- The call gets to the way back. -/
theorem sendfileAt_back (g : Globals) (htell : fa.tell ≠ -1) (hseek : fa.seek ≠ -1)
    (hstop : c.stop = none) (hafter : fa.tellAfter ≠ -1) : sendfileAt g inFd off fa c =
      ⟨⟨g, [tellEntry inFd fa.tell, seekEntry inFd off fa.seek] ++ c.log ++
          [tellEntry inFd fa.tellAfter, seekEntry inFd fa.tell fa.seekBack],
        .ret (if fa.seekBack = -1 then -1 else c.processed) none⟩, some fa.tellAfter⟩ := by
  unfold sendfileAt
  rw [if_neg htell, if_neg hseek, hstop]
  exact if_neg hafter

end Ways

/-- The NFP branch of `sendfile64`. -/
def sendfileNfp (g : Globals) (outFd inFd : Int) (offset : Option Int) (count : Nat)
    (fa : FileAnswers) : SendfileRan :=
  let c := copyLoop outFd inFd count (g.loaded .sendfileRead) fa.reads fa.sends 0
  match offset with
  | none => ⟨⟨g, c.log, c.stop.getD (.ret c.processed none)⟩, none⟩
  | some off => sendfileAt g inFd off fa c

/-- **`sendfile64`**. -/
def sendfile64 (g : Globals) (outFd inFd : Int) (offset : Option Int) (count : Nat) (dl : Dlsym)
    (a : Answer) (fa : FileAnswers) : Ran :=
  route g outFd .sendfile64 dl (.sendfile64 outFd inFd offset count) a
    (sendfileNfp g outFd inFd offset count fa).ran

/-! ## Which descriptors are presented -/

/-- A call of the NFP branch: the file to the kernel, or the socket to the NFP stack. -/
def FileOrSocket (outFd inFd : Int) (e : Entry) : Prop :=
  (e.call.stack = .kernel ∧ e.call.given = {inFd}) ∨ (e.call.stack = .nfp ∧ e.call.given = {outFd})

/-- Some data was read from the file. -/
def DataRead (inFd : Int) (log : List Entry) : Prop := ∃ v : Nat, 0 < v ∧ readEntry inFd v ∈ log

/-- An `lseek` of the file. -/
def IsSeek (inFd : Int) (e : Entry) : Prop := ∃ off fromStart v, e = ⟨.lseek inFd off fromStart, v⟩

section Sendfile

variable {outFd inFd : Int}

theorem readEntry_file (value : Int) : FileOrSocket outFd inFd (readEntry inFd value) :=
  Or.inl ⟨rfl, rfl⟩

/-- **One round of the loop**: what it can do, given that something is left to copy. -/
theorem copyLoop_round {count : Nat} {r : FileRead} {reads : List FileRead}
    {sends : List (Outcome Int)} {processed : Nat} {c : Copied}
    (h : copyLoop outFd inFd count true (r :: reads) sends processed = c)
    (hleft : processed < count) :
    (∃ v : Int, v ≤ 0 ∧ c.log = [readEntry inFd v]) ∨
    ∃ bytes : List UInt8, bytes ≠ [] ∧ ∃ tail,
      c.log = readEntry inFd bytes.length ::
        (sendEntries outFd (sendAll retryEagain sends bytes).calls ++ tail) ∧
      ((sendAll retryEagain sends bytes).status = .pending → c.stop = some .pending) ∧
      (tail = [] ∨ tail = (copyLoop outFd inFd count true reads
        (sendAll retryEagain sends bytes).rest (processed + bytes.length)).log) := by
  unfold copyLoop at h
  rw [if_neg (by omega), if_pos rfl] at h
  cases r with
  | error => exact Or.inl ⟨-1, by decide, by rw [← h]⟩
  | data bytes fits =>
      by_cases hb : bytes = []
      · simp only [if_pos hb] at h
        exact Or.inl ⟨0, Int.le_refl 0, by rw [← h]⟩
      · simp only [if_neg hb] at h
        refine Or.inr ⟨bytes, hb, ?_⟩
        cases hstatus : (sendAll retryEagain sends bytes).status with
        | done =>
            rw [hstatus] at h
            exact ⟨_, by rw [← h]; rfl, nofun, Or.inr rfl⟩
        | failed e =>
            rw [hstatus] at h
            exact ⟨[], by rw [← h, List.append_nil], nofun, Or.inl rfl⟩
        | pending =>
            rw [hstatus] at h
            exact ⟨[], by rw [← h, List.append_nil], fun _ => by rw [← h], Or.inl rfl⟩

/-- A loop that has nothing left to copy, no `libc_read`, or no answer to it, made no call. -/
theorem copyLoop_still {count : Nat} {canRead : Bool} {reads : List FileRead}
    {sends : List (Outcome Int)} {processed : Nat}
    (h : count ≤ processed ∨ canRead = false ∨ reads = []) :
    (copyLoop outFd inFd count canRead reads sends processed).log = [] := by
  cases reads with
  | nil => rfl
  | cons r reads =>
      unfold copyLoop
      split
      · rfl
      · rename_i hcount
        rcases h with h | rfl | h
        · exact absurd h hcount
        · rfl
        · cases h

/-- Every call of the loop is a read of the file or a send to the socket. -/
theorem copyLoop_given (count : Nat) (canRead : Bool) (reads : List FileRead)
    (sends : List (Outcome Int)) (processed : Nat) :
    ∀ e ∈ (copyLoop outFd inFd count canRead reads sends processed).log,
      FileOrSocket outFd inFd e := by
  induction reads generalizing sends processed with
  | nil => exact fun e he => absurd he List.not_mem_nil
  | cons r reads ih =>
      intro e he
      by_cases hstill : count ≤ processed ∨ canRead = false
      · rw [copyLoop_still (by tauto)] at he
        exact absurd he List.not_mem_nil
      · obtain ⟨hleft, hread⟩ := not_or.mp hstill
        obtain rfl : canRead = true := by simpa using hread
        rcases copyLoop_round rfl (Nat.lt_of_not_le hleft) with
          ⟨v, -, hlog⟩ | ⟨bytes, -, tail, hlog, -, htail⟩
        · rw [hlog, List.mem_singleton] at he
          rw [he]
          exact readEntry_file v
        · rw [hlog, List.mem_cons, List.mem_append] at he
          rcases he with rfl | he | he
          · exact readEntry_file _
          · exact Or.inr (sendEntries_nfp he)
          · rcases htail with rfl | rfl
            · exact absurd he List.not_mem_nil
            · exact ih _ _ e he

/-- **The loop reads before it sends, and sends what it read**: a loop that called anything read
    the file, and one that got data from it, and is not under way, called `nfp_send`. -/
theorem copyLoop_presents (count : Nat) (canRead : Bool) (reads : List FileRead)
    (sends : List (Outcome Int)) (processed : Nat) {c : Copied}
    (h : copyLoop outFd inFd count canRead reads sends processed = c) :
    (c.log ≠ [] → Presented c.log .kernel inFd) ∧
    (DataRead inFd c.log → c.stop ≠ some .pending → Presented c.log .nfp outFd) := by
  by_cases hstill : count ≤ processed ∨ canRead = false ∨ reads = []
  · have hnil : c.log = [] := h ▸ copyLoop_still hstill
    rw [hnil]
    exact ⟨fun hne => absurd rfl hne, fun ⟨_, _, hmem⟩ => absurd hmem List.not_mem_nil⟩
  · obtain ⟨hleft, hstill⟩ := not_or.mp hstill
    obtain ⟨hread, hreads⟩ := not_or.mp hstill
    obtain rfl : canRead = true := by simpa using hread
    obtain ⟨r, reads, rfl⟩ := List.exists_cons_of_ne_nil hreads
    have hfile : ∀ {v tail}, c.log = readEntry inFd v :: tail → Presented c.log .kernel inFd := by
      intro v tail hlog
      exact ⟨readEntry inFd v, by rw [hlog]; exact List.mem_cons_self, rfl,
        Finset.mem_singleton_self _⟩
    rcases copyLoop_round h (Nat.lt_of_not_le hleft) with
      ⟨v, hv, hlog⟩ | ⟨bytes, hne, tail, hlog, hpend, -⟩
    · refine ⟨fun _ => hfile hlog, fun ⟨k, hk, hmem⟩ _ => ?_⟩
      rw [hlog, List.mem_singleton] at hmem
      have hkv : (k : Int) = v := congrArg Entry.value hmem
      omega
    · refine ⟨fun _ => hfile hlog, fun _ hstop => ?_⟩
      -- the first chunk was not empty, so `nfp_send` was called with it
      have hcalls : (sendAll retryEagain sends bytes).calls ≠ [] :=
        sendAll_calls hne fun hp => hstop (hpend hp)
      have hentries : sendEntries outFd (sendAll retryEagain sends bytes).calls ≠ [] :=
        fun hnil => hcalls (List.map_eq_nil_iff.mp hnil)
      obtain ⟨e, he⟩ := List.exists_mem_of_ne_nil _ hentries
      obtain ⟨hstack, hgiven⟩ := sendEntries_nfp he
      refine ⟨e, ?_, hstack, ?_⟩
      · rw [hlog]
        exact List.mem_cons_of_mem _ (List.mem_append_left _ he)
      · rw [hgiven]
        exact Finset.mem_singleton_self _

/-- **The log of the NFP branch** is that of the loop, or none of it, between `lseek` calls. -/
theorem sendfileNfp_log (g : Globals) (offset : Option Int) (count : Nat) (fa : FileAnswers)
    {c : Copied} (hc : copyLoop outFd inFd count (g.loaded .sendfileRead) fa.reads fa.sends 0 = c)
    {r : Ran} (hr : (sendfileNfp g outFd inFd offset count fa).ran = r) :
    r.globals = g ∧ ∃ before after : List Entry, (∀ e ∈ before ++ after, IsSeek inFd e) ∧
      (r.log = before ++ after ∨
        r.log = before ++ c.log ++ after ∧ (r.fin ≠ .pending → c.stop ≠ some .pending)) := by
  have hone : ∀ v, ∀ e ∈ [tellEntry inFd v], IsSeek inFd e := by
    intro v e he
    exact ⟨0, false, v, List.mem_singleton.mp he⟩
  have hpair : ∀ v off w, ∀ e ∈ [tellEntry inFd v, seekEntry inFd off w], IsSeek inFd e := by
    intro v off w e he
    rcases List.mem_cons.mp he with he | he
    · exact ⟨0, false, v, he⟩
    · exact ⟨off, true, w, List.mem_singleton.mp he⟩
  unfold sendfileNfp at hr
  rw [hc] at hr
  cases offset with
  | none =>
      subst hr
      refine ⟨rfl, [], [], fun e he => absurd he List.not_mem_nil,
        Or.inr ⟨?_, fun hfin hstop => hfin ?_⟩⟩
      · rw [List.nil_append, List.append_nil]
      · show c.stop.getD _ = _
        rw [hstop]
        rfl
  | some off =>
      dsimp only at hr
      by_cases htell : fa.tell = -1
      · rw [sendfileAt_untold g htell] at hr
        subst hr
        exact ⟨rfl, [], _, hone (-1), Or.inl rfl⟩
      by_cases hseek : fa.seek = -1
      · rw [sendfileAt_unmoved g htell hseek] at hr
        subst hr
        exact ⟨rfl, [], _, hpair _ _ _, Or.inl rfl⟩
      cases hstop : c.stop with
      | some fin =>
          rw [sendfileAt_stopped g htell hseek hstop] at hr
          subst hr
          refine ⟨rfl, [tellEntry inFd fa.tell, seekEntry inFd off fa.seek], [], hpair _ _ _,
            Or.inr ⟨?_, fun hfin h => hfin (Option.some.inj h)⟩⟩
          rw [List.append_nil]
      | none =>
          by_cases hafter : fa.tellAfter = -1
          · rw [sendfileAt_lost g htell hseek hstop hafter] at hr
            subst hr
            exact ⟨rfl, _, _, List.forall_mem_append.mpr ⟨hpair _ _ _, hone _⟩,
              Or.inr ⟨rfl, fun _ => nofun⟩⟩
          · rw [sendfileAt_back g htell hseek hstop hafter] at hr
            subst hr
            exact ⟨rfl, _, _, List.forall_mem_append.mpr ⟨hpair _ _ _, hpair _ _ _⟩,
              Or.inr ⟨rfl, fun _ => nofun⟩⟩

/-- **What the NFP branch presents**: the file to the kernel and the socket to the NFP stack only;
    the file as soon as it calls anything, the socket once data was read from the file. -/
theorem sendfileNfp_presents (g : Globals) (offset : Option Int) (count : Nat) (fa : FileAnswers)
    {r : Ran} (hr : (sendfileNfp g outFd inFd offset count fa).ran = r) :
    r.globals = g ∧ (∀ e ∈ r.log, FileOrSocket outFd inFd e) ∧
    (r.log ≠ [] → Presented r.log .kernel inFd) ∧
    (DataRead inFd r.log → r.fin ≠ .pending → Presented r.log .nfp outFd) := by
  obtain ⟨hg, before, after, hseeks, hlog⟩ := sendfileNfp_log g offset count fa rfl hr
  have hgiven := @copyLoop_given outFd inFd count (g.loaded .sendfileRead) fa.reads fa.sends 0
  obtain ⟨hfile, hsocket⟩ := @copyLoop_presents outFd inFd count (g.loaded .sendfileRead) fa.reads
    fa.sends 0 _ rfl
  generalize copyLoop outFd inFd count (g.loaded .sendfileRead) fa.reads fa.sends 0 = c at *
  have hmem : ∀ e ∈ r.log, IsSeek inFd e ∨ e ∈ c.log ∧ ∀ e' ∈ c.log, e' ∈ r.log := by
    intro e he
    rcases hlog with hlog | ⟨hlog, -⟩
    · exact Or.inl (hseeks e (hlog ▸ he))
    · rw [hlog, List.append_assoc, List.mem_append, List.mem_append] at he
      rcases he with he | he | he
      · exact Or.inl (hseeks e (List.mem_append_left _ he))
      · refine Or.inr ⟨he, fun e' he' => ?_⟩
        rw [hlog]
        exact List.mem_append_left _ (List.mem_append_right _ he')
      · exact Or.inl (hseeks e (List.mem_append_right _ he))
  refine ⟨hg, fun e he => ?_, fun hne => ?_, fun hdata hfin => ?_⟩
  · rcases hmem e he with ⟨off, fromStart, v, rfl⟩ | ⟨he, -⟩
    · exact Or.inl ⟨rfl, rfl⟩
    · exact hgiven e he
  · obtain ⟨e, he⟩ := List.exists_mem_of_ne_nil _ hne
    rcases hmem e he with ⟨off, fromStart, v, rfl⟩ | ⟨hec, hsub⟩
    · exact ⟨_, he, rfl, Finset.mem_singleton_self _⟩
    · exact (hfile (List.ne_nil_of_mem hec)).mono hsub
  · obtain ⟨v, hv, he⟩ := hdata
    rcases hmem _ he with ⟨off, fromStart, w, heq⟩ | ⟨hec, hsub⟩
    · cases heq
    · rcases hlog with hlog | ⟨-, hstop⟩
      · obtain ⟨off, fromStart, w, heq⟩ := hseeks _ (hlog ▸ he)
        cases heq
      · exact (hsocket ⟨v, hv, hec⟩ (hstop hfin)).mono hsub

/-- **The file** is presented to the kernel only, when it is on the kernel's side. -/
theorem sendfile64_inFd {g : Globals} (offset : Option Int) (count : Nat) (dl : Dlsym) (a : Answer)
    (fa : FileAnswers) (hin : side g inFd = .kernel) :
    Routed g (sendfile64 g outFd inFd offset count dl a fa) inFd := by
  unfold sendfile64 route
  cases hout : isNfpSocket g outFd with
  | false =>
      have hmem : inFd ∈ (Call.sendfile64 outFd inFd offset count).descriptors :=
        Finset.mem_insert_of_mem (Finset.mem_singleton_self _)
      exact (viaLibc_only g _ dl _ a).routed hmem hin
  | true =>
      obtain ⟨-, hgiven, hfile, -⟩ := @sendfileNfp_presents outFd inFd g offset count fa _ rfl
      refine ⟨fun st ⟨e, he, hst, hmem⟩ => ?_, fun hne => hin ▸ hfile hne⟩
      rcases hgiven e he with ⟨hk, -⟩ | ⟨-, hsock⟩
      · rw [hin, ← hst, hk]
      · -- the file's number is not the socket's: they are on different sides
        rw [hsock, Finset.mem_singleton] at hmem
        rw [hmem, side_nfp hout] at hin
        cases hin

/-- **The socket** is presented to its own side only, when the file is on the kernel's, and is
    presented to it once there is data to send. -/
theorem sendfile64_outFd {g : Globals} (offset : Option Int) (count : Nat) (dl : Dlsym) (a : Answer)
    (fa : FileAnswers) (hne : outFd = inFd → side g inFd = .kernel) {r : Ran}
    (hr : sendfile64 g outFd inFd offset count dl a fa = r) :
    (∀ st, Presented r.log st outFd → st = side g outFd) ∧
    (r.log ≠ [] → (side g outFd = .nfp → DataRead inFd r.log ∧ r.fin ≠ .pending) →
      Presented r.log (side g outFd) outFd) := by
  subst hr
  unfold sendfile64 route
  cases hout : isNfpSocket g outFd with
  | false =>
      have h := (viaLibc_only g .sendfile64 dl (.sendfile64 outFd inFd offset count) a).routed
        (Finset.mem_insert_self _ _) (side_kernel hout)
      exact ⟨h.own, fun hlog _ => h.reach hlog⟩
  | true =>
      obtain ⟨-, hgiven, -, hsocket⟩ := @sendfileNfp_presents outFd inFd g offset count fa _ rfl
      rw [side_nfp hout]
      refine ⟨fun st ⟨e, he, hst, hmem⟩ => ?_, fun _ h => ?_⟩
      · rcases hgiven e he with ⟨-, hfile⟩ | ⟨hs, -⟩
        · rw [hfile, Finset.mem_singleton] at hmem
          have hk := hne hmem
          rw [← hmem, side_nfp hout] at hk
          cases hk
        · rw [← hst, hs]
      · obtain ⟨hdata, hfin⟩ := h rfl
        exact hsocket hdata hfin

end Sendfile

end Nfp.Netwrap
