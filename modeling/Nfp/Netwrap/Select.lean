/-
  File:      Nfp/Netwrap/Select.lean
  Subject:   `select` of example/netwrap_crt (netwrap_select.c). The largest descriptor the caller
             names, `nfds - 1`, decides for the whole call; the NFP branch polls `nfp_select` with
             the part of `readfds` from `sd_offset` on and looks at no other set.

  * `pollLoop` -- the polling loop, with its 32-bit count of microseconds;
  * `select_own`, `select_reach` -- which members of the sets are presented, and to whom.
-/
import Nfp.Netwrap.Common

namespace Nfp.Netwrap

/-- What one `nfp_select` did: its value, `nfp_errno` after it, the set and the timeout it left. -/
structure Poll where
  value : Int
  err : Int
  ready : FdSet
  left : Timeval

/-- What the polling loop did: its calls, how often it slept, and the poll it ended with. -/
structure Polled where
  log : List Entry
  slept : Nat
  last : Option Poll

/-- The loop went on after a poll. -/
def Polled.after (e : Entry) (slept : Nat) (p : Polled) : Polled :=
  { p with log := e :: p.log, slept := slept + p.slept }

/-- **The polling loop**: without a timeout until something is ready, with one until
    `temp_period_usec`, 100 more at each round, is over `period_usec`. -/
def pollLoop (nfds : Int) (bku : FdSet) (period : Option (BitVec 32)) :
    List Poll → BitVec 32 → Polled
  | [], _ => ⟨[], 0, none⟩
  | p :: polls, temp =>
      let called : Entry := ⟨.nfpSelect nfds bku, p.value⟩
      if p.value ≠ 0 then ⟨[called], 0, some p⟩
      else
        match period with
        | none => (pollLoop nfds bku period polls temp).after called 0
        | some usec =>
            if temp + 100 > usec then ⟨[called], 1, some p⟩
            else (pollLoop nfds bku period polls (temp + 100)).after called 1

/-- `period_usec`, 32 bits of the sum. -/
def periodUsec (t : Timeval) : BitVec 32 := BitVec.ofInt 32 (t.sec * 1000000 + t.usec)

/-- What `select` did: besides, `*readfds` and `*timeout`. -/
structure SelectRan where
  ran : Ran
  readfds : Option FdSet
  timeout : Option Timeval

/-- The members of a set the NFP branch walks over: from `sd_offset` up to `nfds`. -/
def inNfpRange (g : Globals) (nfds : Int) (fd : Int) : Bool :=
  decide ((g.params.sdOffset : Int) ≤ fd) && decide (fd < nfds)

/-- `FD_SETSIZE`, the number of bits of a `fd_set`. -/
def fdSetsize : Int := 1024

/-- `FD_ZERO`: it clears the bits of a `fd_set`, and the caller's set, which has descriptors from
    `sd_offset` on, may be longer. -/
def fdZero (set : FdSet) : FdSet := set.filter fun fd => fdSetsize ≤ fd

/-- `*readfds` after the last poll. -/
def readfdsAfter (g : Globals) (nfds : Int) (set : FdSet) (p : Poll) : FdSet :=
  if p.value > 0 then set.filter fun fd => inNfpRange g nfds fd = false ∨ fd ∈ p.ready
  else if p.value = 0 then fdZero set
  else set

/-- The NFP branch of `select`. -/
def selectNfp (g : Globals) (nfds : Int) (readfds : Option FdSet) (timeout : Option Timeval)
    (polls : List Poll) : SelectRan :=
  match readfds with
  | none => ⟨refuse g ebadf, none, timeout⟩
  | some set =>
      let polled := pollLoop nfds (set.filter fun fd => inNfpRange g nfds fd)
        (timeout.map periodUsec) polls 0
      match polled.last with
      | none => ⟨⟨g, polled.log, .pending⟩, some set, timeout⟩
      | some p =>
          ⟨⟨g, polled.log, .ret p.value (some (netwrapErrno p.err))⟩,
            some (readfdsAfter g nfds set p),
            if p.err = 0 then timeout.map fun _ => p.left else timeout⟩

/-- **`select`**. -/
def select (g : Globals) (nfds : Int) (readfds writefds exceptfds : Option FdSet)
    (timeout : Option Timeval) (dl : Dlsym) (a : Answer) (polls : List Poll) : Ran :=
  route g (nfds - 1) .select dl (.select nfds readfds writefds exceptfds timeout) a
    (selectNfp g nfds readfds timeout polls).ran

/-! ## Which descriptors are presented -/

/-- Every call of the loop is the same poll. -/
theorem pollLoop_log {nfds : Int} {bku : FdSet} {period : Option (BitVec 32)} {polls : List Poll}
    {temp : BitVec 32} :
    ∀ e ∈ (pollLoop nfds bku period polls temp).log, e.call = .nfpSelect nfds bku := by
  induction polls generalizing temp with
  | nil => exact fun e he => absurd he List.not_mem_nil
  | cons p polls ih =>
      intro e he
      unfold pollLoop at he
      split at he
      · rw [List.mem_singleton.mp he]
      · split at he
        · rcases List.mem_cons.mp he with rfl | he
          · rfl
          · exact ih e he
        · split at he
          · rw [List.mem_singleton.mp he]
          · rcases List.mem_cons.mp he with rfl | he
            · rfl
            · exact ih e he

/-- So is every call of the NFP branch. -/
theorem selectNfp_log {g : Globals} {nfds : Int} {readfds : Option FdSet}
    {timeout : Option Timeval} {polls : List Poll} {e : Entry}
    (he : e ∈ (selectNfp g nfds readfds timeout polls).ran.log) :
    ∃ set, readfds = some set ∧
      e.call = .nfpSelect nfds (set.filter fun fd => inNfpRange g nfds fd) := by
  cases readfds with
  | none => exact absurd he List.not_mem_nil
  | some set =>
      refine ⟨set, rfl, ?_⟩
      simp only [selectNfp] at he
      split at he
      · exact pollLoop_log e he
      · exact pollLoop_log e he

theorem selectNfp_globals (g : Globals) (nfds : Int) (readfds : Option FdSet)
    (timeout : Option Timeval) (polls : List Poll) :
    (selectNfp g nfds readfds timeout polls).ran.globals = g := by
  unfold selectNfp
  split
  · rfl
  · simp only
    split
    · rfl
    · rfl

section Members

variable {g : Globals} {nfds fd : Int} {readfds writefds exceptfds : Option FdSet}
  {timeout : Option Timeval}

/-- A member of one of the sets is below `nfds`. -/
theorem select_below
    (hfd : fd ∈ (Call.select nfds readfds writefds exceptfds timeout).descriptors) :
    fd < nfds := by
  have hmem : ∀ {set : Option FdSet}, fd ∈ members nfds set → fd < nfds := by
    intro set h
    cases set with
    | none => exact absurd h (Finset.notMem_empty _)
    | some set => exact (Finset.mem_filter.mp h).2.2
  simp only [Call.descriptors, Finset.mem_union] at hfd
  rcases hfd with (h | h) | h
  · exact hmem h
  · exact hmem h
  · exact hmem h

/-- **Below a kernel descriptor there are kernel descriptors only.** -/
theorem side_kernel_below (h : isNfpSocket g (nfds - 1) = false) (hfd : fd < nfds) :
    side g fd = .kernel := by
  refine side_kernel (Bool.eq_false_iff.mpr fun hs => ?_)
  obtain ⟨hcalled, hge⟩ := isNfpSocket_iff.mp hs
  have htop : isNfpSocket g (nfds - 1) = true := isNfpSocket_iff.mpr ⟨hcalled, by omega⟩
  rw [h] at htop
  cases htop

theorem inNfpRange_iff :
    inNfpRange g nfds fd = true ↔ (g.params.sdOffset : Int) ≤ fd ∧ fd < nfds := by
  unfold inNfpRange
  rw [Bool.and_eq_true, decide_eq_true_eq, decide_eq_true_eq]

/-- **No member goes to the other stack.** -/
theorem select_own (dl : Dlsym) (a : Answer) (polls : List Poll)
    (hfd : fd ∈ (Call.select nfds readfds writefds exceptfds timeout).descriptors) (st : Stack)
    (hp : Presented (select g nfds readfds writefds exceptfds timeout dl a polls).log st fd) :
    st = side g fd := by
  unfold select route at hp
  cases h : isNfpSocket g (nfds - 1) with
  | false =>
      rw [h] at hp
      have hside : side g fd = .kernel := side_kernel_below h (select_below hfd)
      exact ((viaLibc_only g _ dl _ a).routed hfd hside).own st hp
  | true =>
      rw [h] at hp
      obtain ⟨e, he, hst, hmem⟩ := hp
      obtain ⟨set, -, hcall⟩ := selectNfp_log he
      rw [hcall] at hst hmem
      obtain ⟨hge, -⟩ := inNfpRange_iff.mp (Finset.mem_filter.mp hmem).2
      have hside : side g fd = .nfp := side_nfp_iff.mpr ⟨(isNfpSocket_iff.mp h).1, hge⟩
      rw [hside, ← hst]
      rfl

/-- **Every member is presented** when the call goes to the kernel; when it goes to the NFP stack,
    the NFP descriptors in `readfds` are. -/
theorem select_reach (dl : Dlsym) (a : Answer) (polls : List Poll)
    (hfd : fd ∈ (Call.select nfds readfds writefds exceptfds timeout).descriptors)
    (hnfp : side g (nfds - 1) = .nfp → side g fd = .nfp ∧ fd ∈ members nfds readfds) {r : Ran}
    (hr : select g nfds readfds writefds exceptfds timeout dl a polls = r) (hne : r.log ≠ []) :
    Presented r.log (side g fd) fd := by
  subst hr
  unfold select route at hne ⊢
  cases h : isNfpSocket g (nfds - 1) with
  | false =>
      rw [h] at hne
      have hside : side g fd = .kernel := side_kernel_below h (select_below hfd)
      exact ((viaLibc_only g _ dl _ a).routed hfd hside).reach hne
  | true =>
      rw [h] at hne
      obtain ⟨hside, hmem⟩ := hnfp (side_nfp h)
      obtain ⟨e, he⟩ := List.exists_mem_of_ne_nil _ hne
      obtain ⟨set, rfl, hcall⟩ := selectNfp_log he
      refine ⟨e, he, by rw [hcall, hside]; rfl, ?_⟩
      obtain ⟨hset, -, hlt⟩ := Finset.mem_filter.mp hmem
      have hge : (g.params.sdOffset : Int) ≤ fd := (side_nfp_iff.mp hside).2
      rw [hcall]
      exact Finset.mem_filter.mpr ⟨hset, inNfpRange_iff.mpr ⟨hge, hlt⟩⟩

end Members

end Nfp.Netwrap
