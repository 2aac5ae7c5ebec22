/-
  File:      Nfp/Netwrap/SelectReturn.lean
  Subject:   HOW `select` of example/netwrap_crt RETURNS from its NFP branch: the sets it leaves, and
             how long it has waited.

  The branch polls one set, made from `readfds`. On a positive result it goes over the descriptors
  from `sd_offset` on and takes those not ready out of `readfds`; on a timeout it calls `FD_ZERO`,
  which clears the first 1024 bits and no more; `writefds` and `exceptfds` it never looks at. The
  timeout is kept in microseconds in 32 bits, and so is the time slept (`Lib.Wrap`).

  * `pollLoop_ended` -- the polls up to the last are empty, and how the loop slept;
  * `select_consistent_iff` -- when the number returned and the sets left agree;
  * `select_waits_iff` -- when a timeout is not early; `select_ends_iff` -- when there is one.
-/
import Mathlib.Data.Finset.Card
import Nfp.Lib.Wrap
import Nfp.Netwrap.Select

namespace Nfp.Netwrap

open Nfp.Lib

/-- The set the NFP branch polls. -/
def nfpReadfds (g : Globals) (nfds : Int) (set : FdSet) : FdSet :=
  set.filter fun fd => inNfpRange g nfds fd

/-- The polling loop of a call with this `readfds`. -/
def selectPolled (g : Globals) (nfds : Int) (set : FdSet) (timeout : Option Timeval)
    (polls : List Poll) : Polled :=
  pollLoop nfds (nfpReadfds g nfds set) (timeout.map periodUsec) polls 0

/-! ## The loop -/

section Loop

variable {g : Globals} {nfds : Int} {bku : FdSet} {period : Option (BitVec 32)}

/-- **How the loop ends**: after polls with nothing ready, with one that has something, or with a
    timeout. -/
theorem pollLoop_ended (polls : List Poll) (temp : BitVec 32) {r : Polled}
    (hr : pollLoop nfds bku period polls temp = r) {p : Poll} (hp : r.last = some p) :
    ∃ before rest, polls = before ++ p :: rest ∧ r.log.length = before.length + 1 ∧
      ∀ q ∈ before, q.value = 0 := by
  induction polls generalizing temp r with
  | nil =>
      rw [← hr] at hp
      cases hp
  | cons q polls ih =>
      have hstop : ∀ {log slept}, r = ⟨log, slept, some q⟩ → log.length = 1 →
          ∃ before rest, q :: polls = before ++ p :: rest ∧ r.log.length = before.length + 1 ∧
            ∀ q' ∈ before, q'.value = 0 := by
        intro log slept hr hlog
        rw [hr] at hp
        cases hp
        exact ⟨[], polls, rfl, by rw [hr]; exact hlog, fun _ h => absurd h List.not_mem_nil⟩
      have hgo : ∀ {temp' e slept}, q.value = 0 →
          r = (pollLoop nfds bku period polls temp').after e slept →
          ∃ before rest, q :: polls = before ++ p :: rest ∧ r.log.length = before.length + 1 ∧
            ∀ q' ∈ before, q'.value = 0 := by
        intro temp' e slept hq hr
        rw [hr] at hp
        obtain ⟨before, rest, hpolls, hlog, hzero⟩ := ih temp' rfl hp
        refine ⟨q :: before, rest, by rw [hpolls]; rfl, ?_, List.forall_mem_cons.mpr ⟨hq, hzero⟩⟩
        rw [hr]
        exact congrArg (· + 1) hlog
      unfold pollLoop at hr
      by_cases hq : q.value = 0
      · rw [if_neg (not_not.mpr hq)] at hr
        cases period with
        | none => exact hgo hq hr.symm
        | some usec =>
            simp only at hr
            by_cases hover : temp + 100 > usec
            · rw [if_pos hover] at hr
              exact hstop hr.symm rfl
            · rw [if_neg hover] at hr
              exact hgo hq hr.symm
      · rw [if_pos hq] at hr
        exact hstop hr.symm rfl

end Loop

section Returned

variable {g : Globals} {nfds : Int} {readfds writefds exceptfds : Option FdSet}
  {timeout : Option Timeval} {polls : List Poll}

/-- **A call that does not fail** returns the value of the last poll. -/
theorem select_returned (dl : Dlsym) (a : Answer) (hfd : isNfpSocket g (nfds - 1) = true) {r : Int}
    {errno : Option Int}
    (hret : (select g nfds readfds writefds exceptfds timeout dl a polls).fin = .ret r errno)
    (hr : 0 ≤ r) :
    ∃ set p, readfds = some set ∧ (selectPolled g nfds set timeout polls).last = some p ∧
      p.value = r ∧
      (selectNfp g nfds readfds timeout polls).readfds = some (readfdsAfter g nfds set p) ∧
      (select g nfds readfds writefds exceptfds timeout dl a polls).log =
        (selectPolled g nfds set timeout polls).log := by
  have hnfp : select g nfds readfds writefds exceptfds timeout dl a polls =
      (selectNfp g nfds readfds timeout polls).ran := if_pos hfd
  rw [hnfp] at hret ⊢
  cases readfds with
  | none =>
      simp only [selectNfp, refuse, End.ret.injEq] at hret
      omega
  | some set =>
      cases hlast : (selectPolled g nfds set timeout polls).last with
      | none =>
          simp only [selectPolled, nfpReadfds] at hlast
          simp only [selectNfp, hlast] at hret
          cases hret
      | some p =>
          refine ⟨set, p, rfl, hlast, ?_⟩
          simp only [selectPolled, nfpReadfds] at hlast ⊢
          simp only [selectNfp, hlast, End.ret.injEq] at hret ⊢
          exact ⟨hret.1, trivial, trivial⟩

/-- A call is under way as long as its loop is. -/
theorem select_pending_iff (dl : Dlsym) (a : Answer) (hfd : isNfpSocket g (nfds - 1) = true)
    {set : FdSet} :
    (select g nfds (some set) writefds exceptfds timeout dl a polls).fin = .pending ↔
      (selectPolled g nfds set timeout polls).last = none := by
  have hnfp : select g nfds (some set) writefds exceptfds timeout dl a polls =
      (selectNfp g nfds (some set) timeout polls).ran := if_pos hfd
  rw [hnfp]
  unfold selectPolled nfpReadfds selectNfp
  simp only
  split
  · rename_i hlast
    exact iff_of_true rfl hlast
  · rename_i p hlast
    exact iff_of_false (fun h => by cases h) (by rw [hlast]; exact Option.some_ne_none p)

end Returned

/-! ## The sets left -/

/-- What the stack may answer to a poll: the ready descriptors of the set it was given stay, and it
    returns how many they are, or fails. -/
structure Poll.Honest (given : FdSet) (p : Poll) : Prop where
  given : p.ready ⊆ given
  count : 0 ≤ p.value → p.value = p.ready.card

/-- The members of a set that may be NULL. -/
def membersOf : Option FdSet → FdSet
  | none => ∅
  | some set => set

/-- The members of `readfds` the NFP branch does not walk over. -/
def strays (g : Globals) (nfds : Int) (readfds : Option FdSet) : FdSet :=
  (membersOf readfds).filter fun fd => inNfpRange g nfds fd = false

/-- The three sets of a call. -/
structure Sets where
  readfds : Option FdSet
  writefds : Option FdSet
  exceptfds : Option FdSet

/-- The sets on return: the NFP branch writes to `readfds` only. -/
def setsAfter (g : Globals) (nfds : Int) (s : Sets) (timeout : Option Timeval) (polls : List Poll) :
    Sets :=
  { s with readfds := (selectNfp g nfds s.readfds timeout polls).readfds }

/-- How many descriptors are set. -/
def Sets.total (s : Sets) : Nat :=
  (membersOf s.readfds).card + (membersOf s.writefds).card + (membersOf s.exceptfds).card

/-- Each of the sets is contained in the other's. -/
structure Sets.Within (s t : Sets) : Prop where
  readfds : membersOf s.readfds ⊆ membersOf t.readfds
  writefds : membersOf s.writefds ⊆ membersOf t.writefds
  exceptfds : membersOf s.exceptfds ⊆ membersOf t.exceptfds

/-- **The sets agree with the result**: it is the number of descriptors left set, and each of those
    was set on entry and is ready by the last poll. -/
structure Consistent (before after : Sets) (r : Int) (last : Poll) : Prop where
  count : r = after.total
  entry : after.Within before
  ready : after.Within ⟨some last.ready, some last.ready, some last.ready⟩

section Consistent

variable {g : Globals} {nfds : Int} {s : Sets} {timeout : Option Timeval} {polls : List Poll}

/-- **What is left of `readfds`** is what was ready just if, with something ready, nothing was left
    out of the walk and, with nothing ready, nothing is beyond the reach of `FD_ZERO`. -/
theorem readfdsAfter_ready_iff {set : FdSet} {p : Poll} (hp : p.Honest (nfpReadfds g nfds set))
    (hvalue : 0 ≤ p.value) :
    p.ready ⊆ readfdsAfter g nfds set p ∧
      (readfdsAfter g nfds set p = p.ready ↔
        (p.ready ≠ ∅ → strays g nfds (some set) = ∅) ∧ (p.ready = ∅ → fdZero set = ∅)) := by
  have hcount := hp.count hvalue
  have hset : ∀ fd ∈ p.ready, fd ∈ set ∧ inNfpRange g nfds fd = true :=
    fun fd h => Finset.mem_filter.mp (hp.given h)
  unfold readfdsAfter
  by_cases hzero : p.value = 0
  · have hempty : p.ready = ∅ := Finset.card_eq_zero.mp (by omega)
    rw [if_neg (by omega), if_pos hzero, hempty]
    exact ⟨Finset.empty_subset _, fun h => ⟨fun hne => absurd rfl hne, fun _ => h⟩,
      fun h => h.2 rfl⟩
  · have hready : p.ready ≠ ∅ := by
      intro hempty
      rw [hempty, Finset.card_empty] at hcount
      exact hzero hcount
    rw [if_pos (by omega)]
    refine ⟨fun fd h => Finset.mem_filter.mpr ⟨(hset fd h).1, Or.inr h⟩, ?_, fun h => ?_⟩
    · intro heq
      refine ⟨fun _ => Finset.eq_empty_of_forall_notMem fun fd hstray => ?_,
        fun hempty => absurd hempty hready⟩
      obtain ⟨hmem, hout⟩ := Finset.mem_filter.mp hstray
      -- a descriptor left out of the walk stays, so it would have to be ready
      have hleft : fd ∈ p.ready := by
        rw [← heq]
        exact Finset.mem_filter.mpr ⟨hmem, Or.inl hout⟩
      rw [(hset fd hleft).2] at hout
      cases hout
    · have hnone := h.1 hready
      ext fd
      rw [Finset.mem_filter]
      refine ⟨fun ⟨hmem, hor⟩ => hor.resolve_left fun hout => ?_,
        fun h => ⟨(hset fd h).1, Or.inr h⟩⟩
      have hstray : fd ∈ strays g nfds (some set) := Finset.mem_filter.mpr ⟨hmem, hout⟩
      rw [hnone] at hstray
      exact absurd hstray (Finset.notMem_empty fd)

/-- If nothing ready has been lost, the sets agree with its number just if they hold nothing else. -/
theorem consistent_iff {before after : Sets} {last : Poll} (hentry : after.Within before)
    (hkept : last.ready ⊆ membersOf after.readfds) :
    Consistent before after last.ready.card last ↔
      membersOf after.writefds = ∅ ∧ membersOf after.exceptfds = ∅ ∧
        membersOf after.readfds = last.ready := by
  constructor
  · intro h
    have hread : membersOf after.readfds = last.ready :=
      Finset.Subset.antisymm h.ready.readfds hkept
    have hcount := h.count
    unfold Sets.total at hcount
    rw [hread] at hcount
    exact ⟨Finset.card_eq_zero.mp (by omega), Finset.card_eq_zero.mp (by omega), hread⟩
  · rintro ⟨hw, he, hread⟩
    refine ⟨?_, hentry, ?_, ?_, ?_⟩
    · unfold Sets.total
      rw [hw, he, hread, Finset.card_empty]
      omega
    · rw [hread]
      exact Finset.Subset.refl _
    · rw [hw]
      exact Finset.empty_subset _
    · rw [he]
      exact Finset.empty_subset _

/-- The last of the polls that were made is the last answer, and before it there was nothing. -/
theorem pollLoop_getLast {bku : FdSet} {period : Option (BitVec 32)} {temp : BitVec 32} {r : Polled}
    (hr : pollLoop nfds bku period polls temp = r) {last : Poll} (hlast : r.last = some last)
    (hmade : r.log.length = polls.length) :
    polls.getLast? = some last ∧ ∀ p ∈ polls, p = last ∨ p.value = 0 := by
  obtain ⟨before, rest, hsplit, hlen, hzero⟩ := pollLoop_ended polls temp hr hlast
  have hrest : rest = [] := by
    rw [hlen, hsplit, List.length_append, List.length_cons] at hmade
    exact List.length_eq_zero_iff.mp (by omega)
  rw [hrest] at hsplit
  rw [hsplit]
  refine ⟨List.getLast?_concat, fun p hp => ?_⟩
  rcases List.mem_append.mp hp with hp | hp
  · exact Or.inr (hzero p hp)
  · exact Or.inl (List.mem_singleton.mp hp)

/-- **When the sets agree with the result.** On return from the NFP branch, its polls answered
    honestly, they do just if `writefds` and `exceptfds` hold nothing, and `readfds` has no member
    outside the walk where a poll had something ready, and none from `FD_SETSIZE` on where none
    had. -/
theorem select_consistent_iff (dl : Dlsym) (a : Answer) (hfd : isNfpSocket g (nfds - 1) = true)
    (hpolls : ∀ p ∈ polls, p.Honest (nfpReadfds g nfds (membersOf s.readfds))) {ran : Ran}
    (hran : select g nfds s.readfds s.writefds s.exceptfds timeout dl a polls = ran)
    (hmade : ran.log.length = polls.length) {r : Int} {errno : Option Int}
    (hret : ran.fin = .ret r errno) (hr : 0 ≤ r) :
    (∃ last, polls.getLast? = some last ∧
        Consistent s (setsAfter g nfds s timeout polls) r last) ↔
      membersOf s.writefds = ∅ ∧ membersOf s.exceptfds = ∅ ∧
        ((∃ p ∈ polls, p.ready ≠ ∅) → strays g nfds s.readfds = ∅) ∧
        ((∀ p ∈ polls, p.ready = ∅) → fdZero (membersOf s.readfds) = ∅) := by
  subst hran
  obtain ⟨set, last, hset, hlast, hvalue, hafter, hlog⟩ := select_returned dl a hfd hret hr
  rw [hlog] at hmade
  obtain ⟨hgetLast, hzero⟩ := pollLoop_getLast rfl hlast hmade
  rw [hset] at hpolls
  have hmem : last ∈ polls := List.mem_of_getLast? hgetLast
  have hhonest : last.Honest (nfpReadfds g nfds set) := hpolls last hmem
  obtain ⟨hkept, hready⟩ := readfdsAfter_ready_iff hhonest (by omega)
  have hread : membersOf (setsAfter g nfds s timeout polls).readfds =
      readfdsAfter g nfds set last := by
    unfold setsAfter
    rw [hafter]
    rfl
  have hentry : (setsAfter g nfds s timeout polls).Within s := by
    refine ⟨?_, Finset.Subset.refl _, Finset.Subset.refl _⟩
    rw [hread, hset]
    show readfdsAfter g nfds set last ⊆ set
    unfold readfdsAfter
    split
    · exact Finset.filter_subset _ _
    · split
      · exact Finset.filter_subset _ _
      · exact Finset.Subset.refl _
  have hnothing : (∀ p ∈ polls, p.ready = ∅) ↔ last.ready = ∅ := by
    refine ⟨fun h => h last hmem, fun h p hp => ?_⟩
    rcases hzero p hp with rfl | hp0
    · exact h
    · have hcount := (hpolls p hp).count (by omega)
      exact Finset.card_eq_zero.mp (by omega)
  have hcard : r = last.ready.card := by
    rw [← hvalue]
    exact hhonest.count (by omega)
  have hsomething : (∃ p ∈ polls, p.ready ≠ ∅) ↔ last.ready ≠ ∅ :=
    ⟨fun ⟨p, hp, hne⟩ hempty => hne (hnothing.mpr hempty p hp), fun hne => ⟨last, hmem, hne⟩⟩
  rw [hnothing, hsomething, hset]
  show _ ↔ _ ∧ _ ∧ (_ → _) ∧ (_ → fdZero set = ∅)
  rw [← hready, ← hread, hcard]
  have hiff := consistent_iff hentry (hread ▸ hkept)
  constructor
  · rintro ⟨last', hlast', hcons⟩
    rw [hgetLast] at hlast'
    cases hlast'
    exact hiff.mp hcons
  · intro h
    exact ⟨last, hgetLast, hiff.mpr h⟩

end Consistent

/-- A poll of the set that finds these ready, in time. -/
def somePoll (ready : FdSet) : Poll := ⟨ready.card, 0, ready, ⟨0, 0⟩⟩

theorem somePoll_honest {ready given : FdSet} (h : ready ⊆ given) : (somePoll ready).Honest given :=
  ⟨h, fun _ => rfl⟩

theorem select_consistent_iff_two_sockets :
    let s : Sets := ⟨some {1024, 1025}, none, some ∅⟩
    let polls := [somePoll ∅, somePoll {1025}]
    ∃ last, polls.getLast? = some last ∧
      Consistent s (setsAfter someGlobals 1026 s none polls) 1 last :=
  (@select_consistent_iff someGlobals 1026 ⟨some {1024, 1025}, none, some ∅⟩ none
    [somePoll ∅, somePoll {1025}] .found ⟨0, 0⟩ rfl
    (List.forall_mem_cons.mpr ⟨somePoll_honest (by decide),
      List.forall_mem_singleton.mpr (somePoll_honest (by decide))⟩)
    _ rfl rfl 1 (some 0) rfl (by decide)).mpr (by decide)

/-- Descriptor 3 of the kernel stays in `readfds` and 1024 in `writefds`: 1 is returned, three are
    set. On a timeout 0 is returned, and the NFP descriptors stay in `readfds`. -/
theorem select_leaves_others :
    let s : Sets := ⟨some {3, 1024, 1025}, some {1024}, none⟩
    let polls := [somePoll {1025}]
    let quiet := [somePoll ∅]
    ((select someGlobals 1026 s.readfds s.writefds s.exceptfds none .found ⟨0, 0⟩ polls).fin =
        .ret 1 (some 0) ∧
      (setsAfter someGlobals 1026 s none polls).readfds = some {3, 1025} ∧
      (setsAfter someGlobals 1026 s none polls).total = 3) ∧
    (select someGlobals 1026 s.readfds none none (some ⟨0, 0⟩) .found ⟨0, 0⟩ quiet).fin =
        .ret 0 (some 0) ∧
      (setsAfter someGlobals 1026 s (some ⟨0, 0⟩) quiet).readfds = some {1024, 1025} := by
  decide

/-! ## The timeout -/

/-- The microseconds the caller asks for. -/
def timeoutUsec (t : Timeval) : Nat := (t.sec * 1000000 + t.usec).toNat

/-- How often the NFP branch slept, 100 microseconds each time. -/
def selectSlept (g : Globals) (nfds : Int) (set : FdSet) (timeout : Option Timeval)
    (polls : List Poll) : Nat :=
  (selectPolled g nfds set timeout polls).slept

/-- How often `temp_period_usec` wraps before it is over `period_usec`: below its first peak not at
    all, and then once more for each 4 microseconds, as the peaks rise. -/
def wrapsBefore (period : Nat) : Nat :=
  if period < 4294967200 then 0 else (period - 4294967200) / 4 + 1

section Timeout

variable {g : Globals} {nfds : Int} {bku : FdSet} {usec : BitVec 32} {t : Timeval}

/-- **A round with nothing ready**: the count of microseconds goes on, and is compared. -/
theorem pollLoop_quiet {q : Poll} (hq : q.value = 0) (polls : List Poll) (j : Nat) :
    pollLoop nfds bku (some usec) (q :: polls) (BitVec.ofNat 32 (100 * j)) =
      if usec.toNat < tick 100 0x100000000 (j + 1) then
        ⟨[⟨.nfpSelect nfds bku, q.value⟩], 1, some q⟩
      else
        (pollLoop nfds bku (some usec) polls (BitVec.ofNat 32 (100 * (j + 1)))).after
          ⟨.nfpSelect nfds bku, q.value⟩ 1 := by
  have hnext : BitVec.ofNat 32 (100 * j) + 100 = BitVec.ofNat 32 (100 * (j + 1)) := by
    rw [Nat.mul_add_one, BitVec.ofNat_add]
    rfl
  have hover : BitVec.ofNat 32 (100 * (j + 1)) > usec ↔
      usec.toNat < tick 100 0x100000000 (j + 1) := by
    rw [gt_iff_lt, BitVec.lt_def, BitVec.toNat_ofNat]
    rfl
  rw [pollLoop, if_neg (not_not.mpr hq)]
  simp only [hnext, hover]

/-- **A timeout** comes at the first round after which the count is over the period. -/
theorem pollLoop_timeout (polls : List Poll) (j : Nat) {r : Polled}
    (hr : pollLoop nfds bku (some usec) polls (BitVec.ofNat 32 (100 * j)) = r) {p : Poll}
    (hp : r.last = some p) (hzero : p.value = 0) :
    usec.toNat < tick 100 0x100000000 (j + r.slept) ∧
      ∀ m, m + 1 < r.slept → tick 100 0x100000000 (j + 1 + m) ≤ usec.toNat := by
  induction polls generalizing j r with
  | nil =>
      rw [← hr] at hp
      cases hp
  | cons q polls ih =>
      by_cases hq : q.value = 0
      · rw [pollLoop_quiet hq] at hr
        by_cases hover : usec.toNat < tick 100 0x100000000 (j + 1)
        · rw [if_pos hover] at hr
          rw [← hr]
          exact ⟨hover, fun m hlt => absurd hlt (by simp only; omega)⟩
        · rw [if_neg hover] at hr
          rw [← hr] at hp ⊢
          obtain ⟨hlast, hbefore⟩ := ih (j + 1) rfl hp
          simp only [Polled.after]
          refine ⟨by rw [← Nat.add_assoc]; exact hlast, fun m hlt => ?_⟩
          cases m with
          | zero => exact Nat.le_of_not_lt hover
          | succ m =>
              have hm := hbefore m (by omega)
              rw [Nat.add_right_comm] at hm
              exact hm
      · rw [pollLoop, if_pos hq] at hr
        rw [← hr] at hp
        cases hp
        exact absurd hzero hq

/-- **The loop is under way** as long as nothing is ready and the count is not over the period. -/
theorem pollLoop_under_way_iff (polls : List Poll) (hzero : ∀ p ∈ polls, p.value = 0) (j : Nat) :
    (pollLoop nfds bku (some usec) polls (BitVec.ofNat 32 (100 * j))).last = none ↔
      ∀ m < polls.length, tick 100 0x100000000 (j + 1 + m) ≤ usec.toNat := by
  induction polls generalizing j with
  | nil => exact ⟨fun _ m hm => absurd hm (Nat.not_lt_zero m), fun _ => rfl⟩
  | cons q polls ih =>
      obtain ⟨hq, hrest⟩ := List.forall_mem_cons.mp hzero
      rw [pollLoop_quiet hq, List.length_cons, Nat.forall_lt_succ_left]
      by_cases hover : usec.toNat < tick 100 0x100000000 (j + 1)
      · rw [if_pos hover]
        exact iff_of_false (Option.some_ne_none q) fun h => Nat.not_lt_of_le h.1 hover
      · rw [if_neg hover]
        refine (ih hrest (j + 1)).trans ⟨fun h => ⟨Nat.le_of_not_lt hover, ?_⟩, fun h m hm => ?_⟩
        · intro m hm
          have hnext := h m hm
          rw [Nat.add_right_comm] at hnext
          exact hnext
        · rw [Nat.add_right_comm]
          exact h.2 m hm

/-- The period is the timeout, as far as 32 bits go. -/
theorem periodUsec_toNat (hsec : 0 ≤ t.sec) (husec : 0 ≤ t.usec) :
    (periodUsec t).toNat = timeoutUsec t % 0x100000000 := by
  unfold periodUsec timeoutUsec
  rw [BitVec.toNat_ofInt]
  have : 0 ≤ t.sec * 1000000 + t.usec := by omega
  omega

/-- What is over the first peaks. -/
theorem peaks_le_iff {period : Nat} (hlt : period + 4 < 0x100000000) (q : Nat) :
    (∀ k < q, peak 100 0x100000000 k ≤ period) ↔ q ≤ wrapsBefore period := by
  unfold wrapsBefore peak
  constructor
  · intro h
    by_contra hnot
    have := h _ (Nat.lt_of_not_le hnot)
    split at this
    · omega
    · omega
  · intro h k hk
    split at h
    · omega
    · omega

/-- **When a timeout is not early.** A call that returns 0 from the NFP branch has slept as long as
    it was asked to just if the timeout holds no more multiples of 2^32 microseconds than its count
    wraps before it is over the rest. -/
theorem select_waits_iff (dl : Dlsym) (a : Answer) (hfd : isNfpSocket g (nfds - 1) = true)
    {set : FdSet} {writefds exceptfds : Option FdSet} {polls : List Poll}
    (hsec : 0 ≤ t.sec) (husec : 0 ≤ t.usec) {errno : Option Int}
    (hret : (select g nfds (some set) writefds exceptfds (some t) dl a polls).fin = .ret 0 errno) :
    timeoutUsec t ≤ 100 * selectSlept g nfds set (some t) polls ↔
      timeoutUsec t / 0x100000000 ≤ wrapsBefore (timeoutUsec t % 0x100000000) := by
  obtain ⟨set', p, hset, hlast, hvalue, -, -⟩ := select_returned dl a hfd hret (Int.le_refl 0)
  cases hset
  obtain ⟨hover, hbefore⟩ := pollLoop_timeout polls 0 rfl hlast hvalue
  rw [periodUsec_toNat hsec husec] at hover hbefore
  have hfirst : FirstOver 100 0x100000000 (timeoutUsec t % 0x100000000)
      (selectSlept g nfds set (some t) polls) := by
    refine ⟨by rw [Nat.zero_add] at hover; exact hover, fun m hm => ?_⟩
    cases m with
    | zero => exact Nat.zero_le _
    | succ m =>
        have hm := hbefore m hm
        rw [Nat.add_comm (0 + 1), Nat.zero_add] at hm
        exact hm
  have hlt := (exists_over_iff (by decide)).mp ⟨_, hfirst.above⟩
  have hgcd : Nat.gcd 100 0x100000000 = 4 := by decide
  rw [hgcd] at hlt
  rw [← peaks_le_iff hlt, ← hfirst.wraps_iff (by decide) (by decide),
    ← hfirst.elapsed_iff (by decide)]
  have hsplit := Nat.div_add_mod (timeoutUsec t) 0x100000000
  omega

/-- A call that finds nothing ready is under way as long as the count is not over the period. -/
theorem select_quiet_iff (dl : Dlsym) (a : Answer) (hfd : isNfpSocket g (nfds - 1) = true)
    {set : FdSet} {writefds exceptfds : Option FdSet} {polls : Nat → Poll}
    (hzero : ∀ k, (polls k).value = 0) (n : Nat) :
    (select g nfds (some set) writefds exceptfds (some t) dl a ((List.range n).map polls)).fin =
        .pending ↔
      ∀ m < n, tick 100 0x100000000 (m + 1) ≤ (periodUsec t).toNat := by
  have hpolls : ∀ p ∈ (List.range n).map polls, p.value = 0 := by
    intro p hp
    obtain ⟨k, -, rfl⟩ := List.mem_map.mp hp
    exact hzero k
  have hloop := @pollLoop_under_way_iff nfds (nfpReadfds g nfds set) (periodUsec t) _ hpolls 0
  simp only [List.length_map, List.length_range, Nat.zero_add, Nat.add_comm 1] at hloop
  rw [← hloop, select_pending_iff dl a hfd]
  rfl

/-- **When a timeout ends the call.** If nothing is ever ready, a call with a timeout gets to the end
    of its polling loop just if the timeout, in 32 bits, is not one of the last four values. -/
theorem select_ends_iff (dl : Dlsym) (a : Answer) (hfd : isNfpSocket g (nfds - 1) = true)
    {set : FdSet} {writefds exceptfds : Option FdSet} (hsec : 0 ≤ t.sec) (husec : 0 ≤ t.usec)
    {polls : Nat → Poll} (hzero : ∀ k, (polls k).value = 0) :
    (∃ n, (select g nfds (some set) writefds exceptfds (some t) dl a
        ((List.range n).map polls)).fin ≠ .pending) ↔
      timeoutUsec t % 0x100000000 + 4 < 0x100000000 := by
  have hgcd : Nat.gcd 100 0x100000000 = 4 := by decide
  rw [← hgcd, ← exists_over_iff (by decide), ← periodUsec_toNat hsec husec]
  simp only [ne_eq, select_quiet_iff dl a hfd hzero]
  constructor
  · rintro ⟨n, hn⟩
    by_contra hnone
    refine hn fun m _ => ?_
    by_contra hover
    exact hnone ⟨_, Nat.lt_of_not_le hover⟩
  · rintro ⟨n, hn⟩
    refine ⟨n, fun h => ?_⟩
    cases n with
    | zero => exact absurd hn (Nat.not_lt_zero _)
    | succ n => exact Nat.not_lt_of_le (h n (Nat.lt_succ_self n)) hn

end Timeout

theorem select_waits_iff_250 :
    timeoutUsec ⟨0, 250⟩ ≤ 100 * selectSlept someGlobals 1025 {1024} (some ⟨0, 250⟩)
      [somePoll ∅, somePoll ∅, somePoll ∅] :=
  (@select_waits_iff someGlobals 1025 ⟨0, 250⟩ .found ⟨0, 0⟩ rfl {1024} none none
    [somePoll ∅, somePoll ∅, somePoll ∅] (by decide) (by decide) (some 0) rfl).mpr (by decide)

/-- A timeout of 2^32 microseconds, over 71 minutes, is a period of 0: the call returns after the
    first 100. -/
theorem select_times_out_early :
    (select someGlobals 1025 (some {1024}) none none (some ⟨4294, 967296⟩) .found ⟨0, 0⟩
        [somePoll ∅]).fin = .ret 0 (some 0) ∧
      selectSlept someGlobals 1025 {1024} (some ⟨4294, 967296⟩) [somePoll ∅] = 1 ∧
      timeoutUsec ⟨4294, 967296⟩ = 4294967296 := by
  decide

theorem select_ends_iff_250 :
    ∃ n, (select someGlobals 1025 (some {1024}) none none (some ⟨0, 250⟩) .found ⟨0, 0⟩
      ((List.range n).map fun _ => somePoll ∅)).fin ≠ .pending :=
  (select_ends_iff .found ⟨0, 0⟩ rfl (by decide) (by decide) fun _ => rfl).mpr (by decide)

/-- The count is a multiple of 4 at all times, and so never over 4294967292: with that timeout the
    call polls for ever. -/
theorem select_polls_for_ever :
    ¬ ∃ n, (select someGlobals 1025 (some {1024}) none none (some ⟨4294, 967292⟩) .found ⟨0, 0⟩
      ((List.range n).map fun _ => somePoll ∅)).fin ≠ .pending := by
  have hnever := (@exists_over_iff 100 0x100000000 4294967292 (by decide)).not.mpr (by decide)
  intro h
  obtain ⟨n, hends⟩ := h
  refine hends ((select_quiet_iff .found ⟨0, 0⟩ rfl (fun _ => rfl) n).mpr fun m _ => ?_)
  exact Nat.le_of_not_lt fun hover => hnever ⟨m + 1, hover⟩

end Nfp.Netwrap
