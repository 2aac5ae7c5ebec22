/-
  File:      Nfp/Lib/Send.lean
  Subject:   SENDING A BUFFER THROUGH PARTIAL SENDS. Nothing here names a program: a send function
             takes some of the elements it is offered, from the front, or fails; a loop offers it
             the rest until all are taken.

  The answers of the send function are a list, used up from the front (`Outcome`); `retry` says
  after which failures the loop asks again. A loop that has used up its answers with elements
  left is still under way (`Status.pending`), so what holds of every list of answers holds at
  every moment of the call.

  * `sendAll` -- one buffer: what was sent is the front of it (`sendAll_front`), all of it once the
    loop is done (`sendAll_done`);
  * `sendSeq` -- several buffers, up to the first failure (`sendSeq_front`, `sendSeq_done`);
  * `taken` -- what was sent, read off the calls (`sendSeq_taken`); a call offers nothing but a part
    of the buffers (`sendSeq_offers`);
  * `failsWithin`, `restAfter` -- whether the answers hold a failure before `n` elements are taken,
    and what is left of them then: the loop seen from its answers alone (`sendAll_fails`,
    `sendAll_rest`); `takesAll`, `takesSome`, `failsSeq` -- the same for its end, for its first
    element and for several buffers (`sendAll_done_iff`, `sendSeq_sent_nil_iff`, `sendSeq_fails`);
  * `Willing` -- answers without a failure: enough of them that take something finish the loop
    (`sendAll_ends`, `sendSeq_ends`).
-/
import Mathlib.Data.List.Basic

namespace Nfp.Lib

/-- How one call of the send function ends: it takes the first `k` elements (all of them if there
    are fewer), or fails. -/
inductive Outcome (ε : Type) where
  | took (k : Nat)
  | failed (e : ε)
  deriving DecidableEq, Repr

/-- The call takes something. -/
def Outcome.accepts {ε : Type} : Outcome ε → Bool
  | .took k => k != 0
  | .failed _ => false

/-- The call fails. -/
def Outcome.fails {ε : Type} : Outcome ε → Bool
  | .took _ => false
  | .failed _ => true

/-- How a loop stands: all sent, given up after a failure, or still under way. -/
inductive Status (ε : Type) where
  | done
  | failed (e : ε)
  | pending
  deriving DecidableEq, Repr

/-- The loop gave up. -/
def Status.isFailed {ε : Type} : Status ε → Bool
  | .failed _ => true
  | _ => false

/-- What a loop did: its calls, with what each offered and how it ended, the elements taken, the
    answers left, and how it stands. -/
structure Sent (β ε : Type) where
  calls : List (List β × Outcome ε)
  sent : List β
  rest : List (Outcome ε)
  status : Status ε
  deriving DecidableEq, Repr

variable {β ε : Type}

/-- A loop that went on from calls made and elements taken before. -/
def Sent.after (calls : List (List β × Outcome ε)) (sent : List β) (r : Sent β ε) : Sent β ε :=
  { r with calls := calls ++ r.calls, sent := sent ++ r.sent }

section After

variable (calls : List (List β × Outcome ε)) (sent : List β) (r : Sent β ε)

@[simp] theorem Sent.after_sent : (r.after calls sent).sent = sent ++ r.sent := rfl

@[simp] theorem Sent.after_rest : (r.after calls sent).rest = r.rest := rfl

@[simp] theorem Sent.after_status : (r.after calls sent).status = r.status := rfl

end After

section Loop

variable (retry : ε → Bool)

/-- **The loop over one buffer.** -/
def sendAll : List (Outcome ε) → List β → Sent β ε
  | os, [] => ⟨[], [], os, .done⟩
  | [], _ :: _ => ⟨[], [], [], .pending⟩
  | .took k :: os, b :: buf =>
      (sendAll os ((b :: buf).drop k)).after [(b :: buf, .took k)] ((b :: buf).take k)
  | .failed e :: os, b :: buf =>
      if retry e then (sendAll os (b :: buf)).after [(b :: buf, .failed e)] []
      else ⟨[(b :: buf, .failed e)], [], os, .failed e⟩

/-- A failure that is not retried comes before `n` elements have been taken. -/
def failsWithin : List (Outcome ε) → Nat → Bool
  | _, 0 => false
  | [], _ + 1 => false
  | .took k :: os, n + 1 => failsWithin os (n + 1 - k)
  | .failed e :: os, n + 1 => if retry e then failsWithin os (n + 1) else true

/-- The answers left once `n` elements have been taken or a failure has ended the loop. -/
def restAfter : List (Outcome ε) → Nat → List (Outcome ε)
  | os, 0 => os
  | [], _ + 1 => []
  | .took k :: os, n + 1 => restAfter os (n + 1 - k)
  | .failed e :: os, n + 1 => if retry e then restAfter os (n + 1) else os

/-- `n` elements are taken before a failure that is not retried. -/
def takesAll : List (Outcome ε) → Nat → Bool
  | _, 0 => true
  | [], _ + 1 => false
  | .took k :: os, n + 1 => takesAll os (n + 1 - k)
  | .failed e :: os, n + 1 => if retry e then takesAll os (n + 1) else false

/-- Something is taken before the first failure that is not retried. -/
def takesSome : List (Outcome ε) → Bool
  | [] => false
  | .took k :: os => k != 0 || takesSome os
  | .failed e :: os => if retry e then takesSome os else false

/-- A failure that is not retried comes before as many elements have been taken as the buffers of
    these lengths hold. -/
def failsSeq : List (Outcome ε) → List Nat → Bool
  | _, [] => false
  | os, n :: ns => failsWithin retry os n || failsSeq (restAfter retry os n) ns

/-- **The loop over several buffers**, up to the first failure. -/
def sendSeq : List (Outcome ε) → List (List β) → Sent β ε
  | os, [] => ⟨[], [], os, .done⟩
  | os, p :: ps =>
      match (sendAll retry os p).status with
      | .done =>
          (sendSeq (sendAll retry os p).rest ps).after (sendAll retry os p).calls
            (sendAll retry os p).sent
      | _ => sendAll retry os p

end Loop

-- the rules for an induction along the loops, which the lemmas below go by
attribute [elab_as_elim] sendAll.induct_unfolding sendSeq.induct_unfolding
  restAfter.induct_unfolding

/-- What the calls took: of each what it offered, as far as it was taken. -/
def taken (calls : List (List β × Outcome ε)) : List β :=
  calls.flatMap fun c =>
    match c.2 with
    | .took k => c.1.take k
    | .failed _ => []

/-- Answers without a failure. -/
def Willing (os : List (Outcome ε)) : Prop := ∀ o ∈ os, o.fails = false

instance (os : List (Outcome ε)) : Decidable (Willing os) :=
  inferInstanceAs (Decidable (∀ _ ∈ _, _))

/-- How many answers take something. -/
def accepting (os : List (Outcome ε)) : Nat := os.countP Outcome.accepts

/-! ## One buffer -/

section One

variable {retry : ε → Bool}

/-- **What was sent is the front of the buffer.** -/
theorem sendAll_front (os : List (Outcome ε)) (buf : List β) :
    (sendAll retry os buf).sent <+: buf := by
  fun_induction sendAll retry os buf with
  | case1 os => exact List.prefix_refl _
  | case2 b buf => exact List.nil_prefix
  | case3 k os b buf ih =>
      have h := (List.prefix_append_right_inj ((b :: buf).take k)).mpr ih
      rw [List.take_append_drop] at h
      exact h
  | case4 e os b buf hr ih => exact ih
  | case5 e os b buf hr => exact List.nil_prefix

/-- **Done means all sent.** -/
theorem sendAll_done (os : List (Outcome ε)) (buf : List β)
    (h : (sendAll retry os buf).status = .done) : (sendAll retry os buf).sent = buf := by
  fun_induction sendAll retry os buf with
  | case1 os => rfl
  | case2 b buf => cases h
  | case3 k os b buf ih => rw [Sent.after_sent, ih h, List.take_append_drop]
  | case4 e os b buf hr ih => exact ih h
  | case5 e os b buf hr => cases h

/-- What was sent is what the calls took. -/
theorem sendAll_taken (os : List (Outcome ε)) (buf : List β) :
    taken (sendAll retry os buf).calls = (sendAll retry os buf).sent := by
  fun_induction sendAll retry os buf with
  | case1 os => rfl
  | case2 b buf => rfl
  | case3 k os b buf ih =>
      show (b :: buf).take k ++ taken (sendAll retry os ((b :: buf).drop k)).calls = _
      rw [ih, Sent.after_sent]
  | case4 e os b buf hr ih => exact ih
  | case5 e os b buf hr => rfl

/-- Every call offers a rest of the buffer. -/
theorem sendAll_offers (os : List (Outcome ε)) (buf : List β) :
    ∀ c ∈ (sendAll retry os buf).calls, c.1 <:+ buf := by
  fun_induction sendAll retry os buf with
  | case1 os => exact fun _ h => absurd h List.not_mem_nil
  | case2 b buf => exact fun _ h => absurd h List.not_mem_nil
  | case3 k os b buf ih =>
      intro c hc
      rcases List.mem_cons.mp hc with rfl | hc
      · exact List.suffix_refl _
      · exact (ih c hc).trans (List.drop_suffix k _)
  | case4 e os b buf hr ih =>
      intro c hc
      rcases List.mem_cons.mp hc with rfl | hc
      · exact List.suffix_refl _
      · exact ih c hc
  | case5 e os b buf hr =>
      intro c hc
      obtain rfl := List.mem_singleton.mp hc
      exact List.suffix_refl _

/-- An answer that takes the whole buffer finishes the loop. -/
theorem sendAll_took {buf : List β} {k : Nat} (os : List (Outcome ε)) (hne : buf ≠ [])
    (hk : buf.length ≤ k) :
    sendAll retry (.took k :: os) buf = ⟨[(buf, .took k)], buf, os, .done⟩ := by
  obtain ⟨b, buf, rfl⟩ := List.exists_cons_of_ne_nil hne
  have hend : sendAll retry os ([] : List β) = ⟨[], [], os, .done⟩ := by cases os <;> rfl
  rw [sendAll, List.drop_of_length_le hk, List.take_of_length_le hk, hend]
  simp only [Sent.after, List.append_nil]

/-- A loop that had something to send and is not under way has called. -/
theorem sendAll_calls {os : List (Outcome ε)} {buf : List β} (hne : buf ≠ [])
    (h : (sendAll retry os buf).status ≠ .pending) : (sendAll retry os buf).calls ≠ [] := by
  fun_cases sendAll retry os buf with
  | case1 os => exact absurd rfl hne
  | case2 b buf => exact absurd rfl h
  | case3 k os b buf => exact List.cons_ne_nil _ _
  | case4 e os b buf hr => exact List.cons_ne_nil _ _
  | case5 e os b buf hr => exact List.cons_ne_nil _ _

/-- The answers a loop leaves depend on how much it had to send only. -/
theorem sendAll_rest (os : List (Outcome ε)) (buf : List β) :
    (sendAll retry os buf).rest = restAfter retry os buf.length := by
  fun_induction sendAll retry os buf with
  | case1 os => cases os <;> rfl
  | case2 b buf => rfl
  | case3 k os b buf ih =>
      rw [Sent.after_rest, ih, List.length_drop]
      rfl
  | case4 e os b buf hr ih =>
      simp only [restAfter, List.length_cons, if_pos hr]
      exact ih
  | case5 e os b buf hr => simp only [restAfter, List.length_cons, if_neg hr]

/-- So does whether it gives up. -/
theorem sendAll_fails (os : List (Outcome ε)) (buf : List β) :
    (sendAll retry os buf).status.isFailed = failsWithin retry os buf.length := by
  fun_induction sendAll retry os buf with
  | case1 os => cases os <;> rfl
  | case2 b buf => rfl
  | case3 k os b buf ih =>
      rw [Sent.after_status, ih, List.length_drop]
      rfl
  | case4 e os b buf hr ih =>
      simp only [failsWithin, List.length_cons, if_pos hr]
      exact ih
  | case5 e os b buf hr => simp only [failsWithin, List.length_cons, if_neg hr, Status.isFailed]

/-- And whether it gets to its end. -/
theorem sendAll_done_iff (os : List (Outcome ε)) (buf : List β) :
    (sendAll retry os buf).status = .done ↔ takesAll retry os buf.length = true := by
  fun_induction sendAll retry os buf with
  | case1 os => cases os <;> exact ⟨fun _ => rfl, fun _ => rfl⟩
  | case2 b buf => exact ⟨nofun, nofun⟩
  | case3 k os b buf ih =>
      rw [Sent.after_status, ih, List.length_drop]
      rfl
  | case4 e os b buf hr ih =>
      simp only [takesAll, List.length_cons, if_pos hr]
      exact ih
  | case5 e os b buf hr =>
      simp only [takesAll, List.length_cons, if_neg hr]
      exact ⟨nofun, nofun⟩

/-- A loop still under way has used up its answers. -/
theorem sendAll_pending (os : List (Outcome ε)) (buf : List β)
    (h : (sendAll retry os buf).status = .pending) : (sendAll retry os buf).rest = [] := by
  fun_induction sendAll retry os buf with
  | case1 os => cases h
  | case2 b buf => rfl
  | case3 k os b buf ih => exact ih h
  | case4 e os b buf hr ih => exact ih h
  | case5 e os b buf hr => cases h

theorem takesAll_zero (os : List (Outcome ε)) : takesAll retry os 0 = true := by
  cases os <;> rfl

/-- **How much is sent**: `n` elements of a buffer that has as many, just if the answers take
    them. -/
theorem le_sendAll_sent_iff (os : List (Outcome ε)) {buf : List β} {n : Nat}
    (hn : n ≤ buf.length) :
    n ≤ (sendAll retry os buf).sent.length ↔ takesAll retry os n = true := by
  fun_induction sendAll retry os buf generalizing n with
  | case1 os =>
      obtain rfl : n = 0 := Nat.le_zero.mp hn
      exact iff_of_true (Nat.le_refl 0) (takesAll_zero os)
  | case2 b buf =>
      cases n with
      | zero => exact iff_of_true (Nat.le_refl 0) rfl
      | succ n => exact iff_of_false (Nat.not_succ_le_zero n) Bool.false_ne_true
  | case3 k os b buf ih =>
      cases n with
      | zero => exact iff_of_true (Nat.zero_le _) rfl
      | succ n =>
          have hrest := ih (n := n + 1 - k) (by rw [List.length_drop]; omega)
          rw [takesAll, ← hrest, Sent.after_sent, List.length_append, List.length_take]
          omega
  | case4 e os b buf hr ih =>
      cases n with
      | zero => exact iff_of_true (Nat.zero_le _) rfl
      | succ n =>
          rw [takesAll, if_pos hr]
          exact ih hn
  | case5 e os b buf hr =>
      cases n with
      | zero => exact iff_of_true (Nat.zero_le _) rfl
      | succ n =>
          rw [takesAll, if_neg hr]
          exact iff_of_false (Nat.not_succ_le_zero n) Bool.false_ne_true

/-- A loop with something to send sends something just if something is taken in time. -/
theorem sendAll_sent_nil_iff (os : List (Outcome ε)) {buf : List β} (hne : buf ≠ []) :
    (sendAll retry os buf).sent = [] ↔ takesSome retry os = false := by
  fun_induction sendAll retry os buf with
  | case1 os => exact absurd rfl hne
  | case2 b buf => exact ⟨fun _ => rfl, fun _ => rfl⟩
  | case3 k os b buf ih =>
      rw [Sent.after_sent]
      cases k with
      | zero =>
          rw [List.take_zero, List.nil_append, ih (List.cons_ne_nil _ _)]
          rfl
      | succ k => exact ⟨nofun, nofun⟩
  | case4 e os b buf hr ih =>
      simp only [takesSome, if_pos hr]
      exact ih hne
  | case5 e os b buf hr =>
      simp only [takesSome, if_neg hr]

/-- What is left of the answers was among them. -/
theorem restAfter_subset (os : List (Outcome ε)) (n : Nat) :
    ∀ o ∈ restAfter retry os n, o ∈ os := by
  fun_induction restAfter retry os n with
  | case1 os => exact fun _ h => h
  | case2 n => exact fun _ h => h
  | case3 k os n ih => exact fun o h => List.mem_cons_of_mem _ (ih o h)
  | case4 e os n hr ih => exact fun o h => List.mem_cons_of_mem _ (ih o h)
  | case5 e os n hr => exact fun o h => List.mem_cons_of_mem _ h

theorem Willing.rest {os : List (Outcome ε)} (h : Willing os) (n : Nat) :
    Willing (restAfter retry os n) :=
  fun o ho => h o (restAfter_subset os n o ho)

theorem Willing.tail {o : Outcome ε} {os : List (Outcome ε)} (h : Willing (o :: os)) :
    Willing os :=
  fun o' ho => h o' (List.mem_cons_of_mem _ ho)

theorem not_willing_failed {e : ε} {os : List (Outcome ε)} : ¬ Willing (.failed e :: os) :=
  fun h => Bool.noConfusion (h _ List.mem_cons_self)

/-- Answers without a failure do not end in one. -/
theorem Willing.failsWithin {os : List (Outcome ε)} (h : Willing os) (n : Nat) :
    failsWithin retry os n = false := by
  fun_induction Lib.failsWithin retry os n with
  | case1 os => rfl
  | case2 n => rfl
  | case3 k os n ih => exact ih h.tail
  | case4 e os n hr ih => exact absurd h not_willing_failed
  | case5 e os n hr => exact absurd h not_willing_failed

/-- An answer that takes nothing counts nothing, one that takes something one. -/
theorem accepting_took (k : Nat) (os : List (Outcome ε)) :
    accepting (.took k :: os) = accepting os + if k = 0 then 0 else 1 := by
  unfold accepting
  rw [List.countP_cons]
  by_cases hk : k = 0
  · simp [Outcome.accepts, hk]
  · simp [Outcome.accepts, hk]

/-- **Enough answers that take something finish the loop**, one for each element at most. -/
theorem sendAll_ends {os : List (Outcome ε)} (h : Willing os) (buf : List β)
    (hn : buf.length ≤ accepting os) :
    (sendAll retry os buf).status = .done ∧
      accepting os ≤ accepting (sendAll retry os buf).rest + buf.length := by
  fun_induction sendAll retry os buf with
  | case1 os => exact ⟨rfl, Nat.le_add_right _ _⟩
  | case2 b buf => exact absurd hn (Nat.not_succ_le_zero _)
  | case3 k os b buf ih =>
      have hlen : ((b :: buf).drop k).length = (b :: buf).length - k := List.length_drop
      have hpos : 0 < (b :: buf).length := Nat.succ_pos _
      have hcount := accepting_took k os
      have hle : ((b :: buf).drop k).length ≤ accepting os := by
        split at hcount
        · omega
        · omega
      obtain ⟨hdone, hleft⟩ := ih h.tail hle
      refine ⟨hdone, ?_⟩
      rw [Sent.after_rest]
      split at hcount
      · omega
      · omega
  | case4 e os b buf hr ih => exact absurd h not_willing_failed
  | case5 e os b buf hr => exact absurd h not_willing_failed

end One

/-! ## Several buffers -/

section Several

variable {retry : ε → Bool}

/-- **What was sent is the front of all the buffers.** -/
theorem sendSeq_front (os : List (Outcome ε)) (ps : List (List β)) :
    (sendSeq retry os ps).sent <+: ps.flatten := by
  induction ps generalizing os with
  | nil => exact List.prefix_refl _
  | cons p ps ih =>
      unfold sendSeq
      split
      · rename_i hdone
        rw [Sent.after_sent, sendAll_done os p hdone, List.flatten_cons]
        exact (List.prefix_append_right_inj p).mpr (ih _)
      · rw [List.flatten_cons]
        exact (sendAll_front os p).trans (List.prefix_append p ps.flatten)

/-- **Done means all sent.** -/
theorem sendSeq_done (os : List (Outcome ε)) (ps : List (List β))
    (h : (sendSeq retry os ps).status = .done) : (sendSeq retry os ps).sent = ps.flatten := by
  induction ps generalizing os with
  | nil => rfl
  | cons p ps ih =>
      unfold sendSeq at h ⊢
      split at h
      · rename_i hdone
        show (sendAll retry os p).sent ++ (sendSeq retry (sendAll retry os p).rest ps).sent = _
        rw [sendAll_done os p hdone, ih _ h, List.flatten_cons]
      · rename_i hnot
        exact absurd h hnot

/-- What was sent is what the calls took. -/
theorem sendSeq_taken (os : List (Outcome ε)) (ps : List (List β)) :
    taken (sendSeq retry os ps).calls = (sendSeq retry os ps).sent := by
  induction ps generalizing os with
  | nil => rfl
  | cons p ps ih =>
      unfold sendSeq
      split
      · show taken (_ ++ _) = _ ++ _
        unfold taken
        rw [List.flatMap_append]
        exact congrArg₂ (· ++ ·) (sendAll_taken os p) (ih _)
      · exact sendAll_taken os p

/-- Every call offers a part of the buffers. -/
theorem sendSeq_offers (os : List (Outcome ε)) (ps : List (List β)) :
    ∀ c ∈ (sendSeq retry os ps).calls, c.1 <:+: ps.flatten := by
  induction ps generalizing os with
  | nil => exact fun _ h => absurd h List.not_mem_nil
  | cons p ps ih =>
      have hfirst : ∀ c ∈ (sendAll retry os p).calls, c.1 <:+: (p :: ps).flatten := by
        intro c hc
        rw [List.flatten_cons]
        exact (sendAll_offers os p c hc).isInfix.trans (List.prefix_append p ps.flatten).isInfix
      unfold sendSeq
      split
      · intro c hc
        rcases List.mem_append.mp hc with hc | hc
        · exact hfirst c hc
        · rw [List.flatten_cons]
          exact (ih _ c hc).trans (List.suffix_append p ps.flatten).isInfix
      · exact hfirst

theorem failsSeq_nil (ns : List Nat) : failsSeq retry ([] : List (Outcome ε)) ns = false := by
  induction ns with
  | nil => rfl
  | cons n ns ih =>
      cases n with
      | zero => exact ih
      | succ n => exact ih

/-- Whether the loop gives up depends on the lengths of the buffers only. -/
theorem sendSeq_fails (os : List (Outcome ε)) (ps : List (List β)) :
    (sendSeq retry os ps).status.isFailed = failsSeq retry os (ps.map List.length) := by
  induction ps generalizing os with
  | nil => rfl
  | cons p ps ih =>
      have hp := @sendAll_fails β ε retry os p
      have hrest := @sendAll_rest β ε retry os p
      unfold sendSeq
      rw [List.map_cons, failsSeq, ← hp, ← hrest]
      cases hs : (sendAll retry os p).status with
      | done =>
          rw [Sent.after_status, ih]
          rfl
      | failed e =>
          rw [hs]
          rfl
      | pending =>
          rw [hs, sendAll_pending os p hs, failsSeq_nil]
          rfl

/-- Empty buffers do not make it fail. -/
theorem failsSeq_zero (os : List (Outcome ε)) {ns : List Nat} (h : ∀ n ∈ ns, n = 0) :
    failsSeq retry os ns = false := by
  induction ns with
  | nil => rfl
  | cons n ns ih =>
      have hn : n = 0 := h n List.mem_cons_self
      have hrec := ih fun m hm => h m (List.mem_cons_of_mem _ hm)
      rw [hn]
      cases os with
      | nil => exact hrec
      | cons o os => exact hrec

/-- The loop sends nothing just if there is nothing to send, or nothing is taken in time. -/
theorem sendSeq_sent_nil_iff (os : List (Outcome ε)) (ps : List (List β)) :
    (sendSeq retry os ps).sent = [] ↔ ps.flatten = [] ∨ takesSome retry os = false := by
  induction ps generalizing os with
  | nil => exact ⟨fun _ => Or.inl rfl, fun _ => rfl⟩
  | cons p ps ih =>
      by_cases hp : p = []
      · subst hp
        have hnil : sendAll retry os ([] : List β) = ⟨[], [], os, .done⟩ := by cases os <;> rfl
        have hempty : sendSeq retry os ([] :: ps) = (sendSeq retry os ps).after [] [] := by
          rw [sendSeq, hnil]
        rw [hempty, Sent.after_sent, List.nil_append, ih, List.flatten_cons, List.nil_append]
      · have hflat : (p :: ps).flatten ≠ [] := by
          rw [List.flatten_cons]
          exact fun h => hp (List.append_eq_nil_iff.mp h).1
        have hfirst := @sendAll_sent_nil_iff β ε retry os p hp
        unfold sendSeq
        split
        · rename_i hdone
          -- the first buffer went out whole, so something was taken
          have hsent : (sendAll retry os p).sent ≠ [] := by rw [sendAll_done os p hdone]; exact hp
          rw [Sent.after_sent]
          refine ⟨fun h => absurd (List.append_eq_nil_iff.mp h).1 hsent, fun h => ?_⟩
          rcases h with h | h
          · exact absurd h hflat
          · exact absurd (hfirst.mpr h) hsent
        · rw [hfirst]
          exact ⟨Or.inr, fun h => h.resolve_left hflat⟩

/-- Answers without a failure do not end in one. -/
theorem Willing.sendSeq {os : List (Outcome ε)} (h : Willing os) (ps : List (List β)) :
    (sendSeq retry os ps).status.isFailed = false := by
  induction ps generalizing os with
  | nil => rfl
  | cons p ps ih =>
      unfold Lib.sendSeq
      split
      · rw [Sent.after_status]
        refine ih ?_
        rw [sendAll_rest]
        exact h.rest p.length
      · rw [sendAll_fails]
        exact h.failsWithin p.length

theorem sendSeq_ends {os : List (Outcome ε)} (h : Willing os) (ps : List (List β))
    (hn : ps.flatten.length ≤ accepting os) : (sendSeq retry os ps).status = .done := by
  induction ps generalizing os with
  | nil => rfl
  | cons p ps ih =>
      rw [List.flatten_cons, List.length_append] at hn
      have hends : (sendAll retry os p).status = .done ∧ _ := sendAll_ends h p (by omega)
      obtain ⟨hdone, hleft⟩ := hends
      have hrest : Willing (sendAll retry os p).rest := by
        rw [sendAll_rest]
        exact h.rest p.length
      unfold sendSeq
      rw [hdone]
      exact ih hrest (by omega)

end Several

end Nfp.Lib
