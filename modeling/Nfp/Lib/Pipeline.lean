/-
  File:      Nfp/Lib/Pipeline.lean
  Subject:   PRODUCERS, A CHANNEL, A CONSUMER. Nothing here names a program: the items are any
             type; the channel, and how a producer reads its answer, are parameters.

  Any number of producers put items on a channel, one consumer takes them off, counts them and
  frees them, until a flag is cleared. Every step is one access to what the threads share, so a
  run is any interleaving of them.

  * `Pipe`, `Io`, `Pipe.next` -- the threads, the channel, and the step of one of them;
  * `Pipe.Inv` -- each item handed to a producer is in exactly one place or was freed, once; what
    was sent is what was counted, what the consumer holds and what is on the channel, in this
    order if the channel is first in, first out; the counters are those of what was counted;
  * `Pipe.next_inv`, `Pipe.Inv.stopped` -- every step keeps it; and what it says once all threads
    have ended.
-/
import Mathlib.Algebra.Order.Group.Multiset
import Mathlib.Tactic.Abel
import Nfp.Lib.Channel
import Nfp.Lib.Run

namespace Nfp.Lib

/-- A producer between two steps. -/
inductive Producer (ι : Type) where
  | idle
  | holds (batch : List ι)
  | frees (rest : List ι)
  deriving DecidableEq, Repr

/-- The consumer between two steps: before its loop, at the test of the flag, before it receives,
    with items it has received, with an item it has counted, at its end, which it may have come to
    without entering the loop. -/
inductive Consumer (ι : Type) where
  | enter
  | test
  | ready
  | has (batch : List ι)
  | counted (x : ι) (rest : List ι)
  | done (entered : Bool)
  deriving DecidableEq, Repr

/-- What a producer answers for. -/
def Producer.held {ι : Type} : Producer ι → List ι
  | idle => []
  | holds batch => batch
  | frees rest => rest

/-- What the consumer answers for. -/
def Consumer.held {ι : Type} : Consumer ι → List ι
  | has batch => batch
  | counted x rest => x :: rest
  | _ => []

/-- What the consumer has still to count. -/
def Consumer.waiting {ι : Type} : Consumer ι → List ι
  | has batch => batch
  | counted _ rest => rest
  | _ => []

/-- The consumer has come to its loop. -/
def Consumer.entered {ι : Type} : Consumer ι → Bool
  | enter => false
  | done entered => entered
  | _ => true

/-- **The threads and what they share**, with the history of the items. -/
structure Pipe (ι : Type) where
  producers : List (Producer ι)
  channel : List ι
  consumer : Consumer ι
  running : Bool
  total : UInt64
  num : UInt64
  handed : List ι
  sent : List ι
  counted : List ι
  freed : List ι
  deriving Repr

/-- **What is particular to a program**: what of a batch the channel takes and what the producer
    then frees, by the answer of the channel; what the consumer gets from it; how many items it
    asks for; the size of an item. -/
structure Io (ι α κ : Type) where
  split : List ι → α → List ι × List ι
  channel : Channel ι κ
  max : Nat
  size : ι → UInt64

/-- A step: of the producer `w`, of the consumer, or of the thread that clears the flag. -/
inductive PipeStep (ι α κ : Type) where
  | hand (w : Nat) (batch : List ι)
  | send (w : Nat) (answer : α)
  | free (w : Nat)
  | enter (ok : Bool)
  | test
  | recv (answer : Option κ)
  | count
  | release
  | stop
  deriving DecidableEq, Repr

/-- The batches handed out meet `P`, the answers meet `Q`. -/
def PipeStep.Meets {ι α κ : Type} (P : List ι → Prop) (Q : α → Prop) : PipeStep ι α κ → Prop
  | .hand _ b => P b
  | .send _ a => Q a
  | _ => True

instance {ι α κ : Type} {P : List ι → Prop} {Q : α → Prop} [DecidablePred P] [DecidablePred Q] :
    DecidablePred (PipeStep.Meets P Q : PipeStep ι α κ → Prop)
  | .hand _ b => inferInstanceAs (Decidable (P b))
  | .send _ a => inferInstanceAs (Decidable (Q a))
  | .free _ => isTrue trivial
  | .enter _ => isTrue trivial
  | .test => isTrue trivial
  | .recv _ => isTrue trivial
  | .count => isTrue trivial
  | .release => isTrue trivial
  | .stop => isTrue trivial

namespace Pipe

variable {ι α κ : Type}

/-- No thread has begun. -/
def start (workers : Nat) : Pipe ι where
  producers := List.replicate workers .idle
  channel := []
  consumer := .enter
  running := true
  total := 0
  num := 0
  handed := []
  sent := []
  counted := []
  freed := []

/-- A producer with nothing left to free is idle. -/
def afterFree (rest : List ι) : Producer ι :=
  match rest with
  | [] => .idle
  | _ => .frees rest

/-- A consumer with nothing left tests the flag. -/
def afterBatch (rest : List ι) : Consumer ι :=
  match rest with
  | [] => .test
  | _ => .has rest

/-- **One step of one thread**; `none` where the thread is not at it. -/
def next (io : Io ι α κ) (s : Pipe ι) : PipeStep ι α κ → Option (Pipe ι)
  | .hand w batch =>
      match s.producers[w]? with
      | some .idle =>
          some { s with producers := s.producers.set w (.holds batch)
                        handed := s.handed ++ batch }
      | _ => none
  | .send w answer =>
      match s.producers[w]? with
      | some (.holds batch) =>
          some { s with producers := s.producers.set w (afterFree (io.split batch answer).2)
                        channel := s.channel ++ (io.split batch answer).1
                        sent := s.sent ++ (io.split batch answer).1 }
      | _ => none
  | .free w =>
      match s.producers[w]? with
      | some (.frees (x :: rest)) =>
          some { s with producers := s.producers.set w (afterFree rest), freed := s.freed ++ [x] }
      | _ => none
  | .enter ok =>
      match s.consumer with
      | .enter => some { s with consumer := if ok then .test else .done false }
      | _ => none
  | .test =>
      match s.consumer with
      | .test => some { s with consumer := if s.running then .ready else .done true }
      | _ => none
  | .recv answer =>
      match s.consumer, answer with
      | .ready, none => some { s with consumer := .test }
      | .ready, some a =>
          some { s with consumer := afterBatch (io.channel.recv a io.max s.channel).1
                        channel := (io.channel.recv a io.max s.channel).2 }
      | _, _ => none
  | .count =>
      match s.consumer with
      | .has (x :: rest) =>
          some { s with consumer := .counted x rest, counted := s.counted ++ [x]
                        total := s.total + io.size x, num := s.num + 1 }
      | _ => none
  | .release =>
      match s.consumer with
      | .counted x rest =>
          some { s with consumer := afterBatch rest, freed := s.freed ++ [x] }
      | _ => none
  | .stop => some { s with running := false }

/-- The sizes of some items, summed up as the consumer does. -/
def sizes (io : Io ι α κ) (xs : List ι) : UInt64 := xs.foldl (fun t x => t + io.size x) 0

/-- **The invariant.** -/
structure Inv (io : Io ι α κ) (s : Pipe ι) : Prop where
  /-- each item is in one place, or was freed -/
  flow : s.handed.Perm (s.producers.flatMap Producer.held ++ s.channel ++ s.consumer.held ++ s.freed)
  /-- what was sent is counted, waits to be counted or is on the channel -/
  sent : s.sent.Perm (s.counted ++ s.consumer.waiting ++ s.channel)
  order : io.channel.Fifo → s.sent = s.counted ++ s.consumer.waiting ++ s.channel
  total : s.total = sizes io s.counted
  num : s.num = UInt64.ofNat s.counted.length
  /-- the consumer never holds more than it asks for -/
  fits : s.consumer.held.length ≤ io.max
  outside : s.consumer.entered = false → s.counted = []

/-! ## Steps -/

section Steps

variable {io : Io ι α κ} {s s' : Pipe ι}

@[simp] theorem held_afterFree (rest : List ι) : (afterFree rest).held = rest := by
  cases rest <;> rfl

@[simp] theorem held_afterBatch (rest : List ι) : (afterBatch rest).held = rest := by
  cases rest <;> rfl

@[simp] theorem waiting_afterBatch (rest : List ι) : (afterBatch rest).waiting = rest := by
  cases rest <;> rfl

@[simp] theorem entered_afterBatch (rest : List ι) : (afterBatch rest).entered = true := by
  cases rest <;> rfl

theorem sizes_concat (io : Io ι α κ) (xs : List ι) (x : ι) :
    sizes io (xs ++ [x]) = sizes io xs + io.size x := by
  simp [sizes]

/-- The producers before and behind one of them. -/
theorem held_set {ps : List (Producer ι)} {w : Nat} {p : Producer ι} (h : ps[w]? = some p)
    (q : Producer ι) : ∃ front back, ps.flatMap Producer.held = front ++ p.held ++ back ∧
      (ps.set w q).flatMap Producer.held = front ++ q.held ++ back := by
  obtain ⟨hw, hp⟩ := List.getElem?_eq_some_iff.mp h
  refine ⟨(ps.take w).flatMap Producer.held, (ps.drop (w + 1)).flatMap Producer.held, ?_, ?_⟩
  · conv_lhs => rw [← List.take_append_drop w ps, List.drop_eq_getElem_cons hw]
    rw [List.flatMap_append, List.flatMap_cons, hp, List.append_assoc]
  · rw [List.set_eq_take_append_cons_drop, if_pos hw, List.flatMap_append, List.flatMap_cons,
      List.append_assoc]

/-- The flow, as an equation of multisets. -/
theorem Inv.flow_eq (hi : Inv io s) : (s.handed : Multiset ι) =
    ↑(s.producers.flatMap Producer.held) + ↑s.channel + ↑s.consumer.held + ↑s.freed := by
  simpa only [Multiset.coe_add] using Multiset.coe_eq_coe.mpr hi.flow

theorem flow_of_eq (h : (s.handed : Multiset ι) =
    ↑(s.producers.flatMap Producer.held) + ↑s.channel + ↑s.consumer.held + ↑s.freed) :
    s.handed.Perm
      (s.producers.flatMap Producer.held ++ s.channel ++ s.consumer.held ++ s.freed) := by
  refine Multiset.coe_eq_coe.mp ?_
  simpa only [Multiset.coe_add] using h

theorem coe_cons_eq (x : ι) (xs : List ι) : ((x :: xs : List ι) : Multiset ι) = {x} + ↑xs := by
  rw [← Multiset.cons_coe, Multiset.singleton_add]

/-- A producer takes a batch, or the channel takes part of one, or it frees an item: what it held
    and was handed is what it holds, what went on the channel and what was freed. -/
theorem Inv.producer {w : Nat} {p : Producer ι} (q : Producer ι) (sent freed handed : List ι)
    (hi : Inv io s) (hw : s.producers[w]? = some p)
    (hmove : (↑p.held + ↑handed : Multiset ι) = ↑q.held + ↑sent + ↑freed) :
    Inv io { s with producers := s.producers.set w q, channel := s.channel ++ sent
                    sent := s.sent ++ sent, handed := s.handed ++ handed
                    freed := s.freed ++ freed } := by
  obtain ⟨front, back, hold, hnew⟩ := held_set hw q
  have hflow := hi.flow_eq
  rw [hold] at hflow
  refine ⟨flow_of_eq ?_, ?_, fun hfifo => ?_, hi.total, hi.num, hi.fits, hi.outside⟩
  · simp only [hnew, ← Multiset.coe_add] at hflow ⊢
    rw [hflow]
    calc (↑front + ↑p.held + ↑back + ↑s.channel + ↑s.consumer.held + ↑s.freed + ↑handed
          : Multiset ι)
        = ↑front + (↑p.held + ↑handed) + ↑back + ↑s.channel + ↑s.consumer.held + ↑s.freed := by abel
      _ = ↑front + (↑q.held + ↑sent + ↑freed) + ↑back + ↑s.channel + ↑s.consumer.held + ↑s.freed := by
          rw [hmove]
      _ = _ := by abel
  · rw [← List.append_assoc]
    exact hi.sent.append_right sent
  · rw [hi.order hfifo, List.append_assoc]

/-- The consumer takes items off the channel, counts one or frees one. -/
theorem Inv.consumer (c : Consumer ι) (chan counted freed : List ι) (total num : UInt64)
    (hi : Inv io s)
    (hmove : (↑s.channel + ↑s.consumer.held : Multiset ι) = ↑chan + ↑c.held + ↑freed)
    (hsent : (s.consumer.waiting ++ s.channel).Perm (counted ++ c.waiting ++ chan))
    (hline : io.channel.Fifo → s.consumer.waiting ++ s.channel = counted ++ c.waiting ++ chan)
    (htotal : total = sizes io (s.counted ++ counted))
    (hnum : num = UInt64.ofNat (s.counted ++ counted).length)
    (hfits : c.held.length ≤ io.max) (hentered : c.entered = true) :
    Inv io { s with consumer := c, channel := chan, counted := s.counted ++ counted
                    total := total, num := num, freed := s.freed ++ freed } := by
  refine ⟨flow_of_eq ?_, ?_, fun hfifo => ?_, htotal, hnum, hfits,
    fun hout => absurd hentered (by rw [hout]; decide)⟩
  · simp only [← Multiset.coe_add]
    calc (s.handed : Multiset ι)
        = ↑(s.producers.flatMap Producer.held) + (↑s.channel + ↑s.consumer.held) + ↑s.freed := by
          rw [hi.flow_eq]
          abel
      _ = ↑(s.producers.flatMap Producer.held) + (↑chan + ↑c.held + ↑freed) + ↑s.freed := by
          rw [hmove]
      _ = _ := by abel
  · have hmid := hsent.append_left s.counted
    simp only [← List.append_assoc] at hmid ⊢
    exact hi.sent.trans hmid
  · rw [hi.order hfifo, List.append_assoc, hline hfifo]
    simp only [List.append_assoc]

/-- The consumer goes on with what it has. -/
theorem Inv.goto (c : Consumer ι) (hi : Inv io s) (hheld : c.held = s.consumer.held)
    (hwait : c.waiting = s.consumer.waiting)
    (hentered : c.entered = false → s.consumer.entered = false) :
    Inv io { s with consumer := c } where
  flow := by rw [hheld]; exact hi.flow
  sent := by rw [hwait]; exact hi.sent
  order := by rw [hwait]; exact hi.order
  total := hi.total
  num := hi.num
  fits := by rw [hheld]; exact hi.fits
  outside h := hi.outside (hentered h)

/-- **Every step keeps the invariant**, if the answer to a producer accounts for its batch. -/
theorem next_inv {l : PipeStep ι α κ}
    (hsplit : ∀ w a b, l = .send w a → s.producers[w]? = some (.holds b) →
      (io.split b a).1 ++ (io.split b a).2 = b)
    (h : next io s l = some s') (hi : Inv io s) : Inv io s' := by
  cases l with
  | hand w batch =>
      simp only [next] at h
      split at h
      · rename_i hw
        cases h
        have hnew := hi.producer (.holds batch) [] [] batch hw (by simp [Producer.held])
        simpa only [List.append_nil] using hnew
      · cases h
  | send w answer =>
      simp only [next] at h
      split at h
      · rename_i batch hw
        cases h
        have hb := hsplit w answer batch rfl hw
        have hnew := hi.producer (afterFree (io.split batch answer).2) (io.split batch answer).1 []
          [] hw (by
            rw [held_afterFree]
            show (↑batch + ↑([] : List ι) : Multiset ι) = _
            conv_lhs => rw [← hb, ← Multiset.coe_add]
            abel)
        simpa only [List.append_nil] using hnew
      · cases h
  | free w =>
      simp only [next] at h
      split at h
      · rename_i x rest hw
        cases h
        have hnew := hi.producer (afterFree rest) [] [x] [] hw (by
          rw [held_afterFree]
          show (↑(x :: rest) + ↑([] : List ι) : Multiset ι) = _
          rw [coe_cons_eq, coe_cons_eq]
          abel)
        simpa only [List.append_nil] using hnew
      · cases h
  | enter ok =>
      simp only [next] at h
      split at h
      · rename_i hc
        cases h
        refine hi.goto _ ?_ ?_ fun _ => by rw [hc]; rfl
        · rw [hc]
          cases ok <;> rfl
        · rw [hc]
          cases ok <;> rfl
      · cases h
  | test =>
      simp only [next] at h
      split at h
      · rename_i hc
        cases h
        refine hi.goto _ ?_ ?_ fun hout => ?_
        · rw [hc]
          cases s.running <;> rfl
        · rw [hc]
          cases s.running <;> rfl
        · split at hout <;> cases hout
      · cases h
  | recv answer =>
      simp only [next] at h
      split at h
      · rename_i hc
        cases h
        exact hi.goto _ (by rw [hc]; rfl) (by rw [hc]; rfl) fun hout => by cases hout
      · rename_i a hc
        cases h
        have hkeeps := io.channel.conserves a io.max s.channel
        have hnew := hi.consumer (afterBatch (io.channel.recv a io.max s.channel).1)
          (io.channel.recv a io.max s.channel).2 [] [] s.total s.num
          (by
            rw [hc, held_afterBatch]
            show (↑s.channel + ↑([] : List ι) : Multiset ι) = _
            rw [← Multiset.coe_eq_coe.mpr hkeeps, ← Multiset.coe_add]
            abel)
          (by rw [hc, waiting_afterBatch, List.nil_append]; exact hkeeps.symm)
          (fun hfifo => by
            rw [hc, waiting_afterBatch, List.nil_append, hfifo a io.max s.channel]
            rfl)
          (by rw [List.append_nil]; exact hi.total) (by rw [List.append_nil]; exact hi.num)
          (by rw [held_afterBatch]; exact io.channel.le_max a io.max s.channel)
          (entered_afterBatch _)
        simpa only [List.append_nil] using hnew
      · cases h
  | count =>
      simp only [next] at h
      split at h
      · rename_i x rest hc
        cases h
        have hfits := hi.fits
        rw [hc] at hfits
        have hline : s.consumer.waiting ++ s.channel =
            [x] ++ (Consumer.counted x rest).waiting ++ s.channel := by
          rw [hc]
          rfl
        have hnew := hi.consumer (.counted x rest) s.channel [x] [] (s.total + io.size x) (s.num + 1)
          (by rw [hc]; simp [Consumer.held]) (.of_eq hline) (fun _ => hline)
          (by rw [sizes_concat, ← hi.total]) (by rw [hi.num, List.length_append]; simp) hfits rfl
        simpa only [List.append_nil] using hnew
      · cases h
  | release =>
      simp only [next] at h
      split at h
      · rename_i x rest hc
        cases h
        have hfits := hi.fits
        rw [hc] at hfits
        have hline : s.consumer.waiting ++ s.channel =
            [] ++ (afterBatch rest).waiting ++ s.channel := by
          rw [hc, waiting_afterBatch]
          rfl
        have hnew := hi.consumer (afterBatch rest) s.channel [] [x] s.total s.num
          (by
            rw [hc, held_afterBatch]
            show (↑s.channel + ↑(x :: rest) : Multiset ι) = _
            rw [coe_cons_eq, coe_cons_eq]
            abel)
          (.of_eq hline) (fun _ => hline)
          (by rw [List.append_nil]; exact hi.total) (by rw [List.append_nil]; exact hi.num)
          (by rw [held_afterBatch]; exact Nat.le_of_succ_le hfits) (entered_afterBatch _)
        simpa only [List.append_nil] using hnew
      · cases h
  | stop =>
      cases h
      exact ⟨hi.flow, hi.sent, hi.order, hi.total, hi.num, hi.fits, hi.outside⟩

theorem start_inv (io : Io ι α κ) (workers : Nat) : Inv io (start workers) := by
  have hidle : (List.replicate workers (Producer.idle : Producer ι)).flatMap Producer.held = [] := by
    induction workers with
    | zero => rfl
    | succ n ih => rw [List.replicate_succ, List.flatMap_cons, ih]; rfl
  refine ⟨?_, .refl _, fun _ => rfl, rfl, rfl, Nat.zero_le _, fun _ => rfl⟩
  show List.Perm [] ((List.replicate workers Producer.idle).flatMap Producer.held ++ [] ++ [] ++ [])
  rw [hidle]
  exact List.Perm.refl _

/-- Every batch that a producer holds meets `P`. -/
def Batches (P : List ι → Prop) (s : Pipe ι) : Prop :=
  ∀ (w : Nat) (b : List ι), s.producers[w]? = some (Producer.holds b) → P b

theorem batches_set {P : List ι → Prop} {ps : List (Producer ι)} {w : Nat} {q : Producer ι}
    (h : ∀ (v : Nat) b, ps[v]? = some (Producer.holds b) → P b)
    (hq : ∀ b, q = Producer.holds b → P b) :
    ∀ (v : Nat) b, (ps.set w q)[v]? = some (Producer.holds b) → P b := by
  intro v b hv
  rw [List.getElem?_set] at hv
  split at hv
  · split at hv
    · exact hq b (Option.some.inj hv)
    · cases hv
  · exact h v b hv

theorem afterFree_ne_holds (rest b : List ι) : afterFree rest ≠ .holds b := by
  intro h
  cases rest <;> cases h

/-- What is handed out meets `P`, so what is held does. -/
theorem next_batches {P : List ι → Prop} {l : PipeStep ι α κ}
    (hl : ∀ w b, l = .hand w b → P b) (h : next io s l = some s') (hb : Batches P s) :
    Batches P s' := by
  have hafter : ∀ (w : Nat) (rest : List ι) (v : Nat) b,
      (s.producers.set w (afterFree rest))[v]? = some (Producer.holds b) → P b := fun w rest =>
    batches_set hb fun b e => absurd e (afterFree_ne_holds rest b)
  cases l with
  | hand w batch =>
      simp only [next] at h
      split at h
      · cases h
        refine batches_set hb fun b e => ?_
        cases e
        exact hl w batch rfl
      · cases h
  | send w answer =>
      simp only [next] at h
      split at h
      · cases h
        exact hafter w _
      · cases h
  | free w =>
      simp only [next] at h
      split at h
      · cases h
        exact hafter w _
      · cases h
  | enter ok =>
      simp only [next] at h
      split at h
      · cases h
        exact hb
      · cases h
  | test =>
      simp only [next] at h
      split at h
      · cases h
        exact hb
      · cases h
  | recv answer =>
      simp only [next] at h
      split at h
      · cases h
        exact hb
      · cases h
        exact hb
      · cases h
  | count =>
      simp only [next] at h
      split at h
      · cases h
        exact hb
      · cases h
  | release =>
      simp only [next] at h
      split at h
      · cases h
        exact hb
      · cases h
  | stop =>
      cases h
      exact hb

/-- **Runs**: where the answers account for the batches, the invariant holds throughout. -/
theorem inv_of_reach {P : List ι → Prop} {Q : α → Prop} {workers : Nat}
    (hio : ∀ b a, P b → Q a → (io.split b a).1 ++ (io.split b a).2 = b)
    (h : Reach (next io) (fun _ l => l.Meets P Q) (start workers) s) : Inv io s := by
  have hboth : Inv io s ∧ Batches P s := by
    refine h.inv (I := fun s => Inv io s ∧ Batches P s) ⟨start_inv io workers, fun w b hw => ?_⟩
      fun s l s' hi hok hs => ⟨?_, ?_⟩
    · rw [start, List.getElem?_replicate] at hw
      split at hw <;> cases hw
    · refine next_inv (fun w a b hl hw => hio b a (hi.2 w b hw) ?_) hs hi.1
      subst hl
      exact hok
    · refine next_batches (fun w b hl => ?_) hs hi.2
      subst hl
      exact hok
  exact hboth.1

/-- All threads have come to their end. -/
def Stopped (s : Pipe ι) : Prop :=
  (∀ p ∈ s.producers, p = .idle) ∧ ∃ entered, s.consumer = .done entered

/-- **When all have ended** each item was freed or is left on the channel. -/
theorem Inv.stopped (hi : Inv io s) (h : s.Stopped) :
    s.handed.Perm (s.channel ++ s.freed) ∧ s.sent.Perm (s.counted ++ s.channel) ∧
      (io.channel.Fifo → s.sent = s.counted ++ s.channel) := by
  obtain ⟨hidle, entered, hdone⟩ := h
  have hheld : s.producers.flatMap Producer.held = [] := by
    refine List.flatMap_eq_nil_iff.mpr fun p hp => ?_
    rw [hidle p hp]
    rfl
  have hflow := hi.flow
  have hsent := hi.sent
  have horder := hi.order
  rw [hheld, hdone] at hflow
  rw [hdone] at hsent horder
  refine ⟨?_, ?_, fun hfifo => ?_⟩
  · simpa [Consumer.held] using hflow
  · simpa [Consumer.waiting] using hsent
  · simpa [Consumer.waiting] using horder hfifo

end Steps

end Pipe

end Nfp.Lib
