/-
  File:      Nfp/Tcpperf/Accounts.lean
  Subject:   DESCRIPTORS AND COUNTERS OF TCPPERF, along every run of its threads (Threads.lean).

  `nfp_socket` and `nfp_accept` give a number that is not open (`Fresh`); nothing else is assumed of
  the answers.

  * `Fds` -- every descriptor opened is closed, dropped, or where `main`, `gbl_args` or the server
    thread has it (`openFds`); **`tcpperf_descriptors`**;
  * `Counts` -- the counters and the update that is under way; **`tcpperf_counts`**.
-/
import Mathlib.Data.List.Induction
import Nfp.Tcpperf.Threads

namespace Nfp.Tcpperf.Threads

open Nfp.Lib Nfp.Tcpperf

/-! ## Descriptors -/

/-- A new descriptor has a number that is not open. -/
def Fresh (s : Perf) : Step → Prop
  | .main a => s.main = .socket → 0 ≤ a.ret →
      a.ret.toNat ∈ acquired s.log → a.ret.toNat ∈ released s.log
  | .app a => s.app = .waitAccept → 0 ≤ a.ret →
      a.ret.toNat ∈ acquired s.log → a.ret.toNat ∈ released s.log
  | _ => True

/-- What `wait_for_client` returns, until it is stored. -/
def AppPc.fd : AppPc → Option Nat
  | .gotClient fd => fd
  | _ => none

/-- The thread is in `wait_for_client`. -/
def AppPc.waits : AppPc → Bool
  | .waitTest | .waitRx | .waitSelect | .waitAccept | .gotClient _ => true
  | _ => false

/-- **The part of the state that descriptors are in.** -/
structure Custody where
  main : MainPc
  app : AppPc
  serverFd : Option Nat
  clientFd : Option Nat
  log : List (Entry Nat)
  dropped : List Nat

def Perf.custody (s : Perf) : Custody :=
  ⟨s.main, s.app, s.gbl.serverFd, s.gbl.clientFd, s.log, s.dropped⟩

/-- **The descriptors that are open**, by who has them. -/
def Custody.openFds (c : Custody) : List Nat :=
  match c.main with
  | .socket | .terminate | .ended => []
  | .parse fd | .bind fd | .listen fd | .closeSetup fd => [fd]
  | .closeServer => c.serverFd.toList
  | _ => c.serverFd.toList ++ c.clientFd.toList ++ c.app.fd.toList

/-- `main` is in `setup_server` or `setup_client`. -/
def MainPc.inSetup : MainPc → Bool
  | .socket | .parse _ | .bind _ | .listen _ | .closeSetup _ => true
  | _ => false

/-- `main` has closed nothing yet. -/
def MainPc.early : MainPc → Bool
  | .closeServer | .terminate | .ended => false
  | _ => true

/-- `main` has created the threads, or is about to, and has not joined them. -/
def MainPc.during : MainPc → Bool
  | .createPktio | .createApp | .statsTest | .statsSleep | .statsExit | .statsRead | .join => true
  | _ => false

/-- **Every descriptor is accounted for.** -/
structure Fds (cfg : Setting) (c : Custody) : Prop where
  nodup : (acquired c.log).Nodup
  account : (acquired c.log).Perm (released c.log ++ c.dropped ++ c.openFds)
  owned : OwnedFrom [] c.log
  early : c.main.early = true → released c.log = [] ∧ c.dropped = []
  blank : c.main.inSetup = true → c.serverFd = none ∧ c.clientFd = none
  waiting : c.app.waits = true → c.clientFd = none
  server : cfg.mode = .server → c.app = .absent → c.clientFd = none
  dropped : c.dropped ≠ [] → cfg.mode = .client ∧ c.app = .absent

theorem start_fds (cfg : Setting) : Fds cfg start.custody where
  nodup := List.nodup_nil
  account := List.Perm.refl _
  owned := trivial
  early _ := ⟨rfl, rfl⟩
  blank _ := ⟨rfl, rfl⟩
  waiting _ := rfl
  server _ _ := rfl
  dropped h := absurd rfl h

section Logs

variable {log : List (Entry Nat)} {fd : Nat}

/-- A descriptor is opened. -/
theorem acquire_log (hnodup : (acquired log).Nodup) (hnone : released log = [])
    (howned : OwnedFrom [] log) (hfresh : fd ∈ acquired log → fd ∈ released log) :
    (acquired (log ++ [.acquire fd])).Nodup ∧ acquired (log ++ [.acquire fd]) = acquired log ++ [fd] ∧
    released (log ++ [.acquire fd]) = [] ∧ OwnedFrom [] (log ++ [.acquire fd]) := by
  have hacq : acquired (log ++ [.acquire fd]) = acquired log ++ [fd] := acquired_append _ _
  have hrel : released (log ++ [.acquire fd]) = [] := by
    rw [released_append, hnone]
    rfl
  have hnot : fd ∉ acquired log := fun hm => by
    have hmem := hfresh hm
    rw [hnone] at hmem
    exact List.not_mem_nil hmem
  refine ⟨?_, hacq, hrel, ownedFrom_append howned trivial⟩
  rw [hacq]
  exact List.nodup_append.mpr ⟨hnodup, List.nodup_singleton fd,
    fun x hx y hy hxy => hnot (List.mem_singleton.mp hy ▸ hxy ▸ hx)⟩

/-- A descriptor that is open is closed. -/
theorem release_log (howned : OwnedFrom [] log) (hmem : fd ∈ acquired log) :
    acquired (log ++ [.release fd]) = acquired log ∧
    released (log ++ [.release fd]) = released log ++ [fd] ∧
    OwnedFrom [] (log ++ [.release fd]) := by
  refine ⟨?_, released_append _ _, ownedFrom_append howned ⟨?_, trivial⟩⟩
  · rw [acquired_append]
    exact List.append_nil _
  · rw [List.nil_append]
    exact hmem

end Logs

section Fds

variable {cfg : Setting} {s s' : Perf} {c : Custody} {l : Step} {a : Answer}

theorem openFds_during (h : c.main.during = true) :
    c.openFds = c.serverFd.toList ++ c.clientFd.toList ++ c.app.fd.toList := by
  cases hm : c.main <;> rw [hm] at h <;> cases h <;> simp only [Custody.openFds, hm]

theorem early_of_during {pc : MainPc} (h : pc.during = true) :
    pc.early = true ∧ pc.inSetup = false := by
  cases pc <;> cases h <;> exact ⟨rfl, rfl⟩

/-! ### The server or client thread -/

/-- The thread goes on with the descriptors where they are. -/
theorem Fds.goOn {pc : AppPc} (hf : Fds cfg c) (hmain : c.main.during = true)
    (hfd : pc.fd = c.app.fd) (hwaits : pc.waits = true → c.app.waits = true) (hne : pc ≠ .absent) :
    Fds cfg { c with app := pc } := by
  have hopen : Custody.openFds { c with app := pc } = c.openFds := by
    rw [openFds_during hmain, openFds_during (c := { c with app := pc }) hmain, hfd]
  have hdrop := (hf.early (early_of_during hmain).1).2
  refine ⟨hf.nodup, ?_, hf.owned, hf.early, hf.blank, fun hw => hf.waiting (hwaits hw),
    fun _ ha => absurd ha hne, fun hd => absurd hdrop hd⟩
  rw [hopen]
  exact hf.account

/-- A connection is accepted; the thread has it. -/
theorem Fds.accept {fd : Nat} (hf : Fds cfg c) (hmain : c.main.during = true)
    (hpc : c.app = .waitAccept) (hfresh : fd ∈ acquired c.log → fd ∈ released c.log) :
    Fds cfg { c with app := .gotClient (some fd), log := c.log ++ [.acquire fd] } := by
  obtain ⟨hearly, hsetup⟩ := early_of_during hmain
  obtain ⟨hnone, hdrop⟩ := hf.early hearly
  have hclient := hf.waiting (by rw [hpc]; rfl)
  obtain ⟨hnodup, hacq, hrel, howned⟩ := acquire_log hf.nodup hnone hf.owned hfresh
  refine ⟨hnodup, ?_, howned, fun _ => ⟨hrel, hdrop⟩, hf.blank, fun _ => hclient,
    fun _ ha => AppPc.noConfusion ha, fun hd => absurd hdrop hd⟩
  have hacc := hf.account
  rw [openFds_during hmain, hnone, hdrop, hclient, hpc] at hacc
  rw [openFds_during (c := { c with app := .gotClient (some fd), log := c.log ++ [.acquire fd] })
    hmain]
  show (acquired (c.log ++ [.acquire fd])).Perm (released (c.log ++ [.acquire fd]) ++ c.dropped ++
    (c.serverFd.toList ++ c.clientFd.toList ++ [fd]))
  rw [hacq, hrel, hdrop, hclient]
  simpa [AppPc.fd] using hacc.append_right [fd]

/-- It is stored in `gbl_args`. -/
theorem Fds.store {fd : Option Nat} (hf : Fds cfg c) (hmain : c.main.during = true)
    (hpc : c.app = .gotClient fd) :
    Fds cfg { c with app := .checkClient, clientFd := fd } := by
  obtain ⟨hearly, hsetup⟩ := early_of_during hmain
  have hclient := hf.waiting (by rw [hpc]; rfl)
  have hdrop := (hf.early hearly).2
  refine ⟨hf.nodup, ?_, hf.owned, hf.early, fun hs => absurd (hs.symm.trans hsetup) (by decide),
    fun hw => absurd hw Bool.false_ne_true, fun _ ha => AppPc.noConfusion ha,
    fun hd => absurd hdrop hd⟩
  have hacc := hf.account
  rw [openFds_during hmain, hclient, hpc] at hacc
  rw [openFds_during (c := { c with app := .checkClient, clientFd := fd }) hmain]
  simpa [AppPc.fd] using hacc

/-! ### `main` -/

/-- `main` goes on with the descriptors where they are. -/
theorem Fds.moveOn {pc : MainPc} (hf : Fds cfg c)
    (hopen : Custody.openFds { c with main := pc } = c.openFds)
    (hearly : pc.early = true → c.main.early = true)
    (hsetup : pc.inSetup = true → c.main.inSetup = true) : Fds cfg { c with main := pc } := by
  refine ⟨hf.nodup, ?_, hf.owned, fun he => hf.early (hearly he), fun hs => hf.blank (hsetup hs),
    hf.waiting, hf.server, hf.dropped⟩
  rw [hopen]
  exact hf.account

/-- The descriptor that `setup_server` or `setup_client` is busy with. -/
def MainPc.setupFd : MainPc → Option Nat
  | .parse fd | .bind fd | .listen fd | .closeSetup fd => some fd
  | _ => none

theorem Fds.setup {pc : MainPc} {fd : Nat} (hf : Fds cfg c) (hmain : c.main.setupFd = some fd)
    (hpc : pc.setupFd = some fd) : Fds cfg { c with main := pc } := by
  have hopen (d : Custody) (hd : d.main.setupFd = some fd) :
      d.openFds = [fd] ∧ d.main.early = true ∧ d.main.inSetup = true := by
    cases hm : d.main <;> rw [hm] at hd <;> cases hd <;> simp only [Custody.openFds, hm] <;>
      exact ⟨trivial, rfl, rfl⟩
  obtain ⟨hold, hearly, hsetup⟩ := hopen c hmain
  exact hf.moveOn ((hopen { c with main := pc } hpc).1.trans hold.symm) (fun _ => hearly)
    (fun _ => hsetup)

theorem Fds.during {pc : MainPc} (hf : Fds cfg c) (hmain : c.main.during = true)
    (hpc : pc.during = true) : Fds cfg { c with main := pc } := by
  refine hf.moveOn ?_ (fun _ => (early_of_during hmain).1)
    (fun hs => absurd (hs.symm.trans (early_of_during hpc).2) (by decide))
  rw [openFds_during hmain, openFds_during (c := { c with main := pc }) hpc]

/-- `nfp_socket`. -/
theorem Fds.socket {fd : Nat} (hf : Fds cfg c) (hmain : c.main = .socket)
    (hfresh : fd ∈ acquired c.log → fd ∈ released c.log) :
    Fds cfg { c with main := .parse fd, log := c.log ++ [.acquire fd] } := by
  obtain ⟨hnone, hdrop⟩ := hf.early (by rw [hmain]; rfl)
  obtain ⟨hnodup, hacq, hrel, howned⟩ := acquire_log hf.nodup hnone hf.owned hfresh
  refine ⟨hnodup, ?_, howned, fun _ => ⟨hrel, hdrop⟩, fun _ => hf.blank (by rw [hmain]; rfl),
    hf.waiting, hf.server, hf.dropped⟩
  have hacc := hf.account
  simp only [Custody.openFds, hmain, hnone, hdrop, List.append_nil] at hacc
  show (acquired (c.log ++ [.acquire fd])).Perm (released (c.log ++ [.acquire fd]) ++ c.dropped ++
    [fd])
  rw [hacq, hrel, hdrop]
  exact hacc.append_right [fd]

/-- `gbl_args->server_fd = fd`. -/
theorem Fds.storeServer {fd : Nat} (hf : Fds cfg c) (hmain : c.main = .listen fd)
    (happ : c.app = .absent) :
    Fds cfg { c with main := .createPktio, serverFd := some fd } := by
  obtain ⟨-, hclient⟩ := hf.blank (by rw [hmain]; rfl)
  refine ⟨hf.nodup, ?_, hf.owned, fun _ => hf.early (by rw [hmain]; rfl),
    fun hs => absurd hs Bool.false_ne_true, hf.waiting, hf.server, hf.dropped⟩
  have hacc := hf.account
  simp only [Custody.openFds, hmain] at hacc
  simpa [Custody.openFds, hclient, happ, AppPc.fd] using hacc

/-- `gbl_args->client_fd = fd` in `setup_client`. -/
theorem Fds.storeClient {fd : Nat} (hf : Fds cfg c) (hmain : c.main = .parse fd)
    (happ : c.app = .absent) (hmode : cfg.mode = .client) :
    Fds cfg { c with main := .createPktio, clientFd := some fd } := by
  obtain ⟨hserver, -⟩ := hf.blank (by rw [hmain]; rfl)
  refine ⟨hf.nodup, ?_, hf.owned, fun _ => hf.early (by rw [hmain]; rfl),
    fun hs => absurd hs Bool.false_ne_true, fun hw => ?_, fun hs _ => ?_, hf.dropped⟩
  · have hacc := hf.account
    simp only [Custody.openFds, hmain] at hacc
    simpa [Custody.openFds, hserver, happ, AppPc.fd] using hacc
  · rw [happ] at hw
    cases hw
  · rw [hmode] at hs
    cases hs

/-- `setup_client` returns without closing it. -/
theorem Fds.drop {fd : Nat} (hf : Fds cfg c) (hmain : c.main = .parse fd)
    (happ : c.app = .absent) (hmode : cfg.mode = .client) :
    Fds cfg { c with main := .terminate, dropped := c.dropped ++ [fd] } := by
  refine ⟨hf.nodup, ?_, hf.owned, fun he => absurd he Bool.false_ne_true,
    fun hs => absurd hs Bool.false_ne_true, hf.waiting, hf.server, fun _ => ⟨hmode, happ⟩⟩
  have hacc := hf.account
  simp only [Custody.openFds, hmain] at hacc
  simpa [Custody.openFds] using hacc

/-- **A descriptor that is open, or none, is closed.** -/
theorem Fds.close {pc : MainPc} (fd : Option Nat) (rest : List Nat) (hf : Fds cfg c)
    (hopen : c.openFds.Perm (fd.toList ++ rest))
    (hrest : Custody.openFds { c with main := pc } = rest)
    (hearly : pc.early = false) (hsetup : pc.inSetup = false) :
    Fds cfg { c with main := pc, log := c.log ++ fd.toList.map .release } := by
  have hacc := hf.account.trans (hopen.append_left _)
  have hopen' : Custody.openFds { c with main := pc, log := c.log ++ fd.toList.map .release } =
      rest := hrest
  have hblank : pc.inSetup = true → c.serverFd = none ∧ c.clientFd = none :=
    fun hs => absurd (hs.symm.trans hsetup) (by decide)
  have hlate : ∀ log : List (Entry Nat), pc.early = true → released log = [] ∧ c.dropped = [] :=
    fun _ he => absurd (he.symm.trans hearly) (by decide)
  cases fd with
  | none =>
      have hlog : c.log ++ (none : Option Nat).toList.map .release = c.log := List.append_nil _
      rw [hlog] at hopen' ⊢
      refine ⟨hf.nodup, ?_, hf.owned, hlate _, hblank, hf.waiting, hf.server, hf.dropped⟩
      rw [hopen']
      exact hacc
  | some fd =>
      have hmem : fd ∈ acquired c.log := hacc.mem_iff.mpr (by simp)
      obtain ⟨hacq, hrel, howned⟩ := release_log hf.owned hmem
      refine ⟨?_, ?_, howned, hlate _, hblank, hf.waiting, hf.server, hf.dropped⟩
      · show (acquired (c.log ++ [.release fd])).Nodup
        rw [hacq]
        exact hf.nodup
      · rw [hopen']
        show (acquired (c.log ++ [.release fd])).Perm (released (c.log ++ [.release fd]) ++
          c.dropped ++ rest)
        rw [hacq, hrel]
        refine hacc.trans ?_
        -- released, dropped, fd, rest against released, fd, dropped, rest
        simp only [List.append_assoc]
        refine List.Perm.append_left _ ?_
        show (c.dropped ++ (fd :: rest)).Perm (fd :: (c.dropped ++ rest))
        exact List.perm_middle

/-- The server or client thread is created. -/
theorem Fds.create (hf : Fds cfg c) (hmain : c.main = .createApp) (happ : c.app = .absent) :
    Fds cfg { c with main := .statsTest, app := AppPc.first cfg } := by
  have hduring : c.main.during = true := by rw [hmain]; rfl
  obtain ⟨hnone, hdrop⟩ := hf.early (early_of_during hduring).1
  have hfd : (AppPc.first cfg).fd = none := by
    unfold AppPc.first
    split
    · rfl
    · split <;> rfl
  have hwaits : (AppPc.first cfg).waits = true → cfg.mode = .server := by
    unfold AppPc.first
    split
    · exact fun _ => ‹_›
    · split <;> exact fun hw => absurd hw Bool.false_ne_true
  refine ⟨hf.nodup, ?_, hf.owned, fun _ => ⟨hnone, hdrop⟩,
    fun hs => absurd hs Bool.false_ne_true, fun hw => hf.server (hwaits hw) happ,
    fun _ ha => absurd ha (ended_ne_done (first_running cfg).2).2.1, fun hd => absurd hdrop hd⟩
  have hacc := hf.account
  rw [openFds_during hduring, happ] at hacc
  rw [openFds_during (c := { c with main := .statsTest, app := AppPc.first cfg }) rfl]
  show (acquired c.log).Perm (released c.log ++ c.dropped ++
    (c.serverFd.toList ++ c.clientFd.toList ++ (AppPc.first cfg).fd.toList))
  rw [hfd]
  exact hacc

/-! ### All steps -/

/-- The effects that open, close, store and drop no descriptor. -/
def Effect.keepsFds : Effect → Bool
  | .storeServer _ | .storeClient _ | .book _ | .drop _ => false
  | _ => true

theorem custody_keeps {e : Effect} (h : e.keepsFds = true) (hquiet : e.quiet = true) (s : Perf) :
    (s.apply e).custody = s.custody := by
  cases e <;> cases h <;> cases hquiet <;> rfl

theorem pktioStep_keepsFds {g : Gbl} {pc pc' : PktioPc} {e : Effect}
    (h : pktioStep g pc a = some (pc', e)) : e.keepsFds = true := by
  cases pc <;> simp only [pktioStep] at h <;> (repeat' split at h) <;> cases h <;> rfl

/-- **What the server or client thread does with descriptors**: it accepts one, stores it, or does
    nothing with them. -/
theorem appStep_fds {g : Gbl} {pc pc' : AppPc} {e : Effect}
    (h : appStep cfg g pc a = some (pc', e)) :
    (pc = .waitAccept ∧ 0 ≤ a.ret ∧ pc' = .gotClient (some a.ret.toNat) ∧
      e = .book (.acquire a.ret.toNat)) ∨
    (∃ fd, pc = .gotClient fd ∧ pc' = .checkClient ∧ e = .storeClient fd) ∨
    (e.keepsFds = true ∧ pc'.fd = pc.fd ∧ (pc'.waits = true → pc.waits = true)) := by
  cases pc <;> simp only [appStep] at h <;> (repeat' split at h) <;> cases h <;>
    simp_all [AppPc.fd, AppPc.waits, Effect.keepsFds]

/-- The thread runs, so `main` has created it and has not joined it. -/
theorem during_of_running (hc : Control cfg s) (hrun : s.app.ended = false) :
    s.main.during = true := by
  have hcr : s.main.creating ≠ true := fun hcr => by
    rw [hc.app hcr] at hrun
    cases hrun
  have hpast : s.main.past ≠ true := fun hp => by
    rw [(hc.joined hp).1] at hrun
    cases hrun
  cases hm : s.main <;> rw [hm] at hcr hpast <;> first
    | rfl
    | exact absurd rfl hcr
    | exact absurd rfl hpast

theorem fds_app {pc : AppPc} {e : Effect} (hc : Control cfg s) (hf : Fds cfg s.custody)
    (hfresh : Fresh s (.app a)) (h : appStep cfg s.gbl s.app a = some (pc, e)) :
    Fds cfg { s.apply e with app := pc }.custody := by
  have hmain := during_of_running hc (appStep_move h).running
  obtain ⟨hpc, hret, rfl, rfl⟩ | ⟨fd, hpc, rfl, rfl⟩ | ⟨hkeeps, hfd, hwaits⟩ := appStep_fds h
  · exact hf.accept hmain hpc (hfresh hpc hret)
  · exact hf.store hmain hpc
  · have hsame : { s.apply e with app := pc }.custody = { s.custody with app := pc } :=
      congrArg (fun c : Custody => { c with app := pc }) (custody_keeps hkeeps (appStep_quiet h) s)
    rw [hsame]
    exact hf.goOn hmain hfd hwaits (appStep_move h).present

theorem fds_pktio {pc : PktioPc} {e : Effect} (hf : Fds cfg s.custody)
    (h : pktioStep s.gbl s.pktio a = some (pc, e)) :
    Fds cfg { s.apply e with pktio := pc }.custody := by
  have hsame : { s.apply e with pktio := pc }.custody = s.custody :=
    custody_keeps (pktioStep_keepsFds h) (pktioStep_quiet h) s
  rw [hsame]
  exact hf

theorem fd_of_ended {pc : AppPc} (h : pc.ended = true) : pc.fd = none := by
  cases pc <;> first | rfl | cases h

theorem custody_closing (s : Perf) (pc : MainPc) (fd : Option Nat) :
    { s.apply (closing fd) with main := pc }.custody =
      { s.custody with main := pc, log := s.log ++ fd.toList.map .release } := by
  cases fd with
  | none => simp [closing, Perf.apply, Perf.custody]
  | some fd => rfl

/-- **Every step of `main`**, place by place. -/
theorem fds_main {pc : MainPc} {e : Effect} (hc : Control cfg s) (hf : Fds cfg s.custody)
    (hfresh : Fresh s (.main a)) (h : mainStep cfg s a = some (pc, e)) :
    Fds cfg { s.apply e with main := pc }.custody := by
  have hmain : s.custody.main = s.main := rfl
  cases hm : s.main <;> rw [hm] at hmain <;> simp only [mainStep, hm] at h
  case socket =>
      split at h <;> cases h
      · exact hf.moveOn (by simp only [Custody.openFds, hmain])
          (fun he => absurd he Bool.false_ne_true) (fun hs => absurd hs Bool.false_ne_true)
      · exact hf.socket hm (hfresh hm (by omega))
  case parse fd =>
      have happ : s.app = .absent := hc.app (by rw [hm]; rfl)
      split at h
      · split at h <;> cases h <;> exact hf.setup (by rw [hmain]; rfl) rfl
      · split at h <;> cases h
        · exact hf.drop hm happ ‹_›
        · exact hf.storeClient hm happ ‹_›
  case bind fd => split at h <;> cases h <;> exact hf.setup (by rw [hmain]; rfl) rfl
  case listen fd =>
      split at h <;> cases h
      · exact hf.setup (by rw [hmain]; rfl) rfl
      · exact hf.storeServer hm (hc.app (by rw [hm]; rfl))
  case closeSetup fd =>
      cases h
      exact hf.close (some fd) [] (by simp [Custody.openFds, hmain]) rfl rfl rfl
  case createPktio =>
      cases h
      split <;> exact hf.during (by rw [hmain]; rfl) rfl
  case createApp =>
      cases h
      split
      · exact hf.create hm (hc.app (by rw [hm]; rfl))
      · exact hf.during (by rw [hmain]; rfl) rfl
  case statsTest => split at h <;> cases h <;> exact hf.during (by rw [hmain]; rfl) rfl
  case statsSleep => split at h <;> cases h <;> exact hf.during (by rw [hmain]; rfl) rfl
  case statsExit => split at h <;> cases h <;> exact hf.during (by rw [hmain]; rfl) rfl
  case statsRead =>
      cases h
      exact hf.during (by rw [hmain]; rfl) rfl
  case join =>
      split at h <;> cases h
      exact hf.moveOn (by simp only [Custody.openFds, hmain]) (fun _ => by rw [hmain]; rfl)
        (fun hs => absurd hs Bool.false_ne_true)
  case closeClient =>
      cases h
      have hfd : s.app.fd = none := fd_of_ended (hc.joined (by rw [hm]; rfl)).1
      have hopen : s.custody.openFds = s.gbl.serverFd.toList ++ s.gbl.clientFd.toList := by
        simp only [Custody.openFds, hmain]
        show _ ++ s.app.fd.toList = _
        rw [hfd]
        exact List.append_nil _
      rw [custody_closing]
      refine hf.close s.gbl.clientFd s.gbl.serverFd.toList ?_ rfl rfl rfl
      rw [hopen]
      exact List.perm_append_comm
  case closeServer =>
      cases h
      rw [custody_closing]
      refine hf.close s.gbl.serverFd [] ?_ rfl rfl rfl
      simp only [Custody.openFds, hmain, List.append_nil]
      exact List.Perm.refl _
  case terminate =>
      cases h
      exact hf.moveOn (by simp only [Custody.openFds, hmain])
        (fun he => absurd he Bool.false_ne_true) (fun hs => absurd hs Bool.false_ne_true)
  case ended => cases h

theorem fds_next (hc : Control cfg s) (hf : Fds cfg s.custody) (hfresh : Fresh s l)
    (h : next cfg s l = some s') : Fds cfg s'.custody := by
  obtain ⟨a, pc, e, rfl, hstep, rfl⟩ | ⟨a, pc, e, rfl, hstep, rfl⟩ | ⟨a, pc, e, rfl, hstep, rfl⟩ |
    ⟨-, rfl⟩ := next_cases h
  · exact fds_main hc hf hfresh hstep
  · exact fds_app hc hf hfresh hstep
  · exact fds_pktio hf hstep
  · exact hf

/-! ### A descriptor dropped -/

/-- **Where a descriptor has been dropped** no thread receives packets, and none will: `main` is
    past everything but `nfp_terminate`. -/
def Forsaken (s : Perf) : Prop :=
  s.dropped ≠ [] → s.pktio = .absent ∧ (s.main = .terminate ∨ s.main = .ended)

theorem apply_dropped {e : Effect} (h : ∀ fd, e ≠ .drop fd) (s : Perf) :
    (s.apply e).dropped = s.dropped := by
  cases e with
  | drop fd => exact absurd rfl (h fd)
  | _ => rfl

theorem mainStep_drop {pc : MainPc} {fd : Nat} (h : mainStep cfg s a = some (pc, .drop fd)) :
    s.main = .parse fd ∧ pc = .terminate := by
  cases hmain : s.main with
  | parse fd' =>
      simp only [mainStep, hmain] at h
      (repeat' split at h) <;> cases h
      exact ⟨rfl, rfl⟩
  | closeClient =>
      simp only [mainStep, hmain] at h
      cases hfd : s.gbl.clientFd <;> rw [hfd] at h <;> cases h
  | closeServer =>
      simp only [mainStep, hmain] at h
      cases hfd : s.gbl.serverFd <;> rw [hfd] at h <;> cases h
  | _ =>
      simp only [mainStep, hmain] at h
      (repeat' split at h) <;> cases h

theorem appStep_drop {g : Gbl} {pc pc' : AppPc} {fd : Nat} :
    appStep cfg g pc a ≠ some (pc', .drop fd) := by
  intro h
  cases pc <;> simp only [appStep] at h <;> (repeat' split at h) <;> cases h

theorem forsaken_next (hc : Control cfg s) (hf : Forsaken s) (h : next cfg s l = some s') :
    Forsaken s' := by
  obtain ⟨a, pc, e, rfl, hstep, rfl⟩ | ⟨a, pc, e, rfl, hstep, rfl⟩ | ⟨a, pc, e, rfl, hstep, rfl⟩ |
    ⟨-, rfl⟩ := next_cases h
  · intro hdropped
    by_cases hold : s.dropped = []
    · -- the step itself drops it, in `setup_client`, before any thread is created
      have hdrop : ∃ fd, e = .drop fd := by
        by_contra hnone
        exact hdropped ((apply_dropped (fun fd he => hnone ⟨fd, he⟩) s).trans hold)
      obtain ⟨fd, rfl⟩ := hdrop
      obtain ⟨hmain, rfl⟩ := mainStep_drop hstep
      exact ⟨hc.pktio (by rw [hmain]; rfl) (by rw [hmain]; exact MainPc.noConfusion), Or.inl rfl⟩
    · obtain ⟨hpktio, hmain | hmain⟩ := hf hold
      · simp only [mainStep, hmain] at hstep
        cases hstep
        exact ⟨hpktio, Or.inr rfl⟩
      · simp only [mainStep, hmain] at hstep
        cases hstep
  · intro hdropped
    have hnone : ∀ fd, e ≠ .drop fd := by
      rintro fd rfl
      exact appStep_drop hstep
    have hsame := apply_dropped hnone s
    obtain ⟨hpktio, hmain⟩ := hf fun hold => hdropped (hsame.trans hold)
    refine ⟨(apply_pktio (appStep_quiet hstep) s).trans hpktio, ?_⟩
    show (s.apply e).main = _ ∨ (s.apply e).main = _
    rw [apply_main]
    exact hmain
  · intro hdropped
    have hnone : ∀ fd, e ≠ .drop fd := by
      rintro fd rfl
      cases pktioStep_keepsFds hstep
    obtain ⟨hpktio, -⟩ := hf fun hold => hdropped ((apply_dropped hnone s).trans hold)
    rw [hpktio] at hstep
    cases hstep
  · exact hf

/-- **The descriptors of tcpperf.** At any time each is closed at most once, and only after it was
    opened; none is closed while a thread runs that may use it; and when `main` returns all of them
    are closed, but for the one that `setup_client` drops, in which case no thread was created. -/
theorem tcpperf_descriptors (cfg : Setting) {s : Perf} (h : Reach (next cfg) Fresh start s) :
    Sound s.log ∧
    (released s.log ≠ [] → s.app.ended = true ∧ s.pktio.ended = true) ∧
    (s.main = .ended → (acquired s.log).Perm (released s.log ++ s.dropped)) ∧
    (s.dropped ≠ [] → cfg.mode = .client ∧ s.app = .absent ∧ s.pktio = .absent) := by
  have hall : Control cfg s ∧ Fds cfg s.custody ∧ Forsaken s :=
    h.inv (I := fun s => Control cfg s ∧ Fds cfg s.custody ∧ Forsaken s)
      ⟨start_control cfg, start_fds cfg, fun hd => absurd rfl hd⟩
      fun s l s' hi hfresh hs => ⟨control_next hi.1 hs, fds_next hi.1 hi.2.1 hfresh hs,
        forsaken_next hi.1 hi.2.2 hs⟩
  obtain ⟨hc, hf, hforsaken⟩ := hall
  have honce : (released s.log).Nodup := by
    have hall := hf.account.nodup hf.nodup
    exact ((List.nodup_append.mp (List.nodup_append.mp hall).1).1)
  refine ⟨⟨honce, hf.owned⟩, fun hrel => hc.joined ?_, fun hend => ?_, fun hd =>
    ⟨(hf.dropped hd).1, (hf.dropped hd).2, (hforsaken hd).1⟩⟩
  · have hlate : s.main.early ≠ true := fun he => hrel (hf.early he).1
    cases hm : s.main <;> rw [hm] at hlate <;> first | rfl | exact absurd rfl hlate
  · have hacc := hf.account
    have hmain : s.custody.main = .ended := hend
    simp only [Custody.openFds, hmain, List.append_nil] at hacc
    exact hacc

end Fds

instance : ∀ (s : Perf) (l : Step), Decidable (Fresh s l)
  | _, .main _ => inferInstanceAs (Decidable (_ → _ → _ → _))
  | _, .app _ => inferInstanceAs (Decidable (_ → _ → _ → _))
  | _, .pktio _ => isTrue trivial
  | _, .sigint => isTrue trivial

/-- A server accepts one client, who leaves. -/
def servedRun : List Step :=
  [.main (ret 3), .main (ret 1), .main (ret 0), .main (ret 0), .main (ret 1), .main (ret 1),
    .app (ret 0), .app (ret 1), .pktio (ret 0), .app (ret 4), .app (ret 0), .app (ret 0),
    .app (ret 0), .app (ret 0), .app (ret 0), .main (ret 0), .app (ret 0), .pktio (ret 2),
    .pktio (ret 0), .pktio (ret 0), .main (ret 0), .main (ret 0), .main (ret 0), .main (ret 0),
    .main (ret 0), .main (ret 0)]

theorem tcpperf_descriptors_served :
    ∃ s, Reach (next ⟨.server, false, false⟩) Fresh start s ∧
      (s.main = .ended ∧ released s.log = [4, 3]) ∧
      (acquired s.log).Perm (released s.log ++ s.dropped) := by
  have hrun : (run (restrict (next ⟨.server, false, false⟩) Fresh) start servedRun).any (fun s =>
      decide (s.main = .ended ∧ released s.log = [4, 3])) = true := by decide
  obtain ⟨s, hs, hp⟩ := Reach.of_run_any hrun
  have hend := of_decide_eq_true hp
  exact ⟨s, hs.of_restrict, hend, (tcpperf_descriptors _ hs.of_restrict).2.2.1 hend.1⟩

/-! ## Counters -/

/-- The bytes of some calls. -/
def bytes (ns : List Nat) : Nat := ns.foldl (· + ·) 0

/-- The bytes and the calls counted in a mode. -/
def Gbl.moved (g : Gbl) : Mode → UInt64 × UInt64
  | .server => (g.recvBytes, g.recvCalls)
  | .client => (g.sendBytes, g.sendCalls)

def Mode.other : Mode → Mode
  | .server => .client
  | .client => .server

/-- What the thread has still to add. -/
def AppPc.pending : AppPc → Nat × Nat
  | .addBytes n => (n, 1)
  | .addCalls => (0, 1)
  | _ => (0, 0)

/-- **The counters**, with the update under way. -/
structure Counts (cfg : Setting) (s : Perf) : Prop where
  bytes : (s.gbl.moved cfg.mode).1 + UInt64.ofNat s.app.pending.1 = UInt64.ofNat (bytes s.transfers)
  calls : (s.gbl.moved cfg.mode).2 + UInt64.ofNat s.app.pending.2 =
    UInt64.ofNat s.transfers.length
  other : s.gbl.moved cfg.mode.other = (0, 0)
  pkts : s.gbl.pkts = s.lens.foldl (fun stats len => updatePktStats len stats) noPackets

section Counts

variable {cfg : Setting} {s s' : Perf} {l : Step} {a : Answer}

/-- The effects that count no call. -/
def Effect.keepsCalls : Effect → Bool
  | .transfer _ | .addRecvBytes _ | .addRecvCalls | .addSendBytes _ | .addSendCalls => false
  | _ => true

theorem apply_keepsCalls {e : Effect} (h : e.keepsCalls = true) (s : Perf) (m : Mode) :
    (s.apply e).gbl.moved m = s.gbl.moved m ∧ (s.apply e).transfers = s.transfers := by
  cases e <;> cases h <;> cases m <;> exact ⟨rfl, rfl⟩

/-- Packets are counted when they are received. -/
theorem apply_pkts (e : Effect)
    (h : s.gbl.pkts = s.lens.foldl (fun stats len => updatePktStats len stats) noPackets) :
    (s.apply e).gbl.pkts =
      (s.apply e).lens.foldl (fun stats len => updatePktStats len stats) noPackets := by
  cases e with
  | rx lens =>
      show lens.foldl _ s.gbl.pkts = (s.lens ++ lens).foldl _ noPackets
      rw [List.foldl_append, ← h]
  | _ => exact h

/-- A step that counts no call. -/
theorem Counts.keeps {e : Effect} {main : MainPc} {app : AppPc} {pktio : PktioPc}
    (hn : Counts cfg s) (he : e.keepsCalls = true) (happ : app.pending = s.app.pending) :
    Counts cfg { s.apply e with main := main, app := app, pktio := pktio } := by
  obtain ⟨hmoved, htransfers⟩ := apply_keepsCalls he s cfg.mode
  refine ⟨?_, ?_, ?_, apply_pkts e hn.pkts⟩
  · show ((s.apply e).gbl.moved cfg.mode).1 + UInt64.ofNat app.pending.1 = _
    rw [hmoved, happ, hn.bytes]
    exact congrArg (fun ns => UInt64.ofNat (Threads.bytes ns)) htransfers.symm
  · show ((s.apply e).gbl.moved cfg.mode).2 + UInt64.ofNat app.pending.2 = _
    rw [hmoved, happ, hn.calls]
    exact congrArg (fun ns : List Nat => UInt64.ofNat ns.length) htransfers.symm
  · exact (apply_keepsCalls he s cfg.mode.other).1.trans hn.other

theorem pktioStep_keepsCalls {g : Gbl} {pc pc' : PktioPc} {e : Effect}
    (h : pktioStep g pc a = some (pc', e)) : e.keepsCalls = true := by
  cases pc <;> simp only [pktioStep] at h <;> (repeat' split at h) <;> cases h <;> rfl

theorem closing_keepsCalls (fd : Option Nat) : (closing fd).keepsCalls = true := by
  cases fd <;> rfl

theorem first_pending (cfg : Setting) : (AppPc.first cfg).pending = (0, 0) := by
  unfold AppPc.first
  split
  · rfl
  · split <;> rfl

/-- `main` counts nothing, and a thread it starts has nothing to add. -/
theorem mainStep_keepsCalls {pc : MainPc} {e : Effect} (hc : Control cfg s)
    (h : mainStep cfg s a = some (pc, e)) :
    e.keepsCalls = true ∧ (s.apply e).app.pending = s.app.pending := by
  by_cases hcreate : s.main = .createApp
  · have happ : s.app = .absent := hc.app (by rw [hcreate]; rfl)
    simp only [mainStep, hcreate, Option.some.injEq, Prod.mk.injEq] at h
    obtain ⟨rfl, rfl⟩ := h
    split
    · refine ⟨rfl, ?_⟩
      rw [happ]
      exact first_pending cfg
    · exact ⟨rfl, rfl⟩
  · cases hm : s.main <;> simp only [mainStep, hm] at h <;> (repeat' split at h) <;> cases h <;>
      first
      | exact ⟨rfl, rfl⟩
      | exact absurd hm hcreate
      | exact ⟨closing_keepsCalls _, by rw [apply_app (closing_quiet _)]⟩

/-- The bytes of a call are added to the counter of the mode. -/
def Effect.ofBytes (n : Nat) : Mode → Effect
  | .server => .addRecvBytes n
  | .client => .addSendBytes n

/-- The call is. -/
def Effect.ofCall : Mode → Effect
  | .server => .addRecvCalls
  | .client => .addSendCalls

/-- **What the server or client thread counts**: a call has succeeded, its bytes are added, it is
    added itself; or nothing. -/
theorem appStep_counts {g : Gbl} {pc pc' : AppPc} {e : Effect}
    (h : appStep cfg g pc a = some (pc', e)) :
    (∃ n, pc.pending = (0, 0) ∧ pc' = .addBytes n ∧ e = .transfer n) ∨
    (∃ n, pc = .addBytes n ∧ pc' = .addCalls ∧ e = Effect.ofBytes n cfg.mode) ∨
    (pc = .addCalls ∧ pc' = .loopTest ∧ e = Effect.ofCall cfg.mode) ∨
    (e.keepsCalls = true ∧ pc'.pending = pc.pending) := by
  cases pc <;> simp only [appStep] at h <;> (repeat' split at h) <;> cases h <;>
    simp_all [AppPc.pending, Effect.keepsCalls, Effect.ofBytes, Effect.ofCall]

theorem bytes_concat (ns : List Nat) (n : Nat) : bytes (ns ++ [n]) = bytes ns + n := by
  simp [bytes]

theorem moved_ofBytes (s : Perf) (n : Nat) (m : Mode) :
    (s.apply (.ofBytes n m)).gbl.moved m = ((s.gbl.moved m).1 + UInt64.ofNat n, (s.gbl.moved m).2) ∧
    (s.apply (.ofBytes n m)).gbl.moved m.other = s.gbl.moved m.other ∧
    (s.apply (.ofBytes n m)).transfers = s.transfers := by
  cases m <;> exact ⟨rfl, rfl, rfl⟩

theorem moved_ofCall (s : Perf) (m : Mode) :
    (s.apply (.ofCall m)).gbl.moved m = ((s.gbl.moved m).1, (s.gbl.moved m).2 + 1) ∧
    (s.apply (.ofCall m)).gbl.moved m.other = s.gbl.moved m.other ∧
    (s.apply (.ofCall m)).transfers = s.transfers := by
  cases m <;> exact ⟨rfl, rfl, rfl⟩

theorem counts_app {pc : AppPc} {e : Effect} (hn : Counts cfg s)
    (h : appStep cfg s.gbl s.app a = some (pc, e)) : Counts cfg { s.apply e with app := pc } := by
  obtain ⟨n, hpc, rfl, rfl⟩ | ⟨n, hpc, rfl, rfl⟩ | ⟨hpc, rfl, rfl⟩ | ⟨hkeeps, hpending⟩ :=
    appStep_counts h
  · have hbytes := hn.bytes
    have hcalls := hn.calls
    rw [hpc] at hbytes hcalls
    refine ⟨?_, ?_, hn.other, hn.pkts⟩
    · show (s.gbl.moved cfg.mode).1 + UInt64.ofNat n = UInt64.ofNat (bytes (s.transfers ++ [n]))
      rw [bytes_concat, UInt64.ofNat_add, ← hbytes]
      simp
    · show (s.gbl.moved cfg.mode).2 + UInt64.ofNat 1 =
        UInt64.ofNat (s.transfers ++ [n]).length
      rw [List.length_append, UInt64.ofNat_add, ← hcalls]
      simp
  · obtain ⟨hmoved, hother, htransfers⟩ := moved_ofBytes s n cfg.mode
    have hbytes := hn.bytes
    have hcalls := hn.calls
    rw [hpc] at hbytes hcalls
    refine ⟨?_, ?_, hother.trans hn.other, apply_pkts _ hn.pkts⟩
    · show ((s.apply _).gbl.moved cfg.mode).1 + UInt64.ofNat 0 = UInt64.ofNat (bytes (s.apply _).transfers)
      rw [hmoved, htransfers, ← hbytes]
      simp [AppPc.pending]
    · show ((s.apply _).gbl.moved cfg.mode).2 + UInt64.ofNat 1 = UInt64.ofNat (s.apply _).transfers.length
      rw [hmoved, htransfers, ← hcalls]
      rfl
  · obtain ⟨hmoved, hother, htransfers⟩ := moved_ofCall s cfg.mode
    have hbytes := hn.bytes
    have hcalls := hn.calls
    rw [hpc] at hbytes hcalls
    refine ⟨?_, ?_, hother.trans hn.other, apply_pkts _ hn.pkts⟩
    · show ((s.apply _).gbl.moved cfg.mode).1 + UInt64.ofNat 0 = UInt64.ofNat (bytes (s.apply _).transfers)
      rw [hmoved, htransfers, ← hbytes]
      rfl
    · show ((s.apply _).gbl.moved cfg.mode).2 + UInt64.ofNat 0 = UInt64.ofNat (s.apply _).transfers.length
      rw [hmoved, htransfers, ← hcalls]
      simp [AppPc.pending]
  · exact hn.keeps hkeeps hpending

theorem counts_next (hc : Control cfg s) (hn : Counts cfg s) (h : next cfg s l = some s') :
    Counts cfg s' := by
  obtain ⟨a, pc, e, -, hstep, rfl⟩ | ⟨a, pc, e, -, hstep, rfl⟩ | ⟨a, pc, e, -, hstep, rfl⟩ |
    ⟨-, rfl⟩ := next_cases h
  · obtain ⟨hkeeps, hpending⟩ := mainStep_keepsCalls hc hstep
    exact hn.keeps hkeeps hpending
  · exact counts_app hn hstep
  · exact hn.keeps (pktioStep_keepsCalls hstep) (by rw [apply_app (pktioStep_quiet hstep)])
  · exact ⟨hn.bytes, hn.calls, hn.other, hn.pkts⟩

theorem start_counts (cfg : Setting) : Counts cfg start := by
  refine ⟨?_, ?_, ?_, rfl⟩
  · cases h : cfg.mode <;> rfl
  · cases h : cfg.mode <;> rfl
  · cases h : cfg.mode <;> rfl

/-- The packets by size, as they are printed. -/
def sorted (lens : List Nat) : PacketCounters where
  total := UInt64.ofNat lens.length
  xs := UInt64.ofNat (lens.countP fun len => len < pktLenXs)
  s := UInt64.ofNat (lens.countP fun len => pktLenXs ≤ len ∧ len < pktLenS)
  m := UInt64.ofNat (lens.countP fun len => pktLenS ≤ len ∧ len < pktLenM)
  l := UInt64.ofNat (lens.countP fun len => pktLenM ≤ len ∧ len < pktLenL)
  xl := UInt64.ofNat (lens.countP fun len => pktLenL ≤ len)

theorem foldl_updatePktStats (lens : List Nat) :
    lens.foldl (fun stats len => updatePktStats len stats) noPackets = sorted lens := by
  induction lens using List.reverseRecOn with
  | nil => rfl
  | append_singleton lens len ih =>
      have hxs : pktLenXs = 128 := rfl
      have hs : pktLenS = 512 := rfl
      have hm : pktLenM = 1024 := rfl
      have hl : pktLenL = 1280 := rfl
      rw [List.foldl_append, ih]
      show updatePktStats len (sorted lens) = sorted (lens ++ [len])
      simp only [updatePktStats, sorted, List.length_append, List.length_singleton,
        List.countP_append, List.countP_singleton, UInt64.ofNat_add, decide_eq_true_eq]
      -- in each case one class takes the packet
      split
      · rw [if_neg (by omega), if_neg (by omega), if_neg (by omega), if_neg (by omega)]
        simp
      · split
        · rw [if_pos (by omega), if_neg (by omega), if_neg (by omega), if_neg (by omega)]
          simp
        · split
          · rw [if_neg (by omega), if_pos (by omega), if_neg (by omega), if_neg (by omega)]
            simp
          · split
            · rw [if_neg (by omega), if_neg (by omega), if_pos (by omega), if_neg (by omega)]
              simp
            · rw [if_neg (by omega), if_neg (by omega), if_neg (by omega), if_pos (by omega)]
              simp

/-- **The counters of tcpperf**: outside the two additions after a call they are the calls that
    succeeded and their bytes, those of the other mode are 0; the packets are sorted by size; and
    only one thread receives packets. -/
theorem tcpperf_counts (cfg : Setting) {s : Perf} (h : Reach (next cfg) anyStep start s) :
    (s.app.pending = (0, 0) → s.gbl.moved cfg.mode =
      (UInt64.ofNat (bytes s.transfers), UInt64.ofNat s.transfers.length)) ∧
    s.gbl.moved cfg.mode.other = (0, 0) ∧
    s.gbl.pkts = sorted s.lens ∧
    ¬ (s.pktio ≠ .absent ∧ s.app.receives = true) := by
  have hboth : Control cfg s ∧ Counts cfg s :=
    h.inv (I := fun s => Control cfg s ∧ Counts cfg s) ⟨start_control cfg, start_counts cfg⟩
      fun s l s' hi _ hs => ⟨control_next hi.1 hs, counts_next hi.1 hi.2 hs⟩
  obtain ⟨hc, hn⟩ := hboth
  refine ⟨fun hp => ?_, hn.other, hn.pkts.trans (foldl_updatePktStats s.lens), ?_⟩
  · have hbytes := hn.bytes
    have hcalls := hn.calls
    rw [hp] at hbytes hcalls
    refine Prod.ext ?_ ?_
    · rw [← hbytes]
      simp
    · rw [← hcalls]
      simp
  · rintro ⟨hpktio, hreceives⟩
    have hsingle := hc.receives hreceives
    rw [hc.single hpktio] at hsingle
    cases hsingle

/-- A client sends twice; in between two packets arrive. -/
def sentRun : List Step :=
  [.main (ret 3), .main (ret 1), .main (ret 1), .main (ret 1), .app (ret 0), .app (ret 0),
    .app (ret 0), .app (ret 100), .pktio (ret 0), .app (ret 0), .pktio ⟨2, false, [60, 1500]⟩,
    .app (ret 0), .app (ret 0), .app (ret 50), .app (ret 0), .app (ret 0)]

theorem tcpperf_counts_sent :
    ∃ s, Reach (next ⟨.client, false, false⟩) anyStep start s ∧
      (s.app.pending = (0, 0) ∧ s.transfers = [100, 50] ∧ s.lens = [60, 1500]) ∧
      s.gbl.moved .client = (150, 2) ∧ s.gbl.pkts = ⟨2, 1, 0, 0, 0, 1⟩ := by
  have hrun : (run (next ⟨.client, false, false⟩) start sentRun).any (fun s =>
      decide (s.app.pending = (0, 0) ∧ s.transfers = [100, 50] ∧ s.lens = [60, 1500])) = true := by
    decide
  obtain ⟨s, hs, hp⟩ := Reach.of_run_any hrun
  have hfacts := of_decide_eq_true hp
  obtain ⟨hmoved, -, hpkts, -⟩ := tcpperf_counts _ hs
  refine ⟨s, hs, hfacts, ?_, ?_⟩
  · rw [hmoved hfacts.1, hfacts.2.1]
    decide
  · rw [hpkts, hfacts.2.2]
    decide

end Counts

end Nfp.Tcpperf.Threads
