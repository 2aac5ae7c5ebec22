/-
  File:      Nfp/Webserver/Connections.lean
  Subject:   THE CONNECTION TABLE of example/webserver/httpd.c: `connections[]`,
             `accept_connection`, `handle_connection` and `monitor_connections`, which both loops
             of the server (`webserver_select`, `webserver_epoll`) share.

  The table goes with the set of descriptors open in the process: `nfp_accept` answers with one
  that is not in it, `nfp_close` may take one out. A descriptor number is free for reuse as soon
  as it is closed. The answers of `nfp_accept`, `nfp_recv` and `nfp_close` are arguments, and
  `NUM_CONNECTIONS` is any number `N`.

  * `acceptConnection_cases`, `handleConnection_cases` -- everything the two functions can do to
    the table;
  * `Table.WellKept` -- the descriptors of the occupied slots are open and pairwise distinct; both
    functions keep it (`WellKept.fill`, `WellKept.release`);
  * `mem_monitorConnections` -- what `monitor_connections` adds to a descriptor set.
-/
import Mathlib.Data.Finset.Basic
import Mathlib.Data.Fintype.Pi

namespace Nfp.Webserver

/-- `connection_t`: `fd` is -1 in a free slot. -/
structure Connection where
  fd : Int
  addr : UInt32
  deriving DecidableEq, Repr

/-- `connections[]`, and the descriptors that are open. -/
structure Table (N : Nat) where
  conns : Fin N → Connection
  opened : Finset Int

/-- What `nfp_accept` answers: -1, or a new descriptor and the caller's address. -/
inductive Accept where
  | fail
  | conn (fd : Nat) (addr : UInt32)
  deriving DecidableEq, Repr

/-- What `nfp_close` answers: success, `NFP_ECONNRESET`, or another error; after a failure the
    descriptor may be gone or still there. -/
inductive Close where
  | ok
  | reset (gone : Bool)
  | error (gone : Bool)
  deriving DecidableEq, Repr

/-- The descriptor is closed. -/
def Close.gone : Close → Bool
  | .ok => true
  | .reset gone => gone
  | .error gone => gone

/-- What `nfp_recv` answers, with the answers of the `nfp_close` calls that follow: an error, the
    end of the stream (one call, whose result nobody looks at), or data. -/
inductive Recv where
  | error
  | eof (close : Close)
  | data (buf : List UInt8) (closes : List Close)
  deriving DecidableEq, Repr

namespace Table

variable {N : Nat}

/-- All slots free. -/
def allFree (opened : Finset Int) : Table N := ⟨fun _ => ⟨-1, 0⟩, opened⟩

/-- The slot is in use. -/
def Occupied (t : Table N) (i : Fin N) : Prop := (t.conns i).fd ≠ -1

instance (t : Table N) (i : Fin N) : Decidable (t.Occupied i) := inferInstanceAs (Decidable (_ ≠ _))

/-- `nfp_close(fd)`. -/
def close (t : Table N) (fd : Int) (c : Close) : Table N :=
  { t with opened := if c.gone then t.opened.erase fd else t.opened }

/-- `connections[i].fd = -1`. -/
def free (t : Table N) (i : Fin N) : Table N :=
  { t with conns := Function.update t.conns i { t.conns i with fd := -1 } }

/-- A new connection in slot `i`. -/
def fill (t : Table N) (i : Fin N) (fd : Nat) (addr : UInt32) : Table N :=
  ⟨Function.update t.conns i ⟨fd, addr⟩, insert (fd : Int) t.opened⟩

/-- The first free slot. -/
def firstFree (t : Table N) : Option (Fin N) :=
  (List.finRange N).find? fun i => (t.conns i).fd == -1

end Table

section Functions

variable {N : Nat}

/-- What `accept_connection` did: the table after it, its return value, and `*con_id` if set. -/
structure Accepted (N : Nat) where
  table : Table N
  ret : Int
  conId : Option (Fin N)

/-- **`accept_connection`**: with no slot free `nfp_accept` is not called. An answer with a
    descriptor that is open cannot happen. -/
def acceptConnection (t : Table N) (a : Accept) : Option (Accepted N) :=
  match t.firstFree with
  | none => some ⟨t, -1, none⟩
  | some i =>
      match a with
      | .fail => some ⟨t, -1, none⟩
      | .conn fd addr =>
          if (fd : Int) ∈ t.opened then none else some ⟨t.fill i fd addr, fd, some i⟩

/-- `while (nfp_close(fd) < 0)`: again after every error but `NFP_ECONNRESET`. Out of answers, the
    loop never ends. -/
def closeRetry (t : Table N) (fd : Int) : List Close → Option (Table N)
  | [] => none
  | .ok :: _ => some (t.close fd .ok)
  | .reset gone :: _ => some (t.close fd (.reset gone))
  | .error gone :: cs => closeRetry (t.close fd (.error gone)) fd cs

/-- `!strncmp(buf, "GET", 3)`. -/
def isGet (buf : List UInt8) : Bool := buf.take 3 == [71, 69, 84]

/-- What `handle_connection` did: the table after it, its return value, the descriptor it called
    `nfp_recv` on and the buffer it passed to `analyze_http`, if it did. -/
structure Handled (N : Nat) where
  table : Table N
  ret : Int
  received : Option Int
  request : Option (List UInt8)

/-- **`handle_connection`** on slot `i`. -/
def handleConnection (t : Table N) (i : Fin N) (r : Recv) : Option (Handled N) :=
  if (t.conns i).fd = -1 then some ⟨t, -1, none, none⟩
  else
    match r with
    | .error => some ⟨t, -1, some (t.conns i).fd, none⟩
    | .eof c => some ⟨(t.close (t.conns i).fd c).free i, 0, some (t.conns i).fd, none⟩
    | .data buf closes =>
        match closeRetry t (t.conns i).fd closes with
        | none => none
        | some t' =>
            some ⟨t'.free i, 0, some (t.conns i).fd, if isGet buf then some buf else none⟩

/-- **`monitor_connections`**. -/
def monitorConnections (t : Table N) (fdSet : Finset Int) : Finset Int :=
  (List.finRange N).foldl
    (fun set i => if (t.conns i).fd ≠ -1 then insert (t.conns i).fd set else set) fdSet

end Functions

/-! ## What the functions can do -/

section Cases

variable {N : Nat} {t t' : Table N} {i : Fin N}

theorem firstFree_free (h : t.firstFree = some i) : (t.conns i).fd = -1 := by
  have hp := List.find?_some h
  exact beq_iff_eq.mp hp

/-- **All `accept_connection` can do**: nothing, or a fresh descriptor into a free slot. -/
theorem acceptConnection_cases {a : Accept} {o : Accepted N}
    (h : acceptConnection t a = some o) :
    (o.table = t ∧ o.ret = -1 ∧ o.conId = none) ∨
    (∃ i fd addr, a = .conn fd addr ∧ (t.conns i).fd = -1 ∧ (fd : Int) ∉ t.opened ∧
      o.table = t.fill i fd addr ∧ o.ret = fd ∧ o.conId = some i) := by
  unfold acceptConnection at h
  split at h
  · cases h
    exact Or.inl ⟨rfl, rfl, rfl⟩
  · rename_i i hfree
    split at h
    · cases h
      exact Or.inl ⟨rfl, rfl, rfl⟩
    · rename_i fd addr
      split at h
      · cases h
      · rename_i hfd
        cases h
        exact Or.inr ⟨i, fd, addr, rfl, firstFree_free hfree, hfd, rfl, rfl, rfl⟩

/-- `t'` is `t` with, of all open descriptors, at most `fd` closed. -/
structure ClosesOnly (t t' : Table N) (fd : Int) : Prop where
  conns : t'.conns = t.conns
  opened : ∀ d, d ∈ t'.opened → d ∈ t.opened
  kept : ∀ d, d ∈ t.opened → d ≠ fd → d ∈ t'.opened

/-- `t'` is `t` with slot `i` freed and at most its own descriptor closed. -/
structure Released (t t' : Table N) (i : Fin N) : Prop where
  conns : t'.conns = (t.free i).conns
  opened : ∀ d, d ∈ t'.opened → d ∈ t.opened
  kept : ∀ d, d ∈ t.opened → d ≠ (t.conns i).fd → d ∈ t'.opened

theorem ClosesOnly.free (h : ClosesOnly t t' (t.conns i).fd) : Released t (t'.free i) i where
  conns := by simp only [Table.free, h.conns]
  opened := h.opened
  kept := h.kept

/-- Whatever `nfp_close` answers, only the descriptor itself can be closed. -/
theorem close_closesOnly (t : Table N) (fd : Int) (c : Close) :
    ClosesOnly t (t.close fd c) fd where
  conns := rfl
  opened d hd := by
    simp only [Table.close] at hd
    split at hd
    · exact Finset.mem_of_mem_erase hd
    · exact hd
  kept d hd hne := by
    simp only [Table.close]
    split
    · exact Finset.mem_erase.mpr ⟨hne, hd⟩
    · exact hd

theorem closeRetry_closesOnly {fd : Int} {cs : List Close} (h : closeRetry t fd cs = some t') :
    ClosesOnly t t' fd := by
  induction cs generalizing t with
  | nil => cases h
  | cons c cs ih =>
      cases c with
      | ok =>
          cases h
          exact close_closesOnly t fd .ok
      | reset gone =>
          cases h
          exact close_closesOnly t fd (.reset gone)
      | error gone =>
          have h1 := close_closesOnly t fd (.error gone)
          have h2 := ih h
          exact ⟨h2.conns.trans h1.conns, fun d hd => h1.opened d (h2.opened d hd),
            fun d hd hne => h2.kept d (h1.kept d hd hne) hne⟩

/-- **All `handle_connection` can do**: nothing -- when the slot is free, or `nfp_recv` fails -- or
    close the connection and free the slot. -/
theorem handleConnection_cases {r : Recv} {o : Handled N} (h : handleConnection t i r = some o) :
    (o.table = t ∧ (¬ t.Occupied i ∨ r = .error)) ∨
    (t.Occupied i ∧ r ≠ .error ∧ Released t o.table i) := by
  unfold handleConnection at h
  split at h
  · rename_i hfd
    cases h
    exact Or.inl ⟨rfl, Or.inl fun hocc => hocc hfd⟩
  · rename_i hfd
    split at h
    · cases h
      exact Or.inl ⟨rfl, Or.inr rfl⟩
    · cases h
      exact Or.inr ⟨hfd, nofun, (close_closesOnly _ _ _).free⟩
    · split at h
      · cases h
      · rename_i t' hclose
        cases h
        exact Or.inr ⟨hfd, nofun, (closeRetry_closesOnly hclose).free⟩

/-- `nfp_recv` is called on the descriptor of the slot, if at all. -/
theorem handleConnection_received {r : Recv} {o : Handled N} (h : handleConnection t i r = some o) :
    ∀ fd ∈ o.received, fd = (t.conns i).fd := by
  unfold handleConnection at h
  split at h
  · cases h
    exact fun fd hfd => absurd hfd (Option.not_mem_none fd)
  · split at h
    · cases h
      exact fun fd hfd => (Option.some.inj hfd).symm
    · cases h
      exact fun fd hfd => (Option.some.inj hfd).symm
    · split at h
      · cases h
      · cases h
        exact fun fd hfd => (Option.some.inj hfd).symm

theorem mem_monitorConnections {fdSet : Finset Int} {fd : Int} :
    fd ∈ monitorConnections t fdSet ↔ fd ∈ fdSet ∨ ∃ i, t.Occupied i ∧ (t.conns i).fd = fd := by
  have hfold : ∀ (is : List (Fin N)) (set : Finset Int),
      fd ∈ is.foldl
        (fun set i => if (t.conns i).fd ≠ -1 then insert (t.conns i).fd set else set) set
        ↔ fd ∈ set ∨ ∃ i ∈ is, t.Occupied i ∧ (t.conns i).fd = fd := by
    intro is
    induction is with
    | nil => intro set; simp
    | cons i is ih =>
        intro set
        rw [List.foldl_cons, ih]
        by_cases hocc : (t.conns i).fd ≠ -1
        · rw [if_pos hocc, Finset.mem_insert]
          constructor
          · rintro ((rfl | h) | ⟨j, hj, h⟩)
            · exact Or.inr ⟨i, List.mem_cons_self, hocc, rfl⟩
            · exact Or.inl h
            · exact Or.inr ⟨j, List.mem_cons_of_mem _ hj, h⟩
          · rintro (h | ⟨j, hj, h⟩)
            · exact Or.inl (Or.inr h)
            · rcases List.mem_cons.mp hj with rfl | hj
              · exact Or.inl (Or.inl h.2.symm)
              · exact Or.inr ⟨j, hj, h⟩
        · rw [if_neg hocc]
          constructor
          · rintro (h | ⟨j, hj, h⟩)
            · exact Or.inl h
            · exact Or.inr ⟨j, List.mem_cons_of_mem _ hj, h⟩
          · rintro (h | ⟨j, hj, h⟩)
            · exact Or.inl h
            · rcases List.mem_cons.mp hj with rfl | hj
              · exact absurd h.1 hocc
              · exact Or.inr ⟨j, hj, h⟩
  unfold monitorConnections
  rw [hfold]
  simp only [List.mem_finRange, true_and]

end Cases

/-! ## A well-kept table -/

/-- **The table and the open descriptors agree**: no negative descriptor is open, the descriptor of
    an occupied slot is open, and no two slots share one. -/
structure Table.WellKept {N : Nat} (t : Table N) : Prop where
  nonneg : ∀ fd ∈ t.opened, 0 ≤ fd
  live : ∀ i, t.Occupied i → (t.conns i).fd ∈ t.opened
  distinct : ∀ i j, t.Occupied i → (t.conns i).fd = (t.conns j).fd → i = j

namespace Table

variable {N : Nat} {t t' : Table N} {i : Fin N}

theorem allFree_wellKept {opened : Finset Int} (h : ∀ fd ∈ opened, 0 ≤ fd) :
    (allFree opened : Table N).WellKept where
  nonneg := h
  live _ hocc := absurd rfl hocc
  distinct _ _ hocc _ := absurd rfl hocc

@[simp] theorem fill_conns_self (t : Table N) (i : Fin N) (fd : Nat) (addr : UInt32) :
    ((t.fill i fd addr).conns i).fd = fd := by
  simp only [fill, Function.update_self]

theorem fill_conns_ne {j : Fin N} (h : j ≠ i) (fd : Nat) (addr : UInt32) :
    (t.fill i fd addr).conns j = t.conns j := by
  simp only [fill, Function.update_of_ne h]

@[simp] theorem free_conns_self (t : Table N) (i : Fin N) : ((t.free i).conns i).fd = -1 := by
  simp only [free, Function.update_self]

theorem free_conns_ne {j : Fin N} (h : j ≠ i) : (t.free i).conns j = t.conns j := by
  simp only [free, Function.update_of_ne h]

/-- An occupied slot of a well-kept table never holds a descriptor that is not open. -/
theorem WellKept.ne_of_not_open (h : t.WellKept) {fd : Nat} (hfd : (fd : Int) ∉ t.opened)
    (j : Fin N) : (t.conns j).fd ≠ fd := by
  intro e
  by_cases hocc : t.Occupied j
  · exact hfd (e ▸ h.live j hocc)
  · have hm : (t.conns j).fd = -1 := not_not.mp hocc
    omega

/-- A fresh descriptor goes into a slot. -/
theorem WellKept.fill (h : t.WellKept) (i : Fin N) {fd : Nat} (hfd : (fd : Int) ∉ t.opened)
    (addr : UInt32) : (t.fill i fd addr).WellKept where
  nonneg d hd := by
    rcases Finset.mem_insert.mp hd with rfl | hd
    · omega
    · exact h.nonneg d hd
  live j hocc := by
    by_cases hji : j = i
    · subst hji
      rw [fill_conns_self]
      exact Finset.mem_insert_self _ _
    · unfold Occupied at hocc
      rw [fill_conns_ne hji] at hocc ⊢
      exact Finset.mem_insert_of_mem (h.live j hocc)
  distinct j k hocc e := by
    have hfresh := h.ne_of_not_open hfd
    unfold Occupied at hocc
    by_cases hji : j = i
    · by_cases hki : k = i
      · rw [hji, hki]
      · rw [hji, fill_conns_self, fill_conns_ne hki] at e
        exact absurd e.symm (hfresh k)
    · by_cases hki : k = i
      · rw [hki, fill_conns_self, fill_conns_ne hji] at e
        exact absurd e (hfresh j)
      · rw [fill_conns_ne hji] at hocc e
        rw [fill_conns_ne hki] at e
        exact h.distinct j k hocc e

/-- An occupied slot after a release was occupied before, by the same descriptor, and is another
    one. -/
theorem released_occupied (hr : Released t t' i) {j : Fin N} (hocc : t'.Occupied j) :
    j ≠ i ∧ t'.conns j = t.conns j := by
  have hji : j ≠ i := by
    rintro rfl
    unfold Occupied at hocc
    rw [hr.conns, free_conns_self] at hocc
    exact hocc rfl
  exact ⟨hji, by rw [hr.conns, free_conns_ne hji]⟩

theorem WellKept.release (h : t.WellKept) (hr : Released t t' i) : t'.WellKept where
  nonneg d hd := h.nonneg d (hr.opened d hd)
  live j hocc := by
    obtain ⟨hji, e⟩ := released_occupied hr hocc
    unfold Occupied at hocc
    rw [e] at hocc ⊢
    exact hr.kept _ (h.live j hocc) fun hsame => hji (h.distinct j i hocc hsame)
  distinct j k hocc e := by
    obtain ⟨hji, ej⟩ := released_occupied hr hocc
    have hk : t'.Occupied k := by
      unfold Occupied
      rw [← e]
      exact hocc
    obtain ⟨-, ek⟩ := released_occupied hr hk
    unfold Occupied at hocc
    rw [ej] at hocc e
    rw [ek] at e
    exact h.distinct j k hocc e

end Table

end Nfp.Webserver
