/-
  File:      Nfp/Common/Ownership.lean
  Subject:   WHAT THE PARSER OF THE OPTION `-i` OWNS when it ends: `nfpexpl_parse_interfaces` on every
             text, of any number of fields, and for every pattern of answers of `calloc` and `strdup`.

  While the parser works it frees nothing (`keeps_parseLoop` at `HandedOut`), so the ledger is known
  from the number of blocks; what is freed at the end is known from InMemory.lean and Parser.lean.

  * `parseLoop_ends` -- the second loop with an array that may be too short: a count that has wrapped
    round. It fails at a field before the end of the array, or writes behind it;
  * `parse_outcome` -- the five ends of the parser, with the blocks that are left;
  * `parser_survives_iff` -- it survives the refusals just if it is not `calloc` that is refused: then
    the cleanup, which goes by `if_count`, reads the first entry through `NULL`.
-/
import Nfp.Common.Parser

namespace Nfp.Common.InMemory

open Nfp.Lib

/-! ## What the pieces keep -/

/-- **An invariant that the pieces of the second loop keep**: they write into blocks, ask for blocks
    of a size that memory can have, and note their writes. -/
structure Framed (I : Mem → Prop) : Prop where
  store : ∀ m b v, I m → I { m with toMemory := m.store b v }
  alloc : ∀ m v, I m → I { m with toMemory := (m.alloc true v).2 }
  record : ∀ m writes, I m → I { m with writes := writes }

/-- Since there were `n` blocks, blocks have only been handed out. -/
def HandedOut (n : Nat) (l : List (Entry Nat)) (m : Mem) : Prop := m.toMemory.Handed n l

theorem framed_handedOut (n : Nat) (l : List (Entry Nat)) : Framed (HandedOut n l) where
  store _ b v h := Memory.Handed.store h b v
  alloc _ v h := Memory.Handed.alloc h true v
  record _ _ h := h

section Keeps

variable {I : Mem → Prop}

theorem keeps_buffer (p : Ptr) : Prog.Keeps I (C.buffer p) := by
  refine Prog.keeps_of_eq fun m => ?_
  unfold C.buffer
  split
  · split
    · rfl
    · rfl
  · rfl

theorem keeps_string (p : Ptr) : Prog.Keeps I (C.string p) :=
  (keeps_buffer p).bind fun _ => Prog.keeps_pure _

theorem keeps_entries (i : Int) : Prog.Keeps I (C.entries i) := by
  refine Prog.keeps_of_eq fun m => ?_
  unfold C.entries
  split
  · rfl
  · split
    · split
      · rfl
      · rfl
    · rfl

variable (hI : Framed I)

include hI

theorem keeps_store (b : Nat) (v : Block) : Prog.Keeps I (C.store b v) := fun m h => hI.store m b v h

theorem keeps_strdup (p : Ptr) : Prog.Keeps I (C.strdup p) :=
  (keeps_string p).bind fun _ m h => hI.alloc m _ h

theorem keeps_cutAt (p : Ptr) (d : Char) : Prog.Keeps I (C.cutAt p d) := by
  refine ((keeps_buffer p).bind fun _ => Prog.keeps_pure _).bind fun e => ?_
  cases e with
  | none => exact Prog.keeps_pure _
  | some e =>
      exact ((keeps_buffer e).bind fun _ => keeps_store hI _ _).bind fun _ => Prog.keeps_pure _

theorem keeps_writeEntry (i : Int) (f : IfEntry → IfEntry) : Prog.Keeps I (C.writeEntry i f) := by
  have hrecord : Prog.Keeps I (C.recordWrite i) := fun m h => hI.record m _ h
  exact hrecord.bind fun _ => (keeps_entries i).bind fun _ => keeps_store hI _ _

theorem keeps_dupEntry (i : Int) (p : Ptr) (f : Option Nat → IfEntry → IfEntry) :
    Prog.Keeps I (C.dupEntry i p f) :=
  (keeps_strdup hI p).bind fun _ => (keeps_writeEntry hI i _).bind fun _ => Prog.keeps_pure _

theorem keeps_fillAddress (idx : Int) (tknAddr : Ptr) :
    Prog.Keeps I (fillAddress idx tknAddr) := by
  refine (keeps_cutAt hI tknAddr '/').bind fun mask => ?_
  cases mask with
  | none => exact Prog.keeps_pure _
  | some mask =>
      refine (keeps_dupEntry hI idx tknAddr _).bind fun address => ?_
      cases address with
      | none => exact Prog.keeps_pure _
      | some b =>
          exact (keeps_string mask).bind fun _ =>
            (keeps_writeEntry hI idx _).bind fun _ => Prog.keeps_pure _

theorem keeps_parseField (idx : Int) (tkn : Ptr) : Prog.Keeps I (parseField idx tkn) := by
  refine (keeps_cutAt hI tkn '@').bind fun tknAddr =>
    (keeps_dupEntry hI idx tkn _).bind fun name => ?_
  cases name with
  | none => exact Prog.keeps_pure _
  | some b =>
      cases tknAddr with
      | none => exact Prog.keeps_pure _
      | some tknAddr => exact keeps_fillAddress hI idx tknAddr

/-- **The second loop** keeps it, wherever it ends. -/
theorem keeps_parseLoop (fuel : Nat) (tkn : Option Ptr) (idx : Int) :
    Prog.Keeps I (parseLoop fuel tkn idx) := by
  induction fuel generalizing tkn idx with
  | zero =>
      cases tkn with
      | none => exact Prog.keeps_pure _
      | some tkn => exact Prog.keeps_stop _
  | succ fuel ih =>
      cases tkn with
      | none => exact Prog.keeps_pure _
      | some tkn =>
          refine (keeps_cutAt hI tkn ',').bind fun next =>
            (keeps_parseField hI idx tkn).bind fun ret => ?_
          by_cases hret : ret = exitFailure
          · rw [if_pos hret]
            exact Prog.keeps_pure _
          · rw [if_neg hret]
            exact ih next (intIncr idx)

end Keeps

/-! ## The second loop with an array that is too short -/

section Short

variable {v : View} {off : Nat} {s : List Char}

theorem writeEntry_outside (v : View) (f : IfEntry → IfEntry) :
    (C.writeEntry v.es.length f v.mem).1 = .error (.outside v.es.length) := by
  let w : View := { v with writes := v.writes ++ [((v.es.length : Int), v.count)] }
  have hrecord : C.recordWrite v.es.length v.mem = (.ok (), w.mem) := rfl
  have harray : w.mem.param.ifArray = some w.base.length := rfl
  have hentries : (C.entries v.es.length w.mem).1 = .error (.outside v.es.length) := by
    unfold C.entries
    rw [harray]
    simp only [w.load_array]
    rw [if_neg fun h => Int.lt_irrefl _ h.2]
  unfold C.writeEntry
  rw [Prog.bind_ok hrecord]
  exact Prog.bind_stops hentries _

/-- The name of a field has no entry to go to. -/
theorem parseField_outside (hv : v.Sound) (hs : Holds nul v.buf off s) :
    (parseField v.es.length ⟨v.copy, off⟩ v.mem).1 = .error (.outside v.es.length) := by
  obtain ⟨u, hcut, hu, -, hues, -, hname, -⟩ := cutAt_run hv hs '@'
  unfold parseField C.dupEntry
  rw [Prog.bind_ok hcut, hu.copy, ← hues]
  refine Prog.bind_stops ?_ _
  cases hanswer : u.answers 0 with
  | true =>
      rw [Prog.bind_ok (View.strdup_granted hname hanswer)]
      exact Prog.bind_stops (writeEntry_outside (u.granted _) _) _
  | false =>
      rw [Prog.bind_ok (View.strdup_denied hname hanswer)]
      exact Prog.bind_stops (writeEntry_outside u.denied _) _

/-- **The second loop** with `j` entries for the fields that are left: it succeeds only if there is
    one for each, and otherwise it fails before the entries are used up or writes behind them. -/
theorem parseLoop_ends {n j : Nat} {v : View} {done : List IfEntry} {off : Nat} {rest : List Char}
    (hv : v.Sound) (hes : v.es = done ++ List.replicate j .zero)
    (hj : j ≤ (rest.splitOn ',').length) (hrest : Holds nul v.buf off rest) (hn : rest.length < n)
    (hint : v.count < 0x80000000) :
    (∃ (ret : Nat) (v' : View),
      parseLoop n (some ⟨v.copy, off⟩) done.length v.mem = (.ok ret, v'.mem) ∧
      v'.base = v.base ∧ v'.es.length = v.es.length ∧ v'.Sound ∧ j ≠ 0 ∧
      (ret = exitFailure ∨ ret = exitSuccess)) ∨
    (parseLoop n (some ⟨v.copy, off⟩) done.length v.mem).1 = .error (.outside v.count) := by
  induction n generalizing v done off rest j with
  | zero => omega
  | succ n ih =>
      cases j with
      | zero =>
          -- the array is used up
          right
          have hlength : v.es.length = done.length := by simp [hes]
          obtain ⟨w, hcut, hw, hsound, hwes, -, hfront, -⟩ := cutAt_run hv hrest ','
          rw [hv.count, ← hlength, parseLoop, Prog.bind_ok hcut, hw.copy, ← hwes]
          exact Prog.bind_stops (parseField_outside hsound hfront) _
      | succ j =>
          rw [List.replicate_succ] at hes
          rw [splitOn_eq_cut, List.length_cons] at hj
          have hlt := hv.lt_count hes
          obtain ⟨ret, w, e, hstep, hw, hsound, hwes, hbehind, -⟩ := parseLoop_step n hv hes hrest
          have hlength : w.es.length = v.es.length := by
            have hcount := hw.count
            rw [hsound.count, hv.count] at hcount
            exact Int.ofNat.inj hcount
          rw [hstep]
          by_cases hret : ret = exitFailure
          · rw [if_pos hret]
            exact .inl ⟨ret, w, rfl, hw.base, hlength, hsound, Nat.succ_ne_zero j, .inl hret⟩
          rw [if_neg hret]
          rcases cut_cases ',' rest with ⟨-, hcomma⟩ | ⟨tkn, rest', hsplit, -, hcomma⟩
          · rw [hcomma]
            exact .inl ⟨exitSuccess, w, parseLoop_none _ _ _, hw.base, hlength, hsound,
              Nat.succ_ne_zero j, .inr rfl⟩
          · rw [hcomma] at hj hbehind ⊢
            have hlen : rest.length = tkn.length + (rest'.length + 1) := by
              rw [hsplit, List.length_append, List.length_cons]
            have hidx : intIncr done.length = ((done ++ [e]).length : Nat) := by
              rw [intIncr_of_lt (by omega), List.length_append, List.length_singleton]
            have hdone : w.es = (done ++ [e]) ++ List.replicate j .zero := by
              rw [hwes, List.append_assoc]
              rfl
            have hloop := ih hsound hdone (Nat.le_of_succ_le_succ hj) (hbehind rest' rfl) (by omega)
              (by rw [hw.count]; exact hint)
            rw [hidx, ← hw.count]
            rcases hloop with ⟨ret', v', hrun, hbase, hsame, hsound', -, hret'⟩ | hstop
            · exact .inl ⟨ret', v', hrun, hbase.trans hw.base, hsame.trans hlength, hsound',
                Nat.succ_ne_zero j, hret'⟩
            · exact .inr hstop

end Short

/-! ## The ends of the parser -/

/-- `if_count` when the fields have been counted. -/
def counted (s : List Char) : Int := ((s.splitOn ',').length : Int).bmod 0x100000000

theorem iterate_counted (s : List Char) : intIncr^[(s.splitOn ',').length] 0 = counted s := by
  unfold counted
  exact intIncr_iterate _

theorem counted_bounds (s : List Char) :
    -0x80000000 ≤ counted s ∧ counted s < 0x80000000 ∧ counted s ≤ (s.splitOn ',').length := by
  have hbmod := bmod_count (s.splitOn ',').length
  unfold counted
  rw [hbmod]
  split
  · omega
  · omega

/-- What is reached through a pointer to the block `arr`, by what lies there. -/
def reachedAt (count arr : Nat) : Option Block → List Nat
  | some (.ifs es) => owned (es.take count) ++ [arr]
  | _ => []

/-- **The blocks reachable from the structure**: the array, and the names and addresses of its first
    `if_count` entries. Through a pointer to a block that was freed nothing is reached. -/
def Mem.reachable (m : Mem) : List Nat :=
  match m.param.ifArray with
  | none => []
  | some arr => reachedAt m.param.ifCount.toNat arr (m.load arr)

/-- The structure has no entries, and nothing is reached from it. -/
structure Mem.Bare (m : Mem) : Prop where
  count : m.param.ifCount = 0
  reachable_eq : m.reachable = []

/-- The structure has the entries `es`, which can be cleaned up. -/
structure Mem.Filled (m : Mem) (arr : Nat) (es : List IfEntry) : Prop where
  param : m.param = ⟨es.length, some arr⟩
  array : m.load arr = some (.ifs es)
  live : m.Live (owned es ++ [arr])

section Reachable

variable {m : Mem} {arr : Nat} {es : List IfEntry}

/-- The pointer is `NULL`, or to a block that was freed. -/
theorem Mem.bare_of_load (hcount : m.param.ifCount = 0)
    (harray : m.param.ifArray.bind m.load = none) : m.Bare := by
  refine ⟨hcount, ?_⟩
  unfold Mem.reachable
  cases hptr : m.param.ifArray with
  | none => rfl
  | some arr =>
      rw [hptr, Option.bind_some] at harray
      simp only [harray, reachedAt]

theorem Mem.Filled.reachable_eq (h : m.Filled arr es) : m.reachable = owned es ++ [arr] := by
  unfold Mem.reachable
  rw [h.param]
  simp only [h.array, reachedAt, Int.toNat_natCast, List.take_length]

end Reachable

/-- **Which refusals the parser survives**: with a count that is positive, that of a `strdup`, and
    not that of the array. A number of fields from 2^31 on may be counted as a negative one, which no
    `calloc` is granted, or as zero, and then the array of no entries is never freed. -/
def Survivable (m : Mem) (s : List Char) : Prop :=
  counted s < 0 ∨ (0 < counted s ∧ m.answers 0 = true) ∨
    (counted s = 0 ∧ (m.answers 0 = true → m.answers 1 = true))

/-- **The ends of the parser**, and what it leaves of the blocks it was given. -/
inductive Outcome (m : Mem) (s : List Char) : Except Fault Nat × Mem → Prop where
  /-- the array was refused, and its first entry is read -/
  | nullRead (m' : Mem) (hbalance : m.Balance m'.toMemory []) (hnot : ¬ Survivable m s) :
      Outcome m s (.error (.nullArray 0), m')
  /-- a write behind an array that is too short -/
  | overrun (m' : Mem) (hhanded : HandedOut m.blocks.length m.ledger m') (hwhen : Survivable m s) :
      Outcome m s (.error (.outside (counted s)), m')
  | failed (m' : Mem) (hbalance : m.Balance m'.toMemory []) (hbare : m'.Bare)
      (hwhen : Survivable m s) : Outcome m s (.ok exitFailure, m')
  /-- the copy was refused, with an array of no entries -/
  | kept (m' : Mem) (arr : Nat) (hbalance : m.Balance m'.toMemory [arr]) (hfilled : m'.Filled arr [])
      (hnot : ¬ Survivable m s) : Outcome m s (.ok exitFailure, m')
  | parsed (m' : Mem) (arr : Nat) (es : List IfEntry)
      (hbalance : m.Balance m'.toMemory (owned es ++ [arr])) (hfilled : m'.Filled arr es)
      (hne : es ≠ []) (hwhen : Survivable m s) : Outcome m s (.ok exitSuccess, m')

section Ends

variable {m : Mem} {argv : Ptr} {s : List Char} {k : Nat}

/-- Nothing was handed out. -/
theorem balance_same {m' : Mem} (hblocks : m'.blocks = m.blocks) (hledger : m'.ledger = m.ledger) :
    m.Balance m'.toMemory [] := by
  refine ⟨by rw [hblocks], fun b _ => by rw [Memory.load, Memory.load, hblocks], [], ?_⟩
  simp [hledger, released]

/-- `calloc` is refused. -/
theorem noArray_outcome {c : Int} (argv : Ptr) (n : Nat) (hc : counted s = c)
    (hno : (callocFits c && m.answers 0) = false) :
    Outcome m s ((getInterfaces argv n >>= fun r => finish true r.1 r.2)
      { m with param := ⟨c, none⟩ }) := by
  obtain ⟨hge, hlt, -⟩ := counted_bounds s
  rw [hc] at hge hlt
  have hrefused := @getInterfaces_refused { m with param := ⟨c, none⟩ } argv n hno
  rw [Prog.bind_ok hrefused]
  show Outcome m s ((nfpexplParseInterfacesParamCleanup true >>= fun _ => pure exitFailure) _)
  rcases Int.lt_or_le 0 c with hpos | hle
  · have hanswer : m.answers 0 = false := by
      rwa [(callocFits_iff hge hlt).mpr (Int.le_of_lt hpos), Bool.true_and] at hno
    rw [Prog.bind_error (cleanup_null_pos rfl hpos)]
    refine .nullRead _ (balance_same rfl rfl) ?_
    rintro (hneg | ⟨-, hyes⟩ | ⟨hzero, -⟩)
    · omega
    · exact absurd (hanswer.symm.trans hyes) Bool.false_ne_true
    · omega
  · rw [Prog.bind_ok (cleanup_null_nonpos rfl hle)]
    refine .failed _ (balance_same rfl rfl) (Mem.bare_of_load rfl rfl) ?_
    by_cases hzero : c = 0
    · have hfits := (callocFits_iff hge hlt).mpr (Int.le_of_eq hzero.symm)
      rw [hfits, Bool.true_and] at hno
      exact .inr (.inr ⟨hc.trans hzero, fun hyes => absurd (hno.symm.trans hyes) Bool.false_ne_true⟩)
    · exact .inl (by omega)

theorem handed_withoutCopy (m : Mem) (k : Nat) :
    HandedOut m.blocks.length m.ledger (m.withoutCopy k) :=
  ⟨by simp [Mem.withoutCopy, Mem.withArray], by simp [Mem.withoutCopy, Mem.withArray]⟩

theorem balance_withoutCopy (m : Mem) (k : Nat) :
    m.Balance (m.withoutCopy k).toMemory [m.blocks.length] := by
  have hlength : (m.withoutCopy k).blocks.length - m.blocks.length = 1 := by
    simp [Mem.withoutCopy, Mem.withArray]
  have hbalance := Memory.Balance.of_handed (handed_withoutCopy m k) fun b hb =>
    Memory.load_append_of_lt rfl hb
  rw [hlength] at hbalance
  exact hbalance

/-- The copy is refused. -/
theorem finish_noCopy (hk : counted s = k) (hyes : m.answers 0 = true) (hno : m.answers 1 = false) :
    Outcome m s (finish true exitFailure none (m.withoutCopy k)) := by
  show Outcome m s ((nfpexplParseInterfacesParamCleanup true >>= fun _ => pure exitFailure) _)
  by_cases hzero : k = 0
  · subst hzero
    have hfilled : (m.withoutCopy 0).Filled m.blocks.length [] := by
      refine ⟨rfl, m.load_withoutCopy 0, List.nodup_singleton _, fun b hb => ?_⟩
      rw [List.mem_singleton.mp hb, m.load_withoutCopy]
      exact Option.some_ne_none _
    have hclean : nfpexplParseInterfacesParamCleanup true (m.withoutCopy 0) = _ := cleanup_zero rfl
    rw [Prog.bind_ok hclean]
    refine .kept _ _ (balance_withoutCopy m 0) hfilled ?_
    rintro (hneg | ⟨hpos, -⟩ | ⟨-, hboth⟩)
    · omega
    · omega
    · exact absurd (hno.symm.trans (hboth hyes)) Bool.false_ne_true
  · rw [Prog.bind_ok (cleanup_withoutCopy hzero)]
    refine .failed _ ((balance_withoutCopy m k).freeAll (.refl _)) (Mem.bare_of_load rfl ?_)
      (.inr (.inl ⟨by omega, hyes⟩))
    exact Memory.load_freeAll_of_mem _ List.mem_cons_self

/-- The blocks handed out while the copy was cut up: the array, the copy and the texts. -/
theorem View.Sound.balance {v : View} (hv : v.Sound) (hbase : v.base = m.blocks)
    (hhanded : HandedOut m.blocks.length m.ledger v.mem) :
    m.Balance v.mem.toMemory ([v.copy] ++ (InMemory.owned v.es ++ [v.base.length])) := by
  have hlength : v.mem.blocks.length - m.blocks.length = v.texts.length + 1 + 1 := by
    rw [v.length_blocks, View.slot, hbase]
    omega
  have hblocks : v.mem.blocks = m.blocks ++ _ := congrArg (· ++ _) hbase
  have hbalance := Memory.Balance.of_handed hhanded fun b hb => Memory.load_append_of_lt hblocks hb
  rw [hlength, List.range'_succ, List.range'_succ] at hbalance
  obtain ⟨hle, hothers, new, hledger, hnodup, hbounds, hperm⟩ := hbalance
  refine ⟨hle, hothers, new, hledger, hnodup, hbounds, hperm.trans (List.Perm.append_left _ ?_)⟩
  rw [hv.owned, View.copy, View.slot, hbase]
  refine (List.Perm.swap _ _ _).trans (List.Perm.cons _ ?_)
  exact (List.perm_append_comm : ([m.blocks.length] ++ _).Perm _)

/-- The loop ended. -/
theorem finish_outcome {v : View} (hv : v.Sound) (hne : v.es ≠ []) (hbase : v.base = m.blocks)
    (hhanded : HandedOut m.blocks.length m.ledger v.mem) {ret : Nat}
    (hret : ret = exitFailure ∨ ret = exitSuccess) (hwhen : Survivable m s) :
    Outcome m s (finish true ret (some v.copy) v.mem) := by
  have hbalance := hv.balance hbase hhanded
  have hclosed : m.Balance v.closed.toMemory (InMemory.owned v.es ++ [v.base.length]) :=
    hbalance.freeAll (.refl _)
  rcases hret with rfl | rfl
  · rw [finish_failure hv hne]
    refine .failed _ (hclosed.freeAll (by rw [List.append_nil])) (Mem.bare_of_load rfl ?_) hwhen
    exact Memory.load_freeAll_of_mem _ (List.mem_append_right _ List.mem_cons_self)
  · rw [finish_success hv (by decide)]
    have hload : v.closed.load v.base.length = some (.ifs v.es) :=
      (hv.live.load_freeAll (List.mem_append_right _ List.mem_cons_self)).trans v.load_array
    exact .parsed _ _ v.es hclosed ⟨congrArg (IfsParam.mk · _) hv.count, hload, hv.live.freeAll⟩ hne
      hwhen

/-- Both are granted. -/
theorem loop_outcome (hs : m.Chars argv s) (hk : counted s = k) (hyes : m.answers 0 = true)
    (hcopy : m.answers 1 = true) :
    Outcome m s ((parseCopy argv s.length >>= fun r => finish true r.1 r.2) (m.withArray k)) := by
  obtain ⟨-, hlt, hle⟩ := counted_bounds s
  obtain ⟨_, -, hbuf⟩ := id hs
  have hwhen : Survivable m s := by
    by_cases hzero : counted s = 0
    · exact .inr (.inr ⟨hzero, fun _ => hcopy⟩)
    · exact .inr (.inl ⟨by omega, hyes⟩)
  have hcopied := parseCopy_granted (k := k) s.length hs hcopy
  have hholds : Holds nul (s ++ [nul]) 0 s := ⟨⟨[], rfl⟩, hbuf.clean⟩
  have hes : (View.opened m k s).es = [] ++ List.replicate k .zero := rfl
  have hopened : HandedOut m.blocks.length m.ledger (View.opened m k s).mem :=
    ⟨by simp [View.opened, View.mem], by simp [View.opened, View.mem]; rfl⟩
  have hhanded := keeps_parseLoop (framed_handedOut _ _) (s.length + 1)
    (some ⟨(View.opened m k s).copy, 0⟩) 0 _ hopened
  have hends := parseLoop_ends (View.opened_sound m k s) hes (by omega) hholds
    (Nat.lt_succ_self _) (by show (k : Int) < _; omega)
  change (∃ (ret : Nat) (v' : View), parseLoop (s.length + 1) _ 0 _ = _ ∧ _) ∨
    (parseLoop (s.length + 1) _ 0 _).1 = _ at hends
  rcases hends with ⟨ret, v, hrun, hbase, hlength, hsound, hpos, hret⟩ | hstop
  · rw [hrun] at hhanded
    have hne : v.es ≠ [] := by
      rw [← List.length_pos_iff, hlength]
      show 0 < (List.replicate k IfEntry.zero).length
      rw [List.length_replicate]
      exact Nat.pos_of_ne_zero hpos
    have hopencopy : (View.opened m k s).copy = v.copy := by rw [View.copy, View.copy, hbase]
    rw [Prog.bind_ok (hcopied.trans (Prog.bind_ok hrun)), hopencopy]
    exact finish_outcome hsound hne hbase hhanded hret hwhen
  · rcases hrun : parseLoop (s.length + 1) (some ⟨(View.opened m k s).copy, 0⟩) 0
      (View.opened m k s).mem with ⟨r, m'⟩
    rw [hrun] at hhanded hstop
    obtain rfl : r = .error (.outside (counted s)) := hstop.trans (by rw [hk]; rfl)
    rw [Prog.bind_error (hcopied.trans (Prog.bind_error hrun))]
    exact .overrun _ hhanded hwhen

/-- `calloc` is granted. -/
theorem array_outcome (hs : m.Chars argv s) (hk : counted s = k) (hlt : (k : Int) < 0x80000000)
    (hyes : (callocFits k && m.answers 0) = true) :
    Outcome m s ((getInterfaces argv s.length >>= fun r => finish true r.1 r.2)
      { m with param := ⟨k, none⟩ }) := by
  have hsize := toSizeT_of_nonneg (Int.natCast_nonneg k) hlt
  have hget := getInterfaces_granted (m := { m with param := ⟨k, none⟩ }) argv s.length rfl hsize hyes
  have hanswer := (Bool.and_eq_true_iff.mp hyes).2
  rw [Prog.bind_of_eq hget]
  show Outcome m s ((parseCopy argv s.length >>= fun r => finish true r.1 r.2) (m.withArray k))
  cases hcopy : m.answers 1 with
  | false =>
      rw [Prog.bind_ok (parseCopy_refused s.length hs hcopy)]
      exact finish_noCopy hk hanswer hcopy
  | true => exact loop_outcome hs hk hanswer hcopy

/-- **How the parser ends**, on any text that is not empty. -/
theorem parse_outcome (hs : m.Chars argv s) (hne : s ≠ []) :
    Outcome m s (nfpexplParseInterfaces (some argv) true m) := by
  obtain ⟨hge, hlt, -⟩ := counted_bounds s
  rw [parse_counted hs hne, iterate_counted]
  generalize hc : counted s = c at hge hlt ⊢
  by_cases harray : (callocFits c && m.answers 0) = true
  · have hnonneg := (callocFits_iff hge hlt).mp (Bool.and_eq_true_iff.mp harray).1
    obtain ⟨k, rfl⟩ := Int.eq_ofNat_of_zero_le hnonneg
    exact array_outcome hs hc hlt harray
  · exact noArray_outcome argv s.length hc (Bool.eq_false_iff.mpr harray)

end Ends

/-! ## Surviving a refusal -/

/-- **The parser survives what is refused**: no entry is read through `NULL`; if it fails on a text,
    each block it was given has been freed once and `if_count` is 0; and if it succeeds, what has not
    been freed is reachable from the structure. -/
structure Survives (m : Mem) (s : List Char) (r : Except Fault Nat × Mem) : Prop where
  array : ∀ i, r.1 ≠ .error (.nullArray i)
  failed : r.1 = .ok exitFailure → s ≠ [] → r.2.param.ifCount = 0 ∧
    ∃ new, r.2.ledger = m.ledger ++ new ∧ ∀ b ∈ acquired new, (released new).count b = 1
  parsed : r.1 = .ok exitSuccess →
    ∃ new, r.2.ledger = m.ledger ++ new ∧ ∀ b ∈ acquired new, b ∉ released new → b ∈ r.2.reachable

theorem parse_empty {m : Mem} {argv : Ptr} (hs : m.Chars argv []) :
    nfpexplParseInterfaces (some argv) true m = (.ok exitFailure, m) :=
  Prog.bind_ok (string_run hs)

theorem Outcome.survives_iff {m : Mem} {s : List Char} (hne : s ≠ []) {r : Except Fault Nat × Mem}
    (h : Outcome m s r) : Survives m s r ↔ Survivable m s := by
  cases h with
  | nullRead m' hbalance hnot => exact iff_of_false (fun h => h.array 0 rfl) hnot
  | overrun m' hhanded hwhen =>
      refine iff_of_true ⟨fun i hi => ?_, fun hi => ?_, fun hi => ?_⟩ hwhen
      · cases hi
      · cases hi
      · cases hi
  | failed m' hbalance hbare hwhen =>
      obtain ⟨new, hledger, honce, hleft⟩ := hbalance.entries
      refine iff_of_true ⟨fun i hi => ?_, fun _ _ => ⟨hbare.count, new, hledger, fun b hb => ?_⟩,
        fun hi => ?_⟩ hwhen
      · cases hi
      · have hfreed : b ∈ released new := by
          by_contra hnot
          exact absurd ((hleft b).mp ⟨hb, hnot⟩) List.not_mem_nil
        exact List.count_eq_one_of_mem honce hfreed
      · cases hi
  | kept m' arr hbalance hfilled hnot =>
      refine iff_of_false (fun h => ?_) hnot
      obtain ⟨-, new, hledger, hfreed⟩ := h.failed rfl hne
      obtain ⟨new', hledger', -, hleft⟩ := hbalance.entries
      obtain rfl : new = new' := List.append_cancel_left (hledger.symm.trans hledger')
      -- the array is handed out and stays
      obtain ⟨hin, hout⟩ := (hleft arr).mpr List.mem_cons_self
      have hone := hfreed arr hin
      rw [List.count_eq_zero_of_not_mem hout] at hone
      cases hone
  | parsed m' arr es hbalance hfilled hes hwhen =>
      obtain ⟨new, hledger, -, hleft⟩ := hbalance.entries
      refine iff_of_true ⟨fun i hi => ?_, fun hi => ?_, fun _ => ⟨new, hledger, fun b hb hnot => ?_⟩⟩
        hwhen
      · cases hi
      · cases hi
      · rw [hfilled.reachable_eq]
        exact (hleft b).mp ⟨hb, hnot⟩

/-- **What the parser survives**: on every text and for every pattern of answers, just the refusals
    that are `Survivable`. -/
theorem parser_survives_iff (m : Mem) (argv : Ptr) (s : List Char) (hs : m.Chars argv s) :
    Survives m s (nfpexplParseInterfaces (some argv) true m) ↔ s = [] ∨ Survivable m s := by
  by_cases hempty : s = []
  · subst hempty
    rw [parse_empty hs]
    refine iff_of_true ⟨fun i hi => ?_, fun _ hne => absurd rfl hne, fun hi => ?_⟩ (.inl rfl)
    · cases hi
    · cases hi
  · rw [(parse_outcome hs hempty).survives_iff hempty, or_iff_right hempty]

/-- The address of the first of two interfaces is refused: the array, the copy and the name are
    freed. -/
theorem parser_survives_no_address :
    let m : Mem := { Mem.holding ['a', '@', '1', '/', '2', '4', ',', 'b'] with
      answers := fun n => n != 3 }
    let r := nfpexplParseInterfaces (some ⟨0, 0⟩) true m
    (r.1 = .ok exitFailure ∧ acquired r.2.ledger = [1, 2, 3] ∧ released r.2.ledger = [2, 3, 1]) ∧
      Survives m ['a', '@', '1', '/', '2', '4', ',', 'b'] r := by
  intro m r
  refine ⟨by decide +kernel, (parser_survives_iff m ⟨0, 0⟩ _ ⟨_, rfl, ⟨[], rfl⟩, by decide⟩).mpr ?_⟩
  exact .inr (.inr (.inl ⟨by decide, rfl⟩))

/-- On "a" the array is refused, and the cleanup reads its first entry through `NULL`. -/
theorem parser_reads_null :
    let m : Mem := { Mem.holding ['a'] with answers := fun _ => false }
    let r := nfpexplParseInterfaces (some ⟨0, 0⟩) true m
    r.1 = .error (.nullArray 0) ∧ r.2.param = ⟨1, none⟩ ∧ ¬ Survives m ['a'] r := by
  intro m r
  have hnull : r.1 = .error (.nullArray 0) := by decide +kernel
  exact ⟨hnull, by decide +kernel, fun h => h.array 0 hnull⟩

end Nfp.Common.InMemory
