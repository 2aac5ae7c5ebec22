/-
  File:      Nfp/Common/Parser.lean
  Subject:   THE PARSER OF THE OPTION `-i` AS A WHOLE: `nfpexpl_parse_interfaces` from the count to the
             cleanup, put together from the loops of InMemory.lean and CopyLoop.lean.

  * `parse_cases` -- the parser was refused memory, or its second loop has run on a copy of the text.
    With 2^31 fields `if_count` is negative and no `calloc` can be granted;
  * `parser_refines` -- as long as no memory is refused the parser answers as the parser of texts
    does (CliArgParse.lean);
  * `parser_accepts_grammar` -- what it accepts, and what it makes of it.
-/
import Nfp.Common.CopyLoop

namespace Nfp.Common.InMemory

open Nfp.Lib

/-! ## The parser -/

/-- A number of fields, as an `int` counts it. -/
theorem bmod_count (k : Nat) :
    (k : Int).bmod 0x100000000 = if k % 0x100000000 < 0x80000000 then ((k % 0x100000000 : Nat) : Int)
      else ((k % 0x100000000 : Nat) : Int) - 0x100000000 := by
  rw [Int.bmod_def]
  split
  · rw [if_pos (by omega)]
    omega
  · rw [if_neg (by omega)]
    omega

theorem toSizeT_of_nonneg {c : Int} (h : 0 ≤ c) (hlt : c < 0x80000000) : toSizeT c = c.toNat := by
  unfold toSizeT
  omega

/-- `calloc` can be granted just if the count is not negative. -/
theorem callocFits_iff {c : Int} (hge : -0x80000000 ≤ c) (hlt : c < 0x80000000) :
    callocFits c = true ↔ 0 ≤ c := by
  unfold callocFits sizeofIfEntry
  rw [decide_eq_true_iff]
  unfold toSizeT
  omega

/-- The count is kept, or no memory holds the array: from 2^31 fields on `if_count` is negative. -/
theorem count_fits {k : Nat} (hk : k < 0x100000000)
    (hfits : callocFits ((k : Int).bmod 0x100000000) = true) :
    (k : Int).bmod 0x100000000 = k ∧ toSizeT k = k ∧ k < 0x80000000 := by
  have hbmod := bmod_count k
  rw [Nat.mod_eq_of_lt hk] at hbmod
  have hcount : 0 ≤ (k : Int).bmod 0x100000000 := by
    refine (callocFits_iff ?_ ?_).mp hfits
    · split at hbmod <;> omega
    · split at hbmod <;> omega
  have hlt : k < 0x80000000 := by
    split at hbmod
    · assumption
    · omega
  rw [if_pos hlt] at hbmod
  refine ⟨hbmod, ?_, hlt⟩
  rw [toSizeT_of_nonneg (Int.natCast_nonneg k) (by omega), Int.toNat_natCast]

/-- The memory when `if_array` was granted. -/
def Mem.withArray (m : Mem) (k : Nat) : Mem :=
  { m with
    blocks := m.blocks ++ [some (.ifs (List.replicate k .zero))]
    answers := fun n => m.answers (n + 1)
    ledger := m.ledger ++ [.acquire m.blocks.length]
    param := ⟨k, some m.blocks.length⟩ }

/-- The view when the copy was granted as well. -/
def View.opened (m : Mem) (k : Nat) (s : List Char) : View where
  base := m.blocks
  es := List.replicate k .zero
  buf := s ++ [nul]
  texts := []
  answers := fun n => m.answers (n + 1 + 1)
  ledger := m.ledger ++ [.acquire m.blocks.length] ++ [.acquire (m.blocks.length + 1)]
  refused := m.refused
  count := k
  writes := m.writes

theorem View.opened_sound (m : Mem) (k : Nat) (s : List Char) : (View.opened m k s).Sound where
  count := by
    show (k : Int) = (List.replicate k IfEntry.zero).length
    rw [List.length_replicate]
  owned := owned_zeros k
  clean _ ht := absurd ht List.not_mem_nil

section Open

variable {m : Mem} {argv : Ptr} {s : List Char} {k : Nat}

theorem Mem.Chars.withArray (hs : m.Chars argv s) (k : Nat) : (m.withArray k).Chars argv s := by
  obtain ⟨buf, hload, hbuf⟩ := hs
  exact ⟨buf, Memory.load_of_append rfl hload, hbuf⟩

/-- `calloc` is refused. -/
theorem getInterfaces_refused (n : Nat)
    (hno : (callocFits m.param.ifCount && m.answers 0) = false) :
    getInterfaces argv n m = (.ok (exitFailure, none), { m with
      answers := fun n => m.answers (n + 1)
      refused := m.refused + 1
      param := ⟨m.param.ifCount, none⟩ }) := by
  have hparam : C.getParam m = (.ok m.param, m) := rfl
  unfold getInterfaces callocEntries
  rw [Prog.bind_ok hparam, Prog.bind_ok (alloc_denied hno)]
  rfl

/-- Without an array the parser has been refused memory when it ends. -/
theorem refused_array (n : Nat) (hno : (callocFits m.param.ifCount && m.answers 0) = false) :
    m.refused < ((getInterfaces argv n >>= fun r => finish true r.1 r.2) m).2.refused := by
  rw [Prog.bind_ok (getInterfaces_refused n hno)]
  show _ < ((nfpexplParseInterfacesParamCleanup true >>= fun _ => pure exitFailure) _).2.refused
  rw [Prog.bind_pure_snd, cleanup_null rfl]
  exact Nat.lt_succ_self _

/-- The memory when the array was granted and the copy refused. -/
def Mem.withoutCopy (m : Mem) (k : Nat) : Mem :=
  { m.withArray k with answers := fun n => m.answers (n + 1 + 1), refused := m.refused + 1 }

theorem Mem.load_withoutCopy (m : Mem) (k : Nat) :
    (m.withoutCopy k).load m.blocks.length = some (.ifs (.replicate k .zero)) := by
  simp [Memory.load, Mem.withoutCopy, Mem.withArray]

theorem parseCopy_refused (n : Nat) (hs : m.Chars argv s) (hno : m.answers 1 = false) :
    parseCopy argv n (m.withArray k) = (.ok (exitFailure, none), m.withoutCopy k) := by
  have hdup := strdup_run (hs.withArray k)
  rw [alloc_denied (b := true) (m := m.withArray k) hno] at hdup
  exact Prog.bind_ok hdup

/-- Then the cleanup has the array to free. -/
theorem cleanup_withoutCopy (hk : k ≠ 0) :
    nfpexplParseInterfacesParamCleanup true (m.withoutCopy k) = (.ok (), { m.withoutCopy k with
      toMemory := (m.withoutCopy k).freeAll [m.blocks.length]
      param := ⟨0, some m.blocks.length⟩ }) := by
  have hlive : (m.withoutCopy k).Live (owned (.replicate k .zero) ++ [m.blocks.length]) := by
    rw [owned_zeros]
    refine ⟨List.nodup_singleton _, fun b hb => ?_⟩
    rw [List.mem_singleton.mp hb, m.load_withoutCopy]
    exact Option.some_ne_none _
  have hclean := cleanup_run rfl (m.load_withoutCopy k) (by rw [List.length_replicate]; rfl)
    (by simpa using hk) hlive
  rw [owned_zeros] at hclean
  exact hclean

/-- Without the copy the parser has been refused memory as well. -/
theorem refused_copy (n : Nat) (hs : m.Chars argv s) (hk : k ≠ 0) (hno : m.answers 1 = false) :
    m.refused < ((parseCopy argv n >>= fun r => finish true r.1 r.2) (m.withArray k)).2.refused := by
  rw [Prog.bind_ok (parseCopy_refused n hs hno)]
  show _ < ((nfpexplParseInterfacesParamCleanup true >>= fun _ => pure exitFailure) _).2.refused
  rw [Prog.bind_pure_snd, cleanup_withoutCopy hk]
  exact Nat.lt_succ_self _

/-- With both granted the loop runs on the copy. -/
theorem parseCopy_granted (n : Nat) (hs : m.Chars argv s) (hyes : m.answers 1 = true) :
    parseCopy argv n (m.withArray k) = (parseLoop (n + 1)
      (some ⟨(View.opened m k s).copy, 0⟩) 0 >>= fun ret => pure (ret, some (View.opened m k s).copy))
        (View.opened m k s).mem := by
  have hdup : C.strdup argv (m.withArray k) =
      (.ok (some (View.opened m k s).copy), (View.opened m k s).mem) := by
    rw [strdup_run (hs.withArray k), alloc_granted (b := true) (m := m.withArray k) hyes]
    simp [Mem.withArray, View.opened, View.copy, View.mem]
  exact Prog.bind_ok hdup

theorem getInterfaces_granted (argv : Ptr) (n : Nat) (hcount : m.param.ifCount = k) (hsize : toSizeT k = k)
    (hyes : (callocFits m.param.ifCount && m.answers 0) = true) :
    getInterfaces argv n m = parseCopy argv n (m.withArray k) := by
  have hparam : C.getParam m = (.ok m.param, m) := rfl
  unfold getInterfaces callocEntries
  rw [Prog.bind_ok hparam, Prog.bind_ok (alloc_granted hyes), hcount, hsize]
  show parseCopy argv n { m with
    blocks := m.blocks ++ [some (.ifs (List.replicate k .zero))]
    answers := fun n => m.answers (n + 1)
    ledger := m.ledger ++ [.acquire m.blocks.length]
    param := ⟨m.param.ifCount, some m.blocks.length⟩ } = _
  rw [hcount]
  rfl

/-- The parser when the fields have been counted. -/
theorem parse_counted (hs : m.Chars argv s) (hne : s ≠ []) :
    nfpexplParseInterfaces (some argv) true m =
      (getInterfaces argv s.length >>= fun r => finish true r.1 r.2)
        { m with param := ⟨intIncr^[(s.splitOn ',').length] 0, none⟩ } := by
  have hset : C.setParam (fun _ => ⟨0, none⟩) m = (.ok (), { m with param := ⟨0, none⟩ }) := rfl
  have hcount := countLoop_run (m := { m with param := ⟨0, none⟩ }) hs (Nat.lt_succ_self _)
  unfold nfpexplParseInterfaces
  show (C.string argv >>= _) m = _
  rw [Prog.bind_ok (string_run hs), if_neg (by simpa using hne), Prog.bind_ok hset,
    Prog.bind_ok hcount]

/-- **The parser up to its end**: it was refused memory, or its second loop has run on a copy of the
    text. -/
theorem parse_cases (hs : m.Chars argv s) (hne : s ≠ [])
    (hfields : (s.splitOn ',').length < 0x100000000) :
    m.refused < (nfpexplParseInterfaces (some argv) true m).2.refused ∨
      ∃ ret v, nfpexplParseInterfaces (some argv) true m = finish true ret (some v.copy) v.mem ∧
        Grown s.length (View.opened m (s.splitOn ',').length s) v ∧ v.Sound ∧
        (v.refused = m.refused →
          v.ParsedAll ret v.es ((s.splitOn ',').mapM parseInterface)) := by
  have hpos : (s.splitOn ',').length ≠ 0 := by
    rw [length_splitOn]
    exact Nat.succ_ne_zero _
  rw [parse_counted hs hne]
  have hiterate := intIncr_iterate (s.splitOn ',').length
  generalize hc : intIncr^[(s.splitOn ',').length] 0 = c at hiterate ⊢
  by_cases harray : (callocFits c && m.answers 0) = true
  · obtain ⟨hfits, -⟩ := Bool.and_eq_true_iff.mp harray
    rw [hiterate] at hfits
    obtain ⟨hcount, hsize, hlt⟩ := count_fits hfields hfits
    rw [← hiterate] at hcount
    have hget := getInterfaces_granted (m := { m with param := ⟨c, none⟩ }) argv s.length hcount hsize
      harray
    rw [Prog.bind_of_eq hget]
    cases hcopy : m.answers 1 with
    | false => exact .inl (refused_copy (m := { m with param := ⟨c, none⟩ }) _ hs hpos hcopy)
    | true =>
        obtain ⟨_, -, hbuf⟩ := id hs
        have hcopied := parseCopy_granted (m := { m with param := ⟨c, none⟩ })
          (k := (s.splitOn ',').length) s.length hs hcopy
        have hholds : Holds nul (s ++ [nul]) 0 s := ⟨⟨[], rfl⟩, hbuf.clean⟩
        have hes : (View.opened m (s.splitOn ',').length s).es =
          [] ++ List.replicate (s.splitOn ',').length .zero := rfl
        obtain ⟨ret, v, new, hloop, hgrown, hsound, hnew, hparsed⟩ :=
          parseLoop_run (View.opened_sound m _ s) hes hholds (Nat.lt_succ_self _)
            (Int.ofNat_lt.mpr hlt)
        change parseLoop (s.length + 1) _ 0 _ = _ at hloop
        rw [Nat.zero_add] at hgrown
        refine .inr ⟨ret, v, ?_, hgrown, hsound, fun hsame => hnew ▸ hparsed hsame⟩
        rw [← hgrown.copy]
        exact Prog.bind_ok (hcopied.trans (Prog.bind_ok hloop))
  · exact .inl (refused_array (m := { m with param := ⟨c, none⟩ }) _ (Bool.eq_false_iff.mpr harray))

end Open

/-! ## What the end of the parser leaves -/

section Finish

variable {v : View}

/-- The copy, the texts and the array can be freed. -/
theorem View.Sound.live (hv : v.Sound) :
    v.mem.Live ([v.copy] ++ (InMemory.owned v.es ++ [v.base.length])) := by
  rw [hv.owned]
  refine ⟨?_, fun b hb => ?_⟩
  · have hnodup : (List.range' (v.slot 0) v.texts.length).Nodup := List.nodup_range'
    simp only [List.singleton_append, List.nodup_cons, List.mem_append, List.mem_range'_1,
      List.mem_singleton, List.nodup_append, View.copy, View.slot] at hnodup ⊢
    refine ⟨by omega, hnodup, by simp, fun a ha b hb => by omega⟩
  · rw [List.mem_append, List.mem_append, List.mem_singleton, List.mem_singleton,
      List.mem_range'_1] at hb
    rcases hb with rfl | ⟨hge, hlt⟩ | rfl
    · rw [v.load_copy]
      exact Option.some_ne_none _
    · obtain ⟨n, rfl⟩ := Nat.exists_eq_add_of_le hge
      have hn : n < v.texts.length := by omega
      have hload := View.load_slot (List.getElem?_eq_getElem hn)
      change v.mem.load (v.slot n) ≠ none
      rw [hload]
      exact Option.some_ne_none _
    · rw [v.load_array]
      exact Option.some_ne_none _

/-- The memory when the copy is freed. -/
def View.closed (v : View) : Mem := { v.mem with toMemory := v.mem.freeAll [v.copy] }

/-- The memory when all the rest is freed as well. -/
def View.cleaned (v : View) : Mem :=
  { v.closed with
    toMemory := v.closed.freeAll (InMemory.owned v.es ++ [v.base.length])
    param := ⟨0, some v.base.length⟩ }

theorem finish_failure (hv : v.Sound) (hne : v.es ≠ []) :
    finish true exitFailure (some v.copy) v.mem = (.ok exitFailure, v.cleaned) := by
  have hfree := free_run (o := some v.copy) hv.live.left
  have hes : v.closed.load v.base.length = some (.ifs v.es) :=
    (hv.live.load_freeAll (List.mem_append_right _ List.mem_cons_self)).trans v.load_array
  have hclean := cleanup_run (m := v.closed) rfl hes hv.count hne hv.live.freeAll
  unfold finish
  exact (Prog.bind_ok hfree).trans ((congrFun (if_pos rfl) _).trans (Prog.bind_ok hclean))

theorem finish_success (hv : v.Sound) {ret : Nat} (hret : ret ≠ exitFailure) :
    finish true ret (some v.copy) v.mem = (.ok ret, v.closed) := by
  have hfree := free_run (o := some v.copy) hv.live.left
  unfold finish
  rw [Prog.bind_ok hfree, if_neg hret]
  rfl

theorem View.load_closed (v : View) {b : Nat} (hb : b < v.base.length) :
    v.closed.load b = v.mem.load b := by
  refine Memory.load_freeAll v.mem.toMemory ?_
  rw [List.mem_singleton, View.copy]
  omega

theorem View.Sound.load_cleaned (hv : v.Sound) {b : Nat} (hb : b < v.base.length) :
    v.cleaned.load b = v.mem.load b := by
  refine (Memory.load_freeAll v.closed.toMemory ?_).trans (v.load_closed hb)
  rw [hv.owned, List.mem_append, List.mem_range'_1, List.mem_singleton, View.slot]
  omega

/-- **The end of the parser**: the copy is freed, and all the rest if it failed; the caller's blocks
    are left alone. -/
theorem finish_run (hv : v.Sound) (hne : v.es ≠ []) (ret : Nat) :
    ∃ m', finish true ret (some v.copy) v.mem = (.ok ret, m') ∧
      m'.refused = v.refused ∧ m'.writes = v.writes ∧
      (∀ b < v.base.length, m'.load b = v.mem.load b) ∧
      (ret = exitFailure → m'.param.ifCount = 0) ∧ (ret ≠ exitFailure → m' = v.closed) := by
  by_cases hret : ret = exitFailure
  · subst hret
    exact ⟨v.cleaned, finish_failure hv hne, Memory.refused_freeAll _ _, rfl,
      fun _ hb => hv.load_cleaned hb, fun _ => rfl, fun h => absurd rfl h⟩
  · exact ⟨v.closed, finish_success hv hret, rfl, rfl, fun _ hb => v.load_closed hb,
      fun h => absurd h hret, fun _ => rfl⟩

/-- What a caller reads of a text. -/
theorem View.Sound.string (hv : v.Sound) {b : Nat} {t : List Char} (hb : v.string b = some t) :
    v.closed.string b = some t := by
  unfold View.string at hb
  by_cases hslot : v.slot 0 ≤ b
  · rw [if_pos hslot] at hb
    obtain ⟨n, rfl⟩ := Nat.exists_eq_add_of_le hslot
    rw [Nat.add_sub_cancel_left] at hb
    have hne : v.slot 0 + n ∉ [v.copy] := by
      rw [List.mem_singleton, View.slot, View.copy]
      omega
    have hload : v.closed.load (v.slot 0 + n) = some (.chars (t ++ [nul])) :=
      (Memory.load_freeAll v.mem.toMemory hne).trans (View.load_slot hb)
    have hholds : Holds nul (t ++ [nul]) 0 t :=
      ⟨⟨[], rfl⟩, hv.clean t (List.mem_of_getElem? hb)⟩
    unfold Mem.string
    simp only [hload, hholds.strAt_eq]
  · rw [if_neg hslot] at hb
    cases hb

/-- What a caller reads of an entry. -/
theorem View.Sound.interface (hv : v.Sound) {e : IfEntry} {ifarg : ApplArgIf}
    (he : v.Shows e ifarg) : v.closed.interface e = some ifarg := by
  obtain ⟨b, hname, hb⟩ := Option.bind_eq_some_iff.mp he.name
  have haddress := he.address
  unfold Mem.interface
  rw [hname, Option.bind_some, hv.string hb, he.masklen]
  obtain ⟨name, address, masklen⟩ := ifarg
  cases hfield : e.ifAddress with
  | none =>
      rw [hfield] at haddress
      cases address with
      | none => rfl
      | some a => cases haddress
  | some c =>
      rw [hfield] at haddress
      cases address with
      | none => cases haddress
      | some a =>
          have hc : v.string c = some a := Option.some.inj haddress
          show (v.closed.string c).map _ = _
          rw [hv.string hc]
          rfl

theorem View.Sound.mapM_interface (hv : v.Sound) {es : List IfEntry} {ifs : List ApplArgIf}
    (h : List.Forall₂ v.Shows es ifs) : es.mapM v.closed.interface = some ifs := by
  induction h with
  | nil => rfl
  | cons he _ ih =>
      rw [List.mapM_cons, hv.interface he, ih]
      rfl

/-- **What a caller reads** of the structure. -/
theorem View.Sound.interfaces (hv : v.Sound) {ifs : List ApplArgIf}
    (h : List.Forall₂ v.Shows v.es ifs) : v.closed.interfaces = some ifs := by
  have hne : v.base.length ∉ [v.copy] := by
    rw [List.mem_singleton, View.copy]
    omega
  have hload : v.closed.load v.base.length = some (.ifs v.es) :=
    (Memory.load_freeAll v.mem.toMemory hne).trans v.load_array
  have htake : v.es.take v.closed.param.ifCount.toNat = v.es := by
    show v.es.take v.count.toNat = v.es
    rw [hv.count, Int.toNat_natCast, List.take_length]
  have harray : v.closed.param.ifArray.bind v.closed.load = some (.ifs v.es) := hload
  unfold Mem.interfaces
  rw [harray]
  simp only [htake]
  exact hv.mapM_interface h

end Finish

/-! ## The parser in memory and the parser of texts -/

/-- What the parser returns and leaves in memory is what the parser of texts answers. -/
def Answered (r : Except Fault Nat × Mem) : Option ApplArgIfs → Prop
  | none => r.1 = .ok exitFailure ∧ r.2.param.ifCount = 0
  | some p =>
      r.1 = .ok exitSuccess ∧ r.2.param.ifCount = p.ifCount ∧ r.2.interfaces = some p.ifArray

/-- **The parser in memory refines the parser of texts** as long as no memory is refused: it ends
    with the same answer, writes to no entry outside `if_count`, and leaves the text it was given
    alone. -/
theorem parser_refines {m : Mem} {argv : Ptr} {s : List Char} (hs : m.Chars argv s) (hne : s ≠ [])
    (hfields : (s.splitOn ',').length < 0x100000000)
    (hall : (nfpexplParseInterfaces (some argv) true m).2.refused = m.refused) :
    Answered (nfpexplParseInterfaces (some argv) true m) (Common.nfpexplParseInterfaces s) ∧
      (∀ w ∈ (nfpexplParseInterfaces (some argv) true m).2.writes,
        w ∈ m.writes ∨ 0 ≤ w.1 ∧ w.1 < w.2) ∧
      (nfpexplParseInterfaces (some argv) true m).2.load argv.block = m.load argv.block := by
  rcases parse_cases hs hne hfields with hless | ⟨ret, v, hrun, hgrown, hv, hparsed⟩
  · omega
  have hcount : v.count = (s.splitOn ',').length := hgrown.count
  have hes : v.es ≠ [] := by
    have hlength := hv.count
    rw [hcount, length_splitOn] at hlength
    exact List.length_pos_iff.mp (by omega)
  obtain ⟨m', hfinish, hrefused, hw, hbase, hfail, hclosed⟩ := finish_run hv hes ret
  rw [hrun, hfinish] at hall ⊢
  refine ⟨?_, fun w hmem => ?_, ?_⟩
  · have hparsed := hparsed (hrefused.symm.trans hall)
    unfold Common.nfpexplParseInterfaces
    rw [if_neg hne, fields_eq]
    cases hifs : (s.splitOn ',').mapM parseInterface with
    | none =>
        rw [hifs] at hparsed
        obtain rfl : ret = exitFailure := hparsed
        exact ⟨rfl, hfail rfl⟩
    | some ifs =>
        rw [hifs] at hparsed
        obtain ⟨rfl, hshows⟩ := hparsed
        rw [hclosed (by decide)]
        exact ⟨rfl, hcount, hv.interfaces hshows⟩
  · rw [hw] at hmem
    exact hgrown.writes w hmem
  · obtain ⟨buf, hload, -⟩ := hs
    have hmem : v.mem.load argv.block = some (.chars buf) :=
      Memory.load_of_append (congrArg (· ++ _) hgrown.base) hload
    rw [hbase _ (hgrown.base ▸ Memory.lt_of_load hload), hmem, hload]

/-! ## The grammar -/

/-- A field is well formed: if it has an '@', a '/' stands behind the first. -/
def WellFormed (tkn : List Char) : Prop := '@' ∈ tkn → '/' ∈ (tkn.dropWhile (· ≠ '@')).tail

instance (tkn : List Char) : Decidable (WellFormed tkn) :=
  inferInstanceAs (Decidable ('@' ∈ tkn → '/' ∈ (tkn.dropWhile (· ≠ '@')).tail))

/-- The interface that a field describes. -/
def interfaceOf (tkn : List Char) : ApplArgIf :=
  let behind := (tkn.dropWhile (· ≠ '@')).tail
  { ifName := tkn.takeWhile (· ≠ '@')
    ifAddress := if '@' ∈ tkn then some (behind.takeWhile (· ≠ '/')) else none
    ifAddressMasklen := if '@' ∈ tkn then atoi (behind.dropWhile (· ≠ '/')).tail else 0 }

theorem parseInterface_eq (tkn : List Char) :
    parseInterface tkn = if WellFormed tkn then some (interfaceOf tkn) else none := by
  by_cases hat : '@' ∈ tkn
  · have hcut : cut '@' tkn = (tkn.takeWhile (· ≠ '@'), some (tkn.dropWhile (· ≠ '@')).tail) :=
      Prod.ext (cut_fst '@' tkn) ((cut_snd '@' tkn).trans (if_pos hat))
    rw [parseInterface_address hcut, cut_fst, cut_snd]
    by_cases hslash : '/' ∈ (tkn.dropWhile (· ≠ '@')).tail
    · have hwell : WellFormed tkn := fun _ => hslash
      rw [if_pos hslash, if_pos hwell]
      simp [interfaceOf, hat]
    · have hill : ¬ WellFormed tkn := fun h => hslash (h hat)
      rw [if_neg hslash, if_neg hill]
      rfl
  · have hall : tkn.takeWhile (· ≠ '@') = tkn := by
      rw [List.takeWhile_eq_self_iff]
      intro a ha
      exact decide_eq_true fun heq => hat (heq ▸ ha)
    have hwell : WellFormed tkn := fun h => absurd h hat
    rw [parseInterface_plain hat, if_pos hwell, interfaceOf, hall, if_neg hat, if_neg hat]

theorem mapM_parseInterface_eq (tkns : List (List Char)) :
    tkns.mapM parseInterface =
      if ∀ tkn ∈ tkns, WellFormed tkn then some (tkns.map interfaceOf) else none := by
  induction tkns with
  | nil => simp
  | cons tkn tkns ih =>
      rw [List.mapM_cons, parseInterface_eq, ih]
      by_cases htkn : WellFormed tkn
      · by_cases htkns : ∀ tkn ∈ tkns, WellFormed tkn
        · rw [if_pos htkn, if_pos htkns, if_pos (List.forall_mem_cons.mpr ⟨htkn, htkns⟩)]
          rfl
        · rw [if_pos htkn, if_neg htkns, if_neg fun h => htkns (List.forall_mem_cons.mp h).2]
          rfl
      · rw [if_neg htkn, if_neg fun h => htkn (List.forall_mem_cons.mp h).1]
        rfl

/-- What the parser of texts answers, in terms of the grammar. -/
theorem nfpexplParseInterfaces_eq {s : List Char} (hne : s ≠ []) :
    Common.nfpexplParseInterfaces s =
      if ∀ tkn ∈ s.splitOn ',', WellFormed tkn then
        some ⟨(s.splitOn ',').length, (s.splitOn ',').map interfaceOf⟩
      else none := by
  unfold Common.nfpexplParseInterfaces
  rw [if_neg hne, fields_eq, mapM_parseInterface_eq]
  by_cases hgrammar : ∀ tkn ∈ s.splitOn ',', WellFormed tkn
  · rw [if_pos hgrammar, if_pos hgrammar]
  · rw [if_neg hgrammar, if_neg hgrammar]

/-- **The parser accepts exactly its grammar.** On a text that is not empty and shorter than 2^31, and
    with no memory refused, it ends; it succeeds just if every field is well formed, and then the
    structure describes the fields in order; it writes to no entry outside `if_count`, leaves the
    text it was given alone, and leaves `if_count` 0 if it fails. -/
theorem parser_accepts_grammar (m : Mem) (argv : Ptr) (s : List Char) (hs : m.Chars argv s)
    (hne : s ≠ []) (hlen : s.length < 0x80000000) (hwrites : m.writes = [])
    (hall : (nfpexplParseInterfaces (some argv) true m).2.refused = m.refused) :
    let r := nfpexplParseInterfaces (some argv) true m
    (r.1 = .ok exitSuccess ↔ ∀ tkn ∈ s.splitOn ',', WellFormed tkn) ∧
      (r.1 = .ok exitSuccess →
        r.2.param.ifCount = (s.splitOn ',').length ∧
          r.2.interfaces = some ((s.splitOn ',').map interfaceOf)) ∧
      (r.1 ≠ .ok exitSuccess → r.1 = .ok exitFailure ∧ r.2.param.ifCount = 0) ∧
      (∀ w ∈ r.2.writes, 0 ≤ w.1 ∧ w.1 < w.2) ∧
      r.2.load argv.block = m.load argv.block := by
  intro r
  have hfields : (s.splitOn ',').length < 0x100000000 := by
    have hcount := List.count_le_length (a := ',') (l := s)
    rw [length_splitOn]
    omega
  obtain ⟨hanswer, hnew, hargv⟩ := parser_refines hs hne hfields hall
  have hwritten : ∀ w ∈ r.2.writes, 0 ≤ w.1 ∧ w.1 < w.2 := by
    intro w hw
    have hw' := hnew w hw
    rw [hwrites] at hw'
    exact hw'.resolve_left List.not_mem_nil
  rw [nfpexplParseInterfaces_eq hne] at hanswer
  by_cases hgrammar : ∀ tkn ∈ s.splitOn ',', WellFormed tkn
  · rw [if_pos hgrammar] at hanswer
    exact ⟨iff_of_true hanswer.1 hgrammar, fun _ => hanswer.2, fun h => absurd hanswer.1 h,
      hwritten, hargv⟩
  · rw [if_neg hgrammar] at hanswer
    have hfails : r.1 ≠ .ok exitSuccess := by
      intro h
      cases hanswer.1.symm.trans h
    exact ⟨iff_of_false hfails hgrammar, fun h => absurd h hfails, fun _ => hanswer, hwritten, hargv⟩

/-- Memory that holds a text in its block 0, with an allocator that grants everything. -/
def Mem.holding (s : List Char) : Mem where
  blocks := [some (.chars (s ++ [nul]))]
  answers := fun _ => true
  ledger := []
  refused := 0
  param := ⟨0, none⟩
  writes := []

/-- "a@1/24,b" is two interfaces. -/
theorem parser_accepts_two_interfaces :
    let r := nfpexplParseInterfaces (some ⟨0, 0⟩) true
      (.holding ['a', '@', '1', '/', '2', '4', ',', 'b'])
    r.1 = .ok exitSuccess ∧
      r.2.interfaces = some [⟨['a'], some ['1'], 24⟩, ⟨['b'], none, 0⟩] := by
  have h := parser_accepts_grammar (.holding ['a', '@', '1', '/', '2', '4', ',', 'b']) ⟨0, 0⟩
    ['a', '@', '1', '/', '2', '4', ',', 'b'] ⟨_, rfl, ⟨[], rfl⟩, by decide⟩ (by decide) (by decide)
    rfl (by decide +kernel)
  have hspec : (['a', '@', '1', '/', '2', '4', ',', 'b'].splitOn ',').map interfaceOf =
      [⟨['a'], some ['1'], 24⟩, ⟨['b'], none, 0⟩] := by decide
  have hgrammar := h.1.mpr (by decide)
  have hread := (h.2.1 hgrammar).2
  rw [hspec] at hread
  exact ⟨hgrammar, hread⟩

end Nfp.Common.InMemory
