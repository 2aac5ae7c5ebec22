/-
  File:      Nfp/Common/Repeated.lean
  Subject:   THE OPTION `-i` GIVEN ANY NUMBER OF TIMES: calls of `nfpexpl_parse_interfaces` and of its
             cleanup, in any order and with lists valid and invalid, on one structure that was zeroed
             at the start, as `parse_args` and `parse_args_cleanup` of example/netwrap_proc make them.

  A step is a call that returns. The text of an option lies in a block of the caller's, which the
  ledger does not know.

  * `Between` -- what holds between the calls: the blocks that are left are those reachable from the
    structure, and the cleanup can free them, also through a pointer that is left over;
  * `between_cleanup`, `accounted_parse` -- the cleanup keeps it, and a parse into a structure that
    holds nothing: the `memset` of any other drops what an earlier one has left there;
  * `repeated_options` -- so nothing leaks just if no list is parsed over another.
-/
import Nfp.Common.Ownership
import Nfp.Lib.Run

namespace Nfp.Common.InMemory

open Nfp.Lib

/-- A text, with no NUL in it. -/
structure CString where
  chars : List Char
  clean : nul ∉ chars

/-- The calls made on the structure. -/
inductive Call where
  | parse (argv : Option CString)
  | cleanup

/-- The text of an option stands in a block of the caller's. -/
def Mem.withText (m : Mem) (s : CString) : Mem :=
  { m with blocks := m.blocks ++ [some (.chars (s.chars ++ [nul]))] }

/-- **A call**, whose result nobody looks at. -/
def Call.run : Call → C Unit
  | .parse none => nfpexplParseInterfaces none true >>= fun _ => pure ()
  | .parse (some s) => fun m =>
      (nfpexplParseInterfaces (some ⟨m.blocks.length, 0⟩) true >>= fun _ => pure ()) (m.withText s)
  | .cleanup => nfpexplParseInterfacesParamCleanup true

/-- A call that returns. -/
def nextCall (m : Mem) (c : Call) : Option Mem :=
  match c.run m with
  | (.ok _, m') => some m'
  | (.error _, _) => none

/-! ## The property -/

/-- **Nothing leaks**: the blocks handed out and not freed are those reachable from the structure,
    and none was freed twice. -/
structure NoLeak (m : Mem) : Prop where
  left : ∀ b, b ∈ acquired m.ledger ∧ b ∉ released m.ledger ↔ b ∈ m.reachable
  once : (released m.ledger).Nodup

/-- In a call, whether it returns or not, nothing is freed a second time. -/
structure FreesOnce (r : Except Fault Unit × Mem) : Prop where
  once : (released r.2.ledger).Nodup
  there : ∀ b, r.1 ≠ .error (.badBlock b)

/-- **A list is parsed into a structure that holds nothing.** -/
def Fresh (m : Mem) : Call → Prop
  | .parse (some s) => s.chars = [] ∨ m.reachable = []
  | _ => True

instance (m : Mem) (c : Call) : Decidable (Fresh m c) :=
  match c with
  | .parse (some s) => inferInstanceAs (Decidable (s.chars = [] ∨ m.reachable = []))
  | .parse none => inferInstanceAs (Decidable True)
  | .cleanup => inferInstanceAs (Decidable True)

/-! ## Between the calls -/

/-- The structure is bare, or has entries that can be cleaned up; the blocks that are left are those
    reachable from it. -/
structure Shaped (left : List Nat) (m : Mem) : Prop where
  shape : m.Bare ∨ ∃ arr es, m.Filled arr es
  left : left.Perm m.reachable

/-- **The invariant**, from the memory `m₀` at the start. -/
def Between (m₀ m : Mem) : Prop := ∃ left, m₀.Balance m.toMemory left ∧ Shaped left m

section Between

variable {m₀ m m' : Mem} {left : List Nat}

theorem Between.start (h : m₀.param = ⟨0, none⟩) : Between m₀ m₀ := by
  have hbare : m₀.Bare := Mem.bare_of_load (by rw [h]) (by rw [h]; rfl)
  refine ⟨[], balance_same rfl rfl, .inl hbare, ?_⟩
  rw [hbare.reachable_eq]

theorem released_nodup (hledger : m₀.ledger = []) (h : m₀.Balance m.toMemory left) :
    (released m.ledger).Nodup := by
  obtain ⟨new, hnew, honce, -⟩ := h.entries
  rw [hnew, hledger]
  exact honce

theorem noLeak_iff (hledger : m₀.ledger = []) (h : m₀.Balance m.toMemory left) :
    NoLeak m ↔ ∀ b, b ∈ left ↔ b ∈ m.reachable := by
  obtain ⟨new, hnew, honce, hleft⟩ := h.entries
  rw [hledger, List.nil_append] at hnew
  constructor
  · intro hleak b
    rw [← hleft b, ← hleak.left b, hnew]
  · refine fun hall => ⟨fun b => ?_, released_nodup hledger h⟩
    rw [hnew, hleft b, hall b]

theorem Between.noLeak (hledger : m₀.ledger = []) (h : Between m₀ m) : NoLeak m := by
  obtain ⟨left, hbalance, hshaped⟩ := h
  exact (noLeak_iff hledger hbalance).mpr fun b => hshaped.left.mem_iff

/-- **The cleanup** returns, also when it is called again. -/
theorem between_cleanup (h : Between m₀ m) :
    ∃ m', nfpexplParseInterfacesParamCleanup true m = (.ok (), m') ∧ Between m₀ m' := by
  obtain ⟨left, hbalance, hshape, hleft⟩ := id h
  rcases hshape with hbare | ⟨arr, es, hfilled⟩
  · exact ⟨m, cleanup_zero hbare.count, h⟩
  · by_cases hes : es = []
    · subst hes
      exact ⟨m, cleanup_zero (congrArg IfsParam.ifCount hfilled.param), h⟩
    · rw [hfilled.reachable_eq] at hleft
      have hclean := cleanup_run (congrArg IfsParam.ifArray hfilled.param) hfilled.array
        (congrArg IfsParam.ifCount hfilled.param) hes hfilled.live
      refine ⟨_, hclean, [], hbalance.freeAll (by rwa [List.append_nil]), ?_⟩
      have hbare : Mem.Bare { m with
          toMemory := m.freeAll (owned es ++ [arr]), param := ⟨0, some arr⟩ } :=
        Mem.bare_of_load rfl
          (Memory.load_freeAll_of_mem _ (List.mem_append_right _ List.mem_cons_self))
      exact ⟨.inl hbare, by rw [hbare.reachable_eq]⟩

/-- What a parse that returns has left. -/
theorem Outcome.returned {s : List Char} {ret : Nat} (h : Outcome m s (.ok ret, m')) :
    ∃ left, m.Balance m'.toMemory left ∧ Shaped left m' := by
  cases h with
  | failed _ hbalance hbare hwhen =>
      exact ⟨[], hbalance, .inl hbare, by rw [hbare.reachable_eq]⟩
  | kept _ arr hbalance hfilled hnot =>
      exact ⟨[arr], hbalance, .inr ⟨arr, [], hfilled⟩, by rw [hfilled.reachable_eq]; rfl⟩
  | parsed _ arr es hbalance hfilled hne hwhen =>
      exact ⟨_, hbalance, .inr ⟨arr, es, hfilled⟩, by rw [hfilled.reachable_eq]⟩

/-- A parse that does not return has freed nothing twice. -/
theorem Outcome.stopped {s : List Char} {e : Fault} (hledger : m₀.ledger = [])
    (hm : m₀.Balance m.toMemory left) (h : Outcome m s (.error e, m')) :
    (∀ b, e ≠ .badBlock b) ∧ (released m'.ledger).Nodup := by
  cases h with
  | nullRead _ hbalance hnot =>
      exact ⟨fun b hb => Fault.noConfusion hb, released_nodup hledger (hm.trans hbalance)⟩
  | overrun _ hhanded hwhen =>
      refine ⟨fun b hb => Fault.noConfusion hb, ?_⟩
      rw [hhanded.ledger, released_append, released_map_acquire, List.append_nil]
      exact released_nodup hledger hm

end Between

/-! ## The text of an option -/

section Text

variable {m₀ m m' : Mem} {left : List Nat} {s : CString}

theorem Mem.chars_withText (m : Mem) (s : CString) :
    (m.withText s).Chars ⟨m.blocks.length, 0⟩ s.chars :=
  ⟨s.chars ++ [nul], by simp [Memory.load, Mem.withText], ⟨[], rfl⟩, s.clean⟩

theorem Mem.balance_withText (m : Mem) (s : CString) : m.Balance (m.withText s).toMemory [] := by
  refine ⟨by simp [Mem.withText], fun b hb => Memory.load_append_of_lt rfl hb, [], ?_⟩
  simp [Mem.withText, released]

/-- A text is no array. -/
theorem Mem.reachable_withText (m : Mem) (s : CString) : (m.withText s).reachable = m.reachable := by
  have hparam : (m.withText s).param = m.param := rfl
  unfold Mem.reachable
  rw [hparam]
  cases m.param.ifArray with
  | none => rfl
  | some arr =>
      rcases Nat.lt_or_ge arr m.blocks.length with hlt | hge
      · simp only [(m.balance_withText s).others arr hlt]
      · have hold : m.load arr = none := by
          unfold Memory.load
          rw [List.getElem?_eq_none hge]
          rfl
        have hnew : ∀ es, (m.withText s).load arr ≠ some (.ifs es) := by
          intro es
          unfold Memory.load
          rw [show (m.withText s).blocks = m.blocks ++ _ from rfl, List.getElem?_append_right hge]
          cases arr - m.blocks.length with
          | zero => simp
          | succ n => simp
        simp only [hold]
        generalize (m.withText s).load arr = o at hnew
        rcases o with - | (buf | es)
        · rfl
        · rfl
        · exact absurd rfl (hnew es)

theorem Shaped.withText (h : Shaped left m) (s : CString) : Shaped left (m.withText s) := by
  refine ⟨?_, by rw [m.reachable_withText]; exact h.left⟩
  rcases h.shape with hbare | ⟨arr, es, hfilled⟩
  · exact .inl ⟨hbare.count, by rw [m.reachable_withText]; exact hbare.reachable_eq⟩
  · have hsame : ∀ {b : Nat} {v : Block}, m.load b = some v → (m.withText s).load b = some v :=
      fun hv => Memory.load_of_append rfl hv
    refine .inr ⟨arr, es, hfilled.param, hsame hfilled.array, hfilled.live.nodup, fun b hb => ?_⟩
    obtain ⟨v, hv⟩ := Option.ne_none_iff_exists'.mp (hfilled.live.there b hb)
    rw [hsame hv]
    exact Option.some_ne_none _

theorem Between.withText (h : Between m₀ m) (s : CString) : Between m₀ (m.withText s) := by
  obtain ⟨left, hbalance, hshaped⟩ := h
  have hboth := hbalance.trans (m.balance_withText s)
  rw [List.append_nil] at hboth
  exact ⟨left, hboth, hshaped.withText s⟩

end Text

/-! ## The calls -/

section Calls

variable {m₀ m m' : Mem} {s : CString}

/-- A parse of a text: what it returns is dropped. -/
theorem run_parse_cases (m : Mem) (s : CString) :
    (∃ ret m', nfpexplParseInterfaces (some ⟨m.blocks.length, 0⟩) true (m.withText s) = (.ok ret, m') ∧
      (Call.parse (some s)).run m = (.ok (), m')) ∨
    ∃ e m', nfpexplParseInterfaces (some ⟨m.blocks.length, 0⟩) true (m.withText s) = (.error e, m') ∧
      (Call.parse (some s)).run m = (.error e, m') := by
  rcases hrun : nfpexplParseInterfaces (some ⟨m.blocks.length, 0⟩) true (m.withText s) with ⟨r, m'⟩
  cases r with
  | ok ret => exact .inl ⟨ret, m', rfl, Prog.bind_ok hrun⟩
  | error e => exact .inr ⟨e, m', rfl, Prog.bind_error hrun⟩

theorem nextCall_ok {c : Call} (h : c.run m = (.ok (), m')) : nextCall m c = some m' := by
  unfold nextCall
  rw [h]

theorem nextCall_error {c : Call} {e : Fault} (h : c.run m = (.error e, m')) :
    nextCall m c = none := by
  unfold nextCall
  rw [h]

/-- **What is to be shown of a call**: it frees nothing twice, and if it returns, the invariant is
    kept by a call that meets the condition, and something leaks in any other. -/
structure Accounted (m₀ m : Mem) (c : Call) : Prop where
  frees : FreesOnce (c.run m)
  kept : ∀ m', nextCall m c = some m' → Fresh m c → Between m₀ m'
  leaks : ∀ m', nextCall m c = some m' → ¬ Fresh m c → ¬ NoLeak m'

/-- A call that returns and keeps the invariant. -/
theorem Between.accounted (hledger : m₀.ledger = []) {c : Call} (h : Between m₀ m')
    (hrun : c.run m = (.ok (), m')) (hfresh : Fresh m c) : Accounted m₀ m c := by
  have hnext := nextCall_ok hrun
  refine ⟨⟨?_, fun b => ?_⟩, fun m'' hm'' _ => ?_, fun _ _ hnot => absurd hfresh hnot⟩
  · rw [hrun]
    exact (h.noLeak hledger).once
  · rw [hrun]
    exact fun hb => by cases hb
  · rw [hnext] at hm''
    cases hm''
    exact h

/-- **A parse of a list**: the blocks that were reachable before are left as well. -/
theorem accounted_parse (hledger : m₀.ledger = []) (h : Between m₀ m) (hne : s.chars ≠ []) :
    Accounted m₀ m (.parse (some s)) := by
  obtain ⟨left, hbalance, hshaped⟩ := id h
  have htext := hbalance.trans (m.balance_withText s)
  rw [List.append_nil] at htext
  have houtcome := parse_outcome (m.chars_withText s) hne
  rcases run_parse_cases m s with ⟨ret, m', hparse, hrun⟩ | ⟨e, m', hparse, hrun⟩
  · rw [hparse] at houtcome
    obtain ⟨left', hbalance', hshaped'⟩ := houtcome.returned
    have hboth := htext.trans hbalance'
    have hnext := nextCall_ok hrun
    refine ⟨⟨?_, fun b => ?_⟩, fun m'' hm'' hfresh => ?_, fun m'' hm'' hnot hleak => ?_⟩
    · rw [hrun]
      exact released_nodup hledger hboth
    · rw [hrun]
      exact fun hb => by cases hb
    · rw [hnext] at hm''
      cases hm''
      -- nothing was left before
      have hempty := hshaped.left
      rw [hfresh.resolve_left hne] at hempty
      rw [hempty.eq_nil, List.nil_append] at hboth
      exact ⟨left', hboth, hshaped'⟩
    · rw [hnext] at hm''
      cases hm''
      refine hnot (.inr (List.eq_nil_iff_forall_not_mem.mpr fun b hb => ?_))
      -- a block that was reachable is left, and no longer reachable
      have hold := hshaped.left.mem_iff.mpr hb
      have hnow := ((noLeak_iff hledger hboth).mp hleak b).mp (List.mem_append_left _ hold)
      have hnew := hshaped'.left.mem_iff.mpr hnow
      exact (List.disjoint_of_nodup_append hboth.nodup) hold hnew
  · rw [hparse] at houtcome
    obtain ⟨hbad, honce⟩ := houtcome.stopped hledger htext
    have hnext := nextCall_error hrun
    refine ⟨⟨?_, fun b => ?_⟩, fun m'' hm'' => ?_, fun m'' hm'' => ?_⟩
    · rw [hrun]
      exact honce
    · rw [hrun]
      exact fun hb => hbad b (Except.error.inj hb)
    · rw [hnext] at hm''
      cases hm''
    · rw [hnext] at hm''
      cases hm''

/-- **Every call**, between two others. -/
theorem Between.call (hledger : m₀.ledger = []) (h : Between m₀ m) (c : Call) :
    Accounted m₀ m c := by
  cases c with
  | cleanup =>
      obtain ⟨m', hrun, hm'⟩ := between_cleanup h
      exact hm'.accounted hledger hrun trivial
  | parse argv =>
      cases argv with
      | none => exact h.accounted hledger rfl trivial
      | some s =>
          by_cases hempty : s.chars = []
          · have hchars := m.chars_withText s
            rw [hempty] at hchars
            have hrun : (Call.parse (some s)).run m = (.ok (), m.withText s) :=
              Prog.bind_ok (parse_empty hchars)
            exact (h.withText s).accounted hledger hrun (.inl hempty)
          · exact accounted_parse hledger h hempty

end Calls

/-- **The option given any number of times**: if every list is parsed into a structure that holds
    nothing, nothing leaks at any point between the calls; and from there no call frees a block twice,
    and one that returns leaks nothing just if it meets the condition. -/
theorem repeated_options {m₀ m : Mem} (hzero : m₀.param = ⟨0, none⟩) (hledger : m₀.ledger = [])
    (h : Reach nextCall Fresh m₀ m) :
    NoLeak m ∧ ∀ c, FreesOnce (c.run m) ∧
      ∀ m', nextCall m c = some m' → (NoLeak m' ↔ Fresh m c) := by
  have hbetween : Between m₀ m := h.inv (.start hzero) fun _ c m' hs hfresh hstep =>
    (hs.call hledger c).kept m' hstep hfresh
  refine ⟨hbetween.noLeak hledger, fun c => ?_⟩
  have hcall := hbetween.call hledger c
  refine ⟨hcall.frees, fun m' hm' => ⟨fun hleak => ?_, fun hfresh => ?_⟩⟩
  · by_contra hnot
    exact hcall.leaks m' hm' hnot hleak
  · exact (hcall.kept m' hm' hfresh).noLeak hledger

/-- A list that is refused, the cleanup of `parse_args`, which finds the pointer left over, and a list
    that is accepted. -/
theorem repeated_options_refused_list :
    ∃ m, Reach nextCall Fresh (.holding []) m ∧
      (acquired m.ledger = [2, 3, 4, 6, 7, 8, 9, 10] ∧ released m.ledger = [3, 4, 2, 7]) ∧
      NoLeak m := by
  have hrun : (run (restrict nextCall Fresh) (.holding [])
      [.parse (some ⟨['a', '@', '1'], by decide⟩), .cleanup,
        .parse (some ⟨['a', ',', 'b', '@', '1', '/', '8'], by decide⟩)]).any
      (fun m => decide (acquired m.ledger = [2, 3, 4, 6, 7, 8, 9, 10] ∧
        released m.ledger = [3, 4, 2, 7])) := by decide +kernel
  obtain ⟨m, hr, hm⟩ := Reach.of_run_any hrun
  have hr' := hr.of_restrict
  exact ⟨m, hr', of_decide_eq_true hm, (repeated_options rfl rfl hr').1⟩

/-- **`-i a -i b`**: the array and the name of the first list are never freed. -/
theorem second_list_leaks_first :
    ∃ m, Reach nextCall anyStep (.holding []) m ∧
      (acquired m.ledger = [2, 3, 4, 6, 7, 8] ∧ released m.ledger = [3, 7, 8, 6] ∧
        m.reachable = []) ∧ ¬ NoLeak m := by
  have hrun : (run nextCall (.holding []) [.parse (some ⟨['a'], by decide⟩),
      .parse (some ⟨['b'], by decide⟩), .cleanup]).any
      (fun m => decide (acquired m.ledger = [2, 3, 4, 6, 7, 8] ∧ released m.ledger = [3, 7, 8, 6] ∧
        m.reachable = [])) := by decide +kernel
  obtain ⟨m, hr, hm⟩ := Reach.of_run_any hrun
  obtain ⟨hacquired, hreleased, hreachable⟩ := of_decide_eq_true hm
  refine ⟨m, hr, ⟨hacquired, hreleased, hreachable⟩, fun h => ?_⟩
  have hleft := (h.left 2).mp (by rw [hacquired, hreleased]; decide)
  rw [hreachable] at hleft
  cases hleft

end Nfp.Common.InMemory
