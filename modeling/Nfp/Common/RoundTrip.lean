/-
  File:      Nfp/Common/RoundTrip.lean
  Subject:   LISTS OF INTERFACES, WRITTEN AND PARSED AGAIN: each as its name, or as
             name@address/masklen with the length of the mask in decimal, with commas between them,
             and given to `nfpexpl_parse_interfaces` (example/common/cli_arg_parse.c).

  * `atoi_toDigits` -- `atoi` reads what is written in decimal, as far as an `int` goes;
  * `nfpexplParseInterfaces_write` -- the parser of texts (CliArgParse.lean) gives the list back;
  * `interfaces_round_trip` -- and so does the parser in memory, through `parser_refines`, for a list
    that an `int` can count;
  * `parse_wrapped` -- with 2^32 interfaces `if_count` is 0 again, and the first name is written
    behind the array.
-/
import Nfp.Common.Ownership

namespace Nfp.Common.InMemory

open Nfp.Lib

/-- An address, and the length of its mask. -/
structure Address where
  text : List Char
  masklen : Nat
  comma : ',' ∉ text
  slash : '/' ∉ text
  clean : nul ∉ text
  fits : masklen < 0x80000000

/-- **An interface as it is asked for.** -/
structure Interface where
  name : List Char
  address : Option Address
  comma : ',' ∉ name
  atSign : '@' ∉ name
  clean : nul ∉ name

/-- The address as it is written. -/
def Address.write (a : Address) : List Char := a.text ++ '/' :: Nat.toDigits 10 a.masklen

def Interface.write (i : Interface) : List Char :=
  match i.address with
  | none => i.name
  | some a => i.name ++ '@' :: a.write

/-- **The text** of a list. -/
def writeInterfaces (ifs : List Interface) : List Char :=
  [','].intercalate (ifs.map Interface.write)

/-- The entry that stands for an interface. -/
def Interface.applArgIf (i : Interface) : ApplArgIf :=
  ⟨i.name, i.address.map Address.text, (i.address.map fun a => (a.masklen : Int)).getD 0⟩

/-! ## One interface -/

theorem isSpace_of_isDigit {c : Char} (h : c.isDigit = true) : isSpace c = false := by
  have hge : 48 ≤ c.toNat := by
    unfold Char.isDigit at h
    rw [Bool.and_eq_true_iff, decide_eq_true_iff] at h
    exact UInt32.le_iff_toNat_le.mp h.1
  unfold isSpace
  rw [decide_eq_false_iff_not]
  rintro (rfl | ⟨-, hle⟩)
  · revert hge
    decide
  · omega

theorem decimal_toDigits (n : Nat) : decimal (Nat.toDigits 10 n) = n := by
  have hdigits : ∀ c ∈ Nat.toDigits 10 n, c.isDigit = true := fun c hc =>
    Nat.isDigit_of_mem_toDigits (by decide) (by decide) hc
  unfold decimal
  rw [List.takeWhile_eq_self_iff.mpr hdigits]
  exact Nat.ofDigitChars_eq_foldl.symm.trans Nat.ofDigitChars_ten_toDigits

/-- **`strtol` reads what was written in decimal**, as far as a `long` goes. -/
theorem strtol_toDigits {n : Nat} (hn : n < 0x8000000000000000) :
    strtol (Nat.toDigits 10 n) = n := by
  have hdigits : ∀ c ∈ Nat.toDigits 10 n, c.isDigit = true := fun c hc =>
    Nat.isDigit_of_mem_toDigits (by decide) (by decide) hc
  have hspace : (Nat.toDigits 10 n).dropWhile isSpace = Nat.toDigits 10 n := by
    cases hlist : Nat.toDigits 10 n with
    | nil => rfl
    | cons c rest =>
        rw [hlist] at hdigits
        refine List.dropWhile_cons_of_neg ?_
        rw [isSpace_of_isDigit (hdigits c List.mem_cons_self)]
        exact Bool.false_ne_true
  unfold strtol
  rw [hspace]
  -- a digit is no sign
  split
  · rename_i heq
    have hsign := hdigits '-' (heq ▸ List.mem_cons_self)
    cases hsign
  · rename_i heq
    have hsign := hdigits '+' (heq ▸ List.mem_cons_self)
    cases hsign
  · rw [decimal_toDigits]
    show max _ (min (n : Int) _) = n
    omega

/-- **`atoi` reads what was written in decimal**, as far as an `int` goes. -/
theorem atoi_toDigits {n : Nat} (hn : n < 0x80000000) : atoi (Nat.toDigits 10 n) = n := by
  unfold atoi
  rw [strtol_toDigits (by omega)]
  exact Int.bmod_eq_of_le (by omega) (by omega)

example : atoi (Nat.toDigits 10 4294967300) = 4 := by decide

/-- A character that is no digit is not among those of a number. -/
theorem not_mem_toDigits {c : Char} (hc : c.isDigit = false) (n : Nat) : c ∉ Nat.toDigits 10 n := by
  intro hmem
  have hdigit := Nat.isDigit_of_mem_toDigits (by decide) (by decide) hmem
  rw [hc] at hdigit
  cases hdigit

/-- A character that an interface is free of, and that is none of those it is written with. -/
theorem Interface.not_mem_write {c : Char} {i : Interface} (hname : c ∉ i.name)
    (haddress : ∀ a, i.address = some a → c ∉ a.text) (hat : c ≠ '@') (hslash : c ≠ '/')
    (hdigit : c.isDigit = false) : c ∉ i.write := by
  unfold Interface.write
  cases ha : i.address with
  | none => exact hname
  | some a =>
      simp only [Address.write, List.mem_append, List.mem_cons, not_or]
      exact ⟨hname, hat, haddress a ha, hslash, not_mem_toDigits hdigit _⟩

/-- **One interface comes back.** -/
theorem parseInterface_write (i : Interface) : parseInterface i.write = some i.applArgIf := by
  unfold Interface.write Interface.applArgIf
  cases i.address with
  | none => exact parseInterface_plain i.atSign
  | some a =>
      have hat := cut_append_cons i.atSign a.write
      have hslash := cut_append_cons a.slash (Nat.toDigits 10 a.masklen)
      rw [parseInterface_address hat]
      show (cut '/' a.write).2.map _ = _
      unfold Address.write
      rw [hslash, Option.map_some, atoi_toDigits a.fits]
      rfl

/-! ## The list -/

section List

variable {ifs : List Interface}

theorem splitOn_writeInterfaces (hifs : ifs ≠ []) :
    (writeInterfaces ifs).splitOn ',' = ifs.map Interface.write := by
  refine List.splitOn_intercalate ',' (fun l hl => ?_) (by simpa using hifs)
  obtain ⟨i, -, rfl⟩ := List.mem_map.mp hl
  exact i.not_mem_write i.comma (fun a _ => a.comma) (by decide) (by decide) (by decide)

theorem length_splitOn_writeInterfaces (hifs : ifs ≠ []) :
    ((writeInterfaces ifs).splitOn ',').length = ifs.length := by
  rw [splitOn_writeInterfaces hifs, List.length_map]

theorem mapM_parseInterface_write (ifs : List Interface) :
    (ifs.map Interface.write).mapM parseInterface = some (ifs.map Interface.applArgIf) := by
  induction ifs with
  | nil => rfl
  | cons i ifs ih =>
      rw [List.map_cons, List.mapM_cons, parseInterface_write, ih]
      rfl

/-- **The parser of texts gives the list back.** -/
theorem nfpexplParseInterfaces_write (hifs : ifs ≠ []) (hne : writeInterfaces ifs ≠ []) :
    Common.nfpexplParseInterfaces (writeInterfaces ifs) =
      some ⟨ifs.length, ifs.map Interface.applArgIf⟩ := by
  unfold Common.nfpexplParseInterfaces
  rw [if_neg hne, fields_eq, splitOn_writeInterfaces hifs, mapM_parseInterface_write,
    List.length_map]

end List

/-- **Lists of interfaces round-trip.** A list of fewer than 2^32 interfaces, written and parsed with
    no memory refused, comes back whole and in order. -/
theorem interfaces_round_trip (ifs : List Interface) (hifs : ifs ≠ [])
    (hfew : ifs.length < 0x100000000) (m : Mem) (argv : Ptr)
    (hs : m.Chars argv (writeInterfaces ifs)) (hne : writeInterfaces ifs ≠ [])
    (hall : (nfpexplParseInterfaces (some argv) true m).2.refused = m.refused) :
    let r := nfpexplParseInterfaces (some argv) true m
    r.1 = .ok exitSuccess ∧ r.2.param.ifCount = ifs.length ∧
      r.2.interfaces = some (ifs.map Interface.applArgIf) := by
  have hfields : ((writeInterfaces ifs).splitOn ',').length < 0x100000000 := by
    rw [length_splitOn_writeInterfaces hifs]
    exact hfew
  obtain ⟨hanswer, -⟩ := parser_refines hs hne hfields hall
  rw [nfpexplParseInterfaces_write hifs hne] at hanswer
  exact hanswer

/-- "a@1/24,b". -/
theorem interfaces_round_trip_two :
    let a : Interface := ⟨['a'], some ⟨['1'], 24, by decide, by decide, by decide, by decide⟩,
      by decide, by decide, by decide⟩
    let b : Interface := ⟨['b'], none, by decide, by decide, by decide⟩
    writeInterfaces [a, b] = ['a', '@', '1', '/', '2', '4', ',', 'b'] ∧
      (nfpexplParseInterfaces (some ⟨0, 0⟩) true (.holding (writeInterfaces [a, b]))).2.interfaces =
        some [⟨['a'], some ['1'], 24⟩, ⟨['b'], none, 0⟩] := by
  intro a b
  have htext : writeInterfaces [a, b] = ['a', '@', '1', '/', '2', '4', ',', 'b'] := by decide
  have h := interfaces_round_trip [a, b] (by simp) (by simp) (.holding (writeInterfaces [a, b]))
    ⟨0, 0⟩ ⟨_, rfl, ⟨[], rfl⟩, by rw [htext]; decide⟩ (by rw [htext]; simp)
    (by rw [htext]; decide +kernel)
  exact ⟨htext, h.2.2⟩

/-! ## More interfaces than an `int` counts -/

/-- An allocator that grants everything, and has refused nothing. -/
def Granting (k : Nat) (m : Mem) : Prop := (∀ n, m.answers n = true) ∧ m.refused = k

theorem framed_granting (k : Nat) : Framed (Granting k) where
  store _ _ _ h := h
  alloc m v h := by
    have hyes : (true && m.answers 0) = true := h.1 0
    unfold Memory.alloc
    rw [if_pos hyes]
    exact ⟨fun n => h.1 (n + 1), h.2⟩
  record _ _ h := h

/-- **A count that has wrapped round to zero**: the array has no entries, and the first name is
    written behind it. -/
theorem parse_wrapped {m : Mem} {argv : Ptr} {s : List Char} (hs : m.Chars argv s) (hne : s ≠ [])
    (hzero : counted s = 0) (hgrants : ∀ n, m.answers n = true) :
    (nfpexplParseInterfaces (some argv) true m).1 = .error (.outside 0) ∧
      (nfpexplParseInterfaces (some argv) true m).2.refused = m.refused := by
  obtain ⟨_, -, hbuf⟩ := id hs
  have hyes : (callocFits 0 && m.answers 0) = true := by rw [hgrants 0]; decide
  have hget := getInterfaces_granted (m := { m with param := ⟨0, none⟩ }) (k := 0) argv s.length rfl
    rfl hyes
  have hcopied := parseCopy_granted (k := 0) s.length hs (hgrants 1)
  have hes : (View.opened m 0 s).es = [] ++ List.replicate 0 .zero := rfl
  have hholds : Holds nul (s ++ [nul]) 0 s := ⟨⟨[], rfl⟩, hbuf.clean⟩
  have hends := parseLoop_ends (View.opened_sound m 0 s) hes (Nat.zero_le _) hholds
    (Nat.lt_succ_self _) (by show (0 : Int) < _; decide)
  have hstop := hends.resolve_left fun ⟨_, _, _, _, _, _, hpos, _⟩ => hpos rfl
  change (parseLoop (s.length + 1) (some ⟨(View.opened m 0 s).copy, 0⟩) 0
    (View.opened m 0 s).mem).1 = .error (.outside 0) at hstop
  have hkept := keeps_parseLoop (framed_granting m.refused) (s.length + 1)
    (some ⟨(View.opened m 0 s).copy, 0⟩) 0 (View.opened m 0 s).mem
    ⟨fun n => hgrants (n + 1 + 1), rfl⟩
  rcases hrun : parseLoop (s.length + 1) (some ⟨(View.opened m 0 s).copy, 0⟩) 0
    (View.opened m 0 s).mem with ⟨r, m'⟩
  rw [hrun] at hstop hkept
  obtain rfl : r = .error (.outside 0) := hstop
  rw [parse_counted hs hne, iterate_counted, hzero, Prog.bind_of_eq hget]
  show ((parseCopy argv s.length >>= fun r => finish true r.1 r.2) (m.withArray 0)).1 = _ ∧
    ((parseCopy argv s.length >>= fun r => finish true r.1 r.2) (m.withArray 0)).2.refused = _
  rw [Prog.bind_error (hcopied.trans (Prog.bind_error hrun))]
  exact ⟨rfl, hkept.2⟩

theorem nul_not_mem_writeInterfaces (ifs : List Interface) : nul ∉ writeInterfaces ifs := by
  have hwrite : ∀ i : Interface, nul ∉ i.write := fun i =>
    i.not_mem_write i.clean (fun a _ => a.clean) (by decide) (by decide) (by decide)
  unfold writeInterfaces
  induction ifs with
  | nil => exact List.not_mem_nil
  | cons i ifs ih =>
      cases ifs with
      | nil =>
          rw [List.map_cons, List.map_nil, List.intercalate_singleton]
          exact hwrite i
      | cons j ifs =>
          rw [List.map_cons, List.map_cons, List.intercalate_cons_cons, List.mem_append,
            List.mem_append, not_or, not_or]
          exact ⟨⟨hwrite i, by decide⟩, ih⟩

/-- **2^32 interfaces without a name**: no memory is refused, and the parser writes behind its
    array. -/
theorem interfaces_overrun :
    ∃ ifs : List Interface, ifs.length = 0x100000000 ∧ writeInterfaces ifs ≠ [] ∧
      (nfpexplParseInterfaces (some ⟨0, 0⟩) true (.holding (writeInterfaces ifs))).1 =
        .error (.outside 0) ∧
      (nfpexplParseInterfaces (some ⟨0, 0⟩) true (.holding (writeInterfaces ifs))).2.refused = 0 := by
  obtain ⟨ifs, hlength⟩ : ∃ ifs : List Interface, ifs.length = 0x100000000 :=
    ⟨.replicate 0x100000000 ⟨[], none, by decide, by decide, by decide⟩, List.length_replicate⟩
  have hifs : ifs ≠ [] := by
    rintro rfl
    cases hlength
  have hcount : counted (writeInterfaces ifs) = 0 := by
    unfold counted
    rw [length_splitOn_writeInterfaces hifs, hlength]
    decide
  have hne : writeInterfaces ifs ≠ [] := by
    intro hempty
    have hone := length_splitOn_writeInterfaces hifs
    rw [hempty, hlength] at hone
    revert hone
    decide
  exact ⟨ifs, hlength, hne, parse_wrapped
    ⟨_, rfl, ⟨[], rfl⟩, nul_not_mem_writeInterfaces ifs⟩ hne hcount fun _ => rfl⟩

end Nfp.Common.InMemory
