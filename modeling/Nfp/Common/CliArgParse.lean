/-
  File:      Nfp/Common/CliArgParse.lean
  Subject:   THE LIST OF INTERFACES of the option `-i`: `nfpexpl_parse_interfaces` of
             example/common/cli_arg_parse.c, and the parser that `parse_args` of ioctl_test,
             multicast and socket has in its place, the same text in each of the three.

  A C string is the list of its characters. Memory can always be had.

  * `nfpexplParseInterfaces_names` -- what is accepted has the names asked for, and as many;
  * `parsers_agree_iff` -- on a text without addresses the two parsers agree just if no comma stands
    in front, at the end or next to another: the one keeps empty names, the other skips them.
-/
import Nfp.Lib.Text

namespace Nfp.Common

open Nfp.Lib

/-- `NFP_FP_INTERFACE_MAX` (nfp_config.h): no list may be longer where its names or queues go into an
    array. -/
def nfpFpInterfaceMax : Nat := 8

/-- The character that ends a C string. -/
def nul : Char := Char.ofNat 0

/-- `struct appl_arg_if`; the length of the mask is an `int`. -/
structure ApplArgIf where
  ifName : List Char
  ifAddress : Option (List Char)
  ifAddressMasklen : Int
  deriving DecidableEq, Repr

/-- `appl_arg_ifs_t`. -/
structure ApplArgIfs where
  ifCount : Nat
  ifArray : List ApplArgIf
  deriving DecidableEq, Repr

/-- `isspace` of the C library: the blank, and the five characters from tab to carriage return. -/
def isSpace (c : Char) : Bool := c = ' ' ∨ (9 ≤ c.toNat ∧ c.toNat ≤ 13)

/-- The digits up to the first character that is none. -/
def decimal (s : List Char) : Nat :=
  (s.takeWhile Char.isDigit).foldl (fun n c => 10 * n + (c.toNat - 48)) 0

/-- `strtol` to the base 10: blanks, a sign, and digits; a number that no `long` holds is the
    nearest that one does. -/
def strtol (s : List Char) : Int :=
  let number : Int :=
    match s.dropWhile isSpace with
    | '-' :: t => -decimal t
    | '+' :: t => decimal t
    | t => decimal t
  max (-0x8000000000000000) (min number 0x7fffffffffffffff)

/-- `atoi`: `(int) strtol(s, NULL, 10)`, the low 32 bits of the `long` with their sign. -/
def atoi (s : List Char) : Int := Int.bmod (strtol s) 0x100000000

/-- The name, the address and the length of the mask of one field; an address without a mask is an
    error. -/
def parseInterface (tkn : List Char) : Option ApplArgIf :=
  match cut '@' tkn with
  | (name, none) => some ⟨name, none, 0⟩
  | (name, some tknAddr) =>
      match cut '/' tknAddr with
      | (_, none) => none
      | (addr, some mask) => some ⟨name, some addr, atoi mask⟩

/-- **`nfpexpl_parse_interfaces`**: the fields are counted, then parsed one by one. -/
def nfpexplParseInterfaces (argv : List Char) : Option ApplArgIfs :=
  if argv = [] then none
  else
    match (fields ',' argv).mapM parseInterface with
    | none => none
    | some ifs => some ⟨(fields ',' argv).length, ifs⟩

/-- **The parser in `parse_args`** of ioctl_test, multicast and socket: `if_count` and `if_names`. -/
def strtokInterfaces (optarg : List Char) : Option (Nat × List (List Char)) :=
  if optarg = [] then none
  else if (tokens ',' optarg).length = 0 then none
  else some ((tokens ',' optarg).length, tokens ',' optarg)

/-- The names asked for: each field up to its address. -/
def interfaceNames (argv : List Char) : List (List Char) :=
  (argv.splitOn ',').map (·.takeWhile (· ≠ '@'))

/-- The names parsed. -/
def ApplArgIfs.names (p : ApplArgIfs) : List (List Char) := p.ifArray.map ApplArgIf.ifName

theorem parseInterface_name {tkn : List Char} {ifarg : ApplArgIf}
    (h : parseInterface tkn = some ifarg) : ifarg.ifName = tkn.takeWhile (· ≠ '@') := by
  have hname := cut_fst '@' tkn
  unfold parseInterface at h
  generalize cut '@' tkn = r at h hname
  obtain ⟨name, addr⟩ := r
  rw [← hname]
  cases addr with
  | none => exact congrArg ApplArgIf.ifName (Option.some.inj h).symm
  | some tknAddr =>
      generalize hmask : cut '/' tknAddr = r at h
      obtain ⟨addr, mask⟩ := r
      simp only [hmask] at h
      cases mask with
      | none => cases h
      | some mask => exact congrArg ApplArgIf.ifName (Option.some.inj h).symm

theorem parseInterface_plain {tkn : List Char} (hat : '@' ∉ tkn) :
    parseInterface tkn = some ⟨tkn, none, 0⟩ := by
  rcases cut_cases '@' tkn with ⟨-, hcut⟩ | ⟨field, rest, htkn, -⟩
  · unfold parseInterface
    rw [hcut]
  · exact absurd (htkn ▸ List.mem_append_right field List.mem_cons_self) hat

/-- The names of the fields parsed. -/
theorem mapM_parseInterface {tkns : List (List Char)} {ifs : List ApplArgIf}
    (h : tkns.mapM parseInterface = some ifs) :
    ifs.map ApplArgIf.ifName = tkns.map (·.takeWhile (· ≠ '@')) := by
  induction tkns generalizing ifs with
  | nil =>
      cases h
      rfl
  | cons tkn tkns ih =>
      rw [List.mapM_cons] at h
      obtain ⟨ifarg, htkn, h⟩ := Option.bind_eq_some_iff.mp h
      obtain ⟨ifs', htkns, h⟩ := Option.bind_eq_some_iff.mp h
      cases h
      rw [List.map_cons, List.map_cons, parseInterface_name htkn, ih htkns]

/-- **What is accepted has the names asked for**, and as many. -/
theorem nfpexplParseInterfaces_names {argv : List Char} {p : ApplArgIfs}
    (h : nfpexplParseInterfaces argv = some p) :
    p.names = interfaceNames argv ∧ p.ifCount = (interfaceNames argv).length := by
  unfold nfpexplParseInterfaces at h
  rw [fields_eq] at h
  split at h
  · cases h
  · cases hifs : (argv.splitOn ',').mapM parseInterface with
    | none =>
        rw [hifs] at h
        cases h
    | some ifs =>
        rw [hifs] at h
        cases h
        exact ⟨mapM_parseInterface hifs, (List.length_map _).symm⟩

/-- Without an address every text is accepted that is not empty. -/
theorem nfpexplParseInterfaces_plain {argv : List Char} (hne : argv ≠ []) (hat : '@' ∉ argv) :
    (nfpexplParseInterfaces argv).map (fun p => (p.ifCount, p.names)) =
      some ((fields ',' argv).length, fields ',' argv) := by
  have hfields : ∀ tkn ∈ fields ',' argv, '@' ∉ tkn := by
    rw [fields_eq]
    exact fun tkn htkn hmem => hat (mem_of_mem_splitOn htkn hmem)
  have hall : (fields ',' argv).mapM parseInterface =
      some ((fields ',' argv).map fun tkn => ⟨tkn, none, 0⟩) := by
    generalize fields ',' argv = tkns at hfields
    induction tkns with
    | nil => rfl
    | cons tkn tkns ih =>
        obtain ⟨htkn, htkns⟩ := List.forall_mem_cons.mp hfields
        rw [List.mapM_cons, parseInterface_plain htkn, ih htkns]
        rfl
  unfold nfpexplParseInterfaces
  rw [if_neg hne, hall]
  simp [ApplArgIfs.names, Function.comp_def]

/-- **The two parsers agree** on a text without addresses just if no comma stands in front, at the
    end or next to another. -/
theorem parsers_agree_iff (s : List Char) (hne : s ≠ []) (hat : '@' ∉ s) :
    (nfpexplParseInterfaces s).map (fun p => (p.ifCount, p.names)) = strtokInterfaces s ↔
      s.head? ≠ some ',' ∧ s.getLast? ≠ some ',' ∧ ¬ [',', ','] <:+: s := by
  have hempty := (nil_mem_splitOn_iff ',' hne).not
  rw [not_or, not_or] at hempty
  rw [nfpexplParseInterfaces_plain hne hat, ← hempty, ← tokens_eq_fields_iff]
  unfold strtokInterfaces
  rw [if_neg hne]
  by_cases hnone : (tokens ',' s).length = 0
  · -- nothing but commas: one parser refuses, the other has a field
    rw [if_pos hnone]
    refine iff_of_false (fun h => by cases h) fun h => ?_
    rw [h, fields_eq, List.length_eq_zero_iff] at hnone
    exact List.splitOn_ne_nil ',' s hnone
  · rw [if_neg hnone]
    refine ⟨fun h => ?_, fun h => by rw [h]⟩
    exact (Prod.mk.inj (Option.some.inj h)).2.symm

theorem parsers_agree_two_interfaces :
    (nfpexplParseInterfaces ['a', ',', 'b']).map (fun p => (p.ifCount, p.names)) =
      strtokInterfaces ['a', ',', 'b'] :=
  (parsers_agree_iff ['a', ',', 'b'] (by decide) (by decide)).mpr (by decide)

/-- "a,,b" is three interfaces to the one parser and two to the other, and a lone comma is two
    interfaces without a name to the one and an error to the other. -/
theorem parsers_differ_on_empty_fields :
    (nfpexplParseInterfaces ['a', ',', ',', 'b']).map (fun p => (p.ifCount, p.names)) =
        some (3, [['a'], [], ['b']]) ∧
      strtokInterfaces ['a', ',', ',', 'b'] = some (2, [['a'], ['b']]) ∧
      (nfpexplParseInterfaces [',']).map (fun p => (p.ifCount, p.names)) = some (2, [[], []]) ∧
      strtokInterfaces [','] = none := by
  decide

end Nfp.Common
