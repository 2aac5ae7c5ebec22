/-
  File:      Nfp/NetwrapProc/Env.lean
  Subject:   FROM `NFP_NETWRAP_ENV` TO `nfp_initialize`: `parse_env` and `parse_args` of
             example/netwrap_proc/app_main.c, and the interfaces the constructor hands on.

  The string is cut into words at its blanks, the words go through `getopt_long`, the argument of
  `-i` through `nfpexpl_parse_interfaces`, and the names are copied into the parameters. The words
  beyond the first hundred are dropped; the copy stops at `NFP_FP_INTERFACE_MAX`, the count does
  not.

  * `parseEnv_names` -- what `parse_env` keeps are the interfaces of the last `-i` among the first
    hundred words;
  * `copyNames_row` -- the rows the copy fills;
  * `initParams_describe_iff` -- the parameters are as asked for just if there are no more names
    than rows and the dropped words change none of them.
-/
import Nfp.Common.CliArgParse

namespace Nfp.NetwrapProc

open Nfp.Lib Nfp.Common

/-! ## The arguments -/

/-- The options of `parse_args`: `"+c:i:hpf:"` and `longopts`. -/
def netwrapOptions : OptTable Char where
  dash := '-'
  assign := '='
  short c :=
    if c = 'c' ∨ c = 'i' ∨ c = 'f' then some true
    else if c = 'h' ∨ c = 'p' then some false
    else none
  long :=
    [⟨['c', 'o', 'u', 'n', 't'], true, 'c'⟩,
      ⟨['i', 'n', 't', 'e', 'r', 'f', 'a', 'c', 'e'], true, 'i'⟩,
      ⟨['h', 'e', 'l', 'p'], false, 'h'⟩,
      ⟨['c', 'l', 'i', '-', 'f', 'i', 'l', 'e'], true, 'f'⟩]

/-- `appl_args_t`. -/
structure ApplArgs where
  coreCount : Int
  itfParam : ApplArgIfs
  cliFile : Option (List Char)
  deriving DecidableEq, Repr

/-- The `switch` of `parse_args`; none where it fails. -/
def parseOption (args : ApplArgs) : Answer Char → Option ApplArgs
  | .option 'c' (some optarg) => some { args with coreCount := atoi optarg }
  | .option 'i' (some optarg) =>
      match nfpexplParseInterfaces optarg with
      | none => none
      | some p => some { args with itfParam := p }
  | .option 'h' _ => none
  | .option 'f' (some optarg) =>
      if optarg = [] then none else some { args with cliFile := some optarg }
  | _ => some args

/-- **`parse_args`**, on the arguments behind the program's name. -/
def parseArgs (argv : List (List Char)) : Option ApplArgs :=
  match (netwrapOptions.getopt none argv).foldlM parseOption ⟨0, ⟨0, []⟩, none⟩ with
  | none => none
  | some args => if args.itfParam.ifCount = 0 then none else some args

/-- `ENV_ARG_TKN_NUMBER_MAX`. -/
def envArgTknNumberMax : Nat := 101

/-- The words `parse_env` passes on; the program's name has the first place of `argv`. -/
def envArgv (env : List Char) : List (List Char) := (tokens ' ' env).take (envArgTknNumberMax - 1)

/-- **`parse_env`**, on the value of the variable if it is set. -/
def parseEnv (env : Option (List Char)) : Option ApplArgs :=
  match env with
  | none => none
  | some env => parseArgs (envArgv env)

/-! ## The parameters -/

/-- `NFP_IFNAMSIZ`. -/
def ifNamSiz : Nat := 32

/-- The part of `nfp_initialize_param_t` about the interfaces. -/
structure InitParams where
  ifCount : Nat
  ifNames : Fin nfpFpInterfaceMax → List Char

/-- `strncpy` into a row, and the last character set to NUL. -/
def nameRow (name : List Char) : List Char :=
  (name.take ifNamSiz ++ List.replicate (ifNamSiz - name.length) nul).set (ifNamSiz - 1) nul

/-- The loop that copies the names, from row `i` on. -/
def copyNames : List (List Char) → Nat → (Fin nfpFpInterfaceMax → List Char) →
    Fin nfpFpInterfaceMax → List Char
  | [], _, rows => rows
  | name :: names, i, rows =>
      if h : i < nfpFpInterfaceMax then
        copyNames names (i + 1) fun r => if r = ⟨i, h⟩ then nameRow name else rows r
      else rows

/-- **What the constructor hands to `nfp_initialize`**, from what `nfp_initialize_param` has set. -/
def initParams (init : InitParams) (args : ApplArgs) : InitParams where
  ifCount := args.itfParam.ifCount
  ifNames := copyNames args.itfParam.names 0 init.ifNames

/-! ## What is asked for -/

/-- The interfaces of the last `-i` among some words. -/
def asked (words : List (List Char)) : List (List Char) :=
  match lastArg 'i' (netwrapOptions.getopt none words) with
  | none => []
  | some optarg => interfaceNames optarg

/-- The interfaces a value of the variable asks for. -/
def requested (env : List Char) : List (List Char) := asked (tokens ' ' env)

/-- **The parameters describe the requested interfaces.** -/
structure Describes (env : List Char) (p : InitParams) : Prop where
  atMost : p.ifCount ≤ nfpFpInterfaceMax
  count : p.ifCount = (requested env).length
  names : ∀ i < p.ifCount, ∃ (h : i < nfpFpInterfaceMax) (name : List Char),
    (requested env)[i]? = some name ∧
      ∃ rest, p.ifNames ⟨i, h⟩ = name.take (ifNamSiz - 1) ++ nul :: rest

/-- **No more names than rows, and the dropped words change none of them.** -/
structure AsRequested (env : List Char) : Prop where
  short : (requested env).length ≤ nfpFpInterfaceMax
  kept : (asked (envArgv env)).map (·.take (ifNamSiz - 1)) =
    (requested env).map (·.take (ifNamSiz - 1))

/-- Only `-i` changes the interfaces. -/
theorem parseOption_itfParam {a : Answer Char} {args args' : ApplArgs}
    (h : parseOption args a = some args') :
    (∃ optarg, a = .option 'i' (some optarg) ∧
        nfpexplParseInterfaces optarg = some args'.itfParam) ∨
      ((∀ optarg, a ≠ .option 'i' (some optarg)) ∧ args'.itfParam = args.itfParam) := by
  unfold parseOption at h
  split at h
  · cases h
    exact .inr ⟨by simp, rfl⟩
  · rename_i optarg
    split at h
    · cases h
    · rename_i p hp
      cases h
      exact .inl ⟨optarg, rfl, hp⟩
  · cases h
  · split at h
    · cases h
    · cases h
      exact .inr ⟨by simp, rfl⟩
  · rename_i hother _ _
    cases h
    exact .inr ⟨fun optarg ha => hother optarg ha, rfl⟩

/-- What an accepted list of options leaves: the interfaces of the last `-i`. -/
theorem foldlM_parseOption {answers : List (Answer Char)} {args args' : ApplArgs}
    (h : answers.foldlM parseOption args = some args') :
    (lastArg 'i' answers = none ∧ args'.itfParam = args.itfParam) ∨
      ∃ optarg, lastArg 'i' answers = some optarg ∧
        nfpexplParseInterfaces optarg = some args'.itfParam := by
  induction answers generalizing args with
  | nil =>
      cases h
      exact .inl ⟨rfl, rfl⟩
  | cons a answers ih =>
      rw [List.foldlM_cons] at h
      obtain ⟨next, hnext, hrest⟩ := Option.bind_eq_some_iff.mp h
      rcases parseOption_itfParam hnext with ⟨optarg, rfl, hparse⟩ | ⟨hother, hsame⟩
      · rw [lastArg_cons_self]
        rcases ih hrest with ⟨hnone, hitf⟩ | ⟨later, hlast, hlater⟩
        · refine .inr ⟨optarg, ?_, hitf ▸ hparse⟩
          rw [hnone, Option.none_or]
        · refine .inr ⟨later, ?_, hlater⟩
          rw [hlast, Option.some_or]
      · rw [lastArg_cons_of_ne hother, ← hsame]
        exact ih hrest

/-- **What `parse_env` keeps.** -/
theorem parseEnv_names {env : List Char} {args : ApplArgs} (h : parseEnv (some env) = some args) :
    args.itfParam.names = asked (envArgv env) ∧
      args.itfParam.ifCount = (asked (envArgv env)).length := by
  have h : parseArgs (envArgv env) = some args := h
  unfold parseArgs at h
  split at h
  · cases h
  · rename_i hfold
    split at h
    · cases h
    · rename_i hcount
      cases h
      unfold asked
      rcases foldlM_parseOption hfold with ⟨-, hitf⟩ | ⟨optarg, hlast, hparse⟩
      · exact absurd (congrArg ApplArgIfs.ifCount hitf) hcount
      · rw [hlast]
        exact nfpexplParseInterfaces_names hparse

/-- **The rows the copy fills.** -/
theorem copyNames_row (names : List (List Char)) (i : Nat)
    (rows : Fin nfpFpInterfaceMax → List Char) (r : Fin nfpFpInterfaceMax) :
    copyNames names i rows r =
      if i ≤ r then ((names[r - i]?).map nameRow).getD (rows r) else rows r := by
  induction names generalizing i rows with
  | nil => simp [copyNames]
  | cons name names ih =>
      unfold copyNames
      by_cases hi : i < nfpFpInterfaceMax
      · rw [dif_pos hi, ih]
        by_cases hr : r = ⟨i, hi⟩
        · subst hr
          rw [if_neg (by simp), if_pos (Nat.le_refl _)]
          simp
        · have hne : (r : Nat) ≠ i := fun h => hr (Fin.ext h)
          by_cases hle : i ≤ r
          · have hidx : (r : Nat) - i = (r - (i + 1)) + 1 := by omega
            rw [if_pos hle, if_pos (by omega), if_neg hr, hidx, List.getElem?_cons_succ]
          · rw [if_neg hle, if_neg (by omega), if_neg hr]
      · rw [dif_neg hi, if_neg (by omega)]

/-- **A row** is the name cut to its size less one, and NUL from there on. -/
theorem nameRow_eq (name : List Char) :
    nameRow name = name.take (ifNamSiz - 1) ++
      nul :: List.replicate (ifNamSiz - 1 - name.length) nul := by
  have hlen : (name.take ifNamSiz ++ List.replicate (ifNamSiz - name.length) nul).length =
      ifNamSiz := by
    rw [List.length_append, List.length_take, List.length_replicate]
    omega
  have hcut : (name.take ifNamSiz ++ List.replicate (ifNamSiz - name.length) nul).take
      (ifNamSiz - 1) =
      name.take (ifNamSiz - 1) ++ List.replicate (ifNamSiz - 1 - name.length) nul := by
    rw [List.take_append, List.take_take, List.length_take, List.take_replicate]
    congr 2
    unfold ifNamSiz
    omega
  unfold nameRow
  rw [List.set_eq_take_append_cons_drop, if_pos (by rw [hlen]; decide), hcut,
    List.drop_eq_nil_of_le (by rw [hlen]; decide), List.append_assoc]
  rw [← List.replicate_succ', List.replicate_succ]

/-! ## The parameters as asked for -/

/-- The names asked for are made of the characters of the string. -/
theorem asked_subset {words : List (List Char)} {name : List Char} (h : name ∈ asked words) :
    ∃ w ∈ words, name ⊆ w := by
  unfold asked at h
  split at h
  · cases h
  · rename_i optarg hlast
    obtain ⟨w, hw, hsub⟩ := OptTable.getopt_arg (lastArg_mem hlast)
    obtain ⟨field, hfield, rfl⟩ := List.mem_map.mp h
    refine ⟨w, hw, fun c hc => hsub (mem_of_mem_splitOn hfield ?_)⟩
    exact (List.takeWhile_sublist _).subset hc

theorem asked_nul {env name : List Char} {words : List (List Char)} (hnul : nul ∉ env)
    (hwords : words ⊆ tokens ' ' env) (h : name ∈ asked words) (k : Nat) : nul ∉ name.take k := by
  obtain ⟨w, hw, hsub⟩ := asked_subset h
  exact fun hc => hnul (subset_of_mem_tokens (hwords hw) (hsub (List.mem_of_mem_take hc)))

/-- Texts are the same up to their first NUL. -/
theorem append_nul_inj {a b x y : List Char} (ha : nul ∉ a) (hb : nul ∉ b)
    (h : a ++ nul :: x = b ++ nul :: y) : a = b := by
  have hsplit := congrArg (List.splitOn nul) h
  rw [List.splitOn_append_cons_self_of_not_mem ha,
    List.splitOn_append_cons_self_of_not_mem hb] at hsplit
  exact (List.cons.inj hsplit).1

/-- The row of the `i`th name kept. -/
theorem initParams_row {env : List Char} {args : ApplArgs} (h : parseEnv (some env) = some args)
    (init : InitParams) {i : Nat} (hi : i < nfpFpInterfaceMax)
    (hlt : i < (asked (envArgv env)).length) :
    (initParams init args).ifNames ⟨i, hi⟩ = nameRow (asked (envArgv env))[i] := by
  show copyNames args.itfParam.names 0 init.ifNames ⟨i, hi⟩ = _
  rw [copyNames_row, if_pos (Nat.zero_le _), (parseEnv_names h).1]
  simp [hlt]

/-- **The parameters describe the requested interfaces** just if there are no more names than rows
    and the dropped words change none of them. -/
theorem initParams_describe_iff (env : List Char) (args : ApplArgs) (init : InitParams)
    (hnul : nul ∉ env) (hparse : parseEnv (some env) = some args) :
    Describes env (initParams init args) ↔ AsRequested env := by
  have hcount : (initParams init args).ifCount = (asked (envArgv env)).length :=
    (parseEnv_names hparse).2
  have hkept : envArgv env ⊆ tokens ' ' env := List.take_subset _ _
  constructor
  · intro d
    have hlen : (asked (envArgv env)).length = (requested env).length := hcount ▸ d.count
    refine ⟨d.count ▸ d.atMost, List.ext_getElem (by simpa using hlen) fun i hi hi' => ?_⟩
    rw [List.length_map] at hi hi'
    obtain ⟨hmax, name, hname, rest, hrow⟩ := d.names i (hcount ▸ hi)
    rw [initParams_row hparse init hmax hi, nameRow_eq] at hrow
    have hsome : (requested env)[i] = name := by
      rw [List.getElem?_eq_getElem hi'] at hname
      exact Option.some.inj hname
    rw [List.getElem_map, List.getElem_map, hsome]
    refine append_nul_inj (asked_nul hnul hkept (List.getElem_mem hi) _) ?_ hrow
    exact asked_nul hnul (List.Subset.refl _) (hsome ▸ List.getElem_mem hi') _
  · intro r
    have hlen : (asked (envArgv env)).length = (requested env).length := by
      simpa using congrArg List.length r.kept
    refine ⟨?_, hcount.trans hlen, fun i hi => ?_⟩
    · rw [hcount, hlen]
      exact r.short
    · rw [hcount] at hi
      have hi' : i < (requested env).length := hlen ▸ hi
      have hmax : i < nfpFpInterfaceMax := Nat.lt_of_lt_of_le hi' r.short
      refine ⟨hmax, _, List.getElem?_eq_getElem hi',
        List.replicate (ifNamSiz - 1 - (asked (envArgv env))[i].length) nul, ?_⟩
      have hname := List.getElem_of_eq r.kept (by simpa using hi)
      rw [List.getElem_map, List.getElem_map] at hname
      rw [initParams_row hparse init hmax hi, nameRow_eq, hname]

/-- Parameters before anything is set. -/
def blankParams : InitParams := ⟨0, fun _ => []⟩

theorem initParams_describe_two_interfaces :
    Describes ['-', 'i', ' ', 'a', ',', 'b']
      (initParams blankParams ⟨0, ⟨2, [⟨['a'], none, 0⟩, ⟨['b'], none, 0⟩]⟩, none⟩) :=
  (initParams_describe_iff ['-', 'i', ' ', 'a', ',', 'b'] _ blankParams (by decide)
    (by decide)).mpr ⟨by decide, by decide⟩

/-- `-ia,a,a,a,a,a,a,a,a`: nine interfaces. -/
def nineInterfaces : List Char := ['-', 'i', 'a'] ++ (List.replicate 8 [',', 'a']).flatten

/-- `-ia`, then `-p` ninety-nine times, then `-ib`: one word too many. -/
def lateInterface : List Char :=
  ['-', 'i', 'a'] ++ (List.replicate 99 [' ', '-', 'p']).flatten ++ [' ', '-', 'i', 'b']

/-- Nine interfaces are counted and eight are handed on; and of two `-i` the first is taken when the
    second stands beyond the hundredth word. -/
theorem initParams_miscount :
    (∃ args, parseEnv (some nineInterfaces) = some args ∧
      (initParams blankParams args).ifCount = 9 ∧
      ¬ Describes nineInterfaces (initParams blankParams args)) ∧
    ∃ args, parseEnv (some lateInterface) = some args ∧ args.itfParam.names = [['a']] ∧
      requested lateInterface = [['b']] ∧
      ¬ Describes lateInterface (initParams blankParams args) := by
  refine ⟨⟨⟨0, ⟨9, List.replicate 9 ⟨['a'], none, 0⟩⟩, none⟩, by decide, rfl, fun d => ?_⟩,
    ⟨⟨0, ⟨1, [⟨['a'], none, 0⟩]⟩, none⟩, by decide +kernel, rfl, by decide +kernel, fun d => ?_⟩⟩
  · exact absurd d.atMost (by decide)
  · obtain ⟨h, name, hname, rest, hrow⟩ := d.names 0 (by decide)
    have hb : requested lateInterface = [['b']] := by decide +kernel
    rw [hb] at hname
    cases hname
    have hhead : some 'a' = some 'b' := congrArg List.head? hrow
    exact absurd hhead (by decide)

end Nfp.NetwrapProc
