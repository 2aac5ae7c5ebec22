/-
  File:      Nfp/Common/InMemory.lean
  Subject:   THE PARSER OF THE OPTION `-i` IN MEMORY: `nfpexpl_parse_interfaces` and its cleanup of
             example/common/cli_arg_parse.c, with the two loops, the copy that is cut up in place, the
             array of `if_count` entries and the calls of `calloc`, `strdup` and `free`.

  A pointer is a block and an offset into it; `NULL` is `none`. A program stops at a fault where the
  C program has no defined behaviour left: a read or write through `NULL` or outside a block, a block
  freed twice. `if_count` and `idx` are `int`, counted up as the machine does. A loop has fuel, and
  running out of it is a fault as well.

  * `countLoop_run` -- the loop that counts the fields, on every text;
  * `cleanup_run` -- the cleanup frees what the structure owns, each block once.

  The loop that cuts up the copy is CopyLoop.lean's, the parser as a whole Parser.lean's.
-/
import Nfp.Common.CliArgParse
import Nfp.Lib.Memory

namespace Nfp.Common.InMemory

open Nfp.Lib

/-! ## Memory -/

/-- A pointer to a character. -/
structure Ptr where
  block : Nat
  off : Nat
  deriving DecidableEq, Repr

def Ptr.next (p : Ptr) : Ptr := ⟨p.block, p.off + 1⟩

/-- `struct appl_arg_if`, with its pointers. -/
structure IfEntry where
  ifName : Option Nat
  ifAddress : Option Nat
  ifAddressMasklen : Int
  deriving DecidableEq, Repr

/-- An entry as `calloc` leaves it. -/
def IfEntry.zero : IfEntry := ⟨none, none, 0⟩

/-- What lies in a block: characters, or the entries of `if_array`. -/
inductive Block where
  | chars (buf : List Char)
  | ifs (entries : List IfEntry)
  deriving DecidableEq, Repr

/-- `appl_arg_ifs_t`, with its pointer. -/
structure IfsParam where
  ifCount : Int
  ifArray : Option Nat
  deriving DecidableEq, Repr

/-- Memory with the structure `itf_param` points to. Every write to an entry of `if_array` is
    recorded: its index, and `if_count` at that moment. -/
structure Mem extends Memory Block where
  param : IfsParam
  writes : List (Int × Int)

/-- Why a run stops. -/
inductive Fault where
  /-- entry `i` of `if_array` while that is `NULL` -/
  | nullArray (i : Int)
  /-- entry `i` outside the block `if_array` points to -/
  | outside (i : Int)
  /-- a pointer to a block that is not there, or not of this kind -/
  | badBlock (b : Nat)
  /-- a text without an end -/
  | unterminated
  | unfinished
  deriving DecidableEq, Repr

/-- A piece of the C program. -/
abbrev C := Prog Mem Fault

namespace C

/-- The buffer a text lies in. -/
def buffer (p : Ptr) : C (List Char) := fun m =>
  match m.load p.block with
  | some (.chars buf) =>
      if nul ∈ buf.drop p.off then (.ok buf, m) else (.error .unterminated, m)
  | _ => (.error (.badBlock p.block), m)

/-- The text a pointer points to, as `strlen`, `strdup` and `atoi` read it. -/
def string (p : Ptr) : C (List Char) := do
  let buf ← buffer p
  pure (strAt nul buf p.off)

def strchr (p : Ptr) (d : Char) : C (Option Ptr) := do
  let buf ← buffer p
  pure ((Lib.strchr nul d buf p.off).map (Ptr.mk p.block))

def store (b : Nat) (v : Block) : C Unit := fun m =>
  (.ok (), { m with toMemory := m.store b v })

/-- A NUL is written: `*p = '\0'`. -/
def writeNul (p : Ptr) : C Unit := do
  let buf ← buffer p
  store p.block (.chars (buf.set p.off nul))

/-- `strchr`, and if `d` was found a NUL in its place: the pointer to what is behind it. -/
def cutAt (p : Ptr) (d : Char) : C (Option Ptr) := do
  let e ← strchr p d
  match e with
  | none => pure none
  | some e => do
      writeNul e
      pure (some e.next)

/-- A block is asked for. -/
def alloc (fits : Bool) (v : Block) : C (Option Nat) := fun m =>
  (.ok (m.alloc fits v).1, { m with toMemory := (m.alloc fits v).2 })

def strdup (p : Ptr) : C (Option Nat) := do
  let s ← string p
  alloc true (.chars (s ++ [nul]))

/-- `free`, which takes `NULL` as well. -/
def free : Option Nat → C Unit
  | none => pure ()
  | some b => fun m =>
      match m.load b with
      | none => (.error (.badBlock b), m)
      | some _ => (.ok (), { m with toMemory := m.free b })

def getParam : C IfsParam := fun m => (.ok m.param, m)

def setParam (f : IfsParam → IfsParam) : C Unit := fun m => (.ok (), { m with param := f m.param })

/-- The entries of `if_array`, and the block they lie in, for an access to entry `i`. -/
def entries (i : Int) : C (Nat × List IfEntry) := fun m =>
  match m.param.ifArray with
  | none => (.error (.nullArray i), m)
  | some b =>
      match m.load b with
      | some (.ifs es) =>
          if 0 ≤ i ∧ i < es.length then (.ok (b, es), m) else (.error (.outside i), m)
      | _ => (.error (.badBlock b), m)

/-- `itf_param->if_array[i]` is read. -/
def readEntry (i : Int) : C IfEntry := do
  let r ← entries i
  pure (r.2.getD i.toNat .zero)

/-- The record of a write. -/
def recordWrite (i : Int) : C Unit := fun m =>
  (.ok (), { m with writes := m.writes ++ [(i, m.param.ifCount)] })

/-- A field of `itf_param->if_array[i]` is written. -/
def writeEntry (i : Int) (f : IfEntry → IfEntry) : C Unit := do
  recordWrite i
  let r ← entries i
  store r.1 (.ifs (r.2.set i.toNat (f (r.2.getD i.toNat .zero))))

/-- A field of `itf_param->if_array[i]` gets what `strdup` answers. -/
def dupEntry (i : Int) (p : Ptr) (f : Option Nat → IfEntry → IfEntry) : C (Option Nat) := do
  let b ← strdup p
  writeEntry i (f b)
  pure b

end C

/-! ## The program -/

def exitSuccess : Nat := 0
def exitFailure : Nat := 1

/-- `i++` of an `int`. -/
def intIncr (i : Int) : Int := (i + 1).bmod 0x100000000

/-- An `int` where a `size_t` is asked for. -/
def toSizeT (i : Int) : Nat := (i % 0x10000000000000000).toNat

/-- `sizeof(struct appl_arg_if)`: two pointers and an `int`, padded. -/
def sizeofIfEntry : Nat := 24

/-- Whether `calloc` can be granted that many entries at all: their size is a `size_t`. -/
def callocFits (count : Int) : Bool := toSizeT count * sizeofIfEntry ≤ 0xffffffffffffffff

/-- `calloc(itf_param->if_count, sizeof(*itf_param->if_array))`. -/
def callocEntries (count : Int) : C (Option Nat) :=
  C.alloc (callocFits count) (.ifs (List.replicate (toSizeT count) .zero))

/-- The loop that counts the interfaces, on `argv` itself. -/
def countLoop : Nat → Option Ptr → C Unit
  | _, none => pure ()
  | 0, some _ => Prog.stop .unfinished
  | n + 1, some tkn => do
      let tknEnd ← C.strchr tkn ','
      C.setParam fun p => { p with ifCount := intIncr p.ifCount }
      countLoop n (tknEnd.map Ptr.next)

/-- The address and the mask of entry `idx`; `ret`. -/
def fillAddress (idx : Int) (tknAddr : Ptr) : C Nat := do
  let tknAddrMask ← C.cutAt tknAddr '/'
  match tknAddrMask with
  | none => pure exitFailure
  | some tknAddrMask => do
      let address ← C.dupEntry idx tknAddr fun b e => { e with ifAddress := b }
      match address with
      | none => pure exitFailure
      | some _ => do
          let mask ← C.string tknAddrMask
          C.writeEntry idx fun e => { e with ifAddressMasklen := atoi mask }
          pure exitSuccess

/-- One field, for entry `idx`: the name, and the address if there is one. -/
def parseField (idx : Int) (tkn : Ptr) : C Nat := do
  let tknAddr ← C.cutAt tkn '@'
  let name ← C.dupEntry idx tkn fun b e => { e with ifName := b }
  match name, tknAddr with
  | none, _ => pure exitFailure
  | some _, none => pure exitSuccess
  | some _, some tknAddr => fillAddress idx tknAddr

/-- The loop that gets the interfaces, on the copy. -/
def parseLoop : Nat → Option Ptr → Int → C Nat
  | _, none, _ => pure exitSuccess
  | 0, some _, _ => Prog.stop .unfinished
  | n + 1, some tkn, idx => do
      let next ← C.cutAt tkn ','
      let ret ← parseField idx tkn
      if ret = exitFailure then pure ret else parseLoop n next (intIncr idx)

/-- The copy is made and cut up: `ret` and `argv_cpy`. -/
def parseCopy (argv : Ptr) (len : Nat) : C (Nat × Option Nat) := do
  let argvCpy ← C.strdup argv
  match argvCpy with
  | none => pure (exitFailure, none)
  | some b => do
      let ret ← parseLoop (len + 1) (some ⟨b, 0⟩) 0
      pure (ret, some b)

/-- The block `do ... while (0)`: `ret` and `argv_cpy`. -/
def getInterfaces (argv : Ptr) (len : Nat) : C (Nat × Option Nat) := do
  let p ← C.getParam
  let array ← callocEntries p.ifCount
  C.setParam fun p => { p with ifArray := array }
  match array with
  | none => pure (exitFailure, none)
  | some _ => parseCopy argv len

/-- The loop over the entries from `i` on, of which there are that many. -/
def freeEntries : Nat → Int → C Unit
  | 0, _ => pure ()
  | n + 1, i => do
      let e ← C.readEntry i
      C.free e.ifName
      let e ← C.readEntry i
      C.free e.ifAddress
      freeEntries n (i + 1)

/-- `nfpexpl_parse_interfaces_param_cleanup`; `itfParam` is whether a structure was given. -/
def nfpexplParseInterfacesParamCleanup (itfParam : Bool) : C Unit :=
  if itfParam = false then pure ()
  else do
    let p ← C.getParam
    if p.ifCount = 0 then pure ()
    else do
      freeEntries p.ifCount.toNat 0
      C.free p.ifArray
      C.setParam fun p => { p with ifCount := 0 }

/-- The end of the parser: the copy is freed, and what was filled in if there was an error. -/
def finish (itfParam : Bool) (ret : Nat) (argvCpy : Option Nat) : C Nat := do
  C.free argvCpy
  if ret = exitFailure then do
    nfpexplParseInterfacesParamCleanup itfParam
    pure exitFailure
  else pure ret

/-- **`nfpexpl_parse_interfaces`**. -/
def nfpexplParseInterfaces (argv : Option Ptr) (itfParam : Bool) : C Nat :=
  match argv with
  | none => pure exitFailure
  | some argv => do
      let s ← C.string argv
      if s.length = 0 ∨ itfParam = false then pure exitFailure
      else do
        C.setParam fun _ => ⟨0, none⟩
        countLoop (s.length + 1) (some argv)
        let r ← getInterfaces argv s.length
        finish itfParam r.1 r.2

/-! ## What a caller reads -/

/-- The text a `char *` field points to. -/
def Mem.string (m : Mem) (b : Nat) : Option (List Char) :=
  match m.load b with
  | some (.chars buf) => some (strAt nul buf 0)
  | _ => none

/-- The interface an entry describes. -/
def Mem.interface (m : Mem) (e : IfEntry) : Option ApplArgIf := do
  let name ← e.ifName.bind m.string
  match e.ifAddress with
  | none => some ⟨name, none, e.ifAddressMasklen⟩
  | some b => (m.string b).map fun address => ⟨name, some address, e.ifAddressMasklen⟩

/-- The first `if_count` interfaces. -/
def Mem.interfaces (m : Mem) : Option (List ApplArgIf) :=
  match m.param.ifArray.bind m.load with
  | some (.ifs es) => (es.take m.param.ifCount.toNat).mapM m.interface
  | _ => none

/-! ## Texts in memory -/

/-- The text `s` stands where `p` points to. -/
def Mem.Chars (m : Mem) (p : Ptr) (s : List Char) : Prop :=
  ∃ buf, m.load p.block = some (.chars buf) ∧ Holds nul buf p.off s

section Texts

variable {m : Mem} {p : Ptr} {s : List Char} {buf : List Char}

theorem buffer_run (hload : m.load p.block = some (.chars buf)) (hnul : nul ∈ buf.drop p.off) :
    C.buffer p m = (.ok buf, m) := by
  unfold C.buffer
  rw [hload]
  exact if_pos hnul

theorem string_run (h : m.Chars p s) : C.string p m = (.ok s, m) := by
  obtain ⟨buf, hload, hs⟩ := h
  unfold C.string
  rw [Prog.bind_ok (buffer_run hload (hs.mem_drop (Nat.zero_le _))), hs.strAt_eq]
  rfl

theorem strdup_run (h : m.Chars p s) : C.strdup p m = C.alloc true (.chars (s ++ [nul])) m :=
  Prog.bind_ok (string_run h)

theorem strchr_run (h : m.Chars p s) (d : Char) :
    C.strchr p d m =
      (.ok ((cut d s).2.map fun _ => ⟨p.block, p.off + (cut d s).1.length⟩), m) := by
  obtain ⟨buf, hload, hs⟩ := h
  unfold C.strchr
  rw [Prog.bind_ok (buffer_run hload (hs.mem_drop (Nat.zero_le _))), hs.strchr_eq, Option.map_map]
  rfl

theorem alloc_granted {b : Bool} {v : Block} (h : (b && m.answers 0) = true) :
    C.alloc b v m = (.ok (some m.blocks.length), { m with
      blocks := m.blocks ++ [some v]
      answers := fun n => m.answers (n + 1)
      ledger := m.ledger ++ [.acquire m.blocks.length] }) := by
  unfold C.alloc Memory.alloc
  rw [if_pos h]

theorem alloc_denied {b : Bool} {v : Block} (h : (b && m.answers 0) = false) :
    C.alloc b v m = (.ok none, { m with
      answers := fun n => m.answers (n + 1)
      refused := m.refused + 1 }) := by
  unfold C.alloc Memory.alloc
  rw [if_neg (by rw [h]; exact Bool.false_ne_true)]

end Texts

/-! ## Counting -/

theorem intIncr_iterate (k : Nat) : intIncr^[k] 0 = (k : Int).bmod 0x100000000 := by
  induction k with
  | zero => rfl
  | succ k ih =>
      rw [Function.iterate_succ_apply', ih, intIncr, Int.bmod_add_bmod, Int.natCast_succ]

theorem countLoop_none (n : Nat) (m : Mem) : countLoop n none m = (.ok (), m) := by
  cases n <;> rfl

/-- **The first loop** counts the fields. -/
theorem countLoop_run {n : Nat} {m : Mem} {tkn : Ptr} {s : List Char} (h : m.Chars tkn s)
    (hn : s.length < n) :
    countLoop n (some tkn) m = (.ok (), { m with
      param := ⟨intIncr^[(s.splitOn ',').length] m.param.ifCount, m.param.ifArray⟩ }) := by
  induction n generalizing m tkn s with
  | zero => omega
  | succ n ih =>
      unfold countLoop
      rw [Prog.bind_ok (strchr_run h ',')]
      rcases cut_cases ',' s with ⟨hd, hcut⟩ | ⟨front, rest, hs, hd, hcut⟩
      · rw [hcut, List.splitOn_eq_singleton hd]
        exact countLoop_none n _
      · obtain ⟨buf, hload, hbuf⟩ := h
        have hlen : rest.length < n := by
          rw [hs, List.length_append, List.length_cons] at hn
          omega
        rw [hs] at hbuf
        rw [hcut, hs, List.splitOn_append_cons_self_of_not_mem hd]
        -- the structure is counted up, the text is as it was
        exact ih ⟨buf, hload, hbuf.behind⟩ hlen

/-! ## The cleanup -/

/-- The blocks an entry points to, in the order in which the cleanup frees them. -/
def IfEntry.blocks (e : IfEntry) : List Nat := e.ifName.toList ++ e.ifAddress.toList

def owned (es : List IfEntry) : List Nat := es.flatMap IfEntry.blocks

section Cleanup

variable {m : Mem} {arr : Nat}

theorem free_run {o : Option Nat} (h : m.Live o.toList) :
    C.free o m = (.ok (), { m with toMemory := m.freeAll o.toList }) := by
  cases o with
  | none => rfl
  | some b =>
      obtain ⟨v, hv⟩ := Option.ne_none_iff_exists'.mp (h.there b List.mem_cons_self)
      unfold C.free
      simp only [hv]
      rfl

theorem readEntry_run {done rest : List IfEntry} {e : IfEntry} (harr : m.param.ifArray = some arr)
    (hes : m.load arr = some (.ifs (done ++ e :: rest))) :
    C.readEntry done.length m = (.ok e, m) := by
  have hentries : C.entries done.length m = (.ok (arr, done ++ e :: rest), m) := by
    unfold C.entries
    simp only [harr, hes]
    refine if_pos ⟨Int.natCast_nonneg _, ?_⟩
    rw [List.length_append, List.length_cons]
    omega
  have hget : (done ++ e :: rest).getD done.length .zero = e := by simp
  unfold C.readEntry
  rw [Prog.bind_ok hentries, Int.toNat_natCast, hget]
  rfl

/-- **The loop of the cleanup** frees the blocks that the entries point to. -/
theorem freeEntries_run {done todo : List IfEntry} (harr : m.param.ifArray = some arr)
    (hes : m.load arr = some (.ifs (done ++ todo))) (hlive : m.Live (owned todo ++ [arr])) :
    freeEntries todo.length done.length m =
      (.ok (), { m with toMemory := m.freeAll (owned todo) }) := by
  induction todo generalizing m done with
  | nil => rfl
  | cons e todo ih =>
      have howned : owned (e :: todo) = e.ifName.toList ++ (e.ifAddress.toList ++ owned todo) := by
        simp [owned, IfEntry.blocks]
      have hmem : ∀ bs : List Nat, arr ∈ bs ++ [arr] := fun bs => by simp
      rw [howned, List.append_assoc] at hlive
      have hlive₁ := hlive.freeAll
      have hes₁ := (hlive.load_freeAll (hmem _)).trans hes
      rw [List.append_assoc] at hlive₁
      have hlive₂ := hlive₁.freeAll
      have hes₂ := (hlive₁.load_freeAll (hmem _)).trans hes₁
      have hidx : (done.length : Int) + 1 = ((done ++ [e]).length : Nat) := by
        rw [List.length_append, List.length_singleton]
        rfl
      have hread := readEntry_run (m := { m with toMemory := m.freeAll e.ifName.toList }) harr hes₁
      have hfree := free_run (m := { m with toMemory := m.freeAll e.ifName.toList }) hlive₁.left
      have hdone : done ++ e :: todo = (done ++ [e]) ++ todo := by
        rw [List.append_assoc]
        rfl
      rw [hdone] at hes₂
      have hrest := ih (m := { m with
        toMemory := (m.freeAll e.ifName.toList).freeAll e.ifAddress.toList }) harr hes₂ hlive₂
      rw [List.length_cons]
      unfold freeEntries
      rw [Prog.bind_ok (readEntry_run harr hes), Prog.bind_ok (free_run hlive.left),
        Prog.bind_ok hread, Prog.bind_ok hfree, hidx, hrest, howned, Memory.freeAll_append,
        Memory.freeAll_append]

/-- **The cleanup** frees what the structure owns, each block once. -/
theorem cleanup_run {es : List IfEntry} (harr : m.param.ifArray = some arr)
    (hes : m.load arr = some (.ifs es)) (hcount : m.param.ifCount = es.length) (hne : es ≠ [])
    (hlive : m.Live (owned es ++ [arr])) :
    nfpexplParseInterfacesParamCleanup true m =
      (.ok (), { m with toMemory := m.freeAll (owned es ++ [arr]), param := ⟨0, some arr⟩ }) := by
  obtain ⟨mem, ⟨count, array⟩, writes⟩ := m
  obtain rfl : array = some arr := harr
  obtain rfl : count = es.length := hcount
  have hparam : C.getParam ⟨mem, ⟨es.length, some arr⟩, writes⟩ = (.ok ⟨es.length, some arr⟩, _) := rfl
  have hes' : mem.load arr = some (.ifs ([] ++ es)) := hes
  have hentries := freeEntries_run (m := ⟨mem, ⟨es.length, some arr⟩, writes⟩) rfl hes' hlive
  change freeEntries es.length 0 _ = _ at hentries
  have hfree := free_run (o := some arr)
    (m := ⟨mem.freeAll (owned es), ⟨es.length, some arr⟩, writes⟩) hlive.freeAll
  unfold nfpexplParseInterfacesParamCleanup
  rw [if_neg (by decide), Prog.bind_ok hparam, if_neg (by simpa using hne), Int.toNat_natCast,
    Prog.bind_ok hentries, Prog.bind_ok hfree, Memory.freeAll_append]
  rfl

/-- The cleanup of a structure that says it has no entries. -/
theorem cleanup_zero (hzero : m.param.ifCount = 0) :
    nfpexplParseInterfacesParamCleanup true m = (.ok (), m) := by
  have hparam : C.getParam m = (.ok m.param, m) := rfl
  unfold nfpexplParseInterfacesParamCleanup
  rw [if_neg (by decide), Prog.bind_ok hparam, if_pos hzero]
  rfl

/-- Without an array, and with a count that is not positive, the cleanup frees `NULL`. -/
theorem cleanup_null_nonpos (harr : m.param.ifArray = none) (hle : m.param.ifCount ≤ 0) :
    nfpexplParseInterfacesParamCleanup true m = (.ok (), { m with param := ⟨0, none⟩ }) := by
  obtain ⟨mem, ⟨count, array⟩, writes⟩ := m
  obtain rfl : array = none := harr
  by_cases hzero : count = 0
  · subst hzero
    exact cleanup_zero rfl
  · have hparam : C.getParam ⟨mem, ⟨count, none⟩, writes⟩ = (.ok ⟨count, none⟩, _) := rfl
    have hnone : count.toNat = 0 := Int.toNat_of_nonpos hle
    unfold nfpexplParseInterfacesParamCleanup
    rw [if_neg (by decide), Prog.bind_ok hparam, if_neg hzero]
    simp only [hnone]
    rfl

/-- **Without an array**, and with a positive count, its first entry is read through `NULL`. -/
theorem cleanup_null_pos (harr : m.param.ifArray = none) (hpos : 0 < m.param.ifCount) :
    nfpexplParseInterfacesParamCleanup true m = (.error (.nullArray 0), m) := by
  have hparam : C.getParam m = (.ok m.param, m) := rfl
  have hread : C.readEntry 0 m = (.error (.nullArray 0), m) := by
    unfold C.readEntry
    refine Prog.bind_error ?_
    unfold C.entries
    rw [harr]
  obtain ⟨n, hn⟩ : ∃ n, m.param.ifCount.toNat = n + 1 :=
    Nat.exists_eq_succ_of_ne_zero (by omega)
  have hentries : freeEntries (n + 1) 0 m = (.error (.nullArray 0), m) := by
    unfold freeEntries
    exact Prog.bind_error hread
  unfold nfpexplParseInterfacesParamCleanup
  rw [if_neg (by decide), Prog.bind_ok hparam, if_neg (by omega), hn, Prog.bind_error hentries]

/-- Without an array the cleanup asks for no memory. -/
theorem cleanup_null (harr : m.param.ifArray = none) :
    (nfpexplParseInterfacesParamCleanup true m).2.refused = m.refused := by
  rcases Int.lt_or_le 0 m.param.ifCount with hpos | hle
  · rw [cleanup_null_pos harr hpos]
  · rw [cleanup_null_nonpos harr hle]

end Cleanup

end Nfp.Common.InMemory
