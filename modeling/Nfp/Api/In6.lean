/-
  File:      Nfp/Api/In6.lean
  Subject:   THE CLASSES OF IPV6 ADDRESSES: the predicates of include/api/nfp_in6.h, on a little-endian
             machine.

  An address is its 16 bytes, in the order of the network; the predicates read it by bytes and by
  words of four bytes, and compare words with numbers that `odp_be_to_cpu_32` turns round. A byte
  compared with a word is compared as a number.

  * `In6Addr.toNat` -- the address as a number, `InBlock` -- the block of a prefix;
  * `nfpIn6IsAddrV4mapped_eq` -- one of the predicates compares a byte with `0xffff0000`;
  * `in6_classified_iff` -- so an address is classified rightly just if it is not of that class.
-/
import Nfp.Lib.Bytes

namespace Nfp.Api

open Nfp.Lib

/-- `struct nfp_in6_addr`. -/
structure In6Addr where
  /-- `nfp_s6_addr` -/
  bytes : List UInt8
  length : bytes.length = 16
  deriving DecidableEq

/-- `a->nfp_s6_addr[i]`. -/
def In6Addr.addr8 (a : In6Addr) (i : Nat) : Nat := (a.bytes.getD i 0).toNat

/-- The four bytes from `i` on, read as a `uint32_t`. -/
def In6Addr.wordAt (a : In6Addr) (i : Nat) : Nat := ofLe ((a.bytes.drop i).take 4)

/-- `a->nfp_s6_addr32[i]`. -/
def In6Addr.addr32 (a : In6Addr) (i : Nat) : Nat := a.wordAt (4 * i)

/-- `odp_be_to_cpu_32`. -/
def odpBeToCpu32 (n : Nat) : Nat := ofLe (leBytes 4 n).reverse

/-- `NFP_IN6_IS_ADDR_UNSPECIFIED`. -/
def nfpIn6IsAddrUnspecified (a : In6Addr) : Bool :=
  a.addr32 0 == 0 && a.addr32 1 == 0 && a.addr32 2 == 0 && a.addr32 3 == 0

/-- `NFP_IN6_IS_ADDR_LOOPBACK`. -/
def nfpIn6IsAddrLoopback (a : In6Addr) : Bool :=
  a.addr32 0 == 0 && a.addr32 1 == 0 && a.addr32 2 == 0 && a.addr32 3 == odpBeToCpu32 1

/-- `NFP_IN6_IS_ADDR_V4COMPAT`. -/
def nfpIn6IsAddrV4compat (a : In6Addr) : Bool :=
  a.wordAt 0 == 0 && a.wordAt 4 == 0 && a.wordAt 8 == 0 && a.wordAt 12 != 0 &&
    a.wordAt 12 != odpBeToCpu32 1

/-- `NFP_IN6_IS_ADDR_V4MAPPED`. -/
def nfpIn6IsAddrV4mapped (a : In6Addr) : Bool :=
  a.addr8 0 == 0 && a.addr8 4 == 0 && a.addr8 8 == odpBeToCpu32 0x0000ffff

/-- `NFP_IN6_IS_ADDR_LINKLOCAL`. -/
def nfpIn6IsAddrLinklocal (a : In6Addr) : Bool := a.addr8 0 == 0xfe && a.addr8 1 &&& 0xc0 == 0x80

/-- `NFP_IN6_IS_ADDR_SITELOCAL`. -/
def nfpIn6IsAddrSitelocal (a : In6Addr) : Bool := a.addr8 0 == 0xfe && a.addr8 1 &&& 0xc0 == 0xc0

/-- `NFP_IN6_IS_ADDR_MULTICAST`. -/
def nfpIn6IsAddrMulticast (a : In6Addr) : Bool := a.addr8 0 == 0xff

/-! ## What the classes are -/

/-- The address as a number, the first byte the most significant. -/
def In6Addr.toNat (a : In6Addr) : Nat := ofLe a.bytes.reverse

/-- The addresses that have their first `len` bits in common with `net`. -/
def InBlock (net len : Nat) (a : In6Addr) : Prop := a.toNat >>> (128 - len) = net >>> (128 - len)

instance (net len : Nat) (a : In6Addr) : Decidable (InBlock net len a) :=
  inferInstanceAs (Decidable (_ = _))

/-- `::ffff:0:0`. -/
def v4mappedNet : Nat := 0xffff00000000

/-- `fe80::`. -/
def linklocalNet : Nat := 0xfe800000000000000000000000000000

/-- `fec0::`. -/
def sitelocalNet : Nat := 0xfec00000000000000000000000000000

/-- `ff00::`. -/
def multicastNet : Nat := 0xff000000000000000000000000000000

/-- What the seven predicates answer for an address. -/
def in6Classes (a : In6Addr) : List Bool :=
  [nfpIn6IsAddrUnspecified a, nfpIn6IsAddrLoopback a, nfpIn6IsAddrV4compat a,
    nfpIn6IsAddrV4mapped a, nfpIn6IsAddrLinklocal a, nfpIn6IsAddrSitelocal a,
    nfpIn6IsAddrMulticast a]

/-- **An address is classified rightly**: at most one predicate holds of it, and each of the last
    five holds just for its block. -/
structure Classified (a : In6Addr) : Prop where
  disjoint : (in6Classes a).count true ≤ 1
  v4mapped : nfpIn6IsAddrV4mapped a = true ↔ InBlock v4mappedNet 96 a
  v4compat : nfpIn6IsAddrV4compat a = true ↔ InBlock 0 96 a ∧ a.toNat ≠ 0 ∧ a.toNat ≠ 1
  linklocal : nfpIn6IsAddrLinklocal a = true ↔ InBlock linklocalNet 10 a
  sitelocal : nfpIn6IsAddrSitelocal a = true ↔ InBlock sitelocalNet 10 a
  multicast : nfpIn6IsAddrMulticast a = true ↔ InBlock multicastNet 8 a

/-! ## The predicates in terms of the number -/

/-- `odp_be_to_cpu_32` in a comparison: the word holds the number in the order of the network. -/
theorem word_eq_iff {w : List UInt8} (hw : w.length = 4) {n : Nat} (hn : n < 0x100000000) :
    ofLe w = odpBeToCpu32 n ↔ ofLe w.reverse = n := by
  have hcap : capacity w.length = 0x100000000 := by rw [hw]; rfl
  rw [ofLe_reverse_iff (by rw [hcap]; exact hn), hw]
  rfl

section Numbers

variable (a : In6Addr)

/-- The first two bytes lead the number. -/
theorem In6Addr.lead :
    a.addr8 0 = a.toNat / 0x1000000000000000000000000000000 ∧
      a.addr8 1 = a.toNat / 0x10000000000000000000000000000 % 0x100 ∧
      a.toNat < 0x100000000000000000000000000000000 := by
  obtain ⟨bytes, hlen⟩ := a
  match bytes, hlen with
  | b₀ :: b₁ :: rest, hlen =>
      have hrest : capacity rest.reverse.length = 0x10000000000000000000000000000 := by
        rw [List.length_reverse, Nat.succ.inj (Nat.succ.inj hlen)]
        decide
      have hnum : ofLe (b₀ :: b₁ :: rest).reverse = ofLe rest.reverse +
          0x10000000000000000000000000000 * (b₁.toNat + 256 * b₀.toNat) := by
        rw [List.reverse_cons, List.reverse_cons, List.append_assoc, ofLe_append, hrest]
        rfl
      have hlt := ofLe_lt rest.reverse
      have h₀ := b₀.toNat_lt
      have h₁ := b₁.toNat_lt
      rw [hrest] at hlt
      show b₀.toNat = ofLe _ / _ ∧ b₁.toNat = ofLe _ / _ % _ ∧ ofLe _ < _
      rw [hnum]
      omega

/-- **The number by words**, each in the order of the network. -/
theorem In6Addr.words :
    ∃ w₀ w₁ w₂ w₃ : List UInt8, (w₀.length = 4 ∧ w₁.length = 4 ∧ w₂.length = 4 ∧ w₃.length = 4) ∧
      (a.wordAt 0 = ofLe w₀ ∧ a.wordAt 4 = ofLe w₁ ∧ a.wordAt 8 = ofLe w₂ ∧ a.wordAt 12 = ofLe w₃) ∧
      a.toNat = ofLe w₃.reverse + 0x100000000 * (ofLe w₂.reverse + 0x100000000 *
        (ofLe w₁.reverse + 0x100000000 * ofLe w₀.reverse)) := by
  have hlength : ∀ i ≤ 12, ((a.bytes.drop i).take 4).length = 4 := by
    intro i hi
    rw [List.length_take, List.length_drop, a.length]
    omega
  -- the bytes from `i` on are a word and the bytes from `i + 4` on
  have hnum : ∀ i ≤ 12, ofLe (a.bytes.drop i).reverse =
      ofLe (a.bytes.drop (i + 4)).reverse +
        capacity (16 - (i + 4)) * ofLe ((a.bytes.drop i).take 4).reverse := by
    intro i hi
    have hsplit : a.bytes.drop i = (a.bytes.drop i).take 4 ++ a.bytes.drop (i + 4) := by
      rw [← List.drop_drop, List.take_append_drop]
    have hrest : (a.bytes.drop (i + 4)).reverse.length = 16 - (i + 4) := by
      rw [List.length_reverse, List.length_drop, a.length]
    conv_lhs => rw [hsplit, List.reverse_append, ofLe_append, hrest]
  have h₀ := hnum 0 (by omega)
  have h₁ := hnum 4 (by omega)
  have h₂ := hnum 8 (by omega)
  have h₃ := hnum 12 (by omega)
  have hend : ofLe (a.bytes.drop (12 + 4)).reverse = 0 := by
    rw [List.drop_eq_nil_of_le (Nat.le_of_eq a.length)]
    rfl
  refine ⟨_, _, _, _, ⟨hlength 0 (by omega), hlength 4 (by omega), hlength 8 (by omega),
    hlength 12 (by omega)⟩, ⟨rfl, rfl, rfl, rfl⟩, ?_⟩
  show ofLe (a.bytes.drop 0).reverse = _
  rw [h₀, h₁, h₂, h₃, hend]
  simp only [capacity, Nat.reduceAdd, Nat.reduceSub]
  omega

/-- The last word ends the number, and the three before it are zero just if the number fits it. -/
theorem In6Addr.tail :
    (a.wordAt 0 = 0 ∧ a.wordAt 4 = 0 ∧ a.wordAt 8 = 0 ↔ a.toNat < 0x100000000) ∧
      ∀ n < 0x100000000, a.wordAt 12 = odpBeToCpu32 n ↔ a.toNat % 0x100000000 = n := by
  obtain ⟨w₀, w₁, w₂, w₃, ⟨hl₀, hl₁, hl₂, hl₃⟩, ⟨h₀, h₁, h₂, h₃⟩, hnum⟩ := a.words
  have hzero : ∀ {w : List UInt8}, w.length = 4 → (ofLe w = 0 ↔ ofLe w.reverse = 0) :=
    fun hw => @word_eq_iff _ hw 0 (by decide)
  have hlt : ofLe w₃.reverse < 0x100000000 := by
    have hcap := ofLe_lt w₃.reverse
    rw [List.length_reverse, hl₃] at hcap
    exact hcap
  rw [h₀, h₁, h₂, h₃, hnum, hzero hl₀, hzero hl₁, hzero hl₂]
  refine ⟨by omega, fun n hn => ?_⟩
  rw [word_eq_iff hl₃ hn]
  omega

theorem nfpIn6IsAddrUnspecified_iff : nfpIn6IsAddrUnspecified a = true ↔ a.toNat = 0 := by
  obtain ⟨hfront, hlast⟩ := a.tail
  have hzero : a.wordAt 12 = 0 ↔ a.toNat % 0x100000000 = 0 := hlast 0 (by decide)
  simp only [nfpIn6IsAddrUnspecified, In6Addr.addr32, Bool.and_eq_true, beq_iff_eq, Nat.reduceMul]
  rw [and_assoc (a := a.wordAt 0 = 0), hfront, hzero]
  omega

theorem nfpIn6IsAddrLoopback_iff : nfpIn6IsAddrLoopback a = true ↔ a.toNat = 1 := by
  obtain ⟨hfront, hlast⟩ := a.tail
  simp only [nfpIn6IsAddrLoopback, In6Addr.addr32, Bool.and_eq_true, beq_iff_eq, Nat.reduceMul]
  rw [and_assoc (a := a.wordAt 0 = 0), hfront, hlast 1 (by decide)]
  omega

theorem nfpIn6IsAddrV4compat_iff :
    nfpIn6IsAddrV4compat a = true ↔ a.toNat < 0x100000000 ∧ a.toNat ≠ 0 ∧ a.toNat ≠ 1 := by
  obtain ⟨hfront, hlast⟩ := a.tail
  have hzero : a.wordAt 12 = 0 ↔ a.toNat % 0x100000000 = 0 := hlast 0 (by decide)
  simp only [nfpIn6IsAddrV4compat, Bool.and_eq_true, beq_iff_eq, bne_iff_ne]
  rw [and_assoc (a := a.wordAt 0 = 0), hfront, ne_eq, hzero, ne_eq, hlast 1 (by decide)]
  omega

/-- **No address is mapped**: a byte is never `0xffff0000`. -/
theorem nfpIn6IsAddrV4mapped_eq : nfpIn6IsAddrV4mapped a = false := by
  have hbyte : a.addr8 8 ≠ odpBeToCpu32 0x0000ffff := by
    have hlt : a.addr8 8 < 0x100 := (a.bytes.getD 8 0).toNat_lt
    have hword : odpBeToCpu32 0x0000ffff = 0xffff0000 := by decide
    omega
  rw [nfpIn6IsAddrV4mapped, beq_eq_false_iff_ne.mpr hbyte, Bool.and_false]

/-- The two upper bits of a byte. -/
theorem and_c0 {n : Nat} (hn : n < 0x100) : n &&& 0xc0 = n / 0x40 * 0x40 := by
  have hall : ∀ k : Fin 0x100, k.val &&& 0xc0 = k.val / 0x40 * 0x40 := by decide +kernel
  exact hall ⟨n, hn⟩

theorem nfpIn6IsAddrLinklocal_iff :
    nfpIn6IsAddrLinklocal a = true ↔ a.toNat / 0x400000000000000000000000000000 = 0x3fa := by
  obtain ⟨h₀, h₁, hlt⟩ := a.lead
  have hbyte : a.addr8 1 < 0x100 := (a.bytes.getD 1 0).toNat_lt
  simp only [nfpIn6IsAddrLinklocal, Bool.and_eq_true, beq_iff_eq]
  rw [and_c0 hbyte, h₀, h₁]
  omega

theorem nfpIn6IsAddrSitelocal_iff :
    nfpIn6IsAddrSitelocal a = true ↔ a.toNat / 0x400000000000000000000000000000 = 0x3fb := by
  obtain ⟨h₀, h₁, hlt⟩ := a.lead
  have hbyte : a.addr8 1 < 0x100 := (a.bytes.getD 1 0).toNat_lt
  simp only [nfpIn6IsAddrSitelocal, Bool.and_eq_true, beq_iff_eq]
  rw [and_c0 hbyte, h₀, h₁]
  omega

theorem nfpIn6IsAddrMulticast_iff :
    nfpIn6IsAddrMulticast a = true ↔ a.toNat / 0x1000000000000000000000000000000 = 0xff := by
  rw [nfpIn6IsAddrMulticast, beq_iff_eq, a.lead.1]

/-! ## The blocks -/

/-- A block by division: `size` is how many addresses it has, `q` the prefix. -/
theorem inBlock_iff {net len size q : Nat} (hsize : 1 <<< (128 - len) = size)
    (hq : net / size = q) : InBlock net len a ↔ a.toNat / size = q := by
  rw [← hq, ← hsize, InBlock, Nat.shiftRight_eq_div_pow, Nat.shiftRight_eq_div_pow,
    Nat.one_shiftLeft]

/-- At most one predicate holds of any address. -/
theorem in6Classes_disjoint : (in6Classes a).count true ≤ 1 := by
  have hunspecified := nfpIn6IsAddrUnspecified_iff a
  have hloopback := nfpIn6IsAddrLoopback_iff a
  have hcompat := nfpIn6IsAddrV4compat_iff a
  have hlinklocal := nfpIn6IsAddrLinklocal_iff a
  have hsitelocal := nfpIn6IsAddrSitelocal_iff a
  have hmulticast := nfpIn6IsAddrMulticast_iff a
  simp only [in6Classes, nfpIn6IsAddrV4mapped_eq, List.count_cons, List.count_nil, beq_true,
    Bool.false_eq_true, if_false, hunspecified, hloopback, hcompat, hlinklocal, hsitelocal,
    hmulticast]
  split_ifs <;> omega

end Numbers

/-- **Where the classes are right**: an address is classified rightly just if it is not in
    `::ffff:0:0/96`. -/
theorem in6_classified_iff (a : In6Addr) : Classified a ↔ ¬ InBlock v4mappedNet 96 a := by
  constructor
  · intro h hblock
    have hmapped := h.v4mapped.mpr hblock
    rw [nfpIn6IsAddrV4mapped_eq] at hmapped
    cases hmapped
  · intro hnot
    refine ⟨in6Classes_disjoint a, ?_, ?_, ?_, ?_, ?_⟩
    · rw [nfpIn6IsAddrV4mapped_eq]
      exact iff_of_false Bool.false_ne_true hnot
    · have hblock : InBlock 0 96 a ↔ a.toNat / 0x100000000 = 0 := inBlock_iff a rfl rfl
      rw [nfpIn6IsAddrV4compat_iff, hblock]
      omega
    · rw [nfpIn6IsAddrLinklocal_iff]
      exact Iff.symm (inBlock_iff a rfl rfl)
    · rw [nfpIn6IsAddrSitelocal_iff]
      exact Iff.symm (inBlock_iff a rfl rfl)
    · rw [nfpIn6IsAddrMulticast_iff]
      exact Iff.symm (inBlock_iff a rfl rfl)

/-- `::ffff:1.2.3.4` is in no class at all. -/
theorem in6_mapped_unclassified :
    let a : In6Addr := ⟨[0, 0, 0, 0, 0, 0, 0, 0, 0, 0, 0xff, 0xff, 1, 2, 3, 4], rfl⟩
    InBlock v4mappedNet 96 a ∧ in6Classes a = List.replicate 7 false ∧ ¬ Classified a := by
  intro a
  have hblock : InBlock v4mappedNet 96 a := by decide
  have hnone : in6Classes a = List.replicate 7 false := by decide
  refine ⟨hblock, hnone, fun h => ?_⟩
  have hmapped : nfpIn6IsAddrV4mapped a = false := by decide
  rw [h.v4mapped.mpr hblock] at hmapped
  cases hmapped

end Nfp.Api
