/-
  File:      Nfp/Netwrap/Address.lean
  Subject:   PEER ADDRESSES in `connect`, `accept` and `accept4` of example/netwrap_crt: from the
             Linux structure to the NFP one and back, down to the bytes the caller of `accept` finds
             in its buffer.

  The structures differ in the length byte and in the numbers of the families, and `sin_zero` is
  filled in nowhere; the code that builds the Linux structure is the same text in `accept` and
  `accept4`.

  * `Sockaddr.bytes`, `NfpSockaddr.bytes` -- the structures in memory; `readNfp` -- what `accept` reads
    through `sa_family`, undoing the latter (`readNfp_bytes`);
  * `connect_form` -- what `connect` hands to the stack;
  * `peer_translated_iff` -- the address comes back whole, the buffer is filled as far as it goes, and
    `*addrlen` is the size of the structure just if the buffer holds it.
-/
import Nfp.Lib.Bytes
import Nfp.Netwrap.Socket

namespace Nfp.Netwrap

open Nfp.Lib

/-- `AF_INET6`. -/
def afInet6 : Nat := 10

/-- `NFP_AF_INET6`. -/
def nfpAfInet6 : Nat := 3

/-- **A Linux address in memory**: `struct sockaddr_in` or `struct sockaddr_in6`; `zero` is what
    stands in `sin_zero`. -/
def Sockaddr.bytes (zero : BitVec 64) : Sockaddr → List UInt8
  | .inet port addr =>
      leBytes 2 afInet.toNat ++ (leBytes 2 port.toNat ++ (leBytes 4 addr.toNat ++
        leBytes 8 zero.toNat))
  | .inet6 port flowinfo addr scopeId =>
      leBytes 2 afInet6 ++ (leBytes 2 port.toNat ++ (leBytes 4 flowinfo.toNat ++
        (leBytes 16 addr.toNat ++ leBytes 4 scopeId.toNat)))
  | .other family port addr =>
      leBytes 2 family.toNat ++ (leBytes 2 port.toNat ++ (leBytes 4 addr.toNat ++
        leBytes 8 zero.toNat))

/-- The size of the structure of one of the two families. -/
def Sockaddr.fullSize : Sockaddr → Option Nat
  | .inet _ _ => some sizeofSockaddrIn
  | .inet6 _ _ _ _ => some sizeofSockaddrIn6
  | .other _ _ _ => none

/-- **An NFP address in memory**, in the union that holds either structure. -/
def NfpSockaddr.bytes (zero : BitVec 64) : NfpSockaddr → List UInt8
  | .inet len port addr =>
      leBytes 1 len.toNat ++ (leBytes 1 nfpAfInet.toNat ++ (leBytes 2 port.toNat ++
        (leBytes 4 addr.toNat ++ leBytes 8 zero.toNat)))
  | .inet6 len port flowinfo addr scopeId =>
      leBytes 1 len.toNat ++ (leBytes 1 nfpAfInet6 ++ (leBytes 2 port.toNat ++
        (leBytes 4 flowinfo.toNat ++ (leBytes 16 addr.toNat ++ leBytes 4 scopeId.toNat))))
  | .other family => leBytes 1 0 ++ leBytes 1 family.toNat

/-- What `accept` reads from the union: `sa_family` decides on the structure. -/
def readNfp (bytes : List UInt8) : NfpSockaddr :=
  let len := UInt8.ofNat (ofLe (bytes.take 1))
  let afterLen := bytes.drop 1
  let family := ofLe (afterLen.take 1)
  let afterFamily := afterLen.drop 1
  let port := UInt16.ofNat (ofLe (afterFamily.take 2))
  let afterPort := afterFamily.drop 2
  if family = nfpAfInet.toNat then .inet len port (UInt32.ofNat (ofLe (afterPort.take 4)))
  else if family = nfpAfInet6 then
    .inet6 len port (UInt32.ofNat (ofLe (afterPort.take 4)))
      (BitVec.ofNat 128 (ofLe ((afterPort.drop 4).take 16)))
      (UInt32.ofNat (ofLe (((afterPort.drop 4).drop 16).take 4)))
  else .other (UInt8.ofNat family)

/-- The address the stack is asked to connect to. -/
def connectForm (log : List Entry) : Option NfpSockaddr :=
  log.findSome? fun e =>
    match e.call with
    | .nfpConnect _ addr _ => some addr
    | _ => none

/-- `accept`, and `accept4` with its flags and the results of the calls it makes after `nfp_accept`. -/
inductive Acceptor where
  | accept
  | accept4 (flags : Nat) (nb : Answer) (closed : Int)
  deriving DecidableEq, Repr

/-- Its NFP branch. -/
def Acceptor.branch (w : Acceptor) (g : Globals) (sockfd : Int) (addr : Bool)
    (addrlen : Option Nat) (a : Answer) (from_ : NfpSockaddr) : AcceptRan :=
  let r := acceptNfp g sockfd addr addrlen a from_
  match w with
  | .accept => r
  | .accept4 flags nb closed => { r with ran := setNonblock r.ran flags nb closed }

/-- **What the caller finds** in its buffer and in `*addrlen`; `zero` is what the structure on the
    stack of `accept` has in `sin_zero`. -/
def callerSees (zero : BitVec 64) (buf : List UInt8) (addrlen : Nat)
    (peer : Option (Sockaddr × Nat)) : List UInt8 × Nat :=
  match peer with
  | none => (buf, addrlen)
  | some (sa, n) => (writeOver buf (sa.bytes zero) n, n)

section Address

variable {g : Globals}

theorem Sockaddr.length_bytes (zero : BitVec 64) {ep : Sockaddr} {size : Nat}
    (h : ep.fullSize = some size) : (ep.bytes zero).length = size := by
  cases ep with
  | inet port addr =>
      cases h
      simp only [Sockaddr.bytes, List.length_append, length_leBytes]
      rfl
  | inet6 port flowinfo addr scopeId =>
      cases h
      simp only [Sockaddr.bytes, List.length_append, length_leBytes]
      rfl
  | other family port addr => cases h

theorem uint8_lt (n : UInt8) : n.toNat < capacity 1 := n.toNat_lt

theorem uint16_lt (n : UInt16) : n.toNat < capacity 2 := n.toNat_lt

theorem uint32_lt (n : UInt32) : n.toNat < capacity 4 := n.toNat_lt

/-- **The two structures are read back as they were built**, whatever stands in `sin_zero` and behind
    them. -/
theorem readNfp_bytes (zero : BitVec 64) {form : NfpSockaddr} (behind : List UInt8)
    (h : ∀ family, form ≠ .other family) : readNfp (form.bytes zero ++ behind) = form := by
  cases form with
  | inet len port addr =>
      simp only [NfpSockaddr.bytes, readNfp, List.append_assoc, drop_leBytes,
        ofLe_take (uint8_lt len), ofLe_take (uint16_lt port), ofLe_take (uint32_lt addr),
        UInt8.ofNat_toNat, UInt16.ofNat_toNat, UInt32.ofNat_toNat]
      rw [ofLe_take (by decide), if_pos rfl]
  | inet6 len port flowinfo addr scopeId =>
      have haddr : addr.toNat < capacity 16 := addr.isLt
      simp only [NfpSockaddr.bytes, readNfp, List.append_assoc, drop_leBytes,
        ofLe_take (uint8_lt len), ofLe_take (uint16_lt port), ofLe_take (uint32_lt flowinfo),
        ofLe_take haddr, ofLe_take (uint32_lt scopeId), UInt8.ofNat_toNat, UInt16.ofNat_toNat,
        UInt32.ofNat_toNat, BitVec.ofNat_toNat, BitVec.setWidth_eq]
      rw [ofLe_take (by decide), if_neg (by decide), if_pos rfl]
  | other family => exact absurd rfl (h family)

/-- **What `connect` hands to the stack** is read as the endpoint it was given. -/
theorem connect_form {fd : Int} (dl : Dlsym) (a : Answer) (hfd : isNfpSocket g fd = true)
    {ep : Sockaddr} {size : Nat} (hsize : ep.fullSize = some size) {addrlen : Nat}
    (hlen : size ≤ addrlen) :
    ∃ form, connectForm (connect g fd (some ep) addrlen dl a).log = some form ∧
      (∀ family, form ≠ .other family) ∧ form.toLinux = some (ep, size) := by
  have hnfp : connect g fd (some ep) addrlen dl a = connectNfp g fd (some ep) addrlen a :=
    if_pos hfd
  rw [hnfp]
  cases ep with
  | inet port addr =>
      cases hsize
      have hfits : 16 ≤ addrlen := hlen
      refine ⟨.inet 16 port addr, ?_, fun family h => (by cases h), rfl⟩
      simp only [connectNfp]
      rw [if_neg (by omega), if_neg (Nat.not_lt.mpr hlen)]
      rfl
  | inet6 port flowinfo addr scopeId =>
      cases hsize
      have hfits : 28 ≤ addrlen := hlen
      refine ⟨.inet6 28 port flowinfo addr scopeId, ?_, fun family h => (by cases h), rfl⟩
      simp only [connectNfp]
      rw [if_neg (by omega), if_neg (Nat.not_lt.mpr hlen)]
      rfl
  | other family port addr => cases hsize

/-- **What `accept` makes of such an address**: the endpoint, as far as the buffer goes. -/
theorem Acceptor.peer (w : Acceptor) (sockfd : Int) {len : Nat} {b : Answer} (hb : b.value ≠ -1)
    {from_ : NfpSockaddr} {ep : Sockaddr} {size : Nat} (hfrom : from_.toLinux = some (ep, size)) :
    (w.branch g sockfd true (some len) b from_).peer = some (ep, min len size) := by
  have haccept : (acceptNfp g sockfd true (some len) b from_).peer = some (ep, min len size) := by
    simp only [acceptNfp]
    rw [if_neg hb, hfrom]
  cases w with
  | accept => exact haccept
  | accept4 flags nb closed => exact haccept

/-- **Peer addresses.** If the stack hands to `accept` or `accept4` the NFP structure `connect` built
    for an endpoint, the address they build is the endpoint; the caller's buffer gets the first
    bytes of it, as many as `*addrlen` and the structure allow, and keeps the others; and
    `*addrlen` is the size of the structure afterwards just if it was no less before. -/
theorem peer_translated_iff {fd sockfd : Int} (dl : Dlsym) (a : Answer)
    (hfd : isNfpSocket g fd = true) {ep : Sockaddr} {size : Nat} (hsize : ep.fullSize = some size)
    {addrlen : Nat} (hlen : size ≤ addrlen) {form : NfpSockaddr}
    (hform : connectForm (connect g fd (some ep) addrlen dl a).log = some form)
    (zero zero' : BitVec 64) (behind : List UInt8) (w : Acceptor) (len : Nat) (buf : List UInt8)
    {b : Answer} (hb : b.value ≠ -1) {peer : Option (Sockaddr × Nat)}
    (hpeer : (w.branch g sockfd true (some len) b (readNfp (form.bytes zero ++ behind))).peer = peer) :
    peer.map Prod.fst = some ep ∧
      ((ep.bytes zero').length = size ∧ (callerSees zero' buf len peer).1 =
        (ep.bytes zero').take (min len size) ++ buf.drop (min len size)) ∧
      ((callerSees zero' buf len peer).2 = size ↔ size ≤ len) := by
  obtain ⟨form', hform', hknown, htoLinux⟩ := connect_form dl a hfd hsize hlen
  rw [hform] at hform'
  cases hform'
  rw [readNfp_bytes zero behind hknown, w.peer sockfd hb htoLinux] at hpeer
  rw [← hpeer]
  refine ⟨rfl, ⟨Sockaddr.length_bytes zero' hsize, rfl⟩, ?_⟩
  show min len size = size ↔ size ≤ len
  omega

end Address

/-- An IPv4 peer into a buffer that holds it. -/
theorem peer_translated_iff_inet :
    (callerSees 0 (List.replicate 20 9) 20
      (Acceptor.accept.branch someGlobals 1025 true (some 20) ⟨1026, 0⟩
        (readNfp (NfpSockaddr.bytes 0 (.inet 16 80 0x0100007f) ++ []))).peer).2 = 16 :=
  (@peer_translated_iff someGlobals 1030 1025 .found ⟨0, 0⟩ rfl (.inet 80 0x0100007f) 16 rfl 16
    (by decide) (.inet 16 80 0x0100007f) rfl 0 0 [] .accept 20 (List.replicate 20 9) ⟨1026, 0⟩
    (by decide) _ rfl).2.2.mpr (by decide)

/-- An IPv6 peer does not fit a buffer of 16 bytes: 16 bytes are written, and `*addrlen` is 16 instead
    of 28, so the caller cannot tell. -/
theorem peer_length_cut :
    let form : NfpSockaddr := .inet6 28 80 0 1 0
    let peer := (Acceptor.accept.branch someGlobals 1025 true (some 16) ⟨1026, 0⟩
      (readNfp (form.bytes 0))).peer
    connectForm (connect someGlobals 1030 (some (.inet6 80 0 1 0)) 28 .found ⟨0, 0⟩).log =
        some form ∧
      peer = some (.inet6 80 0 1 0, 16) ∧ (callerSees 0 (List.replicate 16 0) 16 peer).2 = 16 := by
  decide

end Nfp.Netwrap
