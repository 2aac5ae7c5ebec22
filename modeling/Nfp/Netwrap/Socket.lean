/-
  File:      Nfp/Netwrap/Socket.lean
  Subject:   THE SOCKET WRAPPERS of example/netwrap_crt (netwrap_socket.c, netwrap_sockopt.c,
             netwrap_ioctl.c): each tests the descriptor it is given and translates its arguments
             for the stack it calls.

  Where a wrapper looks at its arguments first it may return without calling a stack at all
  (`refuse`). `accept` and `accept4` call further functions of the NFP stack on the descriptor
  they have just been given.
-/
import Nfp.Netwrap.Common

namespace Nfp.Netwrap

/-! ## netwrap_socket.c -/

/-- `AF_INET`. -/
def afInet : Int := 2

/-- `NFP_AF_INET`. -/
def nfpAfInet : Int := 2

/-- `SOCK_STREAM`, `SOCK_DGRAM`. -/
def socketTypes : List (Int × Int) := [(1, 1), (2, 2)]

/-- `IPPROTO_UDP`, `IPPROTO_TCP`. -/
def socketProtocols : List (Int × Int) := [(17, 17), (6, 6)]

/-- **`socket`**: of the domains only `AF_INET` goes to the NFP stack. -/
def socket (g : Globals) (domain type protocol : Int) (dl : Dlsym) (a : Answer) : Ran :=
  if g.constructorCalled then
    if domain ≠ afInet then
      -- the pointer is called without a look at it
      if g.loaded .socket then libcCall g (.socket domain type protocol) a else ⟨g, [], .crash⟩
    else
      nfpCall g (.nfpSocket nfpAfInet (translate socketTypes type)
        (translate socketProtocols protocol)) a
  else loadAndCall g .socket dl (.socket domain type protocol) a

/-- `SHUT_RD`, `SHUT_WR`, `SHUT_RDWR`. -/
def shutdownHow : List (Int × Int) := [(0, 0), (1, 1), (2, 2)]

/-- **`shutdown`**. -/
def shutdown (g : Globals) (sockfd how : Int) (dl : Dlsym) (a : Answer) : Ran :=
  route g sockfd .shutdown dl (.shutdown sockfd how) a
    (nfpCall g (.nfpShutdown sockfd (translate shutdownHow how)) a)

/-- **`close`**. -/
def close (g : Globals) (sockfd : Int) (dl : Dlsym) (a : Answer) : Ran :=
  route g sockfd .close dl (.close sockfd) a (nfpCall g (.nfpClose sockfd) a)

/-- The first 16 bytes of an address, read as a `sockaddr_in`: its port and address. -/
def Sockaddr.asInet : Sockaddr → UInt16 × UInt32
  | .inet port addr => (port, addr)
  | .inet6 port flowinfo _ _ => (port, flowinfo)
  | .other _ port addr => (port, addr)

/-- The NFP branch of `bind`: the family of the address is not looked at. -/
def bindNfp (g : Globals) (sockfd : Int) (addr : Option Sockaddr) (addrlen : Nat) (a : Answer) :
    Ran :=
  match addr with
  | none => refuse g efault
  | some sa =>
      if addrlen ≠ sizeofSockaddrIn then refuse g einval
      else nfpCall g (.nfpBind sockfd (.inet 16 sa.asInet.1 sa.asInet.2) sizeofSockaddrIn) a

/-- **`bind`**. -/
def bind (g : Globals) (sockfd : Int) (addr : Option Sockaddr) (addrlen : Nat) (dl : Dlsym)
    (a : Answer) : Ran :=
  route g sockfd .bind dl (.bind sockfd addr addrlen) a (bindNfp g sockfd addr addrlen a)

/-- The Linux form of the peer's address, and its size; none of an unknown family. -/
def NfpSockaddr.toLinux : NfpSockaddr → Option (Sockaddr × Nat)
  | .inet _ port addr => some (.inet port addr, sizeofSockaddrIn)
  | .inet6 _ port flowinfo addr scopeId =>
      some (.inet6 port flowinfo addr scopeId, sizeofSockaddrIn6)
  | .other _ => none

/-- What `accept` did: besides, the address it wrote and `*addrlen`, the bytes of it written. -/
structure AcceptRan where
  ran : Ran
  peer : Option (Sockaddr × Nat)

/-- The NFP branch of `accept`; `from_` is the address `nfp_accept` stored. -/
def acceptNfp (g : Globals) (sockfd : Int) (addr : Bool) (addrlen : Option Nat) (a : Answer)
    (from_ : NfpSockaddr) : AcceptRan :=
  let called : List Entry := [⟨.nfpAccept sockfd addr, a.value⟩]
  let errno := some (netwrapErrno a.err)
  match addr, addrlen with
  | false, _ => ⟨⟨g, called, .ret a.value errno⟩, none⟩
  | true, none => ⟨refuse g einval, none⟩
  | true, some len =>
      if a.value = -1 then ⟨⟨g, called, .ret a.value errno⟩, none⟩
      else
        match from_.toLinux with
        | none => ⟨⟨g, called, .ret (-1) errno⟩, none⟩
        | some (sa, size) => ⟨⟨g, called, .ret a.value errno⟩, some (sa, min len size)⟩

/-- **`accept`**. -/
def accept (g : Globals) (sockfd : Int) (addr : Bool) (addrlen : Option Nat) (dl : Dlsym)
    (a : Answer) (from_ : NfpSockaddr) : Ran :=
  route g sockfd .accept dl (.accept sockfd addr addrlen) a
    (acceptNfp g sockfd addr addrlen a from_).ran

/-- `SOCK_NONBLOCK`. -/
def sockNonblock : Nat := 2048

/-- `accept4` after `nfp_accept`: make the new descriptor non-blocking, close it if that fails.
    `nb` is the answer of `nfp_ioctl`, `closed` the result of `nfp_close`. -/
def setNonblock (r : Ran) (flags : Nat) (nb : Answer) (closed : Int) : Ran :=
  match r.fin with
  | .ret v _ =>
      if v ≠ -1 ∧ flags &&& sockNonblock ≠ 0 then
        if nb.value ≠ 0 then
          { r with
            log := r.log ++ [⟨.nfpIoctl v .fionbio, nb.value⟩, ⟨.nfpClose v, closed⟩]
            fin := .ret (-1) (some (netwrapErrno nb.err)) }
        else { r with log := r.log ++ [⟨.nfpIoctl v .fionbio, nb.value⟩] }
      else r
  | _ => r

/-- **`accept4`**. -/
def accept4 (g : Globals) (sockfd : Int) (addr : Bool) (addrlen : Option Nat) (flags : Nat)
    (dl : Dlsym) (a : Answer) (from_ : NfpSockaddr) (nb : Answer) (closed : Int) : Ran :=
  route g sockfd .accept4 dl (.accept4 sockfd addr addrlen flags) a
    (setNonblock (acceptNfp g sockfd addr addrlen a from_).ran flags nb closed)

/-- **`listen`**. -/
def listen (g : Globals) (sockfd backlog : Int) (dl : Dlsym) (a : Answer) : Ran :=
  route g sockfd .listen dl (.listen sockfd backlog) a (nfpCall g (.nfpListen sockfd backlog) a)

/-- The NFP branch of `connect`. -/
def connectNfp (g : Globals) (sockfd : Int) (addr : Option Sockaddr) (addrlen : Nat) (a : Answer) :
    Ran :=
  match addr with
  | none => refuse g einval
  | some sa =>
      if addrlen < 2 then refuse g einval
      else
        match sa with
        | .inet port addr =>
            if addrlen < sizeofSockaddrIn then refuse g einval
            else nfpCall g (.nfpConnect sockfd (.inet 16 port addr) sizeofSockaddrIn) a
        | .inet6 port flowinfo addr scopeId =>
            if addrlen < sizeofSockaddrIn6 then refuse g einval
            else
              nfpCall g (.nfpConnect sockfd (.inet6 28 port flowinfo addr scopeId)
                sizeofSockaddrIn6) a
        | .other _ _ _ => refuse g eafnosupport

/-- **`connect`**. -/
def connect (g : Globals) (sockfd : Int) (addr : Option Sockaddr) (addrlen : Nat) (dl : Dlsym)
    (a : Answer) : Ran :=
  route g sockfd .connect dl (.connect sockfd addr addrlen) a (connectNfp g sockfd addr addrlen a)

/-- **`read`**. -/
def read (g : Globals) (sockfd : Int) (len : Nat) (dl : Dlsym) (a : Answer) : Ran :=
  route g sockfd .read dl (.read sockfd len) a (nfpCall g (.nfpRecv sockfd (nfpSizeT len) 0) a)

/-- **`write`**. -/
def write (g : Globals) (sockfd : Int) (len : Nat) (dl : Dlsym) (a : Answer) : Ran :=
  route g sockfd .write dl (.write sockfd len) a (nfpCall g (.nfpSend sockfd (nfpSizeT len) 0) a)

/-- `MSG_DONTWAIT`, `MSG_OOB`, `MSG_PEEK`, `MSG_TRUNC`, `MSG_WAITALL`. -/
def recvFlags : List (Nat × Nat) :=
  [(0x40, 0x80), (0x1, 0x1), (0x2, 0x2), (0x20, 0x10), (0x100, 0x40)]

/-- **`recv`**. -/
def recv (g : Globals) (sockfd : Int) (len flags : Nat) (dl : Dlsym) (a : Answer) : Ran :=
  route g sockfd .recv dl (.recv sockfd len flags) a
    (nfpCall g (.nfpRecv sockfd (nfpSizeT len) (translateFlags recvFlags flags)) a)

/-- `MSG_DONTROUTE`, `MSG_DONTWAIT` (twice), `MSG_EOR`, `MSG_NOSIGNAL`, `MSG_OOB`. -/
def sendFlags : List (Nat × Nat) :=
  [(0x4, 0x4), (0x40, 0x80), (0x40, 0x80), (0x80, 0x8), (0x4000, 0x20000), (0x1, 0x1)]

/-- **`send`**. -/
def send (g : Globals) (sockfd : Int) (len flags : Nat) (dl : Dlsym) (a : Answer) : Ran :=
  route g sockfd .send dl (.send sockfd len flags) a
    (nfpCall g (.nfpSend sockfd (nfpSizeT len) (translateFlags sendFlags flags)) a)

/-! ## netwrap_sockopt.c -/

/-- `SOL_SOCKET`. -/
def solSocket : Int := 1

/-- `NFP_SOL_SOCKET`. -/
def nfpSolSocket : Int := 0xffff

/-- The options of `setsockopt` at `SOL_SOCKET`: linger, debug, keepalive, dontroute, broadcast,
    reuseaddr, reuseport, oobinline, timestamp, sndbuf, rcvbuf, sndlowat, rcvlowat, sndtimeo,
    rcvtimeo. -/
def setOptions : List (Int × Int) :=
  [(13, 0x80), (1, 0x1), (9, 0x8), (5, 0x10), (6, 0x20), (2, 0x4), (15, 0x200), (10, 0x100),
    (29, 0x400), (7, 0x1001), (8, 0x1002), (19, 0x1003), (18, 0x1004), (21, 0x1005), (20, 0x1006)]

/-- Those of `getsockopt`: acceptconn, type, protocol and error besides. -/
def getOptions : List (Int × Int) :=
  setOptions ++ [(30, 0x2), (3, 0x1008), (38, 0x1016), (4, 0x1007)]

/-- The level and name for the NFP stack: at `SOL_SOCKET` by the table, at other levels as they
    are. -/
def nfpOption (table : List (Int × Int)) (level optName : Int) : Option (Int × Int) :=
  if level = solSocket then
    match table.find? fun e => e.1 = optName with
    | some e => some (nfpSolSocket, e.2)
    | none => none
  else some (level, optName)

/-- The NFP branch of both: an option that is not in the table is refused. -/
def sockoptNfp (g : Globals) (table : List (Int × Int)) (level optName : Int)
    (c : Int → Int → StackCall) (a : Answer) : Ran :=
  match nfpOption table level optName with
  | none => refuse g eopnotsupp
  | some (nfpLevel, nfpOptName) => nfpCall g (c nfpLevel nfpOptName) a

/-- **`setsockopt`**. -/
def setsockopt (g : Globals) (sockfd level optName : Int) (optVal : List UInt8) (dl : Dlsym)
    (a : Answer) : Ran :=
  route g sockfd .setsockopt dl (.setsockopt sockfd level optName optVal) a
    (sockoptNfp g setOptions level optName (fun l n => .nfpSetsockopt sockfd l n optVal) a)

/-- **`getsockopt`**. -/
def getsockopt (g : Globals) (sockfd level optName : Int) (optLen : Nat) (dl : Dlsym) (a : Answer) :
    Ran :=
  route g sockfd .getsockopt dl (.getsockopt sockfd level optName optLen) a
    (sockoptNfp g getOptions level optName (fun l n => .nfpGetsockopt sockfd l n optLen) a)

/-! ## netwrap_ioctl.c -/

/-- `FIONREAD`, `FIONBIO`, `FIOASYNC`. -/
def nfpRequest (request : Nat) : Option NfpRequest :=
  if request = 0x541b then some .fionread
  else if request = 0x5421 then some .fionbio
  else if request = 0x5452 then some .fioasync
  else none

/-- The NFP branch of `ioctl`. -/
def ioctlNfp (g : Globals) (fd : Int) (request : Nat) (a : Answer) : Ran :=
  match nfpRequest request with
  | none => refuse g einval
  | some r => nfpCall g (.nfpIoctl fd r) a

/-- **`ioctl`**. -/
def ioctl (g : Globals) (fd : Int) (request : Nat) (dl : Dlsym) (a : Answer) : Ran :=
  route g fd .ioctl dl (.ioctl fd request) a (ioctlNfp g fd request a)

/-! ## One descriptor, one stack -/

section Branches

variable (g : Globals) (sockfd : Int) (a : Answer)

/-- One call of the NFP stack with one descriptor. -/
theorem nfpCall_only {call : StackCall} (hs : call.stack = .nfp) (hg : call.given = {sockfd}) :
    OnlyNfp g (nfpCall g call a) sockfd :=
  onlyNfp_single g _ _ hs (by rw [hg]; exact Finset.mem_singleton_self _)

theorem bindNfp_only (addr : Option Sockaddr) (addrlen : Nat) :
    OnlyNfp g (bindNfp g sockfd addr addrlen a) sockfd := by
  unfold bindNfp
  split
  · exact onlyNfp_refuse g _ _
  · split
    · exact onlyNfp_refuse g _ _
    · exact nfpCall_only g sockfd a rfl rfl

theorem connectNfp_only (addr : Option Sockaddr) (addrlen : Nat) :
    OnlyNfp g (connectNfp g sockfd addr addrlen a) sockfd := by
  unfold connectNfp
  split
  · exact onlyNfp_refuse g _ _
  · split
    · exact onlyNfp_refuse g _ _
    · split
      · split
        · exact onlyNfp_refuse g _ _
        · exact nfpCall_only g sockfd a rfl rfl
      · split
        · exact onlyNfp_refuse g _ _
        · exact nfpCall_only g sockfd a rfl rfl
      · exact onlyNfp_refuse g _ _

theorem sockoptNfp_only (table : List (Int × Int)) (level optName : Int)
    {call : Int → Int → StackCall} (hs : ∀ l n, (call l n).stack = .nfp)
    (hg : ∀ l n, (call l n).given = {sockfd}) :
    OnlyNfp g (sockoptNfp g table level optName call a) sockfd := by
  unfold sockoptNfp
  split
  · exact onlyNfp_refuse g _ _
  · exact nfpCall_only g sockfd a (hs _ _) (hg _ _)

theorem ioctlNfp_only (request : Nat) : OnlyNfp g (ioctlNfp g sockfd request a) sockfd := by
  unfold ioctlNfp
  split
  · exact onlyNfp_refuse g _ _
  · exact nfpCall_only g sockfd a rfl rfl

theorem acceptNfp_only (addr : Bool) (addrlen : Option Nat) (from_ : NfpSockaddr) :
    OnlyNfp g (acceptNfp g sockfd addr addrlen a from_).ran sockfd := by
  have hcall : ∀ fin, OnlyNfp g ⟨g, [⟨.nfpAccept sockfd addr, a.value⟩], fin⟩ sockfd :=
    fun fin => onlyNfp_single g _ fin rfl (Finset.mem_singleton_self _)
  unfold acceptNfp
  split
  · exact hcall _
  · exact onlyNfp_refuse g _ _
  · split
    · exact hcall _
    · split
      · exact hcall _
      · exact hcall _

/-- `accept` returns a descriptor only after the call of `nfp_accept`. -/
theorem acceptNfp_called {addr : Bool} {addrlen : Option Nat} {from_ : NfpSockaddr} {v : Int}
    {errno : Option Int}
    (h : (acceptNfp g sockfd addr addrlen a from_).ran.fin = .ret v errno) (hv : v ≠ -1) :
    (acceptNfp g sockfd addr addrlen a from_).ran.log ≠ [] := by
  unfold acceptNfp at h ⊢
  split at h
  · exact List.cons_ne_nil _ _
  · cases h
    exact absurd rfl hv
  · split
    · exact List.cons_ne_nil _ _
    · split
      · exact List.cons_ne_nil _ _
      · exact List.cons_ne_nil _ _

/-- More calls of the NFP stack, once it has been called with the descriptor. -/
theorem OnlyNfp.more {g : Globals} {r : Ran} {fd : Int} (h : OnlyNfp g r fd) (hne : r.log ≠ [])
    {more : List Entry} (hmore : ∀ e ∈ more, e.call.stack = .nfp) (fin : End) :
    OnlyNfp g ⟨r.globals, r.log ++ more, fin⟩ fd := by
  refine ⟨h.globals, fun e he => ?_, fun _ => ?_⟩
  · rcases List.mem_append.mp he with he | he
    · exact h.stack e he
    · exact hmore e he
  · obtain ⟨e, he, hg⟩ := h.reach hne
    exact ⟨e, List.mem_append_left _ he, hg⟩

/-- `accept4` goes on with the descriptor `nfp_accept` answered. -/
theorem accept4Nfp_only (addr : Bool) (addrlen : Option Nat) (from_ : NfpSockaddr) (flags : Nat)
    (nb : Answer) (closed : Int) :
    OnlyNfp g (setNonblock (acceptNfp g sockfd addr addrlen a from_).ran flags nb closed)
      sockfd := by
  have honly := acceptNfp_only g sockfd a addr addrlen from_
  unfold setNonblock
  split
  · rename_i v errno hfin
    split
    · rename_i hcond
      have hne := acceptNfp_called g sockfd a hfin hcond.1
      split
      · refine honly.more hne (fun e he => ?_) _
        rcases List.mem_cons.mp he with rfl | he
        · rfl
        · rw [List.mem_singleton.mp he]
          rfl
      · refine honly.more hne (fun e he => ?_) _
        rw [List.mem_singleton.mp he]
        rfl
    · exact honly
  · exact honly

end Branches

end Nfp.Netwrap
