/-
  File:      Nfp/Netwrap/Options.lean
  Subject:   SOCKET OPTIONS ON THEIR WAY THROUGH `setsockopt` AND `getsockopt` of example/netwrap_crt:
             what the forwarded number means to the NFP stack, and what becomes of a `struct timeval`.

  At `SOL_SOCKET` the wrappers translate the number of an option; at other levels they pass it on.
  The value they never touch.

  * `linuxMeaning`, `nfpMeaning` -- the option a pair of level and name denotes in either numbering;
  * `options_kept_iff` -- which forwarded pairs denote the same option in both;
  * `OptionStack` -- the stack behind `nfp_setsockopt` and `nfp_getsockopt`, of which no more is
    assumed than `KeepsTimeouts`: it takes and gives the two timeouts as `struct nfp_timeval`;
  * `timeouts_kept_iff` -- which durations get into it and out of it again.
-/
import Nfp.Lib.Bytes
import Nfp.Netwrap.Socket

namespace Nfp.Netwrap

open Nfp.Lib

/-! ## Names -/

/-- The options both systems have, by name; one that only one of them has, by its number there. -/
inductive SockOption where
  | soDebug | soAcceptconn | soReuseaddr | soKeepalive | soDontroute | soBroadcast | soLinger
  | soOobinline | soReuseport | soTimestamp | soSndbuf | soRcvbuf | soSndlowat | soRcvlowat
  | soSndtimeo | soRcvtimeo | soError | soType | soProtocol
  | ipOptions | ipHdrincl | ipTos | ipTtl | ipRecvopts | ipRetopts | ipMulticastIf
  | ipMulticastTtl | ipMulticastLoop | ipAddMembership | ipDropMembership | ipIpsecPolicy
  | ipRecvttl | ipMinttl | ipRecvtos | ipAddSourceMembership | ipDropSourceMembership
  | ipBlockSource | ipUnblockSource | ipMsfilter | mcastJoinGroup | mcastLeaveGroup
  | mcastJoinSourceGroup | mcastLeaveSourceGroup | mcastBlockSource | mcastUnblockSource
  | tcpNodelay | tcpMaxseg | tcpCork | tcpKeepidle | tcpKeepintvl | tcpKeepcnt | tcpInfo
  | tcpCongestion | tcpMd5sig
  | udpEncap
  | linuxOnly (level name : Int)
  | nfpOnly (level name : Int)
  deriving DecidableEq, Repr

/-- An option both systems have. -/
def SockOption.isShared : SockOption → Bool
  | .linuxOnly _ _ => false
  | .nfpOnly _ _ => false
  | _ => true

/-- An option with its level and number in either system. -/
structure Numbered where
  option : SockOption
  linux : Int × Int
  nfp : Int × Int
  deriving DecidableEq, Repr

/-- `IPPROTO_IP`, `NFP_IPPROTO_IP`. -/
def ipLevel : Int := 0

/-- `IPPROTO_TCP`, `NFP_IPPROTO_TCP`. -/
def tcpLevel : Int := 6

/-- `IPPROTO_UDP`, `NFP_IPPROTO_UDP`. -/
def udpLevel : Int := 17

/-- The options both systems have: those of sys/socket.h and nfp_socket.h, of netinet/in.h and
    nfp_in.h, of netinet/tcp.h and nfp_tcp.h, and of nfp_udp.h. -/
def sharedOptions : List Numbered :=
  [⟨.soDebug, (solSocket, 1), (nfpSolSocket, 0x1)⟩,
    ⟨.soAcceptconn, (solSocket, 30), (nfpSolSocket, 0x2)⟩,
    ⟨.soReuseaddr, (solSocket, 2), (nfpSolSocket, 0x4)⟩,
    ⟨.soKeepalive, (solSocket, 9), (nfpSolSocket, 0x8)⟩,
    ⟨.soDontroute, (solSocket, 5), (nfpSolSocket, 0x10)⟩,
    ⟨.soBroadcast, (solSocket, 6), (nfpSolSocket, 0x20)⟩,
    ⟨.soLinger, (solSocket, 13), (nfpSolSocket, 0x80)⟩,
    ⟨.soOobinline, (solSocket, 10), (nfpSolSocket, 0x100)⟩,
    ⟨.soReuseport, (solSocket, 15), (nfpSolSocket, 0x200)⟩,
    ⟨.soTimestamp, (solSocket, 29), (nfpSolSocket, 0x400)⟩,
    ⟨.soSndbuf, (solSocket, 7), (nfpSolSocket, 0x1001)⟩,
    ⟨.soRcvbuf, (solSocket, 8), (nfpSolSocket, 0x1002)⟩,
    ⟨.soSndlowat, (solSocket, 19), (nfpSolSocket, 0x1003)⟩,
    ⟨.soRcvlowat, (solSocket, 18), (nfpSolSocket, 0x1004)⟩,
    ⟨.soSndtimeo, (solSocket, 21), (nfpSolSocket, 0x1005)⟩,
    ⟨.soRcvtimeo, (solSocket, 20), (nfpSolSocket, 0x1006)⟩,
    ⟨.soError, (solSocket, 4), (nfpSolSocket, 0x1007)⟩,
    ⟨.soType, (solSocket, 3), (nfpSolSocket, 0x1008)⟩,
    ⟨.soProtocol, (solSocket, 38), (nfpSolSocket, 0x1016)⟩,
    ⟨.ipOptions, (ipLevel, 4), (ipLevel, 1)⟩,
    ⟨.ipHdrincl, (ipLevel, 3), (ipLevel, 2)⟩,
    ⟨.ipTos, (ipLevel, 1), (ipLevel, 3)⟩,
    ⟨.ipTtl, (ipLevel, 2), (ipLevel, 4)⟩,
    ⟨.ipRecvopts, (ipLevel, 6), (ipLevel, 5)⟩,
    ⟨.ipRetopts, (ipLevel, 7), (ipLevel, 8)⟩,
    ⟨.ipMulticastIf, (ipLevel, 32), (ipLevel, 9)⟩,
    ⟨.ipMulticastTtl, (ipLevel, 33), (ipLevel, 10)⟩,
    ⟨.ipMulticastLoop, (ipLevel, 34), (ipLevel, 11)⟩,
    ⟨.ipAddMembership, (ipLevel, 35), (ipLevel, 12)⟩,
    ⟨.ipDropMembership, (ipLevel, 36), (ipLevel, 13)⟩,
    ⟨.ipIpsecPolicy, (ipLevel, 16), (ipLevel, 21)⟩,
    ⟨.ipRecvttl, (ipLevel, 12), (ipLevel, 65)⟩,
    ⟨.ipMinttl, (ipLevel, 21), (ipLevel, 66)⟩,
    ⟨.ipRecvtos, (ipLevel, 13), (ipLevel, 68)⟩,
    ⟨.ipAddSourceMembership, (ipLevel, 39), (ipLevel, 70)⟩,
    ⟨.ipDropSourceMembership, (ipLevel, 40), (ipLevel, 71)⟩,
    ⟨.ipBlockSource, (ipLevel, 38), (ipLevel, 72)⟩,
    ⟨.ipUnblockSource, (ipLevel, 37), (ipLevel, 73)⟩,
    ⟨.ipMsfilter, (ipLevel, 41), (ipLevel, 74)⟩,
    ⟨.mcastJoinGroup, (ipLevel, 42), (ipLevel, 80)⟩,
    ⟨.mcastLeaveGroup, (ipLevel, 45), (ipLevel, 81)⟩,
    ⟨.mcastJoinSourceGroup, (ipLevel, 46), (ipLevel, 82)⟩,
    ⟨.mcastLeaveSourceGroup, (ipLevel, 47), (ipLevel, 83)⟩,
    ⟨.mcastBlockSource, (ipLevel, 43), (ipLevel, 84)⟩,
    ⟨.mcastUnblockSource, (ipLevel, 44), (ipLevel, 85)⟩,
    ⟨.tcpNodelay, (tcpLevel, 1), (tcpLevel, 0x1)⟩,
    ⟨.tcpMaxseg, (tcpLevel, 2), (tcpLevel, 0x2)⟩,
    ⟨.tcpCork, (tcpLevel, 3), (tcpLevel, 0x1000)⟩,
    ⟨.tcpKeepidle, (tcpLevel, 4), (tcpLevel, 0x100)⟩,
    ⟨.tcpKeepintvl, (tcpLevel, 5), (tcpLevel, 0x200)⟩,
    ⟨.tcpKeepcnt, (tcpLevel, 6), (tcpLevel, 0x400)⟩,
    ⟨.tcpInfo, (tcpLevel, 11), (tcpLevel, 0x20)⟩,
    ⟨.tcpCongestion, (tcpLevel, 13), (tcpLevel, 0x40)⟩,
    ⟨.tcpMd5sig, (tcpLevel, 14), (tcpLevel, 0x10)⟩,
    ⟨.udpEncap, (udpLevel, 100), (udpLevel, 1)⟩]

/-- The numbers of the NFP options that Linux does not have. -/
def nfpOthers : List (Int × List Int) :=
  [(nfpSolSocket, [0x40, 0x800, 0x1000, 0x2000, 0x4000, 0x8000, 0x10000, 0x20000, 0x40000, 0x80000,
      0x1009, 0x1010, 0x1011, 0x1012, 0x1013, 0x1014, 0x1015, 0x1017]),
    (ipLevel, [6, 7, 14, 15, 16, 17, 18, 19, 20, 22, 23, 24, 40, 41, 42, 43, 44, 48, 49, 50, 51, 52,
      53, 54, 55, 56, 57, 58, 59, 60, 61, 62, 64, 67, 90, 91]),
    (tcpLevel, [0x4, 0x8, 0x80, 0x800])]

/-- What a pair denotes where options are numbered so: the option both systems have, or one of its
    own. -/
def meaning (number : Numbered → Int × Int) (own : Option SockOption) (pair : Int × Int) :
    Option SockOption :=
  ((sharedOptions.find? fun e => number e = pair).map Numbered.option).or own

/-- **What a pair denotes in the Linux numbering**; `further` tells at which other pairs Linux has an
    option of its own. -/
def linuxMeaning (further : Int → Int → Bool) (level name : Int) : Option SockOption :=
  meaning Numbered.linux (if further level name then some (.linuxOnly level name) else none)
    (level, name)

/-- **What a pair denotes in the NFP numbering.** -/
def nfpMeaning (level name : Int) : Option SockOption :=
  meaning Numbered.nfp
    (if nfpOthers.any fun e => e.1 = level ∧ name ∈ e.2 then some (.nfpOnly level name) else none)
    (level, name)

/-- The pair the stack is given. -/
def forwardedOption (log : List Entry) : Option (Int × Int) :=
  log.findSome? fun e =>
    match e.call with
    | .nfpSetsockopt _ level name _ => some (level, name)
    | .nfpGetsockopt _ level name _ => some (level, name)
    | _ => none

/-- The level is the one that is translated, the pair is `TCP_NODELAY` or `TCP_MAXSEG`, or neither
    numbering has it. -/
def SameNumber (further : Int → Int → Bool) (level name : Int) : Prop :=
  level = solSocket ∨ (level, name) = (tcpLevel, 1) ∨ (level, name) = (tcpLevel, 2) ∨
    (linuxMeaning further level name = none ∧ nfpMeaning level name = none)

section Names

variable {further : Int → Int → Bool} {level name : Int}

/-- Of the options both have, two have the same number in both. -/
theorem shared_numbers : ∀ e ∈ sharedOptions, ∀ e' ∈ sharedOptions, e.option = e'.option →
    e.nfp = e'.linux → e.nfp = (tcpLevel, 1) ∨ e.nfp = (tcpLevel, 2) := by
  decide +kernel

theorem shared_isShared : ∀ e ∈ sharedOptions, e.option.isShared = true := by
  decide +kernel

/-- The tables of the wrappers are those of the headers. -/
theorem socket_names : ∀ e ∈ getOptions, ∃ o ∈ sharedOptions.map Numbered.option,
    (sharedOptions.find? fun x => x.linux = (solSocket, e.1)).map Numbered.option = some o ∧
      (sharedOptions.find? fun x => x.nfp = (nfpSolSocket, e.2)).map Numbered.option = some o := by
  decide +kernel

theorem meaning_cases {number : Numbered → Int × Int} {own : Option SockOption} {pair : Int × Int}
    {o : SockOption} (h : meaning number own pair = some o) :
    (∃ e ∈ sharedOptions, number e = pair ∧ e.option = o) ∨ own = some o := by
  unfold meaning at h
  cases hfind : sharedOptions.find? fun e => number e = pair with
  | some e =>
      rw [hfind] at h
      have hpair := List.find?_some hfind
      exact Or.inl ⟨e, List.mem_of_find?_eq_some hfind, of_decide_eq_true hpair, Option.some.inj h⟩
  | none =>
      rw [hfind, Option.map_none, Option.none_or] at h
      exact Or.inr h

/-- An option of one's own is none that both have, and none of the other's. -/
theorem own_cases {p : Prop} [Decidable p] {o o' : SockOption}
    (h : (if p then some o else none) = some o') : o' = o := by
  split at h
  · exact (Option.some.inj h).symm
  · cases h

/-- **A pair that is passed on as it is** denotes the same option in both numberings just if it is one
    of the two, or denotes nothing in either. -/
theorem meaning_eq_iff : nfpMeaning level name = linuxMeaning further level name ↔
    (level, name) = (tcpLevel, 1) ∨ (level, name) = (tcpLevel, 2) ∨
      (linuxMeaning further level name = none ∧ nfpMeaning level name = none) := by
  constructor
  · intro heq
    cases hnfp : nfpMeaning level name with
    | none => exact Or.inr (Or.inr ⟨heq ▸ hnfp, rfl⟩)
    | some o =>
        rw [hnfp] at heq
        have hlinux := heq.symm
        rcases meaning_cases hnfp with ⟨e, he, hpair, ho⟩ | hown
        · rcases meaning_cases hlinux with ⟨e', he', hpair', ho'⟩ | hown'
          · have hsame := shared_numbers e he e' he' (ho.trans ho'.symm) (hpair.trans hpair'.symm)
            rw [hpair] at hsame
            exact hsame.imp id Or.inl
          · have hshared := shared_isShared e he
            rw [ho, own_cases hown'] at hshared
            cases hshared
        · rcases meaning_cases hlinux with ⟨e', he', hpair', ho'⟩ | hown'
          · have hshared := shared_isShared e' he'
            rw [ho', own_cases hown] at hshared
            cases hshared
          · have hclash := (own_cases hown).symm.trans (own_cases hown')
            cases hclash
  · intro h
    rcases h with h | h | ⟨hlinux, hnfp⟩
    · cases h
      rfl
    · cases h
      rfl
    · rw [hlinux, hnfp]

/-- **An option that is translated** denotes the same before and after. -/
theorem meaning_translated {e : Int × Int} (he : e ∈ getOptions) :
    nfpMeaning nfpSolSocket e.2 = linuxMeaning further solSocket e.1 := by
  obtain ⟨o, -, hlinux, hnfp⟩ := socket_names e he
  unfold nfpMeaning linuxMeaning meaning
  rw [hlinux, hnfp]
  rfl

/-- What a branch with such a table forwards. -/
theorem sockoptNfp_kept {g : Globals} {table : List (Int × Int)}
    (htable : ∀ e ∈ table, e ∈ getOptions) {call : Int → Int → StackCall}
    (hcall : ∀ l n v, forwardedOption [⟨call l n, v⟩] = some (l, n)) (a : Answer)
    {pair : Int × Int}
    (hpair : pair ∈ forwardedOption (sockoptNfp g table level name call a).log) :
    nfpMeaning pair.1 pair.2 = linuxMeaning further level name ↔ SameNumber further level name := by
  unfold sockoptNfp nfpOption at hpair
  unfold SameNumber
  by_cases hlevel : level = solSocket
  · refine iff_of_true ?_ (Or.inl hlevel)
    rw [if_pos hlevel] at hpair
    cases hfind : table.find? fun e => e.1 = name with
    | none =>
        rw [hfind] at hpair
        cases hpair
    | some e =>
        rw [hfind] at hpair
        simp only [nfpCall, hcall] at hpair
        cases hpair
        have hdecide := List.find?_some hfind
        have hname : e.1 = name := of_decide_eq_true hdecide
        rw [hlevel, ← hname]
        exact meaning_translated (htable e (List.mem_of_find?_eq_some hfind))
  · rw [if_neg hlevel] at hpair
    simp only [nfpCall, hcall] at hpair
    cases hpair
    rw [meaning_eq_iff]
    exact ⟨Or.inr, fun h => h.resolve_left hlevel⟩

end Names

/-- **Which options keep their meaning.** Whatever further options Linux has, a pair that `setsockopt`
    or `getsockopt` on an NFP socket forwards denotes the option it was called with just if the
    level is `SOL_SOCKET`, the pair is `TCP_NODELAY` or `TCP_MAXSEG`, or neither numbering has an
    option there. -/
theorem options_kept_iff (further : Int → Int → Bool) {g : Globals} {fd : Int}
    (hfd : isNfpSocket g fd = true) (level name : Int) (optVal : List UInt8) (optLen : Nat)
    (dl : Dlsym) (a : Answer) :
    (∀ pair ∈ forwardedOption (setsockopt g fd level name optVal dl a).log,
      (nfpMeaning pair.1 pair.2 = linuxMeaning further level name ↔
        SameNumber further level name)) ∧
    ∀ pair ∈ forwardedOption (getsockopt g fd level name optLen dl a).log,
      (nfpMeaning pair.1 pair.2 = linuxMeaning further level name ↔
        SameNumber further level name) := by
  have hset : setsockopt g fd level name optVal dl a =
      sockoptNfp g setOptions level name (fun l n => .nfpSetsockopt fd l n optVal) a := if_pos hfd
  have hget : getsockopt g fd level name optLen dl a =
      sockoptNfp g getOptions level name (fun l n => .nfpGetsockopt fd l n optLen) a := if_pos hfd
  rw [hset, hget]
  exact ⟨fun pair hpair => sockoptNfp_kept (fun e he => List.mem_append_left _ he)
      (fun _ _ _ => rfl) a hpair,
    fun pair hpair => sockoptNfp_kept (fun e he => he) (fun _ _ _ => rfl) a hpair⟩

theorem options_kept_iff_nodelay :
    forwardedOption (setsockopt someGlobals 1030 6 1 [1, 0, 0, 0] .found ⟨0, 0⟩).log = some (6, 1) ∧
      nfpMeaning 6 1 = linuxMeaning (fun _ _ => false) 6 1 :=
  ⟨rfl, ((options_kept_iff (fun _ _ => false) rfl 6 1 [1, 0, 0, 0] 4 .found ⟨0, 0⟩).1 (6, 1)
    (rfl : forwardedOption (setsockopt someGlobals 1030 6 1 [1, 0, 0, 0] .found ⟨0, 0⟩).log =
      some (6, 1))).mpr (Or.inr (Or.inl rfl))⟩

/-- `IP_TTL` is forwarded as 2, which the stack takes for `NFP_IP_HDRINCL`, `TCP_KEEPIDLE` as 4, which
    it takes for `NFP_TCP_NOPUSH`. -/
theorem options_change_meaning :
    forwardedOption (setsockopt someGlobals 1030 0 2 [64, 0, 0, 0] .found ⟨0, 0⟩).log =
        some (0, 2) ∧
      (∀ further, linuxMeaning further 0 2 = some .ipTtl) ∧ nfpMeaning 0 2 = some .ipHdrincl ∧
      forwardedOption (getsockopt someGlobals 1030 6 4 4 .found ⟨0, 0⟩).log = some (6, 4) ∧
      (∀ further, linuxMeaning further 6 4 = some .tcpKeepidle) ∧
      nfpMeaning 6 4 = some (.nfpOnly 6 4) :=
  ⟨rfl, fun _ => rfl, rfl, rfl, fun _ => rfl, rfl⟩

/-! ## The value of a timeout -/

/-- `struct timeval` of a 64-bit little-endian Linux: two fields of eight bytes. -/
def timevalBytes (sec usec : Nat) : List UInt8 := leBytes 8 sec ++ leBytes 8 usec

/-- `sizeof(struct timeval)`. -/
def sizeofTimeval : Nat := 16

/-- `struct nfp_timeval`. -/
structure NfpTimeval where
  sec : Nat
  usec : Nat
  deriving DecidableEq, Repr

/-- `sizeof(struct nfp_timeval)`. -/
def sizeofNfpTimeval : Nat := 8

/-- Its two fields of four bytes. -/
def NfpTimeval.bytes (t : NfpTimeval) : List UInt8 := leBytes 4 t.sec ++ leBytes 4 t.usec

/-- Bytes taken for a `struct nfp_timeval`. -/
def NfpTimeval.ofBytes (bytes : List UInt8) : NfpTimeval :=
  ⟨ofLe (bytes.take 4), ofLe ((bytes.drop 4).take 4)⟩

/-- `SO_RCVTIMEO` and `SO_SNDTIMEO`. -/
inductive TimeoutOption where
  | rcvtimeo
  | sndtimeo
  deriving DecidableEq, Repr

/-- Its number in Linux. -/
def TimeoutOption.linux : TimeoutOption → Int
  | .rcvtimeo => 20
  | .sndtimeo => 21

/-- Its number in NFP. -/
def TimeoutOption.nfp : TimeoutOption → Int
  | .rcvtimeo => 0x1006
  | .sndtimeo => 0x1005

/-- **The stack behind the options of a socket**, for calls that return 0: the state after
    `nfp_setsockopt` of a level, a name and a value; the caller's buffer and `*opt_len` after
    `nfp_getsockopt` of a level and a name; the timeouts it goes by. -/
structure OptionStack (σ : Type) where
  set : σ → Int → Int → List UInt8 → σ
  get : σ → Int → Int → List UInt8 × Nat → List UInt8 × Nat
  timeout : σ → TimeoutOption → NfpTimeval

namespace OptionStack

variable {σ : Type}

/-- **A stack that keeps the timeouts as `struct nfp_timeval`**: it takes the value for one, and
    writes one, as far as `*opt_len` goes. -/
structure KeepsTimeouts (S : OptionStack σ) : Prop where
  stores : ∀ s o val, sizeofNfpTimeval ≤ val.length →
    S.timeout (S.set s nfpSolSocket o.nfp val) o = .ofBytes val
  yields : ∀ s o buf optLen, S.get s nfpSolSocket o.nfp (buf, optLen) =
    (writeOver buf (S.timeout s o).bytes (min optLen sizeofNfpTimeval),
      min optLen sizeofNfpTimeval)

/-- The state after a call. -/
def stateStep (S : OptionStack σ) (s : σ) (e : Entry) : σ :=
  match e.call with
  | .nfpSetsockopt _ level name val => if e.value = 0 then S.set s level name val else s
  | _ => s

/-- The state after these calls. -/
def after (S : OptionStack σ) (s : σ) (log : List Entry) : σ := log.foldl S.stateStep s

/-- The caller's buffer and `*opt_len` after a call. -/
def yieldStep (S : OptionStack σ) (s : σ) (out : List UInt8 × Nat) (e : Entry) :
    List UInt8 × Nat :=
  match e.call with
  | .nfpGetsockopt _ level name optLen =>
      if e.value = 0 then S.get s level name (out.1, optLen) else out
  | _ => out

/-- The buffer and `*opt_len` after these calls. -/
def yielded (S : OptionStack σ) (s : σ) (buf : List UInt8) (optLen : Nat) (log : List Entry) :
    List UInt8 × Nat :=
  log.foldl (S.yieldStep s) (buf, optLen)

/-- A stack that stores a `struct nfp_timeval` for each option of the level `SOL_SOCKET`. -/
def reference : OptionStack (Int → NfpTimeval) where
  set s level name val :=
    if level = nfpSolSocket then fun n => if n = name then .ofBytes val else s n else s
  get s level name out :=
    if level = nfpSolSocket then
      (writeOver out.1 (s name).bytes (min out.2 sizeofNfpTimeval), min out.2 sizeofNfpTimeval)
    else out
  timeout s o := s o.nfp

theorem reference_keeps : reference.KeepsTimeouts where
  stores s o val _ := by
    show (if o.nfp = o.nfp then NfpTimeval.ofBytes val else s o.nfp) = _
    exact if_pos rfl
  yields _ _ _ _ := rfl

end OptionStack

section Timeouts

variable {g : Globals} {fd : Int} {sec usec : Nat}

/-- Eight bytes of seconds are four of seconds and four that are 0. -/
theorem leBytes_small (h : sec < 0x100000000) : leBytes 8 sec = leBytes 4 sec ++ leBytes 4 0 := by
  have hcapacity : capacity 4 = 0x100000000 := rfl
  have hsplit := leBytes_add 4 4 sec
  rw [hcapacity, Nat.div_eq_of_lt h] at hsplit
  exact hsplit

/-- **A `struct timeval` taken for a `struct nfp_timeval`**: the seconds, and no microseconds. -/
theorem ofBytes_timevalBytes (h : sec < 0x100000000) :
    NfpTimeval.ofBytes (timevalBytes sec usec) = ⟨sec, 0⟩ := by
  unfold NfpTimeval.ofBytes timevalBytes
  rw [leBytes_small h, List.append_assoc, ofLe_take h, drop_leBytes, ofLe_take (by decide)]

/-- The bytes of the seconds stored, over the front of a buffer. -/
theorem yielded_iff (h : sec < 0x100000000) {buf : List UInt8} :
    writeOver buf (NfpTimeval.bytes ⟨sec, 0⟩) sizeofNfpTimeval = timevalBytes sec usec ↔
      buf.drop sizeofNfpTimeval = leBytes 8 usec := by
  have hlen : (NfpTimeval.bytes ⟨sec, 0⟩).length = sizeofNfpTimeval := by
    unfold NfpTimeval.bytes
    rw [List.length_append, length_leBytes, length_leBytes]
    rfl
  unfold writeOver timevalBytes
  rw [leBytes_small h, ← hlen, List.take_length]
  exact List.append_right_inj _

/-- The value that `setsockopt` passes on is longer than a `struct nfp_timeval`. -/
theorem length_timevalBytes : (timevalBytes sec usec).length = sizeofTimeval := by
  unfold timevalBytes
  rw [List.length_append, length_leBytes, length_leBytes]
  rfl

/-- **Which timeouts are kept.** Of a duration that `setsockopt` is given on an NFP socket a stack
    that keeps `struct nfp_timeval` stores the seconds, so the duration just if it has no
    microseconds; the following `getsockopt` yields the `struct timeval` just if the caller's
    buffer holds its microseconds already, and always with the length of a
    `struct nfp_timeval`. -/
theorem timeouts_kept_iff {σ : Type} {S : OptionStack σ} (hS : S.KeepsTimeouts)
    (hfd : isNfpSocket g fd = true) (o : TimeoutOption) (hsec : sec < 0x100000000) (s : σ)
    (buf : List UInt8) (dl : Dlsym) {a a' : Answer} (ha : a.value = 0) (ha' : a'.value = 0)
    {s' : σ}
    (hset : S.after s (setsockopt g fd solSocket o.linux (timevalBytes sec usec) dl a).log = s')
    {got : List UInt8 × Nat}
    (hget : S.yielded s' buf sizeofTimeval
      (getsockopt g fd solSocket o.linux sizeofTimeval dl a').log = got) :
    (S.timeout s' o = ⟨sec, usec⟩ ↔ usec = 0) ∧
      (got.1 = timevalBytes sec usec ↔ buf.drop sizeofNfpTimeval = leBytes 8 usec) ∧
      got.2 = sizeofNfpTimeval := by
  have hsetLog : (setsockopt g fd solSocket o.linux (timevalBytes sec usec) dl a).log =
      [⟨.nfpSetsockopt fd nfpSolSocket o.nfp (timevalBytes sec usec), 0⟩] := by
    unfold setsockopt route
    rw [if_pos hfd, ← ha]
    cases o <;> rfl
  have hgetLog : (getsockopt g fd solSocket o.linux sizeofTimeval dl a').log =
      [⟨.nfpGetsockopt fd nfpSolSocket o.nfp sizeofTimeval, 0⟩] := by
    unfold getsockopt route
    rw [if_pos hfd, ← ha']
    cases o <;> rfl
  have hstored : S.timeout s' o = ⟨sec, 0⟩ := by
    rw [← hset, hsetLog]
    show S.timeout (S.set s nfpSolSocket o.nfp (timevalBytes sec usec)) o = _
    rw [hS.stores s o _ (by rw [length_timevalBytes]; decide), ofBytes_timevalBytes hsec]
  have hgot : got = (writeOver buf (NfpTimeval.bytes ⟨sec, 0⟩) sizeofNfpTimeval,
      sizeofNfpTimeval) := by
    rw [← hget, hgetLog, ← hstored]
    exact hS.yields s' o buf sizeofTimeval
  rw [hstored, hgot]
  refine ⟨?_, yielded_iff hsec, rfl⟩
  rw [NfpTimeval.mk.injEq]
  exact ⟨fun h => h.2.symm, fun h => ⟨rfl, h.symm⟩⟩

end Timeouts

/-- Three seconds get in and out of the stack, with the wrong length. -/
theorem timeouts_kept_iff_three_seconds :
    let stored := OptionStack.reference.after (fun _ => ⟨0, 0⟩)
      (setsockopt someGlobals 1030 solSocket 20 (timevalBytes 3 0) .found ⟨0, 0⟩).log
    let got := OptionStack.reference.yielded stored (List.replicate 16 0) sizeofTimeval
      (getsockopt someGlobals 1030 solSocket 20 sizeofTimeval .found ⟨0, 0⟩).log
    stored 0x1006 = ⟨3, 0⟩ ∧ got.1 = timevalBytes 3 0 ∧ got.2 = sizeofNfpTimeval := by
  obtain ⟨hset, hget, hlen⟩ := @timeouts_kept_iff someGlobals 1030 3 0 _ _
    OptionStack.reference_keeps rfl .rcvtimeo (by decide) (fun _ => ⟨0, 0⟩) (List.replicate 16 0)
    .found ⟨0, 0⟩ ⟨0, 0⟩ rfl rfl _ rfl _ rfl
  exact ⟨hset.mpr rfl, hget.mpr rfl, hlen⟩

/-- Of three and a half seconds three are stored; read back into an empty buffer they come out as
    three, in eight bytes instead of sixteen. -/
theorem timeouts_lose_microseconds :
    let stored := OptionStack.reference.after (fun _ => ⟨0, 0⟩)
      (setsockopt someGlobals 1030 solSocket 21 (timevalBytes 3 500000) .found ⟨0, 0⟩).log
    let got := OptionStack.reference.yielded stored (List.replicate 16 0) sizeofTimeval
      (getsockopt someGlobals 1030 solSocket 21 sizeofTimeval .found ⟨0, 0⟩).log
    stored 0x1005 = ⟨3, 0⟩ ∧ got = (timevalBytes 3 0, 8) := by
  decide

end Nfp.Netwrap
