/-
  File:      Nfp/Sigevent/Callbacks.lean
  Subject:   THE CALLBACKS ON SOCKET EVENTS: the functions that the examples register with
             `nfp_socket_sigevent` (include/api/nfp_socket_sigevent.h), and the packets the stack
             hands to them.

  The stack passes a `struct nfp_sock_sigval`. A callback that has disposed of the packet sets
  `pkt` in it to `ODP_PACKET_INVALID`; otherwise the stack goes on with the packet. So the handle a
  callback leaves behind has to be the one it still holds.

  * `holds` -- follows a handle through the calls of a callback; `none` where a call is given a
    handle that is invalid or was given away;
  * `notify_honest_iff` -- a callback leaves behind what it still holds, unless it `Errs`;
  * **`deliveries_accounted`** -- over any run of deliveries each packet is back with the stack, or
    disposed of once, but for those that a callback marks invalid and keeps: `notify_udp_ipv6`
    always, udpecho and udp_fwd_socket if `nfp_udp_packet_sendto` does not take the packet.
-/
import Mathlib.Algebra.Order.Group.Multiset
import Mathlib.Tactic.Abel
import Nfp.Classifier.Worker

namespace Nfp.Sigevent

open Nfp.Lib
open Nfp.Classifier (channelSendResult)

/-- `NFP_EVENT_INVALID` and the events after it. -/
inductive Event where
  | invalid
  | accept
  | recv
  | send
  deriving DecidableEq, Repr

/-- `struct nfp_sock_sigval`; no packet is `ODP_PACKET_INVALID`. -/
structure SockSigval (Pkt : Type) where
  event : Event
  sockfd : Int
  sockfd2 : Int
  pkt : Option Pkt
  deriving DecidableEq, Repr

/-- **What a callback calls.** `look` is any call that reads or shapes a packet and leaves it with
    the caller: `nfp_udp_packet_parse` and the `odp_packet_*` functions but `odp_packet_free`. -/
inductive Call (Pkt : Type) where
  | look (pkt : Option Pkt)
  | packetFree (pkt : Option Pkt)
  | udpPacketSendto (sd : Int) (pkt : Option Pkt) (taken : Bool)
  | channelSend (pkt : Option Pkt) (answer : Outcome Nat)
  | accept (sd : Int)
  | analyzeHttp (sd : Int)
  | close (sd : Int)
  deriving DecidableEq, Repr

/-- What the callbacks are told on the way: whether the packet has an error, its length, whether
    `nfp_udp_packet_parse` gave an address of the length expected, whether `nfp_udp_packet_sendto`
    took the packet (no callback asks: the header does not say who has it after a failure), and
    what `nfp_channel_send` answered. -/
structure Answers where
  hasError : Bool
  len : UInt32
  addrLen : Bool
  taken : Bool
  channel : Outcome Nat
  deriving DecidableEq, Repr

section Callbacks

variable {Pkt : Type}

/-- **`notify`** of udpecho. -/
def udpechoNotify (taken : Bool) (ss : SockSigval Pkt) : SockSigval Pkt × List (Call Pkt) :=
  if ss.event ≠ .recv then (ss, [])
  else
    ({ ss with pkt := none },
      -- parsed, five bytes of head room taken, "ECHO:" written
      [.look ss.pkt, .look ss.pkt, .look ss.pkt, .udpPacketSendto ss.sockfd ss.pkt taken])

/-- **`notify`** of udp_fwd_socket. -/
def udpFwdNotify (taken : Bool) (ss : SockSigval Pkt) : SockSigval Pkt × List (Call Pkt) :=
  if ss.event ≠ .recv then (ss, [])
  else ({ ss with pkt := none }, [.look ss.pkt, .udpPacketSendto ss.sockfd ss.pkt taken])

/-- **`notify`** of udp_term_socket. -/
def udpTermNotify (answer : Outcome Nat) (ss : SockSigval Pkt) :
    SockSigval Pkt × List (Call Pkt) :=
  if ss.event ≠ .recv then (ss, [])
  else
    ({ ss with pkt := none },
      -- the header read, the head and the tail pulled
      [.look ss.pkt, .look ss.pkt, .look ss.pkt, .channelSend ss.pkt answer] ++
        if channelSendResult 1 answer ≠ 1 then [.packetFree ss.pkt] else [])

/-- **`notify`** of webserver2. The length is compared as an `int`. -/
def webserver2Notify (a : Answers) (ss : SockSigval Pkt) : SockSigval Pkt × List (Call Pkt) :=
  if ss.event = .accept then (ss, [.accept ss.sockfd])
  else if ss.event ≠ .recv then (ss, [])
  else if ss.pkt = none then (ss, [])
  else if a.hasError then ({ ss with pkt := none }, [.look ss.pkt, .packetFree ss.pkt])
  else
    ({ ss with pkt := none },
      [.look ss.pkt, .look ss.pkt] ++
        (if a.len ≠ 0 ∧ a.len < 0x80000000 then
          [.look ss.pkt, .look ss.pkt, .analyzeHttp ss.sockfd, .close ss.sockfd]
        else if a.len = 0 then [.close ss.sockfd]
        else []) ++
        [.packetFree ss.pkt])

/-- **`notify_udp_ipv4`**: the event is not looked at. -/
def notifyUdpIpv4 (addrLen : Bool) (ss : SockSigval Pkt) : SockSigval Pkt × List (Call Pkt) :=
  if addrLen = false then (ss, [.look ss.pkt])
  else ({ ss with pkt := none }, [.look ss.pkt, .packetFree ss.pkt])

/-- **`notify_udp_ipv6`**: as before, but for `odp_packet_free`. -/
def notifyUdpIpv6 (addrLen : Bool) (ss : SockSigval Pkt) : SockSigval Pkt × List (Call Pkt) :=
  if addrLen = false then (ss, [.look ss.pkt])
  else ({ ss with pkt := none }, [.look ss.pkt])

/-- **`notify_tcp_rcv`**. -/
def notifyTcpRcv (ss : SockSigval Pkt) : SockSigval Pkt × List (Call Pkt) :=
  if ss.event ≠ .recv then (ss, []) else (ss, [.look ss.pkt, .look ss.pkt])

/-- **`notify_tcp_accept`**: it only prints. -/
def notifyTcpAccept (ss : SockSigval Pkt) : SockSigval Pkt × List (Call Pkt) := (ss, [])

end Callbacks

/-- The callbacks that the examples register. -/
inductive Callback where
  | udpecho
  | udpFwd
  | udpTerm
  | webserver2
  | udpIpv4
  | udpIpv6
  | tcpRcv
  | tcpAccept
  deriving DecidableEq, Repr

section Custody

variable {Pkt : Type}

/-- `sigev_notify_func`. -/
def Callback.notify (cb : Callback) (a : Answers) (ss : SockSigval Pkt) :
    SockSigval Pkt × List (Call Pkt) :=
  match cb with
  | .udpecho => udpechoNotify a.taken ss
  | .udpFwd => udpFwdNotify a.taken ss
  | .udpTerm => udpTermNotify a.channel ss
  | .webserver2 => webserver2Notify a ss
  | .udpIpv4 => notifyUdpIpv4 a.addrLen ss
  | .udpIpv6 => notifyUdpIpv6 a.addrLen ss
  | .tcpRcv => notifyTcpRcv ss
  | .tcpAccept => notifyTcpAccept ss

/-- The handle a call is given, if it takes one. -/
def Call.handle : Call Pkt → Option (Option Pkt)
  | .look pkt => some pkt
  | .packetFree pkt => some pkt
  | .udpPacketSendto _ pkt _ => some pkt
  | .channelSend pkt _ => some pkt
  | _ => none

/-- The call takes the packet from the caller. `nfp_channel_send` does if it returns 1. -/
def Call.releases : Call Pkt → Bool
  | .packetFree _ => true
  | .udpPacketSendto _ _ taken => taken
  | .channelSend _ answer => channelSendResult 1 answer = 1
  | _ => false

/-- The packet a call disposes of. -/
def Call.released (c : Call Pkt) : List Pkt :=
  if c.releases then c.handle.elim [] Option.toList else []

/-- **The handle held after some calls**; `none` if one of them was given another one, or one that
    is invalid. -/
def holds [DecidableEq Pkt] : Option Pkt → List (Call Pkt) → Option (Option Pkt)
  | held, [] => some held
  | held, c :: cs =>
      match c.handle with
      | none => holds held cs
      | some pkt =>
          if pkt ≠ none ∧ pkt = held then holds (if c.releases then none else held) cs else none

/-- **A callback is honest**: it touches only the packet it holds, and leaves behind the handle it
    still holds. -/
def Honest [DecidableEq Pkt] (ss : SockSigval Pkt) (r : SockSigval Pkt × List (Call Pkt)) : Prop :=
  holds ss.pkt r.2 = some r.1.pkt

/-- **Where a callback marks a packet invalid that it still has**: one that
    `nfp_udp_packet_sendto` did not take, and in `notify_udp_ipv6` every one. -/
def Callback.leaks (cb : Callback) (a : Answers) (ss : SockSigval Pkt) : Bool :=
  match cb with
  | .udpecho => decide (ss.event = .recv) && !a.taken
  | .udpFwd => decide (ss.event = .recv) && !a.taken
  | .udpIpv6 => a.addrLen
  | _ => false

/-- **Where a callback is given no packet and does not ask**; two do not look at the event
    either. -/
def Callback.unasked (cb : Callback) (ss : SockSigval Pkt) : Bool :=
  match cb with
  | .webserver2 => false
  | .tcpAccept => false
  | .udpIpv4 => ss.pkt.isNone
  | .udpIpv6 => ss.pkt.isNone
  | _ => decide (ss.event = .recv) && ss.pkt.isNone

/-- **Where the callbacks err.** -/
def Callback.Errs (cb : Callback) (a : Answers) (ss : SockSigval Pkt) : Prop :=
  cb.unasked ss = true ∨ cb.leaks a ss = true

/-! ## One delivery -/

section One

variable [DecidableEq Pkt] {held : Option Pkt} {p : Pkt} {cs : List (Call Pkt)}

@[simp] theorem holds_look : holds (some p) (.look (some p) :: cs) = holds (some p) cs := by
  simp [holds, Call.handle, Call.releases]

@[simp] theorem holds_look_none : holds held (.look none :: cs) = none := by
  simp [holds, Call.handle]

@[simp] theorem holds_packetFree : holds (some p) (.packetFree (some p) :: cs) = holds none cs := by
  simp [holds, Call.handle, Call.releases]

@[simp] theorem holds_sendto (sd : Int) (taken : Bool) :
    holds (some p) (.udpPacketSendto sd (some p) taken :: cs) =
      holds (if taken then none else some p) cs := by
  cases taken <;> simp [holds, Call.handle, Call.releases]

@[simp] theorem holds_accept (sd : Int) : holds held (.accept sd :: cs) = holds held cs := rfl

@[simp] theorem holds_analyzeHttp (sd : Int) :
    holds held (.analyzeHttp sd :: cs) = holds held cs := rfl

@[simp] theorem holds_close (sd : Int) : holds held (.close sd :: cs) = holds held cs := rfl

@[simp] theorem holds_nil : holds held [] = some held := rfl

/-- The channel takes the packet, or it is freed. -/
theorem holds_channelSend (answer : Outcome Nat) :
    holds (some p) (.channelSend (some p) answer ::
      if channelSendResult 1 answer ≠ 1 then [.packetFree (some p)] else []) = some none := by
  by_cases h : channelSendResult 1 answer = 1
  · simp [holds, Call.handle, Call.releases, h]
  · simp [holds, Call.handle, Call.releases, h]

theorem webserver2Notify_honest (a : Answers) (ss : SockSigval Pkt) :
    Honest ss (webserver2Notify a ss) := by
  unfold Honest webserver2Notify
  split
  · rfl
  split
  · rfl
  split
  · rfl
  rename_i hpkt
  obtain ⟨p, hp⟩ := Option.ne_none_iff_exists'.mp hpkt
  rw [hp]
  split
  · simp
  · split
    · simp
    · split <;> simp

/-- **A callback is honest unless it errs.** -/
theorem notify_honest_iff (cb : Callback) (a : Answers) (ss : SockSigval Pkt) :
    Honest ss (cb.notify a ss) ↔ ¬ cb.Errs a ss := by
  obtain ⟨event, sockfd, sockfd2, pkt⟩ := ss
  cases cb with
  | udpecho =>
      by_cases he : event = .recv
      · cases pkt <;> cases ht : a.taken <;>
          simp [Honest, Callback.notify, udpechoNotify, Callback.Errs, Callback.unasked,
            Callback.leaks, he, ht]
      · simp [Honest, Callback.notify, udpechoNotify, Callback.Errs, Callback.unasked,
          Callback.leaks, he]
  | udpFwd =>
      by_cases he : event = .recv
      · cases pkt <;> cases ht : a.taken <;>
          simp [Honest, Callback.notify, udpFwdNotify, Callback.Errs, Callback.unasked,
            Callback.leaks, he, ht]
      · simp [Honest, Callback.notify, udpFwdNotify, Callback.Errs, Callback.unasked,
          Callback.leaks, he]
  | udpTerm =>
      by_cases he : event = .recv
      · cases pkt with
        | none => simp [Honest, Callback.notify, udpTermNotify, Callback.Errs, Callback.unasked, he]
        | some p =>
            have hsent := @holds_channelSend _ _ p a.channel
            simpa [Honest, Callback.notify, udpTermNotify, Callback.Errs, Callback.unasked,
              Callback.leaks, he] using hsent
      · simp [Honest, Callback.notify, udpTermNotify, Callback.Errs, Callback.unasked,
          Callback.leaks, he]
  | webserver2 =>
      refine iff_of_true (webserver2Notify_honest a _) ?_
      simp [Callback.Errs, Callback.unasked, Callback.leaks]
  | udpIpv4 =>
      cases pkt <;> cases ha : a.addrLen <;>
        simp [Honest, Callback.notify, notifyUdpIpv4, Callback.Errs, Callback.unasked,
          Callback.leaks, ha]
  | udpIpv6 =>
      cases pkt <;> cases ha : a.addrLen <;>
        simp [Honest, Callback.notify, notifyUdpIpv6, Callback.Errs, Callback.unasked,
          Callback.leaks, ha]
  | tcpRcv =>
      by_cases he : event = .recv
      · cases pkt <;>
          simp [Honest, Callback.notify, notifyTcpRcv, Callback.Errs, Callback.unasked,
            Callback.leaks, he]
      · simp [Honest, Callback.notify, notifyTcpRcv, Callback.Errs, Callback.unasked,
          Callback.leaks, he]
  | tcpAccept =>
      refine iff_of_true rfl ?_
      simp [Callback.Errs, Callback.unasked, Callback.leaks]

end One

/-! ## Runs -/

/-- **One delivery**: which callback the socket has, what it is told, what the stack passes. -/
structure Delivery (Pkt : Type) where
  callback : Callback
  answers : Answers
  sigval : SockSigval Pkt
  deriving DecidableEq, Repr

/-- What the callback makes of it. -/
def Delivery.outcome (d : Delivery Pkt) : SockSigval Pkt × List (Call Pkt) :=
  d.callback.notify d.answers d.sigval

/-- The packets the stack hands over in a run. -/
def handed (ds : List (Delivery Pkt)) : List Pkt := ds.flatMap fun d => d.sigval.pkt.toList

/-- Those it finds again on return, and goes on with. -/
def returned (ds : List (Delivery Pkt)) : List Pkt := ds.flatMap fun d => d.outcome.1.pkt.toList

/-- Those that the callbacks dispose of. -/
def disposed (ds : List (Delivery Pkt)) : List Pkt :=
  ds.flatMap fun d => d.outcome.2.flatMap Call.released

/-- Those that a callback marks invalid and keeps. -/
def leaked (ds : List (Delivery Pkt)) : List Pkt :=
  ds.flatMap fun d => if d.callback.leaks d.answers d.sigval then d.sigval.pkt.toList else []

/-- What an honest callback disposes of is what it does not leave behind. -/
theorem released_of_holds [DecidableEq Pkt] {held left : Option Pkt} {cs : List (Call Pkt)}
    (h : holds held cs = some left) : held.toList = left.toList ++ cs.flatMap Call.released := by
  induction cs generalizing held with
  | nil =>
      cases h
      simp
  | cons c cs ih =>
      rw [holds] at h
      rw [List.flatMap_cons]
      split at h
      · rename_i hc
        have hnone : c.released = [] := by simp [Call.released, hc]
        rw [hnone, List.nil_append]
        exact ih h
      · rename_i pkt hc
        split at h
        · rename_i hpkt
          obtain ⟨-, rfl⟩ := hpkt
          have hrest := ih h
          cases hr : c.releases with
          | false =>
              have hnone : c.released = [] := by simp [Call.released, hr]
              simpa [hr, hnone] using hrest
          | true =>
              have hall : c.released = pkt.toList := by simp [Call.released, hr, hc]
              rw [hr, if_pos rfl] at hrest
              obtain ⟨hleft, hcs⟩ := List.append_eq_nil_iff.mp hrest.symm
              rw [hall, hleft, hcs, List.append_nil, List.nil_append]
        · cases h

/-- A callback that leaks leaves nothing behind and disposes of nothing. -/
theorem leaks_outcome {d : Delivery Pkt} (h : d.callback.leaks d.answers d.sigval = true) :
    d.outcome.1.pkt = none ∧ d.outcome.2.flatMap Call.released = [] := by
  obtain ⟨cb, a, ss⟩ := d
  cases cb with
  | udpecho =>
      simp only [Callback.leaks, Bool.and_eq_true, decide_eq_true_eq, Bool.not_eq_true'] at h
      simp [Delivery.outcome, Callback.notify, udpechoNotify, h.1, h.2, Call.released,
        Call.releases]
  | udpFwd =>
      simp only [Callback.leaks, Bool.and_eq_true, decide_eq_true_eq, Bool.not_eq_true'] at h
      simp [Delivery.outcome, Callback.notify, udpFwdNotify, h.1, h.2, Call.released,
        Call.releases]
  | udpIpv6 =>
      have ha : a.addrLen = true := h
      simp [Delivery.outcome, Callback.notify, notifyUdpIpv6, ha, Call.released, Call.releases]
  | _ => cases h

/-- A callback that was given no packet leaves none behind and disposes of none. -/
theorem unasked_outcome {d : Delivery Pkt} (h : d.callback.unasked d.sigval = true) :
    d.sigval.pkt = none ∧ d.outcome.1.pkt = none ∧ d.outcome.2.flatMap Call.released = [] := by
  obtain ⟨cb, a, ⟨event, sockfd, sockfd2, pkt⟩⟩ := d
  have hpkt : pkt = none := by
    cases cb <;> simp_all [Callback.unasked]
  subst hpkt
  refine ⟨rfl, ?_⟩
  cases cb with
  | webserver2 => cases h
  | tcpAccept => cases h
  | udpIpv4 =>
      cases ha : a.addrLen <;>
        simp [Delivery.outcome, Callback.notify, notifyUdpIpv4, ha, Call.released, Call.handle]
  | udpIpv6 =>
      cases ha : a.addrLen <;>
        simp [Delivery.outcome, Callback.notify, notifyUdpIpv6, ha, Call.released, Call.handle]
  | udpTerm =>
      simp only [Delivery.outcome, Callback.notify, udpTermNotify]
      split
      · exact ⟨rfl, rfl⟩
      · split <;> simp [Call.released, Call.handle]
  | udpecho =>
      by_cases he : event = .recv <;>
        simp [Delivery.outcome, Callback.notify, udpechoNotify, he, Call.released, Call.handle]
  | udpFwd =>
      by_cases he : event = .recv <;>
        simp [Delivery.outcome, Callback.notify, udpFwdNotify, he, Call.released, Call.handle]
  | tcpRcv =>
      by_cases he : event = .recv <;>
        simp [Delivery.outcome, Callback.notify, notifyTcpRcv, he, Call.released, Call.handle]

/-- **One delivery** is accounted for. -/
theorem delivery_accounted [DecidableEq Pkt] (d : Delivery Pkt) :
    d.sigval.pkt.toList = d.outcome.1.pkt.toList ++ d.outcome.2.flatMap Call.released ++
      if d.callback.leaks d.answers d.sigval then d.sigval.pkt.toList else [] := by
  by_cases hleak : d.callback.leaks d.answers d.sigval = true
  · obtain ⟨hleft, hcalls⟩ := leaks_outcome hleak
    rw [if_pos hleak, hleft, hcalls]
    rfl
  · rw [if_neg hleak, List.append_nil]
    by_cases hasked : d.callback.unasked d.sigval = true
    · obtain ⟨hnone, hleft, hcalls⟩ := unasked_outcome hasked
      rw [hnone, hleft, hcalls]
      rfl
    · have hhonest := (notify_honest_iff d.callback d.answers d.sigval).mpr
        (not_or.mpr ⟨hasked, hleak⟩)
      exact released_of_holds hhonest

/-- Two deliveries put together, kind by kind. -/
theorem perm_by_kind (a b c as bs cs : List Pkt) :
    ((a ++ b ++ c) ++ (as ++ bs ++ cs)).Perm ((a ++ as) ++ (b ++ bs) ++ (c ++ cs)) := by
  refine Multiset.coe_eq_coe.mp ?_
  simp only [← Multiset.coe_add]
  abel

/-- **Over any run** each packet handed to a callback is with the stack again or was disposed of,
    once, unless the callback leaked it; and where no callback errs, none is touched when it is
    no longer held. -/
theorem deliveries_accounted [DecidableEq Pkt] (ds : List (Delivery Pkt)) :
    (handed ds).Perm (returned ds ++ disposed ds ++ leaked ds) ∧
    ∀ d ∈ ds, Honest d.sigval d.outcome ↔ ¬ d.callback.Errs d.answers d.sigval := by
  refine ⟨?_, fun d _ => notify_honest_iff d.callback d.answers d.sigval⟩
  induction ds with
  | nil => exact List.Perm.refl _
  | cons d ds ih =>
      have hone := List.Perm.of_eq (delivery_accounted d)
      exact (hone.append ih).trans (perm_by_kind _ _ _ _ _ _)

end Custody

end Nfp.Sigevent
