/-
  File:      Nfp/Classifier/Trim.lean
  Subject:   TRIMMING TO THE UDP PAYLOAD: the loop of `channel_packet_input`
             (example/classifier/classifier_term.c) that cuts the headers and the padding off every
             packet of a vector before the vector is sent to the channel (Worker.lean).

  The length comes from the UDP header as received, and nobody has looked at it before: 8 is taken
  from it as a `size_t` and the difference kept in 16 bits, and that is taken from the length of the
  packet in 32 bits. `odp_packet_pull_head` and `odp_packet_pull_tail` take off what they are asked
  for, or nothing where that is more than is there.

  * `trim_wellFormed` -- what is left of a packet with a length that can be right;
  * `pullTail_exact_iff` -- otherwise the length passed on has wrapped round;
  * `channel_trims_iff` -- so a vector is trimmed rightly just if every packet of it is well formed.
-/
import Nfp.Classifier.Worker

namespace Nfp.Classifier.Trim

open Nfp.Lib

/-- `sizeof(struct nfp_udphdr)`. -/
def sizeofUdphdr : Nat := 8

/-- **A packet with a UDP header**: its bytes, and where the header stands. -/
structure UdpPacket where
  data : List UInt8
  l4Off : Nat
  header : l4Off + sizeofUdphdr ≤ data.length
  /-- `odp_packet_len` returns a `uint32_t` -/
  size : data.length < 0x100000000

/-- `odp_be_to_cpu_16(uh->uh_ulen)`. -/
def UdpPacket.uhUlen (p : UdpPacket) : UInt16 :=
  UInt16.ofNat (256 * (p.data.getD (p.l4Off + 4) 0).toNat + (p.data.getD (p.l4Off + 5) 0).toNat)

/-- **The two calls that shorten a packet**, as far as the code relies on them. -/
structure PullApi where
  pullHead : List UInt8 → UInt32 → List UInt8
  pullTail : List UInt8 → UInt32 → List UInt8
  head_taken : ∀ data n, n.toNat ≤ data.length → pullHead data n = data.drop n.toNat
  head_refused : ∀ data n, data.length < n.toNat → pullHead data n = data
  tail_taken : ∀ data n, n.toNat ≤ data.length → pullTail data n = data.take (data.length - n.toNat)
  tail_refused : ∀ data n, data.length < n.toNat → pullTail data n = data

/-- A packet when the loop is done with it, and the lengths that were passed on the way. -/
structure Trimmed where
  data : List UInt8
  pullHead : UInt32
  pullTail : UInt32
  deriving DecidableEq, Repr

/-- `udp_size`. -/
def UdpPacket.udpSize (p : UdpPacket) : UInt16 := (p.uhUlen.toUInt64 - 8).toUInt16

/-- One round of the loop. -/
def trim (api : PullApi) (p : UdpPacket) : Trimmed :=
  let off := UInt32.ofNat (p.l4Off + sizeofUdphdr)
  let data := api.pullHead p.data off
  let rest := UInt32.ofNat data.length - p.udpSize.toUInt32
  ⟨api.pullTail data rest, off, rest⟩

/-- **`channel_packet_input`** with its loop: the packets as trimmed, and what comes of them. `chn`
    is whether the channel is valid, `vec` the packets of the vector if there is one. -/
def channelPacketInput (api : PullApi) (chn : Bool) (vec : Option (List UdpPacket))
    (answer : Outcome Nat) : List Trimmed × List (Effect (List UInt8) Unit) :=
  match chn, vec with
  | false, _ => ([], [])
  | true, none => ([], [])
  | true, some pkts =>
      let trimmed := pkts.map (trim api)
      (trimmed, Classifier.channelPacketInput (trimmed.map Trimmed.data) answer)

/-! ## The property -/

/-- The UDP payload. -/
def UdpPacket.payload (p : UdpPacket) : List UInt8 :=
  (p.data.drop (p.l4Off + sizeofUdphdr)).take (p.uhUlen.toNat - sizeofUdphdr)

/-- The packets a send puts on the channel. -/
def onChannel : Effect (List UInt8) Unit → List (List UInt8)
  | .channelSend pkts (.took k) => pkts.take k
  | _ => []

/-- **The trimming is safe**: what is put on the channel is the payload, of the length the header
    says, and the lengths passed on are what they are in exact numbers. -/
structure Safe (pkts : List UdpPacket) (r : List Trimmed × List (Effect (List UInt8) Unit)) :
    Prop where
  payload : ∀ (i : Nat) (p : UdpPacket) (data : List UInt8), pkts[i]? = some p →
    (r.2.flatMap onChannel)[i]? = some data →
    data = p.payload ∧ (data.length : Int) = p.uhUlen.toNat - 8
  lengths : ∀ (i : Nat) (p : UdpPacket) (t : Trimmed), pkts[i]? = some p → r.1[i]? = some t →
    t.pullHead.toNat = p.l4Off + 8 ∧
      (t.pullTail.toNat : Int) = p.data.length - (p.l4Off + 8) - (p.uhUlen.toNat - 8)

/-- The length in the header is one that the packet can have. -/
def UdpPacket.WellFormed (p : UdpPacket) : Prop :=
  8 ≤ p.uhUlen.toNat ∧ p.uhUlen.toNat ≤ p.data.length - p.l4Off

instance (p : UdpPacket) : Decidable p.WellFormed := inferInstanceAs (Decidable (_ ∧ _))

/-! ## One packet -/

section One

variable (api : PullApi) (p : UdpPacket)

theorem UdpPacket.toNat_udpSize : p.udpSize.toNat = (p.uhUlen.toNat + 0xfff8) % 0x10000 := by
  have hlt := p.uhUlen.toNat_lt
  unfold udpSize
  rw [UInt64.toNat_toUInt16, UInt64.toNat_sub, UInt16.toNat_toUInt64]
  have height : (8 : UInt64).toNat = 8 := rfl
  rw [height]
  omega

/-- The headers are cut off. -/
theorem trim_head : (trim api p).pullHead.toNat = p.l4Off + 8 ∧
    api.pullHead p.data (trim api p).pullHead = p.data.drop (p.l4Off + 8) := by
  have hheader : p.l4Off + 8 ≤ p.data.length := p.header
  have hsize := p.size
  have hoff : (trim api p).pullHead.toNat = p.l4Off + 8 := by
    show (UInt32.ofNat (p.l4Off + 8)).toNat = _
    rw [UInt32.toNat_ofNat']
    omega
  refine ⟨hoff, ?_⟩
  rw [api.head_taken _ _ (by omega), hoff]

/-- The length the tail is cut by. -/
theorem trim_tail : (trim api p).pullTail.toNat =
    (p.data.length - (p.l4Off + 8) + (0x100000000 - p.udpSize.toNat)) % 0x100000000 ∧
    (trim api p).data = api.pullTail (p.data.drop (p.l4Off + 8)) (trim api p).pullTail := by
  have hhead := (trim_head api p).2
  have hsize := p.size
  have hlt := p.udpSize.toNat_lt
  constructor
  · show (UInt32.ofNat (api.pullHead p.data (trim api p).pullHead).length -
      p.udpSize.toUInt32).toNat = _
    rw [hhead, UInt32.toNat_sub, UInt16.toNat_toUInt32, UInt32.toNat_ofNat', List.length_drop]
    omega
  · show api.pullTail (api.pullHead p.data (trim api p).pullHead) (trim api p).pullTail = _
    rw [hhead]

/-- **The tail is cut by the right length** just if the packet is well formed. -/
theorem pullTail_exact_iff :
    ((trim api p).pullTail.toNat : Int) = p.data.length - (p.l4Off + 8) - (p.uhUlen.toNat - 8) ↔
      p.WellFormed := by
  have hheader : p.l4Off + 8 ≤ p.data.length := p.header
  have hsize := p.size
  have hlt := p.uhUlen.toNat_lt
  have hudp := p.toNat_udpSize
  rw [(trim_tail api p).1, hudp]
  unfold UdpPacket.WellFormed
  omega

/-- **What is left** of a packet that is well formed. -/
theorem trim_wellFormed (h : p.WellFormed) :
    (trim api p).data = p.payload ∧ ((trim api p).data.length : Int) = p.uhUlen.toNat - 8 := by
  have hexact := (pullTail_exact_iff api p).mpr h
  obtain ⟨hmin, hmax⟩ := h
  have hlen : (p.data.drop (p.l4Off + 8)).length = p.data.length - (p.l4Off + 8) := List.length_drop
  have hdata : (trim api p).data = p.payload := by
    rw [(trim_tail api p).2, api.tail_taken _ _ (by omega)]
    unfold UdpPacket.payload
    congr 1
    show _ = p.uhUlen.toNat - 8
    omega
  refine ⟨hdata, ?_⟩
  rw [hdata]
  unfold UdpPacket.payload
  show (((p.data.drop (p.l4Off + 8)).take (p.uhUlen.toNat - 8)).length : Int) = _
  rw [List.length_take, hlen]
  omega

end One

/-! ## The vector -/

/-- The packets on the channel are the first ones sent. -/
theorem onChannel_front (pkts : List (List UInt8)) (answer : Outcome Nat) :
    (Classifier.channelPacketInput pkts answer).flatMap onChannel <+: pkts := by
  have hfrees : ∀ l : List (List UInt8), (l.map Effect.packetFree).flatMap onChannel = [] := by
    intro l
    induction l with
    | nil => rfl
    | cons _ l ih => exact ih
  unfold Classifier.channelPacketInput
  split
  · exact List.nil_prefix
  · have hrest : ∀ effects, effects.flatMap onChannel = [] →
        (Effect.channelSend pkts answer :: effects).flatMap onChannel <+: pkts := by
      intro effects hnone
      rw [List.flatMap_cons, hnone, List.append_nil]
      cases answer with
      | took k => exact List.take_prefix k pkts
      | failed e => exact List.nil_prefix
    split
    · exact hrest _ (hfrees _)
    · exact hrest _ rfl

/-- A packet that is put on the channel is the one in its place, trimmed. -/
theorem onChannel_trimmed (api : PullApi) {pkts : List UdpPacket} {answer : Outcome Nat} {i : Nat}
    {p : UdpPacket} {data : List UInt8} (hp : pkts[i]? = some p)
    (hdata : ((channelPacketInput api true (some pkts) answer).2.flatMap onChannel)[i]? =
      some data) : data = (trim api p).data := by
  change ((Classifier.channelPacketInput ((pkts.map (trim api)).map Trimmed.data) answer).flatMap
    onChannel)[i]? = some data at hdata
  obtain ⟨rest, hfront⟩ := onChannel_front ((pkts.map (trim api)).map Trimmed.data) answer
  have hlt := (List.getElem?_eq_some_iff.mp hdata).1
  have hget : ((pkts.map (trim api)).map Trimmed.data)[i]? = some data := by
    rw [← hfront, List.getElem?_append_left hlt]
    exact hdata
  rw [List.getElem?_map, List.getElem?_map, hp] at hget
  exact (Option.some.inj hget).symm

/-- **Where the trimming is safe**: for every vector and every answer of the channel, just if the
    channel is not valid or every packet is well formed. -/
theorem channel_trims_iff (api : PullApi) (chn : Bool) (pkts : List UdpPacket)
    (answer : Outcome Nat) :
    Safe pkts (channelPacketInput api chn (some pkts) answer) ↔
      chn = false ∨ ∀ p ∈ pkts, p.WellFormed := by
  cases chn with
  | false =>
      refine iff_of_true ⟨?_, ?_⟩ (Or.inl rfl)
      · intro i p data _ hdata
        cases hdata
      · intro i p t _ ht
        cases ht
  | true =>
      have htrimmed : ∀ (i : Nat) (p : UdpPacket), pkts[i]? = some p →
          (channelPacketInput api true (some pkts) answer).1[i]? = some (trim api p) := by
        intro i p hp
        show (pkts.map (trim api))[i]? = _
        rw [List.getElem?_map, hp]
        rfl
      constructor
      · intro h
        refine Or.inr fun p hmem => ?_
        obtain ⟨i, hp⟩ := List.mem_iff_getElem?.mp hmem
        exact (pullTail_exact_iff api p).mp (h.lengths i p _ hp (htrimmed i p hp)).2
      · rintro (hfalse | hwell)
        · cases hfalse
        refine ⟨fun i p data hp hdata => ?_, fun i p t hp ht => ?_⟩
        · rw [onChannel_trimmed api hp hdata]
          exact trim_wellFormed api p (hwell p (List.mem_of_getElem? hp))
        · rw [htrimmed i p hp] at ht
          cases ht
          exact ⟨(trim_head api p).1,
            (pullTail_exact_iff api p).mpr (hwell p (List.mem_of_getElem? hp))⟩

/-- Calls as they are documented. -/
def PullApi.reference : PullApi where
  pullHead data n := if n.toNat ≤ data.length then data.drop n.toNat else data
  pullTail data n := if n.toNat ≤ data.length then data.take (data.length - n.toNat) else data
  head_taken _ _ h := if_pos h
  head_refused _ _ h := if_neg (Nat.not_le.mpr h)
  tail_taken _ _ h := if_pos h
  tail_refused _ _ h := if_neg (Nat.not_le.mpr h)

/-- A UDP header that says 12 bytes, with the two bytes that have come of its payload. -/
def shortPacket : UdpPacket where
  data := [0, 53, 0, 53, 0, 12, 0, 0, 1, 2]
  l4Off := 0
  header := by decide
  size := by decide

/-- The two bytes are put on the channel for the four of the header, and the tail was to be cut by
    2^32 - 2 bytes. -/
theorem channel_trims_short_packet :
    let r := channelPacketInput .reference true (some [shortPacket]) (.took 1)
    r.1 = [⟨[1, 2], 8, 0xfffffffe⟩] ∧ r.2.flatMap onChannel = [[1, 2]] ∧
      shortPacket.uhUlen.toNat = 12 ∧ ¬ Safe [shortPacket] r := by
  intro r
  have htrim : r.1 = [⟨[1, 2], 8, 0xfffffffe⟩] := by decide
  refine ⟨htrim, by decide, by decide, fun h => ?_⟩
  obtain ⟨-, htail⟩ := h.lengths 0 shortPacket ⟨[1, 2], 8, 0xfffffffe⟩ rfl (by rw [htrim]; rfl)
  revert htail
  decide

end Nfp.Classifier.Trim
