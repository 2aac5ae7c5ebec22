/-
  File:      Nfp/Api/Cmsg.lean
  Subject:   CONTROL MESSAGES: the macros NFP_CMSG_* of include/api/nfp_socket.h, with which a
             sender fills `msg_control` and a receiver walks through it.

  A pointer into `msg_control` is the offset from its start. `struct nfp_cmsghdr` has 12 bytes and
  `register_t` 8, so a header takes 16 bytes with its padding and lengths are rounded up to
  multiples of 8.

  * `Msghdr.build` -- the sender: write a message, NXTHDR, write the next one;
    `Msghdr.walk`, `Msghdr.message` -- the receiver: FIRSTHDR, NXTHDR until NULL, each message
    read from its header;
  * **`cmsg_round_trip`** -- into any buffer that has room the messages can be built, and they are
    read back just if `msg_controllen` leaves no room for another header behind them;
  * **`cmsg_walk_ends_iff`** -- on any bytes at all every header visited is inside the buffer, and
    the walk ends just if no header visited has the length 0: there NXTHDR gives the same header
    again.
-/
import Nfp.Lib.Bytes
import Nfp.Lib.Chain

namespace Nfp.Api

open Nfp.Lib

/-! ## 1. The macros -/

/-- `_ALIGNBYTES`, with `register_t` of 8 bytes. -/
def alignBytes : UInt64 := 7

/-- `_ALIGN`. -/
def align (p : UInt64) : UInt64 := (p + alignBytes) &&& ~~~alignBytes

/-- `sizeof(struct nfp_cmsghdr)`. -/
def sizeofCmsghdr : UInt64 := 12

/-- `NFP_CMSG_SPACE`. -/
def nfpCmsgSpace (l : UInt64) : UInt64 := align sizeofCmsghdr + align l

/-- `NFP_CMSG_LEN`. -/
def nfpCmsgLen (l : UInt64) : UInt64 := align sizeofCmsghdr + l

/-- `NFP_CMSG_DATA`. -/
def nfpCmsgData (cmsg : Nat) : Nat := cmsg + (align sizeofCmsghdr).toNat

/-- `struct nfp_msghdr`: the control data and their length. -/
structure Msghdr where
  control : List UInt8
  controllen : Nat
  deriving DecidableEq, Repr

namespace Msghdr

/-- `cmsg->cmsg_len`. -/
def cmsgLen (m : Msghdr) (cmsg : Nat) : Nat := ofLe (slice m.control cmsg 4)

/-- `cmsg->cmsg_level`. -/
def cmsgLevel (m : Msghdr) (cmsg : Nat) : Nat := ofLe (slice m.control (cmsg + 4) 4)

/-- `cmsg->cmsg_type`. -/
def cmsgType (m : Msghdr) (cmsg : Nat) : Nat := ofLe (slice m.control (cmsg + 8) 4)

/-- `NFP_CMSG_FIRSTHDR`. -/
def nfpCmsgFirsthdr (m : Msghdr) : Option Nat :=
  if sizeofCmsghdr.toNat ≤ m.controllen then some 0 else none

/-- `NFP_CMSG_NXTHDR`. -/
def nfpCmsgNxthdr (m : Msghdr) : Option Nat → Option Nat
  | none => m.nfpCmsgFirsthdr
  | some cmsg =>
      if m.controllen < cmsg + (align (UInt64.ofNat (m.cmsgLen cmsg))).toNat +
          (align sizeofCmsghdr).toNat then none
      else some (cmsg + (align (UInt64.ofNat (m.cmsgLen cmsg))).toNat)

/-- The headers that a receiver visits: from FIRSTHDR by NXTHDR until NULL, in at most `n`
    rounds. -/
def walk (m : Msghdr) (n : Nat) : Option (List Nat) :=
  forEach (fun cmsg => some (m.nfpCmsgNxthdr (some cmsg))) n m.nfpCmsgFirsthdr

/-- Level, type and data of a message. -/
def message (m : Msghdr) (cmsg : Nat) : Nat × Nat × List UInt8 :=
  (m.cmsgLevel cmsg, m.cmsgType cmsg,
    slice m.control (nfpCmsgData cmsg) (m.cmsgLen cmsg - (nfpCmsgLen 0).toNat))

end Msghdr

/-- A message to send: its length with the header is a `nfp_socklen_t`. -/
structure ControlMessage where
  level : Nat
  type : Nat
  data : List UInt8
  level_lt : level < capacity 4
  type_lt : type < capacity 4
  data_lt : data.length + 16 < capacity 4
  deriving DecidableEq

/-- What a receiver should read. -/
def ControlMessage.content (x : ControlMessage) : Nat × Nat × List UInt8 := (x.level, x.type, x.data)

/-- `NFP_CMSG_LEN` of the data. -/
def ControlMessage.len (x : ControlMessage) : Nat :=
  (nfpCmsgLen (UInt64.ofNat x.data.length)).toNat

/-- `NFP_CMSG_SPACE` of the data. -/
def ControlMessage.space (x : ControlMessage) : Nat :=
  (nfpCmsgSpace (UInt64.ofNat x.data.length)).toNat

/-- The sender writes a message: the three fields of the header, and the data. -/
def Msghdr.put (m : Msghdr) (cmsg : Nat) (x : ControlMessage) : Msghdr :=
  let control := writeAt m.control cmsg (leBytes 4 x.len)
  let control := writeAt control (cmsg + 4) (leBytes 4 x.level)
  let control := writeAt control (cmsg + 8) (leBytes 4 x.type)
  { m with control := writeAt control (nfpCmsgData cmsg) x.data }

/-- The sender writes messages, each at the header NXTHDR gives behind the last one. -/
def Msghdr.build : Msghdr → Option Nat → List ControlMessage → Option Msghdr
  | m, _, [] => some m
  | _, none, _ :: _ => none
  | m, some cmsg, x :: xs =>
      let m := m.put cmsg x
      m.build (m.nfpCmsgNxthdr (some cmsg)) xs

/-- The bytes as a receiver gets them, with the `msg_controllen` it is given. -/
def Msghdr.received (m : Msghdr) (controllen : Nat) : Msghdr := { m with controllen := controllen }

/-- The receiver reads just these messages, in at most `n` rounds. -/
def Msghdr.Reads (m : Msghdr) (n : Nat) (msgs : List ControlMessage) : Prop :=
  ∃ cs, m.walk n = some cs ∧ cs.map m.message = msgs.map ControlMessage.content

/-! ## 2. Lengths -/

/-- Up to the next multiple of 8. -/
def roundUp (n : Nat) : Nat := (n + 7) / 8 * 8

theorem and_not_seven (x : BitVec 64) : (x &&& ~~~7#64).toNat = x.toNat / 8 * 8 := by
  have h : x &&& ~~~7#64 = (x >>> 3) <<< 3 := by
    ext i hi
    rw [BitVec.getElem_and, BitVec.getElem_not, BitVec.getElem_shiftLeft]
    by_cases h3 : i < 3
    · have hlow : i = 0 ∨ i = 1 ∨ i = 2 := by omega
      rcases hlow with rfl | rfl | rfl <;> simp
    · have h7 : (7#64)[i] = false := by
        rw [BitVec.getElem_eq_testBit_toNat]
        exact Nat.testBit_lt_two_pow (Nat.lt_of_lt_of_le (by decide : 7 < 2 ^ 3)
          (Nat.pow_le_pow_right (by decide) (Nat.not_lt.mp h3)))
      have hi3 : 3 + (i - 3) = i := by omega
      simp [h3, h7, hi3, hi]
  rw [h]
  simp [Nat.shiftRight_eq_div_pow, Nat.shiftLeft_eq]
  omega

/-- **`_ALIGN` rounds up** every length that a `nfp_socklen_t` holds. -/
theorem align_toNat {n : Nat} (h : n < capacity 4) : (align (UInt64.ofNat n)).toNat = roundUp n := by
  have hcap : capacity 4 = 4294967296 := rfl
  have hn : (UInt64.ofNat n + alignBytes).toNat = n + 7 := by
    rw [UInt64.toNat_add, UInt64.toNat_ofNat_of_lt' (by simp [UInt64.size]; omega)]
    simp [alignBytes]
    omega
  have hand : (align (UInt64.ofNat n)).toNat = (UInt64.ofNat n + alignBytes).toNat / 8 * 8 :=
    and_not_seven (UInt64.ofNat n + alignBytes).toBitVec
  rw [hand, hn, roundUp]

theorem sizeof_header : sizeofCmsghdr.toNat = 12 := by decide

theorem align_header : (align sizeofCmsghdr).toNat = 16 := by decide

section Lengths

variable (x : ControlMessage)

theorem ControlMessage.len_eq : x.len = 16 + x.data.length := by
  have hcap : capacity 4 = 4294967296 := rfl
  have hdata := x.data_lt
  rw [len, nfpCmsgLen, UInt64.toNat_add, align_header,
    UInt64.toNat_ofNat_of_lt' (by simp [UInt64.size]; omega)]
  omega

theorem ControlMessage.space_eq : x.space = 16 + roundUp x.data.length := by
  have hcap : capacity 4 = 4294967296 := rfl
  have hdata := x.data_lt
  rw [space, nfpCmsgSpace, UInt64.toNat_add, align_header, align_toNat (by omega)]
  simp only [roundUp]
  omega

theorem ControlMessage.roundUp_len : roundUp x.len = x.space := by
  rw [x.len_eq, x.space_eq]
  simp only [roundUp]
  omega

theorem ControlMessage.len_le_space : x.len ≤ x.space := by
  rw [x.len_eq, x.space_eq]
  simp only [roundUp]
  omega

end Lengths

section Walk

variable {m : Msghdr} {c : Nat}

/-- **NXTHDR**, in numbers. -/
theorem nfpCmsgNxthdr_some (m : Msghdr) (c : Nat) :
    m.nfpCmsgNxthdr (some c) =
      if m.controllen < c + roundUp (m.cmsgLen c) + 16 then none
      else some (c + roundUp (m.cmsgLen c)) := by
  have hlen : m.cmsgLen c < capacity 4 := ofLe_slice_lt m.control c 4
  rw [Msghdr.nfpCmsgNxthdr, align_header, align_toNat hlen]

/-! ## 3. The round trip -/

/-- **What was put is read**, and what stands in front of it stays. -/
theorem put_reads (x : ControlMessage) (h : c + x.len ≤ m.control.length) :
    (m.put c x).cmsgLen c = x.len ∧ (m.put c x).message c = x.content ∧
      (m.put c x).control.length = m.control.length ∧
      ∀ o n, o + n ≤ c → slice (m.put c x).control o n = slice m.control o n := by
  rw [x.len_eq] at h
  have hdata : nfpCmsgData c = c + 16 := by rw [nfpCmsgData, align_header]
  -- the four writes, each inside the buffer
  have h1 : c + (leBytes 4 x.len).length ≤ m.control.length := by simp; omega
  generalize hb1 : writeAt m.control c (leBytes 4 x.len) = b1
  have l1 : b1.length = m.control.length := by rw [← hb1, length_writeAt h1]
  have h2 : c + 4 + (leBytes 4 x.level).length ≤ b1.length := by simp; omega
  generalize hb2 : writeAt b1 (c + 4) (leBytes 4 x.level) = b2
  have l2 : b2.length = m.control.length := by rw [← hb2, length_writeAt h2, l1]
  have h3 : c + 8 + (leBytes 4 x.type).length ≤ b2.length := by simp; omega
  generalize hb3 : writeAt b2 (c + 8) (leBytes 4 x.type) = b3
  have l3 : b3.length = m.control.length := by rw [← hb3, length_writeAt h3, l2]
  have h4 : c + 16 + x.data.length ≤ b3.length := by omega
  have hput : (m.put c x).control = writeAt b3 (c + 16) x.data := by
    simp only [Msghdr.put, hb1, hb2, hb3, hdata]
  have hlen : (m.put c x).cmsgLen c = x.len := by
    have hcap : x.len < capacity 4 := by
      rw [x.len_eq, Nat.add_comm]
      exact x.data_lt
    rw [Msghdr.cmsgLen, hput, slice_writeAt_apart h4 (by omega), ← hb3,
      slice_writeAt_apart h3 (by omega), ← hb2, slice_writeAt_apart h2 (by omega), ← hb1,
      ofLe_slice_writeAt (by omega) hcap]
  have hlevel : (m.put c x).cmsgLevel c = x.level := by
    rw [Msghdr.cmsgLevel, hput, slice_writeAt_apart h4 (by omega), ← hb3,
      slice_writeAt_apart h3 (by omega), ← hb2, ofLe_slice_writeAt (by omega) x.level_lt]
  have htype : (m.put c x).cmsgType c = x.type := by
    rw [Msghdr.cmsgType, hput, slice_writeAt_apart h4 (by omega), ← hb3,
      ofLe_slice_writeAt (by omega) x.type_lt]
  refine ⟨hlen, ?_, ?_, fun o n ho => ?_⟩
  · have hzero : (nfpCmsgLen 0).toNat = 16 := by decide
    have hsub : x.len - 16 = x.data.length := by
      rw [x.len_eq]
      omega
    rw [Msghdr.message, hlevel, htype, hlen, hzero, hdata, hput, hsub, slice_writeAt h4]
    rfl
  · rw [hput, length_writeAt h4, l3]
  · rw [hput, slice_writeAt_apart h4 (by omega), ← hb3, slice_writeAt_apart h3 (by omega), ← hb2,
      slice_writeAt_apart h2 (by omega), ← hb1, slice_writeAt_apart h1 (by omega)]

/-- A message is read from its own bytes. -/
theorem reads_frame {m' : Msghdr} {d : Nat} (x : ControlMessage)
    (hkeep : ∀ o n, o + n ≤ d → slice m'.control o n = slice m.control o n)
    (hlen : m.cmsgLen c = x.len) (hd : c + x.len ≤ d) :
    m'.cmsgLen c = x.len ∧ m'.message c = m.message c := by
  rw [x.len_eq] at hd
  have hlen' : m'.cmsgLen c = x.len := by
    rw [Msghdr.cmsgLen, hkeep c 4 (by omega)]
    exact hlen
  have hzero : (nfpCmsgLen 0).toNat = 16 := by decide
  have hdata : nfpCmsgData c = c + 16 := by rw [nfpCmsgData, align_header]
  refine ⟨hlen', ?_⟩
  rw [Msghdr.message, Msghdr.message, hlen', hlen, Msghdr.cmsgLevel, Msghdr.cmsgType,
    hkeep _ 4 (by omega), hkeep _ 4 (by omega), hkeep _ _ (by rw [hdata, hzero, x.len_eq]; omega)]
  rfl

/-- The room messages need: the last one need not be padded. -/
def needed : List ControlMessage → Nat
  | [] => 0
  | [x] => x.len
  | x :: xs => x.space + needed xs

/-- The room messages take with all padding. -/
def spaces : List ControlMessage → Nat
  | [] => 0
  | x :: xs => x.space + spaces xs

/-- Where the messages stand. -/
def offsets (c : Nat) : List ControlMessage → List Nat
  | [] => []
  | x :: xs => c :: offsets (c + x.space) xs

/-- Messages stand one behind the other from `c` on. -/
def Laid (m : Msghdr) : Nat → List ControlMessage → Prop
  | _, [] => True
  | c, x :: xs => m.cmsgLen c = x.len ∧ m.message c = x.content ∧ Laid m (c + x.space) xs

theorem needed_cons_cons (x y : ControlMessage) (xs : List ControlMessage) :
    needed (x :: y :: xs) = x.space + needed (y :: xs) := rfl

theorem sixteen_le_needed (x : ControlMessage) (xs : List ControlMessage) :
    16 ≤ needed (x :: xs) := by
  have hlen := x.len_eq
  have hspace := x.len_le_space
  cases xs with
  | nil => rw [needed]; omega
  | cons y xs => rw [needed_cons_cons]; omega

theorem len_le_needed (x : ControlMessage) (xs : List ControlMessage) :
    x.len ≤ needed (x :: xs) := by
  have hspace := x.len_le_space
  cases xs with
  | nil => exact Nat.le_refl _
  | cons y xs => rw [needed_cons_cons]; omega

/-- **The sender**: there is a header for each message, and the messages stand one behind the
    other. -/
theorem build_laid (msgs : List ControlMessage) :
    ∀ (m : Msghdr) (c : Nat), m.controllen ≤ m.control.length →
      c + needed msgs ≤ m.controllen →
      ∃ m', m.build (some c) msgs = some m' ∧ Laid m' c msgs ∧
        ∀ o n, o + n ≤ c → slice m'.control o n = slice m.control o n := by
  induction msgs with
  | nil => exact fun m c _ _ => ⟨m, rfl, trivial, fun _ _ _ => rfl⟩
  | cons x xs ih =>
      intro m c hroom hfits
      have hxlen := len_le_needed x xs
      obtain ⟨hlen, hmsg, hsize, hfront⟩ := put_reads (m := m) (c := c) x (by omega)
      have hctl : (m.put c x).controllen = m.controllen := rfl
      have hnext := nfpCmsgNxthdr_some (m.put c x) c
      rw [hlen, x.roundUp_len, hctl] at hnext
      have hstep : m.build (some c) (x :: xs) =
          (m.put c x).build ((m.put c x).nfpCmsgNxthdr (some c)) xs := rfl
      cases xs with
      | nil =>
          refine ⟨m.put c x, by rw [hstep]; rfl, ⟨hlen, hmsg, trivial⟩, hfront⟩
      | cons y ys =>
          rw [needed_cons_cons] at hfits
          have hsixteen := sixteen_le_needed y ys
          rw [if_neg (by omega)] at hnext
          obtain ⟨m', hm', hlaid, hkeep⟩ := ih (m.put c x) (c + x.space) (by omega) (by omega)
          obtain ⟨hlen', hmsg'⟩ := reads_frame x hkeep hlen (Nat.add_le_add_left x.len_le_space c)
          refine ⟨m', by rw [hstep, hnext]; exact hm', ⟨hlen', hmsg'.trans hmsg, hlaid⟩,
            fun o n ho => ?_⟩
          rw [hkeep o n (by omega), hfront o n ho]

/-- **The receiver**: from the first header on, one message after the other. -/
theorem walk_laid (msgs : List ControlMessage) {m : Msghdr} :
    ∀ (c n : Nat), Laid m c msgs → msgs ≠ [] → c + needed msgs ≤ m.controllen →
      m.controllen < c + spaces msgs + 16 → msgs.length ≤ n →
      forEach (fun cmsg => some (m.nfpCmsgNxthdr (some cmsg))) n (some c) =
        some (offsets c msgs) := by
  induction msgs with
  | nil => exact fun _ _ _ hne => absurd rfl hne
  | cons x xs ih =>
      intro c n hlaid _ hfits hend hn
      obtain ⟨k, rfl⟩ : ∃ k, n = k + 1 := ⟨n - 1, by rw [List.length_cons] at hn; omega⟩
      rw [List.length_cons] at hn
      have hnext := nfpCmsgNxthdr_some m c
      rw [hlaid.1, x.roundUp_len] at hnext
      rw [spaces] at hend
      refine forEach_cons (congrArg some hnext) ?_
      cases xs with
      | nil =>
          rw [spaces] at hend
          rw [if_pos (by omega)]
          cases k <;> rfl
      | cons y ys =>
          rw [needed_cons_cons] at hfits
          have hsixteen := sixteen_le_needed y ys
          rw [if_neg (by omega)]
          exact ih _ k hlaid.2.2 (List.cons_ne_nil y ys) (by omega) (by omega) (by omega)

theorem map_message_offsets (msgs : List ControlMessage) {m : Msghdr} :
    ∀ c, Laid m c msgs → (offsets c msgs).map m.message = msgs.map ControlMessage.content := by
  induction msgs with
  | nil => exact fun _ _ => rfl
  | cons x xs ih =>
      intro c hlaid
      rw [offsets, List.map_cons, List.map_cons, hlaid.2.1, ih _ hlaid.2.2]

/-- With room for another header behind the messages, the receiver visits that one too. -/
theorem walk_past (msgs : List ControlMessage) {m : Msghdr} :
    ∀ (c n : Nat) (cs : List Nat), Laid m c msgs → c + spaces msgs + 16 ≤ m.controllen →
      forEach (fun cmsg => some (m.nfpCmsgNxthdr (some cmsg))) n (some c) = some cs →
        msgs.length < cs.length := by
  induction msgs with
  | nil =>
      intro c n cs _ _ hwalk
      obtain ⟨k, y, rest, -, -, -, rfl⟩ := forEach_some hwalk
      exact Nat.succ_pos _
  | cons x xs ih =>
      intro c n cs hlaid hroom hwalk
      rw [spaces] at hroom
      obtain ⟨k, y, rest, -, hnext, hrest, rfl⟩ := forEach_some hwalk
      have hstep := nfpCmsgNxthdr_some m c
      rw [hlaid.1, x.roundUp_len, if_neg (by omega)] at hstep
      cases hstep.symm.trans (Option.some.inj hnext)
      exact Nat.succ_lt_succ (ih _ k rest hlaid.2.2 (by omega) hrest)

/-- Messages stand where they stand whatever `msg_controllen` says. -/
theorem Laid.received {m : Msghdr} (msgs : List ControlMessage) {c : Nat} (h : Laid m c msgs)
    (controllen : Nat) : Laid (m.received controllen) c msgs := by
  induction msgs generalizing c with
  | nil => trivial
  | cons x xs ih => exact ⟨h.1, h.2.1, ih h.2.2⟩

/-- **What the sender leaves**: with room for the messages there is a header for each of them. -/
theorem build_firsthdr (msgs : List ControlMessage) (m : Msghdr)
    (hroom : m.controllen ≤ m.control.length) (hfits : needed msgs ≤ m.controllen) :
    ∃ m', m.build m.nfpCmsgFirsthdr msgs = some m' ∧ Laid m' 0 msgs := by
  cases msgs with
  | nil => exact ⟨m, by cases m.nfpCmsgFirsthdr <;> rfl, trivial⟩
  | cons x xs =>
      have hsixteen := sixteen_le_needed x xs
      have hfirst : m.nfpCmsgFirsthdr = some 0 := if_pos (by rw [sizeof_header]; omega)
      obtain ⟨m', hm', hlaid, -⟩ := build_laid (x :: xs) m 0 hroom (by omega)
      exact ⟨m', by rw [hfirst]; exact hm', hlaid⟩

/-- The room behind the messages in which the receiver would see one more header. -/
def headroom (msgs : List ControlMessage) : Nat :=
  if msgs = [] then sizeofCmsghdr.toNat else (align sizeofCmsghdr).toNat

/-- No messages: the receiver must not see the first header. -/
theorem reads_nil {m : Msghdr} {n : Nat} :
    m.Reads n [] ↔ m.controllen < sizeofCmsghdr.toNat := by
  constructor
  · rintro ⟨cs, hwalk, hread⟩
    by_contra hroom
    have hfirst : m.nfpCmsgFirsthdr = some 0 := if_pos (Nat.le_of_not_lt hroom)
    unfold Msghdr.walk at hwalk
    rw [hfirst] at hwalk
    obtain ⟨k, y, rest, -, -, -, rfl⟩ := forEach_some hwalk
    cases hread
  · intro hend
    have hnone : m.nfpCmsgFirsthdr = none := if_neg (Nat.not_le_of_lt hend)
    refine ⟨[], ?_, rfl⟩
    unfold Msghdr.walk
    rw [hnone]
    cases n <;> rfl

/-- **What the receiver reads** are the messages, just if there is no room for another header
    behind them. -/
theorem reads_laid {msgs : List ControlMessage} {m : Msghdr} (hlaid : Laid m 0 msgs)
    (hfits : needed msgs ≤ m.controllen) :
    (m.controllen < spaces msgs + headroom msgs → ∀ n, msgs.length ≤ n → m.Reads n msgs) ∧
      ((∃ n, m.Reads n msgs) → m.controllen < spaces msgs + headroom msgs) := by
  cases msgs with
  | nil =>
      rw [spaces, headroom, if_pos rfl, Nat.zero_add]
      exact ⟨fun hend n _ => reads_nil.mpr hend, fun ⟨_, hread⟩ => reads_nil.mp hread⟩
  | cons x xs =>
      have hsixteen := sixteen_le_needed x xs
      have hfirst : m.nfpCmsgFirsthdr = some 0 := if_pos (by rw [sizeof_header]; omega)
      rw [headroom, if_neg (List.cons_ne_nil x xs), align_header]
      constructor
      · intro hend n hn
        refine ⟨offsets 0 (x :: xs), ?_, map_message_offsets _ 0 hlaid⟩
        rw [Msghdr.walk, hfirst]
        exact walk_laid _ 0 n hlaid (List.cons_ne_nil x xs) (by omega) (by omega) hn
      · rintro ⟨n, cs, hwalk, hread⟩
        by_contra hroom
        rw [Msghdr.walk, hfirst] at hwalk
        have hlonger := walk_past (x :: xs) 0 n cs hlaid (by omega) hwalk
        have hlength := congrArg List.length hread
        rw [List.length_map, List.length_map] at hlength
        omega

/-- **The round trip.** A sender who has room for the messages (the last one need not be padded)
    finds a header for each, whatever the buffer held before. A receiver of those bytes reads just
    these messages if and only if the `msg_controllen` it is given leaves no room for another
    header behind them; then it needs one round for each. -/
theorem cmsg_round_trip (msgs : List ControlMessage) (m : Msghdr)
    (hroom : m.controllen ≤ m.control.length) (hfits : needed msgs ≤ m.controllen) :
    ∃ m', m.build m.nfpCmsgFirsthdr msgs = some m' ∧
      ∀ len, needed msgs ≤ len → len ≤ m.controllen →
        ((∃ n, (m'.received len).Reads n msgs) ↔ len < spaces msgs + headroom msgs) ∧
        (len < spaces msgs + headroom msgs →
          ∀ n, msgs.length ≤ n → (m'.received len).Reads n msgs) := by
  obtain ⟨m', hm', hlaid⟩ := build_firsthdr msgs m hroom hfits
  refine ⟨m', hm', fun len hneeded _ => ?_⟩
  obtain ⟨hreads, hends⟩ := reads_laid (hlaid.received msgs len) hneeded
  exact ⟨⟨hends, fun hend => ⟨_, hreads hend _ (Nat.le_refl _)⟩⟩, hreads⟩

/-- A hop limit and a traffic class, 4 bytes and 1 byte of data. -/
def twoMessages : List ControlMessage :=
  [⟨41, 47, [64, 0, 0, 0], by decide, by decide, by decide⟩,
    ⟨41, 61, [8], by decide, by decide, by decide⟩]

/-- Built into 80 old bytes they are read back from the first 48, the `NFP_CMSG_SPACE` of the two,
    and not from all 80. -/
theorem cmsg_round_trip_two :
    ∃ m', Msghdr.build ⟨List.replicate 80 255, 80⟩ (some 0) twoMessages = some m' ∧
      (m'.received 48).Reads 2 twoMessages ∧ ¬ ∃ n, (m'.received 80).Reads n twoMessages := by
  obtain ⟨m', hm', hread⟩ := cmsg_round_trip twoMessages ⟨List.replicate 80 255, 80⟩
    (by decide) (by decide)
  have hshort := (hread 48 (by decide) (by decide)).2 (by decide) 2 (by decide)
  have hlong := (hread 80 (by decide) (by decide)).1
  exact ⟨m', hm', hshort, fun h => absurd (hlong.mp h) (by decide)⟩

/-! ## 4. Any bytes -/

/-- The headers a receiver comes to. -/
inductive Visited (m : Msghdr) : Nat → Prop where
  | first {c : Nat} : m.nfpCmsgFirsthdr = some c → Visited m c
  | next {c d : Nat} : Visited m c → m.nfpCmsgNxthdr (some c) = some d → Visited m d

theorem nfpCmsgFirsthdr_some (h : m.nfpCmsgFirsthdr = some c) : c = 0 ∧ 12 ≤ m.controllen := by
  rw [Msghdr.nfpCmsgFirsthdr, sizeof_header] at h
  split at h
  · rename_i hle
    cases h
    exact ⟨rfl, hle⟩
  · cases h

/-- One step: forwards by a multiple of 8, and with 16 bytes left. -/
theorem nfpCmsgNxthdr_step {d : Nat} (h : m.nfpCmsgNxthdr (some c) = some d) :
    d = c + roundUp (m.cmsgLen c) ∧ d + 16 ≤ m.controllen := by
  rw [nfpCmsgNxthdr_some] at h
  split at h
  · cases h
  · cases h
    exact ⟨rfl, by omega⟩

/-- **Every header visited is inside the buffer**, at a multiple of 8. -/
theorem Visited.inside (h : Visited m c) : 8 ∣ c ∧ c + 12 ≤ m.controllen := by
  induction h with
  | first h =>
      obtain ⟨rfl, hle⟩ := nfpCmsgFirsthdr_some h
      exact ⟨⟨0, rfl⟩, by omega⟩
  | next _ h ih =>
      obtain ⟨rfl, hle⟩ := nfpCmsgNxthdr_step h
      exact ⟨Nat.dvd_add ih.1 (Nat.dvd_mul_left 8 _), by omega⟩

/-- A walk that comes to an end ends from every header on it. -/
theorem ends_from (h : Visited m c) {n : Nat} {cs : List Nat} (hw : m.walk n = some cs) :
    ∃ k ds, forEach (fun cmsg => some (m.nfpCmsgNxthdr (some cmsg))) k (some c) = some ds := by
  induction h with
  | first h =>
      rw [Msghdr.walk, h] at hw
      exact ⟨n, cs, hw⟩
  | next _ h ih =>
      obtain ⟨n, ds, hds⟩ := ih
      obtain ⟨k, y, rest, -, hnext, hrest, -⟩ := forEach_some hds
      cases h.symm.trans (Option.some.inj hnext)
      exact ⟨k, rest, hrest⟩

/-- Where NXTHDR gives the same header again, no number of rounds is enough. -/
theorem stuck (h : m.nfpCmsgNxthdr (some c) = some c) (n : Nat) :
    forEach (fun cmsg => some (m.nfpCmsgNxthdr (some cmsg))) n (some c) = none := by
  induction n with
  | zero => rfl
  | succ n ih =>
      rw [forEach, h]
      show (forEach _ n (some c)).bind _ = none
      rw [ih]
      rfl

/-- A header visited that has the length 0 is its own NXTHDR, unless `msg_controllen` has no room
    for a padded header. -/
theorem Visited.nxthdr_self (h : Visited m c) (hlong : 16 ≤ m.controllen)
    (hzero : m.cmsgLen c = 0) : m.nfpCmsgNxthdr (some c) = some c := by
  have hle : c + 16 ≤ m.controllen := by
    cases h with
    | first h =>
        have hc := (nfpCmsgFirsthdr_some h).1
        omega
    | next _ h => exact (nfpCmsgNxthdr_step h).2
  rw [nfpCmsgNxthdr_some, hzero]
  exact if_neg (by simp [roundUp]; omega)

/-- While no length is 0 the walk goes on by at least 8 bytes, and so ends. -/
theorem ends_of_lengths (hpos : ∀ c, Visited m c → m.cmsgLen c ≠ 0) :
    ∀ (n c : Nat), Visited m c → m.controllen < c + 8 * n →
      ∃ ds, forEach (fun cmsg => some (m.nfpCmsgNxthdr (some cmsg))) n (some c) = some ds := by
  intro n
  induction n with
  | zero =>
      intro c hc hn
      have := hc.inside.2
      omega
  | succ n ih =>
      intro c hc hn
      cases hnext : m.nfpCmsgNxthdr (some c) with
      | none => exact ⟨[c], forEach_cons (congrArg some hnext) (by cases n <;> rfl)⟩
      | some d =>
          have hd := (nfpCmsgNxthdr_step hnext).1
          have hlen := hpos c hc
          have hround : 8 ≤ roundUp (m.cmsgLen c) := by rw [roundUp]; omega
          obtain ⟨ds, hds⟩ := ih d (.next hc hnext) (by omega)
          exact ⟨c :: ds, forEach_cons (congrArg some hnext) hds⟩

/-- **The walk on any bytes.** Every header visited is inside `msg_controllen`; the walk ends just
    if no header visited has the length 0 (which for a single short header does not matter), and
    then within one round for every 8 bytes. At a header of length 0 NXTHDR gives the same header
    again. -/
theorem cmsg_walk_ends_iff (m : Msghdr) :
    (∀ c, Visited m c → 8 ∣ c ∧ c + 12 ≤ m.controllen) ∧
      ((∃ n cs, m.walk n = some cs) ↔
        m.controllen < 16 ∨ ∀ c, Visited m c → m.cmsgLen c ≠ 0) ∧
      ((∃ n cs, m.walk n = some cs) → ∃ cs, m.walk (m.controllen / 8 + 1) = some cs) ∧
      (16 ≤ m.controllen → ∀ c, Visited m c → m.cmsgLen c = 0 →
        m.nfpCmsgNxthdr (some c) = some c) := by
  have hshort : m.controllen < 16 → ∃ cs, m.walk (m.controllen / 8 + 1) = some cs := by
    intro hlt
    cases hfirst : m.nfpCmsgFirsthdr with
    | none => exact ⟨[], by rw [Msghdr.walk, hfirst]; rfl⟩
    | some c =>
        have hnext : m.nfpCmsgNxthdr (some c) = none := by
          rw [nfpCmsgNxthdr_some]
          exact if_pos (by omega)
        refine ⟨[c], ?_⟩
        rw [Msghdr.walk, hfirst]
        exact forEach_cons (congrArg some hnext) (by cases m.controllen / 8 <;> rfl)
  have hlong : (∀ c, Visited m c → m.cmsgLen c ≠ 0) →
      ∃ cs, m.walk (m.controllen / 8 + 1) = some cs := by
    intro hpos
    cases hfirst : m.nfpCmsgFirsthdr with
    | none => exact ⟨[], by rw [Msghdr.walk, hfirst]; rfl⟩
    | some c =>
        rw [Msghdr.walk, hfirst]
        exact ends_of_lengths hpos _ c (.first hfirst) (by omega)
  have hiff : (∃ n cs, m.walk n = some cs) ↔
      m.controllen < 16 ∨ ∀ c, Visited m c → m.cmsgLen c ≠ 0 := by
    constructor
    · rintro ⟨n, cs, hw⟩
      by_cases hlt : m.controllen < 16
      · exact Or.inl hlt
      · refine Or.inr fun c hc hzero => ?_
        obtain ⟨k, ds, hds⟩ := ends_from hc hw
        rw [stuck (hc.nxthdr_self (Nat.le_of_not_lt hlt) hzero)] at hds
        cases hds
    · rintro (hlt | hpos)
      · exact ⟨_, hshort hlt⟩
      · exact ⟨_, hlong hpos⟩
  exact ⟨fun c hc => hc.inside, hiff, fun hends => (hiff.mp hends).elim hshort hlong,
    fun hlt c hc => hc.nxthdr_self hlt⟩

end Walk

end Nfp.Api
