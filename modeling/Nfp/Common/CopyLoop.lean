/-
  File:      Nfp/Common/CopyLoop.lean
  Subject:   THE LOOP THAT CUTS UP THE COPY, the second of `nfpexpl_parse_interfaces`, on every text and
             for all answers of the allocator.

  While it runs memory has one shape (`View`): the blocks of the caller, `if_array`, the copy, and the
  texts `strdup` gave. `View.Sound` holds all along, and `Grown` is what each piece leaves as it is --
  among it the texts of the copy that stand behind the field it works on, which is why a field's
  separators are found in that field and in no other.

  * `parseField_run` -- one field; `parseLoop_step` -- one round;
  * `parseLoop_run` -- the loop: it ends, and if no memory was refused `ret` and the entries are what
    the parser of texts (CliArgParse.lean) makes of the fields.
-/
import Nfp.Common.InMemory

namespace Nfp.Common.InMemory

open Nfp.Lib

/-! ## The memory of the second loop -/

/-- The memory while the copy is cut up: the blocks of the caller, behind them `if_array`, the copy,
    and the texts `strdup` gave. -/
structure View where
  base : List (Option Block)
  es : List IfEntry
  buf : List Char
  texts : List (List Char)
  answers : Nat → Bool
  ledger : List (Entry Nat)
  refused : Nat
  count : Int
  writes : List (Int × Int)

namespace View

def mem (v : View) : Mem where
  blocks := v.base ++ some (.ifs v.es) :: some (.chars v.buf) ::
    v.texts.map fun t => some (.chars (t ++ [nul]))
  answers := v.answers
  ledger := v.ledger
  refused := v.refused
  param := ⟨v.count, some v.base.length⟩
  writes := v.writes

/-- The block of the copy. -/
def copy (v : View) : Nat := v.base.length + 1

/-- The block of the text `n`. -/
def slot (v : View) (n : Nat) : Nat := v.base.length + 2 + n

variable {v : View}

theorem load_array (v : View) : v.mem.load v.base.length = some (.ifs v.es) := by
  simp [Memory.load, mem]

theorem load_copy (v : View) : v.mem.load v.copy = some (.chars v.buf) := by
  simp [Memory.load, mem, copy]

theorem load_slot {n : Nat} {t : List Char} (h : v.texts[n]? = some t) :
    v.mem.load (v.slot n) = some (.chars (t ++ [nul])) := by
  unfold Memory.load slot
  rw [mem, List.getElem?_append_right (by omega), Nat.add_assoc, Nat.add_sub_cancel_left,
    Nat.add_comm 2 n]
  simp [h]

theorem length_blocks (v : View) : v.mem.blocks.length = v.slot v.texts.length := by
  simp [mem, slot]
  omega

/-- A NUL written into the copy. -/
theorem writeNul_mem {off : Nat} (hnul : nul ∈ v.buf.drop off) :
    C.writeNul ⟨v.copy, off⟩ v.mem = (.ok (), { v with buf := v.buf.set off nul }.mem) := by
  unfold C.writeNul
  rw [Prog.bind_ok (buffer_run v.load_copy hnul)]
  simp [C.store, Memory.store, mem, copy]

/-- **The copy is cut** at the first `d` of one of its texts. -/
theorem cutAt_mem {off : Nat} {s : List Char} (h : Holds nul v.buf off s) (d : Char) :
    C.cutAt ⟨v.copy, off⟩ d v.mem =
      (.ok ((cut d s).2.map fun _ => ⟨v.copy, off + (cut d s).1.length + 1⟩),
        { v with buf := Lib.putNul nul v.buf (Lib.strchr nul d v.buf off) }.mem) := by
  unfold C.cutAt
  rw [Prog.bind_ok (strchr_run ⟨v.buf, v.load_copy, h⟩ d), h.strchr_eq d]
  rcases cut_cases d s with ⟨-, hcut⟩ | ⟨front, rest, hs, -, hcut⟩
  · rw [hcut]
    rfl
  · rw [hcut]
    have hnul : nul ∈ v.buf.drop (off + front.length) := by
      refine h.mem_drop ?_
      rw [hs, List.length_append]
      omega
    exact Prog.bind_ok (writeNul_mem hnul)

/-- The view when `strdup` was given a block for `s`. -/
def granted (v : View) (s : List Char) : View :=
  { v with
    texts := v.texts ++ [s]
    answers := fun n => v.answers (n + 1)
    ledger := v.ledger ++ [.acquire (v.slot v.texts.length)] }

/-- The view when it was refused one. -/
def denied (v : View) : View :=
  { v with answers := fun n => v.answers (n + 1), refused := v.refused + 1 }

theorem strdup_granted {off : Nat} {s : List Char} (h : Holds nul v.buf off s)
    (hyes : v.answers 0 = true) :
    C.strdup ⟨v.copy, off⟩ v.mem =
      (.ok (some (v.slot v.texts.length)), (v.granted s).mem) := by
  rw [strdup_run ⟨v.buf, v.load_copy, h⟩, alloc_granted (b := true) (m := v.mem) hyes, length_blocks]
  simp [mem, granted]

theorem strdup_denied {off : Nat} {s : List Char} (h : Holds nul v.buf off s)
    (hno : v.answers 0 = false) :
    C.strdup ⟨v.copy, off⟩ v.mem = (.ok none, v.denied.mem) := by
  rw [strdup_run ⟨v.buf, v.load_copy, h⟩, alloc_denied (b := true) (m := v.mem) hno]
  rfl

/-- The view with another entry behind those of `done`. -/
def put (v : View) (done : List IfEntry) (e : IfEntry) (rest : List IfEntry) : View :=
  { v with es := done ++ e :: rest, writes := v.writes ++ [((done.length : Int), v.count)] }

theorem entries_mem {i : Nat} (hi : i < v.es.length) :
    C.entries i v.mem = (.ok (v.base.length, v.es), v.mem) := by
  have harray : v.mem.param.ifArray = some v.base.length := rfl
  unfold C.entries
  rw [harray]
  simp only [v.load_array]
  exact if_pos ⟨Int.natCast_nonneg i, Int.ofNat_lt.mpr hi⟩

theorem writeEntry_mem {done rest : List IfEntry} {e : IfEntry} (hes : v.es = done ++ e :: rest)
    (f : IfEntry → IfEntry) :
    C.writeEntry done.length f v.mem = (.ok (), (v.put done (f e) rest).mem) := by
  have hlt : done.length < v.es.length := by
    rw [hes, List.length_append, List.length_cons]
    omega
  have hrecord : C.recordWrite done.length v.mem = (.ok (), { v with
      writes := v.writes ++ [((done.length : Int), v.count)] }.mem) := rfl
  have hentries := entries_mem (v := { v with
      writes := v.writes ++ [((done.length : Int), v.count)] }) hlt
  unfold C.writeEntry
  rw [Prog.bind_ok hrecord, Prog.bind_ok hentries]
  simp [C.store, Memory.store, mem, put, hes]

end View

/-! ## What the pieces of the second loop do -/

theorem owned_zeros (k : Nat) : owned (List.replicate k .zero) = [] := by
  induction k with
  | zero => rfl
  | succ k ih => exact ih

theorem owned_put (done : List IfEntry) (e : IfEntry) (k : Nat) :
    owned (done ++ e :: List.replicate k .zero) = owned done ++ e.blocks := by
  have hzeros := owned_zeros k
  unfold owned at hzeros ⊢
  rw [List.flatMap_append, List.flatMap_cons, hzeros, List.append_nil]

/-- **What holds of a view** all along: `if_count` is the length of the array, and the texts are
    those the entries point to, each once and in order. -/
structure View.Sound (v : View) : Prop where
  count : v.count = v.es.length
  owned : owned v.es = List.range' (v.slot 0) v.texts.length
  clean : ∀ t ∈ v.texts, nul ∉ t

/-- The text a `char *` field points to. -/
def View.string (v : View) (b : Nat) : Option (List Char) :=
  if v.slot 0 ≤ b then v.texts[b - v.slot 0]? else none

/-- An entry stands for an interface. -/
structure View.Shows (v : View) (e : IfEntry) (ifarg : ApplArgIf) : Prop where
  name : e.ifName.bind v.string = some ifarg.ifName
  address : e.ifAddress.map v.string = ifarg.ifAddress.map some
  masklen : e.ifAddressMasklen = ifarg.ifAddressMasklen

/-- **What a piece of the loop leaves as it is**: the caller's blocks, the texts there are, and in
    the copy the texts behind `far`. Its writes are to entries that there are. -/
structure Grown (far : Nat) (v v' : View) : Prop where
  base : v'.base = v.base
  count : v'.count = v.count
  texts : v.texts <+: v'.texts
  refused : v.refused ≤ v'.refused
  writes : ∀ w ∈ v'.writes, w ∈ v.writes ∨ 0 ≤ w.1 ∧ w.1 < w.2
  further : ∀ q t, far < q → Holds nul v.buf q t → Holds nul v'.buf q t

namespace Grown

variable {far : Nat} {v v' v'' : View}

theorem trans (h : Grown far v v') (h' : Grown far v' v'') : Grown far v v'' where
  base := h'.base.trans h.base
  count := h'.count.trans h.count
  texts := h.texts.trans h'.texts
  refused := Nat.le_trans h.refused h'.refused
  writes w hw := (h'.writes w hw).elim (h.writes w) .inr
  further q t hq ht := h'.further q t hq (h.further q t hq ht)

theorem mono {far' : Nat} (hfar : far ≤ far') (h : Grown far v v') : Grown far' v v' :=
  { h with further := fun q t hq ht => h.further q t (Nat.lt_of_le_of_lt hfar hq) ht }

/-- The copy is cut at a text that ends before `far`. -/
theorem cut {off : Nat} {s : List Char} (h : Holds nul v.buf off s) (hfar : off + s.length ≤ far)
    (d : Char) :
    Grown far v { v with buf := Lib.putNul nul v.buf (Lib.strchr nul d v.buf off) } where
  base := rfl
  count := rfl
  texts := List.prefix_rfl
  refused := Nat.le_refl _
  writes _ hw := .inl hw
  further q t hq ht := (h.cutText d).2.2 q t (Nat.lt_of_le_of_lt hfar hq) ht

theorem granted (v : View) (s : List Char) : Grown far v (v.granted s) where
  base := rfl
  count := rfl
  texts := List.prefix_append _ _
  refused := Nat.le_refl _
  writes _ hw := .inl hw
  further _ _ _ ht := ht

theorem denied (v : View) : Grown far v v.denied where
  base := rfl
  count := rfl
  texts := List.prefix_rfl
  refused := Nat.le_succ _
  writes _ hw := .inl hw
  further _ _ _ ht := ht

theorem put {done rest : List IfEntry} (e : IfEntry) (hlt : (done.length : Int) < v.count) :
    Grown far v (v.put done e rest) where
  base := rfl
  count := rfl
  texts := List.prefix_rfl
  refused := Nat.le_refl _
  writes w hw := by
    rcases List.mem_append.mp hw with hw | hw
    · exact .inl hw
    · rw [List.mem_singleton.mp hw]
      exact .inr ⟨Int.natCast_nonneg _, hlt⟩
  further _ _ _ ht := ht

theorem copy (h : Grown far v v') : v.copy = v'.copy := by
  rw [View.copy, View.copy, h.base]

/-- A text stays where it is. -/
theorem string (h : Grown far v v') {b : Nat} {t : List Char} (hb : v.string b = some t) :
    v'.string b = some t := by
  obtain ⟨more, htexts⟩ := h.texts
  unfold View.string View.slot at hb ⊢
  rw [h.base, ← htexts]
  by_cases hslot : v.base.length + 2 + 0 ≤ b
  · rw [if_pos hslot] at hb ⊢
    rw [List.getElem?_append_left (List.getElem?_eq_some_iff.mp hb).1, hb]
  · rw [if_neg hslot] at hb
    cases hb

theorem shows (h : Grown far v v') {e : IfEntry} {ifarg : ApplArgIf} (he : v.Shows e ifarg) :
    v'.Shows e ifarg := by
  refine ⟨?_, ?_, he.masklen⟩
  · obtain ⟨b, hname, hb⟩ := Option.bind_eq_some_iff.mp he.name
    rw [hname]
    exact h.string hb
  · have haddress := he.address
    cases hb : e.ifAddress with
    | none => rwa [hb] at haddress
    | some b =>
        rw [hb] at haddress
        cases ha : ifarg.ifAddress with
        | none =>
            rw [ha] at haddress
            cases haddress
        | some address =>
            rw [ha] at haddress
            exact congrArg some (h.string (Option.some.inj haddress))

end Grown

/-- What the parser makes of a field in memory is what it is to make of it. -/
def View.Parsed (v : View) (ret : Nat) (e : IfEntry) : Option ApplArgIf → Prop
  | none => ret = exitFailure
  | some ifarg => ret = exitSuccess ∧ v.Shows e ifarg

section Entry

variable {v : View} {done : List IfEntry} {e : IfEntry} {k off : Nat} {s : List Char}

theorem View.Sound.lt_count (hv : v.Sound) (hes : v.es = done ++ e :: List.replicate k .zero) :
    (done.length : Int) < v.count := by
  rw [hv.count, hes, List.length_append, List.length_cons]
  omega

/-- An entry that points to the same blocks may be put in the place of another. -/
theorem View.Sound.put {e' : IfEntry} (hv : v.Sound)
    (hes : v.es = done ++ e :: List.replicate k .zero) (hblocks : e'.blocks = e.blocks) :
    (v.put done e' (.replicate k .zero)).Sound where
  count := by
    show v.count = _
    rw [hv.count, hes]
    simp [View.put]
  owned := by
    show InMemory.owned (done ++ e' :: List.replicate k .zero) = _
    rw [owned_put, hblocks, ← owned_put done e k, ← hes]
    exact hv.owned
  clean := hv.clean

/-- The text that a granted block holds. -/
theorem View.string_granted (v : View) (s : List Char) :
    (v.granted s).string (v.slot v.texts.length) = some s := by
  have hslot : (v.granted s).slot 0 = v.slot 0 := rfl
  have hsub : v.slot v.texts.length - v.slot 0 = v.texts.length := by
    unfold slot
    omega
  unfold string
  rw [hslot, hsub, if_pos (by unfold slot; omega)]
  exact List.getElem?_concat_length

/-- **A field of an entry gets a copy** of a text, or `NULL`. -/
theorem dupEntry_run (hv : v.Sound) (hes : v.es = done ++ e :: List.replicate k .zero)
    (hs : Holds nul v.buf off s) {f : Option Nat → IfEntry → IfEntry}
    (hnone : (f none e).blocks = e.blocks) (hsome : ∀ b, (f (some b) e).blocks = e.blocks ++ [b]) :
    ∃ b v', C.dupEntry done.length ⟨v.copy, off⟩ f v.mem = (.ok b, v'.mem) ∧
      (∀ far, Grown far v v') ∧ v'.Sound ∧ v'.buf = v.buf ∧
      v'.es = done ++ f b e :: List.replicate k .zero ∧
      ((∃ n, b = some n ∧ v'.string n = some s) ∨ b = none ∧ v.refused < v'.refused) := by
  have hlt := hv.lt_count hes
  have hcount : v.count = (done.length + (k + 1) : Nat) := by
    rw [hv.count, hes, List.length_append, List.length_cons, List.length_replicate]
  have howned := hv.owned
  rw [hes, owned_put] at howned
  unfold C.dupEntry
  cases hanswer : v.answers 0 with
  | true =>
      refine ⟨_, (v.granted s).put done (f (some (v.slot v.texts.length)) e) (.replicate k .zero),
        ?_, fun far => (Grown.granted v s).trans (Grown.put _ hlt), ⟨?_, ?_, ?_⟩, rfl, rfl,
        .inl ⟨_, rfl, v.string_granted s⟩⟩
      · have hwrite := View.writeEntry_mem (v := v.granted s) hes (f (some (v.slot v.texts.length)))
        rw [Prog.bind_ok (View.strdup_granted hs hanswer), Prog.bind_ok hwrite]
        rfl
      · show v.count = _
        rw [hcount]
        simp [View.put]
      · show owned (done ++ f (some (v.slot v.texts.length)) e :: List.replicate k .zero) =
          List.range' (v.slot 0) (v.texts ++ [s]).length
        rw [owned_put, hsome, ← List.append_assoc, howned, List.length_append, List.length_singleton,
          List.range'_1_concat]
        rfl
      · intro t ht
        rcases List.mem_append.mp ht with ht | ht
        · exact hv.clean t ht
        · rw [List.mem_singleton.mp ht]
          exact hs.clean
  | false =>
      have hdenied : v.denied.Sound := ⟨hv.count, hv.owned, hv.clean⟩
      refine ⟨_, v.denied.put done (f none e) (.replicate k .zero), ?_,
        fun far => (Grown.denied v).trans (Grown.put _ hlt), hdenied.put hes hnone, rfl, rfl,
        .inr ⟨rfl, Nat.lt_succ_self _⟩⟩
      have hwrite := View.writeEntry_mem (v := v.denied) hes (f none)
      rw [Prog.bind_ok (View.strdup_denied hs hanswer), Prog.bind_ok hwrite]
      rfl

/-- **A text of the copy is cut** at its first `d`. -/
theorem cutAt_run (hv : v.Sound) (hs : Holds nul v.buf off s) (d : Char) :
    ∃ v', C.cutAt ⟨v.copy, off⟩ d v.mem =
        (.ok ((cut d s).2.map fun _ => ⟨v.copy, off + (cut d s).1.length + 1⟩), v'.mem) ∧
      Grown (off + s.length) v v' ∧ v'.Sound ∧ v'.es = v.es ∧ v'.refused = v.refused ∧
      Holds nul v'.buf off (cut d s).1 ∧
      ∀ rest, (cut d s).2 = some rest → Holds nul v'.buf (off + (cut d s).1.length + 1) rest :=
  ⟨_, View.cutAt_mem hs d, Grown.cut hs (Nat.le_refl _) d, ⟨hv.count, hv.owned, hv.clean⟩, rfl, rfl,
    (hs.cutText d).1, (hs.cutText d).2.1⟩

theorem parseInterface_address {tkn name t : List Char} (hat : cut '@' tkn = (name, some t)) :
    parseInterface tkn = (cut '/' t).2.map fun mask => ⟨name, some (cut '/' t).1, atoi mask⟩ := by
  unfold parseInterface
  rcases cut_cases '/' t with ⟨-, hslash⟩ | ⟨_, _, -, -, hslash⟩ <;> simp only [hat, hslash] <;> rfl

/-- **The address and the mask**, `t` being what stands behind the '@' of the field. -/
theorem fillAddress_run {tkn name t : List Char} {n : Nat} (hv : v.Sound)
    (hes : v.es = done ++ ⟨some n, none, 0⟩ :: List.replicate k .zero) (ht : Holds nul v.buf off t)
    (hat : cut '@' tkn = (name, some t)) (hname : v.string n = some name) :
    ∃ ret v' e', fillAddress done.length ⟨v.copy, off⟩ v.mem = (.ok ret, v'.mem) ∧
      Grown (off + t.length) v v' ∧ v'.Sound ∧ v'.es = done ++ e' :: List.replicate k .zero ∧
      (v'.refused = v.refused → v'.Parsed ret e' (parseInterface tkn)) := by
  obtain ⟨w, hcut, hw, hsound, hwes, hrefused, hfront, hrest⟩ := cutAt_run hv ht '/'
  rw [← hwes] at hes
  have hcopy := hw.copy
  unfold fillAddress
  rw [Prog.bind_ok hcut, parseInterface_address hat, hcopy]
  rcases cut_cases '/' t with ⟨-, hslash⟩ | ⟨address, mask, -, -, hslash⟩
  · -- no mask: the field is refused
    rw [hslash]
    exact ⟨exitFailure, w, _, rfl, hw, hsound, hes, fun _ => rfl⟩
  · rw [hslash] at hfront hrest ⊢
    obtain ⟨b, w', hdup, hw', hsound', hbuf, hes', hb⟩ :=
      dupEntry_run (f := fun b e => { e with ifAddress := b }) hsound hes hfront rfl fun _ => rfl
    have hgrown := hw.trans (hw' _)
    have hcopy' := (hw' 0).copy
    rcases hb with ⟨b, rfl, haddress⟩ | ⟨rfl, hless⟩
    · have hmask : w'.mem.Chars ⟨w.copy, off + address.length + 1⟩ mask := by
        rw [hcopy']
        exact ⟨w'.buf, w'.load_copy, hbuf ▸ hrest mask rfl⟩
      have hwrite := View.writeEntry_mem hes' fun e => { e with ifAddressMasklen := atoi mask }
      refine ⟨exitSuccess, w'.put done ⟨some n, some b, atoi mask⟩ (.replicate k .zero), _, ?_,
        hgrown.trans (Grown.put _ (hsound'.lt_count hes')), hsound'.put hes' rfl, rfl,
        fun _ => ⟨rfl, ?_, congrArg some haddress, rfl⟩⟩
      · show (C.dupEntry done.length ⟨w.copy, off⟩ _ >>= _) w.mem = _
        rw [Prog.bind_ok hdup]
        show (C.string _ >>= _) w'.mem = _
        rw [Prog.bind_ok (string_run hmask), Prog.bind_ok hwrite]
        rfl
      · exact hgrown.string hname
    · refine ⟨exitFailure, w', _, ?_, hgrown, hsound', hes', fun hsame => ?_⟩
      · show (C.dupEntry done.length ⟨w.copy, off⟩ _ >>= _) w.mem = _
        rw [Prog.bind_ok hdup]
        rfl
      · omega

/-- **One field** that stands in the copy. -/
theorem parseField_run {tkn : List Char} (hv : v.Sound)
    (hes : v.es = done ++ .zero :: List.replicate k .zero) (htkn : Holds nul v.buf off tkn) :
    ∃ ret v' e', parseField done.length ⟨v.copy, off⟩ v.mem = (.ok ret, v'.mem) ∧
      Grown (off + tkn.length) v v' ∧ v'.Sound ∧ v'.es = done ++ e' :: List.replicate k .zero ∧
      (v'.refused = v.refused → v'.Parsed ret e' (parseInterface tkn)) := by
  obtain ⟨u, hcut, hu, husound, hues, hurefused, hname, haddr⟩ := cutAt_run hv htkn '@'
  have hucopy := hu.copy
  obtain ⟨b, w, hdup, hw, hsound, hbuf, hwes, hb⟩ :=
    dupEntry_run (f := fun b e => { e with ifName := b }) husound (hues.trans hes) hname rfl
      fun _ => rfl
  have hcopy := (hw 0).copy
  have hgrown := hu.trans (hw _)
  unfold parseField
  rw [Prog.bind_ok hcut, hucopy, Prog.bind_ok hdup]
  rcases hb with ⟨n, rfl, hstring⟩ | ⟨rfl, hless⟩
  · rcases cut_cases '@' tkn with ⟨hno, hat⟩ | ⟨name, t, hsplit, -, hat⟩
    · -- a name alone
      rw [hat] at hstring ⊢
      rw [parseInterface_plain hno]
      exact ⟨exitSuccess, w, _, rfl, hgrown, hsound, hwes, fun _ => ⟨rfl, hstring, rfl, rfl⟩⟩
    · rw [hat] at hstring haddr ⊢
      have ht : Holds nul w.buf (off + name.length + 1) t := hbuf ▸ haddr t rfl
      obtain ⟨ret, v', e', hfill, hv', hsound', hes', hparsed⟩ :=
        fillAddress_run hsound hwes ht hat hstring
      have hfar : off + name.length + 1 + t.length ≤ off + tkn.length := by
        rw [hsplit, List.length_append, List.length_cons]
        omega
      have hle := hgrown.refused
      have hle' := hv'.refused
      refine ⟨ret, v', e', ?_, hgrown.trans (hv'.mono hfar), hsound', hes', fun hsame => ?_⟩
      · rw [← hfill, hcopy]
        rfl
      · exact hparsed (by omega)
  · -- no memory for the name
    refine ⟨exitFailure, w, _, rfl, hgrown, hsound, hwes, fun hsame => ?_⟩
    omega

end Entry

/-- `View.Parsed` for all entries. -/
def View.ParsedAll (v : View) (ret : Nat) (es : List IfEntry) : Option (List ApplArgIf) → Prop
  | none => ret = exitFailure
  | some ifs => ret = exitSuccess ∧ List.Forall₂ v.Shows es ifs

theorem intIncr_of_lt {i : Nat} (hi : i + 1 < 0x80000000) : intIncr i = (i + 1 : Nat) := by
  unfold intIncr
  rw [Int.bmod_eq_of_le_mul_two (by omega) (by omega)]
  rfl

theorem parseLoop_none (n : Nat) (idx : Int) (m : Mem) :
    parseLoop n none idx m = (.ok exitSuccess, m) := by
  cases n <;> rfl

theorem View.Parsed.of_failure {v : View} {e : IfEntry} {o : Option ApplArgIf}
    (h : v.Parsed exitFailure e o) : o = none := by
  cases o with
  | none => rfl
  | some ifarg => exact absurd h.1 (by decide)

theorem View.Parsed.of_success {v : View} {ret : Nat} {e : IfEntry} {o : Option ApplArgIf}
    (h : v.Parsed ret e o) (hret : ret ≠ exitFailure) : ∃ ifarg, o = some ifarg ∧ v.Shows e ifarg := by
  cases o with
  | none => exact absurd h hret
  | some ifarg => exact ⟨ifarg, rfl, h.2⟩

/-- A field that was parsed, and the fields behind it. -/
theorem View.ParsedAll.cons {v : View} {ret : Nat} {e : IfEntry} {es : List IfEntry}
    {tkn : List Char} {tkns : List (List Char)} {ifarg : ApplArgIf}
    (hfield : parseInterface tkn = some ifarg) (he : v.Shows e ifarg)
    (h : v.ParsedAll ret es (tkns.mapM parseInterface)) :
    v.ParsedAll ret (e :: es) ((tkn :: tkns).mapM parseInterface) := by
  rw [List.mapM_cons, hfield]
  cases hifs : tkns.mapM parseInterface with
  | none =>
      rw [hifs] at h
      exact h
  | some ifs =>
      rw [hifs] at h
      exact ⟨h.1, .cons he h.2⟩

/-- **One round of the second loop**: the field in front is cut off and parsed, and the text behind
    its comma stands where the next round looks for it. -/
theorem parseLoop_step (n : Nat) {v : View} {done : List IfEntry} {k off : Nat} {rest : List Char}
    (hv : v.Sound) (hes : v.es = done ++ .zero :: List.replicate k .zero)
    (hrest : Holds nul v.buf off rest) :
    ∃ ret v' e, parseLoop (n + 1) (some ⟨v.copy, off⟩) done.length v.mem =
        (if ret = exitFailure then pure ret
          else parseLoop n
            ((cut ',' rest).2.map fun _ => ⟨v'.copy, off + (cut ',' rest).1.length + 1⟩)
            (intIncr done.length)) v'.mem ∧
      Grown (off + rest.length) v v' ∧ v'.Sound ∧ v'.es = done ++ e :: List.replicate k .zero ∧
      (∀ behind, (cut ',' rest).2 = some behind →
        Holds nul v'.buf (off + (cut ',' rest).1.length + 1) behind) ∧
      (v'.refused = v.refused → v'.Parsed ret e (parseInterface (cut ',' rest).1)) := by
  obtain ⟨w, hcut, hw, hsound, hwes, hrefused, hfront, hbehind⟩ := cutAt_run hv hrest ','
  obtain ⟨ret, v', e, hfield, hv', hsound', hes', hparsed⟩ :=
    parseField_run hsound (hwes.trans hes) hfront
  have hfar : off + (cut ',' rest).1.length ≤ off + rest.length := by
    rw [cut_fst]
    exact Nat.add_le_add_left (List.takeWhile_sublist _).length_le off
  refine ⟨ret, v', e, ?_, hw.trans (hv'.mono hfar), hsound', hes', fun behind hsome => ?_,
    fun hsame => hparsed (hsame.trans hrefused.symm)⟩
  · rw [parseLoop, Prog.bind_ok hcut, hw.copy, Prog.bind_ok hfield, hv'.copy]
  · exact hv'.further _ _ (Nat.lt_succ_self _) (hbehind behind hsome)

/-- **The second loop**, on what is left of the copy: it ends, and if no memory was refused it has
    done with each field what is to be done. -/
theorem parseLoop_run {n : Nat} {v : View} {done : List IfEntry} {off : Nat} {rest : List Char}
    (hv : v.Sound) (hes : v.es = done ++ List.replicate (rest.splitOn ',').length .zero)
    (hrest : Holds nul v.buf off rest) (hn : rest.length < n) (hint : v.count < 0x80000000) :
    ∃ ret v' new, parseLoop n (some ⟨v.copy, off⟩) done.length v.mem = (.ok ret, v'.mem) ∧
      Grown (off + rest.length) v v' ∧ v'.Sound ∧ v'.es = done ++ new ∧
      (v'.refused = v.refused →
        v'.ParsedAll ret new ((rest.splitOn ',').mapM parseInterface)) := by
  induction n generalizing v done off rest with
  | zero => omega
  | succ n ih =>
      rw [splitOn_eq_cut, List.length_cons, List.replicate_succ] at hes
      have hlt := hv.lt_count hes
      obtain ⟨ret, w, e, hstep, hw, hsound, hwes, hbehind, hparsed⟩ := parseLoop_step n hv hes hrest
      rw [splitOn_eq_cut, hstep]
      by_cases hret : ret = exitFailure
      · -- this field ends the loop
        subst hret
        refine ⟨exitFailure, w, _, rfl, hw, hsound, hwes, fun hsame => ?_⟩
        rw [List.mapM_cons, (hparsed hsame).of_failure]
        rfl
      rw [if_neg hret]
      rcases cut_cases ',' rest with ⟨-, hcomma⟩ | ⟨tkn, rest', hsplit, -, hcomma⟩
      · -- it was the last one
        rw [hcomma] at hwes hparsed ⊢
        refine ⟨exitSuccess, w, [e], parseLoop_none _ _ _, hw, hsound, hwes, fun hsame => ?_⟩
        obtain ⟨ifarg, hifarg, hshows⟩ := (hparsed hsame).of_success hret
        exact View.ParsedAll.cons hifarg hshows ⟨rfl, .nil⟩
      · rw [hcomma] at hwes hparsed hbehind ⊢
        have hdone : w.es = (done ++ [e]) ++ List.replicate (rest'.splitOn ',').length .zero := by
          rw [hwes, List.append_assoc]
          rfl
        have hlen : rest.length = tkn.length + (rest'.length + 1) := by
          rw [hsplit, List.length_append, List.length_cons]
        have hidx : intIncr done.length = ((done ++ [e]).length : Nat) := by
          rw [intIncr_of_lt (by omega), List.length_append, List.length_singleton]
        obtain ⟨ret', v', new, hloop, hv', hsound', hes', hparsed'⟩ :=
          ih hsound hdone (hbehind rest' rfl) (by omega) (by rw [hw.count]; exact hint)
        have hle := hw.refused
        have hle' := hv'.refused
        refine ⟨ret', v', e :: new, ?_, hw.trans (hv'.mono (by simp only; omega)), hsound',
          by rw [hes', List.append_assoc]; rfl, fun hsame => ?_⟩
        · rw [← hloop, hidx]
          rfl
        · obtain ⟨ifarg, hifarg, hshows⟩ := (hparsed (by omega)).of_success hret
          exact View.ParsedAll.cons hifarg (hv'.shows hshows) (hparsed' (by omega))

end Nfp.Common.InMemory
