/-
  File:      Nfp/Common/Cores.lean
  Subject:   WHERE THE WORKERS RUN: `validate_cores_settings` of fpm_direct, fpm_power and webserver2,
             the same text in each of the three but for `MAX_WORKERS`, and the code of `main` of
             classifier that takes its place.

  An `int` is an `Int32`: a sum that leaves the range wraps round, and is noted (`overflow`).

  * `validateCoresSettings_counted` -- what is accepted, in exact numbers;
  * `cores_placed_iff` -- for each of the four programs, the requests after which the workers are as
    many as there may be and on cores that there are. A negative first core is not refused, and
    classifier asks neither for a positive count nor whether the workers fit its table.
-/
import Mathlib.Data.List.Nodup

namespace Nfp.Cores

/-- Why a request is refused, with the numbers the message shows. -/
inductive Refused where
  /-- Invalid 'core start' parameter -/
  | coreStart (requested max : Int32)
  /-- Exeeds number of avilable cores -/
  | exceedsCores (start count total : Int32)
  /-- At least 1 core is required -/
  | noCore
  /-- Number of processing cores exeeds maximum number for this test -/
  | exceedsMax (count max : Int32)
  /-- Invalid number of cores for this application (min 4) -/
  | tooFewCores
  deriving DecidableEq, Repr

/-- What is computed from a request that is accepted, and whether a sum has left the range of
    `int` on the way. -/
structure Sizing where
  coreStart : Int32
  coreCount : Int32
  overflow : Bool
  deriving DecidableEq, Repr

/-- `*core_count`: what was asked for, or all cores from `*core_start` on. -/
def computeCount (total coreStart reqCount : Int32) : Except Refused (Int32 × Bool) :=
  if reqCount ≠ 0 then
    if total < coreStart + reqCount then .error (.exceedsCores coreStart reqCount total)
    else .ok (reqCount, (coreStart + reqCount).toInt != coreStart.toInt + reqCount.toInt)
  else .ok (total - coreStart, (total - coreStart).toInt != total.toInt - coreStart.toInt)

/-- **`validate_cores_settings`**; `total` is what `odp_cpu_count` returns. -/
def validateCoresSettings (maxWorkers total reqStart reqCount : Int32) : Except Refused Sizing :=
  if total ≤ reqStart then .error (.coreStart reqStart (total - 1))
  else
    match computeCount total reqStart reqCount with
    | .error e => .error e
    | .ok (coreCount, overflow) =>
        if coreCount < 0 then .error .noCore
        else if maxWorkers < coreCount then .error (.exceedsMax coreCount maxWorkers)
        else .ok ⟨reqStart, coreCount, overflow⟩

/-- The programs that place their workers. -/
inductive Program where
  | fpmDirect
  | fpmPower
  | webserver2
  | classifier
  deriving DecidableEq, Repr

/-- `MAX_WORKERS`, the length of `thread_tbl`. -/
def Program.maxWorkers : Program → Int32
  | .fpmDirect => 64
  | .fpmPower => 64
  | .webserver2 => 32
  | .classifier => 32

/-- **The sizing in `main` of classifier**: cores 0 to 2 have work of their own. -/
def classifierSizing (coreCount reqCount : Int32) : Except Refused Sizing :=
  if coreCount < 4 then .error .tooFewCores
  else
    let numWorkers := coreCount - 3
    let overflow := numWorkers.toInt != coreCount.toInt - 3
    if reqCount ≠ 0 ∧ reqCount < numWorkers then .ok ⟨3, reqCount, overflow⟩
    else .ok ⟨3, numWorkers, overflow⟩

/-- What a program makes of `-s` and `-c`; classifier has no `-s`. -/
def Program.sizing (p : Program) (total reqStart reqCount : Int32) : Except Refused Sizing :=
  match p with
  | .classifier => classifierSizing total reqCount
  | p => validateCoresSettings p.maxWorkers total reqStart reqCount

/-- The cores the workers are put on: `first_worker + i`, in exact numbers. -/
def Sizing.cores (s : Sizing) : List Int :=
  (List.range s.coreCount.toInt.toNat).map fun i : Nat => s.coreStart.toInt + (i : Int)

/-- **The workers are placed**: between 1 and `MAX_WORKERS` of them, on cores that there are and no
    two on one, with no sum out of range. -/
structure Placed (maxWorkers total : Int32) (s : Sizing) : Prop where
  enough : 1 ≤ s.coreCount.toInt
  fit : s.coreCount ≤ maxWorkers
  distinct : s.cores.Nodup
  real : ∀ core ∈ s.cores, 0 ≤ core ∧ core < total.toInt
  inRange : s.overflow = false

/-- What `validate_cores_settings` gets right: a first core that is not negative, unless the sum
    leaves the range for a count that fits; and a negative one that something else in the request
    has refused. -/
def Sizable (maxWorkers total reqStart reqCount : Int) : Prop :=
  (0 ≤ reqStart ∧ (total ≤ reqStart ∨ maxWorkers < reqCount ∨ reqStart + reqCount < 0x80000000)) ∨
    (reqStart < 0 ∧ (reqCount < 0 ∨ maxWorkers < reqCount ∨ total < reqStart + reqCount ∨
      reqCount = 0 ∧ maxWorkers < total - reqStart))

/-- What classifier gets right: too few cores, a count in range of fewer workers than there could
    be, or else no more cores than the table has room for. -/
def ClassifierSizable (maxWorkers total reqCount : Int) : Prop :=
  total < 4 ∨
    if reqCount ≠ 0 ∧ reqCount < total - 3 then 1 ≤ reqCount ∧ reqCount ≤ maxWorkers
    else total - 3 ≤ maxWorkers

def Program.Sizable (p : Program) (total reqStart reqCount : Int) : Prop :=
  match p with
  | .classifier => ClassifierSizable p.maxWorkers.toInt total reqCount
  | p => Cores.Sizable p.maxWorkers.toInt total reqStart reqCount

/-! ## Sums of `int` -/

section Sums

variable (a b : Int32)

theorem bounds : -0x80000000 ≤ a.toInt ∧ a.toInt < 0x80000000 :=
  ⟨a.le_toInt, a.toInt_lt⟩

/-- A sum wraps round at most once. -/
theorem toInt_add_cases :
    (a + b).toInt = a.toInt + b.toInt ∧ -0x80000000 ≤ a.toInt + b.toInt ∧
        a.toInt + b.toInt < 0x80000000 ∨
      (a + b).toInt = a.toInt + b.toInt - 0x100000000 ∧ 0x80000000 ≤ a.toInt + b.toInt ∨
      (a + b).toInt = a.toInt + b.toInt + 0x100000000 ∧ a.toInt + b.toInt < -0x80000000 := by
  have ha := bounds a
  have hb := bounds b
  rw [Int32.toInt_add, Int.bmod_def]
  omega

theorem toInt_sub_cases :
    (a - b).toInt = a.toInt - b.toInt ∧ -0x80000000 ≤ a.toInt - b.toInt ∧
        a.toInt - b.toInt < 0x80000000 ∨
      (a - b).toInt = a.toInt - b.toInt - 0x100000000 ∧ 0x80000000 ≤ a.toInt - b.toInt ∨
      (a - b).toInt = a.toInt - b.toInt + 0x100000000 ∧ a.toInt - b.toInt < -0x80000000 := by
  have ha := bounds a
  have hb := bounds b
  rw [Int32.toInt_sub, Int.bmod_def]
  omega

end Sums

/-! ## What is accepted -/

/-- The cores are real just if the first and the last are. -/
theorem placed_iff {maxWorkers total : Int32} {s : Sizing} :
    Placed maxWorkers total s ↔
      1 ≤ s.coreCount.toInt ∧ s.coreCount.toInt ≤ maxWorkers.toInt ∧ 0 ≤ s.coreStart.toInt ∧
        s.coreStart.toInt + s.coreCount.toInt ≤ total.toInt ∧ s.overflow = false := by
  constructor
  · intro h
    have hcount := h.enough
    have hcore : ∀ i < s.coreCount.toInt.toNat, 0 ≤ s.coreStart.toInt + (i : Int) ∧
        s.coreStart.toInt + (i : Int) < total.toInt := by
      intro i hi
      exact h.real _ (List.mem_map_of_mem (List.mem_range.mpr hi))
    have hfirst := hcore 0 (by omega)
    have hlast := hcore (s.coreCount.toInt.toNat - 1) (by omega)
    exact ⟨hcount, Int32.le_iff_toInt_le.mp h.fit, by omega, by omega, h.inRange⟩
  · rintro ⟨henough, hfit, hstart, hend, hrange⟩
    refine ⟨henough, Int32.le_iff_toInt_le.mpr hfit, ?_, fun core hcore => ?_, hrange⟩
    · exact List.nodup_range.map fun i j hij => by omega
    · obtain ⟨i, hi, rfl⟩ := List.mem_map.mp hcore
      have hlt := List.mem_range.mp hi
      omega

section Validate

variable {maxWorkers total reqStart reqCount : Int32}

theorem computeCount_zero (hzero : reqCount.toInt = 0) :
    computeCount total reqStart reqCount =
      .ok (total - reqStart, (total - reqStart).toInt != total.toInt - reqStart.toInt) := by
  have hcount : reqCount = 0 := Int32.toInt_inj.mp hzero
  unfold computeCount
  rw [if_neg (not_not_intro hcount)]

theorem computeCount_ok_iff {r : Int32 × Bool} (hne : reqCount.toInt ≠ 0) :
    computeCount total reqStart reqCount = .ok r ↔
      (reqStart + reqCount).toInt ≤ total.toInt ∧
        (reqCount, (reqStart + reqCount).toInt != reqStart.toInt + reqCount.toInt) = r := by
  have hcount : reqCount ≠ 0 := fun h => hne (congrArg Int32.toInt h)
  unfold computeCount
  rw [if_pos hcount, ← Int.not_lt, ← Int32.lt_iff_toInt_lt]
  by_cases hsum : total < reqStart + reqCount
  · rw [if_pos hsum]
    exact iff_of_false (fun h => by cases h) fun h => h.1 hsum
  · rw [if_neg hsum, Except.ok.injEq, and_iff_right hsum]

/-- The tests behind the count. -/
theorem validateCoresSettings_counted {c : Int32} {o : Bool}
    (hcount : computeCount total reqStart reqCount = .ok (c, o)) {s : Sizing} :
    validateCoresSettings maxWorkers total reqStart reqCount = .ok s ↔
      (reqStart.toInt < total.toInt ∧ 0 ≤ c.toInt ∧ c.toInt ≤ maxWorkers.toInt) ∧
        ⟨reqStart, c, o⟩ = s := by
  have hlt : reqStart.toInt < total.toInt ↔ ¬ total ≤ reqStart := by
    rw [Int32.le_iff_toInt_le, Int.not_le]
  have hpos : 0 ≤ c.toInt ↔ ¬ c < 0 := by
    rw [Int32.lt_iff_toInt_lt, Int.not_lt]
    rfl
  have hfit : c.toInt ≤ maxWorkers.toInt ↔ ¬ maxWorkers < c := by
    rw [Int32.lt_iff_toInt_lt, Int.not_lt]
  unfold validateCoresSettings
  rw [hcount, hlt, hpos, hfit]
  dsimp only
  by_cases hstart : total ≤ reqStart
  · rw [if_pos hstart]
    exact iff_of_false (fun h => by cases h) fun h => h.1.1 hstart
  rw [if_neg hstart]
  by_cases hneg : c < 0
  · rw [if_pos hneg]
    exact iff_of_false (fun h => by cases h) fun h => h.1.2.1 hneg
  rw [if_neg hneg]
  by_cases hmax : maxWorkers < c
  · rw [if_pos hmax]
    exact iff_of_false (fun h => by cases h) fun h => h.1.2.2 hmax
  · rw [if_neg hmax, Except.ok.injEq, and_iff_right ⟨hstart, hneg, hmax⟩]

/-- A request for all cores from the first on. -/
theorem validate_all_iff (hzero : reqCount.toInt = 0) (htotal : 1 ≤ total.toInt) :
    (∀ s, validateCoresSettings maxWorkers total reqStart reqCount = .ok s →
        Placed maxWorkers total s) ↔
      0 ≤ reqStart.toInt ∨ maxWorkers.toInt < total.toInt - reqStart.toInt := by
  have hn := bounds total
  have hs := bounds reqStart
  have hmax := bounds maxWorkers
  have hall := toInt_sub_cases total reqStart
  have hok := fun s => @validateCoresSettings_counted maxWorkers total reqStart reqCount _ _
    (computeCount_zero hzero) s
  constructor
  · intro h
    by_contra hbad
    have hplaced := h _ ((hok _).mpr ⟨⟨by omega, by omega, by omega⟩, rfl⟩)
    have hstart := (placed_iff.mp hplaced).2.2.1
    simp only at hstart
    omega
  · intro h s hs
    obtain ⟨⟨hlt, hpos, hfit⟩, rfl⟩ := (hok s).mp hs
    have hexact : (total - reqStart).toInt = total.toInt - reqStart.toInt := by omega
    rw [placed_iff]
    simp only [hexact, bne_self_eq_false, and_true] at hpos hfit ⊢
    omega

/-- A request for a number of cores. -/
theorem validate_count_iff (hne : reqCount.toInt ≠ 0) :
    (∀ s, validateCoresSettings maxWorkers total reqStart reqCount = .ok s →
        Placed maxWorkers total s) ↔
      total.toInt ≤ reqStart.toInt ∨ reqCount.toInt < 0 ∨ maxWorkers.toInt < reqCount.toInt ∨
        reqStart.toInt + reqCount.toInt < 0x80000000 ∧
          (0 ≤ reqStart.toInt ∨ total.toInt < reqStart.toInt + reqCount.toInt) := by
  have hn := bounds total
  have hs := bounds reqStart
  have hc := bounds reqCount
  have hsum := toInt_add_cases reqStart reqCount
  constructor
  · intro h
    by_contra hbad
    have hle : (reqStart + reqCount).toInt ≤ total.toInt := by omega
    have hcount := (computeCount_ok_iff hne).mpr ⟨hle, rfl⟩
    have hplaced := h _ ((validateCoresSettings_counted hcount).mpr
      ⟨⟨by omega, by omega, by omega⟩, rfl⟩)
    obtain ⟨-, -, hstart, hend, -⟩ := placed_iff.mp hplaced
    simp only at hstart hend
    omega
  · intro h s hok
    cases hcompute : computeCount total reqStart reqCount with
    | error e =>
        unfold validateCoresSettings at hok
        rw [hcompute] at hok
        split at hok <;> cases hok
    | ok r =>
        obtain ⟨hle, rfl⟩ := (computeCount_ok_iff hne).mp hcompute
        obtain ⟨⟨hlt, hpos, hfit⟩, rfl⟩ := (validateCoresSettings_counted hcompute).mp hok
        have hexact : (reqStart + reqCount).toInt = reqStart.toInt + reqCount.toInt := by omega
        rw [placed_iff]
        simp only [hexact, bne_self_eq_false, and_true]
        omega

/-- **Where `validate_cores_settings` is right.** -/
theorem validate_placed_iff (htotal : 1 ≤ total.toInt) :
    (∀ s, validateCoresSettings maxWorkers total reqStart reqCount = .ok s →
        Placed maxWorkers total s) ↔
      Sizable maxWorkers.toInt total.toInt reqStart.toInt reqCount.toInt := by
  have hn := bounds total
  have hs := bounds reqStart
  have hc := bounds reqCount
  unfold Sizable
  by_cases hzero : reqCount.toInt = 0
  · rw [validate_all_iff hzero htotal]
    omega
  · rw [validate_count_iff hzero]
    omega

end Validate

/-! ## The four programs -/

/-- What classifier accepts. -/
theorem classifierSizing_ok_iff {total reqCount : Int32} {s : Sizing} :
    classifierSizing total reqCount = .ok s ↔
      4 ≤ total.toInt ∧
        ⟨3, if reqCount.toInt ≠ 0 ∧ reqCount.toInt < total.toInt - 3 then reqCount else total - 3,
          false⟩ = s := by
  have hfour : 4 ≤ total.toInt ↔ ¬ total < 4 := by
    rw [Int32.lt_iff_toInt_lt, Int.not_lt]
    rfl
  unfold classifierSizing
  rw [hfour]
  by_cases htotal : total < 4
  · rw [if_pos htotal]
    exact iff_of_false (fun h => by cases h) fun h => h.1 htotal
  rw [if_neg htotal, and_iff_right htotal]
  have hsub : (total - 3).toInt = total.toInt - 3 := by
    have hn := bounds total
    have hcases := toInt_sub_cases total 3
    have hthree : (3 : Int32).toInt = 3 := rfl
    have hge := hfour.mpr htotal
    omega
  have hover : ((total - 3).toInt != total.toInt - 3) = false := bne_eq_false_iff_eq.mpr hsub
  have hfewer : reqCount ≠ 0 ∧ reqCount < total - 3 ↔
      reqCount.toInt ≠ 0 ∧ reqCount.toInt < total.toInt - 3 := by
    rw [Int32.lt_iff_toInt_lt, hsub]
    exact and_congr_left' (not_congr Int32.toInt_inj.symm)
  dsimp only
  rw [hover]
  by_cases hless : reqCount ≠ 0 ∧ reqCount < total - 3
  · rw [if_pos hless, if_pos (hfewer.mp hless), Except.ok.injEq]
  · rw [if_neg hless, if_neg (hfewer.not.mp hless), Except.ok.injEq]

/-- **Where classifier is right.** -/
theorem classifier_placed_iff {maxWorkers total reqCount : Int32} :
    (∀ s, classifierSizing total reqCount = .ok s → Placed maxWorkers total s) ↔
      ClassifierSizable maxWorkers.toInt total.toInt reqCount.toInt := by
  have hn := bounds total
  have hcases := toInt_sub_cases total 3
  have hthree : (3 : Int32).toInt = 3 := rfl
  have hall : (∀ s, classifierSizing total reqCount = .ok s → Placed maxWorkers total s) ↔
      (4 ≤ total.toInt → Placed maxWorkers total ⟨3, if reqCount.toInt ≠ 0 ∧
        reqCount.toInt < total.toInt - 3 then reqCount else total - 3, false⟩) := by
    constructor
    · exact fun h hfour => h _ (classifierSizing_ok_iff.mpr ⟨hfour, rfl⟩)
    · intro h s hok
      obtain ⟨hfour, rfl⟩ := classifierSizing_ok_iff.mp hok
      exact h hfour
  rw [hall, placed_iff, ClassifierSizable]
  simp only [hthree, and_true]
  split
  · omega
  · omega

/-- **Where the workers are placed**: for every number of cores and every request, what a program
    accepts is between 1 and `MAX_WORKERS` workers on cores that there are, with no sum out of range,
    just if the request is `Sizable`. -/
theorem cores_placed_iff (p : Program) (total reqStart reqCount : Int32)
    (htotal : 1 ≤ total.toInt) :
    (∀ s, p.sizing total reqStart reqCount = .ok s → Placed p.maxWorkers total s) ↔
      p.Sizable total.toInt reqStart.toInt reqCount.toInt := by
  cases p with
  | fpmDirect => exact validate_placed_iff htotal
  | fpmPower => exact validate_placed_iff htotal
  | webserver2 => exact validate_placed_iff htotal
  | classifier => exact classifier_placed_iff

/-- By default fpm_direct runs on cores 1 to 7 of eight. -/
theorem cores_placed_default :
    Program.sizing .fpmDirect 8 1 0 = .ok ⟨1, 7, false⟩ ∧ Placed 64 8 ⟨1, 7, false⟩ := by
  have hok : Program.sizing .fpmDirect 8 1 0 = .ok ⟨1, 7, false⟩ := by decide
  have hsizable : Program.Sizable .fpmDirect (8 : Int32).toInt (1 : Int32).toInt (0 : Int32).toInt :=
    Or.inl ⟨by decide, Or.inr (Or.inr (by decide))⟩
  exact ⟨hok, (cores_placed_iff .fpmDirect 8 1 0 (by decide)).mpr hsizable _ hok⟩

/-- A first core -2 is accepted by the three programs that have one, and of 64 cores classifier
    takes 61 for a table of 32. -/
theorem cores_misplaced :
    (∀ p ∈ [Program.fpmDirect, .fpmPower, .webserver2],
        p.sizing 8 (-2) 4 = .ok ⟨-2, 4, false⟩ ∧ ¬ Placed p.maxWorkers 8 ⟨-2, 4, false⟩) ∧
      Program.sizing .classifier 64 1 0 = .ok ⟨3, 61, false⟩ ∧
      ¬ Placed Program.classifier.maxWorkers 64 ⟨3, 61, false⟩ := by
  refine ⟨fun p hp => ⟨?_, fun h => ?_⟩, by decide, fun h => ?_⟩
  · revert p
    decide
  · have hcore := h.real (-2) (by decide)
    omega
  · exact absurd h.fit (by decide)

end Nfp.Cores
