/-
  File:      Nfp/Lib/Ledger.lean
  Subject:   A LEDGER OF ACQUISITIONS AND RELEASES, oldest entry first. Nothing here names a
             program: the resources are any type.

  * `Sound l` -- every resource is released at most once, and only after it was acquired;
  * `Unwound rank l` -- every resource acquired has been released, and in the reverse order: the
    acquisitions come in rising `rank`, the releases in falling `rank`;
  * `OwnedFrom` -- the second half of `Sound` as a recursion over the ledger, which splits at an
    append (`ownedFrom_append`).
-/
import Mathlib.Data.List.Nodup

namespace Nfp.Lib

variable {ρ : Type}

/-- One entry of a ledger. -/
inductive Entry (ρ : Type) where
  | acquire (r : ρ)
  | release (r : ρ)
  deriving DecidableEq, Repr

/-- The resource an entry acquires. -/
def Entry.acquired? : Entry ρ → Option ρ
  | .acquire r => some r
  | .release _ => none

/-- The resource an entry releases. -/
def Entry.released? : Entry ρ → Option ρ
  | .acquire _ => none
  | .release r => some r

/-- The resources acquired, oldest first. -/
def acquired (l : List (Entry ρ)) : List ρ := l.filterMap Entry.acquired?

/-- The resources released, oldest first. -/
def released (l : List (Entry ρ)) : List ρ := l.filterMap Entry.released?

section Lists

@[simp] theorem acquired_nil : acquired ([] : List (Entry ρ)) = [] := rfl

@[simp] theorem acquired_cons_acquire (r : ρ) (l : List (Entry ρ)) :
    acquired (.acquire r :: l) = r :: acquired l := rfl

@[simp] theorem acquired_cons_release (r : ρ) (l : List (Entry ρ)) :
    acquired (.release r :: l) = acquired l := rfl

@[simp] theorem released_cons_acquire (r : ρ) (l : List (Entry ρ)) :
    released (.acquire r :: l) = released l := rfl

@[simp] theorem released_cons_release (r : ρ) (l : List (Entry ρ)) :
    released (.release r :: l) = r :: released l := rfl

@[simp] theorem acquired_append (l l' : List (Entry ρ)) :
    acquired (l ++ l') = acquired l ++ acquired l' := List.filterMap_append

@[simp] theorem released_append (l l' : List (Entry ρ)) :
    released (l ++ l') = released l ++ released l' := List.filterMap_append

@[simp] theorem acquired_map_acquire (rs : List ρ) : acquired (rs.map .acquire) = rs := by
  induction rs with
  | nil => rfl
  | cons r rs ih => rw [List.map_cons, acquired_cons_acquire, ih]

@[simp] theorem acquired_map_release (rs : List ρ) : acquired (rs.map .release) = [] := by
  induction rs with
  | nil => rfl
  | cons r rs ih => rw [List.map_cons, acquired_cons_release, ih]

@[simp] theorem released_map_release (rs : List ρ) : released (rs.map .release) = rs := by
  induction rs with
  | nil => rfl
  | cons r rs ih => rw [List.map_cons, released_cons_release, ih]

@[simp] theorem released_map_acquire (rs : List ρ) : released (rs.map .acquire) = [] := by
  induction rs with
  | nil => rfl
  | cons r rs ih => rw [List.map_cons, released_cons_acquire, ih]

end Lists

/-! ## Released only what is owned -/

/-- Every release in `l` is of a resource in `own` or acquired earlier in `l`. -/
def OwnedFrom : List ρ → List (Entry ρ) → Prop
  | _, [] => True
  | own, .acquire r :: l => OwnedFrom (r :: own) l
  | own, .release r :: l => r ∈ own ∧ OwnedFrom own l

/-- Owning more does not hurt. -/
theorem OwnedFrom.mono {l : List (Entry ρ)} {own own' : List ρ} (hsub : ∀ r ∈ own, r ∈ own')
    (h : OwnedFrom own l) : OwnedFrom own' l := by
  induction l generalizing own own' with
  | nil => trivial
  | cons e l ih =>
      cases e with
      | acquire r =>
          refine @ih (r :: own) _ (fun q hq => ?_) h
          rcases List.mem_cons.mp hq with rfl | hq
          · exact List.mem_cons_self
          · exact List.mem_cons_of_mem _ (hsub q hq)
      | release r => exact ⟨hsub r h.1, ih hsub h.2⟩

/-- **A ledger in two parts**: the second part may release what the first acquired. -/
theorem ownedFrom_append {l l' : List (Entry ρ)} {own : List ρ} (h : OwnedFrom own l)
    (h' : OwnedFrom (own ++ acquired l) l') : OwnedFrom own (l ++ l') := by
  induction l generalizing own with
  | nil => rw [acquired_nil, List.append_nil] at h'; exact h'
  | cons e l ih =>
      cases e with
      | acquire r =>
          refine @ih (r :: own) h (h'.mono fun q hq => ?_)
          rw [acquired_cons_acquire] at hq
          simp only [List.mem_append, List.mem_cons] at hq ⊢
          rcases hq with hq | hq | hq
          · exact Or.inl (Or.inr hq)
          · exact Or.inl (Or.inl hq)
          · exact Or.inr hq
      | release r => exact ⟨h.1, ih h.2 h'⟩

/-- What is released was owned or acquired. -/
theorem OwnedFrom.mem_acquired {l : List (Entry ρ)} {own : List ρ} (h : OwnedFrom own l) {r : ρ}
    (hr : r ∈ released l) : r ∈ own ∨ r ∈ acquired l := by
  induction l generalizing own with
  | nil => exact absurd hr List.not_mem_nil
  | cons e l ih =>
      cases e with
      | acquire q =>
          rw [released_cons_acquire] at hr
          rw [acquired_cons_acquire, List.mem_cons]
          rcases @ih (q :: own) h hr with hown | hacq
          · rcases List.mem_cons.mp hown with rfl | hown
            · exact Or.inr (Or.inl rfl)
            · exact Or.inl hown
          · exact Or.inr (Or.inr hacq)
      | release q =>
          rw [released_cons_release] at hr
          rcases List.mem_cons.mp hr with rfl | hr
          · exact Or.inl h.1
          · exact ih h.2 hr

/-- Acquiring needs nothing. -/
theorem ownedFrom_map_acquire (rs own : List ρ) : OwnedFrom own (rs.map .acquire) := by
  induction rs generalizing own with
  | nil => trivial
  | cons r rs ih => exact ih (r :: own)

/-- Releasing a list of owned resources. -/
theorem ownedFrom_map_release {rs own : List ρ} (h : ∀ r ∈ rs, r ∈ own) :
    OwnedFrom own (rs.map .release) := by
  induction rs with
  | nil => trivial
  | cons r rs ih =>
      exact ⟨h r List.mem_cons_self, ih fun q hq => h q (List.mem_cons_of_mem _ hq)⟩

/-- **A sound ledger**: each resource is released at most once, and only after it was
    acquired. -/
structure Sound (l : List (Entry ρ)) : Prop where
  once : (released l).Nodup
  owned : OwnedFrom [] l

/-- **A ledger unwound**: all that was acquired, in rising rank, has been released, in falling
    rank. -/
structure Unwound (rank : ρ → Nat) (l : List (Entry ρ)) : Prop where
  rising : (acquired l).Pairwise fun a b => rank a ≤ rank b
  complete : ∀ r ∈ acquired l, r ∈ released l
  falling : (released l).Pairwise fun a b => rank b ≤ rank a

end Nfp.Lib
