/-
  File:      Nfp/Lib/Path.lean
  Subject:   LEXICAL PATHS. A path is a text cut at a separator; its components are walked one by
             one, "." and the empty one staying, ".." going up. Nothing is looked up in a file
             system, and nothing here names a program.

  A place is where a path leads: from the root of the file system or from the current directory,
  some levels up, then down along names.

  * `walk_from` -- a walk from any place is read off the same walk from nowhere: it takes away as
    many names as that walk climbs, and adds those that walk stays below;
  * `inside_walk_iff` -- so a walk stays inside the place it starts from just if it does not climb
    out of it for good: the names it climbs past are the first ones it comes down along;
  * `placeOf_join` -- a path joined to another is walked from where that one leads.
-/
import Mathlib.Data.List.Induction

namespace Nfp.Lib

variable {ν : Type}

/-- What a component does. -/
inductive Move (ν : Type) where
  | stay
  | up
  | down (name : ν)
  deriving DecidableEq, Repr

/-- Where a path leads. An absolute one climbs nowhere. -/
structure Place (ν : Type) where
  absolute : Bool
  climbed : Nat
  names : List ν
  deriving DecidableEq, Repr

/-- One component. Above the root of the file system is that root. -/
def Place.move (p : Place ν) : Move ν → Place ν
  | .stay => p
  | .down name => { p with names := p.names ++ [name] }
  | .up =>
      if p.names = [] then (if p.absolute then p else { p with climbed := p.climbed + 1 })
      else { p with names := p.names.dropLast }

/-- The components from the first to the last. -/
def Place.walk (p : Place ν) (moves : List (Move ν)) : Place ν := moves.foldl Place.move p

/-- The place a walk leads to that starts nowhere in particular. -/
def wander (moves : List (Move ν)) : Place ν := Place.walk ⟨false, 0, []⟩ moves

/-- `q` is inside `p`; `orSelf` tells whether `p` counts as inside itself. -/
structure Place.Inside (orSelf : Bool) (p q : Place ν) : Prop where
  absolute : q.absolute = p.absolute
  climbed : q.climbed = p.climbed
  names : p.names <+: q.names
  proper : orSelf = false → q.names ≠ p.names

/-- The last `k` names of a place. -/
def Place.last (p : Place ν) (k : Nat) : List ν := p.names.drop (p.names.length - k)

theorem walk_snoc (p : Place ν) (moves : List (Move ν)) (m : Move ν) :
    p.walk (moves ++ [m]) = (p.walk moves).move m := by
  unfold Place.walk
  rw [List.foldl_append]
  rfl

theorem walk_append (p : Place ν) (moves moves' : List (Move ν)) :
    p.walk (moves ++ moves') = (p.walk moves).walk moves' := List.foldl_append

theorem wander_absolute (moves : List (Move ν)) : (wander moves).absolute = false := by
  induction moves using List.reverseRecOn with
  | nil => rfl
  | append_singleton moves m ih =>
      unfold wander at ih ⊢
      rw [walk_snoc]
      cases m with
      | stay => exact ih
      | down name => exact ih
      | up =>
          unfold Place.move
          dsimp only
          split
          · rw [ih]
            rfl
          · exact ih

/-- **A walk from any place**, read off the same walk from nowhere. -/
theorem walk_from (p : Place ν) (moves : List (Move ν)) :
    p.walk moves =
      { absolute := p.absolute
        climbed := p.climbed +
          if p.absolute then 0 else (wander moves).climbed - p.names.length
        names := p.names.take (p.names.length - (wander moves).climbed) ++ (wander moves).names } := by
  -- on the last component: what is left of `p` stands before the names of the free walk
  induction moves using List.reverseRecOn with
  | nil => simp [Place.walk, wander]
  | append_singleton moves m ih =>
      have habs := wander_absolute moves
      have hfree : wander (moves ++ [m]) = (wander moves).move m := walk_snoc _ moves m
      rw [walk_snoc, ih, hfree]
      generalize wander moves = w at *
      cases m with
      | stay => rfl
      | down name => simp only [Place.move, List.append_assoc]
      | up =>
          by_cases hw : w.names = []
          · have hup : w.move .up = { w with climbed := w.climbed + 1 } := by
              simp [Place.move, hw, habs]
            rw [hup, hw]
            by_cases hk : p.names.length ≤ w.climbed
            · have hnil : p.names.length - w.climbed = 0 := by omega
              have hnil' : p.names.length - (w.climbed + 1) = 0 := by omega
              rw [hnil, hnil', List.take_zero, List.append_nil, Place.move, if_pos rfl]
              cases hp : p.absolute with
              | true => rfl
              | false =>
                  have hcount : p.climbed + (w.climbed - p.names.length) + 1 =
                      p.climbed + (w.climbed + 1 - p.names.length) := by omega
                  simpa using hcount
            · have hne : p.names.take (p.names.length - w.climbed) ≠ [] := by
                rw [Ne, List.take_eq_nil_iff, List.eq_nil_iff_length_eq_zero]
                omega
              have hzero : w.climbed - p.names.length = 0 := by omega
              have hzero' : w.climbed + 1 - p.names.length = 0 := by omega
              have hshort : (p.names.take (p.names.length - w.climbed)).dropLast =
                  p.names.take (p.names.length - (w.climbed + 1)) := by
                rw [List.dropLast_eq_take, List.take_take, List.length_take]
                congr 1
                omega
              rw [List.append_nil, List.append_nil, Place.move, if_neg hne, hzero, hzero', hshort]
          · have hup : w.move .up = { w with names := w.names.dropLast } := by
              simp [Place.move, hw]
            rw [hup]
            simp only [Place.move]
            rw [if_neg (by simp [hw]), List.dropLast_append_of_ne_nil hw]

/-- **A walk stays inside its start** just if it does not climb out for good: it climbs past
    names only that it comes down along again. -/
theorem inside_walk_iff (orSelf : Bool) (p : Place ν) (moves : List (Move ν)) :
    p.Inside orSelf (p.walk moves) ↔
      (p.absolute = true ∨ (wander moves).climbed ≤ p.names.length) ∧
        p.last (wander moves).climbed <+: (wander moves).names ∧
        (orSelf = false → p.last (wander moves).climbed ≠ (wander moves).names) := by
  have hsplit : p.names = p.names.take (p.names.length - (wander moves).climbed) ++
      p.last (wander moves).climbed := (List.take_append_drop _ _).symm
  have hwalk := walk_from p moves
  have hnames : (p.walk moves).names =
      p.names.take (p.names.length - (wander moves).climbed) ++ (wander moves).names := by
    rw [hwalk]
  have hclimbed : (p.walk moves).climbed = p.climbed ↔
      p.absolute = true ∨ (wander moves).climbed ≤ p.names.length := by
    rw [hwalk]
    cases p.absolute with
    | true => simp
    | false =>
        simp only [Bool.false_eq_true, if_false, false_or]
        omega
  have hfront : p.names <+: (p.walk moves).names ↔
      p.last (wander moves).climbed <+: (wander moves).names := by
    rw [hnames]
    nth_rewrite 1 [hsplit]
    exact List.prefix_append_right_inj _
  have hproper : (p.walk moves).names = p.names ↔
      p.last (wander moves).climbed = (wander moves).names := by
    rw [hnames]
    nth_rewrite 3 [hsplit]
    rw [List.append_cancel_left_eq]
    exact eq_comm
  constructor
  · intro h
    exact ⟨hclimbed.mp h.climbed, hfront.mp h.names, fun hs => fun heq =>
      h.proper hs (hproper.mpr heq)⟩
  · rintro ⟨hup, hdown, hne⟩
    exact ⟨by rw [hwalk], hclimbed.mpr hup, hfront.mpr hdown, fun hs heq =>
      hne hs (hproper.mp heq)⟩

/-! ## Texts -/

section Texts

variable {α : Type} [DecidableEq α] (sep dot : α)

/-- The component: nothing and "." stay, ".." goes up. -/
def Move.of (component : List α) : Move (List α) :=
  if component = [] ∨ component = [dot] then .stay
  else if component = [dot, dot] then .up
  else .down component

/-- The components of a text. -/
def movesOf (text : List α) : List (Move (List α)) := (text.splitOn sep).map (Move.of dot)

/-- **Where a text leads.** It is absolute if it begins with the separator. -/
def placeOf (text : List α) : Place (List α) :=
  Place.walk ⟨text.head? = some sep, 0, []⟩ (movesOf sep dot text)

variable {sep dot}

theorem movesOf_join (text name : List α) :
    movesOf sep dot (text ++ sep :: name) = movesOf sep dot text ++ movesOf sep dot name := by
  unfold movesOf List.splitOn
  rw [List.splitOnP_append_cons text name (by simp), List.map_append]

/-- **A path joined to another** is walked from where that one leads. -/
theorem placeOf_join {text : List α} (h : text ≠ []) (name : List α) :
    placeOf sep dot (text ++ sep :: name) =
      (placeOf sep dot text).walk (movesOf sep dot name) := by
  obtain ⟨a, text, rfl⟩ := List.exists_cons_of_ne_nil h
  unfold placeOf
  rw [movesOf_join, walk_append]
  rfl

/-- A walk keeps to absolute or relative paths. -/
theorem walk_absolute {ν : Type} (p : Place ν) (moves : List (Move ν)) :
    (p.walk moves).absolute = p.absolute := by rw [walk_from]

end Texts

end Nfp.Lib
