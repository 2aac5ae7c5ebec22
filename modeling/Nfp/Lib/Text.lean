/-
  File:      Nfp/Lib/Text.lean
  Subject:   TEXTS CUT INTO PARTS, as the C library cuts them: at the first separator (`strchr`), into
             the tokens between separators (`strtok`), and a list of words into options
             (`getopt_long`). Characters are of any type, and nothing here names a program.

  * `fieldsLoop_eq` -- a loop over `strchr` gives every field, the empty ones too;
  * `tokensLoop_eq` -- a loop over `strtok` gives the fields that are not empty;
  * `tokens_eq_fields_iff` -- so the two agree just on texts without an empty field;
    `nil_mem_splitOn_iff` -- which are those with no separator in front, at the end or doubled.
-/
import Mathlib.Data.List.Basic
import Mathlib.Data.List.Infix
import Mathlib.Data.List.TakeWhile

namespace Nfp.Lib

variable {α : Type} [DecidableEq α]

/-! ## Fields and tokens -/

/-- `strchr`: the text before the first `d`, and the text behind it if there is a `d`. -/
def cut (d : α) (s : List α) : List α × Option (List α) :=
  match s.dropWhile (· ≠ d) with
  | [] => (s, none)
  | _ :: rest => (s.takeWhile (· ≠ d), some rest)

/-- The fields a loop over `strchr` finds; one unit of fuel for each. -/
def fieldsLoop (d : α) : Nat → List α → List (List α)
  | 0, _ => []
  | n + 1, s =>
      match cut d s with
      | (field, none) => [field]
      | (field, some rest) => field :: fieldsLoop d n rest

def fields (d : α) (s : List α) : List (List α) := fieldsLoop d (s.length + 1) s

/-- One call of `strtok`: separators are skipped, the token goes up to the next one, and the text
    behind that is kept for the next call. -/
def strtok (d : α) (s : List α) : Option (List α × List α) :=
  match s.dropWhile (· = d) with
  | [] => none
  | a :: t => some ((cut d (a :: t)).1, (cut d (a :: t)).2.getD [])

/-- The tokens of repeated calls. -/
def tokensLoop (d : α) : Nat → List α → List (List α)
  | 0, _ => []
  | n + 1, s =>
      match strtok d s with
      | none => []
      | some (token, rest) => token :: tokensLoop d n rest

def tokens (d : α) (s : List α) : List (List α) := tokensLoop d (s.length + 1) s

/-- What `cut` makes of a text. -/
theorem cut_cases (d : α) (s : List α) :
    (d ∉ s ∧ cut d s = (s, none)) ∨
      ∃ field rest, s = field ++ d :: rest ∧ d ∉ field ∧ cut d s = (field, some rest) := by
  unfold cut
  have hsplit := s.takeWhile_append_dropWhile (p := (· ≠ d))
  cases hdrop : s.dropWhile (· ≠ d) with
  | nil =>
      refine .inl ⟨fun hd => ?_, rfl⟩
      have hall := List.dropWhile_eq_nil_iff.mp hdrop d hd
      simp at hall
  | cons b rest =>
      have hb : b = d := by
        have hhead := List.head?_dropWhile_not (· ≠ d) s
        rw [hdrop] at hhead
        simpa using hhead
      rw [hdrop, hb] at hsplit
      refine .inr ⟨_, rest, hsplit.symm, fun hd => ?_, rfl⟩
      simpa using List.mem_takeWhile_imp hd

/-- A text is cut behind a part without the separator. -/
theorem cut_append_cons {d : α} {field : List α} (hd : d ∉ field) (rest : List α) :
    cut d (field ++ d :: rest) = (field, some rest) := by
  have hall : ∀ a ∈ field, decide (a ≠ d) = true := by
    intro a ha
    exact decide_eq_true fun heq => hd (heq ▸ ha)
  unfold cut
  rw [List.takeWhile_append_of_pos hall, List.dropWhile_append_of_pos hall,
    List.takeWhile_cons_of_neg (by simp), List.dropWhile_cons_of_neg (by simp), List.append_nil]

theorem cut_fst (d : α) (s : List α) : (cut d s).1 = s.takeWhile (· ≠ d) := by
  unfold cut
  cases hdrop : s.dropWhile (· ≠ d) with
  | nil =>
      have hsplit := s.takeWhile_append_dropWhile (p := (· ≠ d))
      rw [hdrop, List.append_nil] at hsplit
      exact hsplit.symm
  | cons b rest => rfl

theorem cut_snd (d : α) (s : List α) :
    (cut d s).2 = if d ∈ s then some (s.dropWhile (· ≠ d)).tail else none := by
  rcases cut_cases d s with ⟨hd, hcut⟩ | ⟨field, rest, hs, hd, hcut⟩
  · rw [hcut, if_neg hd]
  · have hall : ∀ a ∈ field, decide (a ≠ d) = true := by
      intro a ha
      exact decide_eq_true fun heq => hd (heq ▸ ha)
    rw [hcut, hs, if_pos (List.mem_append_right field List.mem_cons_self),
      List.dropWhile_append_of_pos hall, List.dropWhile_cons_of_neg (by simp)]
    rfl

/-- The first field, and the fields behind its separator. -/
theorem splitOn_eq_cut (d : α) (s : List α) :
    s.splitOn d = (cut d s).1 :: ((cut d s).2.map (·.splitOn d)).getD [] := by
  rcases cut_cases d s with ⟨hd, hcut⟩ | ⟨field, rest, hs, hd, hcut⟩
  · rw [hcut, List.splitOn_eq_singleton hd]
    rfl
  · rw [hcut, hs, List.splitOn_append_cons_self_of_not_mem hd]
    rfl

/-- **A loop over `strchr` gives every field.** -/
theorem fieldsLoop_eq (d : α) {n : Nat} {s : List α} (hn : s.length < n) :
    fieldsLoop d n s = s.splitOn d := by
  induction n generalizing s with
  | zero => omega
  | succ n ih =>
      rcases cut_cases d s with ⟨hd, hcut⟩ | ⟨field, rest, hs, hd, hcut⟩
      · rw [fieldsLoop, hcut, List.splitOn_eq_singleton hd]
      · rw [fieldsLoop, hcut, hs, List.splitOn_append_cons_self_of_not_mem hd]
        have hlen : rest.length < n := by
          rw [hs, List.length_append, List.length_cons] at hn
          omega
        exact congrArg (field :: ·) (ih hlen)

theorem fields_eq (d : α) (s : List α) : fields d s = s.splitOn d :=
  fieldsLoop_eq d (Nat.lt_succ_self _)

/-- Separators in front of a text are empty fields. -/
theorem filter_splitOn_dropWhile (d : α) (s : List α) :
    ((s.dropWhile (· = d)).splitOn d).filter (· ≠ []) = (s.splitOn d).filter (· ≠ []) := by
  induction s with
  | nil => rfl
  | cons a t ih =>
      by_cases ha : a = d
      · have hskip : (a :: t).splitOn d = [] :: t.splitOn d := by
          rw [List.splitOn_cons_eq_if_modifyHead, if_pos (by simpa using ha)]
        rw [List.dropWhile_cons_of_pos (by simpa using ha), ih, hskip]
        rfl
      · rw [List.dropWhile_cons_of_neg (by simpa using ha)]

/-- **A loop over `strtok` gives the fields that are not empty.** -/
theorem tokensLoop_eq (d : α) {n : Nat} {s : List α} (hn : s.length < n) :
    tokensLoop d n s = (s.splitOn d).filter (· ≠ []) := by
  induction n generalizing s with
  | zero => omega
  | succ n ih =>
      rw [← filter_splitOn_dropWhile, tokensLoop, strtok]
      have hshort : (s.dropWhile (· = d)).length ≤ s.length := (List.dropWhile_sublist _).length_le
      cases hdrop : s.dropWhile (· = d) with
      | nil => rfl
      | cons a t =>
          have ha : a ≠ d := by
            have hhead := List.head?_dropWhile_not (· = d) s
            rw [hdrop] at hhead
            simpa using hhead
          rw [hdrop] at hshort
          rcases cut_cases d (a :: t) with ⟨hd, hcut⟩ | ⟨field, rest, hs, hd, hcut⟩
          · -- the last token; the next call finds nothing
            have hend : tokensLoop d n [] = [] := by
              cases n <;> rfl
            rw [List.splitOn_eq_singleton hd]
            show (cut d (a :: t)).1 :: tokensLoop d n ((cut d (a :: t)).2.getD []) = _
            rw [hcut]
            exact congrArg (_ :: ·) hend
          · have hne : field ≠ [] := by
              rintro rfl
              exact ha (List.cons.inj hs).1
            have hlen : rest.length < n := by
              rw [hs, List.length_append, List.length_cons] at hshort
              omega
            show (cut d (a :: t)).1 :: tokensLoop d n ((cut d (a :: t)).2.getD []) = _
            rw [hcut, hs, List.splitOn_append_cons_self_of_not_mem hd,
              List.filter_cons_of_pos (by simpa using hne)]
            exact congrArg (field :: ·) (ih hlen)

theorem tokens_eq (d : α) (s : List α) : tokens d s = (s.splitOn d).filter (· ≠ []) :=
  tokensLoop_eq d (Nat.lt_succ_self _)

/-- **Fields and tokens are the same** just if no field is empty. -/
theorem tokens_eq_fields_iff (d : α) (s : List α) :
    tokens d s = fields d s ↔ [] ∉ s.splitOn d := by
  rw [tokens_eq, fields_eq, List.filter_eq_self]
  refine ⟨fun h hnil => by simpa using h [] hnil, fun h t ht => ?_⟩
  have hne : t ≠ [] := fun hnil => h (hnil ▸ ht)
  simpa using hne

theorem splitOn_cons_self (d : α) (s : List α) : (d :: s).splitOn d = [] :: s.splitOn d := by
  simp [List.splitOn_cons_eq_if_modifyHead]

/-- A character that is no separator goes to the first field. -/
theorem splitOn_cons_of_ne {a d : α} (ha : a ≠ d) (s : List α) :
    ∃ field others, s.splitOn d = field :: others ∧ (a :: s).splitOn d = (a :: field) :: others := by
  obtain ⟨field, others, hs⟩ := List.exists_cons_of_ne_nil (List.splitOn_ne_nil d s)
  refine ⟨field, others, hs, ?_⟩
  rw [List.splitOn_cons_eq_if_modifyHead, if_neg (by simpa using ha), hs]
  rfl

/-- There is one field more than there are separators. -/
theorem length_splitOn (d : α) (s : List α) : (s.splitOn d).length = s.count d + 1 := by
  induction s with
  | nil => rfl
  | cons a s ih =>
      by_cases ha : a = d
      · rw [ha, splitOn_cons_self, List.length_cons, ih, List.count_cons_self]
      · obtain ⟨field, others, hs, hsplit⟩ := splitOn_cons_of_ne ha s
        rw [hsplit, List.length_cons, List.count_cons_of_ne ha, ← ih, hs, List.length_cons]

/-- The fields are made of the characters of the text. -/
theorem mem_of_mem_splitOn {d a : α} {s field : List α} (hfield : field ∈ s.splitOn d)
    (ha : a ∈ field) : a ∈ s := by
  induction s generalizing field with
  | nil => simp_all
  | cons b s ih =>
      by_cases hb : b = d
      · subst hb
        rw [splitOn_cons_self] at hfield
        rcases List.mem_cons.mp hfield with rfl | hfield
        · cases ha
        · exact List.mem_cons_of_mem _ (ih hfield ha)
      · obtain ⟨first, others, hrest, hsplit⟩ := splitOn_cons_of_ne hb s
        rw [hsplit] at hfield
        rw [hrest] at ih
        rcases List.mem_cons.mp hfield with rfl | hfield
        · rcases List.mem_cons.mp ha with rfl | ha
          · exact List.mem_cons_self
          · exact List.mem_cons_of_mem _ (ih List.mem_cons_self ha)
        · exact List.mem_cons_of_mem _ (ih (List.mem_cons_of_mem _ hfield) ha)

theorem subset_of_mem_tokens {d : α} {s token : List α} (h : token ∈ tokens d s) : token ⊆ s := by
  rw [tokens_eq] at h
  exact fun a ha => mem_of_mem_splitOn (List.mem_of_mem_filter h) ha

/-- An empty field behind the first. -/
theorem nil_mem_tail_splitOn_iff (d : α) (s : List α) :
    [] ∈ (s.splitOn d).tail ↔ s.getLast? = some d ∨ [d, d] <:+: s := by
  induction s with
  | nil => simp
  | cons a s ih =>
      by_cases ha : a = d
      · subst ha
        rw [splitOn_cons_self, List.tail_cons]
        cases s with
        | nil => simp
        | cons b s =>
            by_cases hb : b = a
            · subst hb
              rw [splitOn_cons_self]
              refine iff_of_true List.mem_cons_self (.inr ?_)
              exact ⟨[], s, rfl⟩
            · obtain ⟨field, others, -, hsplit⟩ := splitOn_cons_of_ne hb s
              rw [hsplit, List.tail_cons] at ih
              rw [hsplit, List.getLast?_cons_cons, List.infix_cons_iff]
              simp [ih, Ne.symm hb]
      · obtain ⟨field, others, hrest, hsplit⟩ := splitOn_cons_of_ne ha s
        rw [hrest, List.tail_cons] at ih
        rw [hsplit, List.tail_cons, ih, List.infix_cons_iff]
        cases s with
        | nil => simp [ha]
        | cons b s => simp [Ne.symm ha]

/-- **A field is empty** just if there is a separator in front, at the end or doubled. -/
theorem nil_mem_splitOn_iff (d : α) {s : List α} (hs : s ≠ []) :
    [] ∈ s.splitOn d ↔ s.head? = some d ∨ s.getLast? = some d ∨ [d, d] <:+: s := by
  rw [← nil_mem_tail_splitOn_iff]
  obtain ⟨a, t, rfl⟩ := List.exists_cons_of_ne_nil hs
  by_cases ha : a = d
  · subst ha
    simp [splitOn_cons_self]
  · obtain ⟨field, others, -, hsplit⟩ := splitOn_cons_of_ne ha t
    simp [hsplit, ha]

/-! ## Options -/

/-- What `getopt_long` answers: an option, with its argument if it has one, or that it cannot take
    what it finds. -/
inductive Answer (α : Type) where
  | option (val : α) (arg : Option (List α))
  | refused
  deriving DecidableEq, Repr

/-- `struct option`. -/
structure LongOption (α : Type) where
  name : List α
  takesArg : Bool
  val : α
  deriving DecidableEq, Repr

/-- What `getopt_long` is called with: the short options and whether they take an argument, and the
    long ones, each with a value of its own. -/
structure OptTable (α : Type) where
  dash : α
  assign : α
  short : α → Option Bool
  long : List (LongOption α)

namespace OptTable

variable (t : OptTable α)

/-- A word of short options; the last may want the next word for its argument. -/
def cluster : List α → List (Answer α) × Option α
  | [] => ([], none)
  | c :: cs =>
      match t.short c with
      | none => (.refused :: (cluster cs).1, (cluster cs).2)
      | some false => (.option c none :: (cluster cs).1, (cluster cs).2)
      | some true => if cs = [] then ([], some c) else ([.option c (some cs)], none)

/-- A long option by its name, or by an abbreviation no other has. -/
def find (name : List α) : Option (LongOption α) :=
  match t.long.find? (·.name = name) with
  | some o => some o
  | none =>
      match t.long.filter (name <+: ·.name) with
      | [o] => some o
      | _ => none

/-- A word of one long option. -/
def longWord (body : List α) : List (Answer α) × Option α :=
  match t.find (cut t.assign body).1 with
  | none => ([.refused], none)
  | some o =>
      match o.takesArg, (cut t.assign body).2 with
      | true, some arg => ([.option o.val (some arg)], none)
      | true, none => ([], some o.val)
      | false, some _ => ([.refused], none)
      | false, none => ([.option o.val none], none)

/-- One word; none where the options end. -/
def word : List α → Option (List (Answer α) × Option α)
  | a :: b :: body =>
      if a ≠ t.dash then none
      else if b ≠ t.dash then some (t.cluster (b :: body))
      else if body = [] then none
      else some (t.longWord body)
  | _ => none

/-- **The answers of `getopt_long`**, up to the first word that is no option. `pending` is an option
    that waits for its argument. -/
def getopt : Option α → List (List α) → List (Answer α)
  | none, [] => []
  | some _, [] => [.refused]
  | some val, w :: words => .option val (some w) :: getopt none words
  | none, w :: words =>
      match t.word w with
      | none => []
      | some (answers, pending) => answers ++ getopt pending words

variable {t}

omit [DecidableEq α] in
theorem cluster_arg {cs : List α} {val : α} {arg : List α}
    (h : .option val (some arg) ∈ (t.cluster cs).1) : arg ⊆ cs := by
  induction cs with
  | nil => cases h
  | cons c cs ih =>
      unfold cluster at h
      cases hc : t.short c with
      | none =>
          simp only [hc] at h
          rcases List.mem_cons.mp h with h | h
          · cases h
          · exact List.subset_cons_of_subset c (ih h)
      | some takesArg =>
          cases takesArg with
          | false =>
              simp only [hc] at h
              rcases List.mem_cons.mp h with h | h
              · cases h
              · exact List.subset_cons_of_subset c (ih h)
          | true =>
              simp only [hc] at h
              split at h
              · cases h
              · cases List.mem_singleton.mp h
                exact List.subset_cons_self _ _

theorem cut_snd_subset {d : α} {s rest : List α} (h : (cut d s).2 = some rest) : rest ⊆ s := by
  rcases cut_cases d s with ⟨-, hcut⟩ | ⟨field, rest', hs, -, hcut⟩
  · rw [hcut] at h
    cases h
  · rw [hcut] at h
    cases h
    rw [hs]
    exact List.subset_append_of_subset_right field (List.subset_cons_self d rest)

theorem longWord_arg {body : List α} {val : α} {arg : List α}
    (h : .option val (some arg) ∈ (t.longWord body).1) : arg ⊆ body := by
  unfold longWord at h
  split at h
  · cases List.mem_singleton.mp h
  · split at h
    · rename_i harg
      cases List.mem_singleton.mp h
      exact cut_snd_subset harg
    · cases h
    · cases List.mem_singleton.mp h
    · cases List.mem_singleton.mp h

theorem word_arg {w : List α} {answers : List (Answer α)} {pending : Option α} {val : α}
    {arg : List α} (hw : t.word w = some (answers, pending))
    (h : .option val (some arg) ∈ answers) : arg ⊆ w := by
  match w with
  | [] => cases hw
  | [_] => cases hw
  | a :: b :: body =>
      rw [word] at hw
      split at hw
      · cases hw
      split at hw
      · have hanswers : (t.cluster (b :: body)).1 = answers := congrArg Prod.fst (Option.some.inj hw)
        rw [← hanswers] at h
        exact List.subset_cons_of_subset a (cluster_arg h)
      split at hw
      · cases hw
      · have hanswers : (t.longWord body).1 = answers := congrArg Prod.fst (Option.some.inj hw)
        rw [← hanswers] at h
        exact List.subset_cons_of_subset a (List.subset_cons_of_subset b (longWord_arg h))

/-- **An argument is part of a word.** -/
theorem getopt_arg {words : List (List α)} {pending : Option α} {val : α} {arg : List α}
    (h : .option val (some arg) ∈ t.getopt pending words) : ∃ w ∈ words, arg ⊆ w := by
  induction words generalizing pending with
  | nil =>
      cases pending with
      | none => cases h
      | some v => cases List.mem_singleton.mp h
  | cons w words ih =>
      have hlater : ∀ {pending}, .option val (some arg) ∈ t.getopt pending words →
          ∃ w' ∈ w :: words, arg ⊆ w' := fun h => by
        obtain ⟨w', hw', hsub⟩ := ih h
        exact ⟨w', List.mem_cons_of_mem _ hw', hsub⟩
      cases pending with
      | some v =>
          rw [getopt] at h
          rcases List.mem_cons.mp h with h | h
          · cases h
            exact ⟨_, List.mem_cons_self, List.Subset.refl _⟩
          · exact hlater h
      | none =>
          rw [getopt] at h
          cases hw : t.word w with
          | none =>
              rw [hw] at h
              cases h
          | some r =>
              rw [hw] at h
              rcases List.mem_append.mp h with h | h
              · exact ⟨w, List.mem_cons_self, word_arg hw h⟩
              · exact hlater h

end OptTable

/-- The argument of the last answer with a given value. -/
def lastArg (val : α) : List (Answer α) → Option (List α)
  | [] => none
  | .option v (some arg) :: answers =>
      (lastArg val answers).or (if v = val then some arg else none)
  | _ :: answers => lastArg val answers

theorem lastArg_cons_self (val : α) (arg : List α) (answers : List (Answer α)) :
    lastArg val (.option val (some arg) :: answers) = (lastArg val answers).or (some arg) := by
  rw [lastArg, if_pos rfl]

/-- Other answers do not count. -/
theorem lastArg_cons_of_ne {val : α} {a : Answer α} (ha : ∀ arg, a ≠ .option val (some arg))
    (answers : List (Answer α)) : lastArg val (a :: answers) = lastArg val answers := by
  match a with
  | .refused => rfl
  | .option v none => rfl
  | .option v (some arg) =>
      have hv : v ≠ val := fun h => ha arg (h ▸ rfl)
      rw [lastArg, if_neg hv, Option.or_none]

theorem lastArg_mem {val : α} {answers : List (Answer α)} {arg : List α}
    (h : lastArg val answers = some arg) : .option val (some arg) ∈ answers := by
  induction answers with
  | nil => cases h
  | cons a answers ih =>
      match a with
      | .refused => exact List.mem_cons_of_mem _ (ih h)
      | .option v none => exact List.mem_cons_of_mem _ (ih h)
      | .option v (some arg') =>
          rw [lastArg] at h
          rcases Option.or_eq_some_iff.mp h with h | ⟨-, h⟩
          · exact List.mem_cons_of_mem _ (ih h)
          · split at h
            · rename_i hv
              rw [hv, Option.some.inj h]
              exact List.mem_cons_self
            · cases h

end Nfp.Lib
