import MotionExpr.Proofs.Text.Characters
import MotionExpr.Proofs.Text.Substitution
import MotionExpr.Format.Spacing

/-!
Where the rules for calls and commas apply. Each of them finds one shape of text, finds it wherever
it stands, and is told by it what to put there.
-/

namespace MotionExpr

open Text

namespace Call

theorem continuesName_of_startsWord {c : Char} (h : Token.startsWord c = true) :
    continuesName c = true :=
  Text.of_ascii (P := fun c => Token.startsWord c = true → continuesName c = true)
    (Text.toNat_lt_of_startsWord h) (by decide +kernel) h

/-- The rest of a name, a gap and a parenthesis stand in front. -/
def opensCall (r : Text) : Bool :=
  (r.dropWhile continuesName).head?.any isSpaceOrTab &&
    ((r.dropWhile continuesName).dropWhile isSpaceOrTab).head? == some '('

theorem not_continuesName_of_isSpaceOrTab {c : Char} (h : isSpaceOrTab c = true) :
    continuesName c = false := by
  simp only [isSpaceOrTab, Bool.or_eq_true, beq_iff_eq] at h
  rcases h with rfl | rfl <;> rfl

theorem opensCall_of_continuesName {c : Char} (h : continuesName c = true) (r : Text) :
    opensCall (c :: r) = opensCall r := by
  rw [opensCall, opensCall, List.dropWhile_cons_of_pos h]

theorem opensCall_of_isSpaceOrTab {c : Char} (h : isSpaceOrTab c = true) (r : Text) :
    opensCall (c :: r) = ((r.dropWhile isSpaceOrTab).head? == some '(') := by
  rw [opensCall, List.dropWhile_cons_of_neg (by simp [not_continuesName_of_isSpaceOrTab h]),
    List.dropWhile_cons_of_pos h, List.head?_cons, Option.any_some, h, Bool.true_and]

theorem opensCall_of_other {c : Char} (hname : continuesName c = false)
    (hspace : isSpaceOrTab c = false) (r : Text) : opensCall (c :: r) = false := by
  rw [opensCall, List.dropWhile_cons_of_neg (by simp [hname]), List.head?_cons, Option.any_some, hspace,
    Bool.false_and]

theorem opensCall_append {w : Text} (hw : ∀ c ∈ w, continuesName c = true) (r : Text) :
    opensCall (w ++ r) = opensCall r := by
  rw [opensCall, opensCall, List.dropWhile_append_of_pos hw]

theorem exists_of_opensCall {r : Text} (h : opensCall r = true) :
    ∃ w gap rest, r = w ++ (gap ++ '(' :: rest) ∧ (∀ c ∈ w, continuesName c = true) ∧
      (∀ c ∈ gap, isSpaceOrTab c = true) ∧ gap ≠ [] := by
  rw [opensCall, Bool.and_eq_true, beq_iff_eq] at h
  obtain ⟨hgap, hparen⟩ := h
  obtain ⟨rest, hrest⟩ := List.head?_eq_some_iff.mp hparen
  refine ⟨r.takeWhile continuesName, (r.dropWhile continuesName).takeWhile isSpaceOrTab, rest, ?_,
    List.all_eq_true.mp List.all_takeWhile, List.all_eq_true.mp List.all_takeWhile, ?_⟩
  · rw [← hrest, List.takeWhile_append_dropWhile, List.takeWhile_append_dropWhile]
  · cases hbehind : r.dropWhile continuesName with
    | nil =>
        rw [hbehind] at hgap
        cases hgap
    | cons c s =>
        rw [hbehind, List.head?_cons, Option.any_some] at hgap
        rw [List.takeWhile_cons_of_pos hgap]
        exact List.cons_ne_nil _ _

section Callee

variable {c : Char} {w gap : Text} (start : Token.startsWord c = true)
  (hw : ∀ d ∈ w, continuesName d = true) (hgap : ∀ d ∈ gap, isSpaceOrTab d = true) (some : gap ≠ [])

include hw hgap some

theorem opensCall_gap (rest : Text) : opensCall (w ++ (gap ++ '(' :: rest)) = true := by
  rw [opensCall_append hw]
  cases gap with
  | nil => exact absurd rfl some
  | cons d gap =>
      obtain ⟨hd, behind⟩ := List.forall_mem_cons.mp hgap
      rw [List.cons_append, opensCall_of_isSpaceOrTab hd, List.dropWhile_append_of_pos behind]
      rfl

include start

theorem join_eq_some (passed rest : Text) : join passed (c :: (w ++ (gap ++ '(' :: rest))) =
    .some ⟨(c :: (w ++ (gap ++ ['(']))).length,
      if keywords.contains (c :: w) then c :: (w ++ (gap ++ ['('])) else c :: (w ++ ['('])⟩ := by
  have stop : ∀ d r, gap ++ '(' :: rest = d :: r → continuesName d = false := by
    intro d r hd
    cases gap with
    | nil => exact absurd rfl some
    | cons e gap =>
        obtain ⟨rfl, -⟩ := List.cons_eq_cons.mp hd
        exact not_continuesName_of_isSpaceOrTab (hgap e (List.mem_cons_self ..))
  have paren : ∀ d r, '(' :: rest = d :: r → isSpaceOrTab d = false := by
    rintro d r ⟨⟩
    rfl
  obtain ⟨e, es, hes⟩ := List.exists_cons_of_ne_nil some
  simp only [join, start, takeWhile_append_stop hw stop, dropWhile_append_stop hw stop,
    takeWhile_append_stop hgap paren, dropWhile_append_stop hgap paren]
  simp [hes]

end Callee

/-- The rule passes what opens no call. -/
theorem join_cons_eq_none_iff {passed : Text} {c : Char} {r : Text} :
    join passed (c :: r) = none ↔ (Token.startsWord c = true → opensCall r = false) := by
  constructor
  · intro none start
    refine eq_false_of_ne_true fun opens => ?_
    obtain ⟨w, gap, rest, rfl, hw, hgap, some⟩ := exists_of_opensCall opens
    rw [join_eq_some start hw hgap some] at none
    cases none
  · intro h
    rw [join]
    split
    · next start =>
        dsimp only
        split
        · next b bs s hb hs =>
            have first : (r.dropWhile continuesName).head? = some b := by
              rw [← List.takeWhile_append_dropWhile (p := isSpaceOrTab) (l := r.dropWhile continuesName), hb]
              rfl
            have blank : isSpaceOrTab b = true :=
              List.all_eq_true.mp List.all_takeWhile b (hb ▸ List.mem_cons_self ..)
            have opens := h start
            rw [opensCall, first, Option.any_some, blank, hs] at opens
            cases opens
        · rfl
    · rfl

/-- A name, a gap and a parenthesis. The gap stays behind a keyword and goes elsewhere. -/
inductive Called (passed : Text) : (found rest text : Text) → Prop where
  | intro {c : Char} {w gap rest : Text} : Token.startsWord c = true →
      (∀ d ∈ w, continuesName d = true) → (∀ d ∈ gap, isSpaceOrTab d = true) → gap ≠ [] →
      Called passed (c :: (w ++ (gap ++ ['(']))) rest
        (if keywords.contains (c :: w) then c :: (w ++ (gap ++ ['('])) else c :: (w ++ ['(']))

theorem finds_called : Rule.Finds join Called := by
  intro passed ahead m h
  cases ahead with
  | nil => cases h
  | cons c r =>
      by_cases opens : Token.startsWord c = true ∧ opensCall r = true
      · obtain ⟨w, gap, rest, rfl, hw, hgap, some⟩ := exists_of_opensCall opens.2
        rw [join_eq_some opens.1 hw hgap some] at h
        cases h
        exact ⟨c :: (w ++ (gap ++ ['('])), rest, by simp, rfl, List.cons_ne_nil _ _,
          .intro opens.1 hw hgap some⟩
      · rw [join_cons_eq_none_iff.mpr fun start => eq_false_of_ne_true fun call => opens ⟨start, call⟩] at h
        cases h

end Call

namespace Comma

theorem respace_eq_none_iff {passed ahead : Text} :
    respace passed ahead = none ↔ (ahead.dropWhile isSpaceOrTab).head? ≠ some ',' := by
  rw [respace]
  split
  · next r hr =>
      rw [hr]
      exact iff_of_false nofun fun h => h rfl
  · next other =>
      refine iff_of_true rfl fun first => ?_
      obtain ⟨r, hr⟩ := List.head?_eq_some_iff.mp first
      exact other r hr

theorem dropWhile_gap {gap : Text} (hgap : ∀ c ∈ gap, isSpaceOrTab c = true) (r : Text) :
    (gap ++ ',' :: r).dropWhile isSpaceOrTab = ',' :: r :=
  dropWhile_append_stop hgap fun _ _ h => (List.cons_eq_cons.mp h).1 ▸ rfl

theorem respace_eq_some {gap behind rest : Text} (hgap : ∀ c ∈ gap, isSpaceOrTab c = true)
    (hbehind : ∀ c ∈ behind, isSpaceOrTab c = true) (hrest : rest.head?.any isSpaceOrTab = false)
    (passed : Text) : respace passed (gap ++ ',' :: behind ++ rest) =
      some ⟨(gap ++ ',' :: behind).length, [',', ' ']⟩ := by
  have stop : ∀ c r, rest = c :: r → isSpaceOrTab c = false := by
    rintro c r rfl
    exact hrest
  have whole : gap ++ ',' :: behind ++ rest = gap ++ ',' :: (behind ++ rest) := by simp
  have before : (gap ++ ',' :: (behind ++ rest)).takeWhile isSpaceOrTab = gap :=
    takeWhile_append_stop hgap fun _ _ h => (List.cons_eq_cons.mp h).1 ▸ rfl
  simp only [respace, whole, before, dropWhile_gap hgap, takeWhile_append_stop hbehind stop]
  simp [Nat.add_assoc, Nat.add_comm 1]

theorem substituteFrom_listed {gap behind rest : Text} (hgap : ∀ c ∈ gap, isSpaceOrTab c = true)
    (hbehind : ∀ c ∈ behind, isSpaceOrTab c = true) (hrest : rest.head?.any isSpaceOrTab = false)
    (passed : Text) : substituteFrom respace passed 0 (gap ++ ',' :: behind ++ rest) =
      [',', ' '] ++ substituteFrom respace ((gap ++ ',' :: behind).reverse ++ passed) 0 rest :=
  substituteFrom_found (respace_eq_some hgap hbehind hrest passed) rfl (by simp)

/-- A comma with all of the gaps around it. -/
inductive Listed (passed : Text) : (found rest text : Text) → Prop where
  | intro {gap behind rest : Text} : (∀ c ∈ gap, isSpaceOrTab c = true) →
      (∀ c ∈ behind, isSpaceOrTab c = true) → rest.head?.any isSpaceOrTab = false →
      Listed passed (gap ++ ',' :: behind) rest [',', ' ']

theorem finds_listed : Rule.Finds respace Listed := by
  intro passed ahead m h
  by_cases first : (ahead.dropWhile isSpaceOrTab).head? = some ','
  · obtain ⟨r, hr⟩ := List.head?_eq_some_iff.mp first
    have hgap : ∀ c ∈ ahead.takeWhile isSpaceOrTab, isSpaceOrTab c = true :=
      List.all_eq_true.mp List.all_takeWhile
    have hbehind : ∀ c ∈ r.takeWhile isSpaceOrTab, isSpaceOrTab c = true :=
      List.all_eq_true.mp List.all_takeWhile
    have hrest := any_head?_dropWhile isSpaceOrTab r
    have whole : ahead = ahead.takeWhile isSpaceOrTab ++ ',' :: r.takeWhile isSpaceOrTab ++
        r.dropWhile isSpaceOrTab := by
      conv => lhs; rw [← List.takeWhile_append_dropWhile (p := isSpaceOrTab) (l := ahead), hr]
      rw [List.append_assoc, List.cons_append, List.takeWhile_append_dropWhile]
    have applied := respace_eq_some hgap hbehind hrest passed
    rw [← whole, h] at applied
    cases applied
    exact ⟨_, _, whole, rfl, by simp, .intro hgap hbehind hrest⟩
  · rw [respace_eq_none_iff.mpr first] at h
    cases h

end Comma
end MotionExpr
