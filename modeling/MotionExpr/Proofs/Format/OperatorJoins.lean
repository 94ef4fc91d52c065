import MotionExpr.Proofs.Format.GapRules
import MotionExpr.Proofs.Token.Joins

/-!
Spacing operators and the joins of tokens. The table of operators and the operators
of two characters that tokens know differ, so a space may part what the scan of
tokens joins; and a negation that loses its gap may join an equality sign. Both are
told from the code, and where neither happens no join changes.
-/

namespace MotionExpr

theorem Text.not_gap (c : Char) (h : isSpaceOrTab c = true) : (!isSpaceOrTab c) = false := by
  rw [h, Bool.not_true]

namespace Operator

open Text Token

section Filter

variable {q : Char → Bool} (hq : ∀ c, isSpaceOrTab c = true → q c = false)

include hq

theorem filter_placed {gap behind : Text} (hgap : ∀ c ∈ gap, isSpaceOrTab c = true)
    (hbehind : ∀ c ∈ behind, isSpaceOrTab c = true) (passed op : Text) (bare : Bool) :
    (placed passed op bare).filter q = (gap ++ (op ++ behind)).filter q := by
  obtain ⟨front, back, heq, hfront, hback, -⟩ := placed_eq_append passed op bare
  have none {gap : Text} (h : ∀ c ∈ gap, isSpaceOrTab c = true) : gap.filter q = [] :=
    filter_eq_nil_of_all hq h
  simp only [heq, List.filter_append, none hgap, none hbehind,
    none (isSpaceOrTab_of_atMostOne hfront), none (isSpaceOrTab_of_atMostOne hback)]

theorem filter_respace (t : Text) : (substitute respace t).filter q = t.filter q := by
  refine finds_respace.filter ?_ [] t
  intro passed found rest text h
  obtain ⟨bare, hgap, hbehind, -⟩ := h
  exact filter_placed hq hgap hbehind ..

theorem filter_squeeze (t : Text) : (substitute squeeze t).filter q = t.filter q := by
  refine finds_squeeze.filter ?_ [] t
  rintro passed found rest _ ⟨-, spaces⟩
  have blank : ∀ c ∈ found, isSpaceOrTab c = true := fun c hc => spaces c hc ▸ rfl
  rw [filter_eq_nil_of_all hq blank, List.filter_singleton, hq ' ' rfl]
  rfl

theorem filter_negation (t : Text) : (substitute negation t).filter q = t.filter q := by
  refine finds_negation.filter ?_ [] t
  rintro passed _ rest _ ⟨-, hgap, -⟩
  rw [List.filter_cons, List.filter_cons, filter_eq_nil_of_all hq hgap]
  rfl

theorem filter_space (t : Text) : (space t).filter q = t.filter q := by
  rw [space, filter_negation hq, filter_squeeze hq, filter_respace hq]

end Filter

/-! Spaces that are squeezed, and gaps behind negations. -/

theorem joins_squeeze (q : Reach) (t : Text) : joins q (substitute squeeze t) = joins q t := by
  rw [substitute]
  generalize [] = passed
  induction passed, t using finds_squeeze.induction generalizing q with
  | nil passed => rfl
  | pass passed c r _ ih => rw [joins, joins, ih, ih]
  | found passed found rest text h ih =>
      obtain ⟨nonempty, spaces⟩ := h
      have blank : ∀ c ∈ found, Text.isBlank c = true := fun c hc => spaces c hc ▸ rfl
      rw [joins_blanks blank, if_neg nonempty, List.singleton_append, joins_blank rfl, ih]

/-- How many negations stand in front of text of a kind. -/
def negations (kind : Text → Bool) : Text → Nat
  | [] => 0
  | c :: r => (if c = '!' ∧ kind r = true then 1 else 0) + negations kind r

theorem negations_cons {kind : Text → Bool} {c : Char} {r : Text} (h : c = '!' → kind r = false) :
    negations kind (c :: r) = negations kind r := by
  rw [negations, if_neg, Nat.zero_add]
  rintro ⟨negated, found⟩
  rw [h negated] at found
  cases found

theorem negations_blanks (kind : Text → Bool) {gap : Text} (h : ∀ c ∈ gap, isSpaceOrTab c = true)
    (r : Text) : negations kind (gap ++ r) = negations kind r := by
  induction gap with
  | nil => rfl
  | cons c gap ih =>
      obtain ⟨hc, h⟩ := List.forall_mem_cons.mp h
      rw [List.cons_append, negations_cons, ih h]
      rintro rfl
      cases hc

/-- An equality sign comes next. -/
def facesEquality (r : Text) : Bool := r.head? == some '='

/-- A gap and then an equality sign come next. -/
def facesGap (r : Text) : Bool := !facesEquality r && facesEquality (r.dropWhile isSpaceOrTab)

theorem facesGap_of_stop {r : Text} (h : ∀ d ∈ r.head?, isSpaceOrTab d = false) :
    facesGap r = false := by
  cases r with
  | nil => rfl
  | cons d s =>
      rw [facesGap, List.dropWhile_cons_of_neg (Bool.eq_false_iff.mp (h d rfl)), Bool.not_and_self]

theorem facesGap_append {gap r : Text} (hgap : gap ≠ []) (h : ∀ c ∈ gap, isSpaceOrTab c = true)
    (hr : ∀ c ∈ r.head?, isSpaceOrTab c = false) : facesGap (gap ++ r) = facesEquality r := by
  have behind : (gap ++ r).dropWhile isSpaceOrTab = r :=
    dropWhile_append_stop h fun c s hs => hr c (by rw [hs]; rfl)
  have apart : facesEquality (gap ++ r) = false := by
    obtain ⟨c, gap, rfl⟩ := List.exists_cons_of_ne_nil hgap
    refine beq_eq_false_iff_ne.mpr fun first => ?_
    obtain rfl : c = '=' := Option.some.inj first
    cases h '=' (List.mem_cons_self ..)
  rw [facesGap, behind, apart]
  rfl

/-- How many negations have a gap and an equality sign behind them. -/
def openNegations (code : Text) : Nat := negations facesGap code

/-- How many negations have an equality sign directly behind them. -/
def inequalities (code : Text) : Nat := negations facesEquality code

theorem takes_negation (q : Reach) : q.takes '!' = false := by
  cases q with
  | nothing => rfl
  | number | word => decide
  | symbol c =>
      have checked : (Language.pairOperators.all (!·.tail.contains '!')) = true := by decide
      refine eq_false_of_ne_true fun taken => ?_
      simpa using List.all_eq_true.mp checked _ (Reach.of_takes_symbol taken)

theorem after_negation (q : Reach) : q.after '!' = .symbol '!' :=
  Reach.after_of_not_takes (takes_negation q)

theorem takes_behind_negation {d : Char} : (Reach.symbol '!').takes d = true ↔ d = '=' := by
  have checked : (Language.pairOperators.all fun op => op.head? != some '!' || op == ['!', '=']) =
      true := by decide
  constructor
  · intro taken
    simpa using List.all_eq_true.mp checked _ (Reach.of_takes_symbol taken)
  · rintro rfl
    decide

theorem Tightened.head? {passed found rest text : Text} (h : Tightened passed found rest text) :
    text ≠ [] ∧ text.head? = (found ++ rest).head? := by
  obtain ⟨-, -, -⟩ := h
  exact ⟨List.cons_ne_nil _ _, rfl⟩

theorem Squeezed.head? {passed found rest text : Text} (h : Squeezed passed found rest text) :
    text ≠ [] ∧ text.head? = (found ++ rest).head? := by
  obtain ⟨nonempty, spaces⟩ := h
  obtain ⟨c, run, rfl⟩ := List.exists_cons_of_ne_nil nonempty
  exact ⟨List.cons_ne_nil _ _, congrArg some (spaces c (List.mem_cons_self ..)).symm⟩

theorem head?_negation (passed t : Text) :
    (substituteFrom negation passed 0 t).head? = t.head? :=
  finds_negation.head? (fun _ _ _ _ => Tightened.head?) passed t

theorem head?_squeeze (passed t : Text) : (substituteFrom squeeze passed 0 t).head? = t.head? :=
  finds_squeeze.head? (fun _ _ _ _ => Squeezed.head?) passed t

theorem joins_negation {q : Reach} {t : Text} (h : openNegations t = 0) :
    joins q (substitute negation t) = joins q t := by
  rw [substitute]
  generalize [] = passed
  induction passed, t using finds_negation.induction generalizing q with
  | nil passed => rfl
  | pass passed c r _ ih =>
      have rest : openNegations r = 0 := (Nat.add_eq_zero_iff.mp h).2
      rw [joins, joins, ih rest, ih rest]
  | found passed found rest text hf ih =>
      obtain ⟨nonempty, blank, stop⟩ := hf
      rw [openNegations, List.cons_append, negations, facesGap_append nonempty blank stop,
        negations_blanks facesGap blank] at h
      obtain ⟨first, others⟩ := Nat.add_eq_zero_iff.mp h
      have apart : ∀ d ∈ rest.head?, (Reach.symbol '!').takes d = false := by
        intro d hd
        refine eq_false_of_ne_true fun taken => ?_
        have equality : facesEquality rest = true :=
          beq_iff_eq.mpr (takes_behind_negation.mp taken ▸ hd)
        rw [if_pos ⟨rfl, equality⟩] at first
        cases first
      have shows : Text.isBlank '!' = false := by decide
      rw [List.singleton_append, List.cons_append, joins_ink shows, joins_ink shows, after_negation,
        joins_blanks (fun c hc => isBlank_of_isSpaceOrTab (blank c hc)), if_neg nonempty, ih others,
        joins_of_head apart]

theorem openNegations_negation (t : Text) : openNegations (substitute negation t) = 0 := by
  rw [openNegations, substitute]
  generalize [] = passed
  induction passed, t using finds_negation.induction with
  | nil passed => rfl
  | pass passed c r hc ih =>
      rw [negations_cons, ih]
      rintro rfl
      refine facesGap_of_stop fun d hd => ?_
      rw [head?_negation] at hd
      refine eq_false_of_ne_true fun blank => ?_
      obtain ⟨s, rfl⟩ := List.head?_eq_some_iff.mp hd
      simp [negation, blank] at hc
  | found passed found rest text hf ih =>
      obtain ⟨-, -, stop⟩ := hf
      rw [List.singleton_append, negations_cons, ih]
      exact fun _ => facesGap_of_stop fun d hd => stop d (by rwa [head?_negation] at hd)

/-! Inequalities. -/

theorem inequalities_append {a : Text} (h : a.getLast? ≠ some '!') (b : Text) :
    inequalities (a ++ b) = inequalities a + inequalities b := by
  induction a with
  | nil => exact (Nat.zero_add _).symm
  | cons c a ih =>
      cases a with
      | nil =>
          have other : c ≠ '!' := by simpa using h
          have none (r : Text) : inequalities (c :: r) = inequalities r :=
            negations_cons fun negated => absurd negated other
          rw [List.singleton_append, none, none]
          exact (Nat.zero_add _).symm
      | cons d a =>
          rw [List.getLast?_cons_cons] at h
          have first : inequalities (c :: d :: (a ++ b)) =
              (if c = '!' ∧ facesEquality (d :: a) = true then 1 else 0) +
                inequalities (d :: a ++ b) := rfl
          rw [List.cons_append, List.cons_append, first, ih h, ← Nat.add_assoc]
          rfl

theorem facesEquality_filter (r : Text) :
    facesEquality (r.filter (!isSpaceOrTab ·)) = facesEquality (r.dropWhile isSpaceOrTab) := by
  induction r with
  | nil => rfl
  | cons c r ih =>
      cases hc : isSpaceOrTab c with
      | true => rw [List.filter_cons_of_neg (by simp [hc]), List.dropWhile_cons_of_pos hc, ih]
      | false =>
          rw [List.filter_cons_of_pos (by simp [hc]),
            List.dropWhile_cons_of_neg (Bool.eq_false_iff.mp hc)]
          rfl

/-- Without gaps there are as many inequalities as there are negations in front of an equality
sign, with a gap or without. -/
theorem inequalities_filter (t : Text) :
    inequalities (t.filter (!isSpaceOrTab ·)) = inequalities t + openNegations t := by
  simp only [inequalities, openNegations]
  induction t with
  | nil => rfl
  | cons c r ih =>
      cases hc : isSpaceOrTab c with
      | true =>
          have other : c ≠ '!' := by
            rintro rfl
            cases hc
          rw [List.filter_cons_of_neg (by simp [hc]), ih, negations_cons fun e => absurd e other,
            negations_cons fun e => absurd e other]
      | false =>
          have sooner (h : facesEquality r = true) : facesEquality (r.dropWhile isSpaceOrTab) = true := by
            obtain ⟨s, rfl⟩ := List.head?_eq_some_iff.mp (beq_iff_eq.mp h)
            rfl
          rw [List.filter_cons_of_pos (by simp [hc]), negations, facesEquality_filter, ih, negations,
            negations, facesGap]
          cases direct : facesEquality r with
          | true => simp [sooner direct, Nat.add_assoc]
          | false => simp [Nat.add_left_comm]

/-- Inequalities are joins. -/
def joinedNegations : List (Char × Bool) → Nat
  | [] => 0
  | x :: xs => (if x.1 = '!' ∧ xs.head? = some ('=', true) then 1 else 0) + joinedNegations xs

theorem joinedNegations_joins (q : Reach) (t : Text) :
    joinedNegations (joins q t) = inequalities t := by
  rw [inequalities]
  induction t generalizing q with
  | nil => rfl
  | cons c r ih =>
      cases hc : Text.isBlank c with
      | true =>
          have other : c ≠ '!' := by
            rintro rfl
            cases hc
          rw [joins_blank hc, ih, negations_cons fun e => absurd e other]
      | false =>
          have same : (c = '!' ∧ (joins (q.after c) r).head? = some ('=', true)) ↔
              (c = '!' ∧ facesEquality r = true) := by
            refine and_congr_right ?_
            rintro rfl
            rw [head?_joins, after_negation, facesEquality, beq_iff_eq]
            exact and_iff_left (takes_behind_negation.mpr rfl)
          rw [joins_ink hc, joinedNegations, ih, negations]
          simp only [same]

theorem inequalities_eq_of_joins {t u : Text} (h : joins .nothing t = joins .nothing u) :
    inequalities t = inequalities u := by
  rw [← joinedNegations_joins .nothing, h, joinedNegations_joins]

/-! Operators from left to right. -/

/-- The operators of code, each with the code behind it. -/
def readingsFrom : (skip : Nat) → Text → List (Text × Text)
  | _, [] => []
  | skip + 1, _ :: r => readingsFrom skip r
  | 0, c :: r =>
      match operator? (c :: r) with
      | some op => (op, (c :: r).drop op.length) :: readingsFrom (op.length - 1) r
      | none => readingsFrom 0 r

def readings (code : Text) : List (Text × Text) := readingsFrom 0 code

theorem readingsFrom_skip (n : Nat) (t : Text) : readingsFrom n t = readings (t.drop n) := by
  induction t generalizing n with
  | nil => cases n <;> rfl
  | cons c r ih =>
      cases n with
      | zero => rfl
      | succ n => exact ih n

theorem readings_of_none {c : Char} {r : Text} (h : operator? (c :: r) = none) :
    readings (c :: r) = readings r := by
  simp only [readings, readingsFrom, h]

theorem readings_of_some {op rest : Text} (h : operator? (op ++ rest) = some op) :
    readings (op ++ rest) = (op, rest) :: readings rest := by
  obtain ⟨c, w, rfl, -, -⟩ := of_mem_all (of_operator? h).1
  rw [List.cons_append] at h
  simp only [List.cons_append, readings, readingsFrom, h, List.length_cons, Nat.add_sub_cancel,
    List.drop_succ_cons, List.drop_left]
  rw [readingsFrom_skip, List.drop_left]
  rfl

theorem operator?_append_ne_none {op : Text} (hop : op ∈ all) (r : Text) :
    operator? (op ++ r) ≠ none := fun none =>
  List.find?_eq_none.mp none op hop (List.isPrefixOf_iff_prefix.mpr (List.prefix_append op r))

theorem operator?_ne_none {c : Char} (h : isOperatorChar c = true) (r : Text) :
    operator? (c :: r) ≠ none := by
  have checked : ("+-*/%=<>&|^".toList.all fun c => all.contains [c]) = true := by decide
  have member : [c] ∈ all := List.contains_iff_mem.mp
    (List.all_eq_true.mp checked c (List.contains_iff_mem.mp h))
  exact operator?_append_ne_none member r

theorem operator?_inequality (r : Text) : operator? ('!' :: '=' :: r) ≠ none := by
  have member : "!=".toList ∈ all := by decide
  exact operator?_append_ne_none member r

theorem operator?_of_isSpaceOrTab {c : Char} (h : isSpaceOrTab c = true) (r : Text) :
    operator? (c :: r) = none := by
  have notOperator : isOperatorChar c = false := by
    simp only [isSpaceOrTab, Bool.or_eq_true, beq_iff_eq] at h
    rcases h with rfl | rfl <;> decide
  refine operator?_eq_none notOperator fun negated => ?_
  rw [negated] at h
  cases h

theorem readings_blanks {gap : Text} (h : ∀ c ∈ gap, isSpaceOrTab c = true) (r : Text) :
    readings (gap ++ r) = readings r := by
  induction gap with
  | nil => rfl
  | cons c gap ih =>
      obtain ⟨hc, h⟩ := List.forall_mem_cons.mp h
      rw [List.cons_append, readings_of_none (operator?_of_isSpaceOrTab hc _), ih h]

theorem operator?_of_respace_none {passed r : Text} {c : Char} (h : respace passed (c :: r) = none) :
    operator? (c :: r) = none := by
  cases hc : isSpaceOrTab c with
  | true => exact operator?_of_isSpaceOrTab hc r
  | false =>
      have none := respace_eq_none_iff.mp h
      rwa [List.dropWhile_cons_of_neg (Bool.eq_false_iff.mp hc)] at none

/-- Operators whose last character makes an operator of two characters with an equality sign,
though they do not make a longer one with it themselves. -/
def exposed : List Text := ["===", "!==", "=>", "%=", "&=", "|=", "^="].map String.toList

/-- Each operator is apart from what is behind it, or the scan of tokens takes it so. -/
def Fits (code : Text) : Prop := ∀ x ∈ readings code, x.1 ∈ exposed → x.2.head? ≠ some '='

/-- The second characters of the operators that tokens know. -/
def seconds : Text := "=&|+-".toList

theorem mem_seconds_of_takes_symbol {c d : Char} (h : (Reach.symbol c).takes d = true) : d ∈ seconds := by
  have checked : (Language.pairOperators.all fun op => op.tail.all seconds.contains) = true := by decide
  simpa using List.all_eq_true.mp checked _ (Reach.of_takes_symbol h)

theorem mem_seconds_of_takes {op : Text} (hop : op ∈ all) {d : Char}
    (h : (op.foldl Reach.after .nothing).takes d = true) : d ∈ seconds := by
  have checked : (all.all fun op => match op.foldl Reach.after .nothing with
      | .nothing | .symbol _ => true
      | _ => false) = true := by decide +kernel
  have here := List.all_eq_true.mp checked op hop
  generalize op.foldl Reach.after .nothing = q at h here
  cases q with
  | nothing => cases h
  | symbol c => exact mem_seconds_of_takes_symbol h
  | number | word => cases here

instance (code : Text) : Decidable (Fits code) :=
  inferInstanceAs (Decidable (∀ x ∈ readings code, x.1 ∈ exposed → x.2.head? ≠ some '='))

theorem takes_behind_iff {op : Text} (hop : op ∈ all) {d : Char} (munch : op ++ [d] ∉ all) :
    (op.foldl Reach.after .nothing).takes d = true ↔ op ∈ exposed ∧ d = '=' := by
  have checked : (all.all fun op => seconds.all fun d => all.contains (op ++ [d]) ||
      (op.foldl Reach.after .nothing).takes d == (exposed.contains op && d == '=')) = true := by
    decide +kernel
  have here (hd : d ∈ seconds) : (op.foldl Reach.after .nothing).takes d =
      (exposed.contains op && d == '=') := by
    simpa [munch] using List.all_eq_true.mp (List.all_eq_true.mp checked op hop) d hd
  constructor
  · intro taken
    rw [here (mem_seconds_of_takes hop taken)] at taken
    simpa using taken
  · rintro ⟨member, rfl⟩
    rw [here (by decide)]
    simpa using member

/-! What is taken in front of an operator. -/

/-- Of the characters of operators nothing but an equality sign is taken, and not where the
code begins with one. -/
def Calm (q : Reach) (t : Text) : Prop :=
  ∀ d, isOperatorChar d = true → q.takes d = true → d = '=' ∧ t.head? ≠ some '='

theorem calm_nothing (t : Text) : Calm .nothing t := nofun

theorem of_isOperatorChar {q : Char → Bool} (h : "+-*/%=<>&|^".toList.all q = true) {c : Char}
    (hc : isOperatorChar c = true) : q c = true :=
  List.all_eq_true.mp h c (List.contains_iff_mem.mp hc)

theorem not_takes_operator {q : Reach} (h : q = .number ∨ q = .word) {d : Char}
    (hd : isOperatorChar d = true) : q.takes d = false := by
  have here := of_isOperatorChar (q := fun d => !continuesNumber d && !continuesWord d) (by decide) hd
  rw [Bool.and_eq_true, Bool.not_eq_true', Bool.not_eq_true'] at here
  rcases h with rfl | rfl
  · exact here.1
  · exact here.2

theorem eq_of_after_symbol {q : Reach} {c e : Char} (h : q.after c = .symbol e) : e = c := by
  cases taken : q.takes c with
  | true => cases q <;> simp [Reach.after, taken] at h
  | false =>
      rw [Reach.after_of_not_takes taken, Reach.start] at h
      split at h
      · cases h
      · split at h
        · cases h
        · split at h
          · cases h
          · exact (Reach.symbol.inj h).symm

/-- Where no operator begins, no operator behind is taken. -/
theorem calm_after {q : Reach} {c : Char} {r : Text} (h : operator? (c :: r) = none) :
    Calm (q.after c) r := by
  intro d hd taken
  generalize hs : q.after c = s at taken
  cases s with
  | nothing => cases taken
  | number =>
      rw [not_takes_operator (.inl rfl) hd] at taken
      cases taken
  | word =>
      rw [not_takes_operator (.inr rfl) hd] at taken
      cases taken
  | symbol e =>
      obtain rfl := eq_of_after_symbol hs
      have checked : (Language.pairOperators.all fun op => op.head?.any isOperatorChar ||
          op == ['!', '=']) = true := by decide
      have here := List.all_eq_true.mp checked _ (Reach.of_takes_symbol taken)
      simp only [List.head?_cons, Option.any_some, Bool.or_eq_true, beq_iff_eq, List.cons.injEq,
        and_true] at here
      rcases here with first | ⟨rfl, rfl⟩
      · exact absurd h (operator?_ne_none first r)
      · refine ⟨rfl, fun behind => ?_⟩
        obtain ⟨s, rfl⟩ := List.head?_eq_some_iff.mp behind
        exact operator?_inequality s h

theorem joins_calm {q : Reach} {op r : Text} (hop : op ∈ all) (calm : Calm q (op ++ r)) :
    joins q (op ++ r) = joins .nothing (op ++ r) := by
  obtain ⟨c, w, rfl, -, first⟩ := of_mem_all hop
  refine joins_of_head fun d hd => eq_false_of_ne_true fun taken => ?_
  obtain rfl : c = d := Option.some.inj hd
  rcases first with operator | ⟨rfl, -⟩
  · obtain ⟨rfl, apart⟩ := calm c operator taken
    exact apart rfl
  · rw [takes_negation] at taken
    cases taken

/-- What is put in place of an operator begins a token of its own. -/
theorem joins_placed {q : Reach} {t : Text} (calm : Calm q t) {front op r : Text}
    (hfront : front = [] ∨ front = [' '])
    (bare : isSign op = true ∨ isUpdate op = true ∨ front = [' ']) :
    joins q (front ++ (op ++ r)) = joins .nothing (op ++ r) := by
  rcases hfront with rfl | rfl
  · have sign : ∃ c w, op = c :: w ∧ isOperatorChar c = true ∧ c ≠ '=' := by
      simp only [isSign, isUpdate, Bool.or_eq_true, beq_iff_eq] at bare
      rcases bare with (rfl | rfl) | (rfl | rfl) | none
      · exact ⟨'+', [], rfl, by decide⟩
      · exact ⟨'-', [], rfl, by decide⟩
      · exact ⟨'+', ['+'], rfl, by decide⟩
      · exact ⟨'-', ['-'], rfl, by decide⟩
      · cases none
    obtain ⟨c, w, rfl, operator, other⟩ := sign
    refine joins_of_head fun d hd => eq_false_of_ne_true fun taken => ?_
    obtain rfl : c = d := Option.some.inj hd
    exact other (calm c operator taken).1
  · exact joins_blank rfl q (op ++ r)

/-- Behind an operator the next one is put behind a space. -/
theorem placed_behind_operator {op : Text} (hop : op ∈ all) {behind : Text}
    (hbehind : ∀ c ∈ behind, isSpaceOrTab c = true) (prior next : Text) (bare : Bool) :
    ∃ u, placed (behind ++ (op.reverse ++ prior)) next bare = ' ' :: u := by
  obtain ⟨c, r, hc, closes, shows, other, tight⟩ := last_of_mem_all hop
  have operand : Operand.isBehind (behind ++ (op.reverse ++ prior)) = false := by
    rw [Operand.isBehind_blanks hbehind, hc, List.cons_append, Operand.isBehind_cons shows other,
      closes]
  have space : lead (behind ++ (op.reverse ++ prior)) = [' '] := by
    have passed : lead (behind ++ (op.reverse ++ prior)) = lead (op.reverse ++ prior) := by
      rw [lead, lead, List.dropWhile_append_of_pos fun d hd => isBlank_of_isSpaceOrTab (hbehind d hd)]
    rw [passed, hc, List.cons_append, lead_cons shows, if_neg (Bool.eq_false_iff.mp tight)]
  have exponent : behindExponentMark (behind ++ (op.reverse ++ prior)) = false := by
    cases behind with
    | nil =>
        rw [hc]
        refine behindExponentMark_eq_false ?_ other
        rintro rfl
        cases shows
    | cons d behind =>
        have hd := hbehind d (List.mem_cons_self ..)
        refine behindExponentMark_eq_false ?_ (isWordPart_of_isBlank (isBlank_of_isSpaceOrTab hd))
        rintro rfl
        cases hd
  rw [placed, operand, space, exponent]
  cases isUpdate next <;> cases isSign next <;> simp

theorem head?_behind_operator {op : Text} (hop : op ∈ all) {behind : Text}
    (hbehind : ∀ c ∈ behind, isSpaceOrTab c = true) (prior rest : Text) :
    ∀ d ∈ (substituteFrom respace (behind ++ (op.reverse ++ prior)) 0 rest).head?,
      isOperatorChar d = false := by
  cases rest with
  | nil => exact nofun
  | cons c r =>
      cases hm : respace (behind ++ (op.reverse ++ prior)) (c :: r) with
      | none =>
          rw [substituteFrom_of_none hm]
          rintro d ⟨⟩
          exact eq_false_of_ne_true fun operator =>
            operator?_ne_none operator r (operator?_of_respace_none hm)
      | some m =>
          obtain ⟨found, rest, -, -, -, put⟩ := finds_respace _ _ _ hm
          obtain ⟨u, hu⟩ : ∃ u, m.text = ' ' :: u := by
            generalize m.text = text at put
            cases put with
            | intro bare _ _ _ => exact placed_behind_operator hop hbehind prior _ bare
          rw [substituteFrom_of_some hm, hu]
          rintro d ⟨⟩
          rfl

/-! Operators with spaces around them. -/

/-- In the code an operator is a token's beginning, and what it takes behind it decides. -/
theorem joins_of_operator {q : Reach} {gap op r : Text} (hgap : ∀ c ∈ gap, isSpaceOrTab c = true)
    (hop : op ∈ all) (calm : Calm q (gap ++ (op ++ r))) :
    joins q (gap ++ (op ++ r)) = joins .nothing op ++ joins (op.foldl Reach.after .nothing) r := by
  rw [← joins_append, joins_blanks fun c hc => isBlank_of_isSpaceOrTab (hgap c hc)]
  split
  · next none =>
      rw [none] at calm
      exact joins_calm hop calm
  · rfl

/-- In the result nothing joins an operator. -/
theorem joins_of_placed {q : Reach} {t : Text} (calm : Calm q t) {passed op out : Text} {bare : Bool}
    (hop : op ∈ all) (hout : ∀ d ∈ out.head?, isOperatorChar d = false) :
    joins q (placed passed op bare ++ out) = joins .nothing op ++ joins .nothing out := by
  obtain ⟨front, back, heq, hfront, hback, outside⟩ := placed_eq_append passed op bare
  have bareFront := outside.imp And.left (Or.imp_right And.left)
  rw [heq, List.append_assoc, List.append_assoc, joins_placed calm hfront bareFront, joins_append]
  congr 1
  rcases hback with rfl | rfl
  · refine joins_of_head fun d hd => eq_false_of_ne_true fun taken => ?_
    have operator : isOperatorChar d = true := by
      have checked : seconds.all isOperatorChar = true := by decide
      exact List.all_eq_true.mp checked d (mem_seconds_of_takes hop taken)
    rw [hout d hd] at operator
    cases operator
  · exact joins_blank rfl _ out

/-- Where the longest operator is read, what it takes behind it is an equality sign. -/
theorem joins_behind_iff {op behind rest : Text} (hop : operator? (op ++ (behind ++ rest)) = some op)
    (hbehind : ∀ c ∈ behind, isSpaceOrTab c = true) (out : Text)  :
    joins .nothing out = joins (op.foldl Reach.after .nothing) (behind ++ rest) ↔
      (op ∈ exposed → (behind ++ rest).head? ≠ some '=') ∧ joins .nothing out = joins .nothing rest := by
  have member := (of_operator? hop).1
  have takes {d : Char} (hd : (behind ++ rest).head? = some d) :
      (op.foldl Reach.after .nothing).takes d = true ↔ op ∈ exposed ∧ d = '=' :=
    takes_behind_iff member (extend_not_mem_of_operator? hop hd)
  have blank : joins .nothing (behind ++ rest) = joins .nothing rest := by
    rw [joins_blanks fun c hc => isBlank_of_isSpaceOrTab (hbehind c hc)]
    exact ite_self _
  by_cases clash : op ∈ exposed ∧ (behind ++ rest).head? = some '='
  · refine iff_of_false (fun same => ?_) fun h => h.1 clash.1 clash.2
    have joined := (head?_joins (op.foldl Reach.after .nothing) (behind ++ rest) '=').mpr
      ⟨clash.2, (takes clash.2).mpr ⟨clash.1, rfl⟩⟩
    rw [← same] at joined
    cases not_joined_head out _ joined
  · have apart : ∀ d ∈ (behind ++ rest).head?, (op.foldl Reach.after .nothing).takes d = false := by
      intro d hd
      refine eq_false_of_ne_true fun taken => clash ?_
      obtain ⟨here, rfl⟩ := (takes hd).mp taken
      exact ⟨here, hd⟩
    rw [joins_of_head apart, blank]
    exact (and_iff_right fun here behind => clash ⟨here, behind⟩).symm

/-- Spaces around operators part no tokens just if no exposed operator stands in front of an
equality sign. -/
theorem joins_respace_iff (passed t : Text) {q : Reach} (calm : Calm q t) :
    joins q (substituteFrom respace passed 0 t) = joins q t ↔ Fits t := by
  induction passed, t using finds_respace.induction generalizing q with
  | nil passed => exact iff_of_true rfl nofun
  | pass passed c r hc ih =>
      have none := operator?_of_respace_none hc
      rw [Fits, readings_of_none none]
      cases blank : Text.isBlank c with
      | true =>
          rw [joins_blank blank, joins_blank blank]
          exact ih (calm_nothing r)
      | false =>
          rw [joins_ink blank, joins_ink blank, List.cons_inj_right]
          exact ih (calm_after none)
  | found passed found rest text h ih =>
      cases h with
      | @intro gap op behind _ bare hgap hbehind hop _ =>
          have member := (of_operator? hop).1
          have prior : (gap ++ (op ++ behind)).reverse ++ passed =
              behind.reverse ++ (op.reverse ++ (gap.reverse ++ passed)) := by simp
          have whole : gap ++ (op ++ behind) ++ rest = gap ++ (op ++ (behind ++ rest)) := by simp
          rw [whole] at calm ⊢
          rw [prior] at ih ⊢
          have untaken := head?_behind_operator member (fun c hc => hbehind c (List.mem_reverse.mp hc))
            (gap.reverse ++ passed) rest
          rw [joins_of_placed calm member untaken, joins_of_operator hgap member calm,
            List.append_cancel_left_eq, joins_behind_iff hop hbehind, ih (calm_nothing rest), Fits, Fits,
            readings_blanks hgap, readings_of_some hop, readings_blanks hbehind, List.forall_mem_cons]

/-- An inequality is an operator, and so it stays one. -/
theorem inequalities_respace (t : Text) : inequalities t ≤ inequalities (substitute respace t) := by
  have blanks {gap : Text} (h : ∀ c ∈ gap, isSpaceOrTab c = true) (r : Text) :
      inequalities (gap ++ r) = inequalities r := negations_blanks facesEquality h r
  rw [substitute]
  generalize [] = passed
  induction passed, t using finds_respace.induction with
  | nil passed => exact Nat.le_refl 0
  | pass passed c r hc ih =>
      have none := operator?_of_respace_none hc
      refine Nat.le_trans ?_ (Nat.le_trans ih (Nat.le_add_left _ _))
      refine Nat.le_of_eq (negations_cons ?_)
      rintro rfl
      refine eq_false_of_ne_true fun behind => ?_
      obtain ⟨s, rfl⟩ := List.head?_eq_some_iff.mp (beq_iff_eq.mp behind)
      exact operator?_inequality s none
  | found passed found rest text h ih =>
      cases h with
      | @intro gap op behind _ bare hgap hbehind hop _ =>
          have last : op.getLast? ≠ some '!' := by
            have checked : (all.all fun op => op.getLast? != some '!') = true := by decide
            simpa using List.all_eq_true.mp checked op (of_operator? hop).1
          obtain ⟨front, back, heq, hfront, hback, -⟩ := placed_eq_append passed op bare
          rw [heq]
          simp only [List.append_assoc, blanks hgap, blanks hbehind, inequalities_append last,
            blanks (isSpaceOrTab_of_atMostOne hfront), blanks (isSpaceOrTab_of_atMostOne hback)]
          exact Nat.add_le_add_left ih _

/-- Spacing operators changes no join just if it closes the gap of no negation in front of an
equality sign and opens none behind an exposed operator. -/
theorem joins_space_iff (t : Text) :
    joins .nothing (space t) = joins .nothing t ↔ openNegations t = 0 ∧ Fits t := by
  have count {a : Text} (h : a.filter (!isSpaceOrTab ·) = t.filter (!isSpaceOrTab ·)) :
      inequalities a + openNegations a = inequalities t + openNegations t := by
    rw [← inequalities_filter, h, inequalities_filter]
  have spaced := joins_respace_iff [] t (calm_nothing t)
  have squeezed := joins_squeeze .nothing (substitute respace t)
  have countSqueezed := count (a := substitute squeeze (substitute respace t))
    (by rw [filter_squeeze not_gap, filter_respace not_gap])
  constructor
  · intro same
    have closed : openNegations (space t) = 0 := openNegations_negation _
    have countSpaced := count (filter_space not_gap t)
    have inequal := inequalities_eq_of_joins same
    have grown := inequalities_respace t
    rw [← inequalities_eq_of_joins squeezed] at grown
    have none : openNegations t = 0 := by omega
    refine ⟨none, spaced.mp ?_⟩
    have later : openNegations (substitute squeeze (substitute respace t)) = 0 := by omega
    exact (squeezed.symm.trans (joins_negation later).symm).trans same
  · rintro ⟨none, fits⟩
    have same := squeezed.trans (spaced.mpr fits)
    have inequal := inequalities_eq_of_joins same
    exact (joins_negation (by omega)).trans same

end Operator
end MotionExpr
