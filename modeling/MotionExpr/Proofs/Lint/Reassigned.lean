import MotionExpr.Proofs.Lint.Anchors

/-!
What the rule on constants calls reassigned. It looks for a name with an equals sign behind
it, and both have to be followed by something. A declared name is reported just where the
text holds no two of these; other ways to write a variable do not count.
-/

namespace MotionExpr

open Token

variable {name : Text} {ts : List Token} {i : Nat}

/-- The identifier `name` stands at place `i`, and an equals sign behind it. -/
def AssignsAt (name : Text) (ts : List Token) (i : Nat) : Prop :=
  ∃ t u, ts[i]? = some t ∧ ts[i + 1]? = some u ∧
    t.isIdentifier = true ∧ t.text = name ∧ u.text = ['=']

theorem lt_length_of_assignsAt (h : AssignsAt name ts i) : i + 1 < ts.length := by
  obtain ⟨-, u, -, hu, -⟩ := h
  exact (List.getElem?_eq_some_iff.mp hu).1

/-- The places that count are taken one by one. -/
theorem assignmentCount_cons (name : Text) (t : Token) (ts : List Token) :
    ∃ here, Check.assignmentCount name (t :: ts) = here + Check.assignmentCount name ts ∧
      (AssignsAt name (t :: ts) 0 ∧ 1 < ts.length ∧ here = 1 ∨
        ¬(AssignsAt name (t :: ts) 0 ∧ 1 < ts.length) ∧ here = 0) := by
  match ts with
  | [] => exact ⟨0, rfl, .inr ⟨fun h => absurd h.2 (by simp), rfl⟩⟩
  | [u] => exact ⟨0, rfl, .inr ⟨fun h => absurd h.2 (by simp), rfl⟩⟩
  | u :: v :: ts =>
      refine ⟨_, rfl, ?_⟩
      have here : AssignsAt name (t :: u :: v :: ts) 0 ↔
          (t.isIdentifier && t.text == name && u.text == ['=']) = true := by
        simp [AssignsAt, and_assoc]
      by_cases assigns : AssignsAt name (t :: u :: v :: ts) 0
      · exact .inl ⟨assigns, by simp, if_pos (here.mp assigns)⟩
      · exact .inr ⟨fun h => assigns h.1, if_neg (mt here.mpr assigns)⟩

theorem one_le_assignmentCount_iff :
    1 ≤ Check.assignmentCount name ts ↔ ∃ j, AssignsAt name ts j ∧ j + 2 < ts.length := by
  induction ts with
  | nil =>
      exact iff_of_false (Nat.not_succ_le_zero 0) fun ⟨_, _, inside⟩ => Nat.not_lt_zero _ inside
  | cons t ts ih =>
      obtain ⟨here, count, ⟨assigns, more, rfl⟩ | ⟨other, rfl⟩⟩ := assignmentCount_cons name t ts
      · refine iff_of_true (by omega) ⟨0, assigns, ?_⟩
        rw [List.length_cons]
        omega
      · rw [count, Nat.zero_add, ih]
        constructor
        · rintro ⟨j, assigns, inside⟩
          exact ⟨j + 1, assigns, Nat.succ_lt_succ inside⟩
        · rintro ⟨_ | j, assigns, inside⟩
          · exact absurd ⟨assigns, Nat.lt_of_succ_lt_succ inside⟩ other
          · exact ⟨j, assigns, Nat.lt_of_succ_lt_succ inside⟩

theorem two_le_assignmentCount_iff : 2 ≤ Check.assignmentCount name ts ↔
    ∃ j k, j < k ∧ AssignsAt name ts j ∧ AssignsAt name ts k ∧ k + 2 < ts.length := by
  induction ts with
  | nil =>
      exact iff_of_false (Nat.not_succ_le_zero 1)
        fun ⟨_, _, _, _, _, inside⟩ => Nat.not_lt_zero _ inside
  | cons t ts ih =>
      obtain ⟨here, count, ⟨assigns, more, rfl⟩ | ⟨other, rfl⟩⟩ := assignmentCount_cons name t ts
      · have one : 2 ≤ 1 + Check.assignmentCount name ts ↔ 1 ≤ Check.assignmentCount name ts := by
          omega
        rw [count, one, one_le_assignmentCount_iff]
        constructor
        · rintro ⟨k, again, inside⟩
          exact ⟨0, k + 1, k.succ_pos, assigns, again, Nat.succ_lt_succ inside⟩
        · rintro ⟨j, _ | k, order, -, again, inside⟩
          · exact absurd order (Nat.not_lt_zero j)
          · exact ⟨k, again, Nat.lt_of_succ_lt_succ inside⟩
      · rw [count, Nat.zero_add, ih]
        constructor
        · rintro ⟨j, k, order, first, again, inside⟩
          exact ⟨j + 1, k + 1, Nat.succ_lt_succ order, first, again, Nat.succ_lt_succ inside⟩
        · rintro ⟨_ | j, _ | k, order, first, again, inside⟩
          · exact absurd order (Nat.lt_irrefl 0)
          · rw [List.length_cons] at inside
            exact absurd ⟨first, by omega⟩ other
          · exact absurd order (Nat.not_lt_zero _)
          · exact ⟨j, k, Nat.lt_of_succ_lt_succ order, first, again, Nat.lt_of_succ_lt_succ inside⟩

/-- No two equals signs behind the name count: the later one ends the text. -/
theorem assignmentCount_le_one_iff : Check.assignmentCount name ts ≤ 1 ↔
    ∀ j k, j < k → AssignsAt name ts j → AssignsAt name ts k → k + 2 = ts.length := by
  rw [← Nat.not_lt, ← Nat.succ_le_iff, two_le_assignmentCount_iff]
  constructor
  · intro few j k order first again
    have inside := lt_length_of_assignsAt again
    by_contra more
    exact few ⟨j, k, order, first, again, by omega⟩
  · rintro last ⟨j, k, order, first, again, inside⟩
    have ends := last j k order first again
    omega

/-- The finding on a declared name. -/
def constantFinding (x : LintContext) (t u : Token) : Diagnostic :=
  x.finding .constants t
    ("'" ++ String.ofList u.text ++ "' is never reassigned. Use 'const' instead of 'var'")
    ["const".toList]

theorem mem_zip_tail_iff {α : Type} {as : List α} {a b : α} :
    (a, b) ∈ as.zip as.tail ↔ ∃ i, as[i]? = some a ∧ as[i + 1]? = some b := by
  rw [List.mem_iff_getElem?]
  simp only [List.getElem?_zip_eq_some, List.getElem?_tail]

/-- A `var` is reported just if a name stands behind it that is not assigned twice, where
an assignment that ends the text is none. -/
theorem constants_reported_iff (p : Profile) (o : LintOptions) (source : Text) (d : Diagnostic) :
    d ∈ Rule.constants.report (Linter.context p o source) ↔
      ∃ i t u, (tokenize p source)[i]? = some t ∧ (tokenize p source)[i + 1]? = some u ∧
        isVar t = true ∧ u.isIdentifier = true ∧
        d = constantFinding (Linter.context p o source) t u ∧
        ∀ j k, j < k → AssignsAt u.text (tokenize p source) j →
          AssignsAt u.text (tokenize p source) k → k + 2 = (tokenize p source).length := by
  have found (t u : Token) : constantFinding? (Linter.context p o source) t u = some d ↔
      isVar t = true ∧ u.isIdentifier = true ∧
        d = constantFinding (Linter.context p o source) t u ∧
        Check.assignmentCount u.text (tokenize p source) ≤ 1 := by
    rw [constantFinding?, Option.ite_none_right_eq_some, Bool.and_eq_true, Bool.and_eq_true,
      decide_eq_true_eq, Option.some_inj, and_assoc, and_assoc, and_comm (b := _ = d)]
    exact and_congr_right' (and_congr_right' (and_congr_left' eq_comm))
  have pairs : d ∈ Check.constants (Linter.context p o source) ↔
      ∃ y ∈ (tokenize p source).zip (tokenize p source).tail,
        constantFinding? (Linter.context p o source) y.1 y.2 = some d := by
    rw [Check.constants, constantsFrom_eq, List.mem_filterMap]
    rfl
  refine pairs.trans ?_
  constructor
  · rintro ⟨⟨t, u⟩, hy, made⟩
    obtain ⟨i, ht, hu⟩ := mem_zip_tail_iff.mp hy
    obtain ⟨var, ident, finding, few⟩ := (found t u).mp made
    exact ⟨i, t, u, ht, hu, var, ident, finding, assignmentCount_le_one_iff.mp few⟩
  · rintro ⟨i, t, u, ht, hu, var, ident, finding, last⟩
    exact ⟨(t, u), mem_zip_tail_iff.mpr ⟨i, ht, hu⟩,
      (found t u).mpr ⟨var, ident, finding, assignmentCount_le_one_iff.mpr last⟩⟩

/-- The name in this text is written four times more, and reported. -/
theorem constants_overlook_writes :
    let x := Linter.context .standard {} "var x = 0; x++; --x; x += 1; x =".toList
    ∃ t u, x.tokens[0]? = some t ∧ x.tokens[1]? = some u ∧ isVar t = true ∧
      u.isIdentifier = true ∧ u.text = ['x'] ∧ constantFinding x t u ∈ Rule.constants.report x ∧
      (x.tokens.drop 2).map spelling =
        [(.punctuation, ['=']), (.number, ['0']), (.punctuation, [';']),
          (.identifier, ['x']), (.operator, "++".toList), (.punctuation, [';']),
          (.operator, "--".toList), (.identifier, ['x']), (.punctuation, [';']),
          (.identifier, ['x']), (.operator, "+=".toList), (.number, ['1']), (.punctuation, [';']),
          (.identifier, ['x']), (.punctuation, ['='])] :=
  ⟨⟨.keyword, "var".toList, 1, 1⟩, ⟨.identifier, ['x'], 1, 5⟩, by decide +kernel⟩

end MotionExpr
