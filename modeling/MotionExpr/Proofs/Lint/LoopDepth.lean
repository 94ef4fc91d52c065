import Mathlib.Algebra.BigOperators.Intervals
import MotionExpr.Proofs.Lint.Anchors

/-!
The counter of loops goes up at a loop keyword and down at a closing brace, but never below zero.
So in front of a token it is the greatest surplus of loop keywords over closing braces that some
stretch of tokens up to there has, the empty one included. An expensive call is reported where
that is positive, and no tokens put in front take such a report away.
-/

namespace MotionExpr
namespace Check

/-- The places from `j` on and before `n` whose tokens are as `q` says. -/
def places (q : Token → Bool) (ts : List Token) (j n : Nat) : Finset Nat :=
  (Finset.Ico j n).filter fun k => (ts[k]?).any q

def loops (ts : List Token) : (j n : Nat) → Finset Nat :=
  places (·.isKeyword Language.loopKeywords) ts

def closings (ts : List Token) : (j n : Nat) → Finset Nat :=
  places (·.isPunctuation '\x7d') ts

/-- The counter in front of the token at `n`. -/
def depthAt (ts : List Token) (n : Nat) : Nat := (ts.take n).foldl loopDepth 0

variable {ts : List Token}

theorem card_places_self (q : Token → Bool) (ts : List Token) (n : Nat) :
    (places q ts n n).card = 0 := by
  simp [places]

theorem card_places_succ {q : Token → Bool} {j n : Nat} {t : Token} (h : j ≤ n)
    (ht : ts[n]? = some t) :
    (places q ts j (n + 1)).card = (places q ts j n).card + if q t then 1 else 0 := by
  rw [places, places, Finset.card_filter, Finset.card_filter, Finset.sum_Ico_succ_top h, ht,
    Option.any_some]

theorem depthAt_succ {n : Nat} {t : Token} (ht : ts[n]? = some t) :
    depthAt ts (n + 1) = loopDepth (depthAt ts n) t := by
  simp [depthAt, List.take_add_one, ht]

/-- From no place on do the loops outnumber the closing braces by more than `depth`, and from
some place on they do by just as many. -/
structure Surplus (ts : List Token) (n depth : Nat) : Prop where
  bounds : ∀ j ≤ n, (loops ts j n).card ≤ depth + (closings ts j n).card
  reached : ∃ j ≤ n, (loops ts j n).card = depth + (closings ts j n).card

theorem surplus_zero (ts : List Token) : Surplus ts 0 0 where
  bounds j h := by simp [loops, places]
  reached := ⟨0, Nat.le_refl 0, by simp [loops, closings, places]⟩

/-- The counter never falls below zero: then the loops are counted from the next place on. -/
theorem Surplus.step {n depth : Nat} {t : Token} (h : Surplus ts n depth) (ht : ts[n]? = some t) :
    Surplus ts (n + 1) (loopDepth depth t) := by
  have loopsSucc {j : Nat} (hj : j ≤ n) : (loops ts j (n + 1)).card =
      (loops ts j n).card + if t.isKeyword Language.loopKeywords then 1 else 0 :=
    card_places_succ hj ht
  have closingsSucc {j : Nat} (hj : j ≤ n) : (closings ts j (n + 1)).card =
      (closings ts j n).card + if t.isPunctuation '\x7d' then 1 else 0 :=
    card_places_succ hj ht
  have noLoops : (loops ts (n + 1) (n + 1)).card = 0 := card_places_self ..
  have noClosings : (closings ts (n + 1) (n + 1)).card = 0 := card_places_self ..
  obtain ⟨k, hk, reached⟩ := h.reached
  constructor
  · intro j hj
    rcases Nat.lt_or_eq_of_le hj with hj | rfl
    · have bound := h.bounds j (Nat.le_of_lt_succ hj)
      rw [loopsSucc (Nat.le_of_lt_succ hj), closingsSucc (Nat.le_of_lt_succ hj), loopDepth]
      split <;> split <;> omega
    · omega
  · rw [loopDepth]
    split
    · next loop =>
        have other : t.isPunctuation '\x7d' = false := by
          simp_all [Token.isKeyword, Token.isPunctuation]
        refine ⟨k, by omega, ?_⟩
        simp only [loopsSucc hk, closingsSucc hk, loop, other]
        simp; omega
    · next other =>
        split
        · next closing =>
            rcases Nat.eq_zero_or_pos depth with rfl | inside
            · exact ⟨n + 1, Nat.le_refl _, by omega⟩
            · refine ⟨k, by omega, ?_⟩
              simp only [loopsSucc hk, closingsSucc hk, closing, other]
              simp; omega
        · next plain =>
            refine ⟨k, by omega, ?_⟩
            simpa [loopsSucc hk, closingsSucc hk, plain, other] using reached

theorem surplus_depthAt {n : Nat} (h : n ≤ ts.length) : Surplus ts n (depthAt ts n) := by
  induction n with
  | zero => exact surplus_zero ts
  | succ n ih =>
      have ht : ts[n]? = some ts[n] := List.getElem?_eq_getElem h
      rw [depthAt_succ ht]
      exact (ih (Nat.le_of_succ_le h)).step ht

/-- The counter is above zero just if from some place on there are more loops than closing
braces. -/
theorem depthAt_ne_zero_iff {n : Nat} (h : n ≤ ts.length) :
    depthAt ts n ≠ 0 ↔ ∃ j < n, (closings ts j n).card < (loops ts j n).card := by
  obtain ⟨bounds, k, hk, reached⟩ := surplus_depthAt h
  constructor
  · intro inside
    refine ⟨k, Nat.lt_of_le_of_ne hk ?_, by omega⟩
    rintro rfl
    have none : (loops ts k k).card = 0 := card_places_self ..
    omega
  · rintro ⟨j, hj, more⟩
    have bound := bounds j hj.le
    omega

/-! What is reported. -/

def isReported (p : Profile) (ts : List Token) (i : Nat) : Bool :=
  depthAt ts (i + 1) ≠ 0 && (ts[i]?).any (isCostly p)

/-- The tokens behind `front` that are reported, by their places. -/
theorem costlyTokens_eq (p : Profile) (front ts : List Token) :
    costlyTokens p (front.foldl loopDepth 0) ts =
      ((List.range' front.length ts.length).filter (isReported p (front ++ ts))).filterMap
        fun i => (front ++ ts)[i]? := by
  induction ts generalizing front with
  | nil => rfl
  | cons t ts ih =>
      have later := ih (front ++ [t])
      have here : (front ++ t :: ts)[front.length]? = some t := by simp
      have depth : depthAt (front ++ t :: ts) (front.length + 1) =
          loopDepth (front.foldl loopDepth 0) t := by
        rw [depthAt_succ here]
        simp [depthAt]
      have reported : isReported p (front ++ t :: ts) front.length =
          (loopDepth (front.foldl loopDepth 0) t ≠ 0 && isCostly p t) := by
        simp [isReported, depth]
      simp only [List.foldl_append, List.foldl_cons, List.foldl_nil, List.length_append,
        List.length_singleton, List.append_assoc, List.singleton_append] at later
      simp only [costlyTokens, List.length_cons, List.range'_succ, List.filter_cons, reported,
        later]
      split
      · rw [List.filterMap_cons_some here]
      · rfl

theorem costlyTokens_append (p : Profile) (depth : Nat) (front ts : List Token) :
    costlyTokens p depth (front ++ ts) =
      costlyTokens p depth front ++ costlyTokens p (front.foldl loopDepth depth) ts := by
  induction front generalizing depth with
  | nil => rfl
  | cons t front ih =>
      simp only [List.cons_append, costlyTokens, ih, List.foldl_cons]
      split <;> rfl

theorem loopDepth_mono {m n : Nat} (h : m ≤ n) (t : Token) : loopDepth m t ≤ loopDepth n t := by
  unfold loopDepth
  split
  · omega
  · split <;> omega

/-- Further in, more is reported. -/
theorem costlyTokens_mono (p : Profile) {m n : Nat} (h : m ≤ n) (ts : List Token) :
    (costlyTokens p m ts).Sublist (costlyTokens p n ts) := by
  induction ts generalizing m n with
  | nil => exact List.Sublist.refl _
  | cons t ts ih =>
      have deeper := loopDepth_mono h t
      have later := ih deeper
      simp only [costlyTokens]
      split
      · next inside =>
          simp only [Bool.and_eq_true, decide_eq_true_eq] at inside
          have inside' : (decide (loopDepth n t ≠ 0) && isCostly p t) = true := by
            simp only [Bool.and_eq_true, decide_eq_true_eq]
            exact ⟨by omega, inside.2⟩
          rw [if_pos inside']
          exact later.cons_cons t
      · split
        · exact later.cons t
        · exact later

/-- The finding on a token. -/
def costlyFinding (x : LintContext) (t : Token) : Diagnostic :=
  x.finding .costlyCalls t
    ("'" ++ String.ofList t.text ++ "' inside a loop may cause performance issues")
    ["Move expensive operations outside the loop".toList, "Cache the result".toList]

/-- From some place up to the token at `i` there are more loop keywords than closing braces. -/
def InLoop (ts : List Token) (i : Nat) : Prop :=
  ∃ j ≤ i, (closings ts j (i + 1)).card < (loops ts j (i + 1)).card

theorem isReported_iff {p : Profile} {i : Nat} :
    isReported p ts i = true ↔ ∃ t, ts[i]? = some t ∧ isCostly p t = true ∧ InLoop ts i := by
  simp only [isReported, Bool.and_eq_true, decide_eq_true_eq, Option.any_eq_true, InLoop]
  constructor
  · rintro ⟨inside, t, ht, costly⟩
    have bound : i + 1 ≤ ts.length := (List.getElem?_eq_some_iff.mp ht).1
    obtain ⟨j, hj, more⟩ := (depthAt_ne_zero_iff bound).mp inside
    exact ⟨t, ht, costly, j, Nat.le_of_lt_succ hj, more⟩
  · rintro ⟨t, ht, costly, j, hj, more⟩
    have bound : i + 1 ≤ ts.length := (List.getElem?_eq_some_iff.mp ht).1
    exact ⟨(depthAt_ne_zero_iff bound).mpr ⟨j, Nat.lt_succ_of_le hj, more⟩, t, ht, costly⟩

/-- The places that are reported. -/
def reportedPlaces (p : Profile) (ts : List Token) : List Nat :=
  (List.range ts.length).filter (isReported p ts)

theorem mem_reportedPlaces {p : Profile} {i : Nat} :
    i ∈ reportedPlaces p ts ↔ ∃ t, ts[i]? = some t ∧ isCostly p t = true ∧ InLoop ts i := by
  rw [reportedPlaces, List.mem_filter, isReported_iff, List.mem_range]
  refine and_iff_right_of_imp ?_
  rintro ⟨t, ht, -⟩
  exact (List.getElem?_eq_some_iff.mp ht).1

theorem report_costlyCalls (x : LintContext) :
    Rule.costlyCalls.report x = (reportedPlaces x.profile x.tokens).filterMap fun i =>
      (x.tokens[i]?).map (costlyFinding x) := by
  have found := costlyTokens_eq x.profile [] x.tokens
  rw [List.foldl_nil, List.nil_append, List.length_nil, ← List.range_eq_range'] at found
  change (costlyTokens x.profile 0 x.tokens).map (costlyFinding x) = _
  rw [found, List.map_filterMap]
  rfl

/-- Expensive functions are reported where, from some place up to them, there are more loop
keywords than closing braces. Whatever tokens are put in front, all that is reported stays so. -/
theorem costlyCalls_by_surplus (x : LintContext) :
    (∃ reported : List Nat, reported.Pairwise (· < ·) ∧
      (∀ i, i ∈ reported ↔ ∃ t, x.tokens[i]? = some t ∧
        (t.kind = .hostFunction ∧ t.text ∈ x.profile.expensive) ∧
        ∃ j ≤ i, (closings x.tokens j (i + 1)).card < (loops x.tokens j (i + 1)).card) ∧
      Rule.costlyCalls.report x =
        reported.filterMap fun i => (x.tokens[i]?).map (costlyFinding x)) ∧
    ∀ front, (Rule.costlyCalls.report x).Sublist
      (Rule.costlyCalls.report { x with tokens := front ++ x.tokens }) := by
  constructor
  · refine ⟨reportedPlaces x.profile x.tokens, List.pairwise_lt_range.filter _, fun i => ?_,
      report_costlyCalls x⟩
    simp only [mem_reportedPlaces, isCostly, Bool.and_eq_true, decide_eq_true_eq,
      List.contains_iff_mem, InLoop]
  · intro front
    have later : (costlyTokens x.profile 0 x.tokens).Sublist
        (costlyTokens x.profile 0 (front ++ x.tokens)) := by
      rw [costlyTokens_append]
      exact (costlyTokens_mono x.profile (Nat.zero_le _) x.tokens).trans
        (List.sublist_append_right ..)
    exact later.map (costlyFinding x)

end Check
end MotionExpr
