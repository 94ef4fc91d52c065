import MotionExpr.Proofs.Fix.Automatic
import MotionExpr.Proofs.Lint.LoopDepth
import MotionExpr.Proofs.Lint.Spans

/-!
Loops and their bodies. A loop is left where the brace of its body is closed, but the counter of
loops goes down at every closing brace. Where all loops have a header in parentheses and a body
in braces, a closing brace either ends one loop or is stray, so the surplus of loops over braces
is the number of open loops without the stray braces: what stands in a body is found as long as
fewer blocks of other kinds were closed since some loop began than loops are open since.
-/

namespace MotionExpr
namespace Check

def isCodeAt (ts : List Token) (n : Nat) : Bool := (ts[n]?).any (·.kind ≠ .comment)

def isSymbolAt (symbol : Char) (ts : List Token) (n : Nat) : Bool :=
  (ts[n]?).any (·.isPunctuation symbol)

/-- How often a symbol stands from `j` on and before `n`. -/
def occurrences (symbol : Char) (ts : List Token) (j n : Nat) : Nat :=
  (places (·.isPunctuation symbol) ts j n).card

/-- The first place behind `k` whose token is no comment. -/
def nextCode? (ts : List Token) (k : Nat) : Option Nat :=
  (List.range ts.length).find? fun n => k < n && isCodeAt ts n

/-- Where the group that opens at `a` is closed: the first place up to which as many symbols
close as open. -/
def groupEnd? (opening closing : Char) (ts : List Token) (a : Nat) : Option Nat :=
  if isSymbolAt opening ts a then
    (List.range ts.length).find? fun n =>
      a ≤ n && occurrences closing ts a (n + 1) = occurrences opening ts a (n + 1)
  else none

/-- The braces of the body of the loop whose keyword stands at `k`: behind the keyword there is
a header in parentheses, and behind that the body. -/
def loopBody? (ts : List Token) (k : Nat) : Option (Nat × Nat) := do
  let header ← nextCode? ts k
  let headerEnd ← groupEnd? '(' ')' ts header
  let body ← nextCode? ts headerEnd
  let bodyEnd ← groupEnd? '\x7b' '\x7d' ts body
  return (body, bodyEnd)

variable {ts : List Token} {a j k m n : Nat}

theorem nextCode?_eq_some (h : nextCode? ts k = some n) :
    k < n ∧ isCodeAt ts n = true ∧ ∀ m, k < m → m < n → isCodeAt ts m = false := by
  simp only [nextCode?, List.find?_range_eq_some, Bool.and_eq_true, decide_eq_true_eq,
    Bool.not_eq_true', Bool.and_eq_false_imp] at h
  exact ⟨h.1.1, h.1.2, fun m hk hn => h.2.2 m hn hk⟩

/-- Code stands next to one piece of code only. -/
theorem nextCode?_inj {k' : Nat} (hk : isCodeAt ts k = true) (hk' : isCodeAt ts k' = true)
    (h : nextCode? ts k = some n) (h' : nextCode? ts k' = some n) : k = k' := by
  obtain ⟨before, -, none⟩ := nextCode?_eq_some h
  obtain ⟨before', -, none'⟩ := nextCode?_eq_some h'
  rcases Nat.lt_trichotomy k k' with less | same | more
  · rw [none k' less before'] at hk'
    cases hk'
  · exact same
  · rw [none' k more before] at hk
    cases hk

section Groups

variable {symbol opening closing : Char}

theorem occurrences_self (symbol : Char) (ts : List Token) (n : Nat) :
    occurrences symbol ts n n = 0 := card_places_self ..

theorem occurrences_succ (h : j ≤ n) (hn : n < ts.length) :
    occurrences symbol ts j (n + 1) =
      occurrences symbol ts j n + if isSymbolAt symbol ts n then 1 else 0 := by
  have ht : ts[n]? = some ts[n] := List.getElem?_eq_getElem hn
  rw [occurrences, card_places_succ h ht, isSymbolAt, ht]
  rfl

theorem occurrences_add (h : j ≤ m) (h' : m ≤ n) :
    occurrences symbol ts j n = occurrences symbol ts j m + occurrences symbol ts m n := by
  simp only [occurrences, places, Finset.card_filter]
  exact (Finset.sum_Ico_consecutive _ h h').symm

theorem not_isSymbolAt_of_ne (differ : opening ≠ closing) (h : isSymbolAt opening ts n = true) :
    isSymbolAt closing ts n = false := by
  simp only [isSymbolAt, Option.any_eq_true, Token.isPunctuation, Bool.and_eq_true, beq_iff_eq] at h
  obtain ⟨t, ht, -, text⟩ := h
  simp [isSymbolAt, ht, Token.isPunctuation, text, differ]

/-- A group that is open: up to `n` more symbols open than close. -/
theorem open_of_groupEnd? (differ : opening ≠ closing) (h : groupEnd? opening closing ts a = some n)
    (ha : a < m) (hm : m ≤ n) : occurrences closing ts a m < occurrences opening ts a m := by
  simp only [groupEnd?, Option.ite_none_right_eq_some, List.find?_range_eq_some, Bool.and_eq_true,
    decide_eq_true_eq, Bool.not_eq_true', Bool.and_eq_false_imp, List.mem_range,
    decide_eq_false_iff_not] at h
  obtain ⟨opens, ⟨-, -⟩, inside, first⟩ := h
  induction m with
  | zero => omega
  | succ m ih =>
      have inText : m < ts.length := by omega
      rcases Nat.lt_or_eq_of_le (Nat.le_of_lt_succ ha) with before | rfl
      · have less := ih before (by omega)
        have other := first m (by omega) (by omega)
        rw [occurrences_succ before.le inText, occurrences_succ before.le inText] at other ⊢
        split <;> split <;> simp_all <;> omega
      · rw [occurrences_succ (Nat.le_refl a) inText, occurrences_succ (Nat.le_refl a) inText,
          occurrences_self, occurrences_self, opens, not_isSymbolAt_of_ne differ opens]
        decide

theorem groupEnd?_eq_some (differ : opening ≠ closing)
    (h : groupEnd? opening closing ts a = some n) :
    a < n ∧ isSymbolAt opening ts a = true ∧ isSymbolAt closing ts n = true ∧
      occurrences closing ts a (n + 1) = occurrences opening ts a (n + 1) := by
  have inside := open_of_groupEnd? (m := n) differ h
  simp only [groupEnd?, Option.ite_none_right_eq_some, List.find?_range_eq_some, Bool.and_eq_true,
    decide_eq_true_eq, List.mem_range] at h
  obtain ⟨opens, ⟨reach, closes⟩, inText, -⟩ := h
  have stop := closes
  rw [occurrences_succ reach inText, occurrences_succ reach inText] at stop
  rcases Nat.lt_or_eq_of_le reach with before | rfl
  · have less := inside before (Nat.le_refl n)
    refine ⟨before, opens, ?_, closes⟩
    cases here : isSymbolAt closing ts n with
    | true => rfl
    | false =>
        rw [here, if_neg Bool.false_ne_true] at stop
        split at stop <;> omega
  · rw [occurrences_self, occurrences_self, opens, not_isSymbolAt_of_ne differ opens] at stop
    simp at stop

/-- A symbol closes one group only: of two, the outer one would have been closed where the
inner one opens. -/
theorem groupEnd?_inj {a' : Nat} (differ : opening ≠ closing)
    (h : groupEnd? opening closing ts a = some n) (h' : groupEnd? opening closing ts a' = some n) :
    a = a' := by
  have inner {b b' : Nat} (hb : groupEnd? opening closing ts b = some n)
      (hb' : groupEnd? opening closing ts b' = some n) : ¬b < b' := by
    intro less
    obtain ⟨-, -, -, closes⟩ := groupEnd?_eq_some differ hb
    obtain ⟨before, -, -, closes'⟩ := groupEnd?_eq_some differ hb'
    have left := open_of_groupEnd? differ hb less before.le
    have parts (symbol : Char) : occurrences symbol ts b (n + 1) =
        occurrences symbol ts b b' + occurrences symbol ts b' (n + 1) :=
      occurrences_add less.le (by omega)
    rw [parts, parts] at closes
    omega
  have one := inner h h'
  have other := inner h' h
  omega

end Groups

theorem isCodeAt_of_isSymbolAt {symbol : Char} (h : isSymbolAt symbol ts n = true) :
    isCodeAt ts n = true := by
  simp only [isSymbolAt, Option.any_eq_true, Token.isPunctuation, Bool.and_eq_true,
    decide_eq_true_eq] at h
  obtain ⟨t, ht, kind, -⟩ := h
  simp [isCodeAt, ht, kind]

theorem loopBody?_eq_some {body : Nat × Nat} (h : loopBody? ts k = some body) :
    ∃ header headerEnd, nextCode? ts k = some header ∧
      groupEnd? '(' ')' ts header = some headerEnd ∧ nextCode? ts headerEnd = some body.1 ∧
      groupEnd? '\x7b' '\x7d' ts body.1 = some body.2 := by
  simp only [loopBody?, Option.bind_eq_bind, Option.bind_eq_some_iff, Option.pure_def,
    Option.some_inj] at h
  obtain ⟨header, first, headerEnd, parens, start, second, stop, braces, rfl⟩ := h
  exact ⟨header, headerEnd, first, parens, second, braces⟩

/-- The brace that closes the body of a loop, behind its keyword. -/
theorem closing_of_loopBody? {body : Nat × Nat} (h : loopBody? ts k = some body) :
    k < body.2 ∧ isSymbolAt '\x7d' ts body.2 = true := by
  obtain ⟨header, headerEnd, first, parens, second, braces⟩ := loopBody?_eq_some h
  obtain ⟨toHeader, -⟩ := nextCode?_eq_some first
  obtain ⟨toHeaderEnd, -⟩ := groupEnd?_eq_some (by decide) parens
  obtain ⟨toBody, -⟩ := nextCode?_eq_some second
  obtain ⟨toBodyEnd, -, closes, -⟩ := groupEnd?_eq_some (by decide) braces
  exact ⟨by omega, closes⟩

/-- No two loops end with one brace. -/
theorem loopBody?_inj {k' : Nat} {body body' : Nat × Nat} (hk : isCodeAt ts k = true)
    (hk' : isCodeAt ts k' = true) (h : loopBody? ts k = some body)
    (h' : loopBody? ts k' = some body') (same : body.2 = body'.2) : k = k' := by
  obtain ⟨header, headerEnd, first, parens, second, braces⟩ := loopBody?_eq_some h
  obtain ⟨header', headerEnd', first', parens', second', braces'⟩ := loopBody?_eq_some h'
  have bodies : body.1 = body'.1 := groupEnd?_inj (by decide) braces (same ▸ braces')
  have code {a n : Nat} (hn : groupEnd? '(' ')' ts a = some n) : isCodeAt ts n = true :=
    isCodeAt_of_isSymbolAt (groupEnd?_eq_some (by decide) hn).2.2.1
  obtain rfl : headerEnd = headerEnd' :=
    nextCode?_inj (code parens) (code parens') second (bodies ▸ second')
  obtain rfl : header = header' := groupEnd?_inj (by decide) parens parens'
  exact nextCode?_inj hk hk' first first'

/-! Loops that are left and braces that close no loop. -/

/-- Where the body of a loop ends. -/
def loopEnd? (ts : List Token) (k : Nat) : Option Nat := (loopBody? ts k).map Prod.snd

/-- Every loop has a header in parentheses and a body in braces. -/
def Braced (ts : List Token) : Prop := ∀ k ∈ loops ts 0 ts.length, (loopBody? ts k).isSome

instance (ts : List Token) : Decidable (Braced ts) :=
  inferInstanceAs (Decidable (∀ k ∈ loops ts 0 ts.length, (loopBody? ts k).isSome))

/-- The loops from `j` on whose bodies are not closed before `n`. -/
def openLoops (ts : List Token) (j n : Nat) : Finset Nat :=
  (loops ts j n).filter fun k => (loopEnd? ts k).all (n ≤ ·)

/-- The closing braces from `j` on that end no loop from `j` on. -/
def strayClosings (ts : List Token) (j n : Nat) : Finset Nat :=
  (closings ts j n).filter fun c => ∀ k ∈ loops ts j n, loopEnd? ts k ≠ some c

theorem mem_loops : k ∈ loops ts j n ↔
    (j ≤ k ∧ k < n) ∧ (ts[k]?).any (·.isKeyword Language.loopKeywords) = true := by
  simp [loops, places]

theorem mem_closings :
    k ∈ closings ts j n ↔ (j ≤ k ∧ k < n) ∧ isSymbolAt '\x7d' ts k = true := by
  simp [closings, places, isSymbolAt]

theorem isCodeAt_of_mem_loops (h : k ∈ loops ts j n) : isCodeAt ts k = true := by
  obtain ⟨-, loop⟩ := mem_loops.mp h
  simp only [Option.any_eq_true, Token.isKeyword, Bool.and_eq_true, decide_eq_true_eq] at loop
  obtain ⟨t, ht, kind, -⟩ := loop
  simp [isCodeAt, ht, kind]

/-- The loops that are closed and the braces that close them go together. -/
theorem card_closed (braced : Braced ts) (h : n ≤ ts.length) (j : Nat) :
    ((loops ts j n).filter fun k => ¬(loopEnd? ts k).all (n ≤ ·)).card =
      ((closings ts j n).filter fun c => ¬∀ k ∈ loops ts j n, loopEnd? ts k ≠ some c).card := by
  have ends {k : Nat} (hk : k ∈ loops ts j n) : ∃ body, loopBody? ts k = some body := by
    obtain ⟨reach, loop⟩ := mem_loops.mp hk
    exact Option.isSome_iff_exists.mp (braced k (mem_loops.mpr ⟨by omega, loop⟩))
  refine Finset.card_bij (fun k _ => (loopEnd? ts k).getD 0) ?_ ?_ ?_
  · intro k hk
    rw [Finset.mem_filter] at hk
    obtain ⟨body, hbody⟩ := ends hk.1
    obtain ⟨before, closes⟩ := closing_of_loopBody? hbody
    have closed : body.2 < n := by simpa [loopEnd?, hbody] using hk.2
    have reach := (mem_loops.mp hk.1).1
    rw [Finset.mem_filter]
    simp only [loopEnd?, hbody, Option.map_some, Option.getD_some]
    refine ⟨mem_closings.mpr ⟨⟨by omega, closed⟩, closes⟩, fun other => other k hk.1 ?_⟩
    simp [hbody]
  · intro k hk k' hk' same
    rw [Finset.mem_filter] at hk hk'
    obtain ⟨body, hbody⟩ := ends hk.1
    obtain ⟨body', hbody'⟩ := ends hk'.1
    simp only [loopEnd?, hbody, hbody', Option.map_some, Option.getD_some] at same
    exact loopBody?_inj (isCodeAt_of_mem_loops hk.1) (isCodeAt_of_mem_loops hk'.1) hbody hbody' same
  · intro c hc
    rw [Finset.mem_filter] at hc
    obtain ⟨inside, ended⟩ := hc
    simp only [not_forall, not_not] at ended
    obtain ⟨k, hk, last⟩ := ended
    refine ⟨k, Finset.mem_filter.mpr ⟨hk, ?_⟩, by simp [last]⟩
    simp only [last, Option.all_some, decide_eq_true_eq]
    have reach := (mem_closings.mp inside).1
    omega

/-- The surplus of loops over closing braces is that of open loops over stray braces. -/
theorem card_loops_add_stray (braced : Braced ts) (h : n ≤ ts.length) (j : Nat) :
    (loops ts j n).card + (strayClosings ts j n).card =
      (openLoops ts j n).card + (closings ts j n).card := by
  have loopParts := Finset.card_filter_add_card_filter_not (s := loops ts j n)
    fun k => (loopEnd? ts k).all (n ≤ ·)
  have braceParts := Finset.card_filter_add_card_filter_not (s := closings ts j n)
    fun c => ∀ k ∈ loops ts j n, loopEnd? ts k ≠ some c
  have closed := card_closed braced h j
  rw [openLoops, strayClosings]
  omega

/-- To be inside by the counter is to have fewer stray braces than open loops behind one. -/
theorem inLoop_iff_openLoops (braced : Braced ts) {i : Nat} (h : i < ts.length) :
    InLoop ts i ↔ ∃ k ∈ loops ts 0 (i + 1),
      (strayClosings ts k (i + 1)).card < (openLoops ts k (i + 1)).card := by
  have balance (j : Nat) := card_loops_add_stray braced (n := i + 1) h j
  constructor
  · rintro ⟨j, hj, more⟩
    -- the first loop from `j` on is as good a start
    have some : (loops ts j (i + 1)).Nonempty := Finset.card_pos.mp (by omega)
    obtain ⟨k, hk, least⟩ : ∃ k ∈ loops ts j (i + 1), ∀ l ∈ loops ts j (i + 1), k ≤ l :=
      ⟨_, Finset.min'_mem _ some, Finset.min'_le _⟩
    obtain ⟨reach, loop⟩ := mem_loops.mp hk
    have kept : (loops ts j (i + 1)).card ≤ (loops ts k (i + 1)).card := by
      refine Finset.card_le_card fun l hl => ?_
      obtain ⟨within, other⟩ := mem_loops.mp hl
      exact mem_loops.mpr ⟨⟨least l hl, within.2⟩, other⟩
    have fewer : (closings ts k (i + 1)).card ≤ (closings ts j (i + 1)).card := by
      refine Finset.card_le_card fun c hc => ?_
      obtain ⟨within, closes⟩ := mem_closings.mp hc
      exact mem_closings.mpr ⟨⟨reach.1.trans within.1, within.2⟩, closes⟩
    have here := balance k
    exact ⟨k, mem_loops.mpr ⟨⟨Nat.zero_le k, reach.2⟩, loop⟩, by omega⟩
  · rintro ⟨k, hk, more⟩
    have here := balance k
    exact ⟨k, Nat.le_of_lt_succ (mem_loops.mp hk).1.2, by omega⟩

section Source

variable {p : Profile} {o : LintOptions} {source : Text} {i : Nat} {t : Token}

theorem mem_report_costlyCalls (ht : (Token.tokenize p source)[i]? = some t)
    (costly : isCostly p t = true) :
    costlyFinding (Linter.context p o source) t ∈
        Rule.costlyCalls.report (Linter.context p o source) ↔
      InLoop (Token.tokenize p source) i := by
  rw [report_costlyCalls, List.mem_filterMap]
  constructor
  · rintro ⟨k, hk, found⟩
    obtain ⟨u, hu, same⟩ := Option.map_eq_some_iff.mp found
    obtain ⟨-, -, -, inLoop⟩ := mem_reportedPlaces.mp hk
    have place : u = t := Token.eq_of_place (List.mem_of_getElem? hu) (List.mem_of_getElem? ht)
      (congrArg Diagnostic.line same) (congrArg Diagnostic.column same)
    have bound := (List.getElem?_eq_some_iff.mp ht).1
    have index : i = k :=
      (List.getElem?_inj bound (nodup_tokenize p source)).mp (by rw [ht, ← place]; exact hu.symm)
    exact index ▸ inLoop
  · intro inLoop
    exact ⟨i, mem_reportedPlaces.mpr ⟨t, ht, costly, inLoop⟩,
      Option.map_eq_some_iff.mpr ⟨t, ht, rfl⟩⟩

/-- The token at `i` stands in the body of the loop whose keyword stands at `k`. -/
def InBody (ts : List Token) (k i : Nat) : Prop :=
  ∃ body ∈ loopBody? ts k, body.1 < i ∧ i < body.2

instance (ts : List Token) (k i : Nat) : Decidable (InBody ts k i) :=
  inferInstanceAs (Decidable (∃ body ∈ loopBody? ts k, body.1 < i ∧ i < body.2))

/-- A call is reported just if, from the keyword of some loop up to the call, fewer braces are
closed that end none of the loops begun since than there are loops begun since and still open. So
all calls in a body are, as long as no block but bodies of loops was closed since its keyword. -/
theorem costlyCalls_in_bodies (braced : Braced (Token.tokenize p source))
    (ht : (Token.tokenize p source)[i]? = some t) (costly : isCostly p t = true) :
    (costlyFinding (Linter.context p o source) t ∈
        Rule.costlyCalls.report (Linter.context p o source) ↔
      ∃ k ∈ loops (Token.tokenize p source) 0 (i + 1),
        (strayClosings (Token.tokenize p source) k (i + 1)).card <
          (openLoops (Token.tokenize p source) k (i + 1)).card) ∧
    ∀ k ∈ loops (Token.tokenize p source) 0 (i + 1), InBody (Token.tokenize p source) k i →
      strayClosings (Token.tokenize p source) k (i + 1) = ∅ →
      costlyFinding (Linter.context p o source) t ∈
        Rule.costlyCalls.report (Linter.context p o source) := by
  have bound := (List.getElem?_eq_some_iff.mp ht).1
  have reported :=
    (mem_report_costlyCalls (o := o) ht costly).trans (inLoop_iff_openLoops braced bound)
  refine ⟨reported, fun k hk inBody none => reported.mpr ⟨k, hk, ?_⟩⟩
  obtain ⟨body, hbody, -, before⟩ := inBody
  have stillOpen : k ∈ openLoops (Token.tokenize p source) k (i + 1) := by
    obtain ⟨reach, loop⟩ := mem_loops.mp hk
    refine Finset.mem_filter.mpr ⟨mem_loops.mpr ⟨⟨Nat.le_refl k, reach.2⟩, loop⟩, ?_⟩
    rw [Option.mem_def] at hbody
    simp only [loopEnd?, hbody, Option.map_some, Option.all_some, decide_eq_true_eq]
    exact before
  rw [none, Finset.card_empty, Finset.card_pos]
  exact ⟨k, stillOpen⟩

end Source

/-- In the outer body the first call stands behind no other block; the second one has one such
block in front of it, but two loops are open. -/
theorem costlyCalls_in_bodies_nested :
    let source :=
      "while (a) \x7b wiggle(2, 2); for (;;) \x7b if (b) \x7b \x7d wiggle(1, 1); \x7d \x7d".toList
    let ts := Token.tokenize Profile.standard source
    let first : Token := ⟨.hostFunction, "wiggle".toList, 1, 13⟩
    let second : Token := ⟨.hostFunction, "wiggle".toList, 1, 49⟩
    (Braced ts ∧ ts[5]? = some first ∧ ts[24]? = some second ∧
      isCostly Profile.standard first = true ∧ isCostly Profile.standard second = true) ∧
    costlyFinding (Linter.context Profile.standard {} source) first ∈
        Rule.costlyCalls.report (Linter.context Profile.standard {} source) ∧
      costlyFinding (Linter.context Profile.standard {} source) second ∈
        Rule.costlyCalls.report (Linter.context Profile.standard {} source) := by
  intro source ts first second
  have facts : (Braced ts ∧ ts[5]? = some first ∧ ts[24]? = some second ∧
      isCostly Profile.standard first = true ∧ isCostly Profile.standard second = true) ∧
      (0 ∈ loops ts 0 6 ∧ InBody ts 0 5 ∧ strayClosings ts 0 6 = ∅) ∧
      0 ∈ loops ts 0 25 ∧ (strayClosings ts 0 25).card < (openLoops ts 0 25).card := by
    decide +kernel
  obtain ⟨given, ⟨begun, inBody, none⟩, begun', fewer⟩ := facts
  obtain ⟨braced, one, two, costly, costly'⟩ := given
  exact ⟨⟨braced, one, two, costly, costly'⟩,
    (costlyCalls_in_bodies braced one costly).2 0 begun inBody none,
    (costlyCalls_in_bodies braced two costly').1.mpr ⟨0, begun', fewer⟩⟩

/-- Braces go together: no more are closed than are opened, and in the end as many. -/
def BalancedBraces (ts : List Token) : Prop :=
  (∀ n ≤ ts.length, occurrences '\x7d' ts 0 n ≤ occurrences '\x7b' ts 0 n) ∧
    occurrences '\x7d' ts 0 ts.length = occurrences '\x7b' ts 0 ts.length

instance (ts : List Token) : Decidable (BalancedBraces ts) :=
  inferInstanceAs (Decidable (_ ∧ _))

/-- Once another block is closed in the body of a single loop, the rest of the body is outside
to the counter. -/
theorem costlyCalls_overlooked :
    ¬∀ (source : Text) (k i : Nat) (t : Token),
      BalancedBraces (Token.tokenize Profile.standard source) →
      Braced (Token.tokenize Profile.standard source) →
      k ∈ loops (Token.tokenize Profile.standard source) 0 (i + 1) →
      InBody (Token.tokenize Profile.standard source) k i →
      (Token.tokenize Profile.standard source)[i]? = some t →
      isCostly Profile.standard t = true →
      costlyFinding (Linter.context Profile.standard {} source) t ∈
        Rule.costlyCalls.report (Linter.context Profile.standard {} source) := by
  intro reported
  have found := reported "for (;;) \x7b if (a) \x7b \x7d wiggle(1, 1); \x7d".toList 0 12
    ⟨.hostFunction, "wiggle".toList, 1, 23⟩
  revert found
  decide +kernel

end Check
end MotionExpr
