import MotionExpr.Proofs.Format.GapsAgain
import MotionExpr.Proofs.Format.OperatorJoins

/-!
What a binary operator may follow: names, numbers, closing brackets and postfix updates. The
test for operands looks at the last character and at the last word only. It takes no update for
an operand, no number that ends in its point, and no name in which a dollar sign stands in front
of a prefix keyword.
-/

namespace MotionExpr

open Text

namespace Operand

/-- The text ends in an operand, or in blanks behind one. -/
inductive Ends : Text → Prop where
  | name {t w : Text} : w ≠ [] → (∀ c ∈ w, Call.continuesName c = true) →
      t.getLast?.any Call.continuesName = false → w ∉ prefixKeywords → Ends (t ++ w)
  | number {t r : Text} {d : Char} : isAsciiDigit d = true →
      (∀ c ∈ r, isAsciiDigit c = true ∨ c = '.') → t.getLast?.any Call.continuesName = false →
      Ends (t ++ d :: r)
  | closing {t : Text} {c : Char} : c = ')' ∨ c = ']' → Ends (t ++ [c])
  | update {t op : Text} : Operator.isUpdate op = true → Ends t → Ends (t ++ op)
  | blank {t : Text} {c : Char} : isBlank c = true → Ends t → Ends (t ++ [c])

/-- The ends of operands that the test does not see. -/
def overlookedEnds : List Text :=
  ["++", "--", "."].map String.toList ++ prefixKeywords.map ('$' :: ·)

/-- The code, given backwards, ends in an operand that the test does not see. -/
def overlooked (backwards : Text) : Bool :=
  overlookedEnds.any fun e => e.reverse.isPrefixOf (backwards.dropWhile isBlank)

/-! The last character. -/

section Last

variable {ends : List Text} {p : Char → Bool} {c : Char} (hc : p c = true) (r : Text)

include hc

/-- None of the ends is met behind a character that ends none of them. -/
theorem any_isPrefixOf_eq_false (h : ends.all (fun e => e.reverse.head?.any (!p ·)) = true) :
    (ends.any fun e => e.reverse.isPrefixOf (c :: r)) = false := by
  rw [List.any_eq_false]
  intro e he found
  obtain ⟨d, first, other⟩ := (Option.any_eq_true ..).mp (List.all_eq_true.mp h e he)
  obtain ⟨s, hs⟩ := List.head?_eq_some_iff.mp first
  rw [hs, List.isPrefixOf_iff_prefix, List.cons_prefix_cons] at found
  rw [found.1, hc] at other
  cases other

theorem endsWithWord_eq_false
    (h : prefixKeywords.all (fun w => w.reverse.head?.any (!p ·)) = true) :
    endsWithWord prefixKeywords (c :: r) = false := by
  have none := any_isPrefixOf_eq_false hc r h
  rw [List.any_eq_false] at none
  rw [endsWithWord, List.any_eq_false]
  intro w hw alone
  rw [standsAlone, Bool.and_eq_true] at alone
  exact none w hw alone.1

end Last

theorem not_isTight {p : Char → Bool} (h : "([\x7b!".toList.all (!p ·) = true) {c : Char}
    (hc : p c = true) : Operator.isTight c = false := by
  refine eq_false_of_ne_true fun tight => ?_
  have member : c ∈ "([\x7b!".toList := by
    simpa [Operator.isTight, or_assoc] using tight
  have here := List.all_eq_true.mp h c member
  rw [hc] at here
  cases here

/-! The last word. -/

/-- A whole word that is no keyword ends in one as a whole word just if there is a dollar sign
in front of that. -/
theorem endsWithWord_name {w p : Text} (hw : ∀ c ∈ w, Call.continuesName c = true)
    (front : p.head?.any Call.continuesName = false) (other : w ∉ prefixKeywords) :
    endsWithWord prefixKeywords (w.reverse ++ p) =
      (prefixKeywords.map ('$' :: ·)).any fun e => e.reverse.isPrefixOf (w.reverse ++ p) := by
  rw [endsWithWord, List.any_map, Bool.eq_iff_iff, List.any_eq_true, List.any_eq_true]
  refine exists_congr fun k => and_congr_right fun hk => ?_
  have named : ∀ c ∈ k, Call.continuesName c = true := by
    have checked : (prefixKeywords.all (·.all Call.continuesName)) = true := by decide
    exact List.all_eq_true.mp (List.all_eq_true.mp checked k hk)
  rw [Function.comp_apply, List.reverse_cons, standsAlone, Bool.and_eq_true,
    List.isPrefixOf_iff_prefix, List.isPrefixOf_iff_prefix]
  constructor
  · rintro ⟨⟨r, hr⟩, free⟩
    rw [← hr, List.drop_left] at free
    rcases List.append_eq_append_iff.mp hr with ⟨a, ha, rfl⟩ | ⟨a, ha, rfl⟩
    · -- the keyword ends inside the word, so a character of the word stands in front of it
      cases a with
      | nil =>
          rw [List.append_nil, List.reverse_inj] at ha
          exact absurd (ha ▸ hk) other
      | cons d a =>
          have part := hw d (List.mem_reverse.mp (ha ▸ by simp))
          have dollar : d = '$' := by
            have outside : isWordChar d = false := by simpa [startsWithWordChar] using free
            simpa [Call.continuesName, outside] using part
          exact ⟨a ++ p, by rw [ha, dollar]; simp⟩
    · -- the word is an end of the keyword, so what is in front of it goes on with the name
      cases a with
      | nil =>
          rw [List.append_nil, List.reverse_inj] at ha
          exact absurd (ha ▸ hk) other
      | cons d a =>
          have part := named d (List.mem_reverse.mp (ha ▸ by simp))
          rw [List.cons_append, List.head?_cons, Option.any_some, part] at front
          cases front
  · rintro ⟨r, hr⟩
    rw [List.append_assoc] at hr
    refine ⟨⟨_, hr⟩, ?_⟩
    rw [← hr, List.drop_left]
    exact show (!isWordChar '$') = true by decide

/-! Operands. -/

/-- The last character of an operand, with what is in front of it, and whether the test sees it. -/
structure Last (c : Char) (r : Text) : Prop where
  ink : isBlank c = false
  loose : Operator.isTight c = false
  seen : (!endsWithWord prefixKeywords (c :: r) && closes c) =
    !overlookedEnds.any fun e => e.reverse.isPrefixOf (c :: r)

namespace Last

theorem of_name {w p : Text} (nonempty : w ≠ []) (hw : ∀ c ∈ w, Call.continuesName c = true)
    (front : p.head?.any Call.continuesName = false) (other : w ∉ prefixKeywords) :
    ∃ c r, w.reverse ++ p = c :: r ∧ Last c r := by
  obtain ⟨c, r, hr⟩ := List.exists_cons_of_ne_nil (mt List.reverse_eq_nil_iff.mp nonempty)
  have named := hw c (List.mem_reverse.mp (hr ▸ List.mem_cons_self ..))
  have part : isWordPart c = true := by
    rw [Call.continuesName, Bool.or_eq_true] at named
    rcases named with named | named <;> simp [isWordPart, named]
  have closing : closes c = true := by
    simp only [Call.continuesName, isWordChar, Bool.or_eq_true] at named
    rcases named with (named | named) | named <;> simp [closes, named]
  have ends := endsWithWord_name hw front other
  rw [hr, List.cons_append] at ends
  have signs : ((["++", "--", "."].map String.toList).any fun e =>
      e.reverse.isPrefixOf (c :: (r ++ p))) = false := any_isPrefixOf_eq_false named _ (by decide)
  refine ⟨c, r ++ p, by rw [hr, List.cons_append], isBlank_of_isWordPart part,
    not_isTight (by decide) part, ?_⟩
  rw [ends, closing, Bool.and_true, overlookedEnds, List.any_append, signs, Bool.false_or]

theorem digit {c : Char} (h : isAsciiDigit c = true) (r : Text) : Last c r where
  ink := isBlank_of_isWordPart (by simp [isWordPart, isWordChar, isAlphanumeric, h])
  loose := not_isTight (by decide) h
  seen := by
    rw [endsWithWord_eq_false h _ (by decide), overlookedEnds,
      any_isPrefixOf_eq_false h _ (by decide)]
    simp [closes, isAlphanumeric, h]

theorem bracket {c : Char} (h : c = ')' ∨ c = ']') (r : Text) : Last c r := by
  rcases h with rfl | rfl
  all_goals
    refine ⟨by decide, by decide, ?_⟩
    rw [endsWithWord_eq_false (p := fun c => c == ')' || c == ']') (by decide) _ (by decide),
      any_isPrefixOf_eq_false (p := fun c => c == ')' || c == ']') (by decide) _ (by decide)]
    decide

/-- No character is seen that closes nothing, so an operand has to be overlooked there. -/
theorem unseen {c : Char} {r : Text} (ink : isBlank c = false) (loose : Operator.isTight c = false)
    (closing : closes c = false) (h : overlookedEnds.any (fun e => e.reverse.isPrefixOf (c :: r)) = true) :
    Last c r where
  ink := ink
  loose := loose
  seen := by rw [closing, h, Bool.and_false, Bool.not_true]

theorem dropWhile {c : Char} {r : Text} (h : Last c r) : (c :: r).dropWhile isBlank = c :: r :=
  List.dropWhile_cons_of_neg (Bool.eq_false_iff.mp h.ink)

end Last

theorem Ends.exists_last {t : Text} (h : Ends t) :
    ∃ c r, t.reverse.dropWhile isBlank = c :: r ∧ Last c r := by
  induction h with
  | @name t w nonempty hw front other =>
      obtain ⟨c, r, hr, last⟩ := Last.of_name (p := t.reverse) nonempty hw
        (by rwa [List.head?_reverse]) other
      exact ⟨c, r, by rw [List.reverse_append, hr, last.dropWhile], last⟩
  | @number t r d digit hr _ =>
      obtain ⟨c, s, hs⟩ :=
        List.exists_cons_of_ne_nil (mt List.reverse_eq_nil_iff.mp (List.cons_ne_nil d r))
      have last : Last c (s ++ t.reverse) := by
        rcases List.mem_cons.mp (List.mem_reverse.mp (hs ▸ List.mem_cons_self ..)) with rfl | hc
        · exact .digit digit _
        · rcases hr c hc with digit | rfl
          · exact .digit digit _
          · exact .unseen (by decide) (by decide) (by decide) rfl
      exact ⟨c, s ++ t.reverse, by rw [List.reverse_append, hs, List.cons_append, last.dropWhile], last⟩
  | @closing t c hc =>
      have last := Last.bracket hc t.reverse
      exact ⟨c, t.reverse, by rw [List.reverse_concat, last.dropWhile], last⟩
  | @update t op hop _ _ =>
      simp only [Operator.isUpdate, Bool.or_eq_true, beq_iff_eq] at hop
      rw [List.reverse_append]
      rcases hop with rfl | rfl
      · have last : Last '+' ('+' :: t.reverse) := .unseen (by decide) (by decide) (by decide) rfl
        exact ⟨'+', '+' :: t.reverse, last.dropWhile, last⟩
      · have last : Last '-' ('-' :: t.reverse) := .unseen (by decide) (by decide) (by decide) rfl
        exact ⟨'-', '-' :: t.reverse, last.dropWhile, last⟩
  | @blank t c hc _ ih => rwa [List.reverse_concat, List.dropWhile_cons_of_pos hc]

theorem Ends.last_ink {t : Text} (h : Ends t) :
    ∃ c, (t.filter (!isSpaceOrTab ·)).getLast? = some c ∧ c ≠ '!' := by
  obtain ⟨c, r, hr, last⟩ := h.exists_last
  have parts : t.reverse = t.reverse.takeWhile isBlank ++ c :: r := by
    rw [← hr, List.takeWhile_append_dropWhile]
  rw [List.getLast?_eq_head?_reverse, ← List.filter_reverse, parts, List.filter_append,
    List.filter_cons_of_pos (by rw [not_isSpaceOrTab last.ink, Bool.not_false])]
  cases hblank : (t.reverse.takeWhile isBlank).filter (!isSpaceOrTab ·) with
  | nil =>
      refine ⟨c, rfl, ?_⟩
      rintro rfl
      cases last.loose
  | cons d s =>
      refine ⟨d, rfl, ?_⟩
      have inside := List.mem_of_mem_filter (hblank ▸ List.mem_cons_self ..)
      have blank : isBlank d = true := List.all_eq_true.mp List.all_takeWhile d inside
      rintro rfl
      cases blank

variable {front gap passed : Text} (h : Ends front) (hgap : ∀ c ∈ gap, isSpaceOrTab c = true)
  (whole : gap ++ passed = front.reverse)

include h hgap whole

theorem Ends.isBehind : isBehind passed = !overlooked front.reverse := by
  obtain ⟨c, r, hr, last⟩ := h.exists_last
  rw [← isBehind_blanks hgap passed, whole, overlooked, Operand.isBehind, hr]
  exact last.seen

theorem Ends.lead : Operator.lead passed = [' '] := by
  obtain ⟨c, r, hr, last⟩ := h.exists_last
  have behind : passed.dropWhile isBlank = c :: r := by
    rw [← hr, ← whole, List.dropWhile_append_of_pos fun d hd => isBlank_of_isSpaceOrTab (hgap d hd)]
  rw [Operator.lead, behind]
  exact if_neg (Bool.eq_false_iff.mp last.loose)

end Operand
end MotionExpr
