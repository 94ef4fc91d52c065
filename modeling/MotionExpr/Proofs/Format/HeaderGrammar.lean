import MotionExpr.Proofs.Format.Headers

/-!
The grammar of control headers. What the scan accepts is said here without a scan: the pieces of a
header in their order, and what it means that the parenthesis of the keyword closes at the end.
A brace and an `else` in front are passed in one way only, since no keyword begins like either.
-/

namespace MotionExpr
namespace Header

open Text Literal

/-- The text closes `depth` parentheses more than it opens, and no front of it closes more. -/
structure Closing (depth : Nat) (t : Text) : Prop where
  within : ∀ front, front <+: t → front.count ')' ≤ front.count '(' + depth
  whole : t.count ')' = t.count '(' + depth

def IsGap (t : Text) : Prop := ∀ c ∈ t, isBlank c = true

/-- A closing brace with any blanks behind it, or nothing. -/
def IsBrace (t : Text) : Prop := t = [] ∨ ∃ gap, IsGap gap ∧ t = '\x7d' :: gap

/-- An `else` with the blanks that keep it apart from the next word, or nothing. -/
def IsElse (t : Text) : Prop := t = [] ∨ ∃ gap, IsGap gap ∧ gap ≠ [] ∧ t = "else".toList ++ gap

section Closing

variable {depth : Nat} {c : Char} {t : Text}

theorem closing_nil_iff : Closing depth [] ↔ depth = 0 := by
  constructor
  · intro h
    have whole := h.whole
    rw [List.count_nil, List.count_nil] at whole
    omega
  · rintro rfl
    refine ⟨fun front hfront => ?_, rfl⟩
    rw [List.prefix_nil.mp hfront]
    exact Nat.le_refl 0

/-- One character changes how many parentheses the rest has to close. -/
theorem closing_cons_iff : Closing depth (c :: t) ↔
    ∃ d, d + [c].count ')' = depth + [c].count '(' ∧ Closing d t := by
  have count (a : Char) (u : Text) : (c :: u).count a = [c].count a + u.count a :=
    @List.count_append _ _ a [c] u
  constructor
  · intro h
    have first := h.within [c] (List.prefix_append [c] t)
    refine ⟨depth + [c].count '(' - [c].count ')', by omega, fun front hfront => ?_, ?_⟩
    · have longer := h.within (c :: front) (List.prefix_cons_inj c |>.mpr hfront)
      rw [count ')', count '('] at longer
      omega
    · have whole := h.whole
      rw [count ')', count '('] at whole
      omega
  · rintro ⟨d, step, h⟩
    refine ⟨fun front hfront => ?_, ?_⟩
    · rcases List.prefix_cons_iff.mp hfront with rfl | ⟨rest, rfl, hrest⟩
      · exact Nat.zero_le _
      · have shorter := h.within rest hrest
        rw [count ')', count '(']
        omega
    · have whole := h.whole
      rw [count ')', count '(']
      omega

theorem exists_closing_cons_iff : (∃ inside, Closing depth inside ∧ c :: t = inside ++ [')']) ↔
    (depth = 0 ∧ c = ')' ∧ t = []) ∨ ∃ d, d + [c].count ')' = depth + [c].count '(' ∧
      ∃ inside, Closing d inside ∧ t = inside ++ [')'] := by
  constructor
  · rintro ⟨inside, closing, whole⟩
    cases inside with
    | nil =>
        obtain ⟨rfl, rfl⟩ := List.cons_eq_cons.mp whole
        exact .inl ⟨closing_nil_iff.mp closing, rfl, rfl⟩
    | cons d inside =>
        obtain ⟨rfl, rfl⟩ := List.cons_eq_cons.mp whole
        obtain ⟨d, step, closing⟩ := closing_cons_iff.mp closing
        exact .inr ⟨d, step, inside, closing, rfl⟩
  · rintro (⟨zero, rfl, rfl⟩ | ⟨d, step, inside, closing, rfl⟩)
    · exact ⟨[], closing_nil_iff.mpr zero, rfl⟩
    · exact ⟨c :: inside, closing_cons_iff.mpr ⟨d, step, closing⟩, rfl⟩

theorem closesAtEnd_iff :
    closesAtEnd depth t = true ↔ ∃ inside, Closing depth inside ∧ t = inside ++ [')'] := by
  induction t generalizing depth with
  | nil =>
      refine iff_of_false Bool.false_ne_true ?_
      rintro ⟨inside, -, whole⟩
      exact List.append_ne_nil_of_right_ne_nil inside (List.cons_ne_nil _ _) whole.symm
  | cons c r ih =>
      rw [exists_closing_cons_iff, closesAtEnd.eq_def]
      dsimp only
      by_cases opening : c = '('
      · subst opening
        simp [ih]
      · by_cases closing : c = ')'
        · subst closing
          cases depth with
          | zero => simp [opening]
          | succ d => simp [opening, ih]
        · simp [opening, closing, ih]

end Closing

theorem isGap_takeWhile (t : Text) : IsGap (t.takeWhile isBlank) := fun _ hc =>
  List.mem_takeWhile_imp hc

theorem trimStart_gap {gap t : Text} (h : IsGap gap)
    (ink : ∀ c, t.head? = some c → isBlank c = false) : trimStart (gap ++ t) = t := by
  rw [trimStart, List.dropWhile_append_of_pos h]
  cases t with
  | nil => rfl
  | cons c t => exact List.dropWhile_cons_of_neg (by simp [ink c rfl])

section Keyword

variable {k : ControlKeyword} {t : Text}

theorem opened?_eq_some_iff {r : Text} :
    opened? k t = some r ↔ ∃ gap, IsGap gap ∧ t = k.text ++ (gap ++ '(' :: r) := by
  rw [opened?]
  constructor
  · intro h
    split at h
    · next front =>
        obtain ⟨behind, rfl⟩ := List.isPrefixOf_iff_prefix.mp front
        rw [List.drop_left] at h
        split at h
        · next paren =>
            cases h
            refine ⟨behind.takeWhile isBlank, isGap_takeWhile behind, ?_⟩
            rw [← paren, trimStart, List.takeWhile_append_dropWhile]
        · cases h
    · cases h
  · rintro ⟨gap, blank, rfl⟩
    have paren : trimStart (gap ++ '(' :: r) = '(' :: r := trimStart_gap blank fun c hc => by
      cases hc
      rfl
    rw [if_pos (List.isPrefixOf_iff_prefix.mpr (List.prefix_append ..)), List.drop_left, paren]
    rfl

theorem heads_iff : heads k t = true ↔ ∃ gap inside, IsGap gap ∧ Closing 0 inside ∧
    t = k.text ++ (gap ++ '(' :: (inside ++ [')'])) := by
  rw [heads, Option.any_eq_true]
  constructor
  · rintro ⟨r, opened, closes⟩
    obtain ⟨gap, blank, rfl⟩ := opened?_eq_some_iff.mp opened
    obtain ⟨inside, closing, rfl⟩ := closesAtEnd_iff.mp closes
    exact ⟨gap, inside, blank, closing, rfl⟩
  · rintro ⟨gap, inside, blank, closing, rfl⟩
    exact ⟨_, opened?_eq_some_iff.mpr ⟨gap, blank, rfl⟩, closesAtEnd_iff.mpr ⟨inside, closing, rfl⟩⟩

/-! What is passed in front of the keyword. -/

theorem exists_skipBrace (t : Text) : ∃ brace, IsBrace brace ∧ t = brace ++ skipBrace t := by
  unfold skipBrace
  split
  · next r =>
      refine ⟨'\x7d' :: r.takeWhile isBlank, .inr ⟨_, isGap_takeWhile r, rfl⟩, ?_⟩
      rw [List.cons_append, trimStart, List.takeWhile_append_dropWhile]
  · exact ⟨[], .inl rfl, rfl⟩

theorem exists_skipElse (t : Text) : ∃ other, IsElse other ∧ t = other ++ skipElse t := by
  have none : ∃ other, IsElse other ∧ t = other ++ t := ⟨[], .inl rfl, rfl⟩
  rw [skipElse]
  split
  · next front =>
      obtain ⟨behind, rfl⟩ := List.isPrefixOf_iff_prefix.mp front
      have passed : ("else".toList ++ behind).drop 4 = behind := rfl
      rw [passed]
      cases behind with
      | nil => exact none
      | cons c r =>
          dsimp only
          split
          · next blank =>
              have gap : (c :: r).takeWhile isBlank = c :: r.takeWhile isBlank :=
                List.takeWhile_cons_of_pos blank
              refine ⟨"else".toList ++ c :: r.takeWhile isBlank,
                .inr ⟨_, ?_, List.cons_ne_nil _ _, rfl⟩, ?_⟩
              · rw [← gap]
                exact isGap_takeWhile _
              · rw [List.append_assoc, List.cons_append, trimStart, List.takeWhile_append_dropWhile]
          · exact none
  · exact none

/-- A keyword begins neither with a brace nor with an `else`, and with no blank. -/
theorem skipElse_keyword : skipElse (k.text ++ t) = k.text ++ t := by cases k <;> rfl

theorem isBlank_head_keyword : ∀ c, (k.text ++ t).head? = some c → isBlank c = false := by
  cases k <;> (intro c hc; cases hc; rfl)

theorem skipElse_append {other : Text} (h : IsElse other) :
    skipElse (other ++ (k.text ++ t)) = k.text ++ t := by
  rcases h with rfl | ⟨gap, blank, nonempty, rfl⟩
  · exact skipElse_keyword
  · obtain ⟨c, gap, rfl⟩ := List.exists_cons_of_ne_nil nonempty
    obtain ⟨hc, blank⟩ := List.forall_mem_cons.mp blank
    have passed : skipElse ("else".toList ++ (c :: gap) ++ (k.text ++ t)) =
        if isBlank c then trimStart (gap ++ (k.text ++ t)) else
          "else".toList ++ (c :: gap) ++ (k.text ++ t) := rfl
    rw [passed, if_pos hc, trimStart_gap blank isBlank_head_keyword]

theorem skipBrace_append {brace other : Text} (h : IsBrace brace) (ho : IsElse other) :
    skipBrace (brace ++ (other ++ (k.text ++ t))) = other ++ (k.text ++ t) := by
  have ink : ∀ c, (other ++ (k.text ++ t)).head? = some c → isBlank c = false ∧ c ≠ '\x7d' := by
    rcases ho with rfl | ⟨gap, -, -, rfl⟩
    · cases k <;> (intro c hc; cases hc; exact ⟨rfl, by decide⟩)
    · intro c hc
      cases hc
      exact ⟨rfl, by decide⟩
  rcases h with rfl | ⟨gap, blank, rfl⟩
  · exact skipBrace_eq_self fun brace => (ink _ brace).2 rfl
  · exact trimStart_gap blank fun c hc => (ink c hc).1

end Keyword

/-- Code is a control header exactly if its masked text is one by the grammar: a closing brace and
an `else`, each of which may be missing, one of the keywords, and a parenthesis that is closed at
the end of the text and not before. -/
theorem isControl_iff_grammar (keywords : List ControlKeyword) (code : Text) :
    isControl keywords code = true ↔ ∃ brace other gap inside, ∃ k ∈ keywords,
      IsBrace brace ∧ IsElse other ∧ IsGap gap ∧ Closing 0 inside ∧
      (mask (trim code)).1 = brace ++ (other ++ (k.text ++ (gap ++ '(' :: (inside ++ [')'])))) := by
  rw [isControl_eq, List.any_eq_true]
  constructor
  · rintro ⟨k, hk, header⟩
    obtain ⟨gap, inside, blank, closing, rest⟩ := heads_iff.mp header
    obtain ⟨brace, isBrace, whole⟩ := exists_skipBrace (mask (trim code)).1
    obtain ⟨other, isElse, behind⟩ := exists_skipElse (skipBrace (mask (trim code)).1)
    refine ⟨brace, other, gap, inside, k, hk, isBrace, isElse, blank, closing, ?_⟩
    rw [← rest, start, ← behind, ← whole]
  · rintro ⟨brace, other, gap, inside, k, hk, isBrace, isElse, blank, closing, whole⟩
    refine ⟨k, hk, heads_iff.mpr ⟨gap, inside, blank, closing, ?_⟩⟩
    rw [whole, start, skipBrace_append isBrace isElse, skipElse_append isElse]

example : isControl ControlKeyword.indenting "\x7d else if (f(a) && g(\")\"))".toList = true := by
  decide +kernel

end Header
end MotionExpr
