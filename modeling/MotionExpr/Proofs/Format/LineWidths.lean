import MotionExpr.Proofs.Format.Blanks
import MotionExpr.Proofs.Format.Wrapping

/-!
How wide the lines of a wrapped text are. A line is measured with its tabs expanded
before it is broken, and so is the indentation of each piece; but of the rest of a
piece the characters are counted. A tab counts as one there, so a piece with a tab
behind its indentation may fit by the count and still be too wide.
-/

namespace MotionExpr

namespace Text

theorem trimEnd_take_ne_nil {content : Text} (unindented : Unindented content) {i : Nat}
    (pos : 0 < i) (inside : 0 < content.length) : trimEnd (content.take i) ≠ [] := by
  obtain ⟨c, r, rfl⟩ := List.exists_cons_of_length_pos inside
  obtain ⟨n, rfl⟩ := Nat.exists_eq_succ_of_ne_zero pos.ne'
  have ink : ∀ d ∈ [c], isBlank d = false := List.forall_mem_singleton.mpr (unindented c r rfl)
  rw [List.take_succ_cons, ← List.singleton_append, trimEnd_append_ink ink]
  exact List.cons_ne_nil _ _

theorem trim_drop_ne_nil {content : Text} (trimmed : trimEnd content = content) {i : Nat}
    (inside : i < content.length) : trim (content.drop i) ≠ [] := by
  intro empty
  rw [← List.take_append_drop i content] at trimmed
  rw [Wrap.trim_of_trimmed trimmed] at empty
  have blank : ∀ c ∈ content.drop i, isBlank c = true := List.dropWhile_eq_nil_iff.mp empty
  have none : content.drop i = [] :=
    (trimmed_of_append trimmed).symm.trans (dropEndWhile_eq_nil blank)
  rw [List.drop_eq_nil_iff] at none
  omega

theorem unindented_trim (t : Text) : Unindented (trim t) := by
  obtain ⟨rest, whole⟩ := isPrefix_dropEndWhile isBlank (t.dropWhile isBlank)
  have front := unindented_trimStart t
  rw [trimStart, ← whole] at front
  exact front.of_append

theorem unindented_trimEnd_take {content : Text} (unindented : Unindented content) (i : Nat) :
    Unindented (trimEnd (content.take i)) := by
  obtain ⟨rest, whole⟩ :=
    (isPrefix_dropEndWhile isBlank (content.take i)).trans (List.take_prefix i content)
  rw [← whole] at unindented
  exact unindented.of_append

theorem lastIndexOf?_add_le {needle t : Text} {i : Nat} (h : lastIndexOf? needle t = some i) :
    i + needle.length ≤ t.length := by
  induction t generalizing i with
  | nil =>
      simp only [lastIndexOf?] at h
      split at h
      · next empty =>
          cases h
          rw [List.isEmpty_iff.mp empty]
          exact Nat.le_refl _
      · cases h
  | cons c r ih =>
      rw [lastIndexOf?] at h
      split at h
      · next j found =>
          cases h
          have rest := ih found
          rw [List.length_cons]
          omega
      · split at h
        · next here =>
            cases h
            rw [Nat.zero_add]
            exact (List.isPrefixOf_iff_prefix.mp here).length_le
        · cases h

end Text

namespace Wrap

open Text

/-! Widths. -/

theorem widthFrom_append (tabSize column : Nat) (a b : Text) :
    ∃ behind, widthFrom tabSize column (a ++ b) =
      widthFrom tabSize column a + widthFrom tabSize behind b := by
  induction a generalizing column with
  | nil => exact ⟨column, (Nat.zero_add _).symm⟩
  | cons c r ih =>
      rw [List.cons_append, widthFrom, widthFrom]
      split
      · obtain ⟨behind, h⟩ := ih (column + (tabSize - column % tabSize))
        exact ⟨behind, by simp only [h, Nat.add_assoc]⟩
      · split
        · obtain ⟨behind, h⟩ := ih 0
          exact ⟨behind, by rw [h, Nat.add_assoc]⟩
        · obtain ⟨behind, h⟩ := ih (column + 1)
          exact ⟨behind, by rw [h, Nat.add_assoc]⟩

theorem widthFrom_of_no_tab (tabSize column : Nat) {t : Text} (h : '\t' ∉ t) :
    widthFrom tabSize column t = t.length := by
  induction t generalizing column with
  | nil => rfl
  | cons c r ih =>
      obtain ⟨plain, rest⟩ := not_or.mp (mt List.mem_cons.mpr h)
      rw [widthFrom, if_neg (Ne.symm plain), ih 0 rest, ih (column + 1) rest, ite_self,
        List.length_cons, Nat.add_comm]

theorem length_le_widthFrom {tabSize : Nat} (pos : 0 < tabSize) (column : Nat) (t : Text) :
    t.length ≤ widthFrom tabSize column t := by
  induction t generalizing column with
  | nil => exact Nat.zero_le _
  | cons c r ih =>
      rw [widthFrom, List.length_cons]
      have step := Nat.mod_lt column pos
      have tab := ih (column + (tabSize - column % tabSize))
      have newline := ih 0
      have other := ih (column + 1)
      split
      · dsimp only
        omega
      · split <;> omega

/-- The columns of a line as breaking counts them: those of the indentation, and the
characters of the rest. -/
def counted (o : FormatOptions) (line : Text) : Nat :=
  width o (splitIndent line).1 + (splitIndent line).2.length

theorem width_eq (o : FormatOptions) (line : Text) : ∃ behind,
    width o line = width o (splitIndent line).1 +
      widthFrom o.tabSize behind (splitIndent line).2 := by
  obtain ⟨behind, h⟩ := widthFrom_append o.tabSize 0 (splitIndent line).1 (splitIndent line).2
  rw [splitIndent_append] at h
  exact ⟨behind, h⟩

theorem counted_le_width (o : FormatOptions) (line : Text) : counted o line ≤ width o line := by
  obtain ⟨behind, h⟩ := width_eq o line
  have body := length_le_widthFrom o.tabSize_pos behind (splitIndent line).2
  rw [h, counted]
  omega

theorem counted_of_no_tab (o : FormatOptions) {line : Text} (h : '\t' ∉ (splitIndent line).2) :
    counted o line = width o line := by
  obtain ⟨behind, hw⟩ := width_eq o line
  rw [hw, counted, widthFrom_of_no_tab _ _ h]

theorem counted_indented (o : FormatOptions) {indent content : Text}
    (hi : ∀ c ∈ indent, isBlank c = true) (hc : Unindented content) :
    counted o (indent ++ content) = width o indent + content.length := by
  rw [counted, splitIndent_indented hi hc]

/-! Where a piece ends. -/

theorem breakBehind?_le {content token : Text} {budget : Int} (pos : 0 < budget) {i : Nat}
    (h : breakBehind? content budget token = some i) : 0 < i ∧ (i : Int) ≤ budget := by
  rw [breakBehind?] at h
  split at h
  · next j found =>
      cases h
      have inside := lastIndexOf?_add_le found
      have short : (content.upTo budget).length ≤ budget.toNat := by
        rw [upTo, cut, if_neg (by omega), List.length_take]
        omega
      omega
  · cases h

/-- A piece ends behind its first character at the earliest, and at the budget at the latest. -/
theorem findBreak_bounds (content : Text) {budget : Int} (pos : 0 < budget) :
    0 < findBreak content budget ∧ findBreak content budget ≤ budget := by
  rw [findBreak]
  split
  · next i found =>
      obtain ⟨token, -, h⟩ := List.exists_of_findSome?_eq_some found
      have bounds := breakBehind?_le pos h
      omega
  · exact ⟨pos, Int.le_refl _⟩

section Cut

variable {o : FormatOptions} {indent content : Text}

theorem le_of_cutAt? {i : Nat} (h : cutAt? o indent content = some i) :
    0 < i ∧ (i : Int) ≤ o.maxLineLength - width o indent := by
  simp only [cutAt?, Bool.or_eq_true, decide_eq_true_eq] at h
  split at h
  · cases h
  · next tooLong =>
      have bounds := findBreak_bounds content (by omega : 0 < o.maxLineLength - width o indent)
      split at h
      · cases h
      · cases h
        rw [cut, if_neg (by omega)]
        omega

/-- Content that begins and ends in ink, cut where a piece ends: there is ink in both parts. -/
theorem parts_ne_nil (unindented : Unindented content) (trimmed : trimEnd content = content)
    {budget : Int} (room : 0 < budget) (long : budget < content.length) :
    trimEnd (content.upTo (findBreak content budget)) ≠ [] ∧
      trim (content.startingAt (findBreak content budget)) ≠ [] := by
  have bounds := findBreak_bounds content room
  have inside : 0 < content.cut (findBreak content budget) ∧
      content.cut (findBreak content budget) < content.length := by
    rw [cut, if_neg (by omega)]
    omega
  exact ⟨trimEnd_take_ne_nil unindented inside.1 (by omega), trim_drop_ne_nil trimmed inside.2⟩

/-- Content that begins and ends in ink is cut unless it fits or has no room at all. -/
theorem fits_of_cutAt? (unindented : Unindented content) (trimmed : trimEnd content = content)
    (h : cutAt? o indent content = none) :
    (width o indent + content.length : Int) ≤ o.maxLineLength ∨
      o.maxLineLength ≤ width o indent := by
  simp only [cutAt?, Bool.or_eq_true, decide_eq_true_eq] at h
  split at h
  · omega
  · next tooLong =>
      have parts := parts_ne_nil unindented trimmed
        (by omega : 0 < o.maxLineLength - width o indent) (by omega)
      rw [if_neg] at h
      · cases h
      · simpa only [List.isEmpty_iff, not_or] using parts

end Cut

/-- Each piece is within the limit as breaking counts, unless its indentation leaves no room. -/
theorem counted_of_mem_piecesFrom (o : FormatOptions) (fuel : Nat) {indent content : Text}
    (hi : ∀ c ∈ indent, isBlank c = true) (unindented : Unindented content)
    (trimmed : trimEnd content = content) (enough : content.length ≤ fuel) :
    ∀ l ∈ piecesFrom o fuel indent content,
      (counted o l : Int) ≤ o.maxLineLength ∨ o.maxLineLength ≤ width o (splitIndent l).1 := by
  induction fuel generalizing indent content with
  | zero =>
      have empty : content = [] := List.eq_nil_of_length_eq_zero (by omega)
      rw [piecesFrom, List.forall_mem_singleton, counted_indented o hi unindented,
        splitIndent_indented hi unindented, empty, List.length_nil]
      dsimp only
      omega
  | succ fuel ih =>
      cases hcut : cutAt? o indent content with
      | none =>
          rw [piecesFrom_of_none hcut, List.forall_mem_singleton, counted_indented o hi unindented,
            splitIndent_indented hi unindented, Int.natCast_add]
          exact fits_of_cutAt? unindented trimmed hcut
      | some i =>
          have place := le_of_cutAt? hcut
          obtain ⟨inside, pieces⟩ := piecesFrom_of_some hcut fuel
          have front := unindented_trimEnd_take unindented i
          have size : (trimEnd (content.take i)).length ≤ i :=
            (isPrefix_dropEndWhile isBlank _).length_le.trans (List.length_take_le i content)
          have shorter : (trim (content.drop i)).length ≤ fuel := by
            have kept : (trim (content.drop i)).length ≤ (content.drop i).length :=
              (isPrefix_dropEndWhile isBlank _).length_le.trans (List.dropWhile_sublist _).length_le
            rw [List.length_drop] at kept
            omega
          rw [pieces, List.forall_mem_cons]
          constructor
          · rw [counted_indented o hi front]
            omega
          · exact ih (deeper hi) (unindented_trim _) (trimEnd_trim _) shorter

section Source

variable {o : FormatOptions} {line : Text}

theorem not_newline_pieces (hn : '\n' ∉ line) : ∀ l ∈ pieces o line, '\n' ∉ l := by
  refine not_newline_piecesFrom o _ (fun h => hn ((List.takeWhile_sublist _).mem h)) fun h => hn ?_
  exact (List.dropWhile_sublist _).mem ((isPrefix_dropEndWhile isBlank _).mem h)

theorem counted_of_mem_wrapLine : ∀ l ∈ wrapLine o line,
    (counted o l : Int) ≤ o.maxLineLength ∨ o.maxLineLength ≤ width o (splitIndent l).1 := by
  rw [wrapLine]
  split
  · next fits =>
      have shorter := counted_le_width o line
      exact List.forall_mem_singleton.mpr (.inl (by omega))
  · exact counted_of_mem_piecesFrom o _ (List.all_eq_true.mp List.all_takeWhile)
      (unindented_trim line) (trimEnd_trim line) (Nat.le_refl _)

theorem lines_apply (o : FormatOptions) (source : Text) :
    lines (apply o source) = (lines source).flatMap (wrapLine o) := by
  refine lines_unlines ?_ (List.forall_mem_flatMap.mpr fun line hl => ?_)
  · obtain ⟨l, ls, h⟩ := List.exists_cons_of_ne_nil (lines_ne_nil source)
    rw [h, List.flatMap_cons, wrapLine]
    split
    · exact List.cons_ne_nil _ _
    · exact List.append_ne_nil_of_left_ne_nil (piecesFrom_ne_nil _ _ _ _) _
  · have single := not_newline_of_mem_lines hl
    rw [wrapLine]
    split
    · exact List.forall_mem_singleton.mpr single
    · exact not_newline_pieces single

end Source

/-! A limit that is no whole number. -/

section Measured

variable {o : FormatOptions} {limit : Float} {line : Text}

/-- What a limit that is no whole number may ask of a line. -/
def Measured (o : FormatOptions) (limit : Float) (line : Text) : Prop :=
  Float.ofNat (width o line) ≤ limit ∨ exceeds (counted o line) limit = false ∨
    limit ≤ Float.ofNat (width o (splitIndent line).1)

/-- A line that is let pass is as it was, or without the blanks behind it. -/
theorem of_measureLine {us : List Text} (h : measureLine o limit line = .ok us) :
    ∃ u, us = [u] ∧ Measured o limit u ∧ (u = line ∨ u = (splitIndent line).1 ++ trim line) := by
  simp only [measureLine, measuredPieces] at h
  split at h
  · next fits =>
      cases h
      exact ⟨line, rfl, .inl fits, .inl rfl⟩
  · split at h
    · cases h
    · next short =>
        cases h
        have indentBlank : ∀ c ∈ (splitIndent line).1, isBlank c = true :=
          List.all_eq_true.mp List.all_takeWhile
        have parts := splitIndent_indented indentBlank (unindented_trim line)
        refine ⟨_, rfl, .inr ?_, .inr rfl⟩
        rw [counted_indented o indentBlank (unindented_trim line), parts]
        simpa [imp_iff_or_not, or_comm] using short

/-- The lines of a measured text are in step with those of the text. -/
theorem forall₂_of_measure {source t : Text} (h : measure o limit source = .ok t) :
    List.Forall₂ (fun l u => measureLine o limit l = .ok [u]) (lines source) (lines t) := by
  obtain ⟨pss, hm, rfl⟩ := map_eq_ok_iff.mp h
  have single : ∀ l ∈ lines source, '\n' ∉ l := fun l => not_newline_of_mem_lines
  have step : List.Forall₂ (fun l u => measureLine o limit l = .ok [u]) (lines source) pss.flatten ∧
      ∀ u ∈ pss.flatten, '\n' ∉ u := by
    have each := Line.forall₂_of_mapM hm
    clear hm h
    generalize lines source = ls at single each
    induction each with
    | nil => exact ⟨.nil, List.forall_mem_nil _⟩
    | @cons l us ls pss hl _ ih =>
        obtain ⟨here, rest⟩ := List.forall_mem_cons.mp single
        obtain ⟨related, others⟩ := ih rest
        obtain ⟨u, rfl, -, hu⟩ := of_measureLine hl
        refine ⟨.cons hl related, List.forall_mem_cons.mpr ⟨?_, others⟩⟩
        rcases hu with rfl | rfl
        · exact here
        · exact List.not_mem_append (fun hc => here ((List.takeWhile_sublist _).mem hc)) fun hc =>
            here ((List.dropWhile_sublist _).mem ((isPrefix_dropEndWhile isBlank _).mem hc))
  have nonempty : pss.flatten ≠ [] := fun none => by
    rw [none, List.forall₂_nil_right_iff] at step
    exact lines_ne_nil source step.1
  rw [lines_unlines nonempty step.2]
  exact step.1

end Measured

/-- A line of a wrapped text is wider than the limit in spite of room behind its indentation
just if it is within the limit as breaking counts. Then a tab stands behind its indentation. -/
theorem width_le_iff_counted (o : FormatOptions) (source : Text) :
    (∀ l ∈ lines (apply o source),
      ((width o l ≤ o.maxLineLength ∨ o.maxLineLength ≤ width o (splitIndent l).1) ↔
        ¬(counted o l ≤ o.maxLineLength ∧ o.maxLineLength < width o l)) ∧
      ('\t' ∉ (splitIndent l).2 → counted o l = width o l)) ∧
    ∀ limit t, measure o limit source = .ok t → ∀ l ∈ lines t, Measured o limit l := by
  constructor
  · intro l hl
    rw [lines_apply] at hl
    obtain ⟨line, -, hl⟩ := List.mem_flatMap.mp hl
    have law := counted_of_mem_wrapLine l hl
    have indent : width o (splitIndent l).1 + (splitIndent l).2.length = counted o l := rfl
    refine ⟨⟨?_, ?_⟩, counted_of_no_tab o⟩
    · rintro claimed ⟨short, wide⟩
      obtain ⟨behind, parts⟩ := width_eq o l
      have empty : (splitIndent l).2 = [] := List.eq_nil_of_length_eq_zero (by omega)
      rw [empty, widthFrom] at parts
      omega
    · intro sound
      omega
  · intro limit t ht l hl
    obtain ⟨row, hrow, rfl⟩ := List.mem_iff_getElem.mp hl
    have related := forall₂_of_measure ht
    obtain ⟨u, same, measured, -⟩ :=
      of_measureLine (related.get (related.length_eq ▸ hrow) hrow)
    cases same
    exact measured

/-- Behind the comma a tab reaches to the eighth column, but two characters are counted. -/
example :
    let o : FormatOptions := { tabSize := 8, maxLineLength := 6 }
    apply o "a,\tb".toList = "a,\tb".toList ∧ width o "a,\tb".toList = 9 ∧
      counted o "a,\tb".toList = 4 := by
  decide

end Wrap
end MotionExpr
