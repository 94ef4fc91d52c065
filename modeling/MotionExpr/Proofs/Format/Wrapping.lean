import MotionExpr.Format.Wrap
import MotionExpr.Proofs.Token.Coverage
import MotionExpr.Proofs.Token.Cuts

/-!
The tokens of a line that is broken. The search for a place looks at characters
only, so a cut may fall into a string, a comment or an operator of two characters;
the pieces have the tokens of the line unless one does. What a piece loses at its
end is blank, which matters to the last token of the line alone. Columns change
with every cut and are not compared.
-/

namespace MotionExpr
namespace Wrap

open Text Token

variable {p : Profile}

/-! Where a line is cut. -/

/-- How much of the content stays in front of a cut, if there is one. -/
def cutAt? (o : FormatOptions) (indent content : Text) : Option Nat :=
  let budget := o.maxLineLength - width o indent
  if (content.length : Int) ≤ budget || budget ≤ 0 then none
  else
    let stop := findBreak content budget
    if (trimEnd (content.upTo stop)).isEmpty || (trim (content.startingAt stop)).isEmpty then none
    else some (content.cut stop)

/-- Whether the cut is behind a preferred token. -/
def prefers (o : FormatOptions) (indent content : Text) : Bool :=
  (breakTokens.findSome? (breakBehind? content (o.maxLineLength - width o indent))).isSome

/-- Each cut by the column behind it and by whether it is behind a preferred token. The
content begins at the column. -/
def cutsFrom (o : FormatOptions) : (fuel : Nat) → (column : Int) → (indent content : Text) →
    List (Int × Bool)
  | 0, _, _, _ => []
  | fuel + 1, column, indent, content =>
      match cutAt? o indent content with
      | none => []
      | some i =>
          let rest := content.drop i
          (column + i, prefers o indent content) ::
            cutsFrom o fuel (column + i + (rest.takeWhile isBlank).length)
              (indent ++ continuation) (trim rest)

def cuts (o : FormatOptions) (line : Text) : List (Int × Bool) :=
  let indent := (splitIndent line).1
  cutsFrom o (trim line).length (1 + indent.length) indent (trim line)

theorem piecesFrom_of_none {o : FormatOptions} {indent content : Text}
    (h : cutAt? o indent content = none) (fuel : Nat) :
    piecesFrom o fuel indent content = [indent ++ content] := by
  cases fuel with
  | zero => rfl
  | succ fuel =>
      simp only [cutAt?] at h
      simp only [piecesFrom]
      split
      · rfl
      · next tooLong =>
          rw [if_neg tooLong] at h
          split
          · rfl
          · next kept =>
              rw [if_neg kept] at h
              cases h

theorem piecesFrom_of_some {o : FormatOptions} {indent content : Text} {i : Nat}
    (h : cutAt? o indent content = some i) (fuel : Nat) :
    i ≤ content.length ∧ piecesFrom o (fuel + 1) indent content =
      (indent ++ trimEnd (content.take i)) ::
        piecesFrom o fuel (indent ++ continuation) (trim (content.drop i)) := by
  simp only [cutAt?] at h
  simp only [piecesFrom]
  split at h
  · cases h
  · next tooLong =>
      split at h
      · cases h
      · next kept =>
          cases h
          rw [if_neg tooLong, if_neg kept]
          exact ⟨cut_le content _, rfl⟩

/-! The pieces. -/

theorem deeper {indent : Text} (hi : ∀ c ∈ indent, isBlank c = true) :
    ∀ c ∈ indent ++ continuation, isBlank c = true :=
  List.forall_mem_append.mpr ⟨hi, List.all_eq_true.mp (by decide)⟩

theorem trim_of_trimmed {a b : Text} (h : trimEnd (a ++ b) = a ++ b) : trim b = trimStart b := by
  rw [← trimStart_trimEnd, trimmed_of_append h]

/-- No token of a piece ends in a blank. -/
theorem trimmed_of_mem_pieces (o : FormatOptions) (fuel : Nat) {indent content : Text}
    (hi : ∀ c ∈ indent, isBlank c = true) (trimmed : trimEnd content = content) :
    ∀ x ∈ spell ((piecesFrom o fuel indent content).flatMap (lexemes p)), trimEnd x.2 = x.2 := by
  induction fuel generalizing indent content with
  | zero =>
      rw [piecesFrom, List.flatMap_singleton, lexemes_indented hi]
      exact trimmed_of_mem_spell trimmed
  | succ fuel ih =>
      cases hcut : cutAt? o indent content with
      | none =>
          rw [piecesFrom_of_none hcut, List.flatMap_singleton, lexemes_indented hi]
          exact trimmed_of_mem_spell trimmed
      | some i =>
          rw [(piecesFrom_of_some hcut fuel).2, List.flatMap_cons, spell_append,
            lexemes_indented hi]
          exact List.forall_mem_append.mpr
            ⟨trimmed_of_mem_spell (dropEndWhile_dropEndWhile _ _), ih (deeper hi) (trimEnd_trim _)⟩

theorem le_of_mem_cutsFrom {o : FormatOptions} {fuel : Nat} {column : Int} {indent content : Text}
    {cut : Int × Bool} (h : cut ∈ cutsFrom o fuel column indent content) : column ≤ cut.1 := by
  induction fuel generalizing column indent content with
  | zero => cases h
  | succ fuel ih =>
      rw [cutsFrom] at h
      split at h
      · cases h
      · cases List.mem_cons.mp h with
        | inl here =>
            rw [here]
            omega
        | inr there =>
            have behind := ih there
            omega

/-- Cut between tokens, a text falls into parts that have its tokens, and blanks at the cut
may be dropped. -/
theorem spell_cut {a b : Text} (trimmed : trimEnd (a ++ b) = a ++ b) {line column : Int}
    (clear : Clear (scanLine p line column 0 (a ++ b)) (column + a.length)) :
    spell (lexemes p (a ++ b)) =
      spell (lexemes p (trimEnd a)) ++ spell (lexemes p (trim b)) := by
  have parts : spell (lexemes p (a ++ b)) = spell (lexemes p a) ++ spell (lexemes p b) := by
    rw [← map_spelling_scanLine line column, scanLine_append clear, List.map_append,
      map_spelling_scanLine, map_spelling_scanLine]
  have front : spell (lexemes p (trimEnd a)) = spell (lexemes p a) := by
    refine spell_trimEnd fun x hx => trimmed_of_mem_spell (p := p) trimmed x ?_
    rw [parts]
    exact List.mem_append_left _ hx
  rw [parts, front, trim_of_trimmed trimmed, ← map_spelling_scanLine line column b,
    scanLine_trimStart, map_spelling_scanLine]

/-- Behind the first cut the columns are those of the rest. -/
theorem clear_behind_cut {a b : Text} (trimmed : trimEnd (a ++ b) = a ++ b) {line column : Int}
    (clear : Clear (scanLine p line column 0 (a ++ b)) (column + a.length)) {k : Int}
    (hk : column + a.length ≤ k) :
    Clear (scanLine p line column 0 (a ++ b)) k ↔
      Clear (scanLine p line (column + a.length + (b.takeWhile isBlank).length) 0 (trim b)) k := by
  rw [scanLine_append clear, Clear, List.forall_mem_append, trim_of_trimmed trimmed,
    scanLine_trimStart b]
  refine and_iff_right fun t ht => ?_
  have stop := endColumn_le_of_mem_scanLine ht
  omega

/-- The question for a text that is cut: whether the cut is between tokens, and then the same
question for the rest. -/
theorem spell_cut_iff {a b : Text} (trimmed : trimEnd (a ++ b) = a ++ b) {line column : Int}
    {rest : List Text} {later : List (Int × Bool)}
    (place : ∀ cut ∈ later, column + a.length ≤ cut.1)
    (step : spell (rest.flatMap (lexemes p)) = spell (lexemes p (trim b)) ↔ ∀ cut ∈ later,
      Clear (scanLine p line (column + a.length + (b.takeWhile isBlank).length) 0 (trim b)) cut.1) :
    spell (lexemes p (trimEnd a)) ++ spell (rest.flatMap (lexemes p)) =
        spell (lexemes p (a ++ b)) ↔
      Clear (scanLine p line column 0 (a ++ b)) (column + a.length) ∧
        ∀ cut ∈ later, Clear (scanLine p line column 0 (a ++ b)) cut.1 := by
  have behind (clear : Clear (scanLine p line column 0 (a ++ b)) (column + a.length)) :
      spell (lexemes p (trimEnd a)) ++ spell (rest.flatMap (lexemes p)) =
          spell (lexemes p (a ++ b)) ↔
        ∀ cut ∈ later, Clear (scanLine p line column 0 (a ++ b)) cut.1 := by
    rw [spell_cut trimmed clear, List.append_cancel_left_eq, step]
    exact forall₂_congr fun cut hcut => (clear_behind_cut trimmed clear (place cut hcut)).symm
  constructor
  · intro same
    have clear := clear_of_spell same line column
    exact ⟨clear, (behind clear).mp same⟩
  · rintro ⟨clear, others⟩
    exact (behind clear).mpr others

/-- The pieces of a text have its tokens, if each cut is between two of them. -/
theorem spell_piecesFrom_iff (o : FormatOptions) (fuel : Nat) {indent content : Text}
    (hi : ∀ c ∈ indent, isBlank c = true) (trimmed : trimEnd content = content)
    (line column : Int) :
    spell ((piecesFrom o fuel indent content).flatMap (lexemes p)) = spell (lexemes p content) ↔
      ∀ cut ∈ cutsFrom o fuel column indent content,
        Clear (scanLine p line column 0 content) cut.1 := by
  induction fuel generalizing indent content column with
  | zero =>
      rw [piecesFrom, List.flatMap_singleton, lexemes_indented hi]
      exact iff_of_true rfl (List.forall_mem_nil _)
  | succ fuel ih =>
      cases hcut : cutAt? o indent content with
      | none =>
          rw [piecesFrom_of_none hcut, List.flatMap_singleton, lexemes_indented hi, cutsFrom, hcut]
          exact iff_of_true rfl (List.forall_mem_nil _)
      | some i =>
          obtain ⟨inside, pieces⟩ := piecesFrom_of_some hcut fuel
          have whole : content.take i ++ content.drop i = content := List.take_append_drop i content
          have size : (content.take i).length = i := by
            rw [List.length_take]
            omega
          have later (cut) (h : cut ∈ cutsFrom o fuel
              (column + i + ((content.drop i).takeWhile isBlank).length) (indent ++ continuation)
              (trim (content.drop i))) : column + i ≤ cut.1 := by
            have place := le_of_mem_cutsFrom h
            omega
          have step := @spell_cut_iff p (content.take i) (content.drop i) (by rwa [whole]) line
            column _ _ (by rwa [size]) (by
              rw [size]
              exact ih (deeper hi) (trimEnd_trim _) _)
          rw [whole, size] at step
          rw [pieces, cutsFrom, hcut, List.flatMap_cons, spell_append, lexemes_indented hi, step]
          simp only [List.forall_mem_cons]

/-! A line. -/

/-- A piece has no characters but those of the line and the spaces in front of it. -/
theorem not_mem_piecesFrom (o : FormatOptions) (fuel : Nat) {c : Char} (gap : c ∉ continuation)
    {indent content : Text} (hi : c ∉ indent) (hc : c ∉ content) :
    ∀ l ∈ piecesFrom o fuel indent content, c ∉ l := by
  have together : c ∉ indent ++ content := List.not_mem_append hi hc
  induction fuel generalizing indent content with
  | zero => exact List.forall_mem_singleton.mpr together
  | succ fuel ih =>
      cases hcut : cutAt? o indent content with
      | none =>
          rw [piecesFrom_of_none hcut]
          exact List.forall_mem_singleton.mpr together
      | some i =>
          have kept : c ∉ trimEnd (content.take i) := fun hm =>
            hc (List.mem_of_mem_take ((isPrefix_dropEndWhile isBlank _).mem hm))
          have left : c ∉ trim (content.drop i) := fun hm =>
            hc (List.mem_of_mem_drop ((List.dropWhile_sublist _).mem
              ((isPrefix_dropEndWhile isBlank _).mem hm)))
          have further : c ∉ indent ++ continuation := List.not_mem_append hi gap
          rw [(piecesFrom_of_some hcut fuel).2, List.forall_mem_cons]
          exact ⟨List.not_mem_append hi kept,
            ih further left (List.not_mem_append further left)⟩

theorem not_newline_piecesFrom (o : FormatOptions) (fuel : Nat) {indent content : Text}
    (hi : '\n' ∉ indent) (hc : '\n' ∉ content) : ∀ l ∈ piecesFrom o fuel indent content, '\n' ∉ l :=
  not_mem_piecesFrom o fuel (by decide) hi hc

theorem map_spelling_unlines {ls : List Text} (hne : ls ≠ []) (h : ∀ l ∈ ls, '\n' ∉ l) :
    (tokenize p (unlines ls)).map spelling = spell (ls.flatMap (lexemes p)) := by
  rw [map_spelling_tokenize, lines_unlines hne h]

theorem piecesFrom_ne_nil (o : FormatOptions) (fuel : Nat) (indent content : Text) :
    piecesFrom o fuel indent content ≠ [] := by
  cases fuel with
  | zero => exact List.cons_ne_nil _ _
  | succ fuel =>
      cases hcut : cutAt? o indent content with
      | none =>
          rw [piecesFrom_of_none hcut]
          exact List.cons_ne_nil _ _
      | some i =>
          rw [(piecesFrom_of_some hcut fuel).2]
          exact List.cons_ne_nil _ _

/-- The line with its blanks at both ends, or without those behind it. -/
theorem scanLine_trim {line : Text} (trimmed : ∀ x ∈ spell (lexemes p line), trimEnd x.2 = x.2)
    (row : Int) :
    scanLine p row (1 + (splitIndent line).1.length) 0 (trim line) = scanLine p row 1 0 line := by
  have same : spell (lexemes p (trimStart line)) = spell (lexemes p line) := by
    rw [← map_spelling_scanLine 1 1 line, scanLine_trimStart, map_spelling_scanLine]
  rw [scanLine_trimStart line]
  rw [← same] at trimmed
  exact scanLine_trimEnd trimmed row _

/-- A line and its pieces have the same tokens just if no token of it ends in a blank and no
cut falls into one. Where the limit is no whole number there is no cut. -/
theorem pieces_keep_tokens_iff (p : Profile) (o : FormatOptions) {line : Text} (hn : '\n' ∉ line) :
    ((tokenize p (unlines (pieces o line))).map spelling = (tokenize p line).map spelling ↔
      (∀ t ∈ tokenize p line, trimEnd t.text = t.text) ∧
        ∀ cut ∈ cuts o line, Clear (tokenize p line) cut.1) ∧
    ∀ limit us, measuredPieces o limit line = .ok us →
      ((tokenize p (unlines us)).map spelling = (tokenize p line).map spelling ↔
        ∀ t ∈ tokenize p line, trimEnd t.text = t.text) := by
  have indentBlank : ∀ c ∈ (splitIndent line).1, isBlank c = true :=
    List.all_eq_true.mp List.all_takeWhile
  have indentLine : '\n' ∉ (splitIndent line).1 := fun hm => hn ((List.takeWhile_sublist _).mem hm)
  have contentLine : '\n' ∉ trim line := fun hm =>
    hn ((List.dropWhile_sublist _).mem ((isPrefix_dropEndWhile isBlank _).mem hm))
  have tokens : (tokenize p line).map spelling = spell (lexemes p line) := by
    rw [tokenize_of_not_newline hn, map_spelling_scanLine]
  have texts : (∀ t ∈ tokenize p line, trimEnd t.text = t.text) ↔
      ∀ x ∈ spell (lexemes p line), trimEnd x.2 = x.2 := by
    rw [← tokens, List.forall_mem_map]
    rfl
  have content (trimmed : ∀ x ∈ spell (lexemes p line), trimEnd x.2 = x.2) :
      spell (lexemes p (trim line)) = spell (lexemes p line) := by
    rw [← map_spelling_scanLine 1 1 line, ← scanLine_trim trimmed, map_spelling_scanLine]
  rw [texts, tokens]
  constructor
  · have parts : (tokenize p (unlines (pieces o line))).map spelling =
        spell ((pieces o line).flatMap (lexemes p)) :=
      map_spelling_unlines (piecesFrom_ne_nil _ _ _ _)
        (not_newline_piecesFrom o _ indentLine contentLine)
    have asked (trimmed : ∀ x ∈ spell (lexemes p line), trimEnd x.2 = x.2) :
        spell ((pieces o line).flatMap (lexemes p)) = spell (lexemes p line) ↔
          ∀ cut ∈ cuts o line, Clear (tokenize p line) cut.1 := by
      rw [← content trimmed, tokenize_of_not_newline hn, ← scanLine_trim trimmed]
      exact spell_piecesFrom_iff o _ indentBlank (trimEnd_trim line) 1 _
    rw [parts]
    constructor
    · intro same
      have trimmed : ∀ x ∈ spell ((pieces o line).flatMap (lexemes p)), trimEnd x.2 = x.2 :=
        trimmed_of_mem_pieces o _ indentBlank (trimEnd_trim line)
      rw [same] at trimmed
      exact ⟨trimmed, (asked trimmed).mp same⟩
    · rintro ⟨trimmed, clear⟩
      exact (asked trimmed).mpr clear
  · intro limit us h
    have whole : us = [(splitIndent line).1 ++ trim line] := by
      simp only [measuredPieces] at h
      split at h
      · cases h
      · cases h
        rfl
    rw [whole, map_spelling_unlines (List.cons_ne_nil _ _)
      (List.forall_mem_singleton.mpr (List.not_mem_append indentLine contentLine)),
      List.flatMap_singleton, lexemes_indented indentBlank]
    constructor
    · intro same
      rw [← same]
      exact trimmed_of_mem_spell (trimEnd_trim line)
    · exact content

/-- A call broken behind a comma of its own, and not behind the one in its string. -/
theorem pieces_keep_tokens_call :
    let o : FormatOptions := { maxLineLength := 10 }
    let line := "f(\"a,b\", beta)".toList
    '\n' ∉ line ∧ pieces o line = ["f(\"a,b\",", "  beta)"].map String.toList ∧
      (tokenize .standard (unlines (pieces o line))).map spelling =
        (tokenize .standard line).map spelling := by
  intro o line
  have single : '\n' ∉ line := by decide
  refine ⟨single, by decide +kernel, (pieces_keep_tokens_iff .standard o single).1.mpr ⟨?_, ?_⟩⟩
  · decide +kernel
  · decide +kernel

/-- The last comma within the limit stands in a string, and the cut behind it splits the string. -/
theorem pieces_split_string :
    let o : FormatOptions := { maxLineLength := 8 }
    let line := "f(\"a, b\", c)".toList
    (∀ cut ∈ cuts o line, cut.2 = true) ∧
      (tokenize .standard (unlines (pieces o line))).map spelling ≠
        (tokenize .standard line).map spelling := by
  decide +kernel

end Wrap
end MotionExpr
