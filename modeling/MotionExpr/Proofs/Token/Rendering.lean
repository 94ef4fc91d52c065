import MotionExpr.Proofs.Token.Boundary
import MotionExpr.Proofs.Token.Coverage

/-!
Printing tokens and reading them again. On each line the texts of its tokens stand
with a space between them, and a line without tokens is empty. Every token is the
longest of its kind, so what is behind it can be pushed away by a space. Columns
are not kept, and neither are the kind and number of the blanks between tokens.
-/

namespace MotionExpr
namespace Text

theorem concatSep_cons (sep t : Text) {ts : List Text} (h : ts ≠ []) :
    concatSep sep (t :: ts) = t ++ sep ++ concatSep sep ts := by
  cases ts with
  | nil => exact absurd rfl h
  | cons u us => rfl

theorem not_newline_concatSep {ts : List Text} (h : ∀ t ∈ ts, '\n' ∉ t) :
    '\n' ∉ concatSep [' '] ts := by
  induction ts with
  | nil => exact List.not_mem_nil
  | cons t ts ih =>
      obtain ⟨first, rest⟩ := List.forall_mem_cons.mp h
      by_cases last : ts = []
      · subst last
        exact first
      · rw [concatSep_cons _ _ last, List.mem_append, List.mem_append]
        rintro ((inside | inside) | inside)
        · exact first inside
        · exact absurd inside (by decide)
        · exact ih rest inside

end Text

namespace Token

variable {p : Profile}

def onLine (line : Int) (ts : List Token) : List Token := ts.filter (·.line = line)

/-- The texts of the tokens, a space between them, on `rows` lines. -/
def render (rows : Nat) (ts : List Token) : Text :=
  Text.unlines ((List.range rows).map fun row : Nat =>
    Text.concatSep [' '] ((onLine (row + 1) ts).map Token.text))

/-! One line. -/

theorem spell_lexemes_spaced (l : Text) :
    spell (lexemes p (Text.concatSep [' '] ((spell (lexemes p l)).map (·.2)))) =
      spell (lexemes p l) := by
  induction l using scan_induction p with
  | nil => rfl
  | blank c r hc ih => rwa [lexemes_of_none hc]
  | token c kind w behind hc ih =>
      rw [lexemes_of_some hc rfl, spell_cons, List.map_cons]
      by_cases last : spell (lexemes p behind) = []
      · have alone := lexeme?_of_ends hc (ends_nil behind)
        have single : c :: w = c :: (w ++ []) := by rw [List.append_nil]
        rw [last, List.map_nil, Text.concatSep, single, lexemes_of_some alone rfl,
          List.append_nil]
        rfl
      · have more : behind ≠ [] := by
          rintro rfl
          exact last rfl
        have cutOff := lexeme?_of_ends hc
          (ends_blank more (d := ' ') rfl
            (Text.concatSep [' '] ((spell (lexemes p behind)).map (·.2))))
        rw [Text.concatSep_cons _ _ (mt List.map_eq_nil_iff.mp last), List.append_assoc,
          List.singleton_append, List.cons_append, lexemes_of_some cutOff rfl,
          lexemes_of_none (lexeme?_eq_none_iff.mpr rfl), spell_cons, ih]

theorem map_text_scanLine (line column : Int) (l : Text) :
    (scanLine p line column 0 l).map Token.text = (spell (lexemes p l)).map (·.2) := by
  rw [← map_spelling_scanLine line column, List.map_map]
  rfl

/-! All lines. -/

theorem onLine_scanLines {first : Int} {ls : List Text} {row : Nat} {l : Text}
    (h : ls[row]? = some l) :
    onLine (first + row) (scanLines p first ls) = scanLine p (first + row) 1 0 l := by
  induction ls generalizing first row with
  | nil => cases h
  | cons k ls ih =>
      rw [scanLines, onLine, List.filter_append]
      cases row with
      | zero =>
          cases h
          have here : (scanLine p first 1 0 l).filter (·.line = first + (0 : Nat)) =
              scanLine p first 1 0 l := by
            refine List.filter_eq_self.mpr fun t ht => decide_eq_true ?_
            rw [(of_mem_scanLine ht).1]
            omega
          have there : (scanLines p (first + 1) ls).filter (·.line = first + (0 : Nat)) = [] := by
            refine List.filter_eq_nil_iff.mpr fun t ht => ?_
            have below := (of_mem_scanLines ht).1
            simp only [decide_eq_true_eq]
            omega
          rw [here, there, List.append_nil]
          simp
      | succ row =>
          have here : (scanLine p first 1 0 k).filter (·.line = first + (row + 1 : Nat)) = [] := by
            refine List.filter_eq_nil_iff.mpr fun t ht => ?_
            have place := (of_mem_scanLine ht).1
            simp only [decide_eq_true_eq]
            omega
          have line : first + (row + 1 : Nat) = first + 1 + row := by omega
          rw [here, List.nil_append, line]
          exact ih h

/-- Lines with the same tokens, one by one. -/
theorem map_mark_scanLines {ls us : List Text}
    (h : List.Forall₂ (fun l u => spell (lexemes p l) = spell (lexemes p u)) ls us) (line : Int) :
    (scanLines p line ls).map mark = (scanLines p line us).map mark := by
  induction h generalizing line with
  | nil => rfl
  | cons here _ ih =>
      rw [scanLines, scanLines, List.map_append, List.map_append, map_mark_scanLine,
        map_mark_scanLine, here, ih]

theorem map_mark_onLine (line : Int) (ts : List Token) :
    (onLine line ts).map mark = (ts.map mark).filter (·.1 = line) := by
  rw [onLine, List.filter_map]
  rfl

/-- Line by line, texts with the same tokens have lines with the same tokens. -/
theorem spell_eq_of_map_mark {first : Int} {ls us : List Text}
    (h : (scanLines p first ls).map mark = (scanLines p first us).map mark) {row : Nat} {l u : Text}
    (hl : ls[row]? = some l) (hu : us[row]? = some u) :
    spell (lexemes p l) = spell (lexemes p u) := by
  have here := congrArg (List.filter (·.1 = first + row)) h
  rw [← map_mark_onLine, ← map_mark_onLine, onLine_scanLines hl, onLine_scanLines hu,
    map_mark_scanLine, map_mark_scanLine] at here
  exact List.map_injective_iff.mpr (fun _ _ e => (Prod.mk.inj e).2) here

/-- The tokens of a text, printed line by line with a space between them, are read again:
each with its kind and its text, on its line, and no others. -/
theorem tokenize_render (p : Profile) (source : Text) :
    (tokenize p (render (Text.lines source).length (tokenize p source))).map mark =
      (tokenize p source).map mark := by
  let printed : List Text := (List.range (Text.lines source).length).map fun row : Nat =>
    Text.concatSep [' '] ((onLine (row + 1) (tokenize p source)).map Token.text)
  have nonempty : printed ≠ [] := by
    intro none
    have size : printed.length = (Text.lines source).length := by simp [printed]
    rw [none] at size
    exact absurd size.symm (Nat.ne_of_gt (Text.length_lines_pos source))
  have noNewline : ∀ l ∈ printed, '\n' ∉ l := by
    intro l hl
    obtain ⟨row, -, rfl⟩ := List.mem_map.mp hl
    apply Text.not_newline_concatSep
    intro t ht
    obtain ⟨token, htoken, rfl⟩ := List.mem_map.mp ht
    exact (standsIn_of_mem_tokenize (List.mem_of_mem_filter htoken)).not_newline
  have lines : Text.lines (render (Text.lines source).length (tokenize p source)) = printed :=
    Text.lines_unlines nonempty noNewline
  have same : List.Forall₂ (fun l u => spell (lexemes p l) = spell (lexemes p u)) printed
      (Text.lines source) := by
    refine List.forall₂_iff_get.mpr ⟨by simp [printed], fun row hrow hline => ?_⟩
    have here : (Text.lines source)[row]? = some ((Text.lines source).get ⟨row, hline⟩) :=
      List.getElem?_eq_getElem hline
    have tokens : onLine (row + 1) (tokenize p source) =
        scanLine p (1 + row) 1 0 ((Text.lines source).get ⟨row, hline⟩) := by
      rw [Int.add_comm, tokenize, onLine_scanLines here]
    have text : printed.get ⟨row, hrow⟩ = Text.concatSep [' ']
        ((onLine (row + 1) (tokenize p source)).map Token.text) := by
      simp [printed]
    rw [text, tokens, map_text_scanLine]
    exact spell_lexemes_spaced _
  rw [tokenize, lines, map_mark_scanLines same]
  rfl

end Token
end MotionExpr
