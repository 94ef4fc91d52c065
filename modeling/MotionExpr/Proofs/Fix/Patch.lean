import MotionExpr.Proofs.Format.Lines
import MotionExpr.Proofs.Fix.Selection

/-!
Replacing tokens. A patch runs along the tokens of a text and puts other texts in
the place of some. Fixes of tokens, applied from the last to the first, are such a
patch: those still to come find their tokens where they were.
-/

namespace MotionExpr

namespace Text

theorem upTo_append (a b : Text) : (a ++ b).upTo a.length = a := by
  rw [upTo, cut, if_neg (by omega), Int.toNat_natCast, List.length_append,
    Nat.min_eq_left (Nat.le_add_right ..), List.take_left]

theorem startingAt_append (a b : Text) : (a ++ b).startingAt a.length = b := by
  rw [startingAt, cut, if_neg (by omega), Int.toNat_natCast, List.length_append,
    Nat.min_eq_left (Nat.le_add_right ..), List.drop_left]

end Text

open Token

/-- `new` has the texts of the tokens that are replaced. -/
def patchFrom (p : Profile) (new : Token → Option Text) (line : Int) :
    (column : Int) → (skip : Nat) → Text → Text
  | _, _, [] => []
  | column, skip + 1, _ :: r => patchFrom p new line (column + 1) skip r
  | column, 0, c :: r =>
      match lexeme? p c r with
      | none => c :: patchFrom p new line (column + 1) 0 r
      | some (kind, text) =>
          (new ⟨kind, text, line, column⟩).getD text ++
            patchFrom p new line (column + 1) (text.length - 1) r

def patchLines (p : Profile) (new : Token → Option Text) : (line : Int) → List Text → List Text
  | _, [] => []
  | line, l :: ls => patchFrom p new line 1 0 l :: patchLines p new (line + 1) ls

def patch (p : Profile) (new : Token → Option Text) (source : Text) : Text :=
  Text.unlines (patchLines p new 1 (Text.lines source))

variable {p : Profile} {new : Token → Option Text}

theorem patchFrom_skip (line column : Int) (n : Nat) (t : Text) :
    patchFrom p new line column n t = patchFrom p new line (column + n) 0 (t.drop n) := by
  induction t generalizing column n with
  | nil => cases n <;> rfl
  | cons c r ih =>
      cases n with
      | zero => simp
      | succ n => simp [patchFrom, ih (column + 1) n, Int.add_assoc, Int.add_comm 1]

theorem patchFrom_of_none {c : Char} {r : Text} (h : lexeme? p c r = none) (line column : Int) :
    patchFrom p new line column 0 (c :: r) = c :: patchFrom p new line (column + 1) 0 r := by
  simp only [patchFrom, h]

theorem patchFrom_of_some {c : Char} {kind : TokenKind} {w behind : Text}
    (h : lexeme? p c (w ++ behind) = some (kind, c :: w)) (line column : Int) :
    patchFrom p new line column 0 (c :: (w ++ behind)) =
      (new ⟨kind, c :: w, line, column⟩).getD (c :: w) ++
        patchFrom p new line (column + (c :: w).length) 0 behind := by
  have place : column + 1 + w.length = column + (c :: w).length := by
    rw [List.length_cons]
    omega
  rw [patchFrom, h]
  simp only [List.length_cons, Nat.add_sub_cancel]
  rw [patchFrom_skip, List.drop_left, place]
  rfl

/-! Fixes of one line. -/

/-- The fixes of some tokens, from the last to the first. -/
def fixesOf (new : Token → Option Text) (tokens : List Token) : List QuickFix :=
  tokens.reverse.filterMap fun t => (new t).map (fixAt t)

theorem fixesOf_append (a b : List Token) :
    fixesOf new (a ++ b) = fixesOf new b ++ fixesOf new a := by
  rw [fixesOf, List.reverse_append, List.filterMap_append]
  rfl

theorem fixesOf_cons (t : Token) (ts : List Token) :
    fixesOf new (t :: ts) = fixesOf new ts ++ ((new t).map (fixAt t)).toList := by
  rw [← List.singleton_append, fixesOf_append]
  cases h : new t <;> simp [fixesOf, h]

theorem replaceInLine_of_columns {before text after : Text} {f : QuickFix}
    (start : f.column = before.length + 1) (stop : f.endColumn = (before ++ text).length + 1) :
    f.replaceInLine (before ++ text ++ after) = before ++ f.newText ++ after := by
  rw [QuickFix.replaceInLine, start, stop, Int.add_sub_cancel, Int.add_sub_cancel,
    Text.startingAt_append, List.append_assoc before text, Text.upTo_append]

theorem replaceInLine_fixAt (before text n after : Text) {t : Token}
    (hc : t.column = before.length + 1) (ht : t.text = text) :
    (fixAt t n).replaceInLine (before ++ text ++ after) = before ++ n ++ after := by
  have stop : (fixAt t n).endColumn = (before ++ text).length + 1 := by
    simp only [fixAt_endColumn, endColumn, List.length_append, ht]
    omega
  exact replaceInLine_of_columns hc stop

/-- Fixing a line from its end is patching it. -/
theorem foldl_replaceInLine (line : Int) (before t : Text) :
    (fixesOf new (scanLine p line (before.length + 1) 0 t)).foldl (fun l f => f.replaceInLine l)
        (before ++ t) =
      before ++ patchFrom p new line (before.length + 1) 0 t := by
  induction t using scan_induction p generalizing before with
  | nil => rfl
  | blank c r h ih =>
      have here := ih (before ++ [c])
      simp only [List.append_assoc, List.singleton_append, List.length_append,
        List.length_singleton, Int.natCast_add, Int.cast_ofNat_Int] at here
      rw [scanLine_of_none h, patchFrom_of_none h]
      exact here
  | token c kind w behind h ih =>
      have here := ih (before ++ c :: w)
      have place : ((before ++ c :: w).length : Int) + 1 = before.length + 1 + (c :: w).length := by
        rw [List.length_append]
        omega
      rw [place, List.append_assoc] at here
      rw [scanLine_of_some h, patchFrom_of_some h, fixesOf_cons, List.foldl_append,
        ← List.cons_append, here]
      cases new ⟨kind, c :: w, line, before.length + 1⟩ with
      | none => simp
      | some n =>
          have replaced := replaceInLine_fixAt before (c :: w) n
            (patchFrom p new line (before.length + 1 + (c :: w).length) 0 behind)
            (t := ⟨kind, c :: w, line, before.length + 1⟩) rfl rfl
          rw [List.append_assoc] at replaced
          simp only [Option.map_some, Option.toList_some, List.foldl_cons, List.foldl_nil,
            Option.getD_some, replaced, List.append_assoc]

/-! Fixes of a text. -/

theorem not_newline_replaceInLine {f : QuickFix} {l : Text} (hl : '\n' ∉ l)
    (hf : '\n' ∉ f.newText) : '\n' ∉ f.replaceInLine l := by
  rw [QuickFix.replaceInLine, List.mem_append, List.mem_append]
  intro h
  cases h with
  | inl h =>
      cases h with
      | inl h => exact hl (List.mem_of_mem_take h)
      | inr h => exact hf h
  | inr h => exact hl (List.mem_of_mem_drop h)

theorem apply_on_line {before after : List Text} {l : Text} {f : QuickFix}
    (hline : f.line = before.length + 1)
    (clean : ∀ k ∈ before ++ l :: after, '\n' ∉ k) :
    f.apply (Text.unlines (before ++ l :: after)) =
      Text.unlines (before ++ f.replaceInLine l :: after) := by
  have inside : 1 ≤ f.line ∧ f.line ≤ ((before ++ l :: after).length : Int) := by
    rw [List.length_append, List.length_cons]
    omega
  have row : (f.line - 1).toNat = before.length := by omega
  have changed : (before ++ l :: after).modify before.length f.replaceInLine =
      before ++ f.replaceInLine l :: after :=
    List.modifyTailIdx_add _ 0 before (l :: after)
  rw [QuickFix.apply, Text.lines_unlines (by simp) clean]
  simp only [inside, and_self, ite_true, row, changed]

theorem applyAll_append (source : Text) (a b : List QuickFix) :
    QuickFix.applyAll source (a ++ b) = QuickFix.applyAll (QuickFix.applyAll source a) b :=
  List.foldl_append

theorem applyAll_on_line {before after : List Text} {l : Text} {fixes : List QuickFix}
    (hline : ∀ f ∈ fixes, f.line = before.length + 1) (hnew : ∀ f ∈ fixes, '\n' ∉ f.newText)
    (clean : ∀ k ∈ before ++ l :: after, '\n' ∉ k) :
    QuickFix.applyAll (Text.unlines (before ++ l :: after)) fixes =
      Text.unlines (before ++ fixes.foldl (fun l f => f.replaceInLine l) l :: after) := by
  induction fixes generalizing l with
  | nil => rfl
  | cons f fixes ih =>
      rw [List.forall_mem_cons] at hline hnew
      rw [QuickFix.applyAll, List.foldl_cons, apply_on_line hline.1 clean]
      apply ih hline.2 hnew.2
      rw [List.forall_mem_append, List.forall_mem_cons] at clean ⊢
      exact ⟨clean.1, not_newline_replaceInLine clean.2.1 hnew.1, clean.2.2⟩

theorem mem_fixesOf {tokens : List Token} {f : QuickFix} (h : f ∈ fixesOf new tokens) :
    ∃ t ∈ tokens, ∃ n, new t = some n ∧ f = fixAt t n := by
  obtain ⟨t, ht, hf⟩ := List.mem_filterMap.mp h
  obtain ⟨n, hn, rfl⟩ := Option.map_eq_some_iff.mp hf
  exact ⟨t, List.mem_reverse.mp ht, n, hn, rfl⟩

section Lines

/-- A character that is in no new text and not in a line either is not in the patched line. -/
theorem not_mem_patchFrom {d : Char} (hnew : ∀ t n, new t = some n → d ∉ n) (line column : Int)
    {l : Text} (h : d ∉ l) : d ∉ patchFrom p new line column 0 l := by
  induction l using scan_induction p generalizing column with
  | nil => exact h
  | blank c r hc ih =>
      rw [List.mem_cons, not_or] at h
      rw [patchFrom_of_none hc, List.mem_cons, not_or]
      exact ⟨h.1, ih _ h.2⟩
  | token c kind w behind hc ih =>
      rw [← List.cons_append, List.mem_append, not_or] at h
      rw [patchFrom_of_some hc, List.mem_append, not_or]
      refine ⟨?_, ih _ h.2⟩
      cases hn : new ⟨kind, c :: w, line, column⟩ with
      | none => exact h.1
      | some n => exact hnew _ n hn

theorem not_mem_patchLines {d : Char} (hnew : ∀ t n, new t = some n → d ∉ n) (line : Int)
    {ls : List Text} (h : ∀ l ∈ ls, d ∉ l) : ∀ l ∈ patchLines p new line ls, d ∉ l := by
  induction ls generalizing line with
  | nil => simp [patchLines]
  | cons l ls ih =>
      rw [List.forall_mem_cons] at h
      rw [patchLines, List.forall_mem_cons]
      exact ⟨not_mem_patchFrom hnew line 1 h.1, ih (line + 1) h.2⟩

variable (hnew : ∀ t n, new t = some n → '\n' ∉ n)

include hnew

theorem applyAll_scanLines (before ls : List Text) (clean : ∀ l ∈ before ++ ls, '\n' ∉ l) :
    QuickFix.applyAll (Text.unlines (before ++ ls))
        (fixesOf new (scanLines p (before.length + 1) ls)) =
      Text.unlines (before ++ patchLines p new (before.length + 1) ls) := by
  induction ls generalizing before with
  | nil => rfl
  | cons l ls ih =>
      have later := ih (before ++ [l]) (by rwa [List.append_assoc])
      have place : ((before ++ [l]).length : Int) + 1 = before.length + 1 + 1 := by simp
      rw [place, List.append_assoc, List.append_assoc, List.singleton_append,
        List.singleton_append] at later
      rw [List.forall_mem_append, List.forall_mem_cons] at clean
      have still : ∀ k ∈ before ++ l :: patchLines p new (before.length + 1 + 1) ls, '\n' ∉ k := by
        rw [List.forall_mem_append, List.forall_mem_cons]
        exact ⟨clean.1, clean.2.1, not_mem_patchLines hnew _ clean.2.2⟩
      have onLine : ∀ f ∈ fixesOf new (scanLine p (before.length + 1) 1 0 l),
          f.line = before.length + 1 := by
        intro f hf
        obtain ⟨t, ht, n, -, rfl⟩ := mem_fixesOf hf
        exact (of_mem_scanLine ht).1
      have noNewline : ∀ f ∈ fixesOf new (scanLine p (before.length + 1) 1 0 l),
          '\n' ∉ f.newText := by
        intro f hf
        obtain ⟨t, -, n, hn, rfl⟩ := mem_fixesOf hf
        exact hnew t n hn
      have line : (fixesOf new (scanLine p (before.length + 1) 1 0 l)).foldl
          (fun l f => f.replaceInLine l) l = patchFrom p new (before.length + 1) 1 0 l :=
        foldl_replaceInLine (before.length + 1) [] l
      rw [scanLines, fixesOf_append, applyAll_append, later,
        applyAll_on_line onLine noNewline still, line]
      rfl

end Lines

/-- Fixing tokens from the last to the first is patching the text. -/
theorem applyAll_fixesOf (hnew : ∀ t n, new t = some n → '\n' ∉ n) (source : Text) :
    QuickFix.applyAll source (fixesOf new (tokenize p source)) = patch p new source := by
  have whole := applyAll_scanLines (p := p) hnew [] (Text.lines source)
    fun l hl => Text.not_newline_of_mem_lines hl
  rwa [List.nil_append, Text.unlines_lines] at whole

theorem patch_eq_self (hnew : ∀ t n, new t = some n → '\n' ∉ n) {source : Text}
    (h : ∀ t ∈ tokenize p source, new t = none) : patch p new source = source := by
  have nothing : fixesOf new (tokenize p source) = [] := by
    rw [fixesOf, List.filterMap_eq_nil_iff]
    intro t ht
    rw [h t (List.mem_reverse.mp ht)]
    rfl
  rw [← applyAll_fixesOf hnew, nothing]
  rfl

end MotionExpr
