import MotionExpr.Proofs.Fix.Retokenize
import MotionExpr.Proofs.Token.Coverage
import MotionExpr.Lint.Engine

/-!
One name in the place of another. The text with the new name has the tokens of the text: that of
the old name is the new one, and the tokens behind it in its line are moved by the difference of
the lengths.
-/

namespace MotionExpr

open Token

/-- By how much a line grows. -/
def QuickFix.growth (f : QuickFix) : Int := f.newText.length - (f.endColumn - f.column)

/-- Where a place stands after a fix of one line: what is to the right of the fix is moved. -/
def QuickFix.columnAfter (f : QuickFix) (line column : Int) : Int :=
  if line = f.line ∧ f.column < column then column + f.growth else column

/-- A token after a word was put in the place of `t`. -/
def Token.respelled (p : Profile) (t : Token) (n : Text) (u : Token) : Token :=
  if u = t then { t with kind := classify p n, text := n }
  else { u with column := (fixAt t n).columnAfter u.line u.column }

namespace Token

variable {p : Profile} {t u : Token} {n : Text}

theorem growth_fixAt (t : Token) (n : Text) :
    (fixAt t n).growth = n.length - t.text.length := by
  simp only [QuickFix.growth, fixAt, endColumn]
  omega

@[simp] theorem respelled_self (p : Profile) (t : Token) (n : Text) :
    t.respelled p n t = { t with kind := classify p n, text := n } := if_pos rfl

theorem respelled_of_ne (p : Profile) (n : Text) (differ : u ≠ t) :
    t.respelled p n u = { u with column := (fixAt t n).columnAfter u.line u.column } :=
  if_neg differ

@[simp] theorem respelled_line (p : Profile) (t : Token) (n : Text) (u : Token) :
    (t.respelled p n u).line = u.line := by
  unfold respelled
  split <;> simp_all

/-- Tokens of other lines and those in front stay as they are. -/
theorem respelled_of_not_behind (differ : u ≠ t) (h : u.line = t.line → u.column ≤ t.column) :
    t.respelled p n u = u := by
  have stays : ¬(u.line = t.line ∧ t.column < u.column) := fun ⟨line, column⟩ => by
    have := h line
    omega
  simp [respelled, differ, QuickFix.columnAfter, stays]

theorem respelled_of_behind (line : u.line = t.line) (column : t.column < u.column) :
    t.respelled p n u = { u with column := u.column + (n.length - t.text.length) } := by
  have differ : u ≠ t := fun same => by
    rw [same] at column
    omega
  simp [respelled, differ, QuickFix.columnAfter, line, column, growth_fixAt]

/-- A token in front of where the name is found. -/
theorem respelled_of_later {l : Text} (nonempty : u.text ≠ [])
    (ht : t ∈ scanLine p u.line u.endColumn 0 l) : u ≠ t ∧ t.respelled p n u = u := by
  have longer := column_lt_endColumn nonempty
  have column := (of_mem_scanLine ht).2.1
  have differ : u ≠ t := fun same => by
    rw [← same] at column
    omega
  exact ⟨differ, respelled_of_not_behind differ fun _ => by omega⟩

/-- A line that begins at another column. -/
theorem scanLine_add (line column k : Int) (l : Text) :
    scanLine p line (column + k) 0 l =
      (scanLine p line column 0 l).map fun u => { u with column := u.column + k } := by
  induction l using scan_induction p generalizing column with
  | nil => rfl
  | blank c r hc ih =>
      have later := ih (column + 1)
      rw [show column + 1 + k = column + k + 1 by omega] at later
      rw [scanLine_of_none hc, scanLine_of_none hc, later]
  | token c kind w behind hc ih =>
      have later := ih (column + (c :: w).length)
      rw [show column + (c :: w).length + k = column + k + (c :: w).length by omega] at later
      rw [scanLine_of_some hc, scanLine_of_some hc, later, List.map_cons]

/-- What stands behind the name is moved. -/
theorem map_respelled_behind (nonempty : t.text ≠ []) (n l : Text) :
    (scanLine p t.line t.endColumn 0 l).map (t.respelled p n) =
      scanLine p t.line (t.column + n.length) 0 l := by
  have longer := column_lt_endColumn nonempty
  have place : t.column + n.length = t.endColumn + (n.length - t.text.length) := by
    rw [endColumn]
    omega
  rw [place, scanLine_add]
  refine List.map_congr_left fun u hu => ?_
  obtain ⟨line, column, -⟩ := of_mem_scanLine hu
  exact respelled_of_behind line (by omega)

/-- Along a line: in front of the name nothing changes, since another name begins alike, and
behind it the scan goes on where it did. -/
theorem scanLine_respelled {line : Int} {front l : Text} (old : isWord t.text = true)
    (fresh : isWord n = true) (ht : t ∈ scanLine p line (front.length + 1) 0 l) :
    ∃ l', Alike l l' ∧ (fixAt t n).replaceInLine (front ++ l) = front ++ l' ∧
      scanLine p line (front.length + 1) 0 l' =
        (scanLine p line (front.length + 1) 0 l).map (t.respelled p n) := by
  induction l using scan_induction p generalizing front with
  | nil => cases ht
  | blank c r hc ih =>
      have place : (front.length + 1 + 1 : Int) = (front ++ [c]).length + 1 := by simp
      rw [scanLine_of_none hc, place] at ht
      obtain ⟨r', -, replaced, scanned⟩ := ih ht
      have still : lexeme? p c r' = none := lexeme?_eq_none_iff.mpr (lexeme?_eq_none_iff.mp hc)
      refine ⟨c :: r', .inl rfl, by simpa using replaced, ?_⟩
      rw [scanLine_of_none hc, scanLine_of_none still, place, scanned]
  | token c kind w behind hc ih =>
      have place : (front.length + 1 + (c :: w).length : Int) = (front ++ c :: w).length + 1 := by
        simp only [List.length_append]
        omega
      rw [scanLine_of_some hc] at ht ⊢
      rcases List.mem_cons.mp ht with rfl | later
      · obtain ⟨d, v, rfl, hd, -⟩ := of_isWord fresh
        obtain ⟨_, _, same, hstart, -⟩ := of_isWord old
        obtain ⟨rfl, rfl⟩ := List.cons_eq_cons.mp same
        have read : lexeme? p d (v ++ behind) = some (classify p (d :: v), d :: v) :=
          lexeme?_word fresh (endsWord_of_lexeme? hc hstart)
        refine ⟨(d :: v) ++ behind, .inr ⟨c, d, rfl, rfl, hstart, hd⟩, ?_, ?_⟩
        · simpa using replaceInLine_fixAt front (c :: w) (d :: v) behind
            (t := ⟨kind, c :: w, line, front.length + 1⟩) rfl rfl
        · rw [List.cons_append, scanLine_of_some read, List.map_cons, respelled_self]
          exact congrArg (List.cons _) (map_respelled_behind (p := p)
            (t := ⟨kind, c :: w, line, front.length + 1⟩) (List.cons_ne_nil c w) (d :: v) behind).symm
      · obtain ⟨-, kept⟩ := respelled_of_later (n := n)
          (u := ⟨kind, c :: w, line, front.length + 1⟩) (List.cons_ne_nil c w) later
        rw [place] at later
        obtain ⟨behind', alike, replaced, scanned⟩ := ih later
        refine ⟨c :: (w ++ behind'), .inl rfl, by simpa using replaced, ?_⟩
        rw [scanLine_of_some (lexeme?_of_alike hc alike), List.map_cons, kept, place, scanned]

/-- Where one line changes, the tokens of the others stay. -/
theorem exists_scanLines_modify (p : Profile) (first : Int) {ls : List Text} {row : Nat} {l : Text}
    (hl : ls[row]? = some l) : ∃ above below, (∀ u ∈ above ++ below, u.line ≠ first + row) ∧
      ∀ f : Text → Text, scanLines p first (ls.modify row f) =
        above ++ (scanLine p (first + row) 1 0 (f l) ++ below) := by
  induction ls generalizing first row with
  | nil => cases hl
  | cons k ls ih =>
      cases row with
      | zero =>
          cases hl
          refine ⟨[], scanLines p (first + 1) ls, fun u hu => ?_, fun f => ?_⟩
          · have := (of_mem_scanLines (List.mem_append.mp hu |>.resolve_left List.not_mem_nil)).1
            omega
          · rw [List.modify_zero_cons, scanLines, show first + (0 : Nat) = first by omega]
            rfl
      | succ row =>
          obtain ⟨above, below, elsewhere, whole⟩ := ih (first + 1) hl
          have place : first + 1 + row = first + (row + 1 : Nat) := by omega
          refine ⟨scanLine p first 1 0 k ++ above, below, fun u hu => ?_, fun f => ?_⟩
          · rw [List.append_assoc] at hu
            rcases List.mem_append.mp hu with hu | hu
            · have := (of_mem_scanLine hu).1
              omega
            · exact place ▸ elsewhere u hu
          · rw [List.modify_succ_cons, scanLines, whole, place, List.append_assoc]

/-- Only one line has the old name. -/
theorem map_respelled_elsewhere {us : List Token} (h : ∀ u ∈ us, u.line ≠ t.line) :
    us.map (t.respelled p n) = us := by
  refine (List.map_congr_left fun u hu => ?_).trans (List.map_id us)
  exact respelled_of_not_behind (fun same => h u hu (congrArg Token.line same))
    fun here => absurd here (h u hu)

theorem scanLines_respelled {first : Int} {ls : List Text} {row : Nat} {l : Text}
    (old : isWord t.text = true) (fresh : isWord n = true) (hl : ls[row]? = some l)
    (ht : t ∈ scanLine p (first + row) 1 0 l) :
    scanLines p first (ls.modify row (fixAt t n).replaceInLine) =
      (scanLines p first ls).map (t.respelled p n) := by
  have home : t.line = first + row := (of_mem_scanLine ht).1
  obtain ⟨above, below, elsewhere, whole⟩ := exists_scanLines_modify p first hl
  have others {us : List Token} (sub : us ⊆ above ++ below) : us.map (t.respelled p n) = us :=
    map_respelled_elsewhere fun u hu => home ▸ elsewhere u (sub hu)
  obtain ⟨l', -, replaced, scanned⟩ := @scanLine_respelled p t n _ [] _ old fresh ht
  rw [List.nil_append, List.nil_append] at replaced
  have before := whole id
  rw [List.modify_id] at before
  rw [whole, before, List.map_append, List.map_append, others (List.subset_append_left ..),
    others (List.subset_append_right ..), replaced]
  exact congrArg (fun us => above ++ (us ++ below)) scanned

end Token

variable {p : Profile} {t : Token} {n source : Text}

theorem QuickFix.lines_apply {f : QuickFix} {row : Nat} {l : Text} (clean : '\n' ∉ f.newText)
    (hline : f.line = 1 + row) (hl : (Text.lines source)[row]? = some l) :
    Text.lines (f.apply source) = (Text.lines source).modify row f.replaceInLine := by
  have bound : row < (Text.lines source).length := (List.getElem?_eq_some_iff.mp hl).1
  have inside : 1 ≤ f.line ∧ f.line ≤ ((Text.lines source).length : Int) := by omega
  have index : (f.line - 1).toNat = row := by omega
  simp only [apply, inside, and_self, ite_true, index]
  refine Text.lines_unlines (fun none => ?_) fun k hk => ?_
  · have length := congrArg List.length none
    rw [List.length_modify, List.length_nil] at length
    omega
  · obtain ⟨i, hi⟩ := List.getElem?_of_mem hk
    obtain ⟨k', hk', rfl⟩ := Option.map_eq_some_iff.mp ((List.getElem?_modify ..).symm.trans hi)
    have plain := Text.not_newline_of_mem_lines (List.mem_of_getElem? hk')
    split
    · exact not_newline_replaceInLine plain clean
    · exact plain

theorem tokenize_respelled (ht : t ∈ tokenize p source) (old : isWord t.text = true)
    (fresh : isWord n = true) :
    tokenize p ((fixAt t n).apply source) = (tokenize p source).map (t.respelled p n) := by
  obtain ⟨row, l, hl, here⟩ := mem_tokenize_iff.mp ht
  have home : (fixAt t n).line = 1 + row := (of_mem_scanLine here).1
  rw [tokenize, QuickFix.lines_apply (not_newline_of_isWord fresh) home hl]
  exact scanLines_respelled old fresh hl here

/-- The other lines are as they were. -/
theorem lineText_respelled (o : LintOptions) (ht : t ∈ tokenize p source)
    (clean : '\n' ∉ n) (line : Int) :
    (Linter.context p o ((fixAt t n).apply source)).lineText line =
      if line = t.line then (fixAt t n).replaceInLine ((Linter.context p o source).lineText line)
      else (Linter.context p o source).lineText line := by
  obtain ⟨row, l, hl, here⟩ := mem_tokenize_iff.mp ht
  have home : t.line = 1 + row := (of_mem_scanLine here).1
  have now : (Linter.context p o ((fixAt t n).apply source)).lines =
      (Text.lines source).modify row (fixAt t n).replaceInLine :=
    QuickFix.lines_apply clean home hl
  have before : (Linter.context p o source).lines = Text.lines source := rfl
  rw [LintContext.lineText, LintContext.lineText, now, before, List.getElem?_modify]
  by_cases same : line = t.line
  · have index : (line - 1).toNat = row := by omega
    simp [same ▸ index, hl, show 1 ≤ t.line by omega, same]
  · by_cases counted : 1 ≤ line
    · have index : row ≠ (line - 1).toNat := by omega
      simp only [if_neg index, if_neg same]
      cases (Text.lines source)[(line - 1).toNat]? <;> rfl
    · simp [same, counted]

end MotionExpr
