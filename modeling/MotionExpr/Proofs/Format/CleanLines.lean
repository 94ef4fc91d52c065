import MotionExpr.Proofs.Format.Returns

/-!
Formatted text without carriage returns and without blanks at the ends of its lines. The
first two passes see to it, and each of the others keeps it so: it brings no carriage return,
and where a line ends otherwise than before it ends in a character that is no blank.
-/

namespace MotionExpr

open Text Literal

namespace LineEnd

structure CleanLine (l : Text) : Prop where
  onLine : '\n' ∉ l
  noReturn : '\r' ∉ l
  trimmed : Trimmed l

theorem cleanLine_nil : CleanLine [] := ⟨List.not_mem_nil, List.not_mem_nil, nofun⟩

theorem CleanLine.of_append {a b : Text} (h : CleanLine (a ++ b)) : CleanLine b where
  onLine hm := h.onLine (List.mem_append_right a hm)
  noReturn hm := h.noReturn (List.mem_append_right a hm)
  trimmed := h.trimmed.of_append

/-- Clean as the line is that its blanks but spaces and tabs come from. -/
theorem CleanLine.of_mem {l u : Text} (h : CleanLine l) (trimmed : Trimmed u)
    (kept : ∀ c ∈ u, isBlank c = true → isSpaceOrTab c = false → c ∈ l) : CleanLine u where
  onLine hm := h.onLine (kept _ hm (by decide) (by decide))
  noReturn hm := h.noReturn (kept _ hm (by decide) (by decide))
  trimmed := trimmed

theorem clean_unlines {ls : List Text} (h : ∀ l ∈ ls, CleanLine l) :
    ∀ l ∈ lines (unlines ls), CleanLine l := by
  cases ls with
  | nil => exact List.forall_mem_singleton.mpr cleanLine_nil
  | cons l ls =>
      rw [lines_unlines (List.cons_ne_nil l ls) fun l hl => (h l hl).onLine]
      exact h

theorem clean_mapLines {f : Text → Except Literal.Fault Text} {t u : Text}
    (h : ∀ l ∈ lines t, CleanLine l)
    (step : ∀ {l e}, CleanLine l → f l = .ok e → CleanLine e) (hu : Line.mapLines f t = .ok u) :
    ∀ l ∈ lines u, CleanLine l := by
  obtain ⟨us, hus, rfl⟩ := map_eq_ok_iff.mp hu
  exact clean_unlines (Line.forall_of_forall₂ (Line.forall₂_of_mapM hus) h step)

end LineEnd

open LineEnd hiding trim

/-! The passes over code. -/

namespace Line

theorem clean_body {l : Text} (h : CleanLine l) : CleanLine (splitIndent l).2 := by
  rw [← splitIndent_append l] at h
  exact h.of_append

theorem clean_mapCode {f : Text → Text} (keeps : KeepsEnd f) {l u : Text} (h : CleanLine l)
    (hu : mapCode f l = .ok u) : CleanLine u := by
  have body := clean_body h
  have made := hu
  rw [mapCode] at made
  dsimp only at made
  split at made
  · cases made
    exact h
  · next some =>
      obtain ⟨v, hv, rfl⟩ := map_eq_ok_iff.mp made
      have code : tidy (splitIndent l).2 (f (mask (splitIndent l).2).1) ≠ [] := by
        obtain ⟨c, r, first, -⟩ := head_tidy keeps (unindented_trimStart l) fun none =>
          some (List.isEmpty_iff.mpr none)
        exact fun none => List.cons_ne_nil c r (first.symm.trans none)
      obtain ⟨shown, trimmed⟩ := trimmed_of_restore
        (fun l => trimmed_literal body.onLine body.trimmed) code
        (trimmed_tidy keeps body.trimmed) hv
      exact h.of_mem (trimmed.append shown) fun c hc blank other =>
        mem_of_mapCode keeps hu blank other hc

end Line

namespace Semicolon

theorem clean_terminateLine {l u : Text} (h : CleanLine l) (hu : terminateLine l = .ok u) :
    CleanLine u := by
  have body := Line.clean_body h
  have ends : Trimmed (trimEnd (splitIndent l).2) := by
    intro c hc
    have stop := any_getLast?_dropEndWhile isBlank (splitIndent l).2
    rw [show dropEndWhile isBlank (splitIndent l).2 = trimEnd (splitIndent l).2 from rfl,
      Option.mem_def.mp hc] at stop
    exact isTrailing_of_ink stop
  have front {c : Char} (hc : c ∈ trimEnd (splitIndent l).2) : c ∈ (splitIndent l).2 :=
    (isPrefix_dropEndWhile isBlank _).mem hc
  obtain rfl | ⟨a, b, restored, masked, hr, rfl⟩ := of_terminateLine hu
  · exact h
  · have changed : Trimmed (a ++ ';' :: b) := by
      have behind : Trimmed b := (masked ▸ trimmed_mask ends).of_append
      have semicolon : Trimmed (a ++ [';']) := by
        intro c hc
        rw [List.getLast?_concat, Option.mem_some] at hc
        subst hc
        decide
      have parts : a ++ ';' :: b = (a ++ [';']) ++ b := by simp
      exact parts ▸ trimmed_append semicolon behind
    obtain ⟨shown, trimmed⟩ := trimmed_of_restore
      (fun l => trimmed_literal (fun hm => body.onLine (front hm)) ends) (by simp) changed hr
    have behind : Trimmed (takeEndWhile isBlank (splitIndent l).2) := by
      have whole := body.trimmed
      rw [← dropEndWhile_append_takeEndWhile isBlank (splitIndent l).2] at whole
      exact whole.of_append
    exact h.of_mem (trimmed_append (trimmed.append shown) behind) fun c hc blank _ =>
      mem_of_terminateLine hu blank hc

end Semicolon

namespace Quote

theorem clean_restyle (style : QuoteStyle) {l : Text} (h : CleanLine l) :
    CleanLine (restyle style l) := by
  have same := map_plainQuote_restyle style l
  refine h.of_mem (fun c hc => ?_) fun c hc blank _ => mem_of_mem_restyle style blank hc
  have last := congrArg List.getLast? same
  rw [List.getLast?_map, List.getLast?_map, Option.mem_def.mp hc] at last
  obtain ⟨d, hd, plain⟩ := Option.map_eq_some_iff.mp last.symm
  rcases Token.isQuote_of_plainQuote_eq plain with rfl | ⟨-, quote⟩
  · exact h.trimmed d hd
  · exact isTrailing_of_ink (Token.plain_of_isQuote quote).1

end Quote

theorem Pass.clean_onLine {o : FormatOptions} {p : Pass} {f : Text → Except Literal.Fault Text}
    (hf : p.onLine? o = some f) {l u : Text} (h : CleanLine l) (hu : f l = .ok u) :
    CleanLine u := by
  cases p with
  | brackets => cases hf; exact Line.clean_mapCode Bracket.keepsEnd_space h hu
  | calls => cases hf; exact Line.clean_mapCode Call.keepsEnd_tighten h hu
  | operators => cases hf; exact Line.clean_mapCode Operator.keepsEnd_space h hu
  | commas => cases hf; exact Line.clean_mapCode Comma.keepsEnd_space h hu
  | semicolons => cases hf; exact Semicolon.clean_terminateLine h hu
  | quotes => cases hf; cases hu; exact Quote.clean_restyle o.quoteStyle h
  | _ => cases hf

/-! The other passes. -/

theorem Indentation.clean_indentFrom {unit : IndentUnit} (gap : isSpaceOrTab unit.char = true)
    (s : State) {ls : List Text} (h : ∀ l ∈ ls, CleanLine l) :
    ∀ l ∈ indentFrom unit s ls, CleanLine l := by
  induction ls generalizing s with
  | nil => exact List.forall_mem_nil _
  | cons raw ls ih =>
      obtain ⟨here, rest⟩ := List.forall_mem_cons.mp h
      have body : CleanLine (trimStart raw) := Line.clean_body here
      rw [indentFrom]
      dsimp only
      split
      · exact List.forall_mem_cons.mpr ⟨body, ih s rest⟩
      · next some =>
          refine List.forall_mem_cons.mpr ⟨body.of_mem (body.trimmed.append ?_) ?_, ih _ rest⟩
          · rintro none
            exact some (List.isEmpty_iff.mpr (trimEnd_trimStart_eq_nil_iff.mpr none))
          · intro c hc _ other
            rcases List.mem_append.mp hc with hc | hc
            · rw [(List.mem_replicate.mp hc).2, gap] at other
              cases other
            · exact hc

namespace Wrap

variable {o : FormatOptions}

theorem parts_of_cutAt? {indent content : Text} {i : Nat} (h : cutAt? o indent content = some i) :
    trimEnd (content.take i) ≠ [] ∧ trim (content.drop i) ≠ [] := by
  simp only [cutAt?] at h
  split at h
  · cases h
  · split at h
    · cases h
    · next kept =>
        cases h
        rw [Bool.or_eq_true, not_or, List.isEmpty_iff, List.isEmpty_iff] at kept
        exact kept

theorem trimmed_of_ink {t : Text} (h : trimEnd t = t) : Trimmed t := by
  intro c hc
  have stop := any_getLast?_dropEndWhile isBlank t
  rw [show dropEndWhile isBlank t = t from h, Option.mem_def.mp hc] at stop
  exact isTrailing_of_ink stop

theorem trimmed_piecesFrom (fuel : Nat) {indent content : Text} (some : content ≠ [])
    (trimmed : trimEnd content = content) : ∀ l ∈ piecesFrom o fuel indent content, Trimmed l := by
  have whole : Trimmed (indent ++ content) := (trimmed_of_ink trimmed).append some
  induction fuel generalizing indent content with
  | zero => exact List.forall_mem_singleton.mpr whole
  | succ fuel ih =>
      cases hcut : cutAt? o indent content with
      | none =>
          rw [piecesFrom_of_none hcut]
          exact List.forall_mem_singleton.mpr whole
      | some i =>
          obtain ⟨front, back⟩ := parts_of_cutAt? hcut
          rw [(piecesFrom_of_some hcut fuel).2, List.forall_mem_cons]
          exact ⟨(trimmed_of_ink (dropEndWhile_dropEndWhile _ _)).append front,
            ih back (trimEnd_trim _) ((trimmed_of_ink (trimEnd_trim _)).append back)⟩

theorem clean_piecesFrom (fuel : Nat) {l : Text} (h : CleanLine l) :
    ∀ u ∈ piecesFrom o fuel (splitIndent l).1 (trim l), CleanLine u := by
  have inside {c : Char} (hc : c ∈ trim l) : c ∈ l :=
    (List.dropWhile_sublist _).mem ((isPrefix_dropEndWhile isBlank _).mem hc)
  intro u hu
  have onLine : '\n' ∉ u := not_mem_piecesFrom o fuel (by decide)
    (fun hm => h.onLine (Line.mem_indent hm)) (fun hm => h.onLine (inside hm)) u hu
  have noReturn : '\r' ∉ u := not_return_piecesFrom fuel h.noReturn u hu
  by_cases some : trim l = []
  · -- a line of blanks is its own indentation
    have blank : (splitIndent l).2 = [] := Indentation.trimEnd_trimStart_eq_nil_iff.mp some
    have parts := splitIndent_append l
    rw [blank, List.append_nil] at parts
    rw [some, parts] at hu
    have none : cutAt? o l [] = none := by
      rw [cutAt?]
      dsimp only
      rw [if_pos]
      simpa using Int.le_total 0 (o.maxLineLength - width o l)
    rw [piecesFrom_of_none none, List.append_nil, List.mem_singleton] at hu
    exact hu ▸ h
  · exact ⟨onLine, noReturn, trimmed_piecesFrom fuel some (trimEnd_trim l) u hu⟩

theorem clean_wrapLine {l : Text} (h : CleanLine l) : ∀ u ∈ wrapLine o l, CleanLine u := by
  rw [wrapLine]
  split
  · exact List.forall_mem_singleton.mpr h
  · exact clean_piecesFrom _ h

theorem clean_measure {limit : Float} {t u : Text} (h : ∀ l ∈ lines t, CleanLine l)
    (hu : measure o limit t = .ok u) : ∀ l ∈ lines u, CleanLine l := by
  refine Line.forall_of_forall₂ (forall₂_of_measure hu) h fun {l e} line he => ?_
  obtain ⟨_, same, -, kept⟩ := of_measureLine he
  cases same
  rcases kept with rfl | rfl
  · exact line
  · exact clean_piecesFrom (o := o) 0 line _ (List.mem_singleton_self _)

end Wrap

theorem LineEnd.clean_close {t : Text} (h : ∀ l ∈ lines t, CleanLine l) :
    ∀ l ∈ lines (close t), CleanLine l := by
  rw [close]
  split
  · exact h
  · rw [lines_newline]
    exact List.forall_mem_append.mpr ⟨h, List.forall_mem_singleton.mpr cleanLine_nil⟩

theorem LineEnd.getLast?_close (t : Text) : (close t).getLast? = some '\n' := by
  rw [close]
  split
  · next closed => exact closed
  · exact List.getLast?_concat ..

/-- Trimmed lines without carriage returns are clean. -/
theorem LineEnd.clean_trim {t : Text} (h : '\r' ∉ t) :
    ∀ l ∈ lines (LineEnd.trim t), CleanLine l := by
  rw [lines_trim, List.forall_mem_map]
  intro l hl
  have kept {c : Char} (hc : c ∈ dropEndWhile isTrailing l) : c ∈ l :=
    (isPrefix_dropEndWhile isTrailing l).mem hc
  refine ⟨fun hm => not_newline_of_mem_lines hl (kept hm),
    fun hm => h (mem_of_mem_lines hl (kept hm)), fun c hc => ?_⟩
  have stop := any_getLast?_dropEndWhile isTrailing l
  rwa [Option.mem_def.mp hc, Option.any_some] at stop

theorem LineEnd.not_return_of_clean {t : Text} (h : ∀ l ∈ lines t, CleanLine l) : '\r' ∉ t := by
  rw [← unlines_lines t]
  exact not_return_unlines fun l hl => (h l hl).noReturn

/-! A run. -/

namespace FormatSettings

variable {s : FormatSettings}

/-- No pass makes a clean line unclean. -/
theorem clean_of_makes {p : Pass} {t u : Text} (h : ∀ l ∈ lines t, CleanLine l)
    (made : s.Makes t p u) : ∀ l ∈ lines u, CleanLine l := by
  cases made with
  | unified => rwa [unify_eq_self (not_return_of_clean h)]
  | trimmed => exact clean_trim (not_return_of_clean h)
  | indented hunit =>
      exact clean_unlines (Indentation.clean_indentFrom (isSpaceOrTab_of_indentUnit hunit) _ h)
  | byLine hf run => exact clean_mapLines h (Pass.clean_onLine hf) run
  | wrapped =>
      rw [Wrap.lines_apply]
      exact List.forall_mem_flatMap.mpr fun l hl => Wrap.clean_wrapLine (h l hl)
  | measured hm => exact Wrap.clean_measure h hm
  | closed => exact clean_close h

theorem clean_of_run {ps : List Pass} {t u : Text} (h : ∀ l ∈ lines t, CleanLine l)
    (run : Formatter.runPasses s.planOf ps t = .ok u) : ∀ l ∈ lines u, CleanLine l :=
  Formatter.keeps_of_runPasses (P := fun t => ∀ l ∈ lines t, CleanLine l)
    (fun _ _ _ _ hf clean hu => clean_of_makes clean (makes_of_planOf hf hu)) h run

end FormatSettings

namespace Formatter

/-- What is formatted has no carriage return and no blanks that would be trimmed at the end of a
line, and it ends in a newline where one is put at the end. -/
theorem format_clean {s : FormatSettings} {plan : Plan} (hs : s.plan = .ok plan)
    (on : s.trimTrailingWhitespace.isTruthy = true) {source : Text}
    (noError : (format { plan := plan } source).errors = []) :
    '\r' ∉ (format { plan := plan } source).text ∧
      (∀ l ∈ lines (format { plan := plan } source).text,
        ∀ c ∈ l.getLast?, c ≠ ' ' ∧ c ≠ '\t' ∧ c ≠ '\x0c' ∧ c ≠ '\x0b') ∧
      (s.insertFinalNewline.isTruthy = true →
        (format { plan := plan } source).text.getLast? = some '\n') := by
  obtain rfl := FormatSettings.eq_planOf hs
  obtain ⟨w, hw⟩ := (errors_eq_nil_iff _ _).mp noError
  have formatted : (format { plan := s.planOf } source).text = w := by
    rw [format, formatWith, hw]
  rw [formatted]
  replace hw : runPasses s.planOf Pass.all source = .ok w := hw
  have parts : Pass.all = Pass.all.dropLast ++ [.finalNewline] := rfl
  have closed : s.insertFinalNewline.isTruthy = true → w.getLast? = some '\n' := by
    intro closing
    rw [parts, runPasses_append] at hw
    obtain ⟨v, -, hw⟩ := hw
    have last : s.planOf .finalNewline = s.regular.plan .finalNewline := rfl
    obtain ⟨v', hv, hw⟩ := (runPasses_on_iff [] last closing).mp hw
    cases hv
    cases hw
    exact getLast?_close v
  have first : s.planOf .lineEndings = s.regular.plan .lineEndings := rfl
  have second : s.planOf .trailingBlanks = s.regular.plan .trailingBlanks := rfl
  obtain ⟨v, hv, hw⟩ := (runPasses_on_iff Pass.all.tail first rfl).mp hw
  cases hv
  obtain ⟨v, hv, hw⟩ := (runPasses_on_iff Pass.all.tail.tail second on).mp hw
  cases hv
  have clean := FormatSettings.clean_of_run (clean_trim (not_return_unify source)) hw
  refine ⟨not_return_of_clean clean, fun l hl c hc => ?_, closed⟩
  have other := (clean l hl).trimmed c hc
  simp only [isTrailing, Bool.or_eq_false_iff, beq_eq_false_iff_ne] at other
  exact ⟨other.1.1.1, other.1.1.2, other.1.2, other.2⟩

/-- Three kinds of line ends, blanks of which one is not trimmed, and a line that is cut. -/
theorem format_clean_cut :
    let source := "x = f(1, 2)\t \r\n\x7b y=1;\u00a0\x0c\r\x7d\n".toList
    let plan := FormatOptions.plan { maxLineLength := 9 }
    let text := "x = f(1,\n  2);\n\x7b y = 1;\u00a0\n\x7d\n".toList
    (FormatSettings.ofOptions { maxLineLength := 9 }).plan = .ok plan ∧
      (format { plan := plan } source).errors = [] ∧
      '\r' ∉ text ∧
      (∀ l ∈ lines text, ∀ c ∈ l.getLast?, c ≠ ' ' ∧ c ≠ '\t' ∧ c ≠ '\x0c' ∧ c ≠ '\x0b') ∧
      text.getLast? = some '\n' := by
  intro source plan text
  have accepted := FormatSettings.plan_ofOptions { maxLineLength := 9 }
  have noError : (format { plan := plan } source).errors = [] := by decide +kernel
  obtain ⟨noReturn, trimmed, closed⟩ := format_clean accepted rfl noError
  have formatted : (format { plan := plan } source).text = text := by decide +kernel
  rw [formatted] at noReturn trimmed closed
  exact ⟨accepted, noError, noReturn, trimmed, closed rfl⟩

end Formatter

end MotionExpr
