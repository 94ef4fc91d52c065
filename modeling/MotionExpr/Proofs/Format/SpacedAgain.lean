import MotionExpr.Proofs.Format.GapsAgain

/-!
The passes for brackets, calls and commas change nothing the second time. Masked again, a line is
what the first run made of it, and it ends in a blank if it did before.
-/

namespace MotionExpr

open Text Literal

namespace Line

open Semicolon

/-- Changes of gaps leave all pieces but spaces and tabs where they are. -/
theorem filter_isSpace_of_regapped {ps qs : List Piece} (h : Regapped ps qs) :
    qs.filter (fun p => !isSpace p) = ps.filter fun p => !isSpace p := by
  have gone {g : Text} (hg : ∀ c ∈ g, isSpaceOrTab c = true) :
      (g.map Piece.code).filter (fun p => !isSpace p) = [] := by
    refine List.filter_eq_nil_iff.mpr fun p hp => ?_
    obtain ⟨c, hc, rfl⟩ := List.mem_map.mp hp
    simp [isSpace, hg c hc]
  induction h with
  | refl => rfl
  | tail _ step ih =>
      rw [← ih]
      obtain @⟨as, bs, g, g', hg, hg', -, -, -⟩ := step
      simp only [List.filter_append, gone hg, gone hg']

/-- The last piece that is no space or tab stays the last such piece. -/
theorem exists_last_of_regapped {ps qs : List Piece} (h : Regapped ps qs) {p : Piece}
    (last : ps.getLast? = some p) (hp : isSpace p = false) :
    ∃ front, ∃ b : Text, qs = front ++ p :: b.map Piece.code ∧ ∀ c ∈ b, isSpaceOrTab c = true := by
  have same := filter_isSpace_of_regapped h
  obtain ⟨front, rfl⟩ := List.getLast?_eq_some_iff.mp last
  have parts : qs = (qs.reverse.dropWhile isSpace).reverse ++ (qs.reverse.takeWhile isSpace).reverse := by
    rw [← List.reverse_append, List.takeWhile_append_dropWhile, List.reverse_reverse]
  have spaces : ∀ q ∈ (qs.reverse.takeWhile isSpace).reverse, isSpace q = true := fun q hq =>
    List.all_eq_true.mp List.all_takeWhile q (List.mem_reverse.mp hq)
  obtain ⟨b, hb, blank⟩ := exists_of_isSpace spaces
  have stop := List.head?_dropWhile_not isSpace qs.reverse
  have gone : (b.map Piece.code).filter (fun p => !isSpace p) = [] :=
    List.filter_eq_nil_iff.mpr fun q hq => by simp [spaces q (hb ▸ hq)]
  rw [parts, hb, List.filter_append, gone, List.append_nil, List.filter_append,
    List.filter_cons_of_pos (by simp [hp]), List.filter_nil] at same
  cases hback : qs.reverse.dropWhile isSpace with
  | nil =>
      rw [hback] at same
      exact absurd same.symm (List.append_ne_nil_of_right_ne_nil _ (List.cons_ne_nil _ _))
  | cons q back =>
      rw [hback] at stop same parts
      have notSpace : isSpace q = false := by simpa using stop
      rw [List.reverse_cons, List.filter_append, List.filter_cons_of_pos (by simp [notSpace]),
        List.filter_nil] at same
      obtain ⟨-, hlast⟩ := List.append_inj' same rfl
      obtain rfl := (List.cons_eq_cons.mp hlast).1
      refine ⟨back.reverse, b, ?_, blank⟩
      rw [parts, hb, List.reverse_cons, List.append_assoc]
      rfl

theorem endsBlank_concat (front : List Piece) {p : Piece} (h : p.text ≠ []) :
    endsBlank ((front ++ [p]).flatMap Piece.text) = endsBlank p.text := by
  rw [List.flatMap_append, List.flatMap_singleton, endsBlank, List.getLast?_append_of_ne_nil _ h]
  rfl

theorem endsBlank_of_space {ps : List Piece} (h : ps.getLast?.any isSpace = true) :
    endsBlank (ps.flatMap Piece.text) = true := by
  obtain ⟨p, hp, space⟩ := (Option.any_eq_true ..).mp h
  obtain ⟨front, rfl⟩ := List.getLast?_eq_some_iff.mp hp
  cases p with
  | literal t => cases space
  | code c =>
      have some : (Piece.code c).text ≠ [] := List.cons_ne_nil c []
      exact (endsBlank_concat front some).trans (isBlank_of_isSpaceOrTab space)

theorem any_getLast?_numbered (n : Nat) (ps : List Piece) :
    (numbered n ps).getLast?.any isSpaceOrTab = ps.getLast?.any isSpace := by
  rw [getLast?_numbered]
  cases ps.getLast? with
  | none => rfl
  | some p => cases p <;> rfl

theorem unindented_dropEndWhile {p : Char → Bool} {t : Text} (h : Unindented t) :
    Unindented (dropEndWhile p t) := by
  obtain ⟨b, whole, -⟩ := dropEndWhile_spec p t
  intro c r front
  rw [front, List.cons_append] at whole
  exact h c _ whole.symm

theorem unindented_of_mask {body : Text} (h : Unindented (mask body).1) : Unindented body := by
  cases body with
  | nil => exact unindented_nil
  | cons c r =>
      refine unindented_cons.mpr (eq_false_of_ne_true fun blank => ?_)
      rw [mask, pieces_cons, length?_none_of_isBlank blank] at h
      have first : isBlank c = false := unindented_cons.mp h
      rw [blank] at first
      cases first

section Body

variable {f : Text → Text} (settles : Settles f) {body : Text} (unindented : Unindented body)

include settles unindented

theorem unindented_settles : Unindented (f (mask body).1) := by
  have front := settles.front _ (unindented_mask unindented)
  intro c r hout
  rw [hout] at front
  obtain ⟨s, hs⟩ := List.head?_eq_some_iff.mp front.symm
  exact unindented_mask unindented c s hs

/-- No gap is put in front, so none is taken away there. -/
theorem tidy_settles (b : Text) : tidy b (f (mask body).1) =
    if endsBlank b then f (mask body).1 else dropEndWhile isSpaceOrTab (f (mask body).1) := by
  rw [tidy, (unindented_settles settles unindented).dropWhile]

variable {qs : List Piece} (tidied : tidy body (f (mask body).1) = numbered 0 qs)

include tidied

/-- Nothing blank has come to the front. -/
theorem unindented_regapped (read : IsRead qs) : Unindented (qs.flatMap Piece.text) := by
  have front := unindented_settles settles unindented
  rw [tidy_settles settles unindented] at tidied
  refine unindented_of_mask ?_
  rw [mask, read, ← tidied]
  split
  · exact front
  · exact unindented_dropEndWhile front

/-- A line that ends in a blank keeps the gap at its end. -/
theorem space_last_of_endsBlank (blank : endsBlank body = true)
    (space : (pieces body).getLast?.any isSpace = true) : qs.getLast?.any isSpace = true := by
  rw [tidy_settles settles unindented, if_pos blank] at tidied
  rw [← any_getLast?_numbered 0, ← tidied]
  refine settles.ends _ ?_
  rw [mask, any_getLast?_numbered, space]

/-- Any other line has no gap left at its end. -/
theorem no_space_last (bare : ¬endsBlank body = true) : qs.getLast?.any isSpace = false := by
  rw [tidy_settles settles unindented, if_neg bare] at tidied
  rw [← any_getLast?_numbered 0, ← tidied]
  exact any_getLast?_dropEndWhile ..

variable (steps : Regapped (pieces body) qs)

include steps

/-- The line ends in a blank if it did before. -/
theorem endsBlank_regapped : endsBlank (qs.flatMap Piece.text) = endsBlank body := by
  have text := flatMap_text_pieces body
  rcases List.eq_nil_or_concat (pieces body) with none | ⟨front, p, hp⟩
  · rw [none] at steps text
    rw [Regapped.eq_nil steps, ← text]
  · rw [List.concat_eq_append] at hp
    have last : (pieces body).getLast? = some p := by rw [hp, List.getLast?_concat]
    cases hspace : isSpace p with
    | true =>
        have space : (pieces body).getLast?.any isSpace = true := by rwa [last]
        have blank : endsBlank body = true := text ▸ endsBlank_of_space space
        rw [endsBlank_of_space (space_last_of_endsBlank settles unindented tidied blank space), blank]
    | false =>
        have some : p.text ≠ [] := (hp ▸ isRead_pieces body : IsRead (front ++ [p])).right.text_ne_nil
        obtain ⟨front', b, rfl, hb⟩ := exists_last_of_regapped steps last hspace
        rcases List.eq_nil_or_concat b with rfl | ⟨b, d, rfl⟩
        · rw [← text, hp, endsBlank_concat front some]
          exact endsBlank_concat front' some
        · -- spaces stay behind the last piece only where the body ends in a blank
          have space : (front' ++ p :: (b.concat d).map Piece.code).getLast?.any isSpace = true := by
            have whole : front' ++ p :: (b.concat d).map Piece.code =
                (front' ++ p :: b.map Piece.code) ++ [.code d] := by simp
            rw [whole, List.getLast?_concat]
            exact hb d (by simp)
          rw [endsBlank_of_space space]
          refine Eq.symm (by_contra fun bare => ?_)
          rw [no_space_last settles unindented tidied bare] at space
          cases space

/-- The second run finds the code as the first one left it. -/
theorem tidy_again (read : IsRead qs) :
    tidy (qs.flatMap Piece.text) (f (mask (qs.flatMap Piece.text)).1) = numbered 0 qs := by
  have ends := endsBlank_regapped settles unindented tidied steps
  have front := unindented_regapped settles unindented tidied read
  rw [tidy_settles settles unindented] at tidied
  rw [tidy_settles settles front, ends, mask, read, ← tidied]
  cases endsBlank body with
  | true => exact settles.again _
  | false =>
      calc dropEndWhile isSpaceOrTab (f (dropEndWhile isSpaceOrTab (f (mask body).1)))
        _ = dropEndWhile isSpaceOrTab (f (f (mask body).1)) := settles.back _
        _ = dropEndWhile isSpaceOrTab (f (mask body).1) := by rw [settles.again]

end Body

/-- A line that was put together again is put together the same way. -/
theorem mapCode_again {f : Text → Text} (hf : Regaps f) (settles : Settles f) {line : Text}
    (clean : mark ∉ line) (onLine : '\n' ∉ line) :
    ∃ e, mapCode f line = .ok e ∧ '\n' ∉ e ∧ mapCode f e = .ok e := by
  obtain ⟨qs, he, steps, ⟨read, onLine', same⟩, tidied⟩ := exists_regapped hf clean onLine
  have parts := splitIndent_append line
  have unindented : Unindented (splitIndent line).2 := unindented_trimStart line
  have front := unindented_regapped settles unindented tidied read
  have again := tidy_again settles unindented tidied steps read
  refine ⟨_, he, List.not_mem_append (fun hm => onLine ?_) onLine', ?_⟩
  · exact parts ▸ List.mem_append_left _ hm
  · have unmarked : Unmarked qs := unmarked_of_solid_eq same <|
      unmarked_pieces fun hm => clean (parts ▸ List.mem_append_right _ hm)
    rw [mapCode_indented isBlank_of_mem_indent front, mapCode, splitIndent_unindented front]
    dsimp only
    split
    · rfl
    · rw [again, mask, read, restore_numbered unmarked]
      rfl

end Line

/-- Run on what they made of a text, the passes for brackets, calls and commas change nothing. -/
theorem Pass.spacing_again (o : FormatOptions) {p : Pass} (hp : p = .brackets ∨ p = .calls ∨ p = .commas)
    {source : Text} (clean : mark ∉ source) :
    ∃ t, p.apply o source = .ok t ∧ p.apply o t = .ok t := by
  have again {f : Text → Text} (hf : Regaps f) (settles : Line.Settles f) :
      ∃ t, Line.mapLines (Line.mapCode f) source = .ok t ∧
        Line.mapLines (Line.mapCode f) t = .ok t := by
    obtain ⟨t, ht, -, same⟩ := Line.mapLines_again (f := Line.mapCode f)
      (R := fun _ _ => True) fun line hline => by
        have unmarked : mark ∉ line := fun hm => clean (mem_of_mem_lines hline hm)
        obtain ⟨e, he, onLine, same⟩ :=
          Line.mapCode_again hf settles unmarked (not_newline_of_mem_lines hline)
        exact ⟨e, he, onLine, trivial, same⟩
    exact ⟨t, ht, same⟩
  rcases hp with rfl | rfl | rfl
  · exact again Bracket.regaps_space Bracket.settles_space
  · exact again Call.regaps_tighten Call.settles_tighten
  · exact again Comma.regaps_space Comma.settles_space

/-- Brackets that do not match, an open quote and a blank at the end. -/
theorem Pass.spacing_again_mismatched :
    let source := "\tif(a)\x7b[b), 'd \x7b'\x7d // e)\n(g\x7b\"h\x7d ".toList
    let result := "\tif(a)\x7b [ b), 'd \x7b' \x7d // e)\n(g\x7b \"h \x7d ".toList
    mark ∉ source ∧ Pass.apply {} .brackets source = .ok result ∧
      Pass.apply {} .brackets result = .ok result := by
  intro source result
  have clean : mark ∉ source := by decide
  obtain ⟨t, ht, again⟩ := Pass.spacing_again {} (.inl rfl) clean
  obtain rfl : result = t := Except.ok.inj ht
  exact ⟨clean, ht, again⟩

end MotionExpr
