import MotionExpr.Proofs.Format.SemicolonSites
import MotionExpr.Proofs.Format.Rows

/-!
A terminated line stays as it is. The code that the semicolon pass judges is found again in
the changed line, now with the semicolon, and code that ends in one, or in a block that does,
takes no other.
-/

namespace MotionExpr

open Literal Text

theorem Text.trimEnd_append_blanks {t b : Text} (hb : ∀ c ∈ b, isBlank c = true) :
    trimEnd (t ++ b) = trimEnd t := by
  have none : dropEndWhile isBlank b = [] := by
    rw [dropEndWhile_eq_reverse, List.dropWhile_eq_nil_iff.mpr fun c hc => hb c (List.mem_reverse.mp hc)]
    rfl
  rw [trimEnd, dropEndWhile_append, if_pos none]
  rfl

theorem Text.trimEnd_concat {t : Text} {c : Char} (h : isBlank c = false) :
    trimEnd (t ++ [c]) = t ++ [c] := by
  rw [trimEnd, dropEndWhile_eq_reverse, List.reverse_concat,
    List.dropWhile_cons_of_neg (by simp [h]), List.reverse_cons, List.reverse_reverse]

namespace Semicolon

/-- The code of a body without indentation: its pieces without the blanks at its end, or without
the comment there and the spaces and tabs in front of it. -/
def bodyCode (ps : List Piece) : List Piece :=
  match ps.reverse with
  | .literal t :: before =>
      if "//".toList.isPrefixOf t then (before.dropWhile isSpace).reverse else ps
  | back => (back.dropWhile Piece.isGap).reverse

theorem bodyCode_append_literal (ps : List Piece) (t : Text) :
    bodyCode (ps ++ [.literal t]) = codePieces (ps ++ [.literal t]) := by
  rw [bodyCode, codePieces, List.reverse_concat]

theorem bodyCode_append_blanks {ps : List Piece} {b : Text} (hb : ∀ c ∈ b, isBlank c = true)
    (hne : b ≠ []) : bodyCode (ps ++ b.map Piece.code) = (ps.reverse.dropWhile Piece.isGap).reverse := by
  have gaps : ∀ p ∈ (b.map Piece.code).reverse, Piece.isGap p = true := by
    intro p hp
    obtain ⟨c, hc, rfl⟩ := List.mem_map.mp (List.mem_reverse.mp hp)
    exact hb c hc
  obtain ⟨d, s, hd⟩ := List.exists_cons_of_ne_nil (mt List.reverse_eq_nil_iff.mp hne)
  have back : (ps ++ b.map Piece.code).reverse = .code d :: (s.map Piece.code ++ ps.reverse) := by
    rw [List.reverse_append, ← List.map_reverse, hd]
    rfl
  have dropped : ((ps ++ b.map Piece.code).reverse.dropWhile Piece.isGap).reverse =
      (ps.reverse.dropWhile Piece.isGap).reverse := by
    rw [List.reverse_append, List.dropWhile_append_of_pos gaps]
  rw [bodyCode, back]
  rw [back] at dropped
  exact dropped

theorem bodyCode_concat {ps : List Piece} {c : Char} (h : isBlank c = false) :
    bodyCode (ps ++ [.code c]) = ps ++ [.code c] := by
  rw [bodyCode, List.reverse_concat]
  dsimp only
  rw [List.dropWhile_cons_of_neg (by simp [Piece.isGap, h]), List.reverse_cons, List.reverse_reverse]

/-- Nothing stands behind a comment. -/
theorem comment_last {qs : List Piece} {u b : Text} (hn : '\n' ∉ u ++ b)
    (hu : "//".toList.isPrefixOf u = true)
    (h : pieces (qs.flatMap Piece.text ++ (u ++ b)) = qs ++ (.literal u :: b.map Piece.code)) :
    b = [] := by
  have longer : "//".toList.isPrefixOf (u ++ b) = true := by
    rw [List.isPrefixOf_iff_prefix] at hu ⊢
    exact hu.trans (List.prefix_append u b)
  have behind := (pieces_of_append h rfl).2
  rw [pieces_comment longer hn] at behind
  exact List.map_eq_nil_iff.mp (List.cons_eq_cons.mp behind).2.symm

/-- A piece that is neither blank nor a comment ends the code. -/
theorem bodyCode_of_last {ps : List Piece} {b : Text} (hb : ∀ c ∈ b, isBlank c = true)
    (last : ∀ qs c, ps = qs ++ [.code c] → isBlank c = false)
    (notComment : ∀ qs u, ps = qs ++ [.literal u] → ¬ "//".toList.isPrefixOf u = true) :
    bodyCode (ps ++ b.map Piece.code) = ps := by
  by_cases hb' : b = []
  · rw [hb', List.map_nil, List.append_nil]
    rcases List.eq_nil_or_concat ps with rfl | ⟨qs, p, hp⟩
    · rfl
    · rw [List.concat_eq_append] at hp
      cases p with
      | code c => rw [hp, bodyCode_concat (last qs c hp)]
      | literal u =>
          rw [hp, bodyCode_append_literal, codePieces_append_literal, if_neg (notComment qs u hp)]
  · rw [bodyCode_append_blanks hb hb']
    refine List.rdropWhile_eq_self_iff.mpr fun hne => ?_
    have hp := (List.dropLast_append_getLast hne).symm
    cases hlast : ps.getLast hne with
    | code c =>
        rw [hlast] at hp
        rw [Piece.isGap, last _ c hp]
        exact Bool.false_ne_true
    | literal u => exact Bool.false_ne_true

/-- No blanks stand behind a comment that ends a line without blanks at its end. -/
theorem no_blanks_behind_comment {t b : Text} (ht : '\n' ∉ trimEnd t ++ b) {qs : List Piece} {u : Text}
    (hlast : pieces (trimEnd t) = qs ++ [.literal u]) (hu : "//".toList.isPrefixOf u = true)
    (happ : pieces (trimEnd t ++ b) = pieces (trimEnd t) ++ b.map Piece.code) : b = [] := by
  have text : qs.flatMap Piece.text ++ u = trimEnd t := by
    have parts := flatMap_text_pieces (trimEnd t)
    rw [hlast, List.flatMap_append] at parts
    simpa [Piece.text] using parts
  refine @comment_last qs u b (fun hm => ht ?_) hu ?_
  · rw [← text, List.append_assoc]
    exact List.mem_append_right _ hm
  · rw [← List.append_assoc, text, happ, hlast, List.append_assoc]
    rfl

/-- What trimming takes from the end of a line is code, or belongs to the comment there. -/
theorem exists_pieces_trimEnd {t : Text} (ht : '\n' ∉ t) :
    ∃ b, trimEnd t ++ b = t ∧ (∀ c ∈ b, isBlank c = true) ∧
      (pieces t = pieces (trimEnd t) ++ b.map Piece.code ∨
        ∃ qs u, "//".toList.isPrefixOf u = true ∧ pieces (trimEnd t) = qs ++ [.literal u] ∧
          pieces t = qs ++ [.literal (u ++ b)]) := by
  obtain ⟨b, whole, hb⟩ := dropEndWhile_spec isBlank t
  change trimEnd t ++ b = t at whole
  rw [← whole, List.mem_append, not_or] at ht
  have split := pieces_append_blanks ht.1 hb ht.2
  rw [whole] at split
  exact ⟨b, whole, hb, split⟩

theorem isBlank_of_pieces_trimEnd {t : Text} {qs : List Piece} {c : Char}
    (h : pieces (trimEnd t) = qs ++ [.code c]) : isBlank c = false := by
  have text := flatMap_text_pieces (trimEnd t)
  rw [h, List.flatMap_append] at text
  exact isBlank_of_trimEnd_concat text.symm

/-- The code that is judged can be told from the pieces of the body. -/
theorem codePieces_trimEnd {t : Text} (ht : '\n' ∉ t) :
    codePieces (pieces (trimEnd t)) = bodyCode (pieces t) := by
  obtain ⟨b, whole, hb, happ | ⟨qs, u, hu, hqs, hqs'⟩⟩ := exists_pieces_trimEnd ht
  · by_cases comment : ∃ qs u, pieces (trimEnd t) = qs ++ [.literal u] ∧ "//".toList.isPrefixOf u = true
    · obtain ⟨qs, u, hlast, hu⟩ := comment
      have none := no_blanks_behind_comment (whole.symm ▸ ht) hlast hu (by rw [whole, happ])
      rw [happ, none, hlast, List.map_nil, List.append_nil, bodyCode_append_literal]
    · have notComment (qs : List Piece) (u : Text) (h : pieces (trimEnd t) = qs ++ [.literal u]) :
          ¬ "//".toList.isPrefixOf u = true := fun hu => comment ⟨qs, u, h, hu⟩
      rw [happ, bodyCode_of_last hb (fun _ _ => isBlank_of_pieces_trimEnd) notComment]
      rcases codePieces_spec (pieces (trimEnd t)) with ⟨hself, -⟩ | ⟨gap, u, hps, -, hu⟩
      · exact hself
      · rw [← List.append_assoc] at hps
        exact absurd hu (notComment _ u hps)
  · rw [hqs, hqs', bodyCode_append_literal, codePieces_append_literal, codePieces_append_literal,
      if_pos hu, if_pos]
    rw [List.isPrefixOf_iff_prefix] at hu ⊢
    exact hu.trans (List.prefix_append u b)

/-- What may stand behind the code of a body: blanks, or a comment with spaces and tabs in front. -/
inductive Tail : List Piece → Prop
  | blanks {b : Text} : (∀ c ∈ b, isBlank c = true) → Tail (b.map Piece.code)
  | comment {b t : Text} : (∀ c ∈ b, isSpaceOrTab c = true) → "//".toList.isPrefixOf t = true →
      Tail (b.map Piece.code ++ [.literal t])

theorem exists_of_isGap {ps : List Piece} (h : ∀ p ∈ ps, Piece.isGap p = true) :
    ∃ b : Text, ps = b.map Piece.code ∧ ∀ c ∈ b, isBlank c = true := by
  induction ps with
  | nil => exact ⟨[], rfl, List.forall_mem_nil _⟩
  | cons p ps ih =>
      obtain ⟨hp, hps⟩ := List.forall_mem_cons.mp h
      obtain ⟨b, rfl, hb⟩ := ih hps
      cases p with
      | code c => exact ⟨c :: b, rfl, List.forall_mem_cons.mpr ⟨hp, hb⟩⟩
      | literal t => cases hp

/-- Behind the code of a body there is a tail, which is missing only if no comment ends the body. -/
theorem exists_tail (ps : List Piece) : ∃ tail, ps = bodyCode ps ++ tail ∧ Tail tail ∧
    (tail = [] → ∀ qs t, ps = qs ++ [.literal t] → ¬ "//".toList.isPrefixOf t = true) := by
  have cut (q : Piece → Bool) (qs : List Piece) : ∃ rest, qs = (qs.reverse.dropWhile q).reverse ++ rest ∧
      ∀ p ∈ rest, q p = true := by
    refine ⟨(qs.reverse.takeWhile q).reverse, ?_, fun p hp =>
      List.all_eq_true.mp List.all_takeWhile p (List.mem_reverse.mp hp)⟩
    rw [← List.reverse_append, List.takeWhile_append_dropWhile, List.reverse_reverse]
  by_cases h : ∃ qs t, ps = qs ++ [.literal t]
  · obtain ⟨qs, t, rfl⟩ := h
    rw [bodyCode_append_literal, codePieces_append_literal]
    by_cases ht : "//".toList.isPrefixOf t = true
    · rw [if_pos ht]
      obtain ⟨rest, hrest, spaces⟩ := cut isSpace qs
      obtain ⟨b, rfl, hb⟩ := exists_of_isSpace spaces
      refine ⟨b.map Piece.code ++ [.literal t], ?_, .comment hb ht, ?_⟩
      · rw [← List.append_assoc, ← hrest]
      · exact fun hnil => absurd hnil (List.append_ne_nil_of_right_ne_nil _ (List.cons_ne_nil _ []))
    · rw [if_neg ht]
      refine ⟨[], (List.append_nil _).symm, .blanks (b := []) (List.forall_mem_nil _), ?_⟩
      intro _ rs u hu
      obtain ⟨-, hu⟩ := List.append_inj' hu rfl
      cases hu
      exact ht
  · obtain ⟨rest, hrest, gaps⟩ := cut Piece.isGap ps
    obtain ⟨b, rfl, hb⟩ := exists_of_isGap gaps
    have code : bodyCode ps = (ps.reverse.dropWhile Piece.isGap).reverse := by
      rw [bodyCode]
      split
      · next t before hr =>
          refine absurd ⟨before.reverse, t, ?_⟩ h
          rw [← List.reverse_cons, ← hr, List.reverse_reverse]
      · rfl
    refine ⟨b.map Piece.code, by rwa [code], .blanks hb, fun _ qs t hps => absurd ⟨qs, t, hps⟩ h⟩

theorem bodyCode_of_tail {ks tail : List Piece} {c : Char} (hc : isBlank c = false)
    (htail : Tail tail) : bodyCode (ks ++ .code c :: tail) = ks ++ [.code c] := by
  cases htail with
  | @blanks b hb =>
      have whole : ks ++ .code c :: b.map Piece.code = (ks ++ [.code c]) ++ b.map Piece.code := by simp
      by_cases hnil : b = []
      · rw [hnil]
        exact bodyCode_concat hc
      · rw [whole, bodyCode_append_blanks hb hnil, List.reverse_concat,
          List.dropWhile_cons_of_neg (by simp [Piece.isGap, hc]), List.reverse_cons,
          List.reverse_reverse]
  | @comment b t hb ht =>
      have whole : ks ++ .code c :: (b.map Piece.code ++ [.literal t]) =
          (ks ++ .code c :: b.map Piece.code) ++ [.literal t] := by simp
      have spaces : ∀ p ∈ (b.map Piece.code).reverse, isSpace p = true := by
        intro p hp
        obtain ⟨d, hd, rfl⟩ := List.mem_map.mp (List.mem_reverse.mp hp)
        exact hb d hd
      have notSpace : isSpaceOrTab c = false := by
        rw [← Bool.not_eq_true]
        intro h
        rw [isBlank_of_isSpaceOrTab h] at hc
        cases hc
      rw [whole, bodyCode_append_literal, codePieces_append_literal, if_pos ht, List.reverse_append,
        List.reverse_cons, List.append_assoc, List.dropWhile_append_of_pos spaces,
        List.singleton_append, List.dropWhile_cons_of_neg (by simp [isSpace, notSpace]),
        List.reverse_cons, List.reverse_reverse]

/-! The pass on a body. -/

/-- The line has no code at its start, so the pass leaves it alone. -/
def skips (body : Text) : Bool :=
  body.isEmpty || "//".toList.isPrefixOf body || "/*".toList.isPrefixOf body

section Body

variable {t : Text} (front : Unindented t) (ht : '\n' ∉ t) (clean : Unmarked (pieces t))

include front ht clean

omit front in
theorem unmarked_trimEnd : Unmarked (pieces (trimEnd t)) := by
  rw [Unmarked] at clean ⊢
  obtain ⟨b, -, -, happ | ⟨qs, u, -, hqs, hqs'⟩⟩ := exists_pieces_trimEnd ht
  · rw [happ, List.mem_append, not_or] at clean
    exact clean.1
  · rw [hqs', List.mem_append, not_or] at clean
    rw [hqs, List.mem_append, not_or]
    exact ⟨clean.1, by simp⟩

omit ht clean in
theorem terminateLine_of_skips (h : skips t = true) : terminateLine t = .ok t := by
  rw [skips] at h
  simp only [terminateLine, splitIndent_unindented front, h, if_true]

theorem terminateLine_of_none (h : terminate? (numbered 0 (bodyCode (pieces t))) = none) :
    terminateLine t = .ok t := by
  obtain ⟨comment, hsplit, hmasked⟩ := splitComment_numbered (unmarked_trimEnd ht clean)
  rw [codePieces_trimEnd ht] at hsplit
  simp only [terminateLine, splitIndent_unindented front, mask, hsplit, bind, Except.bind, h]
  split <;> rfl

/-- A semicolon is put behind the code or into a block at its end. -/
theorem terminateLine_of_some {u : Text} (hskip : skips t = false)
    (h : terminate? (numbered 0 (bodyCode (pieces t))) = some u) :
    ∃ as b rest, pieces t = as ++ (b.map Piece.code ++ rest) ∧
      bodyCode (pieces t) = as ++ b.map Piece.code ∧ u = numbered 0 as ++ ';' :: b ∧
      Parts (numbered 0 as) b ∧ Tail rest ∧
      (rest = [] → ∀ qs t', pieces t = qs ++ [.literal t'] → ¬ "//".toList.isPrefixOf t' = true) ∧
      terminateLine t = .ok (as.flatMap Piece.text ++ ';' :: (b ++ rest.flatMap Piece.text)) := by
  have trimmed := unmarked_trimEnd ht clean
  obtain ⟨comment, hsplit, hmasked⟩ := splitComment_numbered trimmed
  have hu := h
  rw [← codePieces_trimEnd ht] at hu
  obtain ⟨as, b, ds, hcode, hps, rfl, parts, restored⟩ := restore_terminated trimmed hu hmasked
  obtain ⟨rest, hrest, tail, atEnd⟩ := exists_tail (pieces t)
  rw [codePieces_trimEnd ht] at hcode
  rw [hcode, List.append_assoc] at hrest
  refine ⟨as, b, rest, hrest, hcode, rfl, parts, tail, atEnd, ?_⟩
  have ends : rest.flatMap Piece.text = ds.flatMap Piece.text ++ takeEndWhile isBlank t := by
    have whole := flatMap_text_pieces t
    have front := flatMap_text_pieces (trimEnd t)
    rw [hrest] at whole
    rw [hps] at front
    have parts : trimEnd t ++ takeEndWhile isBlank t = t := dropEndWhile_append_takeEndWhile ..
    generalize takeEndWhile isBlank t = blanks at parts ⊢
    rw [← front, ← whole] at parts
    simpa using parts.symm
  rw [codePieces_trimEnd ht] at hsplit
  simp only [terminateLine, splitIndent_unindented front, mask, hsplit, bind, Except.bind, h,
    restored, ends]
  rw [skips] at hskip
  rw [hskip]
  simp [pure, Except.pure]

end Body

/-! Terminated code. -/

theorem trim_semicolon {s b : Text} (hb : ∀ c ∈ b, isBlank c = true) :
    ∃ x, trim (s ++ ';' :: b) = x ++ [';'] := by
  have whole : s ++ ';' :: b = (s ++ [';']) ++ b := by simp
  rw [← trimStart_trimEnd, whole, trimEnd_append_blanks hb, trimEnd_concat rfl]
  induction s with
  | nil => exact ⟨[], rfl⟩
  | cons c s ih =>
      rw [List.cons_append, trimStart, List.dropWhile_cons]
      split
      · exact ih (by simp)
      · exact ⟨c :: s, rfl⟩

theorem terminateBlock?_semicolon {s b : Text} (hb : ∀ c ∈ b, isBlank c = true) :
    terminateBlock? (s ++ ';' :: b) = none := by
  have blanks : ∀ c ∈ b.reverse ++ [';'], (c ≠ '\x7b' : Bool) = true := by
    intro c hc
    rw [decide_eq_true_iff]
    rintro rfl
    rcases List.mem_append.mp hc with hc | hc
    · exact absurd (hb _ (List.mem_reverse.mp hc)) (by decide)
    · exact absurd (List.mem_singleton.mp hc) (by decide)
  have back : (s ++ ';' :: b).reverse = (b.reverse ++ [';']) ++ s.reverse := by simp
  obtain ⟨x, hx⟩ := trim_semicolon (s := (s.reverse.takeWhile (· ≠ '\x7b')).reverse) hb
  rw [terminateBlock?, back, List.takeWhile_append_of_pos blanks, List.reverse_append,
    List.reverse_append, List.reverse_reverse]
  dsimp only
  split
  · rfl
  · have ends : endsIn isTerminator (x ++ [';']) = true := by
      rw [endsIn, List.getLast?_concat]
      rfl
    rw [List.reverse_singleton, List.singleton_append, hx, ends]
    simp

theorem terminate?_of_getLast {code : Text} {c : Char} (h : isTerminator c = true)
    (hc : c ≠ '\x7d') : terminate? (code ++ [c]) = none := by
  have notParen : (c == ')') = false := by
    rw [beq_eq_false_iff_ne]
    rintro rfl
    cases h
  rw [terminate?, List.getLast?_concat]
  simp [hc, notParen, h]

/-- Terminated code takes no second semicolon, and it does not end in a blank. -/
theorem terminate?_again {code u : Text} (h : terminate? code = some u) :
    terminate? u = none ∧ ∃ x c, u = x ++ [c] ∧ isBlank c = false := by
  have atEnd (hu : some (code ++ [';']) = some u) :
      terminate? u = none ∧ ∃ x c, u = x ++ [c] ∧ isBlank c = false := by
    obtain rfl := Option.some.inj hu
    exact ⟨terminate?_of_getLast rfl (by decide), code, ';', rfl, rfl⟩
  rw [terminate?] at h
  split at h
  · cases h
  · split at h
    · obtain rfl := of_terminateBlock? h
      have whole : trimEnd code.dropLast ++ ';' :: (takeEndWhile isBlank code.dropLast ++ ['\x7d']) =
          (trimEnd code.dropLast ++ ';' :: takeEndWhile isBlank code.dropLast) ++ ['\x7d'] := by simp
      refine ⟨?_, _, '\x7d', whole, rfl⟩
      rw [whole, terminate?, List.getLast?_concat, List.dropLast_concat]
      exact terminateBlock?_semicolon fun c hc => mem_takeEndWhile hc
    · split at h
      · split at h
        · cases h
        · split at h
          · exact atEnd h
          · cases h
      · split at h
        · cases h
        · split at h
          · exact atEnd h
          · cases h

/-- A body that was terminated stays as it is. -/
theorem terminateLine_terminated {u : Text} (hn : '\n' ∉ u) (front : Unindented u)
    (clean : Unmarked (pieces u)) {as rest : List Piece} {b code : Text}
    (hu : pieces u = as ++ (.code ';' :: b.map Piece.code ++ rest)) (tail : Tail rest)
    (h : terminate? code = some (numbered 0 as ++ ';' :: b)) : terminateLine u = .ok u := by
  obtain ⟨again, x, c, hx, hc⟩ := terminate?_again h
  obtain ⟨ks, hks⟩ : ∃ ks, as ++ .code ';' :: b.map Piece.code = ks ++ [.code c] := by
    rcases List.eq_nil_or_concat b with rfl | ⟨b', d, rfl⟩
    · obtain ⟨-, hlast⟩ := List.append_inj' hx rfl
      obtain rfl := (List.cons_eq_cons.mp hlast).1
      exact ⟨as, rfl⟩
    · rw [List.concat_eq_append] at hx ⊢
      have whole : numbered 0 as ++ ';' :: (b' ++ [d]) = (numbered 0 as ++ ';' :: b') ++ [d] := by simp
      rw [whole] at hx
      obtain ⟨-, hlast⟩ := List.append_inj' hx rfl
      obtain rfl := (List.cons_eq_cons.mp hlast).1
      exact ⟨as ++ .code ';' :: b'.map Piece.code, by simp⟩
  have code : bodyCode (pieces u) = as ++ .code ';' :: b.map Piece.code := by
    rw [hu, ← List.append_assoc, hks, List.append_assoc, List.singleton_append,
      bodyCode_of_tail hc tail]
  apply terminateLine_of_none front hn clean
  have masked : numbered 0 (as ++ .code ';' :: b.map Piece.code) = numbered 0 as ++ ';' :: b := by
    rw [numbered_append, numbered, numbered_map_code]
  rw [code, masked, again]

/-- No semicolon goes in front of everything. -/
theorem not_terminate?_front {b : Text} (hb : ∀ c ∈ b, closesLine c = true) :
    terminate? b ≠ some (';' :: b) := by
  intro h
  have atEnd (hu : some (b ++ [';']) = some (';' :: b)) : False := by
    cases b with
    | nil => cases h
    | cons c r =>
        obtain ⟨rfl, -⟩ := List.cons_eq_cons.mp (Option.some.inj hu)
        cases hb _ (List.mem_cons_self ..)
  rw [terminate?] at h
  split at h
  · cases h
  · split at h
    · -- a block would have an opening brace
      rw [terminateBlock?] at h
      split at h
      · cases h
      · next c r hback =>
          have first := List.head?_dropWhile_not (fun d => (d ≠ '\x7b' : Bool)) b.dropLast.reverse
          have inside : c ∈ b.dropLast.reverse :=
            (List.dropWhile_sublist _).subset (hback ▸ List.mem_cons_self ..)
          rw [hback] at first
          have hc : c = '\x7b' := by simpa using first
          have closes := hb c (List.dropLast_subset b (List.mem_reverse.mp inside))
          rw [hc] at closes
          cases closes
    · split at h
      · split at h
        · cases h
        · split at h
          · exact atEnd h
          · cases h
      · split at h
        · cases h
        · split at h
          · exact atEnd h
          · cases h

theorem Tail.blank {ps : List Piece} (h : Tail ps) : ∀ c, .code c ∈ ps → isBlank c = true := by
  have inGap {c : Char} {b : Text} (hb : ∀ d ∈ b, isBlank d = true) (hc : .code c ∈ b.map Piece.code) :
      isBlank c = true := by
    obtain ⟨d, hd, hdc⟩ := List.mem_map.mp hc
    exact Piece.code.inj hdc ▸ hb d hd
  intro c hc
  cases h with
  | blanks hb => exact inGap hb hc
  | comment hb ht =>
      rcases List.mem_append.mp hc with hc | hc
      · exact inGap (fun d hd => isBlank_of_isSpaceOrTab (hb d hd)) hc
      · cases List.mem_singleton.mp hc

theorem Tail.closesLine {ps : List Piece} (h : Tail ps) (c : Char) (hc : .code c ∈ ps) :
    closesLine c = true := by
  rw [Semicolon.closesLine, h.blank c hc]
  rfl

end Semicolon
end MotionExpr
