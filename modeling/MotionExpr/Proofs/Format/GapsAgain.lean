import MotionExpr.Proofs.Format.BracketPairs
import MotionExpr.Proofs.Format.PaddedLines

/-!
Masked code spaced a second time. The transforms for brackets, calls and commas find their own gaps
as they left them, leave the front of a body alone, and see spaces and tabs at its end only to
keep one.
-/

namespace MotionExpr

open Text Literal

theorem Text.not_isSpaceOrTab {c : Char} (h : isBlank c = false) : isSpaceOrTab c = false := by
  refine eq_false_of_ne_true fun space => ?_
  rw [isBlank_of_isSpaceOrTab space] at h
  cases h

/-- What is dropped at the end too does not show in front. -/
theorem Text.head?_dropWhile_append_of_all {p : Char → Bool} {b : Text} (hb : ∀ c ∈ b, p c = true)
    (t : Text) : ((t ++ b).dropWhile p).head? = (t.dropWhile p).head? := by
  rw [List.dropWhile_append, List.dropWhile_eq_nil_iff.mpr hb]
  split
  · next empty => rw [List.isEmpty_iff.mp empty]
  · next some => rw [List.head?_append_of_ne_nil _ fun none => some (List.isEmpty_iff.mpr none)]

theorem Text.Unindented.dropWhile {t : Text} (h : Unindented t) : t.dropWhile isSpaceOrTab = t := by
  cases t with
  | nil => rfl
  | cons c r => exact List.dropWhile_cons_of_neg (by simp [not_isSpaceOrTab (unindented_cons.mp h)])

namespace Line

/-- Run on its own result, a transform of masked code changes nothing. It leaves the front of a
body alone, and at the end it sees spaces and tabs only to keep one. -/
structure Settles (f : Text → Text) : Prop where
  again : ∀ t, f (f t) = f t
  front : ∀ t, Unindented t → (f t).head? = t.head?
  back : ∀ t, dropEndWhile isSpaceOrTab (f (dropEndWhile isSpaceOrTab t)) =
    dropEndWhile isSpaceOrTab (f t)
  ends : ∀ t, t.getLast?.any isSpaceOrTab = true → (f t).getLast?.any isSpaceOrTab = true

theorem dropEndWhile_blanks {b : Text} (hb : ∀ c ∈ b, isSpaceOrTab c = true) (t : Text) :
    dropEndWhile isSpaceOrTab (t ++ b) = dropEndWhile isSpaceOrTab t := by
  rw [dropEndWhile_append, if_pos (dropEndWhile_eq_nil hb)]

/-- A transform that does not look at spaces and tabs at the end. -/
theorem Settles.of_append {f : Text → Text} (again : ∀ t, f (f t) = f t)
    (front : ∀ t, (f t).head? = t.head?)
    (append : ∀ t b, (∀ c ∈ b, isSpaceOrTab c = true) → f (t ++ b) = f t ++ b) : Settles f where
  again := again
  front t _ := front t
  back t := by
    obtain ⟨b, whole, hb⟩ := dropEndWhile_spec isSpaceOrTab t
    conv => rhs; rw [← whole]
    rw [append _ b hb, dropEndWhile_blanks hb]
  ends t h := by
    obtain ⟨c, hc, space⟩ := (Option.any_eq_true ..).mp h
    obtain ⟨u, rfl⟩ := List.getLast?_eq_some_iff.mp hc
    rw [append u [c] (List.forall_mem_singleton.mpr space), List.getLast?_concat]
    exact space

end Line

namespace Bracket

theorem needsSpaceBefore_append_blanks {b : Text} (hb : ∀ c ∈ b, isSpaceOrTab c = true) (r : Text) :
    needsSpaceBefore (r ++ b) = needsSpaceBefore r := by
  cases r with
  | cons d r => rfl
  | nil =>
      cases b with
      | nil => rfl
      | cons d b =>
          have blank := isBlank_of_isSpaceOrTab (hb d (List.mem_cons_self ..))
          simp [needsSpaceBefore, blank]

theorem spaceFrom_append_blanks {b : Text} (hb : ∀ c ∈ b, isSpaceOrTab c = true) (t passed : Text)
    (spaced : List Bool) : spaceFrom passed spaced (t ++ b) = spaceFrom passed spaced t ++ b := by
  induction t generalizing passed spaced with
  | nil =>
      have plain : ∀ c ∈ b, isOpening c = false ∧ isClosing c = false := fun c hc =>
        plain_of_isBlank (isBlank_of_isSpaceOrTab (hb c hc))
      have whole := spaceFrom_of_plain plain passed spaced []
      rwa [List.append_nil, spaceFrom, List.append_nil] at whole
  | cons c r ih =>
      rw [List.cons_append, spaceFrom, spaceFrom, needsSpaceBefore_append_blanks hb]
      dsimp only
      rw [ih, ih, ih]
      split
      · rw [List.cons_append, List.cons_append, List.cons_append, List.append_assoc]
      · split
        · rw [List.append_assoc, List.cons_append]
        · rw [List.cons_append]

/-- Behind an opening bracket that took no space there is still none to take. -/
theorem needsSpaceBefore_spaceFrom {r : Text} (h : needsSpaceBefore r = false) (passed : Text)
    (spaced : List Bool) : needsSpaceBefore (spaceFrom passed spaced r) = false := by
  cases r with
  | nil => rfl
  | cons d r =>
      obtain ⟨front, back, kept, hfront, -, heq⟩ := spaceFrom_cons passed spaced d r
      rw [heq]
      rcases hfront with rfl | ⟨rfl, -⟩
      · exact h
      · rfl

section Scan

variable {c : Char} (passed : Text) (spaced : List Bool) (r : Text)

theorem spaceFrom_cons_opening (h : isOpening c = true) : spaceFrom passed spaced (c :: r) =
    c :: ((if (c == '\x7b' || !Operand.isBehind passed) && needsSpaceBefore r then [' '] else []) ++
      spaceFrom (c :: passed) ((c == '\x7b' || !Operand.isBehind passed) :: spaced) r) := by
  rw [spaceFrom, if_pos h]
  rfl

theorem spaceFrom_cons_closing (h : isClosing c = true) : spaceFrom passed spaced (c :: r) =
    (if spaced.headD (c == '\x7d') && needsSpaceBehind passed then [' '] else []) ++
      c :: spaceFrom (c :: passed) spaced.tail r := by
  rw [spaceFrom, if_neg fun opening => not_isClosing_of_isOpening opening h, if_pos h]

theorem spaceFrom_cons_space :
    spaceFrom passed spaced (' ' :: r) = ' ' :: spaceFrom (' ' :: passed) spaced r := rfl

end Scan

/-- A second scan over the result of the first one changes nothing, with whatever gaps behind it. -/
def Again (passed : Text) (spaced : List Bool) (t : Text) : Prop :=
  ∀ out, Operand.Alike passed out →
    (needsSpaceBehind out = true → needsSpaceBehind passed = true) →
    spaceFrom out spaced (spaceFrom passed spaced t) = spaceFrom passed spaced t

section Again

variable {c : Char} {passed : Text} {spaced : List Bool} {r : Text}

theorem Again.opening (h : isOpening c = true)
    (rest : Again (c :: passed) ((c == '\x7b' || !Operand.isBehind passed) :: spaced) r) :
    Again passed spaced (c :: r) := by
  intro out alike _
  obtain ⟨notBlank, notWord⟩ := stop_of_bracket (.inl h)
  rw [spaceFrom_cons_opening passed spaced r h, spaceFrom_cons_opening out spaced _ h, ← alike.same]
  by_cases takes : ((c == '\x7b' || !Operand.isBehind passed) && needsSpaceBefore r) = true
  · -- the space that was put there is passed
    have gone : needsSpaceBefore ([' '] ++ spaceFrom (c :: passed)
        ((c == '\x7b' || !Operand.isBehind passed) :: spaced) r) = false := rfl
    have behindSpace : Operand.Alike (c :: passed) (' ' :: c :: out) :=
      @Operand.Alike.of_symbol c [] [' '] notBlank notWord (List.forall_mem_nil _)
        (List.forall_mem_singleton.mpr rfl) passed out
    rw [if_pos takes, gone, Bool.and_false, if_neg Bool.false_ne_true, List.nil_append,
      List.singleton_append, spaceFrom_cons_space,
      rest _ behindSpace fun needs => absurd needs Bool.false_ne_true]
  · have still : ¬((c == '\x7b' || !Operand.isBehind passed) && needsSpaceBefore (spaceFrom
        (c :: passed) ((c == '\x7b' || !Operand.isBehind passed) :: spaced) r)) = true := by
      rw [Bool.and_eq_true, not_and] at takes ⊢
      intro here
      rw [needsSpaceBefore_spaceFrom (eq_false_of_ne_true (takes here))]
      exact Bool.false_ne_true
    rw [if_neg takes, List.nil_append, if_neg still, List.nil_append, rest (c :: out) (alike.append [c]) id]

theorem Again.closing (h : isClosing c = true) (rest : Again (c :: passed) spaced.tail r) :
    Again passed spaced (c :: r) := by
  intro out alike behind
  obtain ⟨notBlank, notWord⟩ := stop_of_bracket (.inr h)
  rw [spaceFrom_cons_closing passed spaced r h]
  by_cases takes : (spaced.headD (c == '\x7d') && needsSpaceBehind passed) = true
  · have gone : needsSpaceBehind (' ' :: out) = false := rfl
    have behindSpace : Operand.Alike (c :: passed) (c :: ' ' :: out) :=
      @Operand.Alike.of_symbol c [] [] notBlank notWord (List.forall_mem_nil _)
        (List.forall_mem_nil _) passed (' ' :: out)
    rw [if_pos takes, List.singleton_append, spaceFrom_cons_space,
      spaceFrom_cons_closing (' ' :: out) spaced _ h, gone, Bool.and_false,
      if_neg Bool.false_ne_true, List.nil_append, rest _ behindSpace id]
  · have still : ¬(spaced.headD (c == '\x7d') && needsSpaceBehind out) = true := by
      rw [Bool.and_eq_true, not_and] at takes ⊢
      exact fun here needs => takes here (behind needs)
    rw [if_neg takes, List.nil_append, spaceFrom_cons_closing out spaced _ h, if_neg still,
      List.nil_append, rest (c :: out) (alike.append [c]) id]

theorem Again.plain (opening : ¬isOpening c = true) (closing : ¬isClosing c = true)
    (rest : Again (c :: passed) spaced r) : Again passed spaced (c :: r) := by
  intro out alike _
  have passes (p t : Text) : spaceFrom p spaced (c :: t) = c :: spaceFrom (c :: p) spaced t := by
    rw [spaceFrom, if_neg opening, if_neg closing]
  rw [passes, passes, rest (c :: out) (alike.append [c]) id]

end Again

theorem spaceFrom_again (passed : Text) (spaced : List Bool) (t : Text) : Again passed spaced t := by
  induction t generalizing passed spaced with
  | nil => exact fun _ _ _ => rfl
  | cons c r ih =>
      by_cases opening : isOpening c = true
      · exact .opening opening (ih _ _)
      · by_cases closing : isClosing c = true
        · exact .closing closing (ih _ _)
        · exact .plain opening closing (ih _ _)

theorem head?_space (t : Text) : (space t).head? = t.head? := by
  cases t with
  | nil => rfl
  | cons c r =>
      by_cases closing : isClosing c = true
      · rw [space, spaceFrom_cons_closing [] [] r closing, needsSpaceBehind, Bool.and_false,
          if_neg Bool.false_ne_true]
        rfl
      · obtain ⟨front, back, kept, hfront, -, heq⟩ := spaceFrom_cons [] [] c r
        rw [space, heq, (hfront.resolve_right fun both => closing both.2)]
        rfl

theorem settles_space : Line.Settles space :=
  .of_append (fun t => spaceFrom_again [] [] t [] (.refl []) id) head?_space fun t _ hb =>
    spaceFrom_append_blanks hb t [] []

end Bracket

namespace Call

theorem opensCall_append_blanks {b : Text} (hb : ∀ c ∈ b, isSpaceOrTab c = true) (r : Text) :
    opensCall (r ++ b) = opensCall r := by
  induction r with
  | nil =>
      cases b with
      | nil => rfl
      | cons c b =>
          obtain ⟨hc, hb⟩ := List.forall_mem_cons.mp hb
          rw [List.nil_append, opensCall_of_isSpaceOrTab hc, List.dropWhile_eq_nil_iff.mpr hb]
          rfl
  | cons c r ih =>
      rw [List.cons_append]
      cases hname : continuesName c with
      | true => rw [opensCall_of_continuesName hname, opensCall_of_continuesName hname, ih]
      | false =>
          cases hspace : isSpaceOrTab c with
          | true =>
              rw [opensCall_of_isSpaceOrTab hspace, opensCall_of_isSpaceOrTab hspace,
                head?_dropWhile_append_of_all hb]
          | false => rw [opensCall_of_other hname hspace, opensCall_of_other hname hspace]

theorem not_isSpaceOrTab_of_startsWord {c : Char} (h : Token.startsWord c = true) :
    isSpaceOrTab c = false := by
  refine eq_false_of_ne_true fun space => ?_
  have notName := not_continuesName_of_isSpaceOrTab space
  rw [continuesName_of_startsWord h] at notName
  cases notName

/-- What shows first stays. -/
theorem head?_dropWhile_tighten (passed t : Text) :
    ((substituteFrom join passed 0 t).dropWhile isSpaceOrTab).head? =
      (t.dropWhile isSpaceOrTab).head? := by
  refine finds_called.head?_dropWhile (fun passed found rest text h => ?_) passed t
  obtain @⟨c, w, gap, _, start, hw, hgap, some⟩ := h
  have notSpace := not_isSpaceOrTab_of_startsWord start
  refine ⟨c, ?_, ?_⟩
  · rw [List.dropWhile_cons_of_neg (by simp [notSpace])]
    rfl
  · split <;> rw [List.dropWhile_cons_of_neg (by simp [notSpace])] <;> rfl

/-- No call opens that opened none before. -/
theorem opensCall_tighten (passed t : Text) (h : opensCall t = false) :
    opensCall (substituteFrom join passed 0 t) = false := by
  induction passed, t using finds_called.induction with
  | nil passed => rfl
  | pass passed c r _ ih =>
      cases hname : continuesName c with
      | true =>
          rw [opensCall_of_continuesName hname] at h ⊢
          exact ih h
      | false =>
          cases hspace : isSpaceOrTab c with
          | true =>
              rw [opensCall_of_isSpaceOrTab hspace] at h ⊢
              rw [head?_dropWhile_tighten, h]
          | false => exact opensCall_of_other hname hspace _
  | found passed found rest text hf _ =>
      obtain @⟨c, w, gap, _, start, hw, hgap, some⟩ := hf
      have name : ∀ d ∈ c :: w, continuesName d = true :=
        List.forall_mem_cons.mpr ⟨continuesName_of_startsWord start, hw⟩
      have opens := opensCall_gap name hgap some rest
      have whole : c :: (w ++ (gap ++ ['('])) ++ rest = c :: w ++ (gap ++ '(' :: rest) := by simp
      rw [whole, opens] at h
      cases h

/-- A name directly in front of its parenthesis is passed. -/
theorem substituteFrom_named {w : Text} (hw : ∀ c ∈ w, continuesName c = true) (passed rest : Text) :
    ∃ behind, substituteFrom join passed 0 (w ++ '(' :: rest) =
      w ++ '(' :: substituteFrom join behind 0 rest := by
  induction w generalizing passed with
  | nil =>
      have none : join passed ('(' :: rest) = none := join_cons_eq_none_iff.mpr fun start => by cases start
      exact ⟨_, substituteFrom_of_none none⟩
  | cons c w ih =>
      obtain ⟨-, hw⟩ := List.forall_mem_cons.mp hw
      obtain ⟨behind, passes⟩ := ih hw (c :: passed)
      have closed : opensCall (w ++ '(' :: rest) = false := by
        rw [opensCall_append hw]
        exact opensCall_of_other rfl rfl rest
      refine ⟨behind, ?_⟩
      rw [List.cons_append, substituteFrom_of_none (join_cons_eq_none_iff.mpr fun _ => closed), passes]
      rfl

theorem tighten_tighten (passed passed' t : Text) :
    substituteFrom join passed' 0 (substituteFrom join passed 0 t) = substituteFrom join passed 0 t := by
  induction passed, t using finds_called.induction generalizing passed' with
  | nil passed => rfl
  | pass passed c r none ih =>
      have still : join passed' (c :: substituteFrom join (c :: passed) 0 r) = .none :=
        join_cons_eq_none_iff.mpr fun start => opensCall_tighten _ _ (join_cons_eq_none_iff.mp none start)
      rw [substituteFrom_of_none still, ih]
  | found passed found rest text hf ih =>
      obtain @⟨c, w, gap, _, start, hw, hgap, some⟩ := hf
      generalize hout : substituteFrom join ((c :: (w ++ (gap ++ ['(']))).reverse ++ passed) 0 rest = out at ih
      split
      · next keyword =>
          have again := join_eq_some start hw hgap some passed' out
          have whole : c :: (w ++ (gap ++ ['('])) ++ out = c :: (w ++ (gap ++ '(' :: out)) := by simp
          rw [if_pos keyword, ← whole] at again
          rw [substituteFrom_found again rfl (List.cons_ne_nil _ _), ih]
      · have name : ∀ d ∈ c :: w, continuesName d = true :=
          List.forall_mem_cons.mpr ⟨continuesName_of_startsWord start, hw⟩
        obtain ⟨behind, passes⟩ := substituteFrom_named name passed' out
        have whole : c :: (w ++ ['(']) ++ out = c :: w ++ '(' :: out := by simp
        rw [whole, passes, ih]

theorem substituteFrom_append_blanks {b : Text} (hb : ∀ c ∈ b, isSpaceOrTab c = true)
    (passed t : Text) :
    substituteFrom join passed 0 (t ++ b) = substituteFrom join passed 0 t ++ b := by
  induction passed, t using finds_called.induction with
  | nil passed =>
      rw [List.nil_append]
      induction b generalizing passed with
      | nil => rfl
      | cons c b ih =>
          obtain ⟨hc, hb⟩ := List.forall_mem_cons.mp hb
          have none : join passed (c :: b) = .none := join_cons_eq_none_iff.mpr fun start => by
            rw [not_isSpaceOrTab_of_startsWord start] at hc
            cases hc
          rw [substituteFrom_of_none none, ih hb]
  | pass passed c r none ih =>
      have still : join passed (c :: (r ++ b)) = .none := by
        rw [join_cons_eq_none_iff, opensCall_append_blanks hb]
        exact join_cons_eq_none_iff.mp none
      rw [List.cons_append, substituteFrom_of_none still, ih, List.cons_append]
  | found passed found rest text hf ih =>
      obtain @⟨c, w, gap, _, start, hw, hgap, some⟩ := hf
      have again := join_eq_some start hw hgap some passed (rest ++ b)
      have whole : c :: (w ++ (gap ++ '(' :: (rest ++ b))) = c :: (w ++ (gap ++ ['('])) ++ (rest ++ b) := by
        simp
      rw [whole] at again
      rw [List.append_assoc, substituteFrom_found again rfl (List.cons_ne_nil _ _), ih, List.append_assoc]

theorem settles_tighten : Line.Settles tighten :=
  .of_append (tighten_tighten [] []) (finds_called.head? (fun passed found rest text h => by
    obtain ⟨start, hw, hgap, some⟩ := h
    split <;> exact ⟨List.cons_ne_nil _ _, rfl⟩) []) fun t _ hb => substituteFrom_append_blanks hb [] t

end Call

namespace Comma

theorem head?_dropWhile_space (passed t : Text) :
    ((substituteFrom respace passed 0 t).dropWhile isSpaceOrTab).head? =
      (t.dropWhile isSpaceOrTab).head? := by
  refine finds_listed.head?_dropWhile (fun passed found rest text h => ?_) passed t
  obtain ⟨hgap, -, -⟩ := h
  exact ⟨',', by rw [dropWhile_gap hgap]; rfl, rfl⟩

/-- No gap is put in front. -/
theorem front_space (passed : Text) {t : Text} (h : t.head?.any isSpaceOrTab = false) :
    (substituteFrom respace passed 0 t).head?.any isSpaceOrTab = false := by
  induction passed, t using finds_listed.induction with
  | nil passed => rfl
  | pass passed c r _ _ => exact h
  | found passed found rest text hf _ =>
      cases hf
      rfl

theorem space_space (passed passed' t : Text) :
    substituteFrom respace passed' 0 (substituteFrom respace passed 0 t) =
      substituteFrom respace passed 0 t := by
  induction passed, t using finds_listed.induction generalizing passed' with
  | nil passed => rfl
  | pass passed c r none ih =>
      have shows := head?_dropWhile_space passed (c :: r)
      rw [substituteFrom_of_none none] at shows
      have still : respace passed' (c :: substituteFrom respace (c :: passed) 0 r) = .none :=
        respace_eq_none_iff.mpr (shows ▸ respace_eq_none_iff.mp none)
      rw [substituteFrom_of_none still, ih]
  | found passed found rest text hf ih =>
      obtain @⟨gap, behind, _, hgap, hbehind, hrest⟩ := hf
      have front := front_space ((gap ++ ',' :: behind).reverse ++ passed) hrest
      generalize substituteFrom respace ((gap ++ ',' :: behind).reverse ++ passed) 0 rest = out at *
      have again := @substituteFrom_listed [] [' '] out (List.forall_mem_nil _)
        (List.forall_mem_singleton.mpr rfl) front passed'
      rw [ih] at again
      exact again

section Blanks

variable {b : Text} (hb : ∀ c ∈ b, isSpaceOrTab c = true)

include hb

theorem respace_append_blanks {passed t : Text} (h : respace passed t = none) (passed' : Text) :
    respace passed' (t ++ b) = none := by
  rw [respace_eq_none_iff, head?_dropWhile_append_of_all hb]
  exact respace_eq_none_iff.mp h

/-- Spaces and tabs at the end make a difference at the end only. -/
theorem dropEndWhile_space_append (passed t : Text) :
    dropEndWhile isSpaceOrTab (substituteFrom respace passed 0 (t ++ b)) =
      dropEndWhile isSpaceOrTab (substituteFrom respace passed 0 t) := by
  have congr {x y : Text} (a : Text) (h : dropEndWhile isSpaceOrTab x = dropEndWhile isSpaceOrTab y) :
      dropEndWhile isSpaceOrTab (a ++ x) = dropEndWhile isSpaceOrTab (a ++ y) := by
    rw [dropEndWhile_append, dropEndWhile_append, h]
  induction passed, t using finds_listed.induction with
  | nil passed =>
      have kept : substituteFrom respace passed 0 b = b := by
        clear congr
        induction b generalizing passed with
        | nil => rfl
        | cons c b ih =>
            have none := @respace_append_blanks (c :: b) hb passed [] rfl passed
            rw [List.nil_append] at none
            rw [substituteFrom_of_none none, ih (List.forall_mem_cons.mp hb).2]
      rw [List.nil_append, kept, dropEndWhile_eq_nil hb]
      rfl
  | pass passed c r none ih =>
      have still : respace passed (c :: (r ++ b)) = .none := respace_append_blanks hb none passed
      rw [List.cons_append, substituteFrom_of_none still]
      exact congr [c] ih
  | found passed found rest text hf ih =>
      obtain @⟨gap, behind, _, hgap, hbehind, hrest⟩ := hf
      by_cases hnil : rest = []
      · -- the gap behind the comma takes them in
        subst hnil
        have longer := @substituteFrom_listed gap (behind ++ b) [] hgap
          (List.forall_mem_append.mpr ⟨hbehind, hb⟩) rfl passed
        rw [List.append_nil] at longer
        rw [List.append_nil, List.append_assoc, List.cons_append, longer]
        rfl
      · have front : (rest ++ b).head?.any isSpaceOrTab = false := by
          rwa [List.head?_append_of_ne_nil _ hnil]
        rw [List.append_assoc, substituteFrom_listed hgap hbehind front]
        exact congr [',', ' '] ih

end Blanks

/-- A gap at the end leaves one there. -/
theorem ends_space (passed t : Text) (h : t.getLast?.any isSpaceOrTab = true) :
    (substituteFrom respace passed 0 t).getLast?.any isSpaceOrTab = true := by
  induction passed, t using finds_listed.induction with
  | nil passed => exact h
  | pass passed c r _ ih =>
      cases r with
      | nil => exact h
      | cons d r =>
          rw [List.getLast?_cons_cons] at h
          obtain ⟨e, he, space⟩ := (Option.any_eq_true ..).mp (ih h)
          rw [List.getLast?_cons, he]
          exact space
  | found passed found rest text hf ih =>
      obtain @⟨gap, behind, _, -, -, -⟩ := hf
      by_cases hnil : rest = []
      · rw [hnil]
        rfl
      · rw [List.getLast?_append_of_ne_nil _ hnil] at h
        obtain ⟨e, he, space⟩ := (Option.any_eq_true ..).mp (ih h)
        rw [List.getLast?_append, he]
        exact space

theorem settles_space : Line.Settles space where
  again := space_space [] []
  front t h := by
    cases t with
    | nil => rfl
    | cons c r =>
        have notSpace := not_isSpaceOrTab (unindented_cons.mp h)
        have shows := head?_dropWhile_space [] (c :: r)
        have front := @front_space [] (c :: r) notSpace
        rw [h.dropWhile] at shows
        rw [space, substitute, ← shows]
        cases hout : substituteFrom respace [] 0 (c :: r) with
        | nil => rfl
        | cons d s =>
            rw [hout] at front
            have first : isSpaceOrTab d = false := front
            rw [List.dropWhile_cons_of_neg (by simp [first])]
  back t := by
    obtain ⟨b, whole, hb⟩ := dropEndWhile_spec isSpaceOrTab t
    conv => rhs; rw [← whole]
    exact (dropEndWhile_space_append hb [] _).symm
  ends := ends_space []

end Comma

end MotionExpr
