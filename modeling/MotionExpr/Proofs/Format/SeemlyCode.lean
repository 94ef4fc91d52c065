import MotionExpr.Proofs.Format.BracketPairs
import MotionExpr.Proofs.Format.Remasking

/-!
Code whose pairs are padded, under the passes behind the one for brackets. What they replace holds
no brackets, and what they put there begins as an inside may and ends so that what came behind it
may still come. So the scan passes over the new text as it did over the old one.
-/

namespace MotionExpr

open Text

namespace Bracket

/-- What is seemly behind the text `p` is so behind `q`. -/
structure Stands (p q : Text) : Prop where
  alike : Operand.Alike p q
  opening : endsOpen q = true → endsOpen p = true
  closable : isClosable p = true → isClosable q = true

theorem Stands.refl (p : Text) : Stands p p := ⟨.refl p, id, id⟩

theorem Stands.cons {p q : Text} (h : Stands p q) (c : Char) : Stands (c :: p) (c :: q) where
  alike := h.alike.append [c]
  opening := id
  closable := by
    rw [isClosable, isClosable, mayPrecede, mayPrecede, endsPrefix, endsPrefix, h.alike.same]
    exact id

theorem Stands.append {p q : Text} (h : Stands p q) (w : Text) : Stands (w ++ p) (w ++ q) := by
  induction w with
  | nil => exact h
  | cons c w ih => exact ih.cons c

/-- Blanks at the start make no difference. -/
theorem stands_blanks {g : Text} (h : ∀ c ∈ g, isBlank c = true) : Stands g [] ∧ Stands [] g := by
  have stop (c : Char) (hc : g.head? = some c) : isBlank c = true := h c (List.mem_of_mem_head? hc)
  have alike : Operand.Alike g [] := by
    refine .of_stop ?_ (fun c hc => isWordPart_of_isBlank (stop c hc)) nofun
    have same := Operand.isBehind_blank_append h []
    rwa [List.append_nil] at same
  refine ⟨⟨alike, nofun, fun _ => rfl⟩, fun w => (alike w).symm, fun opens => ?_, fun _ => ?_⟩
  · rw [endsOpen, Option.any_eq_true] at opens
    obtain ⟨c, hc, opening⟩ := opens
    have blank := stop c hc
    rw [(stop_of_bracket (.inl opening)).1] at blank
    cases blank
  · cases g with
    | nil => rfl
    | cons c g => exact isClosable_of_isBlank (stop c rfl) g

theorem Seemly.of_stands {p q : Text} (h : Stands p q) {spaced : List Bool} {c : Char}
    (seemly : Seemly p spaced c) : Seemly q spaced c where
  behind opens := seemly.behind (h.opening opens)
  before closing takes := h.closable (seemly.before closing takes)

theorem nesting_of_stands {p q : Text} (h : Stands p q) (spaced : List Bool) (c : Char) :
    nesting q spaced c = nesting p spaced c := by
  rw [nesting, nesting, h.alike.same]

theorem SeemlyFrom.of_stands {p q t : Text} (h : Stands p q) {spaced : List Bool}
    (seemly : SeemlyFrom p spaced t) : SeemlyFrom q spaced t := by
  induction t generalizing p q spaced with
  | nil => trivial
  | cons c r ih =>
      refine ⟨seemly.1.of_stands h, ?_⟩
      rw [nesting_of_stands h]
      exact ih (h.cons c) seemly.2

/-- A replacement that the scan does not mind: no brackets are in it, it begins as what was found
or as may follow an opening bracket, and what comes behind it may come. -/
structure Replaces (passed found text : Text) : Prop where
  plainFound : IsPlain found
  plainText : IsPlain text
  first : ∀ c ∈ text.head?, mayFollow c = true ∨ found.head? = some c
  stands : ∀ out, Stands passed out → Stands (found.reverse ++ passed) (text.reverse ++ out)

theorem seemlyFrom_substitute {rule : Text.Rule} {Found : (passed found rest text : Text) → Prop}
    (finds : rule.Finds Found)
    (replaces : ∀ passed found rest text, Found passed found rest text → Replaces passed found text)
    {t : Text} (seemly : SeemlyFrom [] [] t) : SeemlyFrom [] [] (substitute rule t) := by
  suffices step : ∀ passed t out spaced, Stands passed out → SeemlyFrom passed spaced t →
      SeemlyFrom out spaced (substituteFrom rule passed 0 t) from
    step [] t [] [] (.refl []) seemly
  intro passed t
  induction passed, t using finds.induction with
  | nil passed => exact fun _ _ _ _ => trivial
  | pass passed c r _ ih =>
      intro out spaced stands seemly
      refine ⟨seemly.1.of_stands stands, ?_⟩
      rw [nesting_of_stands stands]
      exact ih _ _ (stands.cons c) seemly.2
  | found passed found rest text described ih =>
      intro out spaced stands seemly
      have replaced := replaces passed found rest text described
      obtain ⟨inFound, behind⟩ := seemlyFrom_append.mp seemly
      rw [nestingFrom_plain replaced.plainFound] at behind
      refine seemlyFrom_append.mpr ⟨seemlyFrom_plain replaced.plainText fun opens top c hc => ?_, ?_⟩
      · rcases replaced.first c hc with may | same
        · exact may
        · obtain ⟨s, rfl⟩ := List.head?_eq_some_iff.mp same
          have closes := (replaced.plainFound c (List.mem_cons_self ..)).2
          have here := inFound.1.behind (stands.opening opens) top
          rw [closes] at here
          exact here.resolve_left Bool.false_ne_true
      · rw [nestingFrom_plain replaced.plainText]
        exact ih _ _ (replaced.stands out stands) behind

/-- Behind a symbol and a gap the texts in front do not count, but for what may close there. -/
theorem Stands.of_symbol {c : Char} {p q g h : Text} (notBlank : isBlank c = false)
    (notWord : isWordPart c = false) (notOpening : isOpening c = false)
    (hg : ∀ d ∈ g, isSpaceOrTab d = true) (hh : ∀ d ∈ h, isSpaceOrTab d = true)
    (closable : isClosable (g ++ c :: p) = true → h = [] → endsPrefix (c :: q) = true) :
    Stands (g ++ c :: p) (h ++ c :: q) := by
  refine ⟨.of_symbol notBlank notWord hg hh p q, fun opens => ?_, fun closes => ?_⟩
  · cases h with
    | nil => exact absurd (notOpening.symm.trans opens) Bool.false_ne_true
    | cons e h =>
        have plain := (isPlain_of_isSpaceOrTab hh e (List.mem_cons_self ..)).1
        exact absurd (plain.symm.trans opens) Bool.false_ne_true
  · cases h with
    | nil =>
        rw [List.nil_append, isClosable, mayPrecede, closable closes rfl, Bool.or_true,
          Bool.or_true]
    | cons e h =>
        exact isClosable_of_isBlank (isBlank_of_isSpaceOrTab (hh e (List.mem_cons_self ..))) _

theorem mayFollow_of_isJoined {c : Char} (h : Literal.isJoined c = true) : mayFollow c = true := by
  simp only [Literal.isJoined, Bool.or_eq_true, beq_iff_eq] at h
  rcases h with (rfl | rfl) | rfl <;> rfl

/-- Operators hold no brackets, and end in what ends no word. -/
theorem symbols_of_operator {op : Text} (h : op ∈ Operator.all) :
    IsPlain op ∧ ∃ r c, op = r ++ [c] ∧ isBlank c = false ∧ isWordPart c = false := by
  have checked : Operator.all.all (fun op => op.all (fun c => !isOpening c && !isClosing c) &&
      op.getLast?.any fun c => !isBlank c && !isWordPart c) = true := by decide
  have here := List.all_eq_true.mp checked op h
  rw [Bool.and_eq_true, List.all_eq_true, Option.any_eq_true] at here
  obtain ⟨plain, c, last, stops⟩ := here
  obtain ⟨r, hr⟩ := List.getLast?_eq_some_iff.mp last
  simp only [Bool.and_eq_true, Bool.not_eq_true'] at plain stops
  exact ⟨plain, r, c, hr, stops⟩

/-- A sign that no operand precedes ends in a prefix operator, and so does an update. -/
theorem endsPrefix_of_operator {op prior : Text}
    (h : Operator.isSign op = true ∧ Operand.isBehind prior = false ∨ Operator.isUpdate op = true) :
    endsPrefix (op.reverse ++ prior) = true := by
  simp only [Operator.isSign, Operator.isUpdate, Bool.or_eq_true, beq_iff_eq] at h
  rcases h with ⟨rfl | rfl, free⟩ | rfl | rfl
  · simp [endsPrefix, free]
  · simp [endsPrefix, free]
  · have sign : Operand.isBehind ('+' :: prior) = false := Operand.isBehind_cons rfl rfl
    simp [endsPrefix, sign]
  · have sign : Operand.isBehind ('-' :: prior) = false := Operand.isBehind_cons rfl rfl
    simp [endsPrefix, sign]

theorem replaces_of_placed {passed found rest text : Text}
    (h : Operator.Placed passed found rest text) : Replaces passed found text := by
  cases h with
  | @intro gap op behind _ bare hgap hbehind hop alone =>
      obtain ⟨front, back, heq, hfront, hback, outside⟩ := Operator.placed_eq_append passed op bare
      have member := (Operator.of_operator? hop).1
      obtain ⟨plain, s, d, last, notBlank, notWord⟩ := symbols_of_operator member
      obtain ⟨⟨c, r, first, -, joined⟩, -⟩ := Operator.ends_of_mem_all member
      have blank {x : Text} (hx : x = [] ∨ x = [' ']) := Operator.isSpaceOrTab_of_atMostOne hx
      rw [heq]
      refine ⟨?_, ?_, ?_, fun out stands => ?_⟩
      · exact isPlain_append.mpr ⟨isPlain_of_isSpaceOrTab hgap,
          isPlain_append.mpr ⟨plain, isPlain_of_isSpaceOrTab hbehind⟩⟩
      · exact isPlain_append.mpr ⟨isPlain_of_isSpaceOrTab (blank hfront),
          isPlain_append.mpr ⟨plain, isPlain_of_isSpaceOrTab (blank hback)⟩⟩
      · intro e he
        rcases hfront with rfl | rfl
        · refine .inl (mayFollow_of_isJoined ?_)
          rw [List.nil_append, first] at he
          obtain rfl : c = e := Option.some.inj he
          rcases outside with sign | update | spaced
          · exact joined (.inl sign.1)
          · exact joined (.inr update)
          · cases spaced.1
        · obtain rfl : ' ' = e := Option.some.inj he
          exact .inl rfl
      · have turned (gap behind prior : Text) : (gap ++ (op ++ behind)).reverse ++ prior =
            behind.reverse ++ d :: (s.reverse ++ (gap.reverse ++ prior)) := by simp [last]
        have opens : isOpening d = false := (plain d (by simp [last])).1
        have reversed {x : Text} (hx : ∀ c ∈ x, isSpaceOrTab c = true) :
            ∀ c ∈ x.reverse, isSpaceOrTab c = true := fun c hc => hx c (List.mem_reverse.mp hc)
        rcases hback with rfl | rfl
        · -- without a space behind it, the operator stays as it was or is one in front of operands
          by_cases same : bare = true ∧ front = []
          · obtain ⟨rfl, rfl⟩ := alone same.1
            rw [same.2]
            exact stands.append _
          · rw [turned, turned]
            refine .of_symbol notBlank notWord opens (reversed hbehind) (reversed (blank (.inl rfl)))
              fun _ _ => ?_
            have prefixed := @endsPrefix_of_operator op (front.reverse ++ out) ?_
            · rwa [last, List.reverse_append] at prefixed
            · rcases outside with ⟨sign, kept | free⟩ | update | spaced
              · exact absurd kept same
              · refine .inl ⟨sign, ?_⟩
                rw [Operand.isBehind_blanks (reversed (blank hfront)), ← stands.alike.same, free]
              · exact .inr update
              · cases spaced.2
        · rw [turned, turned]
          exact .of_symbol notBlank notWord opens (reversed hbehind) (reversed (blank (.inr rfl))) nofun

theorem replaces_of_squeezed {passed run rest text : Text}
    (h : Operator.Squeezed passed run rest text) : Replaces passed run text := by
  obtain ⟨some, spaces⟩ := h
  have blank : ∀ c ∈ run, isSpaceOrTab c = true := fun c hc => spaces c hc ▸ rfl
  refine ⟨isPlain_of_isSpaceOrTab blank, List.forall_mem_singleton.mpr ⟨rfl, rfl⟩, fun c hc => .inl ?_,
    fun out stands => ⟨.of_stop ?_ (fun c hc => ?_) ?_, nofun, fun _ => isClosable_of_isBlank rfl _⟩⟩
  · obtain rfl : ' ' = c := Option.some.inj hc
    rfl
  · rw [Operand.isBehind_blanks fun c hc => blank c (List.mem_reverse.mp hc), stands.alike.same]
    exact (Operand.isBehind_cons_blank rfl out).symm
  · rw [List.head?_append_of_ne_nil _ (by simpa using some)] at hc
    have space := spaces c (List.mem_reverse.mp (List.mem_of_mem_head? hc))
    exact space ▸ rfl
  · rintro c ⟨⟩
    rfl

theorem replaces_of_tightened {passed found rest text : Text}
    (h : Operator.Tightened passed found rest text) : Replaces passed found text := by
  obtain ⟨-, blank, -⟩ := h
  next gap =>
  refine ⟨?_, ?_, fun c hc => .inr hc, fun out stands => ?_⟩
  · exact List.forall_mem_cons.mpr ⟨⟨rfl, rfl⟩, isPlain_of_isSpaceOrTab blank⟩
  · exact List.forall_mem_singleton.mpr ⟨rfl, rfl⟩
  · rw [List.reverse_cons, List.append_assoc]
    exact @Stands.of_symbol '!' passed out gap.reverse [] rfl rfl rfl
      (fun c hc => blank c (List.mem_reverse.mp hc)) (List.forall_mem_nil _) fun _ _ => rfl

theorem replaces_of_comma {passed found rest text : Text}
    (h : Comma.Placed passed found rest text) : Replaces passed found text := by
  obtain ⟨hgap, hbehind⟩ := h
  next gap behind =>
  refine ⟨?_, ?_, fun c hc => .inl ?_, fun out stands => ?_⟩
  · exact isPlain_append.mpr ⟨isPlain_of_isSpaceOrTab hgap,
      List.forall_mem_cons.mpr ⟨⟨rfl, rfl⟩, isPlain_of_isSpaceOrTab hbehind⟩⟩
  · exact List.forall_mem_cons.mpr ⟨⟨rfl, rfl⟩, List.forall_mem_singleton.mpr ⟨rfl, rfl⟩⟩
  · obtain rfl : ',' = c := Option.some.inj hc
    rfl
  · have turned : (gap ++ ',' :: behind).reverse ++ passed =
        behind.reverse ++ ',' :: (gap.reverse ++ passed) := by simp
    rw [turned]
    exact @Stands.of_symbol ',' _ out behind.reverse [' '] rfl rfl rfl
      (fun c hc => hbehind c (List.mem_reverse.mp hc)) (List.forall_mem_singleton.mpr rfl) nofun

theorem isPlain_of_continuesName {name : Text} (h : ∀ c ∈ name, Call.continuesName c = true) :
    IsPlain name := by
  intro c hc
  have continues := h c hc
  refine ⟨eq_false_of_ne_true fun opening => ?_, eq_false_of_ne_true fun closing => ?_⟩
  · simp only [isOpening, Bool.or_eq_true, beq_iff_eq] at opening
    rcases opening with rfl | rfl <;> cases continues
  · simp only [isClosing, Bool.or_eq_true, beq_iff_eq] at closing
    rcases closing with rfl | rfl <;> cases continues

theorem replaces_of_joined {passed found rest text : Text}
    (h : Call.Joined passed found rest text) : Replaces passed found text := by
  obtain ⟨some, hname, hgap, hkept⟩ := h
  next name gap kept =>
  have plain {gap : Text} (hgap : ∀ c ∈ gap, isSpaceOrTab c = true) :
      IsPlain (name ++ (gap ++ ['('])) :=
    isPlain_append.mpr ⟨isPlain_of_continuesName hname, isPlain_append.mpr
      ⟨isPlain_of_isSpaceOrTab hgap, List.forall_mem_singleton.mpr ⟨rfl, rfl⟩⟩⟩
  have first : ∀ c ∈ (name ++ (kept ++ ['('])).head?, (name ++ (gap ++ ['('])).head? = .some c := by
    obtain ⟨d, r, rfl⟩ := List.exists_cons_of_ne_nil some
    exact fun c hc => hc
  rcases hkept with rfl | rfl
  · refine ⟨plain hgap, plain (List.forall_mem_nil _), fun c hc => .inr (first c hc), fun out stands => ?_⟩
    have turned (gap prior : Text) : (name ++ (gap ++ ['('])).reverse ++ prior =
        [] ++ '(' :: (gap.reverse ++ (name.reverse ++ prior)) := by simp
    rw [turned, turned]
    exact .of_symbol rfl rfl rfl (List.forall_mem_nil _) (List.forall_mem_nil _) nofun
  · exact ⟨plain hgap, plain hgap, fun c hc => .inr (first c hc), fun out stands => stands.append _⟩

/-! What the scan asks for is kept. -/

section Kept

variable {t : Text}

theorem seemlyFrom_calls (h : SeemlyFrom [] [] t) : SeemlyFrom [] [] (Call.tighten t) :=
  seemlyFrom_substitute Call.finds_join (fun _ _ _ _ => replaces_of_joined) h

theorem seemlyFrom_operators (h : SeemlyFrom [] [] t) : SeemlyFrom [] [] (Operator.space t) :=
  seemlyFrom_substitute Operator.finds_negation (fun _ _ _ _ => replaces_of_tightened)
    (seemlyFrom_substitute Operator.finds_squeeze (fun _ _ _ _ => replaces_of_squeezed)
      (seemlyFrom_substitute Operator.finds_respace (fun _ _ _ _ => replaces_of_placed) h))

theorem seemlyFrom_commas (h : SeemlyFrom [] [] t) : SeemlyFrom [] [] (Comma.space t) :=
  seemlyFrom_substitute Comma.finds_respace (fun _ _ _ _ => replaces_of_comma) h

/-- An indentation is nothing to the scan. -/
theorem seemlyFrom_indented {g : Text} (hg : ∀ c ∈ g, isBlank c = true) :
    SeemlyFrom [] [] (g ++ t) ↔ SeemlyFrom [] [] t := by
  have plain := isPlain_of_isBlank hg
  have front : SeemlyFrom [] [] g := seemlyFrom_plain plain fun _ => nofun
  have passed : ∀ c ∈ g.reverse ++ [], isBlank c = true := by simpa using hg
  obtain ⟨forth, back⟩ := stands_blanks passed
  rw [seemlyFrom_append, nestingFrom_plain plain, and_iff_right front]
  exact ⟨.of_stands forth, .of_stands back⟩

theorem seemlyFrom_tidy (body : Text) (h : SeemlyFrom [] [] t) :
    SeemlyFrom [] [] (Line.tidy body t) := by
  have start : SeemlyFrom [] [] (t.dropWhile isSpaceOrTab) := by
    rw [← List.takeWhile_append_dropWhile (p := isSpaceOrTab) (l := t)] at h
    exact (seemlyFrom_indented fun c hc =>
      isBlank_of_isSpaceOrTab (Operator.isSpaceOrTab_of_mem_takeWhile c hc)).mp h
  rw [Line.tidy]
  split
  · exact start
  · rw [← dropEndWhile_append_takeEndWhile isSpaceOrTab (t.dropWhile isSpaceOrTab)] at start
    exact (seemlyFrom_append.mp start).1

end Kept

end Bracket
end MotionExpr
