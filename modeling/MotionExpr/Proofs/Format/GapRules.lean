import MotionExpr.Proofs.Format.Gaps

/-!
What each transform of masked code does to gaps: a space on both sides of an operator, none
behind a negation, one behind a comma, none between a callee and its parenthesis, one space in
place of several, and one inside brackets.
-/

namespace MotionExpr

open Text Literal

theorem Text.isSpaceOrTab_of_isWordPart {c : Char} (h : isWordPart c = true) :
    isSpaceOrTab c = false := by
  rw [← Bool.not_eq_true]
  intro hblank
  rw [isWordPart_of_isBlank (isBlank_of_isSpaceOrTab hblank)] at h
  cases h

namespace Atom

/-- The characters of an atom: a symbol, or those of words, or those of operators. -/
theorem of_mem_text {a : Atom} (h : a.Fits) (hliteral : ∀ t, a ≠ literal t) {c : Char}
    (hc : c ∈ a.text) : a = symbol c ∨ isWordPart c = true ∨ isOperatorChar c = true ∨ c = '!' := by
  cases a with
  | operator op =>
      obtain ⟨d, r, rfl, tail, first⟩ := Operator.of_mem_all h
      rcases List.mem_cons.mp hc with rfl | hc
      · exact .inr (.inr (first.imp_right And.left))
      · exact .inr (.inr (.inl (tail c hc)))
  | word t => exact .inr (.inl (h.2 c hc))
  | exponent sign =>
      obtain rfl := List.mem_singleton.mp hc
      rcases head_of_isSign h with rfl | rfl <;> exact .inr (.inr (.inl rfl))
  | symbol d => exact .inl (by rw [List.mem_singleton.mp hc])
  | literal t => exact absurd rfl (hliteral t)

/-- Only a word has word characters. -/
theorem isWord_of_mem_text {a : Atom} (h : a.Fits) (hliteral : ∀ t, a ≠ literal t) {c : Char}
    (hc : c ∈ a.text) (hpart : isWordPart c = true) : a.isWord = true := by
  obtain ⟨notOperator, -, -, -, notNegation⟩ := plain_of_isWordPart hpart
  cases a with
  | word t => rfl
  | operator op =>
      obtain ⟨d, r, rfl, tail, first⟩ := Operator.of_mem_all h
      rcases List.mem_cons.mp hc with rfl | hc
      · rcases first with hop | ⟨rfl, -⟩
        · rw [notOperator] at hop
          cases hop
        · exact absurd rfl notNegation
      · rw [tail c hc] at notOperator
        cases notOperator
  | exponent sign =>
      obtain rfl := List.mem_singleton.mp hc
      rcases head_of_isSign h with rfl | rfl <;> cases notOperator
  | symbol d =>
      obtain rfl := List.mem_singleton.mp hc
      simp only [Fits, isLone, Bool.and_eq_true, Bool.not_eq_true'] at h
      rw [hpart] at h
      cases h.1.1.1.1.1.1
  | literal t => exact absurd rfl (hliteral t)

theorem isSpaceOrTab_of_mem_text {a : Atom} (h : a.Fits) (hliteral : ∀ t, a ≠ literal t) {c : Char}
    (hc : c ∈ a.text) : isSpaceOrTab c = false := by
  rcases of_mem_text h hliteral hc with rfl | hpart | hop | rfl
  · simp only [Fits, isLone, Bool.and_eq_true, Bool.not_eq_true'] at h
    exact h.1.1.1.1.2
  · exact isSpaceOrTab_of_isWordPart hpart
  · have checked : ("+-*/%=<>&|^".toList.all fun d => !isSpaceOrTab d) = true := by decide
    simpa using List.all_eq_true.mp checked c (List.contains_iff_mem.mp hop)
  · rfl

theorem isSpaceOrTab_of_head {a : Atom} (h : a.Fits) {c : Char} (hc : a.head = some c) :
    isSpaceOrTab c = false := by
  rcases a.head_eq with ⟨t, rfl⟩ | heq
  · obtain rfl : mark = c := Option.some.inj hc
    rfl
  · apply isSpaceOrTab_of_mem_text h
    · rintro t rfl
      obtain ⟨d, r, rfl, hd⟩ := head_of_fits_literal h
      obtain rfl : mark = d := Option.some.inj heq
      rcases hd with hd | hd <;> exact absurd hd (by decide)
    · exact List.mem_of_mem_head? (heq ▸ hc)

theorem eq_symbol_of_mem_text {a : Atom} (h : a.Fits) (hliteral : ∀ t, a ≠ literal t) {c : Char}
    (hc : c ∈ a.text) (hlone : isLone c = true) (hneg : c ≠ '!') : a = symbol c := by
  simp only [isLone, Bool.and_eq_true, Bool.not_eq_true'] at hlone
  rcases of_mem_text h hliteral hc with rfl | hpart | hop | hbang
  · rfl
  · rw [hlone.1.1.1.1.1.1] at hpart
    cases hpart
  · rw [hlone.1.1.1.1.1.2] at hop
    cases hop
  · exact absurd hbang hneg

theorem eq_symbol_of_head {a : Atom} (h : a.Fits) {c : Char} (hc : a.head = some c)
    (hlone : isLone c = true) (hneg : c ≠ '!') : a = symbol c := by
  rcases a.head_eq with ⟨t, rfl⟩ | heq
  · obtain rfl : mark = c := Option.some.inj hc
    exact absurd hlone (by decide)
  · refine eq_symbol_of_mem_text h ?_ (List.mem_of_mem_head? (heq ▸ hc)) hlone hneg
    rintro t rfl
    obtain rfl : mark = c := Option.some.inj hc
    exact absurd hlone (by decide)

def isSymbol (c : Char) : Atom → Bool
  | symbol d => d == c
  | _ => false

theorem isSymbol_iff {c : Char} {a : Atom} : a.isSymbol c = true ↔ a = symbol c := by
  cases a <;> simp [isSymbol]

/-- Behind blanks, too, the first atom is read as it is. -/
theorem Meets.behindBlanks {a : Atom} (h : a.Meets []) {gap : Text}
    (blank : ∀ d ∈ gap, isSpaceOrTab d = true) : a.Meets (gap.reverse ++ []) := by
  by_cases hgap : gap = []
  · rw [hgap]
    exact h
  · refine (meets_behindGap_iff blank hgap).mpr ?_
    cases a with
    | exponent sign => cases h
    | _ => rfl

end Atom

namespace Code

theorem head_masked {c : Code} (h : Lexed c) (n : Nat) :
    ∀ d r, masked n c = d :: r → isSpaceOrTab d = false := by
  intro d r hd
  have head := head?_masked n h
  rw [hd] at head
  cases c with
  | nil => cases head
  | cons x c => exact Atom.isSpaceOrTab_of_head h.1 head.symm

theorem exists_masked_cons {x : Cell} {c : Code} (h : Lexed (x :: c)) (n : Nat) :
    ∃ d s, masked n (x :: c) = d :: s := by
  have nonempty : x.atom.text ≠ [] := Atom.text_ne_nil h.1
  rw [masked_cons]
  cases hx : x.atom with
  | operator t | word t =>
      rw [hx] at nonempty
      obtain ⟨d, s, hd⟩ := List.exists_cons_of_ne_nil nonempty
      rw [Atom.pieces, numbered_map_code, show t = d :: s from hd]
      exact ⟨d, _, rfl⟩
  | exponent d | symbol d => exact ⟨d, _, rfl⟩
  | literal t => exact ⟨mark, _, rfl⟩

section Front

variable {c : Code} (h : Lexed c) (n : Nat) {gap : Text} (blank : ∀ d ∈ gap, isSpaceOrTab d = true)

include h blank

theorem takeWhile_gap : (gap ++ masked n c).takeWhile isSpaceOrTab = gap :=
  takeWhile_append_stop blank (head_masked h n)

theorem dropWhile_gap : (gap ++ masked n c).dropWhile isSpaceOrTab = masked n c :=
  dropWhile_append_stop blank (head_masked h n)

end Front

/-- The transform changes gaps, and perhaps the blanks in front. -/
def Acts (f : Text → Text) (φ : GapChange) : Prop :=
  ∀ (c : Code) (gap : Text), Lexed c → (∀ b, first? c = some b → b.Meets []) →
    (∀ d ∈ gap, isSpaceOrTab d = true) →
    ∃ gap', (∀ d ∈ gap', isSpaceOrTab d = true) ∧
      f (gap ++ masked 0 c) = gap' ++ masked 0 (mapGaps φ [] c)

theorem Acts.comp {f g : Text → Text} {φ ψ : GapChange} (hf : Acts f φ) (hg : Acts g ψ)
    (apart : KeepsApart ψ) :
    Acts (fun t => f (g t)) (φ.after ψ) := by
  intro c gap lexed meets blank
  obtain ⟨gap', blank', heq⟩ := hg c gap lexed meets blank
  obtain ⟨gap'', blank'', heq'⟩ := hf _ _ (lexed_mapGaps apart lexed []) (by simpa using meets) blank'
  refine ⟨gap'', blank'', ?_⟩
  dsimp only
  rw [heq, heq', mapGaps_mapGaps]

theorem Scans.acts {scan : List Atom → Text → Text → Text}
    {left : List Atom → Text → Option Atom → Text} {φ : GapChange} {R : List Atom → Text → Prop}
    (h : Scans scan left φ R) (start : R [] [])
    (blank : ∀ {gap next}, (∀ d ∈ gap, isSpaceOrTab d = true) →
      ∀ d ∈ left [] gap next, isSpaceOrTab d = true) :
    Acts (fun t => scan [] [] t) φ := by
  intro c gap lexed meets hgap
  exact ⟨_, blank hgap, h.run lexed 0 start hgap fun b hb => (meets b hb).behindBlanks hgap⟩

end Code

/-! Passing atoms over. -/

namespace Text

theorem substituteFrom_pass {rule : Text.Rule} {w : Text} (passed : Text) (rest : Text)
    (h : ∀ u c v, w = u ++ c :: v → rule (u.reverse ++ passed) (c :: (v ++ rest)) = none) :
    substituteFrom rule passed 0 (w ++ rest) =
      w ++ substituteFrom rule (w.reverse ++ passed) 0 rest := by
  induction w generalizing passed with
  | nil => rfl
  | cons c w ih =>
      have first : rule passed (c :: (w ++ rest)) = none := h [] c w rfl
      rw [List.cons_append, substituteFrom_of_none first, ih]
      · simp
      · intro u d v huv
        have next := h (c :: u) d v (by rw [huv]; rfl)
        rwa [List.reverse_cons, List.append_assoc] at next

theorem substituteFrom_stop {rule : Text.Rule} {w : Text} (passed : Text)
    (h : ∀ u c v, w = u ++ c :: v → rule (u.reverse ++ passed) (c :: v) = none) :
    substituteFrom rule passed 0 w = w := by
  have pass := substituteFrom_pass passed [] fun u c v huv => by
    rw [List.append_nil]
    exact h u c v huv
  rw [List.append_nil] at pass
  rw [pass]
  exact List.append_nil w

theorem dropWhile_of_blank {u v : Text} {d : Char} {gap : Text} (huv : gap = u ++ d :: v)
    (blank : ∀ c ∈ gap, isSpaceOrTab c = true) : (d :: v).dropWhile isSpaceOrTab = [] :=
  List.dropWhile_eq_nil_iff.mpr fun c hc => blank c (huv ▸ List.mem_append_right u hc)

end Text

namespace Literal

/-- The substitution passes over a gap and the atom behind it. -/
def Passes (rule : Text.Rule) (passed gap : Text) (n : Nat) (x : Cell) (c : Code) : Prop :=
  substituteFrom rule passed 0 (gap ++ Code.masked n (x :: c)) =
    gap ++ (numbered n x.atom.pieces ++
      substituteFrom rule ((numbered n x.atom.pieces).reverse ++ (gap.reverse ++ passed)) 0
        (x.gap ++ Code.masked (n + (literals x.atom.pieces).length) c))

/-- A rule that applies nowhere in an atom passes it over. -/
theorem RespacingRule.pass_atom {rule : Text.Rule} (hr : RespacingRule rule) (a : Atom) (n : Nat)
    (passed rest : Text)
    (h : ∀ u c v, a.text = u ++ c :: v → (∀ t, a ≠ .literal t) →
      rule (u.reverse ++ passed) (c :: (v ++ rest)) = none) :
    substituteFrom rule passed 0 (numbered n a.pieces ++ rest) =
      numbered n a.pieces ++
        substituteFrom rule ((numbered n a.pieces).reverse ++ passed) 0 rest := by
  cases a with
  | operator t | word t =>
      rw [Atom.pieces, numbered_map_code]
      exact substituteFrom_pass passed rest fun u c v huv => h u c v huv fun _ ha => by cases ha
  | exponent c | symbol c =>
      exact substituteFrom_pass (w := [c]) passed rest fun u d v huv => h u d v huv fun _ ha => by cases ha
  | literal t =>
      have one : numbered n (Atom.literal t).pieces = placeholder n := List.append_nil _
      rw [one]
      exact substituteFrom_placeholder hr n passed rest

/-- A rule that applies neither in a gap nor in the atom behind it passes both over. -/
theorem RespacingRule.passes {rule : Text.Rule} (hr : RespacingRule rule) {x : Cell} {c : Code} (n : Nat)
    {gap passed : Text}
    (inGap : ∀ u d v, gap = u ++ d :: v →
      rule (u.reverse ++ passed) (d :: v ++ Code.masked n (x :: c)) = none)
    (inAtom : ∀ u d v rest, x.atom.text = u ++ d :: v → (∀ t, x.atom ≠ .literal t) →
      rest = x.gap ++ Code.masked (n + (literals x.atom.pieces).length) c →
      rule (u.reverse ++ (gap.reverse ++ passed)) (d :: (v ++ rest)) = none) :
    Passes rule passed gap n x c := by
  rw [Passes, substituteFrom_pass passed (Code.masked n (x :: c)) inGap, Code.masked_cons,
    hr.pass_atom]
  intro u d v huv hliteral
  exact inAtom u d v _ huv hliteral rfl

end Literal

/-! Operators. -/

namespace Operator

def front (before : List Atom) (op : Text) : Text :=
  if isUpdate op && Atom.endInOperand before then []
  else if isUpdate op || (isSign op && !Atom.endInOperand before) then Atom.lead before
  else [' ']

def back (before : List Atom) (op : Text) : Text :=
  if isUpdate op || (isSign op && !Atom.endInOperand before) then [] else [' ']

/-- A gap in front of an operator. -/
def left (before : List Atom) (gap : Text) : Option Atom → Text
  | some (.operator op) => front before op
  | _ => gap

def respaceGap : GapChange := fun a before gap next =>
  match a with
  | .operator op => back before op ++ left (a :: before) [] next
  | _ => left (a :: before) gap next

theorem placed_eq {before : List Atom} {passed op : Text} {bare : Bool} (h : Atom.Behind before passed)
    (free : isSign op = true → bare = true → behindExponentMark passed = false) :
    placed passed op bare = front before op ++ (op ++ back before op) := by
  have noMantissa : (isSign op && bare && behindExponentMark passed) = false := by
    cases hsign : isSign op with
    | false => rfl
    | true =>
        cases hbare : bare with
        | false => rfl
        | true => exact free hsign hbare
  simp only [placed, noMantissa, front, back, h.isBehind, h.lead]
  cases isUpdate op <;> cases isSign op <;> cases Atom.endInOperand before <;> simp

theorem respace_eq_none_iff {passed ahead : Text} :
    respace passed ahead = none ↔ operator? (ahead.dropWhile isSpaceOrTab) = none := by
  rw [respace]
  cases operator? (ahead.dropWhile isSpaceOrTab) <;> simp

theorem respace_eq_some {passed gap op behind rest : Text} (hgap : ∀ d ∈ gap, isSpaceOrTab d = true)
    (hop : operator? (op ++ (behind ++ rest)) = some op)
    (hbehind : (behind ++ rest).takeWhile isSpaceOrTab = behind)
    (hfirst : ∀ c r, op ++ (behind ++ rest) = c :: r → isSpaceOrTab c = false) :
    respace passed (gap ++ (op ++ (behind ++ rest))) =
      some ⟨(gap ++ (op ++ behind)).length,
        placed passed op ((gap ++ (op ++ behind)).length == op.length)⟩ := by
  have drop : (gap ++ (op ++ (behind ++ rest))).drop (gap.length + op.length) = behind ++ rest := by
    rw [← List.append_assoc, List.drop_left' (by simp)]
  simp only [respace, takeWhile_append_stop hgap hfirst, dropWhile_append_stop hgap hfirst, hop,
    drop, hbehind, List.length_append, Nat.add_assoc]

theorem respace_of_isWordPart {c : Char} (h : isWordPart c = true) (passed r : Text) :
    respace passed (c :: r) = none := by
  obtain ⟨notOperator, -, -, -, notNegation⟩ := plain_of_isWordPart h
  apply respace_eq_none_iff.mpr
  rw [List.dropWhile_cons_of_neg (by simp [isSpaceOrTab_of_isWordPart h])]
  exact operator?_eq_none notOperator fun hc => absurd hc notNegation

section Atoms

open Code

variable {x : Cell} {c : Code} (h : Lexed (x :: c)) (n : Nat)

include h

/-- What is seen behind an atom with no gap. -/
theorem head_of_joint {m : Nat} {d : Char} (hd : (x.gap ++ masked m c).head? = some d) :
    isSpaceOrTab d = true ∨ x.gap = [] ∧ ∃ b, first? c = some b ∧ b.head = some d := by
  obtain ⟨-, joint, rest⟩ := h
  cases hgap : x.gap with
  | cons e g =>
      rw [hgap] at hd
      rw [← Option.some.inj hd]
      exact .inl (joint.blank e (hgap ▸ List.mem_cons_self ..))
  | nil =>
      rw [hgap, List.nil_append, head?_masked m rest] at hd
      obtain ⟨b, hb, hhead⟩ := Option.bind_eq_some_iff.mp hd
      exact .inr ⟨rfl, b, hb, hhead⟩

theorem operator?_of_operator {op : Text} (hx : x.atom = .operator op) (m : Nat) :
    operator? (op ++ (x.gap ++ masked m c)) = some op := by
  have fits : op ∈ all := by
    have := h.1
    rwa [hx] at this
  apply operator?_append fits
  intro d hd
  have nonempty : op ≠ [] := by
    obtain ⟨e, r, rfl, -, -⟩ := of_mem_all fits
    exact List.cons_ne_nil e r
  rcases head_of_joint h hd with hblank | ⟨hgap, b, hb, hhead⟩
  · apply extend_not_mem_all nonempty
    simp only [isSpaceOrTab, Bool.or_eq_true, beq_iff_eq] at hblank
    rcases hblank with rfl | rfl <;> decide
  · rcases b.head_eq with ⟨t, rfl⟩ | heq
    · obtain rfl : mark = d := Option.some.inj hhead
      exact extend_not_mem_all nonempty (by decide)
    · have apart := h.2.1.apart b hb (.inl hgap)
      rw [hx] at apart
      exact (apart.2 d (heq ▸ hhead)).1

theorem operator?_of_other (hop : ∀ op, x.atom ≠ .operator op)
    (hexponent : x.atom.isExponent = false) : operator? (masked n (x :: c)) = none := by
  have fits := h.1
  rw [masked_cons]
  cases hx : x.atom with
  | operator op => exact absurd hx (hop op)
  | exponent sign =>
      rw [hx] at hexponent
      cases hexponent
  | word t =>
      rw [hx] at fits
      obtain ⟨d, r, rfl⟩ := List.exists_cons_of_ne_nil fits.1
      obtain ⟨notOperator, -, -, -, notNegation⟩ := plain_of_isWordPart (fits.2 d (List.mem_cons_self ..))
      exact operator?_eq_none notOperator fun hd => absurd hd notNegation
  | symbol d =>
      rw [hx] at fits
      simp only [Atom.Fits, isLone, Bool.and_eq_true, Bool.not_eq_true'] at fits
      apply operator?_eq_none fits.1.1.1.1.1.2
      rintro rfl hhead
      rcases head_of_joint h hhead with hblank | ⟨hgap, b, hb, hb'⟩
      · cases hblank
      · have apart := h.2.1.apart b hb (.inl hgap)
        rw [hx] at apart
        rcases b.head_eq with ⟨t, rfl⟩ | heq
        · cases hb'
        · exact apart.2 rfl (heq ▸ hb')
  | literal t => exact operator?_eq_none (by decide) fun hd => absurd hd (by decide)

end Atoms

section Steps

open Code

variable {x : Cell} {c : Code} (h : Lexed (x :: c)) (n : Nat) {before : List Atom}
  {passed gap : Text} (behind : Atom.Behind before passed) (blank : ∀ d ∈ gap, isSpaceOrTab d = true)
  (meets : x.atom.Meets (gap.reverse ++ passed))

include h behind blank meets

theorem substituteFrom_operator {op : Text} (hx : x.atom = .operator op) :
    substituteFrom respace passed 0 (gap ++ masked n (x :: c)) =
      front before op ++ (numbered n x.atom.pieces ++ (back before op ++
        substituteFrom respace (x.gap.reverse ++ ((numbered n x.atom.pieces).reverse ++
          (gap.reverse ++ passed))) 0 (masked (n + (literals x.atom.pieces).length) c))) := by
  have masked_op : numbered n x.atom.pieces = op := by
    rw [hx]
    exact numbered_map_code n op
  have nonempty : op ≠ [] := by
    have text := Atom.text_ne_nil h.1
    rwa [hx] at text
  obtain ⟨m, hm⟩ : ∃ m, m = n + (literals x.atom.pieces).length := ⟨_, rfl⟩
  have code : masked n (x :: c) = op ++ (x.gap ++ masked m c) := by
    rw [masked_cons, masked_op, hm]
  have found := @respace_eq_some passed _ _ _ _ blank (operator?_of_operator h hx m)
    (takeWhile_gap h.2.2 m h.2.1.blank) fun d r hd => head_masked h n d r (code.trans hd)
  rw [← hm, code, masked_op]
  have whole : gap ++ (op ++ (x.gap ++ masked m c)) = (gap ++ (op ++ x.gap)) ++ masked m c := by
    simp only [List.append_assoc]
  rw [whole] at found ⊢
  rw [substituteFrom_found found rfl (by simp [nonempty]), placed_eq behind]
  · simp only [List.reverse_append, List.append_assoc]
  · intro hsign hbare
    have noGap : gap = [] := by
      rw [beq_iff_eq, List.length_append, List.length_append] at hbare
      exact List.eq_nil_of_length_eq_zero (by omega)
    rw [hx, noGap] at meets
    exact meets hsign

omit behind in
theorem passes_exponent {sign : Char} (hx : x.atom = .exponent sign) :
    Passes respace passed gap n x c := by
  have noGap : gap = [] := by
    by_contra hgap
    rw [hx] at meets
    have none := (Atom.meets_behindGap_iff blank hgap).mp meets
    cases none
  subst noGap
  have hsign : isSign [sign] = true := by
    have fits := h.1
    rwa [hx] at fits
  have hmark : behindExponentMark passed = true := by rwa [hx] at meets
  obtain ⟨hgap, next⟩ := h.2.1.exponent (by rw [hx]; rfl)
  obtain ⟨b, hb⟩ := Option.isSome_iff_exists.mp next
  have hword : b.isWord = true := by
    have apart := h.2.1.apart b hb (.inl hgap)
    rwa [hx] at apart
  have fits := fits_first? h.2.2 b hb
  obtain ⟨m, hm⟩ : ∃ m, m = n + (literals x.atom.pieces).length := ⟨_, rfl⟩
  have one : numbered n x.atom.pieces = [sign] := by rw [hx]; rfl
  rw [Passes, masked_cons, ← hm, one, hgap]
  cases b with
  | word t =>
      obtain ⟨d, r, rfl⟩ := List.exists_cons_of_ne_nil fits.1
      have part := fits.2 d (List.mem_cons_self ..)
      obtain ⟨s, hs⟩ : ∃ s, masked m c = d :: s := by
        have head := head?_masked m h.2.2
        rw [hb] at head
        exact List.head?_eq_some_iff.mp head
      have hop : operator? ([sign] ++ ([] ++ masked m c)) = some [sign] := by
        apply operator?_append
        · rcases Atom.head_of_isSign hsign with rfl | rfl <;> decide
        · intro e he
          rw [List.nil_append, hs] at he
          rw [← Option.some.inj he]
          exact extend_not_mem_all (List.cons_ne_nil _ _) (plain_of_isWordPart part).1
      have found := @respace_eq_some passed _ _ _ _ (List.forall_mem_nil _) hop
        (by rw [List.nil_append, hs, List.takeWhile_cons_of_neg (by simp [isSpaceOrTab_of_isWordPart part])])
        fun e u heq => by
          obtain ⟨rfl, -⟩ := List.cons_eq_cons.mp heq
          rcases Atom.head_of_isSign hsign with rfl | rfl <;> rfl
      have bare : placed passed [sign] true = [sign] := by
        simp only [placed, hsign, hmark, Bool.and_self, ite_true]
      simp only [List.nil_append, List.append_nil, BEq.rfl, bare] at found
      rw [List.nil_append, List.nil_append, substituteFrom_found found rfl (List.cons_ne_nil _ _)]
      rfl
  | _ => cases hword

omit behind meets in
theorem passes_other (hop : ∀ op, x.atom ≠ .operator op)
    (hexponent : x.atom.isExponent = false) :
    Passes respace passed gap n x c := by
  have none := operator?_of_other h n hop hexponent
  apply respacingRule_respace.passes
  · intro u d v huv
    apply respace_eq_none_iff.mpr
    have inside : ∀ e ∈ d :: v, isSpaceOrTab e = true :=
      fun e he => blank e (huv ▸ List.mem_append_right u he)
    rw [dropWhile_gap h n inside]
    exact none
  · intro u d v rest huv hliteral hrest
    cases hx : x.atom with
    | operator op => exact absurd hx (hop op)
    | word t =>
        apply respace_of_isWordPart
        have fits := h.1
        rw [hx] at fits huv
        have text : t = u ++ d :: v := huv
        exact fits.2 d (text ▸ List.mem_append_right u (List.mem_cons_self ..))
    | exponent sign =>
        rw [hx] at hexponent
        cases hexponent
    | symbol e =>
        rw [masked_cons, ← hrest, hx] at none
        rw [hx] at huv
        obtain ⟨rfl, rfl, rfl⟩ : u = [] ∧ e = d ∧ v = [] := by
          cases u with
          | nil => simpa [Atom.text] using huv
          | cons f u => simp [Atom.text] at huv
        have notBlank := Atom.isSpaceOrTab_of_head h.1 (show x.atom.head = some e by rw [hx]; rfl)
        apply respace_eq_none_iff.mpr
        rw [List.dropWhile_cons_of_neg (by simp [notBlank])]
        exact none
    | literal t => exact absurd hx (hliteral t)

end Steps

theorem scans_respace :
    Code.Scans (fun _ passed t => substituteFrom respace passed 0 t) left respaceGap Atom.Behind where
  stop {before passed gap} _ blank := substituteFrom_stop passed fun u d v huv => by
    apply respace_eq_none_iff.mpr
    rw [dropWhile_of_blank huv blank]
    rfl
  step {before passed gap x c} n behind blank meets lexed := by
    by_cases hop : ∃ op, x.atom = .operator op
    · obtain ⟨op, hx⟩ := hop
      have claimed := substituteFrom_operator lexed n behind blank meets hx
      refine ⟨back before op, [], _, .atom n lexed.1 meets lexed.2.1.blank (behind.gap blank),
        List.forall_mem_nil _, rfl, ?_, ?_⟩
      · rw [hx]
        rfl
      · have hleft : left before gap (some x.atom) = front before op := by
          rw [hx]
          rfl
        rw [hleft]
        exact claimed
    · have other : ∀ op, x.atom ≠ .operator op := fun op hx => hop ⟨op, hx⟩
      have pass : Passes respace passed gap n x c := by
        by_cases hexponent : ∃ sign, x.atom = .exponent sign
        · obtain ⟨sign, hx⟩ := hexponent
          exact passes_exponent lexed n blank meets hx
        · refine passes_other lexed n blank other ?_
          cases hx : x.atom with
          | exponent sign => exact absurd ⟨sign, hx⟩ hexponent
          | _ => rfl
      have hleft : left before gap (some x.atom) = gap := by
        cases hx : x.atom with
        | operator op => exact absurd hx (other op)
        | _ => rfl
      refine ⟨[], x.gap, _, .tight n lexed.1 meets (behind.gap blank), lexed.2.1.blank, rfl, ?_, ?_⟩
      · cases hx : x.atom with
        | operator op => exact absurd hx (other op)
        | _ => rfl
      · rw [hleft]
        exact pass

/-- No keyword has a digit or a dot in front of its last character. -/
theorem not_endsWithWord_of_digit {c d : Char} (hd : (isDigit d || d == '.') = true) (r : Text) :
    endsWithWord Operand.prefixKeywords (c :: d :: r) = false := by
  have checked : Operand.prefixKeywords.all (fun w => w.reverse.tail.head?.any fun d =>
      !(isDigit d || d == '.')) = true := by decide
  rw [endsWithWord, List.any_eq_false]
  intro w hw
  have here := List.all_eq_true.mp checked w hw
  rw [standsAlone, Bool.and_eq_true]
  rintro ⟨hnext, -⟩
  obtain ⟨e, second, notPart⟩ := (Option.any_eq_true ..).mp here
  cases hf : w.reverse with
  | nil =>
      rw [hf] at second
      cases second
  | cons f v =>
      rw [hf, List.tail_cons] at second
      obtain ⟨u, rfl⟩ := List.head?_eq_some_iff.mp second
      rw [hf, List.isPrefixOf_iff_prefix, List.cons_prefix_cons, List.cons_prefix_cons] at hnext
      rw [hnext.2.1, hd] at notPart
      cases notPart

/-- A number that ends in an exponent mark is an operand. -/
theorem isBehind_of_behindExponentMark {t : Text} (hw : ∀ c ∈ t, isWordPart c = true)
    (h : behindExponentMark t.reverse = true) : Operand.isBehind t.reverse = true := by
  cases hr : t.reverse with
  | nil =>
      rw [hr] at h
      cases h
  | cons c r =>
      have part := hw c (List.mem_reverse.mp (hr ▸ List.mem_cons_self ..))
      have hn : c ≠ '\n' := by
        rintro rfl
        exact absurd part (by decide)
      rw [hr, behindExponentMark_cons hn, Bool.and_eq_true] at h
      obtain ⟨hmark, hmantissa⟩ := h
      have closes : Operand.closes c = true := by
        simp only [Bool.or_eq_true, beq_iff_eq] at hmark
        rcases hmark with rfl | rfl <;> rfl
      obtain ⟨d, s, rfl, hd⟩ : ∃ d s, r = d :: s ∧ (isDigit d || d == '.') = true := by
        rw [behindMantissa, Bool.and_eq_true] at hmantissa
        cases r with
        | nil => cases hmantissa.1
        | cons d s =>
            refine ⟨d, s, rfl, ?_⟩
            by_contra hne
            have stop : ((d :: s).takeWhile fun c => isDigit c || c == '.') = [] :=
              List.takeWhile_cons_of_neg hne
            rw [stop] at hmantissa
            cases hmantissa.1
      rw [Operand.isBehind, List.dropWhile_cons_of_neg (by simp [isBlank_of_isWordPart part])]
      simp only [not_endsWithWord_of_digit hd, closes, Bool.not_false, Bool.and_true]

theorem blank_lead (before : List Atom) : Atom.lead before = [] ∨ Atom.lead before = [' '] := by
  induction before with
  | nil => exact .inl rfl
  | cons a before ih =>
      cases a with
      | symbol c =>
          rw [Atom.lead]
          split
          · exact ih
          · split
            · exact .inl rfl
            · exact .inr rfl
      | _ => exact .inr rfl

theorem blank_front (before : List Atom) (op : Text) : front before op = [] ∨ front before op = [' '] := by
  rw [front]
  split
  · exact .inl rfl
  · split
    · exact blank_lead before
    · exact .inr rfl

theorem blank_back (before : List Atom) (op : Text) : back before op = [] ∨ back before op = [' '] := by
  rw [back]
  split
  · exact .inl rfl
  · exact .inr rfl

theorem front_behind_operator (op op' : Text) (before : List Atom) :
    front (.operator op :: before) op' = [' '] := by
  simp [front, Atom.endInOperand, Atom.lead]

theorem respaceGap_eq_self {a : Atom} {next : Option Atom} (ha : ∀ op, a ≠ .operator op)
    (hnext : ∀ op, next ≠ some (.operator op)) (before : List Atom) (gap : Text) :
    respaceGap a before gap next = gap := by
  have hleft : left (a :: before) gap next = gap := by
    cases next with
    | none => rfl
    | some b =>
        cases b with
        | operator op => exact absurd rfl (hnext op)
        | _ => rfl
  cases a with
  | operator op => exact absurd rfl (ha op)
  | _ => exact hleft

/-- Where respacing leaves no gap, none is needed. -/
theorem apart_of_respaceGap {a b : Atom} {before : List Atom} {gap : Text} (fits : a.Fits)
    (hb : b.Fits) (joint : a.Joint gap (some b)) (hneg : a ≠ .symbol '!')
    (closed : respaceGap a before gap (some b) = []) : a.Apart b := by
  have asBefore (ha : ∀ op, a ≠ .operator op) (hop : ∀ op, b ≠ .operator op) : a.Apart b := by
    rw [respaceGap_eq_self ha] at closed
    · exact joint.apart b rfl (.inl closed)
    · exact fun op h => hop op (Option.some.inj h)
  cases a with
  | operator op =>
      have closed : back before op ++ left (.operator op :: before) [] (some b) = [] := closed
      obtain ⟨hback, hleft⟩ := List.append_eq_nil_iff.mp closed
      apply Atom.apart_operator fits _ hb
      · rintro op' rfl
        have one : front (.operator op :: before) op' = [] := hleft
        rw [front_behind_operator] at one
        cases one
      · by_contra hexponent
        cases joint.isWord_of_exponent (eq_true_of_ne_false hexponent)
      · rintro rfl
        cases hback
  | word t =>
      cases b with
      | operator op =>
          refine ⟨rfl, ?_⟩
          split
          · next hmark =>
              by_contra hsign
              have sign : isSign op = true := eq_true_of_ne_false hsign
              have update : isUpdate op = false := by
                simp only [isSign, Bool.or_eq_true, beq_iff_eq] at sign
                rcases sign with rfl | rfl <;> rfl
              have operand : Atom.endInOperand (.word t :: before) = true :=
                isBehind_of_behindExponentMark fits.2 hmark
              have one : front (.word t :: before) op = [] := closed
              rw [front, update, operand, sign] at one
              cases one
          · rfl
      | _ => exact asBefore (fun _ ha => by cases ha) fun _ ha => by cases ha
  | exponent sign =>
      obtain ⟨c, hc, hword⟩ := joint.word_behind_exponent rfl
      obtain rfl := Option.some.inj hc
      exact hword
  | symbol c =>
      cases b with
      | operator op => exact ⟨rfl, fun hc => absurd (congrArg _ hc) hneg⟩
      | _ => exact asBefore (fun _ ha => by cases ha) fun _ ha => by cases ha
  | literal t =>
      cases b with
      | operator op => rfl
      | _ => exact asBefore (fun _ ha => by cases ha) fun _ ha => by cases ha

theorem keepsApart_respace : Code.KeepsApart respaceGap := by
  intro a before gap next fits hnext joint
  have space {g : Text} (hg : g = [] ∨ g = [' ']) : ∀ c ∈ g, isSpaceOrTab c = true := by
    rcases hg with rfl | rfl
    · exact List.forall_mem_nil _
    · exact List.forall_mem_singleton.mpr rfl
  have blank_left (gap : Text) (hgap : ∀ c ∈ gap, isSpaceOrTab c = true) :
      ∀ c ∈ left (a :: before) gap next, isSpaceOrTab c = true := by
    cases next with
    | none => exact hgap
    | some b =>
        cases b with
        | operator op => exact space (blank_front _ _)
        | _ => exact hgap
  apply joint.change
  · cases a with
    | operator op =>
        intro c hc
        rcases List.mem_append.mp hc with hc | hc
        · exact space (blank_back _ _) c hc
        · exact blank_left [] (List.forall_mem_nil _) c hc
    | _ => exact blank_left gap joint.blank
  · rintro (hexponent | hcomment | ⟨b, rfl, hexponent⟩)
    · obtain ⟨b, rfl, hword⟩ := joint.word_behind_exponent hexponent
      apply respaceGap_eq_self
      · rintro op rfl
        cases hexponent
      · rintro op hop
        rw [Option.some.inj hop] at hword
        cases hword
    · apply respaceGap_eq_self
      · rintro op rfl
        cases hcomment
      · rw [(joint.comment hcomment).2]
        exact nofun
    · have hword := joint.isWord_of_exponent hexponent
      apply respaceGap_eq_self
      · rintro op rfl
        cases hword
      · rintro op hop
        rw [Option.some.inj hop] at hexponent
        cases hexponent
  · rintro b rfl closed hneg
    exact .inr (apart_of_respaceGap fits (hnext b rfl) joint hneg closed)

end Operator

/-! Commas. -/

namespace Comma

/-- A gap in front of a comma. -/
def left (gap : Text) (next : Option Atom) : Text :=
  if next.any (Atom.isSymbol ',') then [] else gap

def respaceGap : GapChange := fun a _ gap next =>
  if a.isSymbol ',' then ' ' :: left [] next else left gap next

section Steps

variable {x : Cell} {c : Code} (h : Code.Lexed (x :: c)) (n : Nat) {passed gap : Text}
  (blank : ∀ d ∈ gap, isSpaceOrTab d = true)

include h blank

theorem substituteFrom_comma (hx : x.atom = .symbol ',') :
    substituteFrom respace passed 0 (gap ++ Code.masked n (x :: c)) =
      numbered n x.atom.pieces ++ (' ' :: substituteFrom respace (x.gap.reverse ++
        ((numbered n x.atom.pieces).reverse ++ (gap.reverse ++ passed))) 0
          (Code.masked (n + (literals x.atom.pieces).length) c)) := by
  obtain ⟨m, hm⟩ : ∃ m, m = n + (literals x.atom.pieces).length := ⟨_, rfl⟩
  have one : numbered n x.atom.pieces = [','] := by rw [hx]; rfl
  have code : Code.masked n (x :: c) = ',' :: (x.gap ++ Code.masked m c) := by
    rw [Code.masked_cons, one, hm]
    rfl
  have stop : (Code.masked m c).head?.any isSpaceOrTab = false := by
    cases hc : Code.masked m c with
    | nil => rfl
    | cons d r => exact Code.head_masked h.2.2 m d r hc
  have whole : gap ++ Code.masked n (x :: c) = (gap ++ ',' :: x.gap) ++ Code.masked m c := by
    rw [code, List.append_assoc]
    rfl
  rw [whole, substituteFrom_listed blank h.2.1.blank stop, ← hm, one]
  simp

theorem passes_other (hcomma : x.atom.isSymbol ',' = false) : Passes respace passed gap n x c := by
  apply respacingRule.passes
  · intro u d v huv
    rw [respace_eq_none_iff]
    have inside : ∀ e ∈ d :: v, isSpaceOrTab e = true :=
      fun e he => blank e (huv ▸ List.mem_append_right u he)
    rw [Code.dropWhile_gap h n inside, Code.head?_masked n h]
    intro hhead
    rw [Atom.isSymbol_iff.mpr (Atom.eq_symbol_of_head h.1 hhead rfl (by decide))] at hcomma
    cases hcomma
  · intro u d v rest huv hliteral _
    have hd : d ∈ x.atom.text := huv ▸ List.mem_append_right u (List.mem_cons_self ..)
    rw [respace_eq_none_iff]
    rw [List.dropWhile_cons_of_neg (by
      simp [Atom.isSpaceOrTab_of_mem_text h.1 hliteral hd]), List.head?_cons]
    intro heq
    rw [Option.some.inj heq] at hd
    rw [Atom.isSymbol_iff.mpr (Atom.eq_symbol_of_mem_text h.1 hliteral hd rfl (by decide))] at hcomma
    cases hcomma

end Steps

theorem scans_respace :
    Code.Scans (fun _ passed t => substituteFrom respace passed 0 t) (fun _ => left) respaceGap
      fun _ _ => True where
  stop {before passed gap} _ blank := substituteFrom_stop passed fun u d v huv => by
    rw [respace_eq_none_iff]
    rw [dropWhile_of_blank huv blank]
    exact nofun
  step {before passed gap x c} n _ blank meets lexed := by
    cases hcomma : x.atom.isSymbol ',' with
    | true =>
        refine ⟨[' '], [], x.gap.reverse ++ ((numbered n x.atom.pieces).reverse ++
          (gap.reverse ++ passed)), trivial, List.forall_mem_nil _, rfl, ?_, ?_⟩
        · rw [respaceGap, hcomma, if_pos rfl]
          rfl
        · rw [substituteFrom_comma lexed n blank (Atom.isSymbol_iff.mp hcomma), left, Option.any_some,
            hcomma, if_pos rfl]
          rfl
    | false =>
        refine ⟨[], x.gap, _, trivial, lexed.2.1.blank, rfl, ?_, ?_⟩
        · rw [respaceGap, hcomma, if_neg (by decide)]
          rfl
        · rw [left, Option.any_some, hcomma, if_neg (by decide)]
          exact passes_other lexed n blank hcomma

theorem keepsApart_respace : Code.KeepsApart respaceGap := by
  intro a before gap next fits hnext joint
  have blank_left (gap : Text) (hgap : ∀ c ∈ gap, isSpaceOrTab c = true) :
      ∀ c ∈ left gap next, isSpaceOrTab c = true := by
    rw [left]
    split
    · exact List.forall_mem_nil _
    · exact hgap
  apply joint.change
  · rw [respaceGap]
    split
    · exact List.forall_mem_cons.mpr ⟨rfl, blank_left [] (List.forall_mem_nil _)⟩
    · exact blank_left gap joint.blank
  · intro h
    have notComma : a.isSymbol ',' = false := by
      rcases h with h | h | ⟨b, rfl, h⟩
      · cases a <;> first | rfl | cases h
      · cases a <;> first | rfl | cases h
      · have hword := joint.isWord_of_exponent h
        cases a <;> first | rfl | cases hword
    have notNext : next.any (Atom.isSymbol ',') = false := by
      rcases h with h | h | ⟨b, rfl, h⟩
      · obtain ⟨b, rfl, hword⟩ := joint.word_behind_exponent h
        cases b <;> first | rfl | cases hword
      · rw [(joint.comment h).2]
        rfl
      · cases b <;> first | rfl | cases h
    rw [respaceGap, notComma, if_neg (by decide), left, notNext, if_neg (by decide)]
  · rintro b rfl closed hneg
    rw [respaceGap] at closed
    split at closed
    · cases closed
    · rw [left] at closed
      split at closed
      · next hb =>
          rw [Atom.isSymbol_iff.mp hb]
          right
          apply Atom.apart_symbol fits rfl
          by_contra hexponent
          obtain ⟨d, hd, hword⟩ := joint.word_behind_exponent (eq_true_of_ne_false hexponent)
          rw [← Option.some.inj hd, Atom.isSymbol_iff.mp hb] at hword
          cases hword
      · exact .inl closed

theorem acts_space : Code.Acts space respaceGap :=
  scans_respace.acts trivial fun {gap next} hgap => by
    rw [left]
    split
    · exact List.forall_mem_nil _
    · exact hgap

end Comma

/-! Negations. -/

namespace Operator

def negationGap : GapChange := fun a _ gap _ => if a.isSymbol '!' then [] else gap

theorem negation_eq_none {passed ahead : Text}
    (h : ∀ r, ahead = '!' :: r → r.takeWhile isSpaceOrTab = []) : negation passed ahead = none := by
  unfold negation
  split
  · next r => rw [h r rfl]
  · rfl

theorem negation_in_gap {gap u v : Text} {d : Char} (blank : ∀ c ∈ gap, isSpaceOrTab c = true)
    (huv : gap = u ++ d :: v) (passed rest : Text) : negation passed (d :: rest) = none := by
  apply negation_eq_none
  intro r hr
  have hd := blank d (huv ▸ List.mem_append_right u (List.mem_cons_self ..))
  rw [(List.cons_eq_cons.mp hr).1] at hd
  cases hd

theorem passes_negation {x : Cell} {c : Code} (h : Code.Lexed (x :: c)) (n : Nat) {passed gap : Text}
    (blank : ∀ d ∈ gap, isSpaceOrTab d = true) (hx : x.atom = .symbol '!' → x.gap = []) :
    Passes negation passed gap n x c := by
  apply respacingRule_negation.passes
  · exact fun u d v huv => negation_in_gap blank huv _ _
  · intro u d v rest huv hliteral hrest
    apply negation_eq_none
    intro r hr
    obtain ⟨rfl, rfl⟩ := List.cons_eq_cons.mp hr
    have hd : '!' ∈ x.atom.text := huv ▸ List.mem_append_right u (List.mem_cons_self ..)
    cases hatom : x.atom with
    | operator op =>
        have fits := h.1
        rw [hatom] at huv fits
        obtain ⟨s, rfl⟩ := List.head?_eq_some_iff.mp (equality_of_negation fits huv)
        rfl
    | word t =>
        have fits := h.1
        rw [hatom] at hd fits
        cases fits.2 _ hd
    | exponent sign =>
        have fits := h.1
        rw [hatom] at hd fits
        obtain rfl := List.mem_singleton.mp hd
        rcases Atom.head_of_isSign fits with hs | hs <;> cases hs
    | symbol e =>
        rw [hatom] at huv hd
        obtain rfl := List.mem_singleton.mp hd
        have hv : v = [] := by
          cases u with
          | nil => exact (List.cons_eq_cons.mp huv).2.symm
          | cons f u => simp [Atom.text] at huv
        rw [hrest, hv, hx hatom, List.nil_append, List.nil_append]
        cases hc : Code.masked (n + (literals x.atom.pieces).length) c with
        | nil => rfl
        | cons f s => 
            rw [List.takeWhile_cons_of_neg (by simp [Code.head_masked h.2.2 _ f s hc])]
    | literal t => exact absurd hatom (hliteral t)

theorem scans_negation :
    Code.Scans (fun _ passed t => substituteFrom negation passed 0 t) (fun _ gap _ => gap) negationGap
      fun _ _ => True where
  stop {before passed gap} _ blank :=
    substituteFrom_stop passed fun u d v huv => negation_in_gap blank huv _ _
  step {before passed gap x c} n _ blank meets lexed := by
    by_cases hclosed : x.atom = .symbol '!' → x.gap = []
    · refine ⟨[], x.gap, _, trivial, lexed.2.1.blank, rfl, ?_, passes_negation lexed n blank hclosed⟩
      rw [negationGap]
      split
      · next hx => exact (hclosed (Atom.isSymbol_iff.mp hx)).symm
      · rfl
    · obtain ⟨hx, hgap⟩ := Classical.not_imp.mp hclosed
      obtain ⟨m, hm⟩ : ∃ m, m = n + (literals x.atom.pieces).length := ⟨_, rfl⟩
      have one : numbered n x.atom.pieces = ['!'] := by rw [hx]; rfl
      have code : Code.masked n (x :: c) = ('!' :: x.gap) ++ Code.masked m c := by
        rw [Code.masked_cons, one, hm]
        rfl
      have found : negation (gap.reverse ++ passed) (('!' :: x.gap) ++ Code.masked m c) =
          some ⟨('!' :: x.gap).length, ['!']⟩ := by
        have inside := Code.takeWhile_gap lexed.2.2 m lexed.2.1.blank
        rw [List.cons_append, negation, inside]
        split
        · next h => exact absurd h hgap
        · rw [List.length_cons, Nat.add_comm]
      refine ⟨[], [], x.gap.reverse ++ ((numbered n x.atom.pieces).reverse ++
        (gap.reverse ++ passed)), trivial, List.forall_mem_nil _, rfl, ?_, ?_⟩
      · rw [negationGap, hx]
        rfl
      · rw [code, substituteFrom_pass passed, substituteFrom_found found rfl (List.cons_ne_nil _ _),
          ← hm, one]
        · simp
        · exact fun u d v huv => negation_in_gap blank huv _ _

theorem keepsApart_negation : Code.KeepsApart negationGap := by
  intro a before gap next fits hnext joint
  rw [negationGap]
  split
  · next ha =>
      obtain rfl := Atom.isSymbol_iff.mp ha
      apply joint.change (List.forall_mem_nil _)
      · rintro (h | h | ⟨b, rfl, h⟩)
        · cases h
        · cases h
        · cases joint.isWord_of_exponent h
      · exact fun _ _ _ hneg => absurd rfl hneg
  · exact joint

theorem acts_negation : Code.Acts (substitute negation) negationGap :=
  scans_negation.acts trivial fun hgap => hgap

theorem acts_respace : Code.Acts (substitute respace) respaceGap := by
  apply scans_respace.acts (.start (List.forall_mem_nil _))
  intro gap next hgap
  cases next with
  | none => exact hgap
  | some b =>
      cases b with
      | operator op =>
          have space : front [] op = [] ∨ front [] op = [' '] := blank_front [] op
          intro d hd
          have inside : d ∈ front [] op := hd
          rcases space with h | h <;> rw [h] at inside
          · cases inside
          · rw [List.mem_singleton.mp inside]
            rfl
      | _ => exact hgap

end Operator

/-! Several spaces. -/

namespace Atom

/-- Whether the atom is an opening bracket. -/
def opens : Atom → Bool
  | symbol c => Bracket.isOpening c
  | _ => false

/-- A text, given backwards, that ends in the atoms, with no gap behind the nearest. -/
structure Touches (before : List Atom) (passed : Text) : Prop where
  behind : Behind before passed
  start : before = [] → passed = []
  last : ∀ a rest, before = a :: rest →
    ∃ c r, passed = c :: r ∧ Text.isBlank c = a.isBlank ∧ Bracket.isOpening c = a.opens

theorem Touches.nil : Touches [] [] :=
  ⟨.start (List.forall_mem_nil _), fun _ => rfl, fun _ _ h => by cases h⟩

theorem Touches.atom {a : Atom} {before : List Atom} {prior : Text} (n : Nat) (fits : a.Fits)
    (meets : a.Meets prior) (h : Behind before prior) :
    Touches (a :: before) ((numbered n a.pieces).reverse ++ prior) where
  behind := h.tight n fits meets
  start := nofun
  last := by
    rintro b rest hb
    obtain ⟨rfl, -⟩ := List.cons_eq_cons.mp hb
    have bracket {c : Char} (hc : Bracket.isOpening c = true) : Operator.isTight c = true := by
      simp only [Bracket.isOpening, Bool.or_eq_true, beq_iff_eq] at hc
      rcases hc with rfl | rfl <;> rfl
    cases a with
    | operator op =>
        obtain ⟨c, r, hr, -, notBlank, -, notTight⟩ := Operator.last_of_mem_all fits
        refine ⟨c, r ++ prior, by rw [pieces, numbered_map_code, hr]; rfl, notBlank, ?_⟩
        refine Bool.eq_false_iff.mpr fun hc => ?_
        rw [bracket hc] at notTight
        cases notTight
    | word t =>
        obtain ⟨c, r, hr⟩ := List.exists_cons_of_ne_nil (mt List.reverse_eq_nil_iff.mp fits.1)
        have part := fits.2 c (List.mem_reverse.mp (hr ▸ List.mem_cons_self ..))
        refine ⟨c, r ++ prior, by rw [pieces, numbered_map_code, hr]; rfl, isBlank_of_isWordPart part, ?_⟩
        refine Bool.eq_false_iff.mpr fun hc => ?_
        simp only [Bracket.isOpening, Bool.or_eq_true, beq_iff_eq] at hc
        rcases hc with rfl | rfl <;> cases part
    | exponent sign =>
        refine ⟨sign, prior, rfl, ?_⟩
        rcases head_of_isSign fits with rfl | rfl <;> exact ⟨rfl, rfl⟩
    | symbol c => exact ⟨c, prior, rfl, rfl, rfl⟩
    | literal t =>
        obtain ⟨r, hr⟩ := reverse_numbered_literal n t
        exact ⟨mark, r ++ prior, by rw [hr]; rfl, rfl, rfl⟩

theorem isBlank_of_head {a : Atom} (h : a.Fits) {c : Char} (hc : a.head = some c) :
    Text.isBlank c = a.isBlank := by
  cases a with
  | symbol d => rw [← Option.some.inj hc]; rfl
  | operator op =>
      obtain ⟨d, r, rfl, -, hd | ⟨rfl, -⟩⟩ := Operator.of_mem_all h
      · rw [← Option.some.inj hc]
        have checked : ("+-*/%=<>&|^".toList.all fun d => !Text.isBlank d) = true := by decide
        exact (Bool.not_eq_true' _).mp (List.all_eq_true.mp checked d (List.contains_iff_mem.mp hd))
      · rw [← Option.some.inj hc]
        rfl
  | word t =>
      obtain ⟨d, r, rfl⟩ := List.exists_cons_of_ne_nil h.1
      rw [← Option.some.inj hc]
      exact isBlank_of_isWordPart (h.2 d (List.mem_cons_self ..))
  | exponent sign =>
      rw [← Option.some.inj hc]
      rcases head_of_isSign h with rfl | rfl <;> rfl
  | literal t =>
      rw [← Option.some.inj hc]
      rfl

end Atom

namespace Operator

def squeezed : (before : List Atom) → (gap : Text) → (next : Option Atom) → Text
  | a :: _, gap, some b =>
      if !a.isBlank && 2 ≤ gap.length && gap.all (· == ' ') && !b.isBlank then [' '] else gap
  | _, gap, _ => gap

def squeezeGap : GapChange := fun a before gap next => squeezed (a :: before) gap next

theorem squeeze_of_ne {passed ahead : Text} (h : ahead.head? ≠ some ' ') : squeeze passed ahead = none := by
  unfold squeeze
  split
  · rfl
  · cases ahead with
    | nil => rfl
    | cons c r =>
        have hc : (c == ' ') = false := by
          rw [beq_eq_false_iff_ne]
          rintro rfl
          exact h rfl
        simp [hc]

theorem squeeze_behind_blank {c : Char} {r ahead : Text} (h : Text.isBlank c = true) :
    squeeze (c :: r) ahead = none := by
  rw [squeeze]
  split <;> simp [h]

theorem squeeze_in_gap {passed gap rest : Text} (blank : ∀ d ∈ gap, isSpaceOrTab d = true)
    (first : squeeze passed (gap ++ rest) = none) :
    ∀ u d v, gap = u ++ d :: v → squeeze (u.reverse ++ passed) (d :: v ++ rest) = none := by
  rintro u d v rfl
  cases hr : u.reverse with
  | nil =>
      obtain rfl := List.reverse_eq_nil_iff.mp hr
      exact first
  | cons e s =>
      have he := blank e (List.mem_append_left _ (List.mem_reverse.mp (hr ▸ List.mem_cons_self ..)))
      exact squeeze_behind_blank (isBlank_of_isSpaceOrTab he)

/-- Between the blanks of a gap and what stands behind them there is no other space. -/
theorem dropWhile_spaces {gap : Text} (rest : Text) (blank : ∀ d ∈ gap, isSpaceOrTab d = true)
    (hgap : gap.all (· == ' ') = false) :
    ∃ r, (gap ++ rest).dropWhile (· == ' ') = '\t' :: r := by
  induction gap with
  | nil => cases hgap
  | cons c r ih =>
      obtain ⟨hc, hr⟩ := List.forall_mem_cons.mp blank
      by_cases hspace : c = ' '
      · rw [hspace] at hgap ⊢
        exact ih hr (by simpa using hgap)
      · have htab : c = '\t' := by
          simp only [isSpaceOrTab, Bool.or_eq_true, beq_iff_eq] at hc
          exact hc.resolve_left hspace
        exact ⟨r ++ rest, by rw [htab]; rfl⟩

/-- A gap is taken for several spaces just if it is one. -/
theorem squeeze_gap {before : List Atom} {passed : Text} (touches : Atom.Touches before passed)
    {gap : Text} (blank : ∀ d ∈ gap, isSpaceOrTab d = true) {x : Cell} {c : Code}
    (h : Code.Lexed (x :: c)) (n : Nat) :
    squeeze passed (gap ++ Code.masked n (x :: c)) = none ∧ squeezed before gap (some x.atom) = gap ∨
      squeeze passed (gap ++ Code.masked n (x :: c)) = some ⟨gap.length, [' ']⟩ ∧ gap ≠ [] ∧
        squeezed before gap (some x.atom) = [' '] := by
  cases before with
  | nil =>
      rw [touches.start rfl]
      exact .inl ⟨rfl, rfl⟩
  | cons a before =>
      obtain ⟨e, r, rfl, he, -⟩ := touches.last a before rfl
      obtain ⟨d, s, hd⟩ := Code.exists_masked_cons h n
      have notSpace : (d == ' ') = false := by
        rw [beq_eq_false_iff_ne]
        rintro rfl
        cases Code.head_masked h n ' ' s hd
      have hblank : Text.isBlank d = x.atom.isBlank := by
        have head := Code.head?_masked n h
        rw [hd] at head
        exact Atom.isBlank_of_head h.1 head.symm
      rw [squeezed, hd]
      cases hall : gap.all (· == ' ') with
      | false =>
          obtain ⟨u, hu⟩ := dropWhile_spaces (d :: s) blank hall
          have tab : Text.isBlank '\t' = true := rfl
          simp only [squeeze, hu, tab, Bool.not_true, Bool.and_false, Bool.false_and]
          exact .inl ⟨rfl, rfl⟩
      | true =>
          have spaces : ∀ e ∈ gap, (e == ' ') = true := List.all_eq_true.mp hall
          have stop : ∀ e u, d :: s = e :: u → (e == ' ') = false := by
            intro e u heq
            rwa [← (List.cons_eq_cons.mp heq).1]
          simp only [squeeze, takeWhile_append_stop spaces stop, dropWhile_append_stop spaces stop,
            he, hblank, Bool.and_true]
          split
          · next hcond =>
              right
              refine ⟨rfl, ?_, rfl⟩
              rintro rfl
              simp at hcond
          · exact .inl ⟨rfl, rfl⟩

theorem scans_squeeze :
    Code.Scans (fun _ passed t => substituteFrom squeeze passed 0 t) squeezed squeezeGap
      Atom.Touches where
  stop {before passed gap} touches blank := by
    have kept : squeezed before gap none = gap := by cases before <;> rfl
    rw [kept]
    have first : squeeze passed (gap ++ []) = none := by
      rw [List.append_nil]
      cases passed with
      | nil => rfl
      | cons c r =>
          cases hall : gap.all (· == ' ') with
          | true =>
              have none : gap.dropWhile (· == ' ') = [] :=
                List.dropWhile_eq_nil_iff.mpr (List.all_eq_true.mp hall)
              rw [squeeze, none]
          | false =>
              obtain ⟨u, hu⟩ := dropWhile_spaces [] blank hall
              rw [List.append_nil] at hu
              have tab : Text.isBlank '\t' = true := rfl
              simp only [squeeze, hu, tab, Bool.not_true, Bool.and_false]
              rfl
    exact substituteFrom_stop passed fun u d v huv => by
      have here := squeeze_in_gap blank first u d v huv
      rwa [List.append_nil] at here
  step {before passed gap x c} n touches blank meets lexed := by
    have inAtom (passed : Text) : ∀ u d v rest, x.atom.text = u ++ d :: v →
        (∀ t, x.atom ≠ .literal t) → squeeze (u.reverse ++ passed) (d :: (v ++ rest)) = none := by
      intro u d v rest huv hliteral
      apply squeeze_of_ne
      intro hd
      have inside : d ∈ x.atom.text := huv ▸ List.mem_append_right u (List.mem_cons_self ..)
      have notBlank := Atom.isSpaceOrTab_of_mem_text lexed.1 hliteral inside
      rw [Option.some.inj hd] at notBlank
      cases notBlank
    have next := Atom.Touches.atom n lexed.1 meets (touches.behind.gap blank)
    refine ⟨[], x.gap, _, next, lexed.2.1.blank, rfl, rfl, ?_⟩
    rcases squeeze_gap touches blank lexed n with ⟨hnone, hkept⟩ | ⟨hsome, hgap, hone⟩
    · rw [hkept]
      have pass : Passes squeeze passed gap n x c := respacingRule_squeeze.passes n
        (squeeze_in_gap blank hnone) fun u d v rest huv hliteral _ => inAtom _ u d v rest huv hliteral
      exact pass
    · rw [hone, substituteFrom_found hsome rfl hgap, Code.masked_cons,
        respacingRule_squeeze.pass_atom x.atom n _ _ fun u d v => inAtom _ u d v _]
      rfl

theorem keepsApart_squeeze : Code.KeepsApart squeezeGap := by
  intro a before gap next fits hnext joint
  cases next with
  | none => exact joint
  | some b =>
      rw [squeezeGap, squeezed]
      split
      · next hcond =>
          have long : gap ≠ [] := by
            rintro rfl
            simp at hcond
          apply joint.change (List.forall_mem_singleton.mpr rfl)
          · rintro (h | h | ⟨b', hb', h⟩)
            · exact absurd (joint.exponent h).1 long
            · exact absurd (joint.comment h).1 long
            · exact absurd (joint.mantissa b' hb' h) long
          · exact fun _ _ h => absurd h (List.cons_ne_nil _ _)
      · exact joint

theorem acts_squeeze : Code.Acts (substitute squeeze) squeezeGap :=
  scans_squeeze.acts .nil fun hgap => hgap

end Operator
end MotionExpr
