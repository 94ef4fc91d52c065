import MotionExpr.Proofs.Format.QuoteStyle
import MotionExpr.Proofs.Format.TerminatedCode

/-!
One quote style, literal by literal. The swap reads the line as a whole, so a quote that it
meets inside a literal may be closed in another one. Where no literal leaves a quote open that a
later one closes, each literal is restyled as it is alone, and the code between them stays.
-/

namespace MotionExpr

open Text Literal

namespace Quote

variable {style : QuoteStyle}

/-- The swap meets a quote of the other style that nothing in the text closes. -/
def leavesOpenFrom (style : QuoteStyle) : (skip : Nat) → Text → Bool
  | _, [] => false
  | skip + 1, _ :: r => leavesOpenFrom style skip r
  | 0, c :: r =>
      if c = style.other.mark then
        match closing? style.other.mark false false r with
        | some n => leavesOpenFrom style n r
        | none => true
      else leavesOpenFrom style 0 r

def leavesOpen (style : QuoteStyle) (t : Text) : Bool := leavesOpenFrom style 0 t

theorem leavesOpenFrom_skip (n : Nat) (t : Text) :
    leavesOpenFrom style n t = leavesOpenFrom style 0 (t.drop n) := by
  induction t generalizing n with
  | nil => cases n <;> rfl
  | cons c r ih =>
      cases n with
      | zero => rfl
      | succ n => exact ih n

/-- Behind a quote of the other style the text closes nothing, whether its first character is
escaped or not. -/
def Shut (style : QuoteStyle) (t : Text) : Prop :=
  ∀ escaped, closing? style.other.mark false escaped t = none

theorem closing?_append_shut {a b : Text} (hb : Shut style b) {escaped : Bool}
    (ha : closing? style.other.mark false escaped a = none) :
    closing? style.other.mark false escaped (a ++ b) = none := by
  induction a generalizing escaped with
  | nil => exact hb escaped
  | cons c r ih =>
      rw [closing?_cons] at ha
      rw [List.cons_append, closing?_cons]
      split at ha
      · cases ha
      · rfl
      · rw [ih (Option.map_eq_none_iff.mp ha), Option.map_none]

theorem Shut.append {a b : Text} (ha : Shut style a) (hb : Shut style b) : Shut style (a ++ b) :=
  fun escaped => closing?_append_shut hb (ha escaped)

theorem shut_of_not_mem {t : Text} (h : style.other.mark ∉ t) : Shut style t := by
  intro escaped
  have none : closing? style.other.mark false escaped [] = none := by cases escaped <;> rfl
  exact closing?_append_of_none none h

/-- A literal closes the same whether its first character is escaped or not. -/
theorem shut_of_closing? {c : Char} {r : Text} (hc : c ≠ '\\') 
    (h : closing? style.other.mark false false (c :: r) = none) : Shut style (c :: r) := by
  intro escaped
  cases escaped with
  | false => exact h
  | true =>
      have notEscape : (c == '\\') = false := beq_eq_false_iff_ne.mpr hc
      simp only [closing?, notEscape] at h ⊢
      split at h
      · cases h
      · split at h
        · next hn => simp_all
        · split
          · rfl
          · exact h

/-- Texts are restyled one by one if no quote that the first leaves open is closed in the other. -/
theorem restyle_append_shut {t rest : Text} (h : leavesOpen style t = true → Shut style rest) :
    restyle style (t ++ rest) = restyle style t ++ restyle style rest := by
  induction hk : t.length using Nat.strongRecOn generalizing t with
  | ind k ih =>
  cases t with
  | nil => rfl
  | cons c r =>
      by_cases hc : c = style.other.mark
      · subst hc
        rw [leavesOpen, leavesOpenFrom, if_pos rfl] at h
        cases hclose : closing? style.other.mark false false r with
        | none =>
            rw [hclose] at h
            have shut := h rfl
            rw [List.cons_append, restyle_cons_of_none fun _ => closing?_append_shut shut hclose,
              restyle_cons_of_none fun _ => hclose, ih r.length (by simp [← hk]) (fun _ => shut) rfl]
            rfl
        | some n =>
            obtain ⟨inner, behind, rfl, rfl⟩ := of_closing? hclose
            have longer := closing?_append_of_some hclose rest
            have later : leavesOpen style behind = true → Shut style rest := by
              intro hopen
              rw [hclose] at h
              apply h
              dsimp only
              rw [leavesOpenFrom_skip, ← List.drop_drop, List.drop_left]
              exact hopen
            rw [List.append_assoc, List.cons_append] at longer
            have whole : style.other.mark :: (inner ++ style.other.mark :: behind) ++ rest =
                style.other.mark :: inner ++ style.other.mark :: (behind ++ rest) := by simp
            rw [whole, restyle_run longer, ← List.cons_append, restyle_run hclose,
              ih behind.length (by simp [← hk]; omega) later rfl]
            simp
      · have later : leavesOpen style r = true → Shut style rest := by
          intro hopen
          apply h
          rw [leavesOpen, leavesOpenFrom, if_neg hc]
          exact hopen
        rw [List.cons_append, restyle_cons_of_none fun heq => absurd heq hc,
          restyle_cons_of_none fun heq => absurd heq hc, ih r.length (by simp [← hk]) later rfl]
        rfl

theorem restyle_plain_append {t : Text} (h : ∀ c ∈ t, Token.isQuote c = false) (rest : Text) :
    restyle style (t ++ rest) = t ++ restyle style rest :=
  restyle_append (beginsRun_eq_false h rest)

theorem other_not_mem {t : Text} (h : ∀ c ∈ t, Token.isQuote c = false) : style.other.mark ∉ t := by
  intro hm
  have here := h _ hm
  rw [isQuote_mark] at here
  cases here

/-- The swap puts no character into a text but quotes. -/
theorem mem_restyle {t : Text} {c : Char} (hc : Token.isQuote c = false) (h : c ∈ restyle style t) :
    c ∈ t := by
  have member : plainQuote c ∈ (restyle style t).map plainQuote := List.mem_map_of_mem h
  rw [map_plainQuote_restyle] at member
  obtain ⟨d, hd, heq⟩ := List.mem_map.mp member
  rcases Token.isQuote_of_plainQuote_eq heq with rfl | ⟨-, hquote⟩
  · exact hd
  · rw [hc] at hquote
    cases hquote

theorem head?_restyle {t : Text} {c : Char} (hc : Token.isQuote c = false)
    (h : (restyle style t).head? = some c) : t.head? = some c := by
  have same := congrArg List.head? (map_plainQuote_restyle style t)
  rw [List.head?_map, List.head?_map, h] at same
  obtain ⟨d, hd, heq⟩ := Option.map_eq_some_iff.mp same.symm
  rcases Token.isQuote_of_plainQuote_eq heq with rfl | ⟨-, hquote⟩
  · exact hd
  · rw [hc] at hquote
    cases hquote

theorem isPrefixOf_restyle {w : Text} (hw : w.any Token.isQuote = false) (t : Text) :
    w.isPrefixOf (restyle style t) = w.isPrefixOf t :=
  Token.isPrefixOf_eq_of_map_plainQuote (fun c hc => Bool.eq_false_iff.mpr (List.any_eq_false.mp hw c hc))
    (map_plainQuote_restyle style t)

/-- Literals of a line that take the style once and for all: each stays one literal and takes it
at once, and no quote that one leaves open is closed in a later one, neither before nor after. -/
structure Settled (style : QuoteStyle) (ts : List Text) : Prop where
  whole : ∀ t ∈ ts, Literal.pieces (restyle style t) = [.literal (restyle style t)]
  twice : ∀ t ∈ ts, restyle style (restyle style t) = restyle style t
  before : ts.Pairwise fun t u =>
    leavesOpen style t = true → closing? style.other.mark false false u = none
  after : (ts.map (restyle style)).Pairwise fun t u =>
    leavesOpen style t = true → closing? style.other.mark false false u = none

end Quote

/-! Other literals among the same code. -/

def Literal.Piece.mapLiteral (ρ : Text → Text) : Piece → Piece
  | .code c => .code c
  | .literal t => .literal (ρ t)

namespace Semicolon

variable {ρ : Text → Text}

theorem numbered_mapLiteral (n : Nat) (ps : List Piece) :
    numbered n (ps.map (Piece.mapLiteral ρ)) = numbered n ps := by
  induction ps generalizing n with
  | nil => rfl
  | cons p ps ih => cases p <;> simp only [List.map_cons, Piece.mapLiteral, numbered, ih]

theorem literals_mapLiteral (ps : List Piece) :
    literals (ps.map (Piece.mapLiteral ρ)) = (literals ps).map ρ := by
  induction ps with
  | nil => rfl
  | cons p ps ih => cases p <;> simp only [List.map_cons, Piece.mapLiteral, literals, ih]

theorem bodyCode_mapLiteral (hρ : ∀ t, "//".toList.isPrefixOf (ρ t) = "//".toList.isPrefixOf t)
    (ps : List Piece) :
    bodyCode (ps.map (Piece.mapLiteral ρ)) = (bodyCode ps).map (Piece.mapLiteral ρ) := by
  have dropped (q : Piece → Bool) (hq : ∀ p, q (p.mapLiteral ρ) = q p) (qs : List Piece) :
      ((qs.map (Piece.mapLiteral ρ)).dropWhile q).reverse =
        ((qs.dropWhile q).reverse).map (Piece.mapLiteral ρ) := by
    rw [List.dropWhile_map, List.map_reverse, show q ∘ Piece.mapLiteral ρ = q from funext hq]
  have space (p : Piece) : isSpace (p.mapLiteral ρ) = isSpace p := by cases p <;> rfl
  have gap (p : Piece) : Piece.isGap (p.mapLiteral ρ) = Piece.isGap p := by cases p <;> rfl
  rw [bodyCode, bodyCode, ← List.map_reverse]
  cases ps.reverse with
  | nil => rfl
  | cons p before =>
      cases p with
      | code c => exact dropped Piece.isGap gap (.code c :: before)
      | literal t =>
          simp only [List.map_cons, Piece.mapLiteral, hρ]
          split
          · exact dropped isSpace space before
          · rfl

end Semicolon

namespace Atom

def mapLiteral (ρ : Text → Text) : Atom → Atom
  | literal t => literal (ρ t)
  | a => a

variable {ρ : Text → Text}

theorem pieces_mapLiteral (a : Atom) : (a.mapLiteral ρ).pieces = a.pieces.map (Piece.mapLiteral ρ) := by
  cases a with
  | operator t | word t => simp [mapLiteral, pieces, Piece.mapLiteral, Function.comp_def]
  | _ => rfl

theorem isWord_mapLiteral (a : Atom) : (a.mapLiteral ρ).isWord = a.isWord := by cases a <;> rfl

theorem isExponent_mapLiteral (a : Atom) : (a.mapLiteral ρ).isExponent = a.isExponent := by
  cases a <;> rfl

theorem isSign_mapLiteral (a : Atom) : (a.mapLiteral ρ).isSign = a.isSign := by cases a <;> rfl

theorem isBlank_mapLiteral (a : Atom) : (a.mapLiteral ρ).isBlank = a.isBlank := by cases a <;> rfl

theorem opens_mapLiteral (a : Atom) : (a.mapLiteral ρ).opens = a.opens := by cases a <;> rfl

theorem closes_mapLiteral (a : Atom) : (a.mapLiteral ρ).closes = a.closes := by cases a <;> rfl

theorem isSymbol_mapLiteral (c : Char) (a : Atom) : (a.mapLiteral ρ).isSymbol c = a.isSymbol c := by
  cases a <;> rfl

theorem endInOperand_mapLiteral (before : List Atom) :
    endInOperand (before.map (mapLiteral ρ)) = endInOperand before := by
  induction before with
  | nil => rfl
  | cons a before ih =>
      cases a with
      | symbol c => simp only [List.map_cons, mapLiteral, endInOperand, ih]
      | _ => rfl

theorem lead_mapLiteral (before : List Atom) : lead (before.map (mapLiteral ρ)) = lead before := by
  induction before with
  | nil => rfl
  | cons a before ih =>
      cases a with
      | symbol c => simp only [List.map_cons, mapLiteral, lead, ih]
      | _ => rfl

end Atom

namespace Code

/-- A change that looks at no literal. -/
def Blind (φ : GapChange) : Prop :=
  ∀ (ρ : Text → Text) (a : Atom) (before : List Atom) (gap : Text) (next : Option Atom),
    φ (a.mapLiteral ρ) (before.map (Atom.mapLiteral ρ)) gap (next.map (Atom.mapLiteral ρ)) =
      φ a before gap next

variable {φ ψ : GapChange}

theorem Blind.after (hψ : Blind ψ) (hφ : Blind φ) : Blind (ψ.after φ) := by
  intro ρ a before gap next
  rw [GapChange.after, GapChange.after, hφ, hψ]

theorem Blind.tidied (h : Blind φ) : Blind φ.tidied := by
  intro ρ a before gap next
  have none : (next.map (Atom.mapLiteral ρ)).isNone = next.isNone := by cases next <;> rfl
  rw [GapChange.tidied, GapChange.tidied, none, h]

theorem any_mapLiteral {q : Atom → Bool} {ρ : Text → Text} (hq : ∀ a, q (a.mapLiteral ρ) = q a)
    (next : Option Atom) : (next.map (Atom.mapLiteral ρ)).any q = next.any q := by
  cases next with
  | none => rfl
  | some b => exact hq b

theorem stack_mapLiteral (ρ : Text → Text) (before : List Atom) :
    Bracket.stack (before.map (Atom.mapLiteral ρ)) = Bracket.stack before := by
  induction before with
  | nil => rfl
  | cons a before ih =>
      cases a with
      | symbol c =>
          simp only [List.map_cons, Atom.mapLiteral, Bracket.stack, ih,
            Atom.endInOperand_mapLiteral]
      | _ => exact ih

theorem blind_bracketGap (spaced : Bool) : Blind (bracketGap spaced) := by
  intro ρ a before gap next
  cases spaced with
  | false => rfl
  | true =>
      have stack := stack_mapLiteral ρ (a :: before)
      rw [List.map_cons] at stack
      have back : Bracket.back (a.mapLiteral ρ) (before.map (Atom.mapLiteral ρ)) gap
          (next.map (Atom.mapLiteral ρ)) = Bracket.back a before gap next := by
        rw [Bracket.back, Bracket.back, Atom.opens_mapLiteral, stack,
          any_mapLiteral fun b => by rw [Atom.isBlank_mapLiteral, Atom.closes_mapLiteral]]
      have left : Bracket.left (a.mapLiteral ρ :: before.map (Atom.mapLiteral ρ)) gap
          (next.map (Atom.mapLiteral ρ)) = Bracket.left (a :: before) gap next := by
        cases next with
        | none => rfl
        | some b =>
            cases b with
            | symbol c =>
                have same : (Atom.symbol c).mapLiteral ρ = .symbol c := rfl
                rw [Option.map_some, same, Bracket.left, Bracket.left, stack, Atom.isBlank_mapLiteral,
                  Atom.opens_mapLiteral]
            | _ => rfl
      rw [bracketGap, bracketGap, if_pos rfl, if_pos rfl, Bracket.spaceGap, Bracket.spaceGap, back, left]

theorem blind_tightenGap : Blind Call.tightenGap := by
  intro ρ a before gap next
  cases a with
  | word t =>
      cases next with
      | none => rfl
      | some b => cases b <;> rfl
  | _ => rfl

theorem blind_operatorGap : Blind operatorGap := by
  intro ρ a before gap next
  have front (before : List Atom) (op : Text) :
      Operator.front (before.map (Atom.mapLiteral ρ)) op = Operator.front before op := by
    rw [Operator.front, Operator.front, Atom.endInOperand_mapLiteral, Atom.lead_mapLiteral]
  have left (before : List Atom) (gap : Text) :
      Operator.left (before.map (Atom.mapLiteral ρ)) gap (next.map (Atom.mapLiteral ρ)) =
        Operator.left before gap next := by
    cases next with
    | none => rfl
    | some b =>
        cases b with
        | operator op => exact front before op
        | _ => rfl
  have respaced : Operator.respaceGap (a.mapLiteral ρ) (before.map (Atom.mapLiteral ρ)) gap
      (next.map (Atom.mapLiteral ρ)) = Operator.respaceGap a before gap next := by
    have here := left (a :: before)
    rw [List.map_cons] at here
    cases a with
    | operator op =>
        have back : Operator.back (before.map (Atom.mapLiteral ρ)) op = Operator.back before op := by
          rw [Operator.back, Operator.back, Atom.endInOperand_mapLiteral]
        have whole (before : List Atom) (next : Option Atom) :
            Operator.respaceGap (.operator op) before gap next =
              Operator.back before op ++ Operator.left (.operator op :: before) [] next := rfl
        have same : (Atom.operator op).mapLiteral ρ = .operator op := rfl
        rw [same] at here ⊢
        rw [whole, whole, back, here]
    | _ => exact here gap
  have squeezed (gap : Text) : Operator.squeezeGap (a.mapLiteral ρ) (before.map (Atom.mapLiteral ρ)) gap
      (next.map (Atom.mapLiteral ρ)) = Operator.squeezeGap a before gap next := by
    cases next with
    | none => rfl
    | some b =>
        simp only [Option.map_some, Operator.squeezeGap, Operator.squeezed, Atom.isBlank_mapLiteral]
  simp only [operatorGap, GapChange.after, Operator.negationGap, Atom.isSymbol_mapLiteral, respaced,
    squeezed]

theorem blind_comma : Blind Comma.respaceGap := by
  intro ρ a before gap next
  simp only [Comma.respaceGap, Comma.left, Atom.isSymbol_mapLiteral,
    any_mapLiteral fun b => Atom.isSymbol_mapLiteral ',' b]

theorem blind_spacedGap (spaced : Bool) : Blind (spacedGap spaced) :=
  blind_comma.tidied.after (blind_operatorGap.tidied.after (blind_tightenGap.tidied.after
    (blind_bracketGap spaced).tidied))

def mapLiterals (ρ : Text → Text) (c : Code) : Code := c.map fun x => ⟨x.atom.mapLiteral ρ, x.gap⟩

variable {ρ : Text → Text}

theorem first?_mapLiterals (c : Code) :
    first? (mapLiterals ρ c) = (first? c).map (Atom.mapLiteral ρ) := by
  cases c <;> rfl

theorem mapGaps_mapLiterals (h : Blind φ) (before : List Atom) (c : Code) :
    mapGaps φ (before.map (Atom.mapLiteral ρ)) (mapLiterals ρ c) =
      mapLiterals ρ (mapGaps φ before c) := by
  induction c generalizing before with
  | nil => rfl
  | cons x c ih =>
      have rest := ih (x.atom :: before)
      have first := first?_mapLiterals (ρ := ρ) c
      rw [List.map_cons] at rest
      rw [mapLiterals] at rest first ⊢
      rw [List.map_cons, mapGaps, mapGaps, first, h, mapLiterals, List.map_cons, rest]
      rfl

theorem pieces_mapLiterals (c : Code) :
    pieces (mapLiterals ρ c) = c.pieces.map (Piece.mapLiteral ρ) := by
  induction c with
  | nil => rfl
  | cons x c ih =>
      rw [mapLiterals] at ih
      rw [mapLiterals, List.map_cons, pieces, ih, Atom.pieces_mapLiteral, pieces]
      simp [Piece.mapLiteral, Function.comp_def]

/-! Restyled code. -/

theorem not_isQuote_of_mem_text {a : Atom} (h : a.Fits) (hliteral : ∀ t, a ≠ .literal t) :
    ∀ c ∈ a.text, Token.isQuote c = false := by
  intro c hc
  rcases Atom.of_mem_text h hliteral hc with rfl | hpart | hop | rfl
  · exact (Atom.not_isQuote_of_isLone h).1
  · exact (plain_of_isWordPart hpart).2.1
  · have checked : ("+-*/%=<>&|^".toList.all fun d => !Token.isQuote d) = true := by decide
    simpa using List.all_eq_true.mp checked c (List.contains_iff_mem.mp hop)
  · rfl

theorem not_isQuote_of_blank {gap : Text} (h : ∀ c ∈ gap, isSpaceOrTab c = true) :
    ∀ c ∈ gap, Token.isQuote c = false := by
  intro c hc
  have hblank := h c hc
  simp only [isSpaceOrTab, Bool.or_eq_true, beq_iff_eq] at hblank
  rcases hblank with rfl | rfl <;> rfl

variable {style : QuoteStyle}

theorem shut_text {c : Code} (h : Lexed c)
    (closes : ∀ u ∈ literals c.pieces, closing? style.other.mark false false u = none) :
    Quote.Shut style c.text := by
  induction c with
  | nil => exact Quote.shut_of_not_mem List.not_mem_nil
  | cons x c ih =>
      obtain ⟨fits, joint, rest⟩ := h
      rw [pieces, literals_append, literals_append, literals_map_code, List.nil_append] at closes
      have behind := ih rest fun u hu => closes u (List.mem_append_right _ hu)
      have gap : Quote.Shut style x.gap :=
        Quote.shut_of_not_mem (Quote.other_not_mem (not_isQuote_of_blank joint.blank))
      refine Quote.Shut.append ?_ (gap.append behind)
      by_cases hliteral : ∃ t, x.atom = .literal t
      · obtain ⟨t, hx⟩ := hliteral
        rw [hx] at fits closes ⊢
        have here := closes t (List.mem_append_left _ (List.mem_singleton_self t))
        obtain ⟨q, r, rfl, hq⟩ := Atom.head_of_fits_literal fits
        refine Quote.shut_of_closing? ?_ here
        rintro rfl
        rcases hq with hq | hq <;> exact absurd hq (by decide)
      · exact Quote.shut_of_not_mem
          (Quote.other_not_mem (not_isQuote_of_mem_text fits (not_exists.mp hliteral)))

theorem restyle_text {c : Code} (h : Lexed c)
    (apart : (literals c.pieces).Pairwise fun t u =>
      Quote.leavesOpen style t = true → closing? style.other.mark false false u = none) :
    Quote.restyle style c.text = text (mapLiterals (Quote.restyle style) c) := by
  induction c with
  | nil => rfl
  | cons x c ih =>
      obtain ⟨fits, joint, rest⟩ := h
      rw [pieces, literals_append, literals_append, literals_map_code, List.nil_append,
        List.pairwise_append] at apart
      have behind := ih rest apart.2.1
      have gap := @Quote.restyle_plain_append style _ (not_isQuote_of_blank joint.blank) (text c)
      have whole : text (mapLiterals (Quote.restyle style) (x :: c)) =
          (x.atom.mapLiteral (Quote.restyle style)).text ++
            (x.gap ++ text (mapLiterals (Quote.restyle style) c)) := rfl
      rw [whole, text]
      by_cases hliteral : ∃ t, x.atom = .literal t
      · obtain ⟨t, hx⟩ := hliteral
        rw [hx] at apart ⊢
        have shut : Quote.leavesOpen style t = true → Quote.Shut style (x.gap ++ text c) := by
          intro hopen
          apply Quote.Shut.append
          · exact Quote.shut_of_not_mem (Quote.other_not_mem (not_isQuote_of_blank joint.blank))
          · exact shut_text rest fun u hu => apart.2.2 t (List.mem_singleton_self t) u hu hopen
        rw [show (Atom.literal t).text = t from rfl, Quote.restyle_append_shut shut, gap, behind]
        rfl
      · have code := not_exists.mp hliteral
        have same : x.atom.mapLiteral (Quote.restyle style) = x.atom := by
          cases hx : x.atom with
          | literal t => exact absurd hx (code t)
          | _ => rfl
        rw [same, Quote.restyle_plain_append (not_isQuote_of_mem_text fits code), gap, behind]

theorem mapLiterals_eq_self {ρ : Text → Text} {c : Code} (h : ∀ t ∈ literals c.pieces, ρ t = t) :
    mapLiterals ρ c = c := by
  induction c with
  | nil => rfl
  | cons x c ih =>
      rw [pieces, literals_append, literals_append, literals_map_code, List.nil_append] at h
      have rest := ih fun t ht => h t (List.mem_append_right _ ht)
      have same : x.atom.mapLiteral ρ = x.atom := by
        cases hx : x.atom with
        | literal t =>
            rw [hx] at h
            exact congrArg Atom.literal (h t (List.mem_append_left _ (List.mem_singleton_self t)))
        | _ => rfl
      rw [mapLiterals] at rest ⊢
      rw [List.map_cons, rest, same]

theorem literals_mapLiterals {ρ : Text → Text} (c : Code) :
    literals (pieces (mapLiterals ρ c)) = (literals c.pieces).map ρ := by
  rw [pieces_mapLiterals, Semicolon.literals_mapLiteral]

theorem head?_mapLiteral {b : Atom} {c : Char}
    (h : (b.mapLiteral (Quote.restyle style)).text.head? = some c) :
    Token.isQuote c = true ∨ b.text.head? = some c := by
  cases hq : Token.isQuote c with
  | true => exact .inl rfl
  | false =>
      right
      cases b with
      | literal t => exact Quote.head?_restyle hq h
      | _ => exact h

theorem isComment_mapLiteral (a : Atom) :
    (a.mapLiteral (Quote.restyle style)).isComment = a.isComment := by
  cases a with
  | literal t => exact Quote.isPrefixOf_restyle (by decide) t
  | _ => rfl

/-- Restyled literals begin as those they stand for, or with quotes as well. -/
theorem apart_mapLiteral {a b : Atom} (h : a.Apart b) :
    (a.mapLiteral (Quote.restyle style)).Apart (b.mapLiteral (Quote.restyle style)) := by
  have exponent := b.isExponent_mapLiteral (ρ := Quote.restyle style)
  have sign := b.isSign_mapLiteral (ρ := Quote.restyle style)
  have word := b.isWord_mapLiteral (ρ := Quote.restyle style)
  cases a with
  | operator op =>
      refine ⟨exponent.trans h.1, fun c hc => ?_⟩
      rcases head?_mapLiteral hc with hquote | hhead
      · refine ⟨fun hop => ?_, fun _ => ?_⟩
        · obtain ⟨d, r, heq, tail, first⟩ := Operator.of_mem_all hop
          have inside : c ∈ d :: r := heq ▸ List.mem_append_right op (List.mem_singleton_self c)
          have symbol : isOperatorChar c = true ∨ c = '!' := by
            rcases List.mem_cons.mp inside with rfl | hc
            · exact first.imp_right And.left
            · exact .inl (tail c hc)
          simp only [Token.isQuote, Bool.or_eq_true, beq_iff_eq] at hquote
          rcases hquote with rfl | rfl <;> exact absurd symbol (by decide)
        · rintro rfl
          cases hquote
      · exact h.2 c hhead
  | word t =>
      refine ⟨word.trans h.1, ?_⟩
      rw [sign, exponent]
      exact h.2
  | exponent c => exact word.trans h
  | symbol c =>
      refine ⟨exponent.trans h.1, fun hc hhead => ?_⟩
      rcases head?_mapLiteral hhead with hquote | hhead
      · cases hquote
      · exact h.2 hc hhead
  | literal t => exact exponent.trans h

theorem joint_mapLiteral {a : Atom} {gap : Text} {next : Option Atom} (h : a.Joint gap next) :
    (a.mapLiteral (Quote.restyle style)).Joint gap
      (next.map (Atom.mapLiteral (Quote.restyle style))) where
  blank := h.blank
  apart := by
    intro b hb hgap
    obtain ⟨b, rfl, rfl⟩ := Option.map_eq_some_iff.mp hb
    refine apart_mapLiteral (h.apart b rfl (hgap.imp_right fun ha => ?_))
    cases a with
    | literal t => cases ha
    | _ => exact ha
  exponent := by
    rw [Atom.isExponent_mapLiteral, Option.isSome_map]
    exact h.exponent
  mantissa := by
    intro b hb hexponent
    obtain ⟨b, rfl, rfl⟩ := Option.map_eq_some_iff.mp hb
    rw [Atom.isExponent_mapLiteral] at hexponent
    exact h.mantissa b rfl hexponent
  comment := by
    rw [isComment_mapLiteral, Option.map_eq_none_iff]
    exact h.comment

theorem lexed_restyled {c : Code} (h : Lexed c) (whole : ∀ t ∈ literals c.pieces,
      Literal.pieces (Quote.restyle style t) = [.literal (Quote.restyle style t)]) :
    Lexed (mapLiterals (Quote.restyle style) c) := by
  induction c with
  | nil => trivial
  | cons x c ih =>
      obtain ⟨fits, joint, rest⟩ := h
      rw [pieces, literals_append, literals_append, literals_map_code, List.nil_append] at whole
      refine ⟨?_, ?_, ih rest fun t ht => whole t (List.mem_append_right _ ht)⟩
      · dsimp only
        cases hx : x.atom with
        | literal t =>
            rw [hx] at fits whole
            exact ⟨whole t (List.mem_append_left _ (List.mem_singleton_self t)),
              fun hm => fits.2.1 (Quote.mem_restyle rfl hm), fun hm => fits.2.2 (Quote.mem_restyle rfl hm)⟩
        | _ =>
            rw [hx] at fits
            exact fits
      · have first := first?_mapLiterals (ρ := Quote.restyle style) c
        rw [mapLiterals] at first
        rw [first]
        exact joint_mapLiteral joint

section Settled

variable {c : Code} (h : Sound c) (settled : Quote.Settled style (literals c.pieces))

include h settled

theorem sound_restyled : Sound (mapLiterals (Quote.restyle style) c) := by
  have lexed := lexed_restyled h.lexed settled.whole
  refine ⟨lexed, ?_, ?_⟩
  · intro b hb
    rw [first?_mapLiterals] at hb
    obtain ⟨a, ha, rfl⟩ := Option.map_eq_some_iff.mp hb
    have meets := h.start a ha
    cases a with
    | literal t => trivial
    | _ => exact meets
  · intro d s hd
    cases hq : Token.isQuote d with
    | true =>
        simp only [Token.isQuote, Bool.or_eq_true, beq_iff_eq] at hq
        rcases hq with rfl | rfl <;> rfl
    | false =>
        rw [← restyle_text h.lexed settled.before] at hd
        obtain ⟨u, hu⟩ := List.head?_eq_some_iff.mp (Quote.head?_restyle hq (by rw [hd]; rfl))
        exact h.front d u hu

/-- Restyled code takes the style no further. -/
theorem restyle_restyled : Quote.restyle style (text (mapLiterals (Quote.restyle style) c)) =
    text (mapLiterals (Quote.restyle style) c) := by
  have lexed := lexed_restyled h.lexed settled.whole
  have again := restyle_text lexed (by
    rw [literals_mapLiterals]
    exact settled.after)
  rw [again]
  refine congrArg text (mapLiterals_eq_self fun t ht => ?_)
  rw [literals_mapLiterals] at ht
  obtain ⟨u, hu, rfl⟩ := List.mem_map.mp ht
  exact settled.twice u hu

/-- Terminated code stays so when it is restyled. -/
theorem terminateLine_restyled (terminated : Semicolon.terminateLine c.text = .ok c.text) :
    Semicolon.terminateLine (text (mapLiterals (Quote.restyle style) c)) =
      .ok (text (mapLiterals (Quote.restyle style) c)) := by
  have sound := sound_restyled h settled
  have onLine := (onLine sound.lexed).1
  have read := pieces_text h.lexed
  have read' := pieces_text sound.lexed
  cases hskip : Semicolon.skips c.text with
  | true =>
      apply Semicolon.terminateLine_of_skips sound.front
      have same := restyle_text h.lexed settled.before
      have empty : (text (mapLiterals (Quote.restyle style) c)).isEmpty = c.text.isEmpty := by
        have length := congrArg List.length (Quote.map_plainQuote_restyle style c.text)
        rw [List.length_map, List.length_map, same] at length
        rw [Bool.eq_iff_iff, List.isEmpty_iff_length_eq_zero, List.isEmpty_iff_length_eq_zero, length]
      rw [Semicolon.skips, empty, ← same, Quote.isPrefixOf_restyle (by decide),
        Quote.isPrefixOf_restyle (by decide)]
      exact hskip
  | false =>
      have clean : Unmarked (Literal.pieces c.text) := read ▸ unmarked h.lexed
      cases hu : Semicolon.terminate? (numbered 0 (Semicolon.bodyCode c.pieces)) with
      | some u =>
          obtain ⟨as, b, rest, hpieces, -, -, -, -, -, hrun⟩ :=
            Semicolon.terminateLine_of_some h.front (Code.onLine h.lexed).1 clean hskip (by rw [read, hu])
          have longer := Except.ok.inj (terminated.symm.trans hrun)
          have whole := Literal.flatMap_text_pieces c.text
          rw [hpieces] at whole
          have lengths := congrArg List.length (whole.trans longer)
          simp [flatMap_text_map_code] at lengths
      | none =>
          apply Semicolon.terminateLine_of_none sound.front onLine (by rw [read']; exact unmarked sound.lexed)
          rw [read', pieces_mapLiterals, Semicolon.bodyCode_mapLiteral, Semicolon.numbered_mapLiteral, hu]
          exact Quote.isPrefixOf_restyle (by decide)

end Settled

end Code
end MotionExpr
