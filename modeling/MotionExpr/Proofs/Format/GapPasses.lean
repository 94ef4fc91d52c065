import MotionExpr.Proofs.Format.BracketGaps
import MotionExpr.Proofs.Format.CallGaps
import MotionExpr.Proofs.Format.OnType

/-!
The passes that space code, told by gaps. Each leaves the end of a line without blanks unless
the line already ends in one. Run one behind the other they change every gap to one that they
leave as it is.
-/

namespace MotionExpr

open Text Literal

/-- The change on a line whose end takes no new gap. -/
def GapChange.tidied (φ : GapChange) : GapChange := fun a before gap next =>
  if next.isNone && gap.isEmpty then [] else φ a before gap next

theorem Line.endsBlank_append {a b : Text} (hb : b ≠ []) : endsBlank (a ++ b) = endsBlank b := by
  rw [endsBlank, endsBlank, List.getLast?_append_of_ne_nil a hb]

namespace Atom

theorem pieces_eq {a : Atom} (h : ∀ t, a ≠ literal t) : a.pieces = a.text.map Piece.code := by
  cases a with
  | literal t => exact absurd rfl (h t)
  | _ => rfl

theorem dropEndWhile_numbered {a : Atom} (h : a.Fits) (n : Nat) :
    dropEndWhile isSpaceOrTab (numbered n a.pieces) = numbered n a.pieces := by
  by_cases hliteral : ∃ t, a = literal t
  · obtain ⟨t, rfl⟩ := hliteral
    have one : numbered n (literal t).pieces = placeholder n := List.append_nil _
    rw [one, dropEndWhile_placeholder fun _ => isBlank_of_isSpaceOrTab]
  · have code := not_exists.mp hliteral
    rw [pieces_eq code, numbered_map_code]
    exact dropEndWhile_eq_self fun c hc => isSpaceOrTab_of_mem_text h code hc

end Atom

namespace Code

/-- Code that is the body of a line. -/
structure Sound (c : Code) : Prop where
  lexed : Lexed c
  start : ∀ b, first? c = some b → b.Meets []
  front : Unindented c.text

theorem unmarked {c : Code} (h : Lexed c) : Unmarked c.pieces := by
  induction c with
  | nil => exact List.not_mem_nil
  | cons x c ih =>
      obtain ⟨fits, joint, rest⟩ := h
      rw [Unmarked, pieces, List.mem_append, List.mem_append, not_or, not_or]
      refine ⟨?_, ?_, ih rest⟩
      · by_cases hliteral : ∃ t, x.atom = .literal t
        · obtain ⟨t, hx⟩ := hliteral
          simp [hx, Atom.pieces]
        · have code := not_exists.mp hliteral
          rw [Atom.pieces_eq code, List.mem_map]
          rintro ⟨d, hd, hmark⟩
          obtain rfl : d = mark := Piece.code.inj hmark
          have here := Atom.isSpaceOrTab_of_mem_text fits code hd
          rcases Atom.of_mem_text fits code hd with hx | hpart | hop | hneg
          · rw [hx] at fits
            cases fits
          · exact absurd hpart (by decide)
          · exact absurd hop (by decide)
          · exact absurd hneg (by decide)
      · rw [List.mem_map]
        rintro ⟨d, hd, hmark⟩
        have blank := joint.blank d hd
        rw [Piece.code.inj hmark] at blank
        cases blank

variable {φ ψ : GapChange}

theorem KeepsApart.tidied (h : KeepsApart φ) : KeepsApart φ.tidied := by
  intro a before gap next fits hnext joint
  rw [GapChange.tidied]
  split
  · next hend =>
      rw [Bool.and_eq_true, List.isEmpty_iff] at hend
      rw [← hend.2]
      exact joint
  · exact h a before gap next fits hnext joint

theorem Sound.mapGaps (apart : KeepsApart φ) {c : Code} (h : Sound c) : Sound (mapGaps φ [] c) where
  lexed := lexed_mapGaps apart h.lexed []
  start := by simpa using h.start
  front := by
    intro d r hd
    have same : (text (Code.mapGaps φ [] c)).head? = c.text.head? := by
      rw [head?_text (lexed_mapGaps apart h.lexed []), head?_text h.lexed, first?_mapGaps]
    rw [hd] at same
    obtain ⟨s, hs⟩ := List.head?_eq_some_iff.mp same.symm
    exact h.front d s hs

/-- At its end the change makes a gap only behind what ends in no blank. -/
def Quiet (φ : GapChange) : Prop :=
  ∀ (a : Atom) (before : List Atom), a.Fits → φ a before [] none ≠ [] → Line.endsBlank a.text = false

theorem text_ne_nil {x : Cell} {c : Code} (h : Lexed (x :: c)) : text (x :: c) ≠ [] := by
  rw [text]
  exact List.append_ne_nil_of_left_ne_nil (Atom.text_ne_nil h.1) _

theorem mapGaps_tidied_of_endsBlank (quiet : Quiet φ) {c : Code} (h : Lexed c)
    (hend : Line.endsBlank c.text = true) (before : List Atom) :
    mapGaps φ.tidied before c = mapGaps φ before c := by
  induction c generalizing before with
  | nil => rfl
  | cons x c ih =>
      cases c with
      | nil =>
          have here : φ.tidied x.atom before x.gap none = φ x.atom before x.gap none := by
            rw [GapChange.tidied]
            split
            · next hgap =>
                rw [Bool.and_eq_true, List.isEmpty_iff] at hgap
                by_contra hne
                have last := quiet x.atom before h.1 fun hnil => hne (by rw [hgap.2, hnil])
                rw [text, text, hgap.2, List.append_nil, List.append_nil, last] at hend
                cases hend
            · rfl
          exact congrArg (fun g => [Cell.mk x.atom g]) here
      | cons y c =>
          have below : Line.endsBlank (text (y :: c)) = true := by
            rwa [text, Line.endsBlank_append (List.append_ne_nil_of_right_ne_nil _ (text_ne_nil h.2.2)),
              Line.endsBlank_append (text_ne_nil h.2.2)] at hend
          rw [mapGaps_cons φ.tidied before x, mapGaps_cons φ before x, ih h.2.2 below]
          rfl

theorem dropEndWhile_masked (apart : KeepsApart φ) {c : Code} (h : Lexed c)
    (hend : Line.endsBlank c.text = false) (n : Nat) (before : List Atom) :
    dropEndWhile isSpaceOrTab (masked n (mapGaps φ before c)) = masked n (mapGaps φ.tidied before c) := by
  induction c generalizing n before with
  | nil => rfl
  | cons x c ih =>
      have changed := lexed_mapGaps apart h before
      cases c with
      | nil =>
          have noGap : x.gap = [] := by
            by_contra hgap
            obtain ⟨d, r, hr⟩ := List.exists_cons_of_ne_nil (mt List.reverse_eq_nil_iff.mp hgap)
            have hd : d ∈ x.gap := List.mem_reverse.mp (hr ▸ List.mem_cons_self ..)
            rw [text, text, List.append_nil, Line.endsBlank_append hgap, Line.endsBlank,
              List.getLast?_eq_head?_reverse, hr] at hend
            rw [List.head?_cons] at hend
            have blank := isBlank_of_isSpaceOrTab (h.2.1.blank d hd)
            rw [show Text.isBlank d = false from hend] at blank
            cases blank
          rw [mapGaps, masked_cons, mapGaps, dropEndWhile_append, dropEndWhile_eq_nil, if_pos rfl,
            Atom.dropEndWhile_numbered h.1, mapGaps, mapGaps, masked_cons, GapChange.tidied, noGap]
          · simp [masked, pieces, numbered, first?]
          · intro d hd
            have inside : d ∈ φ x.atom before x.gap none := by
              simpa [masked, pieces, numbered, first?] using hd
            exact changed.2.1.blank d inside
      | cons y c =>
          have below : Line.endsBlank (text (y :: c)) = false := by
            rwa [text, Line.endsBlank_append (List.append_ne_nil_of_right_ne_nil _ (text_ne_nil h.2.2)),
              Line.endsBlank_append (text_ne_nil h.2.2)] at hend
          have nonempty : masked (n + (literals x.atom.pieces).length)
              (mapGaps φ.tidied (x.atom :: before) (y :: c)) ≠ [] := by
            obtain ⟨d, s, hd⟩ := exists_masked_cons
              (lexed_mapGaps apart.tidied h.2.2 (x.atom :: before)) (n + (literals x.atom.pieces).length)
            exact fun hnil => List.cons_ne_nil d s (hd.symm.trans hnil)
          have rest := ih h.2.2 below (n + (literals x.atom.pieces).length) (x.atom :: before)
          rw [mapGaps_cons φ before x, masked_cons, dropEndWhile_append, dropEndWhile_append]
          dsimp only
          rw [rest, if_neg nonempty, if_neg (List.append_ne_nil_of_right_ne_nil _ nonempty),
            mapGaps_cons φ.tidied before x, masked_cons]
          rfl

/-- A transform that acts on gaps does so on the body of a line. -/
theorem Acts.mapCode {f : Text → Text} (acts : Acts f φ) (apart : KeepsApart φ) (quiet : Quiet φ)
    {c : Code} (h : Sound c) : Line.mapCode f c.text = .ok (text (mapGaps φ.tidied [] c)) := by
  rw [Line.mapCode, splitIndent_unindented h.front]
  dsimp only
  split
  · next hempty =>
      cases c with
      | nil => rfl
      | cons x c => exact absurd (List.isEmpty_iff.mp hempty) (text_ne_nil h.lexed)
  · obtain ⟨gap, blank, hf⟩ := acts c [] h.lexed h.start (List.forall_mem_nil _)
    have changed := lexed_mapGaps apart h.lexed []
    have tidy : Line.tidy c.text (f (masked 0 c)) = masked 0 (mapGaps φ.tidied [] c) := by
      rw [← List.nil_append (masked 0 c), hf, Line.tidy, dropWhile_gap changed 0 blank]
      split
      · next hend => rw [mapGaps_tidied_of_endsBlank quiet h.lexed hend]
      · next hend => exact dropEndWhile_masked apart h.lexed (eq_false_of_ne_true hend) 0 []
    have restored := restore_numbered (unmarked (lexed_mapGaps apart.tidied h.lexed []))
    rw [literals_mapGaps, flatMap_text_pieces] at restored
    rw [mask, pieces_text h.lexed]
    dsimp only
    rw [show numbered 0 c.pieces = masked 0 c from rfl, tidy, masked, restored]
    rfl

/-! All passes that space code. -/

def Steady (φ : GapChange) : Prop :=
  ∀ (a : Atom) (before : List Atom) (gap : Text) (next : Option Atom),
    φ a before (φ a before gap next) next = φ a before gap next

def operatorGap : GapChange := Operator.negationGap.after (Operator.squeezeGap.after Operator.respaceGap)

def bracketGap (spaced : Bool) : GapChange := fun a before gap next =>
  if spaced then Bracket.spaceGap a before gap next else gap

/-- What the passes make of a gap, with or without the spaces inside brackets. -/
def spacedGap (spaced : Bool) : GapChange :=
  Comma.respaceGap.tidied.after (operatorGap.tidied.after (Call.tightenGap.tidied.after
    (bracketGap spaced).tidied))

theorem keepsApart_operatorGap : KeepsApart operatorGap :=
  Operator.keepsApart_negation.comp (Operator.keepsApart_squeeze.comp Operator.keepsApart_respace)

theorem acts_operatorGap : Acts Operator.space operatorGap :=
  Operator.acts_negation.comp
    (Operator.acts_squeeze.comp Operator.acts_respace Operator.keepsApart_respace)
    (Operator.keepsApart_squeeze.comp Operator.keepsApart_respace)

theorem keepsApart_bracketGap (spaced : Bool) : KeepsApart (bracketGap spaced) := by
  cases spaced with
  | false => exact fun _ _ _ _ _ _ joint => joint
  | true => exact Bracket.keepsApart_space

theorem keepsApart_spacedGap (spaced : Bool) : KeepsApart (spacedGap spaced) :=
  Comma.keepsApart_respace.tidied.comp (keepsApart_operatorGap.tidied.comp
    (Call.keepsApart_tighten.tidied.comp (keepsApart_bracketGap spaced).tidied))

/-- A change that leaves the end of a line as it is makes no gap there. -/
theorem quiet_of_end (h : ∀ a before gap, φ a before gap none = gap) : Quiet φ :=
  fun a before _ hne => absurd (h a before []) hne

theorem bracketGap_end (spaced : Bool) (a : Atom) (before : List Atom) (gap : Text) :
    bracketGap spaced a before gap none = gap := by
  cases spaced with
  | false => rfl
  | true =>
      have noBack : Bracket.back a before gap none = [] := by simp [Bracket.back]
      rw [bracketGap, if_pos rfl, Bracket.spaceGap, noBack]
      rfl

theorem tightenGap_end (a : Atom) (before : List Atom) (gap : Text) :
    Call.tightenGap a before gap none = gap :=
  Call.tightenGap_other (fun _ h => by cases h.2) before gap

def isOperator : Atom → Bool
  | .operator _ => true
  | _ => false

/-- At an operator and behind a negation what the gap was plays no part. -/
theorem operatorGap_const {a : Atom} {next : Option Atom}
    (h : isOperator a = true ∨ next.any isOperator = true ∨ a.isSymbol '!' = true)
    (before : List Atom) (gap gap' : Text) :
    operatorGap a before gap next = operatorGap a before gap' next := by
  have respaced (h : isOperator a = true ∨ next.any isOperator = true) :
      Operator.respaceGap a before gap next = Operator.respaceGap a before gap' next := by
    by_cases ha : isOperator a = true
    · cases a with
      | operator op => rfl
      | _ => cases ha
    · have hnext := h.resolve_left ha
      cases next with
      | none => cases hnext
      | some b =>
          cases b with
          | operator op =>
              cases a with
              | operator op' => exact absurd rfl ha
              | _ => rfl
          | _ => cases hnext
  simp only [operatorGap, GapChange.after, Operator.negationGap]
  split
  · rfl
  · next hneg => rw [respaced (h.imp_right fun h => h.resolve_right hneg)]

/-- Elsewhere spaces are only squeezed. -/
theorem operatorGap_plain {a : Atom} {next : Option Atom} (ha : isOperator a = false)
    (hnext : next.any isOperator = false) (hneg : a.isSymbol '!' = false) (before : List Atom)
    (gap : Text) : operatorGap a before gap next = Operator.squeezeGap a before gap next := by
  have same : Operator.respaceGap a before gap next = gap := by
    apply Operator.respaceGap_eq_self
    · rintro op rfl
      cases ha
    · rintro op rfl
      cases hnext
  simp only [operatorGap, GapChange.after, Operator.negationGap, hneg, same]
  rfl

theorem operatorGap_end {a : Atom} (ha : isOperator a = false) (hneg : a.isSymbol '!' = false)
    (before : List Atom) (gap : Text) : operatorGap a before gap none = gap :=
  operatorGap_plain ha rfl hneg before gap

theorem comma_const {a : Atom} {next : Option Atom}
    (h : a.isSymbol ',' = true ∨ next.any (Atom.isSymbol ',') = true) (before : List Atom)
    (gap gap' : Text) : Comma.respaceGap a before gap next = Comma.respaceGap a before gap' next := by
  rw [Comma.respaceGap, Comma.respaceGap]
  split
  · rfl
  · next ha => rw [Comma.left, Comma.left, if_pos (h.resolve_left ha), if_pos (h.resolve_left ha)]

theorem comma_plain {a : Atom} {next : Option Atom} (ha : a.isSymbol ',' = false)
    (hnext : next.any (Atom.isSymbol ',') = false) (before : List Atom) (gap : Text) :
    Comma.respaceGap a before gap next = gap := by
  rw [Comma.respaceGap, ha, if_neg (by decide), Comma.left, hnext, if_neg (by decide)]

theorem quiet_operatorGap : Quiet operatorGap := by
  intro a before fits hne
  cases a with
  | operator op =>
      obtain ⟨c, r, hr, -, hblank, -⟩ := Operator.last_of_mem_all fits
      rw [Line.endsBlank, Atom.text, List.getLast?_eq_head?_reverse, hr]
      exact hblank
  | symbol c =>
      refine absurd ?_ hne
      have h : operatorGap (.symbol c) before [] none = if c == '!' then [] else [] := rfl
      rw [h, ite_self]
  | _ => exact absurd rfl hne

theorem quiet_comma : Quiet Comma.respaceGap := by
  intro a before fits hne
  cases hcomma : a.isSymbol ',' with
  | true =>
      rw [Atom.isSymbol_iff.mp hcomma]
      rfl
  | false => exact absurd (comma_plain hcomma rfl before []) hne

theorem squeezeGap_cases (a : Atom) (before : List Atom) (gap : Text) (next : Option Atom) :
    Operator.squeezeGap a before gap next = gap ∨
      2 ≤ gap.length ∧ Operator.squeezeGap a before gap next = [' '] := by
  cases next with
  | none => exact .inl rfl
  | some b =>
      rw [Operator.squeezeGap, Operator.squeezed]
      split
      · next hcond =>
          simp only [Bool.and_eq_true, decide_eq_true_eq] at hcond
          exact .inr ⟨hcond.1.1.2, rfl⟩
      · exact .inl rfl

theorem squeezeGap_short {gap : Text} (h : gap.length < 2) (a : Atom) (before : List Atom)
    (next : Option Atom) : Operator.squeezeGap a before gap next = gap :=
  (squeezeGap_cases a before gap next).resolve_right fun hlong => by omega

theorem bracketGap_cases (spaced : Bool) (a : Atom) (before : List Atom) (gap : Text)
    (next : Option Atom) : bracketGap spaced a before gap next = gap ∨
      gap = [] ∧ bracketGap spaced a before gap next = [' '] := by
  cases spaced with
  | false => exact .inl rfl
  | true => exact Bracket.spaceGap_cases a before gap next

theorem bracketGap_present {gap : Text} (h : gap ≠ []) (spaced : Bool) (a : Atom)
    (before : List Atom) (next : Option Atom) : bracketGap spaced a before gap next = gap :=
  (bracketGap_cases spaced a before gap next).resolve_right fun hgap => h hgap.1

/-- Where no pass makes the gap anew, a missing one may become a space and a present one is
squeezed. -/
theorem steady_squeeze_bracket (spaced : Bool) (a : Atom) (before : List Atom) (gap : Text)
    (next : Option Atom) : Operator.squeezeGap a before (bracketGap spaced a before
        (Operator.squeezeGap a before (bracketGap spaced a before gap next) next) next) next =
      Operator.squeezeGap a before (bracketGap spaced a before gap next) next := by
  have one : Operator.squeezeGap a before [' '] next = [' '] := squeezeGap_short (by decide) ..
  have present : bracketGap spaced a before [' '] next = [' '] :=
    bracketGap_present (List.cons_ne_nil ' ' []) ..
  rcases bracketGap_cases spaced a before gap next with hkept | ⟨rfl, hspace⟩
  · rw [hkept]
    rcases squeezeGap_cases a before gap next with hsame | ⟨-, hone⟩
    · rw [hsame, hkept, hsame]
    · rw [hone, present, one]
  · rw [hspace, one, present, one]

/-- Between two atoms. -/
theorem steady_between (spaced : Bool) (a b : Atom) (before : List Atom) (gap : Text) :
    spacedGap spaced a before (spacedGap spaced a before gap (some b)) (some b) =
      spacedGap spaced a before gap (some b) := by
  have whole (gap : Text) : spacedGap spaced a before gap (some b) =
      Comma.respaceGap a before (operatorGap a before (Call.tightenGap a before
        (bracketGap spaced a before gap (some b)) (some b)) (some b)) (some b) := rfl
  by_cases hcomma : a.isSymbol ',' = true ∨ (some b).any (Atom.isSymbol ',') = true
  · rw [whole, whole gap]
    exact comma_const hcomma before _ _
  · obtain ⟨ha, hb⟩ := not_or.mp hcomma
    have last (gap : Text) : Comma.respaceGap a before gap (some b) = gap :=
      comma_plain (eq_false_of_ne_true ha) (eq_false_of_ne_true hb) before gap
    simp only [last] at whole
    rw [whole, whole gap]
    by_cases hop : isOperator a = true ∨ (some b).any isOperator = true ∨ a.isSymbol '!' = true
    · exact operatorGap_const hop before _ _
    · obtain ⟨ha, hb, hneg⟩ := not_or.mp hop |>.imp_right not_or.mp
      simp only [operatorGap_plain (eq_false_of_ne_true ha) (eq_false_of_ne_true hb)
        (eq_false_of_ne_true hneg)]
      by_cases call : ∃ name, Call.IsCall a (some b) name
      · obtain ⟨name, call⟩ := call
        simp only [Call.tightenGap_call call]
        split
        · exact steady_squeeze_bracket spaced a before gap (some b)
        · rfl
      · simp only [Call.tightenGap_other (not_exists.mp call)]
        exact steady_squeeze_bracket spaced a before gap (some b)

/-- At the end of a line. -/
theorem steady_end (spaced : Bool) (a : Atom) (before : List Atom) (gap : Text) :
    spacedGap spaced a before (spacedGap spaced a before gap none) none =
      spacedGap spaced a before gap none := by
  have closed : spacedGap spaced a before [] none = [] := rfl
  have present {gap : Text} (hgap : gap ≠ []) : spacedGap spaced a before gap none =
      Comma.respaceGap.tidied a before (operatorGap a before gap none) none := by
    have tidied (φ : GapChange) : φ.tidied a before gap none = φ a before gap none := by
      simp [GapChange.tidied, hgap]
    simp only [spacedGap, GapChange.after, tidied, bracketGap_end, tightenGap_end]
  by_cases hgap : gap = []
  · rw [hgap, closed, closed]
  · have again (h : Text) (hh : operatorGap a before gap none = h) : operatorGap a before h none = h := by
      by_cases hmade : isOperator a = true ∨ none.any isOperator = true ∨ a.isSymbol '!' = true
      · rw [← hh]
        exact operatorGap_const hmade before _ gap
      · obtain ⟨ha, -, hneg⟩ := not_or.mp hmade |>.imp_right not_or.mp
        exact operatorGap_end (eq_false_of_ne_true ha) (eq_false_of_ne_true hneg) before h
    rw [present hgap]
    obtain ⟨h, hh⟩ : ∃ h, operatorGap a before gap none = h := ⟨_, rfl⟩
    have steady := again h hh
    rw [hh]
    by_cases hnil : h = []
    · rw [hnil]
      exact closed
    · have tidied {h : Text} (hne : h ≠ []) : Comma.respaceGap.tidied a before h none =
          Comma.respaceGap a before h none := by
        simp [GapChange.tidied, hne]
      rw [tidied hnil]
      cases hcomma : a.isSymbol ',' with
      | true =>
          have one (h : Text) : Comma.respaceGap a before h none = [' '] := by
            rw [Comma.respaceGap, hcomma, if_pos rfl]
            rfl
          have kept : operatorGap a before [' '] none = [' '] := by
            rw [Atom.isSymbol_iff.mp hcomma]
            exact operatorGap_end rfl rfl before [' ']
          rw [one, present (List.cons_ne_nil ' ' []), kept, tidied (List.cons_ne_nil ' ' []), one]
      | false =>
          rw [comma_plain hcomma rfl, present hnil, steady, tidied hnil, comma_plain hcomma rfl]

theorem steady_spacedGap (spaced : Bool) : Steady (spacedGap spaced) := by
  intro a before gap next
  cases next with
  | none => exact steady_end spaced a before gap
  | some b => exact steady_between spaced a b before gap

theorem mapGaps_eq_self (h : ∀ a before gap next, φ a before gap next = gap) (before : List Atom)
    (c : Code) : mapGaps φ before c = c := by
  induction c generalizing before with
  | nil => rfl
  | cons x c ih => rw [mapGaps, h, ih]

/-- Code stays on its line. -/
theorem onLine {c : Code} (h : Lexed c) : '\n' ∉ c.text ∧ '\r' ∉ c.text := by
  induction c with
  | nil => exact ⟨List.not_mem_nil, List.not_mem_nil⟩
  | cons x c ih =>
      obtain ⟨fits, joint, rest⟩ := h
      have atom : '\n' ∉ x.atom.text ∧ '\r' ∉ x.atom.text := by
        by_cases hliteral : ∃ t, x.atom = .literal t
        · obtain ⟨t, hx⟩ := hliteral
          rw [hx] at fits ⊢
          exact fits.2
        · have code := not_exists.mp hliteral
          have outside (d : Char) (hlone : isLone d = false) (hpart : isWordPart d = false)
              (hop : isOperatorChar d = false) (hneg : d ≠ '!') : d ∉ x.atom.text := by
            intro hd
            rcases Atom.of_mem_text fits code hd with hx | h | h | h
            · rw [hx] at fits
              exact absurd (hlone.symm.trans fits) (by decide)
            · exact absurd (hpart.symm.trans h) (by decide)
            · exact absurd (hop.symm.trans h) (by decide)
            · exact hneg h
          exact ⟨outside '\n' (by decide) (by decide) (by decide) (by decide),
            outside '\r' (by decide) (by decide) (by decide) (by decide)⟩
      have gap (d : Char) (hd : isSpaceOrTab d = false) : d ∉ x.gap := by
        intro hmem
        rw [joint.blank d hmem] at hd
        cases hd
      simp only [text, List.mem_append, not_or]
      exact ⟨⟨atom.1, gap '\n' rfl, (ih rest).1⟩, ⟨atom.2, gap '\r' rfl, (ih rest).2⟩⟩

end Code

namespace Formatter

open Code

def spacing : List Pass := [.brackets, .calls, .operators, .commas]

/-- On a text of one line an enabled pass goes on with what it makes of that line. -/
theorem runPasses_onLine {plan : Plan} {o : FormatOptions} {p : Pass} (hplan : plan p = o.plan p)
    (hon : p.enabled o = true) {f : Text → Except Literal.Fault Text} (hline : p.onLine? o = some f)
    (ps : List Pass) {b c : Text} (hb : '\n' ∉ b) (hc : f b = .ok c) :
    runPasses plan (p :: ps) b = runPasses plan ps c := by
  rw [runPasses, hplan, FormatOptions.plan, if_pos hon]
  dsimp only
  rw [Pass.apply_eq_mapLines hline, Line.mapLines_of_not_newline f hb, hc]
  rfl

/-- A pass that spaces code changes its gaps. -/
theorem runPasses_gaps {plan : Plan} {o : FormatOptions} {p : Pass} (hplan : plan p = o.plan p)
    (hon : p.enabled o = true) {f : Text → Text} (hline : p.onLine? o = some (Line.mapCode f))
    {φ : GapChange} (acts : Acts f φ) (apart : KeepsApart φ) (quiet : Quiet φ) (ps : List Pass)
    {c : Code} (h : Sound c) :
    runPasses plan (p :: ps) c.text = runPasses plan ps (text (mapGaps φ.tidied [] c)) :=
  runPasses_onLine hplan hon hline ps (onLine h.lexed).1 (acts.mapCode apart quiet h)

/-- The passes that space code do not fail. -/
theorem runPasses_spacing {plan : Plan} {o : FormatOptions} (hplan : ∀ p ∈ spacing, plan p = o.plan p)
    (ps : List Pass) {c : Code} (h : Sound c) :
    runPasses plan (spacing ++ ps) c.text =
      runPasses plan ps (text (mapGaps (spacedGap o.bracketSpacing) [] c)) := by
  have brackets : runPasses plan (spacing ++ ps) c.text =
      runPasses plan (.calls :: .operators :: .commas :: ps)
        (text (mapGaps (bracketGap o.bracketSpacing).tidied [] c)) := by
    cases hon : o.bracketSpacing with
    | true =>
        exact runPasses_gaps (hplan .brackets (by decide)) hon rfl Bracket.acts_space Bracket.keepsApart_space
          (quiet_of_end (bracketGap_end true)) _ h
    | false =>
        have same : mapGaps (bracketGap false).tidied [] c = c := by
          apply mapGaps_eq_self
          intro a before gap next
          rw [GapChange.tidied]
          split
          · next hend =>
              rw [Bool.and_eq_true, List.isEmpty_iff] at hend
              exact hend.2.symm
          · rfl
        rw [same]
        exact runPasses_off _ (hplan .brackets (by decide)) hon _
  have bracketed := h.mapGaps (keepsApart_bracketGap o.bracketSpacing).tidied
  have called := bracketed.mapGaps Call.keepsApart_tighten.tidied
  have operated := called.mapGaps keepsApart_operatorGap.tidied
  rw [brackets, runPasses_gaps (hplan _ (by decide)) rfl rfl Call.acts_tighten Call.keepsApart_tighten
      (quiet_of_end tightenGap_end) _ bracketed,
    runPasses_gaps (hplan _ (by decide)) rfl rfl acts_operatorGap keepsApart_operatorGap
      quiet_operatorGap _ called,
    runPasses_gaps (hplan _ (by decide)) rfl rfl Comma.acts_space Comma.keepsApart_respace
      quiet_comma _ operated, mapGaps_mapGaps, mapGaps_mapGaps, mapGaps_mapGaps]
  rfl

end Formatter
end MotionExpr
