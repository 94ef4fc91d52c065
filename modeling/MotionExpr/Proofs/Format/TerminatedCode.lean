import MotionExpr.Proofs.Format.GapPasses
import MotionExpr.Proofs.Format.Terminated

/-!
A semicolon among atoms. It is put directly behind an atom and takes over the gap there. Behind
it there are blanks, closing braces and a comment only, so the gaps of spaced code stay what the
spacing passes make of them.
-/

namespace MotionExpr

open Text Literal

/-- A character directly behind which an added semicolon leaves every gap as it is. -/
def Semicolon.follows (c : Char) : Bool :=
  !isBlank c && !Indentation.opensGroup c && c != ',' && c != '!' && !isOperatorChar c

namespace Atom

/-- What may stand behind an added semicolon. -/
def isTail : Atom → Bool
  | symbol c => Semicolon.closesLine c
  | literal _ => true
  | _ => false

theorem not_closesLine {c : Char} (h : isWordPart c = true ∨ isOperatorChar c = true ∨ c = '!') :
    Semicolon.closesLine c = false := by
  rw [← Bool.not_eq_true]
  intro hc
  simp only [Semicolon.closesLine, Bool.or_eq_true, beq_iff_eq] at hc
  rcases hc with hblank | rfl
  · rcases h with h | h | rfl
    · rw [isWordPart_of_isBlank hblank] at h
      cases h
    · have checked : ("+-*/%=<>&|^".toList.all fun d => !Text.isBlank d) = true := by decide
      have here := List.all_eq_true.mp checked c (List.contains_iff_mem.mp h)
      rw [hblank] at here
      cases here
    · cases hblank
  · rcases h with h | h | h
    · cases h
    · cases h
    · exact absurd h (by decide)

theorem isTail_of_closesLine {a : Atom} (h : a.Fits)
    (closes : ∀ c, .code c ∈ a.pieces → Semicolon.closesLine c = true) : a.isTail = true := by
  cases a with
  | literal t => rfl
  | symbol c => exact closes c (List.mem_singleton_self _)
  | operator op =>
      obtain ⟨c, r, rfl, -, first⟩ := Operator.of_mem_all h
      have here := closes c (List.mem_map_of_mem (List.mem_cons_self ..))
      rw [not_closesLine (.inr (first.imp_right And.left))] at here
      cases here
  | word t =>
      obtain ⟨c, r, rfl⟩ := List.exists_cons_of_ne_nil h.1
      have here := closes c (List.mem_map_of_mem (List.mem_cons_self ..))
      rw [not_closesLine (.inl (h.2 c (List.mem_cons_self ..)))] at here
      cases here
  | exponent sign =>
      have here := closes sign (List.mem_singleton_self _)
      rcases head_of_isSign h with rfl | rfl <;> cases here

end Atom

namespace Code

theorem text_append (l c : Code) : text (l ++ c) = l.text ++ c.text := by
  induction l with
  | nil => rfl
  | cons x l ih => rw [List.cons_append, text, ih, text]; simp only [List.append_assoc]

theorem pieces_append (l c : Code) : pieces (l ++ c) = l.pieces ++ c.pieces := by
  induction l with
  | nil => rfl
  | cons x l ih => rw [List.cons_append, pieces, ih, pieces]; simp only [List.append_assoc]

theorem lexed_of_append {l c : Code} (h : Lexed (l ++ c)) : Lexed c := by
  induction l with
  | nil => exact h
  | cons x l ih => exact ih h.2.2

/-- Code may go on otherwise behind the same atom. -/
theorem lexed_append_congr {l : Code} {x y : Cell} {c d : Code} (hy : y.atom = x.atom)
    (h : Lexed (l ++ x :: c)) (rest : Lexed (y :: d)) : Lexed (l ++ y :: d) := by
  induction l with
  | nil => exact rest
  | cons z l ih =>
      obtain ⟨fits, joint, behind⟩ := h
      refine ⟨fits, ?_, ih behind⟩
      have same : first? (l ++ y :: d) = first? (l ++ x :: c) := by
        cases l with
        | nil => exact congrArg some hy
        | cons w l => rfl
      exact Eq.mpr (congrArg (z.atom.Joint z.gap) same) joint

variable {φ : GapChange}

theorem mapGaps_eq_iff {before : List Atom} {x : Cell} {c : Code} :
    mapGaps φ before (x :: c) = x :: c ↔
      φ x.atom before x.gap (first? c) = x.gap ∧ mapGaps φ (x.atom :: before) c = c := by
  cases x
  simp [mapGaps]

theorem settled_of_append {l c : Code} {before : List Atom} (h : mapGaps φ before (l ++ c) = l ++ c) :
    mapGaps φ ((l.map Cell.atom).reverse ++ before) c = c := by
  induction l generalizing before with
  | nil => exact h
  | cons x l ih =>
      have rest := ih (mapGaps_eq_iff.mp h).2
      rwa [List.map_cons, List.reverse_cons, List.append_assoc, List.singleton_append]

theorem settled_append_congr {l : Code} {x y : Cell} {c d : Code} {before : List Atom}
    (hy : y.atom = x.atom) (h : mapGaps φ before (l ++ x :: c) = l ++ x :: c)
    (rest : mapGaps φ ((l.map Cell.atom).reverse ++ before) (y :: d) = y :: d) :
    mapGaps φ before (l ++ y :: d) = l ++ y :: d := by
  induction l generalizing before with
  | nil => exact rest
  | cons z l ih =>
      obtain ⟨here, behind⟩ := mapGaps_eq_iff.mp h
      have same : first? (l ++ y :: d) = first? (l ++ x :: c) := by
        cases l with
        | nil => exact congrArg some hy
        | cons w l => rfl
      rw [List.cons_append, mapGaps_eq_iff, same]
      rw [List.map_cons, List.reverse_cons, List.append_assoc, List.singleton_append] at rest
      exact ⟨here, ih behind rest⟩

/-- A cut behind a piece that is no blank is not within a gap. -/
theorem no_cut_in_gap {gap : Text} (blank : ∀ d ∈ gap, isSpaceOrTab d = true) {u v : List Piece}
    (hu : u ≠ []) (last : ∀ d, u.getLast? = some (.code d) → isBlank d = false) :
    gap.map Piece.code ≠ u ++ v := by
  intro hgap
  obtain ⟨w, p, hw⟩ := (List.eq_nil_or_concat u).resolve_left hu
  rw [List.concat_eq_append] at hw
  have inside : p ∈ gap.map Piece.code := by rw [hgap, hw]; simp
  obtain ⟨d, hd, rfl⟩ := List.mem_map.mp inside
  have notBlank := last d (by rw [hw, List.getLast?_concat])
  rw [isBlank_of_isSpaceOrTab (blank d hd)] at notBlank
  cases notBlank

/-- A cut within an atom leaves characters behind that close no line. -/
theorem no_cut_in_atom {a : Atom} (fits : a.Fits) {u v : List Piece} (hu : u ≠ []) (hv : v ≠ [])
    (closes : ∀ d, .code d ∈ v → Semicolon.closesLine d = true) : a.pieces ≠ u ++ v := by
  intro hm
  obtain ⟨p, v, rfl⟩ := List.exists_cons_of_ne_nil hv
  have single (q : Piece) (hq : a.pieces = [q]) : False := by
    rw [hq] at hm
    obtain ⟨p', u', rfl⟩ := List.exists_cons_of_ne_nil hu
    simp at hm
  by_cases hliteral : ∃ t, a = .literal t
  · obtain ⟨t, rfl⟩ := hliteral
    exact single (.literal t) rfl
  · have code := not_exists.mp hliteral
    rw [Atom.pieces_eq code] at hm
    have inside : p ∈ a.text.map Piece.code := by rw [hm]; simp
    obtain ⟨d, hd, rfl⟩ := List.mem_map.mp inside
    have hcloses := closes d (List.mem_cons_self ..)
    rcases Atom.of_mem_text fits code hd with rfl | hpart
    · exact single (.code d) rfl
    · rw [Atom.not_closesLine hpart] at hcloses
      cases hcloses

/-- Cut where only blanks, closing braces and literals follow, and no blank stands in front, code
is cut behind an atom. -/
theorem exists_cut {c : Code} (h : Lexed c) {ps qs : List Piece} (hcut : c.pieces = ps ++ qs)
    (hne : ps ≠ []) (last : ∀ d, ps.getLast? = some (.code d) → isBlank d = false)
    (closes : ∀ d, .code d ∈ qs → Semicolon.closesLine d = true) :
    ∃ (l : Code) (a : Atom) (g : Text) (r : Code), c = l ++ ⟨a, g⟩ :: r ∧
      ps = l.pieces ++ a.pieces ∧ qs = g.map Piece.code ++ r.pieces := by
  induction c generalizing ps with
  | nil => exact absurd (List.append_eq_nil_iff.mp hcut.symm).1 hne
  | cons x c ih =>
      obtain ⟨fits, joint, rest⟩ := h
      rw [pieces] at hcut
      rcases List.append_eq_append_iff.mp hcut with ⟨m, rfl, hm⟩ | ⟨m, hm, rfl⟩
      · by_cases hnil : m = []
        · subst hnil
          exact ⟨[], x.atom, x.gap, c, rfl, List.append_nil _, hm.symm⟩
        · rw [List.getLast?_append_of_ne_nil _ hnil] at last
          rcases List.append_eq_append_iff.mp hm with ⟨m', rfl, hm'⟩ | ⟨m', hgap, -⟩
          · by_cases hnil' : m' = []
            · subst hnil'
              rw [List.append_nil] at hnil last
              exact absurd (List.append_nil _).symm (no_cut_in_gap joint.blank hnil last)
            · rw [List.getLast?_append_of_ne_nil _ hnil'] at last
              obtain ⟨l, a, g, r, rfl, rfl, hqs⟩ := ih rest hm' hnil' last
              exact ⟨x :: l, a, g, r, rfl, by simp only [pieces, List.append_assoc], hqs⟩
          · exact absurd hgap (no_cut_in_gap joint.blank hnil last)
      · by_cases hnil : m = []
        · subst hnil
          rw [List.append_nil] at hm
          exact ⟨[], x.atom, x.gap, c, rfl, hm.symm, rfl⟩
        · exact absurd hm (no_cut_in_atom fits hne hnil fun d hd => closes d (List.mem_append_left _ hd))

theorem isTail_of_closesLine {c : Code} (h : Lexed c)
    (closes : ∀ d, .code d ∈ c.pieces → Semicolon.closesLine d = true) :
    ∀ x ∈ c, x.atom.isTail = true := by
  induction c with
  | nil => exact List.forall_mem_nil _
  | cons x c ih =>
      rw [pieces] at closes
      refine List.forall_mem_cons.mpr ⟨?_, ih h.2.2 fun d hd => closes d ?_⟩
      · exact Atom.isTail_of_closesLine h.1 fun d hd => closes d (List.mem_append_left _ hd)
      · exact List.mem_append_right _ (List.mem_append_right _ hd)

/-! Gaps around an added semicolon. -/

/-- No pass makes the gap behind such an atom anew, whatever follows that is no operator, comma or
opening parenthesis. -/
structure Idle (a : Atom) : Prop where
  operator : isOperator a = false
  negation : a.isSymbol '!' = false
  comma : a.isSymbol ',' = false

theorem idle_of_isTail {a : Atom} (h : a.isTail = true) :
    Idle a ∧ a.isSymbol '(' = false ∧ a.opens = false := by
  cases a with
  | literal t => exact ⟨⟨rfl, rfl, rfl⟩, rfl, rfl⟩
  | symbol c =>
      have ne (d : Char) (hd : Semicolon.closesLine d = false) : (c == d) = false := by
        rw [beq_eq_false_iff_ne]
        rintro rfl
        rw [Atom.isTail, hd] at h
        cases h
      refine ⟨⟨rfl, ne '!' rfl, ne ',' rfl⟩, ne '(' rfl, ?_⟩
      rw [Atom.opens, Bracket.isOpening, ne '\x7b' rfl, ne '[' rfl]
      rfl
  | _ => cases h

theorem idle_of_follows {a : Atom} (fits : a.Fits)
    (h : ∀ d, a.pieces.getLast? = some (.code d) → Semicolon.follows d = true) :
    Idle a ∧ a.isBlank = false ∧ a.opens = false := by
  cases a with
  | literal t => exact ⟨⟨rfl, rfl, rfl⟩, rfl, rfl⟩
  | word t => exact ⟨⟨rfl, rfl, rfl⟩, rfl, rfl⟩
  | exponent sign => exact ⟨⟨rfl, rfl, rfl⟩, rfl, rfl⟩
  | operator op =>
      have checked : Operator.all.all (fun op => op.getLast?.all isOperatorChar) = true := by decide
      have here := List.all_eq_true.mp checked op fits
      obtain ⟨c, r, rfl, -⟩ := Operator.of_mem_all fits
      obtain ⟨d, hd⟩ : ∃ d, (c :: r).getLast? = some d := ⟨_, List.getLast?_cons⟩
      have follows := h d (by rw [Atom.pieces, List.getLast?_map, hd]; rfl)
      rw [hd] at here
      rw [Semicolon.follows, show isOperatorChar d = true from here] at follows
      simp at follows
  | symbol d =>
      have follows := h d rfl
      simp only [Semicolon.follows, Bool.and_eq_true, Bool.not_eq_true', bne_iff_ne,
        Indentation.opensGroup, Bool.or_eq_false_iff, beq_eq_false_iff_ne] at follows
      obtain ⟨⟨⟨⟨hblank, hopens⟩, hcomma⟩, hneg⟩, -⟩ := follows
      refine ⟨⟨rfl, ?_, ?_⟩, hblank, ?_⟩
      · exact beq_eq_false_iff_ne.mpr hneg
      · exact beq_eq_false_iff_ne.mpr hcomma
      · rw [Atom.opens, Bracket.isOpening, Bool.or_eq_false_iff, beq_eq_false_iff_ne,
          beq_eq_false_iff_ne]
        exact ⟨hopens.1.1, hopens.2⟩

variable {spaced : Bool} {a y : Atom} {before : List Atom} {gap : Text}

theorem spacedGap_idle (ha : Idle a) (hy : Idle y) (hparen : y.isSymbol '(' = false) :
    spacedGap spaced a before gap (some y) =
      Operator.squeezeGap a before (bracketGap spaced a before gap (some y)) (some y) := by
  have whole : spacedGap spaced a before gap (some y) =
      Comma.respaceGap a before (operatorGap a before (Call.tightenGap a before
        (bracketGap spaced a before gap (some y)) (some y)) (some y)) (some y) := rfl
  have noCall : ∀ name, ¬Call.IsCall a (some y) name := by
    rintro name ⟨-, h⟩
    rw [Option.some.inj h] at hparen
    cases hparen
  have notOperator : (some y).any isOperator = false := hy.operator
  have notComma : (some y).any (Atom.isSymbol ',') = false := hy.comma
  rw [whole, Call.tightenGap_other noCall, operatorGap_plain ha.operator notOperator ha.negation,
    comma_plain ha.comma notComma]

theorem spacedGap_idle_end (ha : Idle a) : spacedGap spaced a before gap none = gap := by
  by_cases hgap : gap = []
  · rw [hgap]
    rfl
  · have tidied (φ : GapChange) : φ.tidied a before gap none = φ a before gap none := by
      simp [GapChange.tidied, hgap]
    simp only [spacedGap, GapChange.after, tidied, bracketGap_end, tightenGap_end,
      operatorGap_end ha.operator ha.negation]
    exact comma_plain ha.comma rfl before gap

/-- A semicolon among atoms that open no bracket does not change what is open. -/
theorem stack_semicolon {u : List Atom} (hu : ∀ a ∈ u, a.opens = false) (v : List Atom) :
    Bracket.stack (u ++ .symbol ';' :: v) = Bracket.stack (u ++ v) := by
  induction u with
  | nil => exact Bracket.stack_cons_of_plain rfl rfl v
  | cons a u ih =>
      obtain ⟨ha, rest⟩ := List.forall_mem_cons.mp hu
      rw [List.cons_append, List.cons_append]
      cases a with
      | symbol c =>
          have notOpening : Bracket.isOpening c = false := ha
          rw [Bracket.stack, Bracket.stack, notOpening, ih rest]
          rfl
      | _ => exact ih rest

/-- The space before a closing bracket is the same behind either atom. -/
theorem bracketGap_congr {b : Atom} {before' : List Atom} (ha : a.opens = false) (hb : b.opens = false)
    (hblank : a.isBlank = b.isBlank)
    (hstack : Bracket.stack (a :: before) = Bracket.stack (b :: before')) :
    bracketGap spaced a before gap (some y) = bracketGap spaced b before' gap (some y) := by
  cases spaced with
  | false => rfl
  | true =>
      have left : Bracket.left (a :: before) gap (some y) = Bracket.left (b :: before') gap (some y) := by
        cases y with
        | symbol c => rw [Bracket.left, Bracket.left, hstack, hblank, ha, hb]
        | _ => rfl
      rw [bracketGap, bracketGap, if_pos rfl, if_pos rfl, Bracket.spaceGap, Bracket.spaceGap,
        Bracket.back_of_not_opens ha, Bracket.back_of_not_opens hb, left]

theorem squeezeGap_congr {b : Atom} {before' : List Atom} {next : Option Atom}
    (hblank : a.isBlank = b.isBlank) :
    Operator.squeezeGap a before gap next = Operator.squeezeGap b before' gap next := by
  cases next with
  | none => rfl
  | some y => simp only [Operator.squeezeGap, Operator.squeezed, hblank]

/-- Behind the semicolon nothing changes. -/
theorem settled_tail {c : Code} (hc : ∀ x ∈ c, x.atom.isTail = true) {u v : List Atom}
    (hu : ∀ a ∈ u, a.opens = false) (h : mapGaps (spacedGap spaced) (u ++ v) c = c) :
    mapGaps (spacedGap spaced) (u ++ .symbol ';' :: v) c = c := by
  induction c generalizing u with
  | nil => rfl
  | cons x c ih =>
      obtain ⟨hx, rest⟩ := List.forall_mem_cons.mp hc
      obtain ⟨here, behind⟩ := mapGaps_eq_iff.mp h
      obtain ⟨idle, -, opens⟩ := idle_of_isTail hx
      have more : ∀ a ∈ x.atom :: u, a.opens = false := List.forall_mem_cons.mpr ⟨opens, hu⟩
      refine mapGaps_eq_iff.mpr ⟨?_, ih rest more behind⟩
      cases c with
      | nil => exact spacedGap_idle_end idle
      | cons y c =>
          obtain ⟨idleY, paren, -⟩ := idle_of_isTail (List.forall_mem_cons.mp rest).1
          have same : bracketGap spaced x.atom (u ++ .symbol ';' :: v) x.gap (some y.atom) =
              bracketGap spaced x.atom (u ++ v) x.gap (some y.atom) :=
            bracketGap_congr opens opens rfl (stack_semicolon more v)
          have here : spacedGap spaced x.atom (u ++ v) x.gap (some y.atom) = x.gap := here
          rw [spacedGap_idle idle idleY paren] at here
          rw [first?, spacedGap_idle idle idleY paren, same, squeezeGap_congr rfl]
          exact here

/-- The gap behind an atom may stand behind a semicolon. -/
theorem settled_semicolon (ha : Idle a) (hblank : a.isBlank = false) (hopens : a.opens = false)
    {next : Option Atom} (hnext : ∀ y, next = some y → y.isTail = true)
    (h : spacedGap spaced a before gap next = gap) :
    spacedGap spaced (.symbol ';') (a :: before) gap next = gap := by
  cases next with
  | none => exact spacedGap_idle_end ⟨rfl, rfl, rfl⟩
  | some y =>
      obtain ⟨idleY, paren, -⟩ := idle_of_isTail (hnext y rfl)
      have idleS : Idle (.symbol ';') := ⟨rfl, rfl, rfl⟩
      have blank : a.isBlank = Atom.isBlank (.symbol ';') := hblank
      have same : bracketGap spaced (.symbol ';') (a :: before) gap (some y) =
          bracketGap spaced a before gap (some y) :=
        bracketGap_congr rfl hopens blank.symm (Bracket.stack_cons_of_plain rfl rfl _)
      rw [spacedGap_idle ha idleY paren] at h
      rw [spacedGap_idle idleS idleY paren, same, ← squeezeGap_congr blank]
      exact h

theorem settled_before_semicolon (ha : Idle a) (hopens : a.opens = false) :
    spacedGap spaced a before [] (some (.symbol ';')) = [] := by
  have bare : bracketGap spaced a before [] (some (.symbol ';')) = [] := by
    cases spaced with
    | false => rfl
    | true =>
        rw [bracketGap, if_pos rfl]
        exact Bracket.spaceGap_eq_self hopens (fun b hb => by rw [← Option.some.inj hb]; rfl) before []
  rw [spacedGap_idle ha ⟨rfl, rfl, rfl⟩ rfl, bare]
  exact squeezeGap_short (by decide) ..

/-! Terminated code. -/

/-- The code as it was, or with a semicolon behind one of its atoms. -/
inductive Terminated (c : Code) : Code → Prop
  | same : Terminated c c
  | added {l : Code} {a : Atom} {g : Text} {r : Code} : c = l ++ ⟨a, g⟩ :: r →
      a.isComment = false → (∀ x ∈ r, x.atom.isTail = true) →
      (∀ d, a.pieces.getLast? = some (.code d) → Semicolon.follows d = true) →
      (Semicolon.terminate? (numbered 0 (Semicolon.bodyCode c.pieces))).isSome →
      Terminated c (l ++ ⟨a, []⟩ :: ⟨.symbol ';', g⟩ :: r)

/-- A semicolon directly behind an atom. -/
theorem joint_before_semicolon (fits : a.Fits) (notExponent : a.isExponent = false)
    (notComment : a.isComment = false) : a.Joint [] (some (.symbol ';')) where
  blank := List.forall_mem_nil _
  apart b hb _ := by
    rw [← Option.some.inj hb]
    exact Atom.apart_symbol fits (by decide) notExponent
  exponent hexponent := by
    rw [notExponent] at hexponent
    cases hexponent
  mantissa _ _ _ := rfl
  comment hcomment := by
    rw [notComment] at hcomment
    cases hcomment

theorem joint_behind_semicolon {g : Text} {next : Option Atom}
    (blank : ∀ d ∈ g, isSpaceOrTab d = true) (tail : ∀ b, next = some b → b.isTail = true) :
    (Atom.symbol ';').Joint g next := by
  have noExponent (b : Atom) (hb : next = some b) : b.isExponent = false := by
    have closes := tail b hb
    cases b with
    | exponent sign => cases closes
    | _ => rfl
  constructor
  case blank => exact blank
  case apart => exact fun b hb _ => ⟨noExponent b hb, fun hc => absurd hc (by decide)⟩
  case exponent => exact fun hexponent => by cases hexponent
  case mantissa =>
    intro b hb hexponent
    rw [noExponent b hb] at hexponent
    cases hexponent
  case comment => exact fun hcomment => by cases hcomment

theorem isTail_first? {r : Code} (hr : ∀ x ∈ r, x.atom.isTail = true) (b : Atom)
    (hb : first? r = some b) : b.isTail = true := by
  cases r with
  | nil => cases hb
  | cons y r => exact Option.some.inj hb ▸ hr y (List.mem_cons_self ..)

section Added

variable {l r : Code} {g : Text} (h : Sound (l ++ ⟨a, g⟩ :: r))
  (hr : ∀ x ∈ r, x.atom.isTail = true)

include h hr

theorem lexed_added (notComment : a.isComment = false) :
    Lexed (l ++ ⟨a, []⟩ :: ⟨.symbol ';', g⟩ :: r) := by
  obtain ⟨fits, joint, rest⟩ := lexed_of_append h.lexed
  have tail := isTail_first? hr
  have notExponent : a.isExponent = false := by
    rw [← Bool.not_eq_true]
    intro hexponent
    obtain ⟨b, hb, hword⟩ := joint.word_behind_exponent hexponent
    have closes := tail b hb
    cases b with
    | word t => cases closes
    | _ => cases hword
  apply lexed_append_congr (x := ⟨a, g⟩) (y := ⟨a, []⟩) rfl h.lexed
  exact ⟨fits, joint_before_semicolon fits notExponent notComment, rfl,
    joint_behind_semicolon joint.blank tail, rest⟩

theorem sound_added (notComment : a.isComment = false) :
    Sound (l ++ ⟨a, []⟩ :: ⟨.symbol ';', g⟩ :: r) := by
  have lexed := lexed_added h hr notComment
  have same : first? (l ++ ⟨a, []⟩ :: ⟨.symbol ';', g⟩ :: r) = first? (l ++ ⟨a, g⟩ :: r) := by
    cases l <;> rfl
  refine ⟨lexed, same ▸ h.start, ?_⟩
  intro d s hd
  have head : (text (l ++ ⟨a, []⟩ :: ⟨.symbol ';', g⟩ :: r)).head? = (text (l ++ ⟨a, g⟩ :: r)).head? := by
    rw [head?_text lexed, head?_text h.lexed, same]
  rw [hd] at head
  obtain ⟨u, hu⟩ := List.head?_eq_some_iff.mp head.symm
  exact h.front d u hu

theorem settled_added (settled : mapGaps (spacedGap spaced) [] (l ++ ⟨a, g⟩ :: r) = l ++ ⟨a, g⟩ :: r)
    (follows : ∀ d, a.pieces.getLast? = some (.code d) → Semicolon.follows d = true) :
    mapGaps (spacedGap spaced) [] (l ++ ⟨a, []⟩ :: ⟨.symbol ';', g⟩ :: r) =
      l ++ ⟨a, []⟩ :: ⟨.symbol ';', g⟩ :: r := by
  obtain ⟨idle, hblank, hopens⟩ := idle_of_follows (lexed_of_append h.lexed).1 follows
  obtain ⟨here, behind⟩ := mapGaps_eq_iff.mp (settled_of_append settled)
  apply settled_append_congr (x := ⟨a, g⟩) (y := ⟨a, []⟩) rfl settled
  refine mapGaps_eq_iff.mpr ⟨settled_before_semicolon idle hopens, mapGaps_eq_iff.mpr ⟨?_, ?_⟩⟩
  · exact settled_semicolon idle hblank hopens (isTail_first? hr) here
  · exact settled_tail hr (u := []) (List.forall_mem_nil _) behind

end Added

theorem pieces_added (l r : Code) (a : Atom) (g : Text) :
    pieces (l ++ ⟨a, []⟩ :: ⟨.symbol ';', g⟩ :: r) =
      l.pieces ++ a.pieces ++ (.code ';' :: (g.map Piece.code ++ r.pieces)) := by
  simp [pieces_append, pieces, Atom.pieces]

theorem text_added (l r : Code) (a : Atom) (g : Text) :
    text (l ++ ⟨a, []⟩ :: ⟨.symbol ';', g⟩ :: r) =
      (l.pieces ++ a.pieces).flatMap Piece.text ++
        ';' :: (g.map Piece.code ++ r.pieces).flatMap Piece.text := by
  simp [text_append, text, flatMap_text_pieces, Atom.flatMap_text_pieces, Atom.text,
    flatMap_text_map_code]

/-- An atom behind which there is a comment at most is none itself, if it is not the last one. -/
theorem not_isComment_of_atEnd {l r : Code} {g : Text} (h : Lexed (l ++ ⟨a, g⟩ :: r))
    (atEnd : g.map Piece.code ++ r.pieces = [] →
      ∀ qs t, pieces (l ++ ⟨a, g⟩ :: r) = qs ++ [.literal t] → ¬ "//".toList.isPrefixOf t = true) :
    a.isComment = false := by
  rw [← Bool.not_eq_true]
  intro hcomment
  obtain ⟨hgap, hnext⟩ := (lexed_of_append h).2.1.comment hcomment
  cases r with
  | cons y r => cases hnext
  | nil =>
      cases a with
      | literal t =>
          refine atEnd (by rw [show g = [] from hgap]; rfl) l.pieces t ?_ hcomment
          rw [pieces_append, show g = [] from hgap]
          rfl
      | _ => cases hcomment

/-- Where the semicolon goes: behind an atom of which the rest of the line is the tail. -/
theorem exists_place {c : Code} (h : Sound c) {u : Text} (hskip : Semicolon.skips c.text = false)
    (hu : Semicolon.terminate? (numbered 0 (Semicolon.bodyCode c.pieces)) = some u)
    (place : ∀ front back, c.text = front ++ back →
      Semicolon.terminateLine c.text = .ok (front ++ ';' :: back) →
      ∀ d, front.getLast? = some d → Semicolon.follows d = true) :
    ∃ (l : Code) (a : Atom) (g : Text) (r : Code) (b : Text) (rest : List Piece),
      c = l ++ ⟨a, g⟩ :: r ∧ a.isComment = false ∧ (∀ x ∈ r, x.atom.isTail = true) ∧
      (∀ d, a.pieces.getLast? = some (.code d) → Semicolon.follows d = true) ∧
      u = numbered 0 (l.pieces ++ a.pieces) ++ ';' :: b ∧
      g.map Piece.code ++ r.pieces = b.map Piece.code ++ rest ∧ Semicolon.Tail rest ∧
      Semicolon.terminateLine c.text = .ok (text (l ++ ⟨a, []⟩ :: ⟨.symbol ';', g⟩ :: r)) := by
  have read := pieces_text h.lexed
  obtain ⟨as, b, rest, hpieces, hcode, rfl, parted, tail, atEnd, hrun⟩ :=
    Semicolon.terminateLine_of_some h.front (onLine h.lexed).1 (read ▸ unmarked h.lexed) hskip
      (by rw [read, hu])
  rw [read] at hpieces hcode atEnd
  have whole : c.text = as.flatMap Piece.text ++ (b ++ rest.flatMap Piece.text) := by
    have parts := flatMap_text_pieces c
    rw [hpieces] at parts
    simpa [flatMap_text_map_code] using parts.symm
  have follows (d : Char) (hd : as.getLast? = some (.code d)) : Semicolon.follows d = true := by
    obtain ⟨as', rfl⟩ := List.getLast?_eq_some_iff.mp hd
    apply place _ _ whole hrun
    rw [List.flatMap_append]
    exact List.getLast?_concat
  have notBlank (d : Char) (hd : as.getLast? = some (.code d)) : isBlank d = false := by
    have here := follows d hd
    simp only [Semicolon.follows, Bool.and_eq_true, Bool.not_eq_true'] at here
    exact here.1.1.1.1
  have nonempty : as ≠ [] := by
    rintro rfl
    rw [hcode, List.nil_append, numbered_map_code] at hu
    exact Semicolon.not_terminate?_front parted.closes hu
  have closes : ∀ d, .code d ∈ b.map Piece.code ++ rest → Semicolon.closesLine d = true := by
    intro d hd
    rcases List.mem_append.mp hd with hd | hd
    · obtain ⟨e, he, hed⟩ := List.mem_map.mp hd
      exact Piece.code.inj hed ▸ parted.closes e he
    · exact tail.closesLine d hd
  obtain ⟨l, a, g, r, rfl, rfl, hrest⟩ := exists_cut h.lexed hpieces nonempty notBlank closes
  refine ⟨l, a, g, r, b, rest, rfl, ?_, ?_, ?_, rfl, hrest.symm, tail, ?_⟩
  · refine not_isComment_of_atEnd h.lexed fun none => atEnd ?_
    rw [← hrest] at none
    exact (List.append_eq_nil_iff.mp none).2
  · exact isTail_of_closesLine (lexed_of_append h.lexed).2.2 fun d hd =>
      closes d (hrest ▸ List.mem_append_right _ hd)
  · intro d hd
    apply follows d
    rw [List.getLast?_append, hd]
    rfl
  · have ends : (b.map Piece.code ++ rest).flatMap Piece.text = b ++ rest.flatMap Piece.text := by
      rw [List.flatMap_append, flatMap_text_map_code]
    rw [text_added, ← hrest, ends, hrun]

/-- The semicolon pass on the body of a spaced line: it does not fail, its result is spaced as
well, and it takes no other semicolon. -/
theorem exists_terminated {c : Code} (h : Sound c)
    (settled : mapGaps (spacedGap spaced) [] c = c)
    (place : ∀ front back, c.text = front ++ back →
      Semicolon.terminateLine c.text = .ok (front ++ ';' :: back) →
      ∀ d, front.getLast? = some d → Semicolon.follows d = true) :
    ∃ d, Terminated c d ∧ Semicolon.terminateLine c.text = .ok d.text ∧
      Semicolon.terminateLine d.text = .ok d.text ∧ Sound d ∧
      mapGaps (spacedGap spaced) [] d = d := by
  have read := pieces_text h.lexed
  cases hskip : Semicolon.skips c.text with
  | true =>
      have same := Semicolon.terminateLine_of_skips h.front hskip
      exact ⟨c, .same, same, same, h, settled⟩
  | false =>
      cases hu : Semicolon.terminate? (numbered 0 (Semicolon.bodyCode c.pieces)) with
      | none =>
          have same := Semicolon.terminateLine_of_none h.front (onLine h.lexed).1
            (read ▸ unmarked h.lexed) (by rw [read, hu])
          exact ⟨c, .same, same, same, h, settled⟩
      | some u =>
          obtain ⟨l, a, g, r, b, rest, rfl, notComment, behind, last, rfl, hrest, tail, made⟩ :=
            exists_place h hskip hu place
          have sound := sound_added h behind notComment
          have again := pieces_text sound.lexed
          refine ⟨_, .added rfl notComment behind last (by rw [hu]; rfl), made, ?_, sound,
            settled_added h behind settled last⟩
          refine Semicolon.terminateLine_terminated (onLine sound.lexed).1 sound.front
            (again ▸ unmarked sound.lexed) ?_ tail hu
          rw [again, pieces_added, hrest]
          rfl

end Code
end MotionExpr
