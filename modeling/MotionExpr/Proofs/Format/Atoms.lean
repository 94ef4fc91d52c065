import Mathlib.Data.List.Infix
import MotionExpr.Proofs.Format.Spacing
import MotionExpr.Proofs.Token.Literals

/-!
Code as atoms with gaps behind them. An atom is an operator, a word, the sign of an
exponent, any other single character, or a literal; a gap is spaces and tabs. The passes
that space code change gaps only, so what they do is told by the atoms around a gap. Where
no gap is needed to keep two atoms apart, the text of the code falls into the same atoms
again, whatever its gaps are.
-/

namespace MotionExpr

open Literal

namespace Text

/-- Characters of names and numbers. -/
def isWordPart (c : Char) : Bool := isWordChar c || isDigit c || c == '$' || c == '.'

def isOperatorChar (c : Char) : Bool := "+-*/%=<>&|^".toList.contains c

/-- Any other character that is code by itself. -/
def isLone (c : Char) : Bool :=
  !isWordPart c && !isOperatorChar c && !isSpaceOrTab c && !Token.isQuote c && c != mark &&
    c != '\n' && c != '\r'

/-- All blanks by their numbers. -/
def blanks : List Nat :=
  [0x9, 0xA, 0xB, 0xC, 0xD, 0x1C, 0x1D, 0x1E, 0x1F, 0x20, 0x85, 0xA0, 0x1680, 0x2000, 0x2001,
    0x2002, 0x2003, 0x2004, 0x2005, 0x2006, 0x2007, 0x2008, 0x2009, 0x200A, 0x2028, 0x2029,
    0x202F, 0x205F, 0x3000]

theorem toNat_mem_blanks {c : Char} (h : isBlank c = true) : c.toNat ∈ blanks := by
  simp only [isBlank, wideBlanks, inRanges, List.any_cons, List.any_nil, Bool.or_eq_true,
    Bool.and_eq_true, beq_iff_eq, decide_eq_true_eq, Bool.or_false] at h
  simp only [blanks, List.mem_cons, List.not_mem_nil, or_false]
  omega

theorem isWordPart_of_isBlank {c : Char} (h : isBlank c = true) : isWordPart c = false := by
  have checked : (blanks.all fun n => !isWordPart (Char.ofNat n)) = true := by decide +kernel
  have here := List.all_eq_true.mp checked c.toNat (toNat_mem_blanks h)
  rwa [Char.ofNat_toNat, Bool.not_eq_true'] at here

theorem isBlank_of_isWordPart {c : Char} (h : isWordPart c = true) : isBlank c = false := by
  rw [← Bool.not_eq_true]
  intro hblank
  rw [isWordPart_of_isBlank hblank] at h
  cases h

theorem plain_of_isWordPart {c : Char} (h : isWordPart c = true) :
    isOperatorChar c = false ∧ Token.isQuote c = false ∧ c ≠ '/' ∧ c ≠ mark ∧ c ≠ '!' := by
  have ne (d : Char) (hd : isWordPart d = false) : c ≠ d := by
    rintro rfl
    rw [hd] at h
    cases h
  have checked : ("+-*/%=<>&|^".toList.all fun d => !isWordPart d) = true := by decide
  refine ⟨?_, ?_, ne _ (by decide), ne _ (by decide), ne _ (by decide)⟩
  · rw [← Bool.not_eq_true, isOperatorChar, List.contains_iff_mem]
    intro hm
    exact ne c (by simpa using List.all_eq_true.mp checked c hm) rfl
  · rw [Token.isQuote, Bool.or_eq_false_iff, beq_eq_false_iff_ne, beq_eq_false_iff_ne]
    exact ⟨ne _ (by decide), ne _ (by decide)⟩

end Text

open Text

/-! The table of operators. -/

namespace Operator

/-- An operator begins with one of their characters, or with a negation of an equality. -/
theorem of_mem_all {op : Text} (h : op ∈ all) :
    ∃ c r, op = c :: r ∧ (∀ d ∈ r, isOperatorChar d = true) ∧
      (isOperatorChar c = true ∨ c = '!' ∧ r.head? = some '=') := by
  have checked : all.all (fun op => op.head?.any fun c => op.tail.all isOperatorChar &&
      (isOperatorChar c || c == '!' && op.tail.head? == some '=')) = true := by decide
  have here := List.all_eq_true.mp checked op h
  cases op with
  | nil => cases here
  | cons c r => exact ⟨c, r, rfl, by simpa using here⟩

/-- A negation begins an operator that holds it, and an equality sign follows. -/
theorem equality_of_negation {op u v : Text} (hop : op ∈ all) (h : op = u ++ '!' :: v) :
    v.head? = some '=' := by
  obtain ⟨c, r, rfl, tail, first⟩ := of_mem_all hop
  cases u with
  | nil =>
      obtain ⟨rfl, rfl⟩ := List.cons_eq_cons.mp h
      rcases first with operator | ⟨-, equality⟩
      · cases operator
      · exact equality
  | cons d u =>
      have inside : '!' ∈ r := (List.cons_eq_cons.mp h).2 ▸ List.mem_append_right u (List.mem_cons_self ..)
      cases tail '!' inside

theorem extend_not_mem_all {op : Text} (hop : op ≠ []) {c : Char} (hc : isOperatorChar c = false) :
    op ++ [c] ∉ all := by
  intro hm
  obtain ⟨d, r, heq, tail, -⟩ := of_mem_all hm
  obtain ⟨e, s, rfl⟩ := List.exists_cons_of_ne_nil hop
  have hr : s ++ [c] = r := (List.cons_eq_cons.mp heq).2
  have here := tail c (hr ▸ List.mem_append_right s (List.mem_singleton_self c))
  rw [hc] at here
  cases here

theorem operator?_eq_none {c : Char} {r : Text} (hc : isOperatorChar c = false)
    (negation : c = '!' → r.head? ≠ some '=') : operator? (c :: r) = none := by
  cases h : operator? (c :: r) with
  | none => rfl
  | some op =>
      obtain ⟨hop, rest, hrest⟩ := of_operator? h
      obtain ⟨d, s, rfl, -, hd | ⟨rfl, heq⟩⟩ := of_mem_all hop
      · rw [← (List.cons_eq_cons.mp hrest).1, hc] at hd
        cases hd
      · obtain ⟨rfl, rfl⟩ := List.cons_eq_cons.mp hrest
        obtain ⟨u, rfl⟩ := List.head?_eq_some_iff.mp heq
        exact absurd rfl (negation rfl)

/-- No operator is a beginning of one further down the table. -/
theorem pairwise_all : all.Pairwise fun a b => ¬ a <+: b := by decide

theorem mem_all_of_isPrefix {a b : Text} (hb : b ∈ all) (hab : a <+: b) (ha : 2 ≤ a.length) :
    a ∈ all := by
  have checked : all.all (fun b => b.inits.all fun a => decide (a.length < 2) || all.contains a) =
      true := by decide +kernel
  have here := List.all_eq_true.mp (List.all_eq_true.mp checked b hb) a ((List.mem_inits a b).mpr hab)
  rw [Bool.or_eq_true, decide_eq_true_iff, List.contains_iff_mem] at here
  exact here.resolve_left (by omega)

/-- An operator that the next character does not make longer is the one that is read. -/
theorem operator?_append {op rest : Text} (hop : op ∈ all)
    (next : ∀ c, rest.head? = some c → op ++ [c] ∉ all) : operator? (op ++ rest) = some op := by
  obtain ⟨before, behind, hall⟩ := List.append_of_mem hop
  rw [operator?, List.find?_eq_some_iff_append]
  refine ⟨List.isPrefixOf_iff_prefix.mpr (List.prefix_append op rest), before, behind, hall, ?_⟩
  intro other hother
  have earlier : ¬ other <+: op := by
    have sorted := pairwise_all
    rw [hall, List.pairwise_append] at sorted
    exact sorted.2.2 other hother op (List.mem_cons_self ..)
  rw [Bool.not_eq_true', ← Bool.not_eq_true, List.isPrefixOf_iff_prefix]
  intro found
  have longer : op <+: other := by
    rcases List.prefix_or_prefix_of_prefix found (List.prefix_append op rest) with h | h
    · exact absurd h earlier
    · exact h
  obtain ⟨more, rfl⟩ := longer
  cases more with
  | nil => exact earlier (by simp)
  | cons c more =>
      have first : rest.head? = some c := by
        obtain ⟨tail, htail⟩ := (List.prefix_append_right_inj op).mp found
        rw [← htail]
        rfl
      obtain ⟨d, r, rfl, -, -⟩ := of_mem_all hop
      refine next c first (mem_all_of_isPrefix (hall ▸ List.mem_append_left _ hother) ?_ ?_)
      · exact (List.prefix_append_right_inj _).mpr ⟨more, rfl⟩
      · simp

theorem extend_not_mem_of_operator? {op rest : Text} (h : operator? (op ++ rest) = some op) {c : Char}
    (hc : rest.head? = some c) : op ++ [c] ∉ all := by
  intro hm
  obtain ⟨-, before, behind, hall, earlier⟩ := List.find?_eq_some_iff_append.mp h
  have longer : (op ++ [c]).isPrefixOf (op ++ rest) = true := by
    obtain ⟨tail, rfl⟩ := List.head?_eq_some_iff.mp hc
    rw [List.isPrefixOf_iff_prefix]
    exact (List.prefix_append_right_inj op).mpr ⟨tail, rfl⟩
  rw [hall, List.mem_append] at hm
  rcases hm with hm | hm
  · have here := earlier _ hm
    rw [longer] at here
    cases here
  · have sorted := pairwise_all
    rw [hall, List.pairwise_append, List.pairwise_cons] at sorted
    rcases List.mem_cons.mp hm with heq | hm
    · simp at heq
    · exact sorted.2.1.1 _ hm (List.prefix_append op [c])

end Operator

namespace Literal

/-- A literal that is no comment ends in a quote. -/
theorem concat_of_pieces_eq_literal {t : Text} (h : Literal.pieces t = [.literal t])
    (notComment : "//".toList.isPrefixOf t = false) :
    ∃ x q, t = x ++ [q] ∧ Token.isQuote q = true := by
  obtain ⟨c, r, rfl, hl⟩ := length?_of_pieces_eq_literal h
  rw [length?, notComment, if_neg Bool.false_ne_true] at hl
  split at hl
  · next hq =>
      obtain ⟨m, hm, whole⟩ := Option.map_eq_some_iff.mp hl
      obtain ⟨inner, rest, rfl, rfl⟩ := of_closing? hm
      have none : rest = [] := by simpa using whole
      refine ⟨c :: inner, c, by rw [none]; rfl, ?_⟩
      simpa [Token.isQuote, or_comm] using hq
  · cases hl

end Literal

/-! Atoms. -/

inductive Atom where
  | operator (op : Text)
  | word (t : Text)
  | exponent (sign : Char)
  | symbol (c : Char)
  | literal (t : Text)

namespace Atom

def pieces : Atom → List Piece
  | operator t | word t => t.map Piece.code
  | exponent c | symbol c => [.code c]
  | literal t => [.literal t]

def text : Atom → Text
  | operator t | word t | literal t => t
  | exponent c | symbol c => [c]

def isWord : Atom → Bool
  | word _ => true
  | _ => false

def isExponent : Atom → Bool
  | exponent _ => true
  | _ => false

/-- A plus or minus that stands for an operator of its own. -/
def isSign : Atom → Bool
  | operator op => Operator.isSign op
  | _ => false

def isComment : Atom → Bool
  | literal t => "//".toList.isPrefixOf t
  | _ => false

/-- Whether the text is one that the kind of the atom can have. -/
def Fits : Atom → Prop
  | operator op => op ∈ Operator.all
  | word t => t ≠ [] ∧ ∀ c ∈ t, isWordPart c = true
  | exponent c => Operator.isSign [c] = true
  | symbol c => isLone c = true
  | literal t => Literal.pieces t = [.literal t] ∧ '\n' ∉ t ∧ '\r' ∉ t

/-- Whether `b` directly behind `a` is read as an atom of its own. -/
def Apart (a b : Atom) : Prop :=
  match a with
  | operator op => b.isExponent = false ∧
      ∀ c, b.text.head? = some c → op ++ [c] ∉ Operator.all ∧ (op = ['/'] → c ≠ '/')
  | word t => b.isWord = false ∧
      if Operator.behindExponentMark t.reverse then b.isSign = false else b.isExponent = false
  | exponent _ => b.isWord = true
  | symbol c => b.isExponent = false ∧ (c = '!' → b.text.head? ≠ some '=')
  | literal _ => b.isExponent = false

/-- Whether the gap behind `a` may be as it is. A negation is kept apart by no gap: it loses
the gap behind it. -/
structure Joint (a : Atom) (gap : Text) (next : Option Atom) : Prop where
  blank : ∀ c ∈ gap, isSpaceOrTab c = true
  apart : ∀ b, next = some b → gap = [] ∨ a = .symbol '!' → Apart a b
  exponent : a.isExponent = true → gap = [] ∧ next.isSome
  mantissa : ∀ b, next = some b → b.isExponent = true → gap = []
  comment : a.isComment = true → gap = [] ∧ next = none

theorem flatMap_text_pieces (a : Atom) : a.pieces.flatMap Piece.text = a.text := by
  cases a with
  | operator t | word t => exact flatMap_text_map_code t
  | exponent c | symbol c => rfl
  | literal t => exact List.append_nil t

theorem text_ne_nil {a : Atom} (h : a.Fits) : a.text ≠ [] := by
  cases a with
  | operator op =>
      obtain ⟨c, r, rfl, -, -⟩ := Operator.of_mem_all h
      exact List.cons_ne_nil c r
  | word t => exact h.1
  | exponent c | symbol c => exact List.cons_ne_nil c []
  | literal t =>
      rintro rfl
      cases h.1

theorem pieces_operator_append {op rest : Text} (hop : op ∈ Operator.all)
    (next : op = ['/'] → rest.head? ≠ some '/') :
    Literal.pieces (op ++ rest) = op.map Piece.code ++ Literal.pieces rest := by
  have checked : Operator.all.all (fun op =>
      op == ['/'] || op == ['/', '='] || op.all fun c => !Token.isQuote c && c != '/') = true := by
    decide
  have here := List.all_eq_true.mp checked op hop
  simp only [Bool.or_eq_true, beq_iff_eq] at here
  have slash {r : Text} (hr : r.head? ≠ some '/') :
      Literal.pieces ('/' :: r) = .code '/' :: Literal.pieces r := by
    rw [pieces_cons, length?_none_of_plain rfl]
    rw [← Bool.not_eq_true]
    intro hcomment
    obtain ⟨-, s, rfl⟩ := (startsComment_iff '/' r).mp hcomment
    exact hr rfl
  rcases here with (rfl | rfl) | plain
  · exact slash (next rfl)
  · rw [List.cons_append, slash (by simp), List.singleton_append, pieces_cons,
      length?_none_of_plain rfl (Token.startsComment_of_ne (by decide) rest)]
    rfl
  · apply pieces_plain_append
    intro c hc
    simpa using List.all_eq_true.mp plain c hc

/-- A literal is one piece whatever stands behind it, or nothing does if it is a comment. -/
theorem pieces_literal_append {t rest : Text} (h : Literal.pieces t = [.literal t])
    (last : "//".toList.isPrefixOf t = true → rest = []) :
    Literal.pieces (t ++ rest) = .literal t :: Literal.pieces rest := by
  obtain ⟨c, r, rfl, hl⟩ := length?_of_pieces_eq_literal h
  by_cases hcomment : "//".toList.isPrefixOf (c :: r) = true
  · rw [last hcomment, List.append_nil, h]
    rfl
  · refine pieces_of_length? ?_
    have notComment : ¬ "//".toList.isPrefixOf (c :: (r ++ rest)) = true := by
      intro hc
      obtain ⟨rfl, s, hs⟩ := (startsComment_iff c _).mp hc
      rw [length?, if_neg hcomment, if_neg (by decide)] at hl
      cases hl
    rw [length?, if_neg hcomment] at hl
    rw [length?, if_neg notComment]
    split at hl
    · next hq =>
        obtain ⟨m, hm, len⟩ := Option.map_eq_some_iff.mp hl
        rw [if_pos hq, closing?_append_of_some hm]
        exact congrArg some len
    · cases hl

theorem not_isQuote_of_isLone {c : Char} (h : isLone c = true) :
    Token.isQuote c = false ∧ c ≠ '/' := by
  simp only [isLone, Bool.and_eq_true, Bool.not_eq_true', bne_iff_ne] at h
  refine ⟨h.1.1.1.2, ?_⟩
  rintro rfl
  exact absurd h.1.1.1.1.1.2 (by decide)

/-- Cut behind an atom, code falls into the pieces of both parts. -/
theorem pieces_append {a : Atom} {rest : Text} (h : a.Fits)
    (slash : a = .operator ['/'] → rest.head? ≠ some '/') (last : a.isComment = true → rest = []) :
    Literal.pieces (a.text ++ rest) = a.pieces ++ Literal.pieces rest := by
  cases a with
  | operator op => exact pieces_operator_append h fun hop => slash (congrArg _ hop)
  | word t =>
      apply pieces_plain_append
      intro c hc
      obtain ⟨-, hquote, hslash, -⟩ := plain_of_isWordPart (h.2 c hc)
      exact ⟨hquote, hslash⟩
  | exponent c =>
      have sign : c = '+' ∨ c = '-' := by simpa [Fits, Operator.isSign] using h
      apply pieces_plain_append (w := [c])
      rw [List.forall_mem_singleton]
      rcases sign with rfl | rfl <;> decide
  | symbol c =>
      apply pieces_plain_append (w := [c])
      rw [List.forall_mem_singleton]
      exact not_isQuote_of_isLone h
  | literal t => exact pieces_literal_append h.1 last

end Atom

/-! Code. -/

structure Cell where
  atom : Atom
  gap : Text

/-- Atoms, each with the gap behind it. -/
abbrev Code := List Cell

namespace Code

def first? : Code → Option Atom
  | [] => none
  | x :: _ => some x.atom

def pieces : Code → List Piece
  | [] => []
  | x :: c => x.atom.pieces ++ (x.gap.map Piece.code ++ pieces c)

def text : Code → Text
  | [] => []
  | x :: c => x.atom.text ++ (x.gap ++ text c)

/-- The atoms are those that the text is read as. -/
def Lexed : Code → Prop
  | [] => True
  | x :: c => x.atom.Fits ∧ x.atom.Joint x.gap (first? c) ∧ Lexed c

theorem flatMap_text_pieces (c : Code) : c.pieces.flatMap Piece.text = c.text := by
  induction c with
  | nil => rfl
  | cons x c ih =>
      rw [pieces, List.flatMap_append, List.flatMap_append, Atom.flatMap_text_pieces,
        flatMap_text_map_code, ih]
      rfl

theorem head?_text {c : Code} (h : Lexed c) :
    (text c).head? = (first? c).bind fun a => a.text.head? := by
  cases c with
  | nil => rfl
  | cons x c =>
      obtain ⟨d, r, hd⟩ := List.exists_cons_of_ne_nil (Atom.text_ne_nil h.1)
      rw [text, first?, Option.bind_some, hd]
      rfl

theorem pieces_text {c : Code} (h : Lexed c) : Literal.pieces c.text = c.pieces := by
  induction c with
  | nil => rfl
  | cons x c ih =>
      obtain ⟨fits, joint, rest⟩ := h
      have blanks : ∀ d ∈ x.gap, isBlank d = true :=
        fun d hd => isBlank_of_isSpaceOrTab (joint.blank d hd)
      rw [text, Atom.pieces_append fits, pieces_blanks_append blanks, ih rest, pieces]
      · intro hslash
        cases hg : x.gap with
        | nil =>
            rw [List.nil_append, head?_text rest]
            cases hnext : first? c with
            | none => simp
            | some b =>
                have apart := joint.apart b hnext (.inl hg)
                rw [hslash] at apart
                intro hhead
                exact (apart.2 '/' hhead).2 rfl rfl
        | cons d g =>
            have blank := joint.blank d (hg ▸ List.mem_cons_self ..)
            rw [List.cons_append, List.head?_cons]
            intro hd
            rw [Option.some.inj hd] at blank
            exact absurd blank (by decide)
      · intro hcomment
        obtain ⟨hgap, hlast⟩ := joint.comment hcomment
        cases c with
        | nil => rw [hgap]; rfl
        | cons y c => cases hlast

end Code
end MotionExpr
