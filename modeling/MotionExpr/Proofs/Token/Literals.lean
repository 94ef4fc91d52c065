import MotionExpr.Proofs.Format.Lines
import MotionExpr.Proofs.Format.Masking
import MotionExpr.Proofs.Token.Order
import MotionExpr.Proofs.Token.Strings

/-!
Masking and scanning agree on what a literal is. A string that is closed, or a
comment, is one piece of its line; any other token is code, character by
character, because no literal begins within it. Nothing is claimed of lines with
a string that is not closed: there the quote is code for masking.
-/

namespace MotionExpr
namespace Token

def isLiteral (kind : TokenKind) : Bool := kind == .string || kind == .comment

def literalTokens (tokens : List Token) : List Token := tokens.filter fun t => isLiteral t.kind

/-- The rest of a line behind a column, with numbered placeholders for tokens of it. -/
def placeholdersFrom (line : Text) : (n : Nat) → (column : Int) → List Token → Text
  | _, column, [] => line.drop (column - 1).toNat
  | n, column, t :: ts =>
      (line.take (t.column - 1).toNat).drop (column - 1).toNat ++ Literal.placeholder n ++
        placeholdersFrom line (n + 1) t.endColumn ts

/-- A line with the tokens replaced by placeholders, numbered from zero. -/
def withPlaceholders (line : Text) (tokens : List Token) : Text :=
  placeholdersFrom line 0 1 tokens

end Token

namespace Literal

open Token

variable {p : Profile}

/-! The pieces of one token. -/

theorem closing?_multiline {quote : Char} {escaped : Bool} {t : Text} (h : '\n' ∉ t) :
    closing? quote true escaped t = closing? quote false escaped t := by
  induction t generalizing escaped with
  | nil => cases escaped <;> rfl
  | cons c r ih =>
      have hc : c ≠ '\n' := fun e => h (by simp [e])
      have rest (e : Bool) : closing? quote true e r = closing? quote false e r :=
        ih fun hm => h (List.mem_cons_of_mem _ hm)
      cases escaped with
      | true => simp only [closing?, rest]
      | false => simp only [closing?, hc, rest, decide_false, Bool.false_and]

theorem isQuote_iff (c : Char) : isQuote c = true ↔ c = '"' ∨ c = '\'' := by
  simp only [isQuote, Bool.or_eq_true, beq_iff_eq]
  exact or_comm

theorem length?_none_of_plain {c : Char} {r : Text} (hc : isQuote c = false)
    (hcomment : startsComment (c :: r) = false) : length? c r = none := by
  have notQuote : ¬(c = '"' ∨ c = '\'') := by
    rw [← isQuote_iff, hc]
    exact Bool.false_ne_true
  have notComment : ¬"//".toList.isPrefixOf (c :: r) = true := by
    rw [Bool.not_eq_true]
    exact hcomment
  rw [length?, if_neg notComment, if_neg (by simpa using notQuote)]

theorem pieces_plain_append {w : Text} (h : ∀ c ∈ w, isQuote c = false ∧ c ≠ '/') (r : Text) :
    pieces (w ++ r) = w.map Piece.code ++ pieces r := by
  induction w with
  | nil => rfl
  | cons c w ih =>
      obtain ⟨hc, hw⟩ := List.forall_mem_cons.mp h
      rw [List.cons_append, pieces_cons,
        length?_none_of_plain hc.1 (startsComment_of_ne hc.2 _), ih hw]
      rfl

/-- Behind its first character a token that is no literal has no quotes and no slashes. -/
theorem plain_of_lexeme? {c : Char} {w behind : Text} {kind : TokenKind}
    (h : lexeme? p c (w ++ behind) = some (kind, c :: w)) (hkind : isLiteral kind = false) :
    isQuote c = false ∧ startsComment (c :: (w ++ behind)) = false ∧
      ∀ d ∈ w, isQuote d = false ∧ d ≠ '/' := by
  have number (d : Char) (hd : continuesNumber d = true) : isQuote d = false ∧ d ≠ '/' := by
    simp only [continuesNumber, Bool.or_eq_true, beq_iff_eq] at hd
    rcases hd with hd | rfl
    · exact (plain_of_isAsciiDigit hd).2
    · decide
  have word (d : Char) (hd : continuesWord d = true) : isQuote d = false ∧ d ≠ '/' := by
    simp only [continuesWord, Bool.or_eq_true] at hd
    rcases hd with hd | hd
    · obtain ⟨-, hquote, -, hslash⟩ := plain_of_startsWord hd
      exact ⟨hquote, hslash⟩
    · exact (plain_of_isAsciiDigit hd).2
  have taken {q : Char → Bool} {r : Text} (hr : w = r.takeWhile q) (d : Char) (hd : d ∈ w) :
      q d = true := List.all_eq_true.mp List.all_takeWhile d (hr ▸ hd)
  obtain ⟨text, htext⟩ : ∃ text, text = c :: w := ⟨_, rfl⟩
  rw [← htext] at h
  cases shape_of_lexeme? h with
  | comment _ => cases hkind
  | string _ => cases hkind
  | number hdigit =>
      obtain ⟨-, hw⟩ := List.cons_eq_cons.mp htext
      obtain ⟨-, hquote, hslash⟩ := plain_of_isAsciiDigit hdigit
      exact ⟨hquote, startsComment_of_ne hslash _, fun d hd => number d (taken hw.symm d hd)⟩
  | word hstart =>
      obtain ⟨-, hw⟩ := List.cons_eq_cons.mp htext
      obtain ⟨-, hquote, -, hslash⟩ := plain_of_startsWord hstart
      exact ⟨hquote, startsComment_of_ne hslash _, fun d hd => word d (taken hw.symm d hd)⟩
  | operator hsymbol hcomment hop =>
      have checked : (Language.pairOperators.all fun op =>
          op.tail.all fun d => !isQuote d && d != '/') = true := by decide
      have member : c :: w ∈ Language.pairOperators := htext ▸ List.mem_of_find?_eq_some hop
      have tail := List.all_eq_true.mp checked _ member
      have symbol : isQuote c = false := by
        simp only [isSymbol, Bool.and_eq_true, Bool.not_eq_true'] at hsymbol
        exact hsymbol.1.1.2
      refine ⟨symbol, hcomment, fun d hd => ?_⟩
      simpa using List.all_eq_true.mp tail d hd
  | punctuation hsymbol hcomment _ =>
      obtain ⟨-, rfl⟩ := List.cons_eq_cons.mp htext
      have symbol : isQuote c = false := by
        simp only [isSymbol, Bool.and_eq_true, Bool.not_eq_true'] at hsymbol
        exact hsymbol.1.1.2
      exact ⟨symbol, hcomment, by simp⟩

theorem isLiteral_classify (word : Text) : isLiteral (classify p word) = false := by
  simp only [classify]
  split
  · rfl
  · split
    · rfl
    · split <;> rfl

/-- A literal is a string or a comment, which takes the rest of the line. -/
theorem of_lexeme?_literal {c : Char} {r text : Text} {kind : TokenKind}
    (h : lexeme? p c r = some (kind, text)) (hkind : isLiteral kind = true) :
    (kind = .string ∧ isQuote c = true) ∨ (startsComment (c :: r) = true ∧ text = c :: r) := by
  cases shape_of_lexeme? h with
  | comment hcomment => exact .inr ⟨hcomment, rfl⟩
  | string hquote => exact .inl ⟨rfl, hquote⟩
  | number _ => cases hkind
  | word _ =>
      rw [isLiteral_classify] at hkind
      cases hkind
  | operator _ _ _ => cases hkind
  | punctuation _ _ _ => cases hkind

/-- What a token is among the pieces of its line. -/
def tokenPieces (kind : TokenKind) (text : Text) : List Piece :=
  if isLiteral kind then [.literal text] else text.map Piece.code

theorem pieces_of_closing? {q : Char} (hq : isQuote q = true) {inner : Text}
    (h : closing? q false false (inner ++ [q]) = some (inner.length + 1)) {rest : Text}
    (hn : '\n' ∉ inner ++ q :: rest) :
    pieces (q :: (inner ++ q :: rest)) = .literal (q :: inner ++ [q]) :: pieces rest := by
  have whole : inner ++ q :: rest = inner ++ [q] ++ rest := by simp
  rw [whole] at hn ⊢
  refine pieces_of_length? ?_
  have notComment : ¬"//".toList.isPrefixOf (q :: (inner ++ [q] ++ rest)) = true :=
    Bool.eq_false_iff.mp (startsComment_of_ne (plain_of_isQuote hq).2 _)
  rw [length?, if_neg notComment, if_pos (by simpa using (isQuote_iff q).mp hq),
    closing?_multiline hn, closing?_append_of_some h]
  simp

/-- A token goes to the pieces of its line whole or character by character. -/
theorem pieces_token {c : Char} {w behind : Text} {kind : TokenKind}
    (h : lexeme? p c (w ++ behind) = some (kind, c :: w)) (hn : '\n' ∉ c :: (w ++ behind))
    (hclosed : kind = .string → isClosed (c :: w) = true) :
    pieces (c :: (w ++ behind)) = tokenPieces kind (c :: w) ++ pieces behind := by
  cases hkind : isLiteral kind with
  | false =>
      obtain ⟨hquote, hcomment, hw⟩ := plain_of_lexeme? h hkind
      rw [tokenPieces, hkind, pieces_cons, length?_none_of_plain hquote hcomment,
        pieces_plain_append hw]
      rfl
  | true =>
      rw [tokenPieces, hkind]
      rcases of_lexeme?_literal h hkind with ⟨rfl, hq⟩ | ⟨hcomment, htext⟩
      · obtain ⟨q, inner, htext, hends⟩ := of_isClosed (hclosed rfl)
        obtain ⟨rfl, hw⟩ : c = q ∧ w = inner ++ [q] := List.cons_eq_cons.mp htext
        rw [hw, List.append_assoc, List.singleton_append] at hn ⊢
        exact pieces_of_closing? hq hends fun hm => hn (List.mem_cons_of_mem _ hm)
      · obtain rfl : behind = [] := by
          rw [List.cons_inj_right] at htext
          exact List.self_eq_append_right.mp htext
        rw [pieces_comment hcomment hn, List.append_nil]
        rfl

/-! The tokens of one line. -/

/-- Characters in front of all tokens stay. -/
theorem placeholdersFrom_passed {line front more behind : Text} (hline : line = front ++ more ++ behind)
    {ts : List Token} (h : ∀ t ∈ ts, (front ++ more).length + 1 ≤ t.column) (n : Nat) :
    placeholdersFrom line n (front.length + 1) ts =
      more ++ placeholdersFrom line n ((front ++ more).length + 1) ts := by
  have start (k : Nat) : ((k : Int) + 1 - 1).toNat = k := by omega
  cases ts with
  | nil =>
      simp only [placeholdersFrom, start]
      rw [hline, List.drop_left, List.append_assoc, List.drop_left]
  | cons t ts =>
      have place := h t (List.mem_cons_self ..)
      obtain ⟨k, hk⟩ : ∃ k : Nat, (t.column - 1).toNat = (front ++ more).length + k :=
        ⟨(t.column - 1).toNat - (front ++ more).length, by omega⟩
      simp only [placeholdersFrom, start, hk]
      rw [hline, List.take_length_add_append, List.drop_left, List.append_assoc front,
        List.drop_left]
      simp only [List.append_assoc]

theorem literalTokens_cons_of_literal {t : Token} (h : isLiteral t.kind = true) (ts : List Token) :
    literalTokens (t :: ts) = t :: literalTokens ts := List.filter_cons_of_pos h

theorem literalTokens_cons_of_code {t : Token} (h : isLiteral t.kind = false) (ts : List Token) :
    literalTokens (t :: ts) = literalTokens ts := List.filter_cons_of_neg (by simp [h])

variable {row : Int}

theorem literals_pieces {column : Int} {l : Text} (hn : '\n' ∉ l)
    (hclosed : ∀ t ∈ scanLine p row column 0 l, t.kind = .string → isClosed t.text = true) :
    literals (pieces l) = (literalTokens (scanLine p row column 0 l)).map Token.text := by
  induction l using scan_induction p generalizing column with
  | nil => rfl
  | blank c r hc ih =>
      have rest : '\n' ∉ r := fun hm => hn (List.mem_cons_of_mem _ hm)
      rw [scanLine_of_none hc] at hclosed ⊢
      rw [pieces_cons, length?_none_of_isBlank (lexeme?_eq_none_iff.mp hc)]
      exact ih rest hclosed
  | token c kind w behind hc ih =>
      have rest : '\n' ∉ behind := fun hm =>
        hn (List.mem_cons_of_mem _ (List.mem_append_right _ hm))
      rw [scanLine_of_some hc] at hclosed ⊢
      obtain ⟨first, others⟩ := List.forall_mem_cons.mp hclosed
      rw [pieces_token hc hn first, literals_append, ih rest others]
      cases hkind : isLiteral kind with
      | true => rw [literalTokens_cons_of_literal hkind, tokenPieces, hkind]; rfl
      | false =>
          rw [literalTokens_cons_of_code hkind, tokenPieces, hkind]
          exact congrArg (· ++ _) (literals_map_code (c :: w))

theorem numbered_pieces {front l : Text} (hn : '\n' ∉ l)
    (hclosed : ∀ t ∈ scanLine p row (front.length + 1) 0 l,
      t.kind = .string → isClosed t.text = true) (n : Nat) :
    numbered n (pieces l) = placeholdersFrom (front ++ l) n (front.length + 1)
      (literalTokens (scanLine p row (front.length + 1) 0 l)) := by
  induction l using scan_induction p generalizing front n with
  | nil => simp [placeholdersFrom, literalTokens, scanLine, pieces, piecesFrom, numbered]
  | blank c r hc ih =>
      have rest : '\n' ∉ r := fun hm => hn (List.mem_cons_of_mem _ hm)
      have place : (front.length + 1 + 1 : Int) = (front ++ [c]).length + 1 := by simp
      have whole : front ++ c :: r = front ++ [c] ++ r := by simp
      rw [scanLine_of_none hc, place] at hclosed ⊢
      rw [pieces_cons, length?_none_of_isBlank (lexeme?_eq_none_iff.mp hc), whole,
        placeholdersFrom_passed rfl, ← ih rest hclosed]
      · rfl
      · intro t ht
        exact (of_mem_scanLine (List.mem_of_mem_filter ht)).2.1
  | token c kind w behind hc ih =>
      have rest : '\n' ∉ behind := fun hm =>
        hn (List.mem_cons_of_mem _ (List.mem_append_right _ hm))
      have place : (front.length + 1 + (c :: w).length : Int) = (front ++ c :: w).length + 1 := by
        rw [List.length_append]
        omega
      have whole : front ++ c :: (w ++ behind) = front ++ (c :: w) ++ behind := by simp
      rw [scanLine_of_some hc, place] at hclosed ⊢
      obtain ⟨first, others⟩ := List.forall_mem_cons.mp hclosed
      have behindFront (t : Token)
          (ht : t ∈ literalTokens (scanLine p row ((front ++ c :: w).length + 1) 0 behind)) :
          (front ++ c :: w).length + 1 ≤ t.column :=
        (of_mem_scanLine (List.mem_of_mem_filter ht)).2.1
      rw [pieces_token hc hn first, numbered_append, whole]
      cases hkind : isLiteral kind with
      | true =>
          rw [literalTokens_cons_of_literal hkind, tokenPieces, hkind, placeholdersFrom, endColumn,
            place, ← ih rest others]
          have none : ((front ++ (c :: w) ++ behind).take front.length).drop front.length = [] := by
            simp
          have start : ((front.length : Int) + 1 - 1).toNat = front.length := by omega
          simp only [start, none]
          simp [numbered, literals]
      | false =>
          have code : tokenPieces kind (c :: w) = (c :: w).map Piece.code := by
            rw [tokenPieces, hkind]
            rfl
          rw [literalTokens_cons_of_code hkind, code, numbered_map_code, literals_map_code,
            placeholdersFrom_passed rfl behindFront, ← ih rest others]
          rfl

/-- On a line whose strings are all closed, masking finds the literals that the scan finds,
and puts a numbered placeholder where each of them stands. -/
theorem mask_eq_tokens {line : Text} (hn : '\n' ∉ line)
    (hclosed : ∀ t ∈ tokenize p line, t.kind = .string → isClosed t.text = true) :
    (mask line).2 = (literalTokens (tokenize p line)).map Token.text ∧
      (mask line).1 = withPlaceholders line (literalTokens (tokenize p line)) := by
  have scanned : tokenize p line = scanLine p 1 1 0 line := by
    rw [tokenize, Text.lines_of_not_newline hn, scanLines, scanLines, List.append_nil]
  rw [scanned] at hclosed ⊢
  exact ⟨literals_pieces hn hclosed, @numbered_pieces p 1 [] line hn hclosed 0⟩

theorem mask_eq_tokens_mixed :
    let line := "x /= 'it\\'s' + \"//\" // 'b".toList
    '\n' ∉ line ∧
      (∀ t ∈ tokenize .standard line, t.kind = .string → isClosed t.text = true) ∧
      (mask line).2 = ["'it\\'s'", "\"//\"", "// 'b"].map String.toList ∧
      (mask line).1 = withPlaceholders line (literalTokens (tokenize .standard line)) := by
  intro line
  have single : '\n' ∉ line := by decide
  have closed : ∀ t ∈ tokenize .standard line, t.kind = .string → isClosed t.text = true := by
    decide +kernel
  obtain ⟨found, masked⟩ := mask_eq_tokens single closed
  exact ⟨single, closed, found.trans (by decide +kernel), masked⟩

end Literal
end MotionExpr
