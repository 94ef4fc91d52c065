import MotionExpr.Proofs.Token.Boundary
import MotionExpr.Proofs.Token.Literals

/-!
The tokens of a line told by its masked code. Whether a token takes the next
character is settled by what may still be taken, so a scan that keeps no token says
of each character that shows whether it joins the token in front of it. With the
literals in their order this says as much as the tokens do.
-/

namespace MotionExpr
namespace Token

open Literal

variable {p : Profile}

/-- What a token may still take. -/
inductive Reach where
  | nothing
  | number
  | word
  | symbol (c : Char)

namespace Reach

def takes : Reach → Char → Bool
  | nothing, _ => false
  | number, d => continuesNumber d
  | word, d => continuesWord d
  | symbol c, d => Language.pairOperators.contains [c, d]

/-- Behind the first character of a token; blanks begin none. -/
def start (c : Char) : Reach :=
  if Text.isBlank c then nothing
  else if Text.isAsciiDigit c then number
  else if startsWord c then word
  else symbol c

def after (q : Reach) (c : Char) : Reach :=
  if q.takes c then
    match q with
    | symbol _ => nothing
    | q => q
  else start c

theorem of_takes_symbol {c d : Char} (h : (symbol c).takes d = true) :
    [c, d] ∈ Language.pairOperators := List.contains_iff_mem.mp h

theorem takes_of_isBlank {d : Char} (hd : Text.isBlank d = true) (q : Reach) : q.takes d = false := by
  cases q with
  | nothing => rfl
  | number => exact not_continuesNumber_of_isBlank hd
  | word => exact not_continuesWord_of_isBlank hd
  | symbol c =>
      refine eq_false_of_ne_true fun taken => ?_
      rw [shows_of_mem_pairOperators (of_takes_symbol taken) d (by simp)] at hd
      cases hd

theorem takes_mark (q : Reach) : q.takes Literal.mark = false := by
  cases q with
  | nothing => rfl
  | number | word => decide
  | symbol c =>
      have checked : (Language.pairOperators.all (!·.contains Literal.mark)) = true := by decide
      refine eq_false_of_ne_true fun taken => ?_
      simpa using List.all_eq_true.mp checked _ (of_takes_symbol taken)

theorem after_of_not_takes {q : Reach} {c : Char} (h : q.takes c = false) : q.after c = start c := by
  simp only [after, h, Bool.false_eq_true, ite_false]

theorem after_mark (q : Reach) : q.after Literal.mark = symbol Literal.mark :=
  after_of_not_takes q.takes_mark

theorem not_takes_symbol_mark (d : Char) : (symbol Literal.mark).takes d = false := by
  have checked : (Language.pairOperators.all (!·.contains Literal.mark)) = true := by decide
  refine eq_false_of_ne_true fun taken => ?_
  simpa using List.all_eq_true.mp checked _ (of_takes_symbol taken)

end Reach

open Reach

/-- Each character that shows, with whether the token in front of it takes it. -/
def joins : Reach → Text → List (Char × Bool)
  | _, [] => []
  | q, c :: r =>
      if Text.isBlank c then joins .nothing r
      else (c, q.takes c) :: joins (q.after c) r

theorem joins_blank {c : Char} (hc : Text.isBlank c = true) (q : Reach) (r : Text) :
    joins q (c :: r) = joins .nothing r := by
  rw [joins, if_pos hc]

theorem joins_ink {c : Char} (hc : Text.isBlank c = false) (q : Reach) (r : Text) :
    joins q (c :: r) = (c, q.takes c) :: joins (q.after c) r := by
  rw [joins, if_neg (Bool.eq_false_iff.mp hc)]

theorem joins_append (q : Reach) (a b : Text) :
    joins q (a ++ b) = joins q a ++ joins (a.foldl Reach.after q) b := by
  induction a generalizing q with
  | nil => rfl
  | cons c a ih =>
      rw [List.cons_append, List.foldl_cons]
      cases hc : Text.isBlank c with
      | true =>
          have fresh : q.after c = .nothing := by
            rw [after_of_not_takes (takes_of_isBlank hc q), start, if_pos hc]
          rw [joins_blank hc, joins_blank hc, ih, fresh]
      | false => rw [joins_ink hc, joins_ink hc, ih, List.cons_append]

/-- A token that does not take the next character is closed. -/
theorem joins_of_head {q : Reach} {r : Text} (h : ∀ d ∈ r.head?, q.takes d = false) :
    joins q r = joins .nothing r := by
  cases r with
  | nil => rfl
  | cons c r =>
      have here : q.takes c = false := h c rfl
      cases hc : Text.isBlank c with
      | true => rw [joins_blank hc, joins_blank hc]
      | false =>
          rw [joins_ink hc, joins_ink hc, here, after_of_not_takes here]
          rfl

theorem joins_blanks {b : Text} (hb : ∀ c ∈ b, Text.isBlank c = true) (q : Reach) (r : Text) :
    joins q (b ++ r) = if b = [] then joins q r else joins .nothing r := by
  induction b generalizing q with
  | nil => rfl
  | cons c b ih =>
      obtain ⟨hc, hb⟩ := List.forall_mem_cons.mp hb
      rw [List.cons_append, joins_blank hc, ih hb, if_neg (List.cons_ne_nil c b), ite_self]

/-- Nothing joins a token that is closed. -/
theorem not_joined_head (r : Text) : ∀ x ∈ (joins .nothing r).head?, x.2 = false := by
  induction r with
  | nil => exact nofun
  | cons c r ih =>
      cases hc : Text.isBlank c with
      | true => rwa [joins_blank hc]
      | false =>
          rw [joins_ink hc]
          rintro x ⟨⟩
          rfl

theorem head?_joins (q : Reach) (r : Text) (d : Char) :
    (joins q r).head? = some (d, true) ↔ r.head? = some d ∧ q.takes d = true := by
  cases r with
  | nil => simp [joins]
  | cons c r =>
      cases hc : Text.isBlank c with
      | true =>
          rw [joins_blank hc]
          refine iff_of_false (fun h => nomatch not_joined_head r _ h) ?_
          rintro ⟨hd, taken⟩
          rw [← Option.some.inj hd, takes_of_isBlank hc] at taken
          cases taken
      | false =>
          rw [joins_ink hc]
          simp only [List.head?_cons, Option.some.injEq, Prod.mk.injEq]
          refine and_congr_right ?_
          rintro rfl
          rfl

/-! The joins of tokens. -/

/-- The characters of one token: all but the first join it. -/
def whole : Text → List (Char × Bool)
  | [] => []
  | c :: w => (c, false) :: w.map (·, true)

theorem start_of_isSymbol {c : Char} (h : isSymbol c = true) :
    Text.isBlank c = false ∧ start c = .symbol c := by
  simp only [isSymbol, Bool.and_eq_true, Bool.not_eq_true'] at h
  obtain ⟨⟨⟨hblank, -⟩, hdigit⟩, hword⟩ := h
  exact ⟨hblank, by simp [start, hblank, hdigit, hword]⟩

theorem joins_first {c : Char} (hc : Text.isBlank c = false) (r : Text) :
    joins .nothing (c :: r) = (c, false) :: joins (start c) r := by
  rw [joins_ink hc]
  rfl

/-- Numbers and words take characters of one sort. -/
theorem joins_run {q : Reach} (stays : ∀ d, q.takes d = true → q.after d = q) {w : Text}
    (hw : ∀ d ∈ w, q.takes d = true) (s : Text) :
    joins q (w ++ s) = w.map (·, true) ++ joins q s := by
  induction w with
  | nil => rfl
  | cons d w ih =>
      obtain ⟨hd, hw⟩ := List.forall_mem_cons.mp hw
      have shows : Text.isBlank d = false := by
        refine eq_false_of_ne_true fun blank => ?_
        rw [takes_of_isBlank blank] at hd
        cases hd
      rw [List.cons_append, joins_ink shows, hd, stays d hd, ih hw]
      rfl

theorem not_takes_of_pairOperator? {c : Char} {r : Text} (h : pairOperator? (c :: r) = none) :
    ∀ d ∈ r.head?, (Reach.symbol c).takes d = false := by
  intro d hd
  refine eq_false_of_ne_true fun taken => ?_
  exact List.find?_eq_none.mp h _ (of_takes_symbol taken)
    ((Text.isPrefixOf_pair c d c r).mpr ⟨rfl, hd⟩)

/-- A token that is no literal, in front of a text that goes on as the line does or with a
placeholder. -/
theorem joins_token {c : Char} {kind : TokenKind} {w r s : Text}
    (h : lexeme? p c (w ++ r) = some (kind, c :: w)) (hkind : isLiteral kind = false)
    (hs : ∀ d ∈ s.head?, r.head? = some d ∨ d = Literal.mark) :
    joins .nothing (c :: (w ++ s)) = whole (c :: w) ++ joins .nothing s := by
  have closed {q : Reach} (hq : ∀ d ∈ r.head?, q.takes d = false) :
      joins q s = joins .nothing s := by
    refine joins_of_head fun d hd => ?_
    cases hs d hd with
    | inl same => exact hq d same
    | inr marked => exact marked ▸ q.takes_mark
  generalize ht : c :: w = text at h
  cases shape_of_lexeme? h with
  | comment _ => cases hkind
  | string _ => cases hkind
  | number hc =>
      obtain ⟨-, read⟩ := List.cons_eq_cons.mp ht
      obtain ⟨inside, stop⟩ := (takeWhile_append_eq_iff w r).mp read.symm
      have shows := (plain_of_isAsciiDigit hc).1
      have first : start c = .number := by simp [start, shows, hc]
      rw [joins_first shows, first, joins_run (fun d hd => by simp [after, hd]) inside, closed (q := .number) stop,
        ← ht]
      rfl
  | word hc =>
      obtain ⟨-, read⟩ := List.cons_eq_cons.mp ht
      obtain ⟨inside, stop⟩ := (takeWhile_append_eq_iff w r).mp read.symm
      obtain ⟨shows, -, notDigit, -⟩ := plain_of_startsWord hc
      have first : start c = .word := by simp [start, shows, notDigit, hc]
      rw [joins_first shows, first, joins_run (fun d hd => by simp [after, hd]) inside, closed (q := .word) stop,
        ← ht]
      rfl
  | operator hc _ hop =>
      have member : text ∈ Language.pairOperators := List.mem_of_find?_eq_some hop
      obtain ⟨a, b, rfl, -⟩ := of_mem_pairOperators member
      obtain ⟨rfl, rfl⟩ := List.cons_eq_cons.mp ht
      obtain ⟨shows, first⟩ := start_of_isSymbol hc
      have taken : (Reach.symbol c).takes b = true := List.contains_iff_mem.mpr member
      have second := shows_of_mem_pairOperators member b (by simp)
      rw [joins_first shows, first, List.singleton_append, joins_ink second, taken]
      simp [after, taken, whole]
  | punctuation hc _ hop =>
      obtain ⟨-, rfl⟩ := List.cons_eq_cons.mp ht
      obtain ⟨shows, first⟩ := start_of_isSymbol hc
      rw [List.nil_append, joins_first shows, first, closed (not_takes_of_pairOperator? hop)]
      rfl

theorem joins_placeholder (n : Nat) (q : Reach) (s : Text) :
    joins q (placeholder n ++ s) = joins .nothing (placeholder n) ++ joins .nothing s := by
  have last : (placeholder n).foldl Reach.after .nothing = .symbol Literal.mark := by
    rw [placeholder, List.foldl_append, List.foldl_cons, after_mark]
    rfl
  have first : ∀ d ∈ (placeholder n ++ s).head?, q.takes d = false := by
    rintro d ⟨⟩
    exact q.takes_mark
  rw [joins_of_head first, joins_append, last, joins_of_head fun d _ => not_takes_symbol_mark d]

/-- The joins within tokens, their literals numbered from `n` on. -/
def tokenJoins : (n : Nat) → List (TokenKind × Text) → List (Char × Bool)
  | _, [] => []
  | n, x :: xs =>
      if isLiteral x.1 then joins .nothing (placeholder n) ++ tokenJoins (n + 1) xs
      else whole x.2 ++ tokenJoins n xs

def literalTexts : List (TokenKind × Text) → List Text
  | [] => []
  | x :: xs => if isLiteral x.1 then x.2 :: literalTexts xs else literalTexts xs

theorem head?_numbered_pieces (n : Nat) (l : Text) :
    ∀ d ∈ (numbered n (pieces l)).head?, l.head? = some d ∨ d = Literal.mark := by
  intro d hd
  cases hp : pieces l with
  | nil =>
      rw [hp] at hd
      cases hd
  | cons q ps =>
      rw [hp] at hd
      obtain ⟨c, r, rfl, -, rfl, -⟩ | ⟨c, s, rest, rfl, -, rfl, -⟩ := of_pieces_eq_cons hp
      · exact .inl hd
      · exact .inr (Option.some.inj hd).symm

/-- What masking says of a line whose strings are closed. -/
theorem joins_numbered {l : Text} (hn : '\n' ∉ l)
    (hclosed : ∀ x ∈ spell (lexemes p l), x.1 = .string → isClosed x.2 = true) (n : Nat) :
    joins .nothing (numbered n (pieces l)) = tokenJoins n (spell (lexemes p l)) ∧
      literals (pieces l) = literalTexts (spell (lexemes p l)) := by
  induction l using scan_induction p generalizing n with
  | nil => exact ⟨rfl, rfl⟩
  | blank c r hc ih =>
      have blank := lexeme?_eq_none_iff.mp hc
      rw [lexemes_of_none hc] at hclosed ⊢
      rw [pieces_cons, length?_none_of_isBlank blank, numbered, joins_blank blank]
      exact ih (fun hm => hn (List.mem_cons_of_mem _ hm)) hclosed n
  | token c kind w behind hc ih =>
      have rest : '\n' ∉ behind := fun hm =>
        hn (List.mem_cons_of_mem _ (List.mem_append_right _ hm))
      rw [lexemes_of_some hc rfl, spell_cons] at hclosed ⊢
      obtain ⟨first, others⟩ := List.forall_mem_cons.mp hclosed
      rw [pieces_token hc hn first, numbered_append, literals_append, tokenJoins, literalTexts]
      cases hkind : isLiteral kind with
      | true =>
          obtain ⟨joined, texts⟩ := ih rest others (n + 1)
          rw [tokenPieces, if_pos hkind, if_pos rfl, if_pos rfl, ← joined,
            ← texts, ← joins_placeholder n .nothing]
          simp [numbered, literals]
      | false =>
          obtain ⟨joined, texts⟩ := ih rest others n
          have code : tokenPieces kind (c :: w) = (c :: w).map Piece.code := by
            rw [tokenPieces, hkind]
            rfl
          rw [code, numbered_map_code, literals_map_code, if_neg Bool.false_ne_true,
            if_neg Bool.false_ne_true, ← joined, ← texts]
          exact ⟨joins_token hc hkind (head?_numbered_pieces n behind), rfl⟩

/-! Tokens found again. -/

/-- The text is read as this token where nothing stands behind it. -/
def Alone (p : Profile) (x : TokenKind × Text) : Prop :=
  ∃ c w, x.2 = c :: w ∧ c ≠ Literal.mark ∧ lexeme? p c w = some x

theorem Alone.eq_of_text {x y : TokenKind × Text} (hx : Alone p x) (hy : Alone p y)
    (h : x.2 = y.2) : x = y := by
  obtain ⟨c, w, htext, -, read⟩ := hx
  obtain ⟨d, v, htext', -, read'⟩ := hy
  rw [htext, htext'] at h
  obtain ⟨rfl, rfl⟩ := List.cons_eq_cons.mp h
  exact Option.some.inj (read.symm.trans read')

theorem alone_of_mem_spell {l : Text} (hm : Literal.mark ∉ l) :
    ∀ x ∈ spell (lexemes p l), Alone p x := by
  induction l using scan_induction p with
  | nil => exact List.forall_mem_nil _
  | blank c r hc ih =>
      rw [lexemes_of_none hc]
      exact ih fun hr => hm (List.mem_cons_of_mem _ hr)
  | token c kind w behind hc ih =>
      rw [lexemes_of_some hc rfl, spell_cons]
      refine List.forall_mem_cons.mpr ⟨⟨c, w, rfl, ?_, ?_⟩, ih fun hr => ?_⟩
      · rintro rfl
        exact hm (List.mem_cons_self ..)
      · simpa using lexeme?_of_ends hc (ends_nil behind)
      · exact hm (List.mem_cons_of_mem _ (List.mem_append_right _ hr))

theorem not_joined_tokens (n : Nat) (xs : List (TokenKind × Text)) :
    ∀ x ∈ (tokenJoins n xs).head?, x.2 = false := by
  induction xs generalizing n with
  | nil => exact nofun
  | cons x xs ih =>
      rw [tokenJoins]
      split
      · rintro y ⟨⟩
        rfl
      · cases hx : x.2 with
        | nil => exact ih n
        | cons c w =>
            rintro y ⟨⟩
            rfl

/-- The first token is found by what joins its first character. -/
theorem whole_append_inj {a b : Text} {r s : List (Char × Bool)} (ha : a ≠ []) (hb : b ≠ [])
    (hr : ∀ x ∈ r.head?, x.2 = false) (hs : ∀ x ∈ s.head?, x.2 = false)
    (h : whole a ++ r = whole b ++ s) : a = b ∧ r = s := by
  have run (w : Text) {t : List (Char × Bool)} (ht : ∀ x ∈ t.head?, x.2 = false) :
      (w.map (·, true) ++ t).takeWhile (·.2) = w.map (·, true) :=
    (takeWhile_append_eq_iff _ _).mpr ⟨by simp, ht⟩
  obtain ⟨c, v, rfl⟩ := List.exists_cons_of_ne_nil ha
  obtain ⟨d, w, rfl⟩ := List.exists_cons_of_ne_nil hb
  obtain ⟨first, rest⟩ := List.cons_eq_cons.mp h
  have taken : v.map (·, true) = w.map (·, true) := by
    rw [← run v hr, ← run w hs]
    exact congrArg _ rest
  have same : v = w := List.map_injective_iff.mpr (fun _ _ e => (Prod.mk.inj e).1) taken
  subst same
  exact ⟨congrArg (· :: v) (Prod.mk.inj first).1, List.append_cancel_left rest⟩

theorem head?_tokenJoins_of_literal {x : TokenKind × Text} (h : isLiteral x.1 = true) (n : Nat)
    (xs : List (TokenKind × Text)) : (tokenJoins n (x :: xs)).head? = some (Literal.mark, false) := by
  rw [tokenJoins, if_pos h]
  rfl

theorem head?_tokenJoins_of_code {x : TokenKind × Text} (h : isLiteral x.1 = false) {c : Char}
    {w : Text} (hx : x.2 = c :: w) (n : Nat) (xs : List (TokenKind × Text)) :
    (tokenJoins n (x :: xs)).head? = some (c, false) := by
  rw [tokenJoins, if_neg (Bool.eq_false_iff.mp h), hx]
  rfl

theorem tokenJoins_ne_nil {x : TokenKind × Text} (hx : Alone p x) (n : Nat)
    (xs : List (TokenKind × Text)) : tokenJoins n (x :: xs) ≠ [] := by
  obtain ⟨c, w, htext, -⟩ := hx
  intro none
  cases hkind : isLiteral x.1 with
  | true => simpa [none] using head?_tokenJoins_of_literal hkind n xs
  | false => simpa [none] using head?_tokenJoins_of_code hkind htext n xs

/-- The joins and the literals tell the tokens. -/
theorem eq_of_tokenJoins {xs ys : List (TokenKind × Text)} (hx : ∀ x ∈ xs, Alone p x)
    (hy : ∀ y ∈ ys, Alone p y) {n : Nat} (joined : tokenJoins n xs = tokenJoins n ys)
    (texts : literalTexts xs = literalTexts ys) : xs = ys := by
  induction xs generalizing ys n with
  | nil =>
      cases ys with
      | nil => rfl
      | cons y ys => exact absurd joined.symm (tokenJoins_ne_nil (hy y (List.mem_cons_self ..)) n ys)
  | cons x xs ih =>
      cases ys with
      | nil => exact absurd joined (tokenJoins_ne_nil (hx x (List.mem_cons_self ..)) n xs)
      | cons y ys =>
          obtain ⟨here, hx⟩ := List.forall_mem_cons.mp hx
          obtain ⟨there, hy⟩ := List.forall_mem_cons.mp hy
          obtain ⟨c, v, hc, notMark, -⟩ := id here
          obtain ⟨d, w, hd, notMark', -⟩ := id there
          have heads := congrArg List.head? joined
          cases hkind : isLiteral x.1 with
          | true =>
              rw [head?_tokenJoins_of_literal hkind] at heads
              cases hkind' : isLiteral y.1 with
              | false =>
                  rw [head?_tokenJoins_of_code hkind' hd] at heads
                  exact absurd (Prod.mk.inj (Option.some.inj heads)).1.symm notMark'
              | true =>
                  rw [tokenJoins, tokenJoins, if_pos hkind, if_pos hkind'] at joined
                  rw [literalTexts, literalTexts, if_pos hkind, if_pos hkind'] at texts
                  obtain ⟨text, texts⟩ := List.cons_eq_cons.mp texts
                  rw [here.eq_of_text there text, ih hx hy (List.append_cancel_left joined) texts]
          | false =>
              rw [head?_tokenJoins_of_code hkind hc] at heads
              cases hkind' : isLiteral y.1 with
              | true =>
                  rw [head?_tokenJoins_of_literal hkind'] at heads
                  exact absurd (Prod.mk.inj (Option.some.inj heads)).1 notMark
              | false =>
                  rw [tokenJoins, tokenJoins, hkind, hkind'] at joined
                  rw [literalTexts, literalTexts, hkind, hkind'] at texts
                  obtain ⟨text, joined⟩ := whole_append_inj (hc ▸ List.cons_ne_nil c v)
                    (hd ▸ List.cons_ne_nil d w) (not_joined_tokens n xs) (not_joined_tokens n ys)
                    joined
                  rw [here.eq_of_text there text, ih hx hy joined texts]

/-! Lines whose strings are closed. -/

theorem isClosed_of_length? {c : Char} {r : Text} (hc : isQuote c = true) (hn : '\n' ∉ r) {n : Nat}
    (h : length? c r = some n) : isClosed (c :: stringRest c false r) = true := by
  have notComment : ¬ "//".toList.isPrefixOf (c :: r) = true :=
    Bool.eq_false_iff.mp (startsComment_of_ne (plain_of_isQuote hc).2 r)
  rw [length?, if_neg notComment, if_pos (by simpa using (isQuote_iff c).mp hc),
    closing?_multiline hn] at h
  obtain ⟨m, hm, rfl⟩ := Option.map_eq_some_iff.mp h
  have size : (r.take m).length = m := List.length_take_of_le (closing?_le hm).2
  rw [isClosed, beq_iff_eq, stringRest_of_closing? hm, size]
  rw [← List.take_append_drop m r] at hm
  exact closing?_of_append hm (Nat.le_of_eq size.symm)

/-- No code character among the pieces of a token is a quote. -/
theorem plain_of_mem_tokenPieces {c d : Char} {kind : TokenKind} {w behind : Text}
    (h : lexeme? p c (w ++ behind) = some (kind, c :: w))
    (hd : .code d ∈ tokenPieces kind (c :: w)) : isQuote d = false := by
  cases hkind : isLiteral kind with
  | true => simp [tokenPieces, hkind] at hd
  | false =>
      obtain ⟨first, -, others⟩ := plain_of_lexeme? h hkind
      have plain : ∀ e ∈ c :: w, isQuote e = false :=
        List.forall_mem_cons.mpr ⟨first, fun e he => (others e he).1⟩
      rw [tokenPieces, hkind] at hd
      obtain ⟨e, he, hde⟩ := List.mem_map.mp hd
      rw [← Piece.code.inj hde]
      exact plain e he

/-- Where masking leaves no quote, a string in front is closed. -/
theorem isClosed_of_plain {c : Char} {w behind : Text}
    (h : lexeme? p c (w ++ behind) = some (.string, c :: w)) (hn : '\n' ∉ c :: (w ++ behind))
    (plain : ∀ d, .code d ∈ pieces (c :: (w ++ behind)) → isQuote d = false) :
    isClosed (c :: w) = true := by
  have quote : isQuote c = true := by
    rcases of_lexeme?_literal h rfl with ⟨-, quote⟩ | ⟨comment, -⟩
    · exact quote
    · rw [(Shape.comment comment).lexeme?] at h
      cases h
  have text : c :: stringRest c false (w ++ behind) = c :: w := by
    rw [(Shape.string quote).lexeme?] at h
    exact (Prod.mk.inj (Option.some.inj h)).2
  rw [← text]
  cases hl : length? c (w ++ behind) with
  | some n => exact isClosed_of_length? quote (fun hm => hn (List.mem_cons_of_mem _ hm)) hl
  | none =>
      have bare := plain c (by rw [pieces_cons, hl]; exact List.mem_cons_self ..)
      rw [quote] at bare
      cases bare

/-- Masking leaves no quote just if every string is closed. -/
theorem closed_iff_plain {l : Text} (hn : '\n' ∉ l) :
    (∀ x ∈ spell (lexemes p l), x.1 = .string → isClosed x.2 = true) ↔
      ∀ c, .code c ∈ pieces l → isQuote c = false := by
  induction l using scan_induction p with
  | nil => exact iff_of_true nofun nofun
  | blank c r hc ih =>
      have blank := lexeme?_eq_none_iff.mp hc
      have plain : isQuote c = false := by
        refine eq_false_of_ne_true fun quote => ?_
        rw [(plain_of_isQuote quote).1] at blank
        cases blank
      rw [lexemes_of_none hc, ih fun hm => hn (List.mem_cons_of_mem _ hm), pieces_cons,
        length?_none_of_isBlank blank]
      refine forall_congr' fun d => ?_
      simp only [List.mem_cons, Piece.code.injEq]
      exact ⟨fun h => Or.rec (fun e => e ▸ plain) h, fun h hd => h (.inr hd)⟩
  | token c kind w behind hc ih =>
      have rest : '\n' ∉ behind := fun hm =>
        hn (List.mem_cons_of_mem _ (List.mem_append_right _ hm))
      rw [lexemes_of_some hc rfl, spell_cons, List.forall_mem_cons, ih rest]
      constructor
      · rintro ⟨first, others⟩ d hd
        rw [pieces_token hc hn first, List.mem_append] at hd
        exact hd.elim (plain_of_mem_tokenPieces hc) (others d)
      · intro plain
        have first : kind = .string → isClosed (c :: w) = true := by
          rintro rfl
          exact isClosed_of_plain hc hn plain
        refine ⟨first, fun d hd => plain d ?_⟩
        rw [pieces_token hc hn first]
        exact List.mem_append_right _ hd

theorem spell_eq_iff {l u : Text} (hl : '\n' ∉ l) (hu : '\n' ∉ u) (clean : Literal.mark ∉ l)
    (clean' : Literal.mark ∉ u) (plain : ∀ c, .code c ∈ pieces l → isQuote c = false)
    (plain' : ∀ c, .code c ∈ pieces u → isQuote c = false) (texts : (mask u).2 = (mask l).2) :
    spell (lexemes p u) = spell (lexemes p l) ↔
      joins .nothing (mask u).1 = joins .nothing (mask l).1 := by
  obtain ⟨joined, found⟩ := joins_numbered hl ((closed_iff_plain hl (p := p)).mpr plain) 0
  obtain ⟨joined', found'⟩ := joins_numbered hu ((closed_iff_plain hu (p := p)).mpr plain') 0
  rw [mask, mask] at texts ⊢
  rw [joined, joined']
  rw [found, found'] at texts
  exact ⟨congrArg _, fun same =>
    eq_of_tokenJoins (alone_of_mem_spell clean') (alone_of_mem_spell clean) same texts⟩

end Token
end MotionExpr
