import MotionExpr.Proofs.Format.Headers
import MotionExpr.Proofs.Format.Restyled

/-!
What indentation sees of a line: whether it begins with a closing bracket, ends in an opening
one, and whether the next line goes with it. Other gaps and the other quote do not change that,
and code that takes a semicolon shows none of it behind the start.
-/

namespace MotionExpr

open Text Literal

theorem Text.filter_isInk_concat (t : Text) {c : Char} (h : isBlank c = false) :
    (t ++ [c]).filter isInk = t.filter isInk ++ [c] := by
  rw [List.filter_append, List.filter_cons_of_pos (by simp [isInk, h]), List.filter_nil]

namespace Indentation

/-- What a line shows of itself. -/
structure Sight where
  closes : Bool
  brace : Bool
  opens : Bool
  leads : Bool

def sight (code : Text) : Sight where
  closes := startsWith closesGroup code
  brace := startsWith (· == '\x7b') code
  opens := endsWith opensGroup code
  leads := isElse code || Header.isControl ControlKeyword.indenting code

theorem step_congr {t u : Text} (h : sight t = sight u) (s : State) : step s t = step s u := by
  simp only [sight, Sight.mk.injEq] at h
  obtain ⟨closes, brace, opens, leads⟩ := h
  simp only [step, closes, brace, opens, leads]

/-- Two bodies that indentation cannot tell apart. -/
structure Alike (t u : Text) : Prop where
  empty : (trimEnd t).isEmpty = (trimEnd u).isEmpty
  sight : sight (trimEnd t) = sight (trimEnd u)

theorem Alike.refl (t : Text) : Alike t t := ⟨rfl, rfl⟩

theorem Alike.trans {t u v : Text} (first : Alike t u) (second : Alike u v) : Alike t v :=
  ⟨first.empty.trans second.empty, first.sight.trans second.sight⟩

theorem trimStart_unindented {t : Text} (front : Unindented t) : trimStart t = t := by
  cases t with
  | nil => rfl
  | cons c r => exact List.dropWhile_cons_of_neg (by simp [unindented_cons.mp front])

theorem trim_trimEnd {t : Text} (front : Unindented t) : trim (trimEnd t) = trimEnd t := by
  obtain ⟨rest, hrest, -⟩ := dropEndWhile_spec isBlank t
  have front' : Unindented (trimEnd t ++ rest) := hrest.symm ▸ front
  rw [← trimStart_trimEnd, show trimEnd (trimEnd t) = trimEnd t from dropEndWhile_dropEndWhile isBlank t,
    trimStart_unindented front'.of_append]

theorem startsWith_trimEnd (p : Char → Bool) {t : Text} (front : Unindented t) :
    startsWith p (trimEnd t) = t.head?.any p := by
  cases t with
  | nil => rfl
  | cons c r =>
      rw [show c :: r = [c] ++ r from rfl,
        trimEnd_append_ink (List.forall_mem_singleton.mpr (unindented_cons.mp front))]
      rfl

theorem endsWith_trimEnd (p : Char → Bool) (t : Text) :
    endsWith p (trimEnd t) = (t.filter isInk).getLast?.any p := by
  rw [← filter_dropEndWhile isInk_of_isBlank, show dropEndWhile isBlank t = trimEnd t from rfl]
  rcases List.eq_nil_or_concat (trimEnd t) with hnil | ⟨x, c, hx⟩
  · rw [hnil]
    rfl
  · rw [List.concat_eq_append] at hx
    rw [hx, endsWith, List.getLast?_concat, filter_isInk_concat x (isBlank_of_trimEnd_concat hx),
      List.getLast?_concat]
    rfl

/-- The line that this masked code is of leads the next one, without braces. -/
def leads (masked : Text) : Bool :=
  isElse (trimEnd masked) ||
    ControlKeyword.indenting.any fun k => Header.heads k (Header.start (trimEnd masked))

theorem isSuffix_skipBrace (t : Text) : Header.skipBrace t <:+ t := by
  unfold Header.skipBrace
  split
  · exact (List.dropWhile_suffix _).trans (List.suffix_cons ..)
  · exact List.suffix_rfl

theorem isSuffix_skipElse (t : Text) : Header.skipElse t <:+ t := by
  rw [Header.skipElse]
  split
  · split
    · next c r hr =>
        split
        · have behind : c :: r <:+ t := hr ▸ List.drop_suffix ..
          exact ((List.dropWhile_suffix _).trans (List.suffix_cons ..)).trans behind
        · exact List.suffix_rfl
    · exact List.suffix_rfl
  · exact List.suffix_rfl

theorem isSuffix_of_opened? {k : ControlKeyword} {t r : Text} (h : Header.opened? k t = some r) :
    r <:+ t := by
  rw [Header.opened?] at h
  split at h
  · split at h
    · next hr =>
        obtain rfl := Option.some.inj h
        have behind := List.dropWhile_suffix (l := t.drop k.text.length) isBlank
        rw [show (t.drop k.text.length).dropWhile isBlank = _ from hr] at behind
        exact ((List.suffix_cons ..).trans behind).trans (List.drop_suffix ..)
    · cases h
  · cases h

theorem concat_of_closesAtEnd {depth : Nat} {t : Text} (h : Header.closesAtEnd depth t = true) :
    [')'] <:+ t := by
  induction t generalizing depth with
  | nil => simp [Header.closesAtEnd] at h
  | cons c r ih =>
      have later {d : Nat} (h : Header.closesAtEnd d r = true) : [')'] <:+ c :: r :=
        (ih h).trans (List.suffix_cons ..)
      cases depth with
      | zero =>
          simp only [Header.closesAtEnd] at h
          split at h
          · exact later h
          · split at h
            · next hc =>
                rw [hc, List.isEmpty_iff.mp h]
            · exact later h
      | succ depth =>
          simp only [Header.closesAtEnd] at h
          split at h
          · exact later h
          · split at h <;> exact later h

/-- A header ends in a parenthesis. -/
theorem concat_of_heads {k : ControlKeyword} {t : Text} (h : Header.heads k (Header.start t) = true) :
    [')'] <:+ t := by
  rw [Header.heads] at h
  obtain ⟨r, hr, closes⟩ := (Option.any_eq_true ..).mp h
  exact (concat_of_closesAtEnd closes).trans ((isSuffix_of_opened? hr).trans
    ((isSuffix_skipElse _).trans (isSuffix_skipBrace t)))

/-- What an `else` is made of, with a brace in front or without one. -/
def isElsePart (c : Char) : Bool := isBlank c || ('\x7d' :: "else".toList).contains c

theorem isElsePart_of_isElse {t : Text} (h : isElse t = true) : ∀ c ∈ t, isElsePart c = true := by
  have word : ∀ c ∈ "else".toList, isElsePart c = true :=
    List.all_eq_true.mp (by decide : "else".toList.all isElsePart = true)
  rw [isElse, beq_iff_eq] at h
  unfold Header.skipBrace at h
  split at h
  · next r =>
      refine List.forall_mem_cons.mpr ⟨by decide, fun c hc => ?_⟩
      rw [← List.takeWhile_append_dropWhile (p := isBlank) (l := r)] at hc
      rcases List.mem_append.mp hc with hc | hc
      · rw [isElsePart, List.all_eq_true.mp List.all_takeWhile c hc]
        rfl
      · exact word c (h ▸ hc)
  · exact fun c hc => word c (h ▸ hc)

theorem concat_of_isElse {t : Text} (h : isElse t = true) : ['e'] <:+ t := by
  have whole := isSuffix_skipBrace t
  rw [isElse, beq_iff_eq] at h
  rw [h] at whole
  exact List.IsSuffix.trans ⟨"els".toList, rfl⟩ whole

end Indentation

namespace Semicolon

theorem mem_of_hasWord {ws : List Text} {t : Text} (h : hasWord ws t = true) :
    ∃ w ∈ ws, ∀ c ∈ w, c ∈ t := by
  rw [hasWord] at h
  generalize false = inWord at h
  induction t generalizing inWord with
  | nil => cases h
  | cons c r ih =>
      rw [hasWordFrom, Bool.or_eq_true] at h
      rcases h with h | h
      · rw [Bool.and_eq_true, List.any_eq_true] at h
        obtain ⟨-, w, hw, alone⟩ := h
        rw [standsAlone, Bool.and_eq_true, List.isPrefixOf_iff_prefix] at alone
        exact ⟨w, hw, fun d hd => alone.1.subset hd⟩
      · obtain ⟨w, hw, inside⟩ := ih _ h
        exact ⟨w, hw, fun d hd => List.mem_cons_of_mem c (inside d hd)⟩

theorem mem_of_assigns {t : Text} (h : assigns t = true) : '=' ∈ t := by
  rw [assigns] at h
  generalize none = before at h
  induction t generalizing before with
  | nil => cases h
  | cons c r ih =>
      simp only [assignsFrom, Bool.or_eq_true] at h
      rcases h with h | h
      · simp only [Bool.and_eq_true, beq_iff_eq] at h
        exact h.1.1 ▸ List.mem_cons_self ..
      · exact List.mem_cons_of_mem c (ih _ h)

theorem mem_of_calls {t : Text} (h : calls t = true) : '(' ∈ t := by
  induction t with
  | nil => cases h
  | cons c r ih =>
      rw [calls, Bool.or_eq_true] at h
      rcases h with h | h
      · rw [Bool.and_eq_true] at h
        obtain ⟨-, h⟩ := h
        split at h
        · next hr =>
            have inside : '(' ∈ r.dropWhile isBlank := by
              rw [show r.dropWhile isBlank = _ from hr]
              exact List.mem_cons_self ..
            exact List.mem_cons_of_mem c ((List.dropWhile_sublist _).subset inside)
        · cases h
      · exact List.mem_cons_of_mem c (ih h)

/-- An `else` is no statement. -/
theorem not_isStatement_of_isElse {t : Text} (h : Indentation.isElse t = true) :
    isStatement t = false := by
  have parts := Indentation.isElsePart_of_isElse h
  rw [← Bool.not_eq_true]
  intro statement
  simp only [isStatement, Bool.or_eq_true] at statement
  rcases statement with (hword | hassigns) | hcalls
  · obtain ⟨w, hw, inside⟩ := mem_of_hasWord hword
    have checked : (statementKeywords.all fun w => w.any fun c => !Indentation.isElsePart c) = true := by
      decide
    obtain ⟨c, hc, foreign⟩ := List.any_eq_true.mp (List.all_eq_true.mp checked w hw)
    rw [parts c (inside c hc)] at foreign
    cases foreign
  · exact absurd (parts _ (mem_of_assigns hassigns)) (by decide)
  · exact absurd (parts _ (mem_of_calls hcalls)) (by decide)

end Semicolon

namespace Literal

theorem trimEnd_numbered {n : Nat} {ps : List Piece}
    (h : ∀ c, ps.getLast? = some (.code c) → isBlank c = false) :
    trimEnd (numbered n ps) = numbered n ps := by
  have last := getLast?_numbered n ps
  rcases List.eq_nil_or_concat (numbered n ps) with hnil | ⟨x, d, hx⟩
  · rw [hnil]
    rfl
  · rw [List.concat_eq_append] at hx
    rw [hx, List.getLast?_concat] at last
    rw [hx]
    apply trimEnd_concat
    cases hps : ps.getLast? with
    | none =>
        rw [hps] at last
        cases last
    | some p =>
        rw [hps] at last
        cases p with
        | code c => exact Option.some.inj last ▸ h c hps
        | literal t =>
            obtain rfl : d = mark := Option.some.inj last
            rfl

theorem code_mem_of_mem_numbered {c : Char} (hm : c ≠ mark) (hd : Text.isDigit c = false) {n : Nat}
    {ps : List Piece} (h : c ∈ numbered n ps) : .code c ∈ ps := by
  rw [← List.count_pos_iff, ← count_numbered hm hd n ps]
  exact List.count_pos_iff.mpr h

/-- Blanks at the end are masked as they are, unless they are part of a comment. -/
theorem mask_trimEnd {t : Text} (ht : '\n' ∉ t) : (mask (trimEnd t)).1 = trimEnd (mask t).1 := by
  rw [mask, mask]
  dsimp only
  obtain ⟨b, -, hb, happ | ⟨qs, u, -, hqs, hqs'⟩⟩ := Semicolon.exists_pieces_trimEnd ht
  · rw [happ, numbered_append, numbered_map_code, trimEnd_append_blanks hb, trimEnd_numbered]
    intro c hc
    obtain ⟨qs, hqs⟩ := List.getLast?_eq_some_iff.mp hc
    exact Semicolon.isBlank_of_pieces_trimEnd hqs
  · have ends (v : Text) (c : Char) (hc : (qs ++ [Piece.literal v]).getLast? = some (.code c)) :
        isBlank c = false := by
      rw [List.getLast?_concat] at hc
      cases hc
    have same : numbered 0 (qs ++ [.literal u]) = numbered 0 (qs ++ [.literal (u ++ b)]) := by
      rw [numbered_append, numbered_append]
      rfl
    rw [hqs, hqs', same, trimEnd_numbered (ends (u ++ b))]

end Literal

namespace Atom

/-- Masked code that is cut behind an atom falls into the pieces of both parts. -/
theorem pieces_numbered_append {a : Atom} (h : a.Fits) (n : Nat) {rest : Text}
    (slash : a = .operator ['/'] → rest.head? ≠ some '/') :
    Literal.pieces (numbered n a.pieces ++ rest) =
      (numbered n a.pieces).map Piece.code ++ Literal.pieces rest := by
  by_cases hliteral : ∃ t, a = literal t
  · obtain ⟨t, rfl⟩ := hliteral
    have one : numbered n (literal t).pieces = placeholder n := List.append_nil _
    rw [one]
    apply pieces_plain_append
    intro c hc
    simp only [placeholder, List.cons_append, List.mem_cons, List.mem_append, List.not_mem_nil,
      or_false] at hc
    rcases hc with rfl | hc | rfl
    · decide
    · have part : isWordPart c = true := by
        rw [isWordPart, isDigit_of_mem_ofNat hc, Bool.or_true]
        rfl
      obtain ⟨-, hquote, hslash, -⟩ := plain_of_isWordPart part
      exact ⟨hquote, hslash⟩
    · decide
  · have code := not_exists.mp hliteral
    have notComment : a.isComment = true → rest = [] := by
      intro hcomment
      cases a with
      | literal t => exact absurd rfl (code t)
      | _ => cases hcomment
    have split := pieces_append h slash notComment
    rw [pieces_eq code] at split ⊢
    rw [numbered_map_code, split]

end Atom

namespace Code

/-- Masked code holds no literals. -/
theorem pieces_masked {c : Code} (h : Lexed c) (n : Nat) :
    Literal.pieces (masked n c) = (masked n c).map Piece.code := by
  induction c generalizing n with
  | nil => rfl
  | cons x c ih =>
      obtain ⟨fits, joint, rest⟩ := h
      rw [masked_cons, Atom.pieces_numbered_append fits,
        pieces_blanks_append fun d hd => isBlank_of_isSpaceOrTab (joint.blank d hd), ih rest,
        List.map_append, List.map_append]
      intro hslash hhead
      rcases Operator.head_of_joint ⟨fits, joint, rest⟩ hhead with hblank | ⟨hgap, b, hb, hhead⟩
      · cases hblank
      · have apart := joint.apart b hb (.inl hgap)
        rw [hslash] at apart
        rcases b.head_eq with ⟨t, rfl⟩ | heq
        · cases hhead
        · exact (apart.2 '/' (heq ▸ hhead)).2 rfl rfl

theorem mask_masked {c : Code} (h : Lexed c) (n : Nat) : (mask (masked n c)).1 = masked n c := by
  rw [mask, pieces_masked h, numbered_map_code]

theorem mask_text {c : Code} (h : Lexed c) : (mask c.text).1 = masked 0 c := by
  rw [mask, pieces_text h, masked]

theorem unindented_masked {c : Code} (h : Sound c) : Unindented (masked 0 c) := by
  intro d r hd
  have head := head?_masked 0 h.lexed
  rw [hd] at head
  cases c with
  | nil => cases head
  | cons x c =>
      rw [Atom.isBlank_of_head h.lexed.1 head.symm]
      cases hx : x.atom with
      | symbol e => exact h.front e (x.gap ++ text c) (by rw [text, hx]; rfl)
      | _ => rfl

theorem not_newline_masked {c : Code} (h : Lexed c) (n : Nat) : '\n' ∉ masked n c := by
  intro hm
  have code := code_mem_of_mem_numbered (by decide) (by decide) hm
  rw [← pieces_text h] at code
  exact (onLine h).1 (mem_of_code_mem_pieces code)

theorem fits_of_literal {c : Code} (h : Lexed c) {t : Text} (ht : t ∈ literals c.pieces) :
    (Atom.literal t).Fits := by
  induction c with
  | nil => cases ht
  | cons x c ih =>
      obtain ⟨fits, -, rest⟩ := h
      rw [pieces, literals_append, literals_append, literals_map_code, List.nil_append,
        List.mem_append] at ht
      rcases ht with ht | ht
      · by_cases hliteral : ∃ u, x.atom = .literal u
        · obtain ⟨u, hx⟩ := hliteral
          rw [hx] at ht fits
          rwa [List.mem_singleton.mp ht]
        · rw [Atom.pieces_eq (not_exists.mp hliteral), literals_map_code] at ht
          cases ht
      · exact ih rest ht

/-- Code with literals is no `else`, and neither is it when it is masked. -/
theorem isElse_text {c : Code} (h : Lexed c) :
    Indentation.isElse (trimEnd c.text) = Indentation.isElse (trimEnd (masked 0 c)) := by
  have foreign {t : Text} {d : Char} (hd : Indentation.isElsePart d = false) (hm : d ∈ t) :
      Indentation.isElse (trimEnd t) = false := by
    rw [← Bool.not_eq_true]
    intro helse
    have notBlank : isBlank d = false := (Bool.or_eq_false_iff.mp hd).1
    have inside : d ∈ (trimEnd t).filter isInk := by
      rw [trimEnd, filter_dropEndWhile isInk_of_isBlank]
      exact List.mem_filter.mpr ⟨hm, by simp [isInk, notBlank]⟩
    rw [Indentation.isElsePart_of_isElse helse d (List.mem_filter.mp inside).1] at hd
    cases hd
  cases hls : literals c.pieces with
  | nil =>
      have same : masked 0 c = c.text := by
        rw [masked, ← flatMap_text_pieces]
        generalize c.pieces = ps at hls
        induction ps with
        | nil => rfl
        | cons p ps ih =>
            cases p with
            | code d => exact congrArg (d :: ·) (ih hls)
            | literal t => cases hls
      rw [same]
  | cons t ts =>
      have member : t ∈ literals c.pieces := hls ▸ List.mem_cons_self ..
      have piece := mem_literals.mp member
      obtain ⟨d, r, rfl, hd⟩ := Atom.head_of_fits_literal (fits_of_literal h member)
      have inText : d ∈ c.text := by
        rw [← flatMap_text_pieces]
        exact List.mem_flatMap.mpr ⟨_, piece, List.mem_cons_self ..⟩
      have inMasked : mark ∈ masked 0 c := by
        obtain ⟨qs, rs, hsplit⟩ := List.append_of_mem piece
        rw [masked, hsplit, numbered_append]
        exact List.mem_append_right _ (List.mem_append_left _ (List.mem_cons_self ..))
      have noPart : Indentation.isElsePart d = false := by
        rcases hd with rfl | hd
        · decide
        · simp only [Token.isQuote, Bool.or_eq_true, beq_iff_eq] at hd
          rcases hd with rfl | rfl <;> decide
      rw [foreign noPart inText, foreign (by decide) inMasked]

/-- What indentation sees of code. -/
theorem sight_text {c : Code} (h : Sound c) :
    Indentation.sight (trimEnd c.text) =
      { closes := c.text.head?.any Indentation.closesGroup
        brace := c.text.head?.any (· == '\x7b')
        opens := (c.text.filter isInk).getLast?.any Indentation.opensGroup
        leads := Indentation.leads (masked 0 c) } := by
  have control : Header.isControl ControlKeyword.indenting (trimEnd c.text) =
      ControlKeyword.indenting.any fun k => Header.heads k (Header.start (trimEnd (masked 0 c))) := by
    rw [Header.isControl_eq, Indentation.trim_trimEnd h.front, mask_trimEnd (onLine h.lexed).1,
      mask_text h.lexed]
  rw [Indentation.sight, Indentation.startsWith_trimEnd _ h.front,
    Indentation.startsWith_trimEnd _ h.front, Indentation.endsWith_trimEnd, isElse_text h.lexed, control]
  rfl

/-- Code with the same start, end and lead. -/
theorem alike_of_eq {c d : Code} (hc : Sound c) (hd : Sound d) (empty : c = [] ↔ d = [])
    (starts : ∀ p, (∀ q, Token.isQuote q = true → p q = false) → c.text.head?.any p = d.text.head?.any p)
    (ends : (c.text.filter isInk).getLast?.any Indentation.opensGroup =
      (d.text.filter isInk).getLast?.any Indentation.opensGroup)
    (leads : Indentation.leads (masked 0 c) = Indentation.leads (masked 0 d)) :
    Indentation.Alike c.text d.text := by
  have bare {e : Code} (he : Sound e) : (trimEnd e.text).isEmpty = true ↔ e = [] := by
    cases e with
    | nil => exact iff_of_true rfl rfl
    | cons x e =>
        refine iff_of_false (fun hnil => ?_) (List.cons_ne_nil x e)
        obtain ⟨c, r, hcr⟩ := List.exists_cons_of_ne_nil (text_ne_nil he.lexed)
        have notBlank := he.front c r hcr
        rw [hcr, show c :: r = [c] ++ r from rfl,
          trimEnd_append_ink (List.forall_mem_singleton.mpr notBlank)] at hnil
        cases hnil
  have notQuote (p : Char → Bool) (hp : p '"' = false ∧ p '\'' = false) :
      ∀ q, Token.isQuote q = true → p q = false := by
    intro q hq
    simp only [Token.isQuote, Bool.or_eq_true, beq_iff_eq] at hq
    rcases hq with rfl | rfl
    · exact hp.2
    · exact hp.1
  constructor
  · rw [Bool.eq_iff_iff, bare hc, bare hd, empty]
  · rw [sight_text hc, sight_text hd, ends, leads, starts _ (notQuote _ ⟨rfl, rfl⟩),
      starts _ (notQuote _ ⟨rfl, rfl⟩)]

/-! Other gaps. -/

section Gaps

variable {φ : GapChange}

theorem filter_text_mapGaps (apart : KeepsApart φ) {c : Code} (h : Lexed c) (before : List Atom) :
    (text (mapGaps φ before c)).filter isInk = c.text.filter isInk := by
  induction c generalizing before with
  | nil => rfl
  | cons x c ih =>
      obtain ⟨fits, joint, rest⟩ := h
      have changed := apart _ before _ _ fits (fits_first? rest) joint
      rw [mapGaps, text, text]
      simp only [List.filter_append, filter_gap joint, filter_gap changed, ih rest]

theorem leads_masked {c : Code} (h : Lexed c) (n : Nat) : Indentation.leads (masked n c) =
    (isOnly "else".toList n (skipBrace c) ||
      ControlKeyword.indenting.any fun k => heads k n (skipElse (skipBrace c))) := by
  rw [Indentation.leads, isElse_masked h]
  simp only [start_masked h]

theorem leads_mapGaps (apart : KeepsApart φ) {c : Code} (h : Lexed c) (n : Nat)
    (before : List Atom) :
    Indentation.leads (masked n (mapGaps φ before c)) = Indentation.leads (masked n c) := by
  have brace := lexed_skipBrace h
  obtain ⟨before', hbrace⟩ := skipBrace_mapGaps (φ := φ) before c
  obtain ⟨before'', helse⟩ := skipElse_mapGaps (φ := φ) before' (skipBrace c)
  rw [leads_masked h, leads_masked (lexed_mapGaps apart h before), hbrace, helse,
    isOnly_mapGaps apart brace]
  simp only [heads_mapGaps apart (lexed_skipElse brace)]

theorem alike_mapGaps (apart : KeepsApart φ) {c : Code} (h : Sound c) :
    Indentation.Alike c.text (text (mapGaps φ [] c)) := by
  have sound := h.mapGaps apart
  apply alike_of_eq h sound
  · cases c with
    | nil => exact Iff.rfl
    | cons x c => exact iff_of_false (List.cons_ne_nil _ _) (List.cons_ne_nil _ _)
  · intro p _
    rw [head?_text h.lexed, head?_text sound.lexed, first?_mapGaps]
  · rw [filter_text_mapGaps apart h.lexed]
  · rw [leads_mapGaps apart h.lexed]

end Gaps

/-! The other quote. -/

theorem any_of_map_plainQuote {a b : Option Char} (h : a.map plainQuote = b.map plainQuote)
    {p : Char → Bool} (hp : ∀ q, Token.isQuote q = true → p q = false) : a.any p = b.any p := by
  cases a with
  | none =>
      cases b with
      | none => rfl
      | some d => cases h
  | some c =>
      cases b with
      | none => cases h
      | some d =>
          rcases Token.isQuote_of_plainQuote_eq (Option.some.inj h) with rfl | ⟨hc, hd⟩
          · rfl
          · rw [Option.any_some, Option.any_some, hp c hc, hp d hd]

theorem masked_mapLiterals (ρ : Text → Text) (n : Nat) (c : Code) :
    masked n (mapLiterals ρ c) = masked n c := by
  rw [masked, pieces_mapLiterals, Semicolon.numbered_mapLiteral, masked]

theorem alike_restyled {style : QuoteStyle} {c : Code} (h : Sound c)
    (settled : Quote.Settled style (literals c.pieces)) :
    Indentation.Alike c.text (text (mapLiterals (Quote.restyle style) c)) := by
  have sound := sound_restyled h settled
  have restyled := restyle_text h.lexed settled.before
  have opening (q : Char) (hq : Token.isQuote q = true) : Indentation.opensGroup q = false := by
    simp only [Token.isQuote, Bool.or_eq_true, beq_iff_eq] at hq
    rcases hq with rfl | rfl <;> rfl
  apply alike_of_eq h sound
  · rw [mapLiterals, List.map_eq_nil_iff]
  · intro p hp
    refine (any_of_map_plainQuote ?_ hp).symm
    rw [← List.head?_map, ← List.head?_map, ← restyled, Quote.map_plainQuote_restyle]
  · refine (any_of_map_plainQuote ?_ opening).symm
    rw [← List.getLast?_map, ← List.getLast?_map, ← essence_eq, ← essence_eq, ← restyled,
      Quote.essence_restyle]
  · rw [masked_mapLiterals]

/-! A semicolon. -/

theorem closesLine_of_isTail {c : Code} (h : Lexed c) (hc : ∀ x ∈ c, x.atom.isTail = true) :
    ∀ d, .code d ∈ c.pieces → Semicolon.closesLine d = true := by
  induction c with
  | nil => exact fun d hd => absurd hd List.not_mem_nil
  | cons x c ih =>
      obtain ⟨hx, rest⟩ := List.forall_mem_cons.mp hc
      intro d hd
      rw [pieces, List.mem_append, List.mem_append] at hd
      rcases hd with hd | hd | hd
      · cases hatom : x.atom with
        | symbol e =>
            rw [hatom] at hd hx
            rw [Piece.code.inj (List.mem_singleton.mp hd)]
            exact hx
        | literal t =>
            rw [hatom] at hd
            cases List.mem_singleton.mp hd
        | _ =>
            rw [hatom] at hx
            cases hx
      · obtain ⟨e, he, hed⟩ := List.mem_map.mp hd
        rw [← Piece.code.inj hed, Semicolon.closesLine, isBlank_of_isSpaceOrTab (h.2.1.blank e he)]
        rfl
      · exact ih h.2.2 rest d hd

/-- Behind what takes a semicolon no bracket is left open. -/
theorem concat_of_follows {a : Atom} (fits : a.Fits) (notComment : a.isComment = false)
    (follows : ∀ d, a.pieces.getLast? = some (.code d) → Semicolon.follows d = true) :
    ∃ x d, a.text = x ++ [d] ∧ isBlank d = false ∧ Indentation.opensGroup d = false := by
  by_cases hliteral : ∃ t, a = .literal t
  · obtain ⟨t, rfl⟩ := hliteral
    obtain ⟨x, q, ht, hq⟩ := concat_of_pieces_eq_literal fits.1 notComment
    refine ⟨x, q, ht, ?_⟩
    simp only [Token.isQuote, Bool.or_eq_true, beq_iff_eq] at hq
    rcases hq with rfl | rfl <;> exact ⟨rfl, rfl⟩
  · have code := not_exists.mp hliteral
    obtain ⟨x, d, hx⟩ := (List.eq_nil_or_concat a.text).resolve_left (Atom.text_ne_nil fits)
    rw [List.concat_eq_append] at hx
    have here := follows d (by rw [Atom.pieces_eq code, hx, List.map_append]; exact List.getLast?_concat)
    simp only [Semicolon.follows, Bool.and_eq_true, Bool.not_eq_true'] at here
    exact ⟨x, d, hx, here.1.1.1⟩

/-- The code of a body is what its masked code is without the blanks at its end. -/
theorem numbered_bodyCode {ps : List Piece} {m : Text} {c : Char}
    (h : trimEnd (numbered 0 ps) = m ++ [c]) (hc : c ≠ mark) :
    numbered 0 (Semicolon.bodyCode ps) = m ++ [c] := by
  obtain ⟨b, whole, hb⟩ := dropEndWhile_spec isBlank (numbered 0 ps)
  rw [show dropEndWhile isBlank (numbered 0 ps) = m ++ [c] from h, List.append_assoc,
    List.singleton_append] at whole
  have clean : mark ∉ c :: b := by
    rw [List.mem_cons, not_or]
    exact ⟨hc.symm, fun hm => absurd (hb _ hm) (by decide)⟩
  obtain ⟨qs, rfl, rfl⟩ := of_append_eq_numbered whole clean
  have notBlank := isBlank_of_trimEnd_concat h
  rw [List.map_cons, Semicolon.bodyCode_of_tail notBlank (.blanks hb), numbered_append]
  rfl

/-- Code that takes a semicolon leads no other line. -/
theorem leads_of_terminate? {c : Code} (h : Sound c)
    (taken : (Semicolon.terminate? (numbered 0 (Semicolon.bodyCode c.pieces))).isSome = true) :
    Indentation.leads (masked 0 c) = false := by
  rw [← Bool.not_eq_true]
  intro hleads
  rw [Indentation.leads, Bool.or_eq_true] at hleads
  rcases hleads with helse | hheads
  · obtain ⟨m, hm⟩ := Indentation.concat_of_isElse helse
    have noStatement := Semicolon.not_isStatement_of_isElse helse
    rw [numbered_bodyCode hm.symm (by decide), hm, Semicolon.terminate?, ← hm, List.getLast?_concat, hm,
      noStatement] at taken
    cases taken
  · obtain ⟨k, hk, hheads⟩ := List.any_eq_true.mp hheads
    obtain ⟨m, hm⟩ := Indentation.concat_of_heads hheads
    have control : Header.isControl ControlKeyword.all (trimEnd (masked 0 c)) = true := by
      rw [Header.isControl_eq, Indentation.trim_trimEnd (unindented_masked h),
        mask_trimEnd (not_newline_masked h.lexed 0), mask_masked h.lexed, List.any_eq_true]
      exact ⟨k, by cases k <;> decide, hheads⟩
    rw [numbered_bodyCode hm.symm (by decide), hm, Semicolon.terminate?, ← hm, List.getLast?_concat, hm,
      control] at taken
    simp at taken

/-- A semicolon with no parenthesis closed behind it leads no other line. -/
theorem not_leads_of_semicolon {front back : Text} (noParen : ')' ∉ back) :
    Indentation.leads (front ++ ';' :: back) = false := by
  have ink : (trimEnd (front ++ ';' :: back)).filter isInk =
      front.filter isInk ++ ';' :: back.filter isInk := by
    rw [trimEnd, filter_dropEndWhile isInk_of_isBlank, List.filter_append,
      List.filter_cons_of_pos (by decide)]
  rw [← Bool.not_eq_true]
  intro hleads
  rw [Indentation.leads, Bool.or_eq_true] at hleads
  rcases hleads with helse | hheads
  · have inside : ';' ∈ (trimEnd (front ++ ';' :: back)).filter isInk := by
      rw [ink]
      exact List.mem_append_right _ (List.mem_cons_self ..)
    exact absurd (Indentation.isElsePart_of_isElse helse ';' (List.mem_filter.mp inside).1) (by decide)
  · obtain ⟨k, -, hheads⟩ := List.any_eq_true.mp hheads
    obtain ⟨m, hm⟩ := Indentation.concat_of_heads hheads
    have last := congrArg List.getLast? ink
    rw [← hm, List.filter_append, List.filter_cons_of_pos (by decide), List.filter_nil,
      List.getLast?_concat, List.getLast?_append_of_ne_nil _ (List.cons_ne_nil _ _)] at last
    rcases List.mem_cons.mp (List.mem_of_getLast? last.symm) with hsemi | hback
    · cases hsemi
    · exact noParen (List.mem_filter.mp hback).1

section Added

variable {l r : Code} {a : Atom} {g : Text}

theorem leads_added (h : Lexed (l ++ ⟨a, []⟩ :: ⟨.symbol ';', g⟩ :: r))
    (hr : ∀ x ∈ r, x.atom.isTail = true) :
    Indentation.leads (masked 0 (l ++ ⟨a, []⟩ :: ⟨.symbol ';', g⟩ :: r)) = false := by
  have rest := (lexed_of_append h).2.2
  rw [masked, pieces_added, numbered_append]
  refine not_leads_of_semicolon fun hm => ?_
  rcases List.mem_append.mp (code_mem_of_mem_numbered (by decide) (by decide) hm) with hd | hd
  · obtain ⟨e, he, hed⟩ := List.mem_map.mp hd
    have blank := rest.2.1.blank e he
    rw [Piece.code.inj hed] at blank
    cases blank
  · exact absurd (closesLine_of_isTail rest.2.2 hr ')' hd) (by decide)

/-- Whatever stands behind, what takes a semicolon opens no bracket at the end. -/
theorem opens_added {x : Text} {d : Char} (ha : a.text = x ++ [d]) (hblank : isBlank d = false)
    (hopens : Indentation.opensGroup d = false) :
    ((text (l ++ ⟨a, g⟩ :: r)).filter isInk).getLast?.any Indentation.opensGroup =
      ((text (l ++ ⟨a, []⟩ :: ⟨.symbol ';', g⟩ :: r)).filter isInk).getLast?.any
        Indentation.opensGroup := by
  have before : text (l ++ ⟨a, g⟩ :: r) = (text l ++ x ++ [d]) ++ (g ++ text r) := by
    simp [text_append, text, ha]
  have after : text (l ++ ⟨a, []⟩ :: ⟨.symbol ';', g⟩ :: r) =
      (text l ++ x ++ [d] ++ [';']) ++ (g ++ text r) := by
    have one : (Atom.symbol ';').text = [';'] := rfl
    simp [text_append, text, ha, one]
  rw [before, after, List.filter_append, List.filter_append (text l ++ x ++ [d] ++ [';'])]
  generalize (g ++ text r).filter isInk = back
  by_cases hback : back = []
  · rw [hback, List.append_nil, List.append_nil, filter_isInk_concat _ hblank,
      filter_isInk_concat _ rfl, List.getLast?_concat, List.getLast?_concat, Option.any_some,
      Option.any_some, hopens]
    rfl
  · rw [List.getLast?_append_of_ne_nil _ hback, List.getLast?_append_of_ne_nil _ hback]

end Added

theorem alike_terminated {c d : Code} (h : Sound c) (hd : Sound d) (terminated : Terminated c d) :
    Indentation.Alike c.text d.text := by
  cases terminated with
  | same => exact .refl _
  | @added l a g r hc notComment hr follows taken =>
      subst hc
      have first : first? (l ++ ⟨a, []⟩ :: ⟨.symbol ';', g⟩ :: r) = first? (l ++ ⟨a, g⟩ :: r) := by
        cases l <;> rfl
      obtain ⟨x, e, ha, hblank, hopens⟩ :=
        concat_of_follows (lexed_of_append h.lexed).1 notComment follows
      apply alike_of_eq h hd
      · exact iff_of_false (List.append_ne_nil_of_right_ne_nil _ (List.cons_ne_nil _ _))
          (List.append_ne_nil_of_right_ne_nil _ (List.cons_ne_nil _ _))
      · intro p _
        rw [head?_text h.lexed, head?_text hd.lexed, first]
      · exact opens_added ha hblank hopens
      · rw [leads_of_terminate? h taken, leads_added hd.lexed hr]

end Code
end MotionExpr
