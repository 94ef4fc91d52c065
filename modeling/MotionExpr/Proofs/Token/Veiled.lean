import MotionExpr.Proofs.Token.Boundary
import MotionExpr.Proofs.Token.Coverage
import MotionExpr.Proofs.Token.Literals

/-!
Texts that differ only within their literals: behind the slashes of a comment, and
between the quotes of a closed string, where neither text has the delimiter or a
backslash. They have the same tokens in the same places, but for what the literals
say. A string that is not closed is not to differ.
-/

namespace MotionExpr
namespace Token

/-! Tokens without what their literals say. -/

/-- The first character stays, so that a literal is still told from a sign. -/
def veilText : Text → Text
  | [] => []
  | c :: w => c :: w.map fun _ => '.'

def veil (t : Token) : Token := if isLiteral t.kind then { t with text := veilText t.text } else t

theorem veil_of_literal {t : Token} (h : isLiteral t.kind = true) :
    veil t = { t with text := veilText t.text } := if_pos h

theorem veil_of_not_literal {t : Token} (h : isLiteral t.kind = false) : veil t = t :=
  if_neg (by rw [h]; exact Bool.false_ne_true)

/-! Where two texts may differ. -/

/-- The token hides that `c` stands at the place in one text and `d` in the other. -/
def hides (t : Token) (line column : Int) (c d : Char) : Bool :=
  t.line = line && t.column < column && column < t.endColumn &&
    (t.kind = .comment && t.column + 1 < column ||
      t.kind = .string && isClosed t.text && column + 1 < t.endColumn &&
        [c, d].all fun e => e != '\\' && t.text.head? != some e)

/-- Two rests of a line, from the column on, equal but for what tokens hide. -/
def sameLine (ts : List Token) (line : Int) : (column : Int) → Text → Text → Bool
  | _, [], [] => true
  | column, c :: r, d :: s =>
      (c == d || ts.any fun t => t.hides line column c d) && sameLine ts line (column + 1) r s
  | _, _, _ => false

/-- Lines from one on, equal in number and each equal but for what tokens hide. -/
def sameLines (ts : List Token) : (line : Int) → List Text → List Text → Bool
  | _, [], [] => true
  | line, l :: ls, u :: us => sameLine ts line 1 l u && sameLines ts (line + 1) ls us
  | _, _, _ => false

/-- The second text differs from the first only within literals of the first. -/
def differInLiterals (p : Profile) (source other : Text) : Bool :=
  sameLines (tokenize p source) 1 (Text.lines source) (Text.lines other)

variable {p : Profile} {ts : List Token} {line column : Int}

theorem length_of_sameLine {l u : Text} (h : sameLine ts line column l u = true) :
    l.length = u.length := by
  induction l generalizing column u with
  | nil =>
      cases u with
      | nil => rfl
      | cons d s => cases h
  | cons c r ih =>
      cases u with
      | nil => cases h
      | cons d s =>
          rw [sameLine, Bool.and_eq_true] at h
          rw [List.length_cons, List.length_cons, ih h.2]

theorem sameLine_cons {c d : Char} {r s : Text} :
    sameLine ts line column (c :: r) (d :: s) = true ↔
      (c = d ∨ ∃ t ∈ ts, t.hides line column c d = true) ∧
        sameLine ts line (column + 1) r s = true := by
  rw [sameLine, Bool.and_eq_true, Bool.or_eq_true, beq_iff_eq, List.any_eq_true]

theorem of_sameLine_cons {c : Char} {r u : Text} (h : sameLine ts line column (c :: r) u = true) :
    ∃ d s, u = d :: s := by
  cases u with
  | nil => cases h
  | cons d s => exact ⟨d, s, rfl⟩

theorem of_sameLine_append {a b u : Text} (h : sameLine ts line column (a ++ b) u = true) :
    ∃ v s, u = v ++ s ∧ sameLine ts line column a v = true ∧
      sameLine ts line (column + a.length) b s = true := by
  induction a generalizing column u with
  | nil => exact ⟨[], u, rfl, rfl, by simpa using h⟩
  | cons c r ih =>
      obtain ⟨d, s, rfl⟩ := of_sameLine_cons h
      obtain ⟨here, rest⟩ := sameLine_cons.mp h
      obtain ⟨v, s, rfl, front, behind⟩ := ih rest
      refine ⟨d :: v, s, rfl, sameLine_cons.mpr ⟨here, front⟩, ?_⟩
      rwa [List.length_cons, show column + (r.length + 1 : Nat) = column + 1 + r.length by omega]

theorem bounds_of_hides {t : Token} {c d : Char} (h : t.hides line column c d = true) :
    t.line = line ∧ t.column < column ∧ column < t.endColumn := by
  simp only [hides, Bool.and_eq_true, decide_eq_true_eq] at h
  exact ⟨h.1.1.1, h.1.1.2, h.1.2⟩

/-- Tokens of other lines and tokens beside the text hide nothing of it. -/
theorem sameLine_of_others {us : List Token} {l u : Text} (h : sameLine ts line column l u = true)
    (others : ∀ t ∈ ts, t ∈ us ∨ t.line ≠ line ∨ t.endColumn ≤ column ∨
      column + l.length ≤ t.column + 1) : sameLine us line column l u = true := by
  induction l generalizing column u with
  | nil =>
      cases u with
      | nil => rfl
      | cons d s => cases h
  | cons c r ih =>
      obtain ⟨d, s, rfl⟩ := of_sameLine_cons h
      obtain ⟨here, rest⟩ := sameLine_cons.mp h
      simp only [List.length_cons] at others
      refine sameLine_cons.mpr ⟨here.imp id ?_, ih rest fun t ht => ?_⟩
      · rintro ⟨t, ht, hidden⟩
        obtain ⟨row, start, stop⟩ := bounds_of_hides hidden
        refine ⟨t, (others t ht).resolve_right ?_, hidden⟩
        omega
      · refine (others t ht).imp id fun beside => ?_
        omega

/-- Where no token has begun nothing is hidden. -/
theorem head?_of_sameLine {l u : Text} (h : sameLine ts line column l u = true)
    (later : ∀ t ∈ ts, column ≤ t.column) : l.head? = u.head? := by
  cases l with
  | nil =>
      cases u with
      | nil => rfl
      | cons d s => cases h
  | cons c r =>
      obtain ⟨d, s, rfl⟩ := of_sameLine_cons h
      refine congrArg some ((sameLine_cons.mp h).1.resolve_right ?_)
      rintro ⟨t, ht, hidden⟩
      have place := later t ht
      have start := (bounds_of_hides hidden).2.1
      omega

/-- What relates the characters of two texts wherever they are equal and wherever a token hides
them, relates the texts. -/
theorem forall₂_of_sameLine {R : Char → Char → Prop} {l u : Text}
    (h : sameLine ts line column l u = true) (refl : ∀ c, R c c)
    (hidden : ∀ t ∈ ts, ∀ k c d, t.hides line k c d = true → R c d) : List.Forall₂ R l u := by
  induction l generalizing column u with
  | nil =>
      cases u with
      | nil => exact .nil
      | cons d s => cases h
  | cons c r ih =>
      obtain ⟨d, s, rfl⟩ := of_sameLine_cons h
      obtain ⟨here, rest⟩ := sameLine_cons.mp h
      refine .cons ?_ (ih rest)
      rcases here with rfl | ⟨t, ht, hides⟩
      · exact refl c
      · exact hidden t ht _ c d hides

theorem map_length_of_sameLines {ls us : List Text} (h : sameLines ts line ls us = true) :
    ls.map List.length = us.map List.length := by
  induction ls generalizing line us with
  | nil =>
      cases us with
      | nil => rfl
      | cons u us => cases h
  | cons l ls ih =>
      cases us with
      | nil => cases h
      | cons u us =>
          rw [sameLines, Bool.and_eq_true] at h
          rw [List.map_cons, List.map_cons, length_of_sameLine h.1, ih h.2]

/-! A token and what another text has in its place. -/

/-- Characters that a string with this delimiter passes alike. -/
def Alternates (quote c d : Char) : Prop :=
  c = d ∨ (c ≠ '\\' ∧ c ≠ quote) ∧ (d ≠ '\\' ∧ d ≠ quote)

theorem stringRest_of_alternates {quote : Char} {w v : Text}
    (h : List.Forall₂ (Alternates quote) w v) {escaped : Bool} {r s : Text}
    (read : stringRest quote escaped (w ++ r) = w) (nil : r = [] → s = []) :
    stringRest quote escaped (v ++ s) = v := by
  induction h generalizing escaped with
  | nil => exact (stringRest_eq_nil_iff quote escaped s).mpr (nil ((stringRest_eq_nil_iff ..).mp read))
  | @cons c d w v here rest ih =>
      cases escaped with
      | true =>
          simp only [List.cons_append, stringRest, List.cons.injEq, true_and] at read ⊢
          exact ih read
      | false =>
          simp only [List.cons_append, stringRest] at read ⊢
          by_cases hc : c = quote
          · obtain rfl : c = d := here.resolve_right fun differ => differ.1.2 hc
            rw [if_pos hc, List.cons.injEq] at read
            rw [← read.2] at rest
            rw [if_pos hc, List.forall₂_nil_left_iff.mp rest]
          · have hd : d ≠ quote := by
              rcases here with rfl | differ
              · exact hc
              · exact differ.2.2
            have mark : (d == '\\') = (c == '\\') := by
              rcases here with rfl | differ
              · rfl
              · rw [beq_eq_false_iff_ne.mpr differ.1.1, beq_eq_false_iff_ne.mpr differ.2.1]
            rw [if_neg hc, List.cons.injEq] at read
            rw [if_neg hd, mark, ih read.2]

theorem hides_of_kind {t : Token} {c d : Char} (h : t.hides line column c d = true) :
    t.kind = .comment ∨ t.kind = .string ∧ isClosed t.text = true := by
  simp only [hides, Bool.and_eq_true, Bool.or_eq_true, decide_eq_true_eq] at h
  rcases h.2 with ⟨comment, -⟩ | ⟨⟨⟨string, closed⟩, -⟩, -⟩
  · exact .inl comment
  · exact .inr ⟨string, closed⟩

theorem alternates_of_hides {t : Token} {q c d : Char} {w : Text} (text : t.text = q :: w)
    (kind : t.kind = .string) (h : t.hides line column c d = true) : Alternates q c d := by
  simp only [hides, kind, text, Bool.and_eq_true, Bool.or_eq_true, decide_eq_true_eq] at h
  rcases h.2 with ⟨comment, -⟩ | ⟨-, apart⟩
  · cases comment
  · simp only [List.all_cons, List.all_nil, Bool.and_true, Bool.and_eq_true, bne_iff_ne,
      List.head?_cons, ne_eq, Option.some.injEq] at apart
    exact .inr ⟨⟨apart.1.1, Ne.symm apart.1.2⟩, apart.2.1, Ne.symm apart.2.2⟩

theorem not_hides_slash {t : Token} (kind : t.kind = .comment) (c d : Char) :
    t.hides line (t.column + 1) c d = false := by
  simp [hides, kind]

section Reread

variable {c : Char} {kind : TokenKind} {w v behind rest : Text}
  (h : lexeme? p c (w ++ behind) = some (kind, c :: w))
  (same : sameLine [⟨kind, c :: w, line, column⟩] line (column + 1) w v = true)
  (head : behind.head? = rest.head?)

include h same head

theorem lexeme?_of_comment (hkind : kind = .comment) :
    lexeme? p c (v ++ rest) = some (kind, c :: v) := by
  subst hkind
  obtain ⟨string, -⟩ | ⟨starts, whole⟩ := Literal.of_lexeme?_literal h rfl
  · cases string
  · obtain rfl : behind = [] := List.self_eq_append_right.mp (List.cons_eq_cons.mp whole).2
    obtain rfl : rest = [] := List.head?_eq_none_iff.mp head.symm
    obtain ⟨hc, second⟩ := (Text.isPrefixOf_pair '/' '/' c _).mp starts
    rw [List.append_nil] at second ⊢
    cases w with
    | nil => cases second
    | cons d w =>
        obtain ⟨e, v, rfl⟩ := of_sameLine_cons same
        have slash : d = e := by
          refine (sameLine_cons.mp same).1.resolve_right ?_
          rintro ⟨t, ht, hidden⟩
          rw [List.mem_singleton.mp ht, not_hides_slash rfl d e] at hidden
          cases hidden
        have again : startsComment (c :: e :: v) = true :=
          (Text.isPrefixOf_pair '/' '/' c _).mpr ⟨hc, slash ▸ second⟩
        exact (Shape.comment again).lexeme?

theorem lexeme?_of_string (hkind : kind = .string) :
    lexeme? p c (v ++ rest) = some (kind, c :: v) := by
  subst hkind
  have quote : isQuote c = true := by
    obtain ⟨-, quote⟩ | ⟨starts, -⟩ := Literal.of_lexeme?_literal h rfl
    · exact quote
    · rw [(Shape.comment starts).lexeme?] at h
      cases h
  have read : stringRest c false (w ++ behind) = w := by
    rw [(Shape.string quote).lexeme?] at h
    exact (List.cons_eq_cons.mp (Prod.mk.inj (Option.some.inj h)).2).2
  have alternates : List.Forall₂ (Alternates c) w v := by
    refine forall₂_of_sameLine same (fun _ => .inl rfl) fun t ht k d e hidden => ?_
    obtain rfl := List.mem_singleton.mp ht
    exact alternates_of_hides rfl rfl hidden
  have nil : behind = [] → rest = [] := by
    rintro rfl
    exact List.head?_eq_none_iff.mp head.symm
  rw [(Shape.string quote).lexeme?, stringRest_of_alternates alternates read nil]

/-- A token is read again where a text differs by what the token hides only. -/
theorem lexeme?_of_hides : lexeme? p c (v ++ rest) = some (kind, c :: v) ∧
    (isLiteral kind = false → v = w) := by
  by_cases hides : kind = .comment ∨ kind = .string
  · have literal : isLiteral kind = true := by
      rcases hides with rfl | rfl <;> rfl
    refine ⟨?_, fun plain => absurd literal (by rw [plain]; exact Bool.false_ne_true)⟩
    rcases hides with comment | string
    · exact lexeme?_of_comment h same head comment
    · exact lexeme?_of_string h same head string
  · have equal : List.Forall₂ Eq w v := by
      refine forall₂_of_sameLine same (fun _ => rfl) fun t ht k d e hidden => absurd ?_ hides
      obtain rfl := List.mem_singleton.mp ht
      exact (hides_of_kind hidden).imp id And.left
    obtain rfl : w = v := List.forall₂_eq_eq_eq ▸ equal
    exact ⟨lexeme?_of_alike h (.inl head), fun _ => rfl⟩

end Reread

/-! A line and a text. -/

theorem veil_of_length_eq {kind : TokenKind} {c : Char} {w v : Text} (size : w.length = v.length)
    (text : isLiteral kind = false → v = w) :
    veil ⟨kind, c :: v, line, column⟩ = veil ⟨kind, c :: w, line, column⟩ := by
  cases literal : isLiteral kind with
  | true =>
      have dots : v.map (fun _ => '.') = w.map fun _ => '.' := by
        rw [List.map_const', List.map_const', size]
      rw [veil_of_literal literal, veil_of_literal literal]
      simp only [veilText, dots]
  | false => rw [text literal]

/-- In a token only that may differ which it hides itself. -/
theorem sameLine_token {t : Token} {ts : List Token} {w v : Text}
    (later : ∀ t' ∈ ts, column + w.length ≤ t'.column)
    (same : sameLine (t :: ts) line column w v = true) : sameLine [t] line column w v = true := by
  refine sameLine_of_others same fun t' ht => (List.mem_cons.mp ht).imp ?_ fun ht => ?_
  · rintro rfl
    exact List.mem_singleton_self _
  · have place := later t' ht
    omega

theorem sameLine_behind {t : Token} {ts : List Token} {w v : Text} (ends : t.endColumn ≤ column)
    (same : sameLine (t :: ts) line column w v = true) : sameLine ts line column w v = true := by
  refine sameLine_of_others same fun t' ht => (List.mem_cons.mp ht).symm.imp id ?_
  rintro rfl
  exact .inr (.inl ends)

theorem map_veil_scanLine {l u : Text}
    (same : sameLine (scanLine p line column 0 l) line column l u = true) :
    (scanLine p line column 0 u).map veil = (scanLine p line column 0 l).map veil := by
  induction l using scan_induction p generalizing column u with
  | nil =>
      cases u with
      | nil => rfl
      | cons d s => cases same
  | blank c r hc ih =>
      have first := head?_of_sameLine same fun t ht => (of_mem_scanLine ht).2.1
      obtain ⟨d, s, rfl⟩ := of_sameLine_cons same
      obtain rfl : c = d := Option.some.inj first
      have blank : lexeme? p c s = none := lexeme?_eq_none_iff.mpr (lexeme?_eq_none_iff.mp hc)
      rw [scanLine_of_none hc] at same ⊢
      rw [scanLine_of_none blank]
      exact ih (sameLine_cons.mp same).2
  | token c kind w behind hc ih =>
      have first := head?_of_sameLine same fun t ht => (of_mem_scanLine ht).2.1
      obtain ⟨d, s, rfl⟩ := of_sameLine_cons same
      obtain rfl : c = d := Option.some.inj first
      rw [scanLine_of_some hc] at same ⊢
      obtain ⟨v, rest, rfl, inside, outside⟩ := of_sameLine_append (sameLine_cons.mp same).2
      have width := length_of_sameLine inside
      have place : column + 1 + w.length = column + (c :: w).length := by
        rw [List.length_cons]
        omega
      have own := sameLine_token (fun t ht => place.trans_le (of_mem_scanLine ht).2.1) inside
      rw [place] at outside
      have others := sameLine_behind (Int.le_refl _) outside
      obtain ⟨again, text⟩ := lexeme?_of_hides hc own
        (head?_of_sameLine others fun t ht => (of_mem_scanLine ht).2.1)
      have size : (c :: v).length = (c :: w).length := by rw [List.length_cons, ← width]; rfl
      rw [scanLine_of_some again, List.map_cons, List.map_cons, size, ih others,
        veil_of_length_eq width text]

theorem map_veil_scanLines {first : Int} {ls us : List Text}
    (h : sameLines ts first ls us = true)
    (own : ∀ t ∈ ts, first ≤ t.line → t ∈ scanLines p first ls) :
    (scanLines p first us).map veil = (scanLines p first ls).map veil := by
  induction ls generalizing first us with
  | nil =>
      cases us with
      | nil => rfl
      | cons u us => cases h
  | cons l ls ih =>
      cases us with
      | nil => cases h
      | cons u us =>
          rw [sameLines, Bool.and_eq_true] at h
          have here : (scanLine p first 1 0 u).map veil = (scanLine p first 1 0 l).map veil := by
            refine map_veil_scanLine (sameLine_of_others h.1 fun t ht => ?_)
            by_cases row : t.line = first
            · refine .inl ((List.mem_append.mp (own t ht (by omega))).resolve_right fun later => ?_)
              have below := (of_mem_scanLines later).1
              omega
            · exact .inr (.inl row)
          rw [scanLines, scanLines, List.map_append, List.map_append, here, ih h.2]
          intro t ht below
          refine (List.mem_append.mp (own t ht (by omega))).resolve_left fun front => ?_
          have place := (of_mem_scanLine front).1
          omega

/-- Texts that differ within literals only have the same tokens but for what these say, and
lines of the same lengths. -/
theorem of_differInLiterals {source other : Text} (h : differInLiterals p source other = true) :
    (tokenize p other).map veil = (tokenize p source).map veil ∧
      (Text.lines other).map List.length = (Text.lines source).map List.length :=
  ⟨map_veil_scanLines h fun _ ht _ => ht, (map_length_of_sameLines h).symm⟩

end Token
end MotionExpr
