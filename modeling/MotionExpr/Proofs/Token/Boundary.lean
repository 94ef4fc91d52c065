import Mathlib.Data.List.Basic
import Mathlib.Data.List.Find
import MotionExpr.Proofs.Token.Lexemes
import MotionExpr.Proofs.Token.Shape

/-!
What a token needs to know of the text behind it: the character that comes next,
and of that only which one it is or that it begins a word. So a word can be put
in the place of another without a change to the token in front of it, and a blank
or the end of the line behind a token leaves it as it is.
-/

namespace MotionExpr
namespace Token

/-- Texts that begin with the same character or both with a word. -/
def Alike (r s : Text) : Prop :=
  r.head? = s.head? ∨
    ∃ c d, r.head? = some c ∧ s.head? = some d ∧ startsWord c = true ∧ startsWord d = true

/-- Texts that begin with the same character, or the first with a word and the second with a character
that a word goes on with. -/
def Kindred (r s : Text) : Prop :=
  r.head? = s.head? ∨
    ∃ c d, r.head? = some c ∧ s.head? = some d ∧ startsWord c = true ∧ continuesWord d = true

theorem continuesWord_of_startsWord (c : Char) (h : startsWord c = true) :
    continuesWord c = true := by
  simp [continuesWord, h]

theorem Alike.kindred {r s : Text} (h : Alike r s) : Kindred r s :=
  h.imp id fun ⟨c, d, hc, hd, wordC, wordD⟩ =>
    ⟨c, d, hc, hd, wordC, continuesWord_of_startsWord d wordD⟩

theorem Kindred.append {r s : Text} (h : Kindred r s) (w : Text) : Kindred (w ++ r) (w ++ s) := by
  cases w with
  | nil => exact h
  | cons c w => exact .inl rfl

theorem Kindred.eq_nil {s : Text} (h : Kindred [] s) : s = [] := by
  cases h with
  | inl h => exact List.head?_eq_none_iff.mp h.symm
  | inr h =>
      obtain ⟨c, d, hc, -⟩ := h
      cases hc

/-- Nothing that begins a word is told apart by `q`. -/
theorem Alike.head {q : Char → Bool} {b : Bool} (hq : ∀ c, startsWord c = true → q c = b)
    {r s : Text} (h : Alike r s) (hr : ∀ c ∈ r.head?, q c = false) : ∀ d ∈ s.head?, q d = false := by
  intro d hd
  cases h with
  | inl h => exact hr d (h ▸ hd)
  | inr h =>
      obtain ⟨c, e, hc, he, wordC, wordE⟩ := h
      cases he.symm.trans hd
      rw [hq d wordE, ← hq c wordC]
      exact hr c hc

/-! Operators of two characters. -/

theorem of_mem_pairOperators {op : Text} (h : op ∈ Language.pairOperators) :
    ∃ a b, op = [a, b] ∧ continuesWord b = false := by
  have checked : (Language.pairOperators.all fun op =>
      op.length == 2 && op.tail.all (!continuesWord ·)) = true := by decide
  have here := List.all_eq_true.mp checked op h
  rw [Bool.and_eq_true, beq_iff_eq, List.length_eq_two] at here
  obtain ⟨⟨a, b, rfl⟩, hb⟩ := here
  exact ⟨a, b, rfl, by simpa using hb⟩

theorem isPrefixOf_of_kindred {a b c : Char} (hb : continuesWord b = false) {r s : Text}
    (h : Kindred r s) : [a, b].isPrefixOf (c :: s) = [a, b].isPrefixOf (c :: r) := by
  have second : s.head? = some b ↔ r.head? = some b := by
    cases h with
    | inl h => rw [h]
    | inr h =>
        obtain ⟨d, e, hd, he, wordD, wordE⟩ := h
        have ne {x : Char} (hx : continuesWord x = true) : x ≠ b := by
          rintro rfl
          rw [hx] at hb
          cases hb
        simp [hd, he, ne (continuesWord_of_startsWord d wordD), ne wordE]
  rw [Bool.eq_iff_iff, Text.isPrefixOf_pair, Text.isPrefixOf_pair, second]

theorem pairOperator?_of_kindred (c : Char) {r s : Text} (h : Kindred r s) :
    pairOperator? (c :: s) = pairOperator? (c :: r) := by
  apply List.find?_congr
  intro op hop
  obtain ⟨a, b, rfl, hb⟩ := of_mem_pairOperators hop
  exact isPrefixOf_of_kindred hb h

theorem startsComment_of_kindred (c : Char) {r s : Text} (h : Kindred r s) :
    startsComment (c :: s) = startsComment (c :: r) :=
  isPrefixOf_of_kindred (by decide) h

/-! Words and numbers, and what ends them. -/

theorem continuesNumber_of_startsWord (c : Char) (h : startsWord c = true) :
    continuesNumber c = false :=
  Text.of_ascii (P := fun c => startsWord c = true → continuesNumber c = false)
    (Text.toNat_lt_of_startsWord h) (by decide) h

theorem takeWhile_append_eq_iff {α : Type} {q : α → Bool} (w r : List α) :
    (w ++ r).takeWhile q = w ↔ (∀ c ∈ w, q c = true) ∧ ∀ c ∈ r.head?, q c = false := by
  induction w with
  | nil => cases r <;> simp [List.takeWhile_cons]
  | cons d w ih =>
      cases hd : q d with
      | true => simp [hd, ih]
      | false => simp [hd]

theorem stringRest_eq_nil_iff (quote : Char) (escaped : Bool) (t : Text) :
    stringRest quote escaped t = [] ↔ t = [] := by
  cases t with
  | nil => cases escaped <;> simp [stringRest]
  | cons c r =>
      cases escaped with
      | true => simp [stringRest]
      | false =>
          rw [stringRest]
          split <;> simp

/-- A string runs to the end, or is the same whatever follows it. -/
theorem of_stringRest_append {quote : Char} {escaped : Bool} {w r : Text}
    (h : stringRest quote escaped (w ++ r) = w) :
    r = [] ∨ ∀ s, stringRest quote escaped (w ++ s) = w := by
  induction w generalizing escaped with
  | nil => exact .inl ((stringRest_eq_nil_iff quote escaped r).mp h)
  | cons c w ih =>
      cases escaped with
      | true =>
          simp only [List.cons_append, stringRest, List.cons.injEq, true_and] at h ⊢
          exact ih h
      | false =>
          simp only [List.cons_append, stringRest] at h ⊢
          by_cases hc : c = quote
          · rw [if_pos hc, List.cons.injEq] at h
            exact .inr fun s => by rw [if_pos hc, ← h.2]
          · simp only [hc, ite_false, List.cons.injEq, true_and] at h ⊢
            exact ih h

/-- Behind a token another text may stand that is empty where the first is, goes on with no
word and no number that the first ends, and makes no operator or comment of the token. -/
theorem lexeme?_of_stops {p : Profile} {c : Char} {kind : TokenKind} {w r s : Text}
    (h : lexeme? p c (w ++ r) = some (kind, c :: w)) (nil : r = [] → s = [])
    (word : (∀ d ∈ r.head?, continuesWord d = false) → ∀ d ∈ s.head?, continuesWord d = false)
    (number : kind = .number → (∀ d ∈ r.head?, continuesNumber d = false) →
      ∀ d ∈ s.head?, continuesNumber d = false)
    (comment : startsComment (c :: (w ++ r)) = false → startsComment (c :: (w ++ s)) = false)
    (pair : pairOperator? (c :: (w ++ r)) = none → pairOperator? (c :: (w ++ s)) = none) :
    lexeme? p c (w ++ s) = some (kind, c :: w) := by
  rw [lexeme?_eq_some_iff] at h ⊢
  generalize ht : c :: w = text at h ⊢
  cases h with
  | comment hc =>
      have read := (List.cons_eq_cons.mp ht).2
      obtain rfl : r = [] := by simpa using read
      rw [nil rfl]
      exact .comment hc
  | string hc =>
      have read := (List.cons_eq_cons.mp ht).2.symm
      cases of_stringRest_append read with
      | inl hr =>
          subst hr
          rw [nil rfl]
          exact .string hc
      | inr hr =>
          have again : Shape p c (w ++ s) .string (c :: stringRest c false (w ++ s)) := .string hc
          rw [read]
          rwa [hr s] at again
  | number hc =>
      have read := (List.cons_eq_cons.mp ht).2.symm
      have taken := (takeWhile_append_eq_iff w r).mp read
      have again : Shape p c (w ++ s) .number (c :: (w ++ s).takeWhile continuesNumber) :=
        .number hc
      rw [read]
      rwa [(takeWhile_append_eq_iff w s).mpr ⟨taken.1, number rfl taken.2⟩] at again
  | word hc =>
      have read := (List.cons_eq_cons.mp ht).2.symm
      have taken := (takeWhile_append_eq_iff w r).mp read
      have again : Shape p c (w ++ s) (classify p (c :: (w ++ s).takeWhile continuesWord))
          (c :: (w ++ s).takeWhile continuesWord) := .word hc
      rw [read]
      rwa [(takeWhile_append_eq_iff w s).mpr ⟨taken.1, word taken.2⟩] at again
  | operator hc hcomment hop =>
      obtain ⟨a, b, rfl, -⟩ := of_mem_pairOperators (List.mem_of_find?_eq_some hop)
      obtain ⟨-, rfl⟩ := List.cons_eq_cons.mp ht
      exact .operator hc (comment hcomment)
        ((pairOperator?_of_kindred c (r := [b] ++ r) (.inl rfl)).trans hop)
  | punctuation hc hcomment hop => exact .punctuation hc (comment hcomment) (pair hop)

theorem startsComment_append_of_kindred {c : Char} {w r s : Text} (h : Kindred r s)
    (hr : startsComment (c :: (w ++ r)) = false) : startsComment (c :: (w ++ s)) = false := by
  rwa [startsComment_of_kindred c (h.append w)]

theorem pairOperator?_append_of_kindred {c : Char} {w r s : Text} (h : Kindred r s)
    (hr : pairOperator? (c :: (w ++ r)) = none) : pairOperator? (c :: (w ++ s)) = none := by
  rwa [pairOperator?_of_kindred c (h.append w)]

/-- Behind a token another text may stand, if it begins alike. -/
theorem lexeme?_of_alike {p : Profile} {c : Char} {kind : TokenKind} {w r s : Text}
    (h : lexeme? p c (w ++ r) = some (kind, c :: w)) (alike : Alike r s) :
    lexeme? p c (w ++ s) = some (kind, c :: w) :=
  lexeme?_of_stops h (fun none => (none ▸ alike).kindred.eq_nil)
    (alike.head continuesWord_of_startsWord) (fun _ => alike.head continuesNumber_of_startsWord)
    (startsComment_append_of_kindred alike.kindred) (pairOperator?_append_of_kindred alike.kindred)

/-- Where it goes on as words do, all tokens but numbers are told from it. -/
theorem lexeme?_of_kindred {p : Profile} {c : Char} {kind : TokenKind} {w r s : Text}
    (h : lexeme? p c (w ++ r) = some (kind, c :: w)) (kindred : Kindred r s)
    (other : kind ≠ .number) : lexeme? p c (w ++ s) = some (kind, c :: w) := by
  refine lexeme?_of_stops h (fun none => (none ▸ kindred).eq_nil) (fun ends d hd => ?_)
    (fun number => absurd number other) (startsComment_append_of_kindred kindred)
    (pairOperator?_append_of_kindred kindred)
  cases kindred with
  | inl same => exact ends d (same ▸ hd)
  | inr words =>
      obtain ⟨e, -, he, -, word, -⟩ := words
      have stops := ends e he
      rw [continuesWord_of_startsWord e word] at stops
      cases stops

/-! What cuts a token off. -/

/-- The second text begins with a blank or as the first does, and there is none where there
is no first. -/
def Ends (r s : Text) : Prop :=
  (r = [] → s = []) ∧ ∀ d ∈ s.head?, r.head? = some d ∨ Text.isBlank d = true

theorem ends_nil (r : Text) : Ends r [] := ⟨fun _ => rfl, nofun⟩

theorem ends_blank {r : Text} (hr : r ≠ []) {d : Char} (hd : Text.isBlank d = true) (s : Text) :
    Ends r (d :: s) :=
  ⟨fun h => absurd h hr, fun _ he => .inr (Option.some.inj he ▸ hd)⟩

theorem Ends.head {q : Char → Bool} (hq : ∀ c, Text.isBlank c = true → q c = false) {r s : Text}
    (h : Ends r s) (hr : ∀ c ∈ r.head?, q c = false) : ∀ d ∈ s.head?, q d = false := by
  intro d hd
  cases h.2 d hd with
  | inl same => exact hr d same
  | inr blank => exact hq d blank

theorem isPrefixOf_of_ends {a b c : Char} (hb : Text.isBlank b = false) {w r s : Text}
    (h : Ends r s) (hs : [a, b].isPrefixOf (c :: (w ++ s)) = true) :
    [a, b].isPrefixOf (c :: (w ++ r)) = true := by
  rw [Text.isPrefixOf_pair] at hs ⊢
  refine ⟨hs.1, ?_⟩
  cases w with
  | cons d w => exact hs.2
  | nil =>
      cases h.2 b hs.2 with
      | inl same => exact same
      | inr blank =>
          rw [hb] at blank
          cases blank

theorem startsComment_of_ends {c : Char} {w r s : Text} (h : Ends r s)
    (hr : startsComment (c :: (w ++ r)) = false) : startsComment (c :: (w ++ s)) = false := by
  rw [← Bool.not_eq_true] at hr ⊢
  exact fun hs => hr (isPrefixOf_of_ends (by decide) h hs)

theorem shows_of_mem_pairOperators {op : Text} (h : op ∈ Language.pairOperators) :
    ∀ c ∈ op, Text.isBlank c = false := by
  have checked : (Language.pairOperators.all fun op => op.all (!Text.isBlank ·)) = true := by decide
  have here := List.all_eq_true.mp checked op h
  intro c hc
  simpa using List.all_eq_true.mp here c hc

theorem pairOperator?_of_ends {c : Char} {w r s : Text} (h : Ends r s)
    (hr : pairOperator? (c :: (w ++ r)) = none) : pairOperator? (c :: (w ++ s)) = none := by
  rw [pairOperator?, List.find?_eq_none] at hr ⊢
  intro op hop hs
  obtain ⟨a, b, rfl, -⟩ := of_mem_pairOperators hop
  have shows : Text.isBlank b = false := shows_of_mem_pairOperators hop b (by simp)
  exact hr _ hop (isPrefixOf_of_ends shows h hs)

theorem not_continuesWord_of_isBlank {c : Char} (h : Text.isBlank c = true) :
    continuesWord c = false := by
  rw [continuesWord, Bool.or_eq_false_iff]
  constructor <;> refine eq_false_of_ne_true fun hc => ?_
  · rw [(plain_of_startsWord hc).1] at h
    cases h
  · rw [(plain_of_isAsciiDigit hc).1] at h
    cases h

theorem not_continuesNumber_of_isBlank {c : Char} (h : Text.isBlank c = true) :
    continuesNumber c = false := by
  rw [continuesNumber, Bool.or_eq_false_iff, beq_eq_false_iff_ne]
  constructor
  · refine eq_false_of_ne_true fun hc => ?_
    rw [(plain_of_isAsciiDigit hc).1] at h
    cases h
  · rintro rfl
    cases h

/-- A token is read again where it is cut off from what follows it. -/
theorem lexeme?_of_ends {p : Profile} {c : Char} {kind : TokenKind} {w r s : Text}
    (h : lexeme? p c (w ++ r) = some (kind, c :: w)) (ends : Ends r s) :
    lexeme? p c (w ++ s) = some (kind, c :: w) :=
  lexeme?_of_stops h ends.1 (ends.head fun _ => not_continuesWord_of_isBlank)
    (fun _ => ends.head fun _ => not_continuesNumber_of_isBlank) (startsComment_of_ends ends)
    (pairOperator?_of_ends ends)

/-- Blanks in front hold no token. -/
theorem lexemes_indented {indent : Text} (hi : ∀ c ∈ indent, Text.isBlank c = true) (t : Text) :
    lexemes p (indent ++ t) = lexemes p t := by
  induction indent with
  | nil => rfl
  | cons c r ih =>
      obtain ⟨hc, hr⟩ := List.forall_mem_cons.mp hi
      rw [List.cons_append, lexemes_of_none (lexeme?_eq_none_iff.mpr hc), ih hr]

/-! Texts made of words. -/

/-- A word: a character that begins words, and others that continue it. -/
def isWord : Text → Bool
  | [] => false
  | c :: w => startsWord c && w.all continuesWord

theorem of_isWord {t : Text} (h : isWord t = true) :
    ∃ c w, t = c :: w ∧ startsWord c = true ∧ ∀ d ∈ w, continuesWord d = true := by
  cases t with
  | nil => cases h
  | cons c w =>
      rw [isWord, Bool.and_eq_true, List.all_eq_true] at h
      exact ⟨c, w, rfl, h⟩

/-- No word goes on with the text. -/
def EndsWord (r : Text) : Prop := ∀ d ∈ r.head?, continuesWord d = false

/-- What follows a token that begins a word. -/
theorem endsWord_of_lexeme? {p : Profile} {c : Char} {kind : TokenKind} {w r : Text}
    (h : lexeme? p c (w ++ r) = some (kind, c :: w)) (hc : startsWord c = true) : EndsWord r := by
  rw [(Shape.word hc).lexeme?] at h
  have read := (List.cons_eq_cons.mp (Prod.mk.inj (Option.some.inj h)).2).2
  exact ((takeWhile_append_eq_iff w r).mp read).2

theorem lexeme?_word {p : Profile} {c : Char} {w r : Text} (hw : isWord (c :: w) = true)
    (hr : EndsWord r) : lexeme? p c (w ++ r) = some (classify p (c :: w), c :: w) := by
  simp only [isWord, Bool.and_eq_true, List.all_eq_true] at hw
  rw [(Shape.word hw.1).lexeme?, (takeWhile_append_eq_iff w r).mpr ⟨hw.2, hr⟩]

theorem lexemes_word {p : Profile} {word r : Text} (hw : isWord word = true) (hr : EndsWord r) :
    lexemes p (word ++ r) = ⟨classify p word, word, r⟩ :: lexemes p r := by
  obtain ⟨c, w, rfl, -, -⟩ := of_isWord hw
  exact lexemes_of_some (lexeme?_word hw hr) rfl

/-- No operator of two characters begins with a dot. -/
theorem lexeme?_dot {p : Profile} (r : Text) : lexeme? p '.' r = some (.punctuation, ['.']) := by
  have none : pairOperator? ('.' :: r) = none := by
    have checked : (Language.pairOperators.all fun op => op.head? != some '.') = true := by decide
    rw [pairOperator?, List.find?_eq_none]
    intro op hop found
    obtain ⟨a, b, rfl, -⟩ := of_mem_pairOperators hop
    have differs := List.all_eq_true.mp checked _ hop
    rw [((Text.isPrefixOf_pair a b '.' r).mp found).1] at differs
    cases differs
  exact (Shape.punctuation (by decide) (startsComment_of_ne (by decide) r) none).lexeme?

theorem lexemes_dot {p : Profile} (r : Text) :
    lexemes p ('.' :: r) = ⟨.punctuation, ['.'], r⟩ :: lexemes p r :=
  lexemes_of_some (lexeme?_dot r) rfl

end Token
end MotionExpr
