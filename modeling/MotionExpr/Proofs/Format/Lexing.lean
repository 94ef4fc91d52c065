import MotionExpr.Proofs.Format.Atoms
import MotionExpr.Proofs.Format.Rows

/-!
The code of a line falls into atoms. This is a scan from the left: the longest operator, the
longest run of name and number characters, a single character otherwise. Two things are
asked of the code: no blanks stand between a negation and an equals sign, and a sign behind
an exponent mark has its digits directly behind it.
-/

namespace MotionExpr

open Text Literal

namespace Operator

/-- The code, given backwards, ends in the digits of a number, which is no part of a name. -/
def behindMantissa (backwards : Text) : Bool :=
  (match (backwards.takeWhile fun c => isDigit c || c == '.').getLast? with
    | some c => isDigit c
    | none => false) &&
  (match backwards.dropWhile fun c => isDigit c || c == '.' with
    | [] => true
    | c :: _ => !isWordChar c && c != '$')

theorem behindExponentMark_cons {c : Char} (h : c ≠ '\n') (r : Text) :
    behindExponentMark (c :: r) = ((c == 'e' || c == 'E') && behindMantissa r) := by
  cases hmark : (c == 'e' || c == 'E') with
  | false => simp [behindExponentMark, h, hmark]
  | true =>
      simp [behindExponentMark, h, hmark]
      rfl

theorem behindExponentMark_eq_false {c : Char} {r : Text} (hn : c ≠ '\n')
    (hc : isWordPart c = false) : behindExponentMark (c :: r) = false := by
  rw [behindExponentMark_cons hn, Bool.and_eq_false_iff, Bool.or_eq_false_iff,
    beq_eq_false_iff_ne, beq_eq_false_iff_ne]
  left
  constructor <;> rintro rfl <;> exact absurd hc (by decide)

/-- Whether a word ends in an exponent mark is seen from the word. -/
theorem behindExponentMark_append {t prior : Text} (ht : t ≠ []) (hw : ∀ c ∈ t, isWordPart c = true)
    (free : ∀ c, prior.head? = some c → isWordPart c = false) :
    behindExponentMark (t.reverse ++ prior) = behindExponentMark t.reverse := by
  obtain ⟨c, r, hr⟩ := List.exists_cons_of_ne_nil (mt List.reverse_eq_nil_iff.mp ht)
  have part : ∀ d ∈ c :: r, isWordPart d = true := fun d hd => hw d (List.mem_reverse.mp (hr ▸ hd))
  have notNewline : c ≠ '\n' := by
    rintro rfl
    exact absurd (part _ (List.mem_cons_self ..)) (by decide)
  have outside : ∀ d s, prior = d :: s →
      (isDigit d || d == '.') = false ∧ (isWordChar d || d == '$') = false := by
    rintro d s rfl
    have here := free d rfl
    simp only [isWordPart, Bool.or_eq_false_iff] at here ⊢
    exact ⟨⟨here.1.1.2, here.2⟩, here.1.1.1, here.1.2⟩
  rw [hr, List.cons_append, behindExponentMark_cons notNewline, behindExponentMark_cons notNewline,
    behindMantissa, behindMantissa]
  cases prior with
  | nil => rw [List.append_nil]
  | cons d s =>
      obtain ⟨notDigit, notWord⟩ := outside d s rfl
      rw [List.takeWhile_append, List.dropWhile_append, List.takeWhile_cons_of_neg (by simp [notDigit]),
        List.dropWhile_cons_of_neg (by simp [notDigit])]
      cases hrest : r.dropWhile fun c => isDigit c || c == '.' with
      | nil =>
          have whole : (r.takeWhile fun c => isDigit c || c == '.') = r := by
            have parts := List.takeWhile_append_dropWhile (p := fun c => isDigit c || c == '.') (l := r)
            rwa [hrest, List.append_nil] at parts
          simp only [whole, ite_true, List.append_nil, List.isEmpty_nil]
          rw [Bool.or_eq_false_iff] at notWord
          rw [notWord.1, bne, notWord.2, Bool.not_false, Bool.and_true, Bool.and_true]
      | cons e u =>
          have short : (r.takeWhile fun c => isDigit c || c == '.').length ≠ r.length := by
            have parts := congrArg List.length
              (List.takeWhile_append_dropWhile (p := fun c => isDigit c || c == '.') (l := r))
            rw [hrest, List.length_append, List.length_cons] at parts
            omega
          rw [if_neg short]
          rfl

end Operator

namespace Atom

/-- Whether the atom is read as one behind a text, which is given backwards. -/
def Meets (prior : Text) : Atom → Prop
  | operator op => Operator.isSign op = true → Operator.behindExponentMark prior = false
  | word _ => ∀ c, prior.head? = some c → isWordPart c = false
  | exponent _ => Operator.behindExponentMark prior = true
  | _ => True

/-- The first character of an atom in masked code. -/
def head (a : Atom) : Option Char := (numbered 0 a.pieces).head?

theorem head?_numbered (n : Nat) {a : Atom} (h : a.Fits) (rest : Text) :
    (numbered n a.pieces ++ rest).head? = a.head := by
  cases a with
  | operator op =>
      obtain ⟨c, r, rfl, -, -⟩ := Operator.of_mem_all h
      rfl
  | word t =>
      obtain ⟨c, r, rfl⟩ := List.exists_cons_of_ne_nil h.1
      rfl
  | exponent c | symbol c => rfl
  | literal t => rfl

theorem head_of_isSign {c : Char} (h : Operator.isSign [c] = true) : c = '+' ∨ c = '-' := by
  simpa [Operator.isSign] using h

/-- Only a word begins with a word character. -/
theorem isWord_of_head {a : Atom} (h : a.Fits) {c : Char} (hc : a.head = some c)
    (hpart : isWordPart c = true) : a.isWord = true := by
  obtain ⟨notOperator, -, -, notMark, notNegation⟩ := plain_of_isWordPart hpart
  cases a with
  | word t => rfl
  | operator op =>
      obtain ⟨d, r, rfl, -, hd | ⟨rfl, -⟩⟩ := Operator.of_mem_all h
      · rw [← Option.some.inj hc, hd] at notOperator
        cases notOperator
      · exact absurd (Option.some.inj hc).symm notNegation
  | exponent d =>
      obtain rfl : d = c := Option.some.inj hc
      rcases head_of_isSign h with rfl | rfl <;> exact absurd hpart (by decide)
  | symbol d =>
      obtain rfl : d = c := Option.some.inj hc
      simp [Fits, isLone, hpart] at h
  | literal t => exact absurd (Option.some.inj hc).symm notMark

/-- A literal aside, an atom is what is seen of it in masked code. -/
theorem head_eq (a : Atom) : (∃ t, a = literal t) ∨ a.head = a.text.head? := by
  cases a with
  | literal t => exact .inl ⟨t, rfl⟩
  | operator t | word t => exact .inr (by rw [head, pieces, numbered_map_code]; rfl)
  | exponent c | symbol c => exact .inr rfl

theorem head_of_fits_literal {t : Text} (h : (literal t).Fits) :
    ∃ c r, t = c :: r ∧ (c = '/' ∨ Token.isQuote c = true) := by
  obtain ⟨c, r, rfl, hl⟩ := length?_of_pieces_eq_literal h.1
  refine ⟨c, r, rfl, ?_⟩
  by_cases hcomment : Token.startsComment (c :: r) = true
  · exact .inl ((startsComment_iff c r).mp hcomment).1
  · right
    by_contra hquote
    rw [length?_none_of_plain (eq_false_of_ne_true hquote) (eq_false_of_ne_true hcomment)] at hl
    cases hl

/-- The character that begins a literal makes no operator longer. -/
theorem extend_not_mem_of_literal {t op : Text} {d : Char} (h : (literal t).Fits)
    (hd : t.head? = some d) (member : op ∈ Operator.all) : op ++ [d] ∉ Operator.all := by
  obtain ⟨q, r, rfl, hq⟩ := head_of_fits_literal h
  obtain rfl : q = d := Option.some.inj hd
  rcases hq with rfl | hq
  · have checked : Operator.all.all (fun op => op ++ ['/'] ∉ Operator.all) = true := by decide
    simpa using List.all_eq_true.mp checked op member
  · apply Operator.extend_not_mem_all (text_ne_nil (a := operator op) member)
    simp only [Token.isQuote, Bool.or_eq_true, beq_iff_eq] at hq
    rcases hq with rfl | rfl <;> decide

theorem reverse_numbered_literal (n : Nat) (t : Text) :
    ∃ r, (numbered n (literal t).pieces).reverse = mark :: r :=
  ⟨(mark :: Text.ofNat n).reverse, by simp [pieces, numbered, placeholder]⟩

/-- Only a word ends in a word character. -/
theorem last_of_not_isWord {a : Atom} (h : a.Fits) (hword : a.isWord = false) (n : Nat) :
    ∃ c r, (numbered n a.pieces).reverse = c :: r ∧ c ≠ '\n' ∧ isWordPart c = false := by
  cases a with
  | word t => cases hword
  | operator op =>
      have ne : op.reverse ≠ [] := mt List.reverse_eq_nil_iff.mp (text_ne_nil h)
      obtain ⟨c, r, hr⟩ := List.exists_cons_of_ne_nil ne
      have checked : Operator.all.all (fun op => op.all fun c => c != '\n' && !isWordPart c) = true := by
        decide
      have here := List.all_eq_true.mp (List.all_eq_true.mp checked op h) c
        (List.mem_reverse.mp (hr ▸ List.mem_cons_self ..))
      rw [Bool.and_eq_true, bne_iff_ne, Bool.not_eq_true'] at here
      exact ⟨c, r, by rw [pieces, numbered_map_code, hr], here⟩
  | exponent c =>
      refine ⟨c, [], rfl, ?_⟩
      rcases head_of_isSign h with rfl | rfl <;> decide
  | symbol c =>
      simp only [Fits, isLone, Bool.and_eq_true, Bool.not_eq_true', bne_iff_ne] at h
      exact ⟨c, [], rfl, h.1.2, h.1.1.1.1.1.1⟩
  | literal t =>
      obtain ⟨r, hr⟩ := reverse_numbered_literal n t
      exact ⟨mark, r, hr, by decide, by decide⟩

/-- Behind another character than those of words only an exponent is not read as its own. -/
theorem meets_cons_iff {c : Char} {r : Text} (hn : c ≠ '\n') (hc : isWordPart c = false) {b : Atom} :
    b.Meets (c :: r) ↔ b.isExponent = false := by
  cases b with
  | operator op => exact ⟨fun _ => rfl, fun _ _ => Operator.behindExponentMark_eq_false hn hc⟩
  | word u =>
      refine ⟨fun _ => rfl, fun _ d hd => ?_⟩
      rwa [← Option.some.inj hd]
  | exponent sign =>
      rw [Meets, Operator.behindExponentMark_eq_false hn hc]
      exact iff_of_false Bool.false_ne_true Bool.false_ne_true.symm
  | symbol _ | literal _ => exact ⟨fun _ => rfl, fun _ => trivial⟩

theorem meets_behindGap_iff {gap prior : Text} (blank : ∀ c ∈ gap, isSpaceOrTab c = true)
    (hgap : gap ≠ []) {b : Atom} : b.Meets (gap.reverse ++ prior) ↔ b.isExponent = false := by
  obtain ⟨c, r, hr⟩ := List.exists_cons_of_ne_nil (mt List.reverse_eq_nil_iff.mp hgap)
  have hc := blank c (List.mem_reverse.mp (hr ▸ List.mem_cons_self ..))
  rw [hr, List.cons_append]
  refine meets_cons_iff ?_ (isWordPart_of_isBlank (isBlank_of_isSpaceOrTab hc))
  rintro rfl
  cases hc

/-- What an atom asks of the one behind it, apart from the latter being read as one. -/
def Allows (a : Atom) (gap : Text) (b : Atom) : Prop :=
  match a with
  | operator op => gap = [] →
      ∀ c, b.text.head? = some c → op ++ [c] ∉ Operator.all ∧ (op = ['/'] → c ≠ '/')
  | symbol c => c = '!' → b.text.head? ≠ some '='
  | exponent _ => gap = [] ∧ b.isWord = true
  | _ => True

/-- Directly behind a word an atom is read as its own just if it may stand there. -/
theorem apart_word_iff {t front : Text} (fits : (word t).Fits) (here : (word t).Meets front) {b : Atom} :
    Apart (word t) b ↔ b.Meets (t.reverse ++ front) := by
  have same := Operator.behindExponentMark_append fits.1 fits.2 here
  cases b with
  | operator op =>
      rw [Meets, same]
      refine ⟨fun apart hsign => ?_, fun met => ⟨rfl, ?_⟩⟩
      · have marked := apart.2
        split at marked
        · rw [isSign, hsign] at marked
          cases marked
        · next hmark => exact eq_false_of_ne_true hmark
      · split
        · next hmark =>
            by_contra hsign
            rw [met (eq_true_of_ne_false hsign)] at hmark
            cases hmark
        · rfl
  | word u =>
      refine ⟨fun apart => (by cases apart.1), fun met => ?_⟩
      obtain ⟨c, r, hr⟩ := List.exists_cons_of_ne_nil (mt List.reverse_eq_nil_iff.mp fits.1)
      have part := fits.2 c (List.mem_reverse.mp (hr ▸ List.mem_cons_self ..))
      rw [met c (by rw [hr]; rfl)] at part
      cases part
  | exponent sign =>
      rw [Meets, same]
      refine ⟨fun apart => ?_, fun met => ⟨rfl, by rw [if_pos met]; rfl⟩⟩
      have marked := apart.2
      split at marked
      · next hmark => exact hmark
      · cases marked
  | symbol _ | literal _ => exact ⟨fun _ => trivial, fun _ => ⟨rfl, by split <;> rfl⟩⟩

/-- What stands in front of an atom settles that the atom is read as one, so what is left to
see of a gap is what stands behind it. -/
theorem Joint.ofMeets {a : Atom} (fits : a.Fits) {front gap : Text} (n : Nat) {next : Option Atom}
    (here : a.Meets front) (blank : ∀ c ∈ gap, isSpaceOrTab c = true)
    (meets : ∀ b, next = some b → b.Meets (gap.reverse ++ ((numbered n a.pieces).reverse ++ front)))
    (ahead : ∀ b, next = some b → a.Allows gap b)
    (exponent : a.isExponent = true → next.isSome)
    (comment : a.isComment = true → gap = [] ∧ next = none) : Joint a gap next := by
  have behindGap {b : Atom} (hb : next = some b) (hgap : gap ≠ []) : b.isExponent = false :=
    (meets_behindGap_iff blank hgap).mp (meets b hb)
  have behindOther {b : Atom} (hb : next = some b) (hword : a.isWord = false) :
      b.isExponent = false := by
    by_cases hgap : gap = []
    · obtain ⟨c, r, hr, hn, hc⟩ := last_of_not_isWord fits hword n
      have met := meets b hb
      rw [hgap, hr] at met
      exact (meets_cons_iff hn hc).mp met
    · exact behindGap hb hgap
  refine ⟨blank, ?_, ?_, ?_, comment⟩
  · intro b hb hgap
    have forward := ahead b hb
    cases a with
    | operator op =>
        exact ⟨behindOther hb rfl, forward (hgap.resolve_right (by simp))⟩
    | word t =>
        obtain rfl : gap = [] := hgap.resolve_right (by simp)
        have met := meets b hb
        rw [pieces, numbered_map_code, List.reverse_nil, List.nil_append] at met
        exact (apart_word_iff fits here).mpr met
    | exponent sign => exact forward.2
    | symbol c => exact ⟨behindOther hb rfl, forward⟩
    | literal t => exact behindOther hb rfl
  · intro hexponent
    obtain ⟨b, hb⟩ := Option.isSome_iff_exists.mp (exponent hexponent)
    cases a with
    | exponent sign => exact ⟨(ahead b hb).1, exponent hexponent⟩
    | _ => cases hexponent
  · intro b hb hexponent
    by_contra hgap
    rw [behindGap hb hgap] at hexponent
    cases hexponent

end Atom

namespace Code

/-- The code in masked form, its literals numbered from `n` on. -/
def masked (n : Nat) (c : Code) : Text := numbered n c.pieces

theorem fits_first? {c : Code} (h : Lexed c) : ∀ b, first? c = some b → b.Fits := by
  intro b hb
  cases c with
  | nil => cases hb
  | cons x c => exact Option.some.inj hb ▸ h.1

theorem head?_masked (n : Nat) {c : Code} (h : Lexed c) :
    (masked n c).head? = (first? c).bind Atom.head := by
  cases c with
  | nil => rfl
  | cons x c =>
      rw [masked, pieces, numbered_append]
      exact Atom.head?_numbered n h.1 _

end Code

namespace Literal

/-- The longest run of code characters of one kind in front. -/
theorem exists_run (p : Char → Bool) (ps : List Piece) :
    ∃ (w : Text) (qs : List Piece), ps = w.map Piece.code ++ qs ∧ (∀ c ∈ w, p c = true) ∧
      ∀ c rs, qs = .code c :: rs → p c = false := by
  induction ps with
  | nil => exact ⟨[], [], rfl, List.forall_mem_nil _, fun c rs h => absurd h (List.cons_ne_nil _ _).symm⟩
  | cons q ps ih =>
      cases q with
      | literal t => exact ⟨[], _, rfl, List.forall_mem_nil _, fun c rs h => by simp at h⟩
      | code c =>
          cases hc : p c with
          | false =>
              refine ⟨[], _, rfl, List.forall_mem_nil _, fun d rs h => ?_⟩
              rw [← Piece.code.inj (List.cons_eq_cons.mp h).1]
              exact hc
          | true =>
              obtain ⟨w, qs, rfl, hw, stop⟩ := ih
              exact ⟨c :: w, qs, rfl, List.forall_mem_cons.mpr ⟨hc, hw⟩, stop⟩

theorem pieces_eq_code_append {w : Text} {qs : List Piece}
    (h : pieces ((w.map Piece.code ++ qs).flatMap Piece.text) = w.map Piece.code ++ qs) :
    pieces (qs.flatMap Piece.text) = qs := by
  rw [List.flatMap_append, flatMap_text_map_code] at h
  exact (pieces_of_append h (flatMap_text_map_code w)).2

/-- What is asked of a code character: all strings are closed, and it is no mark. -/
def isPlain (c : Char) : Bool := !Token.isQuote c && c != mark

/-- What is asked of masked code. -/
structure Readable (masked : Text) : Prop where
  negation : ∀ front gap back, masked = front ++ '!' :: gap ++ '=' :: back →
    (∀ c ∈ gap, isSpaceOrTab c = true) → gap = []
  exponent : ∀ front sign back, masked = front ++ sign :: back →
    Operator.operator? (sign :: back) = some [sign] → Operator.isSign [sign] = true →
    Operator.behindExponentMark front.reverse = true →
      ∃ c r, back = c :: r ∧ isWordPart c = true

end Literal

namespace Code

/-- What is left of the masked code, from a place between two atoms on. -/
structure Rest (whole front : Text) (n : Nat) (ps : List Piece) : Prop where
  masked : whole = front ++ numbered n ps
  apart : Literal.pieces (ps.flatMap Piece.text) = ps
  plain : ∀ c, .code c ∈ ps → isPlain c = true
  onLine : ∀ p ∈ ps, '\n' ∉ p.text ∧ '\r' ∉ p.text
  free : ∀ c qs, ps = .code c :: qs → isWordPart c = true →
    ∀ d, front.reverse.head? = some d → isWordPart d = false

section Rest

variable {whole front : Text} {n : Nat}

theorem Rest.ofCode {w : Text} {qs : List Piece} (h : Rest whole front n (w.map Piece.code ++ qs))
    (free : ∀ c rs, qs = .code c :: rs → isWordPart c = true →
      ∀ d, (front ++ w).reverse.head? = some d → isWordPart d = false) :
    Rest whole (front ++ w) n qs where
  masked := by rw [h.masked, numbered_map_code_append, List.append_assoc]
  apart := pieces_eq_code_append h.apart
  plain := fun c hc => h.plain c (List.mem_append_right _ hc)
  onLine := fun p hp => h.onLine p (List.mem_append_right _ hp)
  free := free

/-- Behind a character of no word any character may follow. -/
theorem Rest.ofCharacter {c : Char} {qs : List Piece} (h : Rest whole front n (.code c :: qs))
    (hc : isWordPart c = false) : Rest whole (front ++ [c]) n qs := by
  apply Rest.ofCode (w := [c]) h
  intro _ _ _ _ d hd
  rw [List.reverse_concat] at hd
  rwa [← Option.some.inj hd]

theorem Rest.ofLiteral {t : Text} {qs : List Piece} (h : Rest whole front n (.literal t :: qs)) :
    (Atom.literal t).Fits ∧ Rest whole (front ++ placeholder n) (n + 1) qs ∧
      ((Atom.literal t).isComment = true → qs = []) := by
  obtain ⟨alone, rest⟩ := pieces_eq_literal_append h.apart
  refine ⟨⟨alone, h.onLine _ (List.mem_cons_self ..)⟩, ⟨?_, rest, ?_, ?_, ?_⟩, ?_⟩
  · rw [h.masked, numbered, List.append_assoc]
  · exact fun c hc => h.plain c (List.mem_cons_of_mem _ hc)
  · exact fun p hp => h.onLine p (List.mem_cons_of_mem _ hp)
  · intro c rs _ _ d hd
    rw [placeholder, List.reverse_append, List.reverse_append] at hd
    rw [← Option.some.inj hd]
    decide
  · intro hcomment
    have text : (Piece.literal t :: qs).flatMap Piece.text = t ++ qs.flatMap Piece.text := rfl
    have longer : "//".toList.isPrefixOf (t ++ qs.flatMap Piece.text) = true :=
      List.isPrefixOf_iff_prefix.mpr
        ((List.isPrefixOf_iff_prefix.mp hcomment).trans (List.prefix_append ..))
    have noNewline : '\n' ∉ t ++ qs.flatMap Piece.text := by
      rw [← text, List.mem_flatMap]
      rintro ⟨p, hp, hm⟩
      exact (h.onLine p hp).1 hm
    have apart := h.apart
    rw [text, pieces_comment longer noNewline] at apart
    exact (List.cons_eq_cons.mp apart).2.symm

/-- The rest does not begin with a comment if its first piece is code. -/
theorem Rest.not_comment {c : Char} {qs : List Piece} (h : Rest whole front n (.code c :: qs))
    (r : Text) : (Piece.code c :: qs).flatMap Piece.text ≠ '/' :: '/' :: r := by
  intro slashes
  have comment : "//".toList.isPrefixOf ('/' :: '/' :: r) = true := rfl
  have noNewline : '\n' ∉ '/' :: '/' :: r := by
    intro hm
    rw [← slashes, List.mem_flatMap] at hm
    obtain ⟨p, hp, hm⟩ := hm
    exact (h.onLine p hp).1 hm
  have apart := h.apart
  rw [slashes, pieces_comment comment noNewline] at apart
  cases apart

end Rest

/-- Atoms behind a text, in front of which there may be a gap. -/
def Reads (front : Text) (ps : List Piece) (gap : Text) (c : Code) : Prop :=
  ps = gap.map Piece.code ++ c.pieces ∧ (∀ d ∈ gap, isSpaceOrTab d = true) ∧ Lexed c ∧
    ∀ b, first? c = some b → b.Meets (gap.reverse ++ front.reverse)

section Reads

variable {whole front : Text} {n : Nat} {ps qs : List Piece} {gap : Text} {c : Code}

theorem Reads.nil : Reads front [] [] [] :=
  ⟨rfl, List.forall_mem_nil _, trivial, fun _ hb => by cases hb⟩

theorem Reads.blank {d : Char} (hd : isSpaceOrTab d = true) (h : Reads (front ++ [d]) qs gap c) :
    Reads front (.code d :: qs) (d :: gap) c := by
  obtain ⟨rfl, blank, lexed, meets⟩ := h
  refine ⟨rfl, List.forall_mem_cons.mpr ⟨hd, blank⟩, lexed, fun b hb => ?_⟩
  have met := meets b hb
  rwa [List.reverse_append, ← List.append_assoc, ← List.reverse_append] at met

/-- Put an atom in front of what is read behind it. -/
theorem Reads.atom {a : Atom} (fits : a.Fits) (here : a.Meets front.reverse) (n : Nat)
    (h : Reads (front ++ numbered n a.pieces) qs gap c)
    (ahead : ∀ b, first? c = some b → a.Allows gap b)
    (exponent : a.isExponent = true → (first? c).isSome)
    (comment : a.isComment = true → qs = []) : Reads front (a.pieces ++ qs) [] (⟨a, gap⟩ :: c) := by
  obtain ⟨rfl, blank, lexed, meets⟩ := h
  refine ⟨rfl, List.forall_mem_nil _, ⟨fits, ?_, lexed⟩, fun b hb => ?_⟩
  · apply Atom.Joint.ofMeets fits n here blank _ ahead exponent
    · intro hcomment
      have empty := comment hcomment
      cases gap with
      | cons d g => cases empty
      | nil =>
          refine ⟨rfl, ?_⟩
          cases c with
          | nil => rfl
          | cons x c =>
              have text := congrArg (List.flatMap Piece.text) empty
              rw [List.map_nil, List.nil_append, flatMap_text_pieces, Code.text] at text
              exact absurd (List.append_eq_nil_iff.mp text).1 (Atom.text_ne_nil lexed.1)
    · intro b hb
      have met := meets b hb
      rwa [List.reverse_append] at met
  · rw [← Option.some.inj hb]
    exact here

/-- Where a word character comes next, so does a word. -/
theorem Reads.isWord (h : Reads front ps gap c) {d : Char} {r : Text}
    (hd : numbered n ps = d :: r) (hpart : isWordPart d = true) :
    gap = [] ∧ ∃ b, first? c = some b ∧ b.isWord = true := by
  obtain ⟨rfl, blank, lexed, -⟩ := h
  cases gap with
  | cons e g =>
      obtain ⟨rfl, -⟩ := List.cons_eq_cons.mp hd
      rw [isWordPart_of_isBlank (isBlank_of_isSpaceOrTab (blank e (List.mem_cons_self ..)))] at hpart
      cases hpart
  | nil =>
      refine ⟨rfl, ?_⟩
      have head := head?_masked n lexed
      rw [masked, show numbered n c.pieces = d :: r from hd] at head
      cases c with
      | nil => cases head
      | cons x c => exact ⟨x.atom, rfl, Atom.isWord_of_head lexed.1 head.symm hpart⟩

end Reads

section Cases

variable {whole front : Text} (readable : Readable whole) {n : Nat} {c : Char} {qs : List Piece}
  (h : Rest whole front n (.code c :: qs))
  (read : ∀ rs, rs.length ≤ qs.length → ∀ front n, Rest whole front n rs → ∃ gap c, Reads front rs gap c)

include readable h read

theorem exists_reads_exponent (hop : Operator.operator? (c :: numbered n qs) = some [c])
    (hsign : Operator.isSign [c] = true)
    (hmark : Operator.behindExponentMark front.reverse = true) :
    ∃ gap code, Reads front (.code c :: qs) gap code := by
  obtain ⟨d, r, hd, hpart⟩ := readable.exponent front c (numbered n qs) h.masked hop hsign hmark
  have other : isWordPart c = false := by
    rcases Atom.head_of_isSign hsign with rfl | rfl <;> decide
  obtain ⟨gap, code, hread⟩ := read qs (Nat.le_refl _) _ n (h.ofCharacter other)
  obtain ⟨hgap, b, hb, hword⟩ := hread.isWord hd hpart
  refine ⟨[], _, Reads.atom (a := .exponent c) hsign hmark n hread (fun b' hb' => ?_) ?_ nofun⟩
  · rw [hb] at hb'
    exact ⟨hgap, Option.some.inj hb' ▸ hword⟩
  · intro _
    rw [hb]
    rfl

omit readable in
theorem exists_reads_operator {op : Text} (hop : Operator.operator? (c :: numbered n qs) = some op)
    (unmarked : Operator.isSign op = true → Operator.behindExponentMark front.reverse = false) :
    ∃ gap code, Reads front (.code c :: qs) gap code := by
  obtain ⟨member, tail, htail⟩ := Operator.of_operator? hop
  have noMark : mark ∉ op := fun hm => ((Operator.symbols_of_mem_all member).2 mark hm).1 rfl
  have code : numbered n (.code c :: qs) = op ++ tail := htail
  obtain ⟨rs, hps, rfl⟩ := of_numbered_eq_append code noMark
  have fits : (Atom.operator op).Fits := member
  have masked : numbered n (Atom.operator op).pieces = op := numbered_map_code n op
  obtain ⟨e, u, hlast, -, hpart⟩ := Atom.last_of_not_isWord fits rfl n
  rw [masked] at hlast
  have rest : Rest whole (front ++ op) n rs := by
    rw [hps] at h
    apply h.ofCode
    intro _ _ _ _ d hd
    rw [List.reverse_append, hlast] at hd
    rw [← Option.some.inj hd]
    exact hpart
  have shorter : rs.length ≤ qs.length := by
    have length := congrArg List.length hps
    obtain ⟨d, s, rfl, -, -⟩ := Operator.of_mem_all member
    simp only [List.length_cons, List.length_append, List.length_map] at length
    omega
  obtain ⟨gap, code, hread⟩ := read rs shorter _ n rest
  have lexed : Lexed code := hread.2.2.1
  rw [hps]
  refine ⟨[], _, Reads.atom fits unmarked n (masked.symm ▸ hread) (fun b hb => ?_) nofun nofun⟩
  intro hgap d hd
  have text : rs.flatMap Piece.text = code.text := by
    rw [hread.1, hgap, List.map_nil, List.nil_append, flatMap_text_pieces]
  have first : (rs.flatMap Piece.text).head? = some d := by
    rw [text, head?_text lexed, hb]
    exact hd
  constructor
  · rcases b.head_eq with ⟨t, rfl⟩ | hhead
    · exact Atom.extend_not_mem_of_literal (fits_first? lexed _ hb) hd member
    · apply Operator.extend_not_mem_of_operator? (htail ▸ hop)
      rw [show rs = code.pieces by rw [hread.1, hgap]; rfl]
      exact (head?_masked n lexed).trans (by rw [hb, Option.bind_some, hhead, hd])
  · rintro rfl rfl
    -- two slashes would begin a comment
    obtain ⟨r, hr⟩ := List.head?_eq_some_iff.mp first
    apply h.not_comment r
    rw [hps, List.flatMap_append, hr]
    rfl

omit readable in
theorem exists_reads_word (hc : isWordPart c = true) :
    ∃ gap code, Reads front (.code c :: qs) gap code := by
  obtain ⟨w, rs, rfl, hw, stop⟩ := exists_run isWordPart qs
  have fits : (Atom.word (c :: w)).Fits :=
    ⟨List.cons_ne_nil c w, List.forall_mem_cons.mpr ⟨hc, hw⟩⟩
  have masked : numbered n (Atom.word (c :: w)).pieces = c :: w := numbered_map_code n (c :: w)
  have rest : Rest whole (front ++ c :: w) n rs := by
    apply Rest.ofCode (w := c :: w) h
    intro d ds hds hd
    rw [stop d ds hds] at hd
    cases hd
  obtain ⟨gap, code, hread⟩ := read rs (by simp) _ n rest
  have here : (Atom.word (c :: w)).Meets front.reverse := h.free c _ rfl hc
  exact ⟨[], _, Reads.atom fits here n (masked.symm ▸ hread) (fun b hb => trivial) nofun nofun⟩

theorem exists_reads_symbol (hop : Operator.operator? (c :: numbered n qs) = none)
    (hc : isWordPart c = false) (hblank : isSpaceOrTab c = false) :
    ∃ gap code, Reads front (.code c :: qs) gap code := by
  have plain := h.plain c (List.mem_cons_self ..)
  have onLine := h.onLine _ (List.mem_cons_self ..)
  have notOperator : isOperatorChar c = false := by
    by_contra hne
    have checked : ("+-*/%=<>&|^".toList.all fun c => Operator.all.contains [c]) = true := by decide
    have here := List.all_eq_true.mp checked c
      (List.contains_iff_mem.mp (eq_true_of_ne_false hne))
    have found := List.find?_eq_none.mp hop [c] (List.contains_iff_mem.mp here)
    exact found (by simp [List.isPrefixOf])
  have fits : (Atom.symbol c).Fits := by
    simp only [isPlain, Bool.and_eq_true, Bool.not_eq_true', bne_iff_ne] at plain
    simp only [Piece.text, List.mem_singleton] at onLine
    simp [Atom.Fits, isLone, hc, notOperator, hblank, plain, Ne.symm onLine.1, Ne.symm onLine.2]
  obtain ⟨gap, code, hread⟩ := read qs (Nat.le_refl _) _ n (h.ofCharacter hc)
  refine ⟨[], _, Reads.atom fits trivial n hread (fun b hb => ?_) (fun ha => by cases ha) fun ha => by cases ha⟩
  rintro rfl hhead
  -- an equals sign behind the gap: the two would be one operator
  have lexed : Lexed code := hread.2.2.1
  have first : (numbered n code.pieces).head? = some '=' := by
    refine (head?_masked n lexed).trans ?_
    rw [hb, Option.bind_some]
    rcases b.head_eq with ⟨t, rfl⟩ | heq
    · obtain ⟨q, r, rfl, hq⟩ := Atom.head_of_fits_literal (fits_first? lexed _ hb)
      rw [Option.some.inj hhead] at hq
      rcases hq with hq | hq <;> exact absurd hq (by decide)
    · rw [heq, hhead]
  obtain ⟨r, hr⟩ := List.head?_eq_some_iff.mp first
  have behind : numbered n qs = gap ++ '=' :: r := by
    rw [hread.1, numbered_map_code_append, hr]
  have closed := readable.negation front gap r (by rw [h.masked, numbered, behind]; simp) hread.2.1
  rw [behind, closed] at hop
  have found := List.find?_eq_none.mp hop ['!', '='] (by decide)
  exact found rfl

end Cases

/-- The rest of readable code falls into atoms. -/
theorem exists_reads {whole : Text} (readable : Readable whole) (ps : List Piece) {front : Text}
    {n : Nat} (h : Rest whole front n ps) : ∃ gap c, Reads front ps gap c := by
  induction hk : ps.length using Nat.strongRecOn generalizing ps front n with
  | ind k ih =>
  cases ps with
  | nil => exact ⟨[], [], Reads.nil⟩
  | cons p qs =>
      have read : ∀ rs : List Piece, rs.length ≤ qs.length → ∀ front n, Rest whole front n rs →
          ∃ gap c, Reads front rs gap c := by
        intro rs hrs front n hrest
        exact ih rs.length (by rw [← hk, List.length_cons]; omega) rs hrest rfl
      cases p with
      | literal t =>
          obtain ⟨fits, rest, last⟩ := h.ofLiteral
          obtain ⟨gap, c, hread⟩ := read qs (Nat.le_refl _) _ _ rest
          have masked : numbered n (Atom.literal t).pieces = placeholder n := List.append_nil _
          exact ⟨[], _, Reads.atom (a := .literal t) fits trivial n (masked.symm ▸ hread)
            (fun b hb => trivial) nofun last⟩
      | code c =>
          cases hblank : isSpaceOrTab c with
          | true =>
              have other := isWordPart_of_isBlank (isBlank_of_isSpaceOrTab hblank)
              obtain ⟨gap, code, hread⟩ := read qs (Nat.le_refl _) _ n (h.ofCharacter other)
              exact ⟨c :: gap, code, hread.blank hblank⟩
          | false =>
              cases hop : Operator.operator? (c :: numbered n qs) with
              | none =>
                  cases hc : isWordPart c with
                  | true => exact exists_reads_word h read hc
                  | false => exact exists_reads_symbol readable h read hop hc hblank
              | some op =>
                  by_cases hmark : Operator.isSign op = true ∧
                      Operator.behindExponentMark front.reverse = true
                  · obtain ⟨-, tail, htail⟩ := Operator.of_operator? hop
                    obtain rfl : op = [c] := by
                      have sign := hmark.1
                      simp only [Operator.isSign, Bool.or_eq_true, beq_iff_eq] at sign
                      rcases sign with rfl | rfl <;> rw [(List.cons_eq_cons.mp htail).1]
                    exact exists_reads_exponent readable h read hop hmark.1 hmark.2
                  · apply exists_reads_operator h read hop
                    intro hsign
                    exact eq_false_of_ne_true fun hm => hmark ⟨hsign, hm⟩

/-- The code of a body falls into atoms, if it is readable. -/
theorem exists_lexed {body : Text} (onLine : '\n' ∉ body ∧ '\r' ∉ body) (front : Unindented body)
    (plain : ∀ c, .code c ∈ Literal.pieces body → isPlain c = true)
    (readable : Readable (mask body).1) :
    ∃ c : Code, c.text = body ∧ Lexed c ∧ ∀ b, first? c = some b → b.Meets [] := by
  have whole : Rest (mask body).1 [] 0 (Literal.pieces body) := by
    refine ⟨rfl, by rw [Literal.flatMap_text_pieces], plain, fun p hp => ?_, fun _ _ _ _ _ hd => ?_⟩
    · have inside (c : Char) (hc : c ∈ p.text) : c ∈ body := by
        rw [← Literal.flatMap_text_pieces body]
        exact List.mem_flatMap.mpr ⟨p, hp, hc⟩
      exact ⟨fun hm => onLine.1 (inside _ hm), fun hm => onLine.2 (inside _ hm)⟩
    · cases hd
  obtain ⟨gap, c, hps, blank, lexed, meets⟩ := exists_reads readable _ whole
  have text : gap ++ c.text = body := by
    rw [← Literal.flatMap_text_pieces body, hps, List.flatMap_append, flatMap_text_map_code,
      flatMap_text_pieces]
  cases gap with
  | nil => exact ⟨c, text, lexed, meets⟩
  | cons d g =>
      have notBlank := front d (g ++ c.text) text.symm
      rw [isBlank_of_isSpaceOrTab (blank d (List.mem_cons_self ..))] at notBlank
      cases notBlank

end Code
end MotionExpr
