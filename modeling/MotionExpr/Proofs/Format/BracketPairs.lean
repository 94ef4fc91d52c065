import MotionExpr.Proofs.Format.BracketGaps
import MotionExpr.Proofs.Format.SemicolonSites

/-!
Pairs of brackets in spaced code. Spacing brackets puts a blank inside every pair of braces and
every array literal that holds something. The passes behind it take some of these blanks away
again: in front of a sign or a comma, and behind a negation, a sign or an update. What is left
is told by a scan that looks at a bracket and its neighbour only. A semicolon put into such code
stands directly in front of a brace at most.
-/

namespace MotionExpr

open Text

namespace Operand

variable {p q : Text}

/-- Code in front of which nothing tells the texts apart as to whether an operand ends it. -/
def Alike (p q : Text) : Prop := ∀ w, isBehind (w ++ p) = isBehind (w ++ q)

theorem Alike.refl (p : Text) : Alike p p := fun _ => rfl

theorem Alike.same (h : Alike p q) : isBehind p = isBehind q := h []

theorem Alike.append (h : Alike p q) (w : Text) : Alike (w ++ p) (w ++ q) := by
  intro v
  rw [← List.append_assoc, ← List.append_assoc]
  exact h (v ++ w)

theorem isBehind_cons_blank {c : Char} (h : isBlank c = true) (r : Text) :
    isBehind (c :: r) = isBehind r := by
  rw [isBehind, isBehind, List.dropWhile_cons_of_pos h]

/-- Texts that begin with no part of a word are alike if operands end both or neither. -/
theorem Alike.of_stop (same : isBehind p = isBehind q)
    (hp : ∀ c, p.head? = some c → isWordPart c = false)
    (hq : ∀ c, q.head? = some c → isWordPart c = false) : Alike p q := by
  intro w
  induction w with
  | nil => exact same
  | cons c w ih =>
      rw [List.cons_append, List.cons_append]
      cases hc : isBlank c with
      | true => rw [isBehind_cons_blank hc, isBehind_cons_blank hc, ih]
      | false =>
          have ink := Bool.eq_false_iff.mp hc
          have left := endsWithWord_append (t := c :: w) hp
          have right := endsWithWord_append (t := c :: w) hq
          rw [List.cons_append] at left right
          simp only [isBehind, List.dropWhile_cons_of_neg ink, left, right]

/-- Behind a symbol and a gap the texts in front do not count. -/
theorem Alike.of_symbol {c : Char} {g h : Text} (notBlank : isBlank c = false)
    (notWord : isWordPart c = false) (hg : ∀ d ∈ g, isSpaceOrTab d = true)
    (hh : ∀ d ∈ h, isSpaceOrTab d = true) (p q : Text) : Alike (g ++ c :: p) (h ++ c :: q) := by
  have stop {g : Text} (hg : ∀ d ∈ g, isSpaceOrTab d = true) (p : Text) :
      ∀ d, (g ++ c :: p).head? = some d → isWordPart d = false := by
    intro d hd
    cases g with
    | nil =>
        obtain rfl : c = d := Option.some.inj hd
        exact notWord
    | cons e g =>
        obtain rfl : e = d := Option.some.inj hd
        exact isWordPart_of_isBlank (isBlank_of_isSpaceOrTab (hg e (List.mem_cons_self ..)))
  refine .of_stop ?_ (stop hg p) (stop hh q)
  rw [isBehind_blanks hg, isBehind_blanks hh, isBehind_cons notBlank notWord,
    isBehind_cons notBlank notWord]

end Operand

namespace Bracket

/-- What may stand directly behind an opening bracket: a blank, or a character that the gap in
front of it was taken from. -/
def mayFollow (c : Char) : Bool := isBlank c || c == '+' || c == '-' || c == ','

/-- The code, given backwards, ends in a negation or in a sign that no operand precedes. The gap
behind these was taken away; a sign behind a sign is an update or the end of one. -/
def endsPrefix : Text → Bool
  | [] => false
  | c :: r => c == '!' || (c == '+' || c == '-') && !Operand.isBehind r

/-- What may stand directly in front of a closing bracket. -/
def mayPrecede : Text → Bool
  | [] => false
  | c :: r => isBlank c || endsPrefix (c :: r)

/-- The brackets of the text close one another, whatever their kind. -/
def isBalanced : (depth : Nat) → Text → Bool
  | depth, [] => depth == 0
  | depth, c :: r =>
      if isOpening c then isBalanced (depth + 1) r
      else if isClosing c then depth != 0 && isBalanced (depth - 1) r
      else isBalanced depth r

/-- A pair of brackets that takes spaces: braces, or the brackets of an array literal. -/
structure Pair (code front inside back : Text) (opening closing : Char) : Prop where
  whole : code = front ++ opening :: (inside ++ closing :: back)
  matched : isBalanced 0 inside = true
  spaced : opening = '\x7b' ∧ closing = '\x7d' ∨
    opening = '[' ∧ closing = ']' ∧ Operand.endsCode front = false

/-- In every such pair that holds something, both ends of that are as they may be: the character
behind the opening bracket, and the code in front of the closing one, given backwards. -/
def Padded (mayOpen : Char → Bool) (mayClose : Char → Text → Bool) (code : Text) : Prop :=
  ∀ front inside back opening closing, Pair code front inside back opening closing →
    inside ≠ [] → (∀ c ∈ inside.head?, mayOpen c = true) ∧
      mayClose closing (front ++ opening :: inside).reverse = true

theorem Padded.mono {o : Char → Bool} {p q : Char → Text → Bool} {code : Text}
    (h : Padded o p code) (weaker : ∀ c t, p c t = true → q c t = true) : Padded o q code := by
  intro front inside back opening closing pair some
  obtain ⟨first, last⟩ := h front inside back opening closing pair some
  exact ⟨first, weaker _ _ last⟩

/-! The scan. -/

/-- What is open behind a character. -/
def nesting (passed : Text) (spaced : List Bool) (c : Char) : List Bool :=
  if isOpening c then (c == '\x7b' || !Operand.isBehind passed) :: spaced
  else if isClosing c then spaced.tail
  else spaced

def nestingFrom : (passed : Text) → (spaced : List Bool) → Text → List Bool
  | _, spaced, [] => spaced
  | passed, spaced, c :: r => nestingFrom (c :: passed) (nesting passed spaced c) r

def isClosable : Text → Bool
  | [] => true
  | b :: r => isOpening b || mayPrecede (b :: r)

def endsOpen (passed : Text) : Bool := passed.head?.any isOpening

/-- The character may stand behind the text passed, as to the brackets among the two. -/
structure Seemly (passed : Text) (spaced : List Bool) (c : Char) : Prop where
  behind : endsOpen passed = true → spaced.head? = some true →
    isClosing c = true ∨ mayFollow c = true
  before : isClosing c = true → spaced.headD (c == '\x7d') = true → isClosable passed = true

def SeemlyFrom : (passed : Text) → (spaced : List Bool) → Text → Prop
  | _, _, [] => True
  | passed, spaced, c :: r =>
      Seemly passed spaced c ∧ SeemlyFrom (c :: passed) (nesting passed spaced c) r

theorem seemlyFrom_append {passed : Text} {spaced : List Bool} {a b : Text} :
    SeemlyFrom passed spaced (a ++ b) ↔ SeemlyFrom passed spaced a ∧
      SeemlyFrom (a.reverse ++ passed) (nestingFrom passed spaced a) b := by
  induction a generalizing passed spaced with
  | nil => exact ⟨fun h => ⟨trivial, h⟩, And.right⟩
  | cons c a ih =>
      rw [List.cons_append, SeemlyFrom, SeemlyFrom, ih, and_assoc, List.reverse_cons,
        List.append_assoc]
      rfl

/-- Behind balanced text the same brackets are open as in front. -/
theorem nestingFrom_of_isBalanced {inside : Text} {inner outer : List Bool}
    (h : isBalanced inner.length inside = true) (passed : Text) :
    nestingFrom passed (inner ++ outer) inside = outer := by
  induction inside generalizing passed inner with
  | nil =>
      rw [List.length_eq_zero_iff.mp (beq_iff_eq.mp h)]
      rfl
  | cons c r ih =>
      rw [isBalanced] at h
      rw [nestingFrom, nesting]
      split at h
      · next opening =>
          rw [if_pos opening]
          exact @ih (_ :: inner) h (c :: passed)
      · next notOpening =>
          rw [if_neg notOpening]
          split at h
          · next closing =>
              rw [if_pos closing]
              cases inner with
              | nil => cases h
              | cons x inner => exact ih (Bool.and_eq_true_iff.mp h).2 (c :: passed)
          · next notClosing =>
              rw [if_neg notClosing]
              exact ih h (c :: passed)

theorem not_isClosing_of_isBalanced {c : Char} {r : Text} (h : isBalanced 0 (c :: r) = true) :
    isClosing c = false := by
  rw [isBalanced] at h
  split at h
  · next opening => exact isClosing_of_isOpening opening
  · split at h
    · cases h
    · next notClosing => exact eq_false_of_ne_true notClosing

theorem not_isOpening_of_isBalanced {c : Char} {w : Text} {depth : Nat}
    (h : isBalanced depth (w ++ [c]) = true) : isOpening c = false := by
  induction w generalizing depth with
  | nil =>
      refine eq_false_of_ne_true fun opening => ?_
      rw [List.nil_append, isBalanced, if_pos opening] at h
      cases h
  | cons d w ih =>
      rw [List.cons_append, isBalanced] at h
      split at h
      · exact ih h
      · split at h
        · exact ih (Bool.and_eq_true_iff.mp h).2
        · exact ih h

/-- Where the scan finds nothing amiss, all pairs are padded. -/
theorem Padded.of_seemlyFrom {code : Text} (h : SeemlyFrom [] [] code) :
    Padded mayFollow (fun _ t => mayPrecede t) code := by
  intro front inside back opening closing pair some
  obtain ⟨whole, matched, spaced⟩ := pair
  have opens (s : List Bool) : isOpening opening = true ∧ isClosing closing = true ∧
      nesting (front.reverse ++ []) s opening = true :: s := by
    rcases spaced with ⟨rfl, rfl⟩ | ⟨rfl, rfl, array⟩
    · exact ⟨rfl, rfl, rfl⟩
    · refine ⟨rfl, rfl, ?_⟩
      rw [Operand.endsCode] at array
      rw [nesting, if_pos (by rfl), List.append_nil, array]
      rfl
  rw [whole, seemlyFrom_append, SeemlyFrom, (opens _).2.2, seemlyFrom_append] at h
  obtain ⟨-, -, inner, last, -⟩ := h
  have outer (passed : Text) (s : List Bool) : nestingFrom passed s inside = s :=
    @nestingFrom_of_isBalanced inside [] s matched passed
  rw [outer] at last
  have ends := last.before (opens []).2.1 rfl
  constructor
  · cases inside with
    | nil => exact absurd rfl some
    | cons c r =>
        rintro d ⟨⟩
        have allowed := inner.1.behind (opens []).1 rfl
        rw [not_isClosing_of_isBalanced matched] at allowed
        exact allowed.resolve_left Bool.false_ne_true
  · obtain ⟨w, c, rfl⟩ := (List.eq_nil_or_concat inside).resolve_left some
    rw [List.concat_eq_append] at matched ends ⊢
    have turned : (front ++ opening :: (w ++ [c])).reverse =
        c :: (w.reverse ++ opening :: front.reverse) := by simp
    have passed : (w ++ [c]).reverse ++ opening :: (front.reverse ++ []) =
        c :: (w.reverse ++ opening :: front.reverse) := by simp
    rwa [passed, isClosable, not_isOpening_of_isBalanced matched, Bool.false_or, ← turned] at ends

/-! The pass itself. -/

theorem stop_of_bracket {c : Char} (h : isOpening c = true ∨ isClosing c = true) :
    isBlank c = false ∧ isWordPart c = false := by
  simp only [isOpening, isClosing, Bool.or_eq_true, beq_iff_eq] at h
  rcases h with (rfl | rfl) | (rfl | rfl) <;> exact ⟨by decide, by decide⟩

theorem mayFollow_of_isBlank {c : Char} (h : isBlank c = true) : mayFollow c = true := by
  simp [mayFollow, h]

theorem mayPrecede_of_isBlank {c : Char} (h : isBlank c = true) (r : Text) :
    mayPrecede (c :: r) = true := by
  rw [mayPrecede, h, Bool.true_or]

theorem isClosable_of_isBlank {c : Char} (h : isBlank c = true) (r : Text) :
    isClosable (c :: r) = true := by
  rw [isClosable, mayPrecede_of_isBlank h, Bool.or_true]

theorem not_isClosing_of_isOpening {c : Char} (h : isOpening c = true) : isClosing c ≠ true := by
  rw [isClosing_of_isOpening h]
  exact Bool.false_ne_true

/-- What takes no space in front may stand behind an opening bracket. -/
theorem comes_of_tight {r : Text} (h : needsSpaceBefore r ≠ true) :
    ∀ c ∈ r.head?, isClosing c = true ∨ isBlank c = true := by
  intro c hc
  obtain ⟨s, rfl⟩ := List.head?_eq_some_iff.mp hc
  rw [needsSpaceBefore] at h
  cases hblank : isBlank c <;> simp_all

/-- What takes no space behind may stand in front of a closing bracket, and so may a space that
was put there. -/
theorem isClosable_of_tight {passed out : Text} (h : needsSpaceBehind passed ≠ true)
    (last : out.head? = passed.head? ∨ out.head? = some ' ') : isClosable out = true := by
  cases out with
  | nil => rfl
  | cons d out =>
      rcases last with last | last
      · obtain ⟨p, rfl⟩ := List.head?_eq_some_iff.mp last.symm
        rw [needsSpaceBehind] at h
        rw [isClosable, mayPrecede]
        cases hblank : isBlank d <;> simp_all
      · obtain rfl : d = ' ' := Option.some.inj last
        exact isClosable_of_isBlank rfl out

theorem nesting_opening {c : Char} (h : isOpening c = true) {p q : Text} (alike : Operand.Alike p q)
    (spaced : List Bool) :
    nesting q spaced c = (c == '\x7b' || !Operand.isBehind p) :: spaced := by
  rw [nesting, if_pos h, alike.same]

theorem nesting_closing {c : Char} (h : isClosing c = true) (passed : Text) (spaced : List Bool) :
    nesting passed spaced c = spaced.tail := by
  rw [nesting, if_neg fun opening => not_isClosing_of_isOpening opening h, if_pos h]

theorem nesting_plain {c : Char} (h : isOpening c = false ∧ isClosing c = false) (passed : Text)
    (spaced : List Bool) : nesting passed spaced c = spaced := by
  rw [nesting, h.1, h.2]
  rfl

theorem seemly_space (passed : Text) (spaced : List Bool) : Seemly passed spaced ' ' where
  behind _ _ := .inr rfl
  before := nofun

/-- Spaced code is seemly, the spaces that were put behind the text passed included. -/
theorem seemlyFrom_spaceFrom {t passed out : Text} {spaced : List Bool}
    (alike : Operand.Alike passed out) (last : out.head? = passed.head? ∨ out.head? = some ' ')
    (first : endsOpen out = true → spaced.head? = some true →
      ∀ c ∈ t.head?, isClosing c = true ∨ isBlank c = true) :
    SeemlyFrom out spaced (spaceFrom passed spaced t) := by
  induction t generalizing passed out spaced with
  | nil => trivial
  | cons c r ih =>
      have next : Operand.Alike (c :: passed) (c :: out) := alike.append [c]
      have behind (opens : endsOpen out = true) (top : spaced.head? = some true) :
          isClosing c = true ∨ mayFollow c = true :=
        (first opens top c rfl).imp_right mayFollow_of_isBlank
      have space : ∀ d ∈ [' '], isSpaceOrTab d = true := List.forall_mem_singleton.mpr rfl
      rw [spaceFrom]
      split
      · next opening =>
          obtain ⟨notBlank, notWord⟩ := stop_of_bracket (.inl opening)
          have here : Seemly out spaced c :=
            ⟨behind, fun closing => absurd closing (not_isClosing_of_isOpening opening)⟩
          have pushed := nesting_opening opening alike spaced
          dsimp only
          split
          · refine ⟨here, seemly_space _ _, ?_⟩
            rw [nesting_plain (by decide), pushed]
            exact ih (@Operand.Alike.of_symbol c [] [' '] notBlank notWord (List.forall_mem_nil _) space
              passed out) (.inr rfl) fun h => absurd h Bool.false_ne_true
          · next tight =>
              refine ⟨here, ?_⟩
              rw [pushed]
              refine ih next (.inl rfl) fun _ top => ?_
              have takes : (c == '\x7b' || !Operand.isBehind passed) = true := Option.some.inj top
              rw [takes, Bool.true_and] at tight
              exact comes_of_tight tight
      · next notOpening =>
          have closed : ∀ out, endsOpen (c :: out) ≠ true := fun _ => notOpening
          split
          · next closing =>
              obtain ⟨notBlank, notWord⟩ := stop_of_bracket (.inr closing)
              have popped := nesting_closing closing
              dsimp only
              split
              · refine ⟨seemly_space _ _, ?_⟩
                rw [nesting_plain (by decide)]
                refine ⟨⟨fun h => absurd h Bool.false_ne_true, fun _ _ => isClosable_of_isBlank rfl _⟩, ?_⟩
                rw [popped]
                exact ih (@Operand.Alike.of_symbol c [] [] notBlank notWord (List.forall_mem_nil _)
                  (List.forall_mem_nil _) passed (' ' :: out)) (.inl rfl) fun h => absurd h (closed _)
              · next tight =>
                  refine ⟨⟨fun _ _ => .inl closing, fun _ takes => ?_⟩, ?_⟩
                  · rw [takes, Bool.true_and] at tight
                    exact isClosable_of_tight tight last
                  · rw [popped]
                    exact ih next (.inl rfl) fun h => absurd h (closed _)
          · next notClosing =>
              refine ⟨⟨behind, fun h => absurd h notClosing⟩, ?_⟩
              rw [nesting_plain ⟨eq_false_of_ne_true notOpening, eq_false_of_ne_true notClosing⟩]
              exact ih next (.inl rfl) fun h => absurd h (closed _)

theorem seemlyFrom_space (t : Text) : SeemlyFrom [] [] (space t) :=
  seemlyFrom_spaceFrom (.refl []) (.inl rfl) nofun

/-! Text without brackets. -/

def IsPlain (t : Text) : Prop := ∀ c ∈ t, isOpening c = false ∧ isClosing c = false

theorem isPlain_append {a b : Text} : IsPlain (a ++ b) ↔ IsPlain a ∧ IsPlain b :=
  List.forall_mem_append

theorem plain_of_isBlank {c : Char} (h : isBlank c = true) : isOpening c = false ∧ isClosing c = false := by
  have ink (bracket : isOpening c = true ∨ isClosing c = true) : False := by
    rw [(stop_of_bracket bracket).1] at h
    cases h
  exact ⟨eq_false_of_ne_true fun opening => ink (.inl opening),
    eq_false_of_ne_true fun closing => ink (.inr closing)⟩

theorem isPlain_of_isBlank {g : Text} (h : ∀ c ∈ g, isBlank c = true) : IsPlain g :=
  fun c hc => plain_of_isBlank (h c hc)

theorem isPlain_of_isSpaceOrTab {g : Text} (h : ∀ c ∈ g, isSpaceOrTab c = true) : IsPlain g :=
  isPlain_of_isBlank fun c hc => isBlank_of_isSpaceOrTab (h c hc)

theorem nestingFrom_plain {w : Text} (plain : IsPlain w) (passed : Text) (spaced : List Bool) :
    nestingFrom passed spaced w = spaced := by
  induction w generalizing passed with
  | nil => rfl
  | cons c w ih =>
      obtain ⟨hc, rest⟩ := List.forall_mem_cons.mp plain
      rw [nestingFrom, nesting_plain hc]
      exact ih rest (c :: passed)

theorem seemlyFrom_plain {w : Text} (plain : IsPlain w) {passed : Text} {spaced : List Bool}
    (first : endsOpen passed = true → spaced.head? = some true → ∀ c ∈ w.head?, mayFollow c = true) :
    SeemlyFrom passed spaced w := by
  induction w generalizing passed with
  | nil => trivial
  | cons c w ih =>
      obtain ⟨hc, rest⟩ := List.forall_mem_cons.mp plain
      refine ⟨⟨fun opens top => .inr (first opens top c rfl), fun closing => ?_⟩, ?_⟩
      · exact absurd (hc.2.symm.trans closing) Bool.false_ne_true
      · rw [nesting_plain hc]
        exact ih rest fun opens => absurd (hc.1.symm.trans opens) Bool.false_ne_true

theorem isPlain_numbered {n : Nat} {ps : List Literal.Piece}
    (h : ∀ c, .code c ∈ ps → isOpening c = false ∧ isClosing c = false) :
    IsPlain (Literal.numbered n ps) := by
  induction ps generalizing n with
  | nil => exact List.forall_mem_nil _
  | cons p ps ih =>
      have rest (m : Nat) : IsPlain (Literal.numbered m ps) := ih fun c hc => h c (List.mem_cons_of_mem p hc)
      cases p with
      | code c => exact List.forall_mem_cons.mpr ⟨h c (List.mem_cons_self ..), rest n⟩
      | literal t => exact isPlain_append.mpr ⟨fun c => plain_of_mem_placeholder, rest (n + 1)⟩

/-! A semicolon. -/

/-- What may stand directly in front of a closing bracket of a line that took a semicolon: in
front of a brace also the semicolon, behind an operator in front of operands. -/
def mayEnd (closing : Char) : Text → Bool
  | [] => false
  | c :: r => mayPrecede (c :: r) || closing == '\x7d' && c == ';' && endsPrefix r

theorem mayEnd_of_mayPrecede {t : Text} (h : mayPrecede t = true) (closing : Char) :
    mayEnd closing t = true := by
  cases t with
  | nil => cases h
  | cons c r => rw [mayEnd, h, Bool.true_or]

theorem isBalanced_insert {a b : Text} {c : Char} (h : isOpening c = false ∧ isClosing c = false)
    (depth : Nat) : isBalanced depth (a ++ c :: b) = isBalanced depth (a ++ b) := by
  induction a generalizing depth with
  | nil =>
      rw [List.nil_append, List.nil_append, isBalanced, h.1, h.2]
      rfl
  | cons d a ih => rw [List.cons_append, List.cons_append, isBalanced, isBalanced, ih, ih, ih]

namespace Pair

variable {code front inside back : Text} {opening closing : Char}

theorem isOpening (h : Pair code front inside back opening closing) : isOpening opening = true := by
  rcases h.spaced with ⟨rfl, -⟩ | ⟨rfl, -⟩ <;> rfl

theorem isClosing (h : Pair code front inside back opening closing) : isClosing closing = true := by
  rcases h.spaced with ⟨-, rfl⟩ | ⟨-, rfl, -⟩ <;> rfl

/-- A pair among whose brackets a character was put, or behind it, was one before. -/
theorem of_insert {a b : Text} {c : Char} (hc : Bracket.isOpening c = false ∧ Bracket.isClosing c = false)
    (hb : ∀ d ∈ b, Bracket.isOpening d = false)
    (h : Pair (a ++ c :: b) front inside back opening closing) :
    (∃ more, Pair (a ++ b) front inside (more ++ b) opening closing) ∨
      ∃ left right, inside = left ++ c :: right ∧ a = front ++ opening :: left ∧
        b = right ++ closing :: back ∧
        Pair (a ++ b) front (left ++ right) back opening closing := by
  have opens := h.isOpening
  have closes := h.isClosing
  obtain ⟨whole, matched, spaced⟩ := h
  have notOpening : c ≠ opening := by
    rintro rfl
    rw [opens] at hc
    cases hc.1
  have notClosing : c ≠ closing := by
    rintro rfl
    rw [closes] at hc
    cases hc.2
  rcases List.append_eq_append_iff.mp whole with ⟨x, -, behind⟩ | ⟨y, rfl, behind⟩
  · exfalso
    cases x with
    | nil => exact notOpening (List.cons_eq_cons.mp behind).1
    | cons d x =>
        have inside := hb opening ((List.cons_eq_cons.mp behind).2 ▸ by simp)
        rw [opens] at inside
        cases inside
  · cases y with
    | nil => exact absurd (List.cons_eq_cons.mp behind).1.symm notOpening
    | cons d y =>
        obtain ⟨rfl, inner⟩ := List.cons_eq_cons.mp behind
        rcases List.append_eq_append_iff.mp inner with ⟨z, rfl, last⟩ | ⟨u, rfl, last⟩
        · cases z with
          | nil => exact absurd (List.cons_eq_cons.mp last).1.symm notClosing
          | cons e z =>
              obtain ⟨rfl, rfl⟩ := List.cons_eq_cons.mp last
              exact .inl ⟨z, by simp, matched, spaced⟩
        · cases u with
          | nil => exact absurd (List.cons_eq_cons.mp last).1 notClosing
          | cons e u =>
              obtain ⟨rfl, rfl⟩ := List.cons_eq_cons.mp last
              rw [isBalanced_insert hc] at matched
              exact .inr ⟨y, u, rfl, rfl, rfl, by simp, matched, spaced⟩

end Pair

/-- The first closing bracket behind blanks. -/
theorem eq_of_blanks_closing {g rest right back : Text} {c closing : Char}
    (hg : ∀ d ∈ g, isBlank d = true) (hrest : IsPlain rest) (hc : isClosing closing = true)
    (h : g ++ c :: rest = right ++ closing :: back) : right = g ∧ closing = c := by
  rcases List.append_eq_append_iff.mp h with ⟨x, rfl, behind⟩ | ⟨x, rfl, behind⟩
  · cases x with
    | nil => exact ⟨List.append_nil g, (List.cons_eq_cons.mp behind).1.symm⟩
    | cons d x =>
        have plain := (hrest closing ((List.cons_eq_cons.mp behind).2 ▸ by simp)).2
        rw [hc] at plain
        cases plain
  · cases x with
    | nil => exact ⟨(List.append_nil right).symm, (List.cons_eq_cons.mp behind).1⟩
    | cons d x =>
        obtain ⟨rfl, -⟩ := List.cons_eq_cons.mp behind
        have blank := hg closing (by simp)
        rw [(stop_of_bracket (.inr hc)).1] at blank
        cases blank

/-- Code that a semicolon was put into, where one may be put, or that was left as it is. -/
inductive Terminated (code : Text) : (result : Text) → Prop where
  | same : Terminated code code
  | added {front a b rest : Text} : code = front ++ a ++ (b ++ rest) → Semicolon.Parts a b →
      IsPlain rest → Terminated code (front ++ a ++ ';' :: (b ++ rest))

theorem Terminated.indented {code result : Text} (h : Terminated code result) (indent : Text) :
    Terminated (indent ++ code) (indent ++ result) := by
  cases h with
  | same => exact .same
  | @added front a b rest whole parts plain =>
      have made := @added (indent ++ code) (indent ++ front) a b rest (by rw [whole]; simp) parts plain
      simpa using made

theorem not_isOpening_of_closesLine {c : Char} (h : Semicolon.closesLine c = true) :
    isOpening c = false := by
  refine eq_false_of_ne_true fun opening => ?_
  simp only [isOpening, Bool.or_eq_true, beq_iff_eq] at opening
  rcases opening with rfl | rfl <;> cases h

theorem exists_concat_of_append_eq {s front left : Text} {c d : Char}
    (h : s ++ [d] = front ++ c :: left) (hd : d ≠ c) : ∃ l, left = l ++ [d] := by
  rcases List.eq_nil_or_concat left with rfl | ⟨l, e, rfl⟩
  · obtain ⟨-, last⟩ := List.append_inj' h rfl
    exact absurd (List.cons_eq_cons.mp last).1 hd
  · have whole : s ++ [d] = (front ++ c :: l) ++ [e] := by simp [h]
    obtain ⟨-, last⟩ := List.append_inj' whole rfl
    rw [(List.cons_eq_cons.mp last).1]
    exact ⟨l, List.concat_eq_append⟩

/-- Blanks, and a semicolon in front of them, may stand between an end that is no blank and a
brace. -/
theorem mayEnd_semicolon {d : Char} {p g : Text} (notBlank : isBlank d = false)
    (hg : ∀ c ∈ g, isBlank c = true) (h : mayPrecede (g.reverse ++ d :: p) = true) :
    mayEnd '\x7d' (g.reverse ++ ';' :: d :: p) = true := by
  cases hr : g.reverse with
  | nil =>
      rw [hr, List.nil_append, mayPrecede, notBlank, Bool.false_or] at h
      rw [List.nil_append, mayEnd, h]
      exact Bool.or_true _
  | cons c r =>
      have blank := hg c (List.mem_reverse.mp (hr ▸ List.mem_cons_self ..))
      exact mayEnd_of_mayPrecede (mayPrecede_of_isBlank blank _) _

/-- Padded code that takes a semicolon stays so, but for the semicolon. -/
theorem Padded.terminated {code result : Text} (h : Padded mayFollow (fun _ t => mayPrecede t) code)
    (taken : Terminated code result) : Padded mayFollow mayEnd result := by
  cases taken with
  | same => exact h.mono fun c t precedes => mayEnd_of_mayPrecede precedes c
  | @added indent a b rest whole parts plain =>
      rw [whole] at h
      have noOpening : ∀ c ∈ b ++ rest, isOpening c = false := List.forall_mem_append.mpr
        ⟨fun c hc => not_isOpening_of_closesLine (parts.closes c hc), fun c hc => (plain c hc).1⟩
      intro front inside back opening closing pair some
      have closes := pair.isClosing
      rcases pair.of_insert ⟨rfl, rfl⟩ noOpening with
        ⟨more, before⟩ | ⟨left, right, rfl, opened, ends, before⟩
      · obtain ⟨first, last⟩ := h _ _ _ _ _ before some
        exact ⟨first, mayEnd_of_mayPrecede last closing⟩
      · cases parts with
        | code =>
            have here := (plain closing (by rw [← List.nil_append rest, ends]; simp)).2
            rw [closes] at here
            cases here
        | @block s g d notBlank notTerminator hg =>
            rw [List.append_assoc] at ends
            obtain ⟨rfl, rfl⟩ := eq_of_blanks_closing hg plain closes ends
            obtain rfl : opening = '\x7b' := by
              rcases pair.spaced with ⟨rfl, -⟩ | ⟨-, none, -⟩
              · rfl
              · cases none
            -- the block holds a statement, so the semicolon does not stand behind the brace
            rw [← List.append_assoc] at opened
            obtain ⟨l, rfl⟩ := exists_concat_of_append_eq opened fun brace => by
              rw [brace] at notTerminator
              cases notTerminator
            obtain ⟨first, last⟩ := h _ _ _ _ _ before (by simp)
            constructor
            · intro c hc
              refine first c ?_
              cases l <;> exact hc
            · have turned (x : Text) : (front ++ '\x7b' :: (l ++ [d] ++ x)).reverse =
                  x.reverse ++ d :: (front ++ '\x7b' :: l).reverse := by simp
              have added : (front ++ '\x7b' :: (l ++ [d] ++ ';' :: right)).reverse =
                  right.reverse ++ ';' :: d :: (front ++ '\x7b' :: l).reverse := by simp
              change mayPrecede _ = true at last
              rw [turned] at last
              rw [added]
              exact mayEnd_semicolon notBlank hg last

end Bracket
end MotionExpr
