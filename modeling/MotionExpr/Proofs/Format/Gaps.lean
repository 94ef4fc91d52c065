import MotionExpr.Proofs.Format.Lexing

/-!
Changing the gaps of code. A gap is changed with a view to the atoms around it, never to
other gaps, so a chain of such changes goes gap by gap. A scan of masked code that does at
each atom what such a change says does so for the code as a whole.
-/

namespace MotionExpr

open Text Literal

/-- What becomes of the gap behind an atom: given are the atom, those in front of it with the
nearest first, the gap, and the atom behind it. -/
abbrev GapChange := Atom → List Atom → Text → Option Atom → Text

def GapChange.after (ψ φ : GapChange) : GapChange := fun a before gap next =>
  ψ a before (φ a before gap next) next

namespace Code

def mapGaps (φ : GapChange) : List Atom → Code → Code
  | _, [] => []
  | before, x :: c => ⟨x.atom, φ x.atom before x.gap (first? c)⟩ :: mapGaps φ (x.atom :: before) c

variable {φ ψ : GapChange}

theorem mapGaps_cons (φ : GapChange) (before : List Atom) (x : Cell) (c : Code) :
    mapGaps φ before (x :: c) =
      ⟨x.atom, φ x.atom before x.gap (first? c)⟩ :: mapGaps φ (x.atom :: before) c := rfl

@[simp] theorem first?_mapGaps (before : List Atom) (c : Code) :
    first? (mapGaps φ before c) = first? c := by
  cases c <;> rfl

/-- One change behind another is one change. -/
theorem mapGaps_mapGaps (before : List Atom) (c : Code) :
    mapGaps ψ before (mapGaps φ before c) = mapGaps (ψ.after φ) before c := by
  induction c generalizing before with
  | nil => rfl
  | cons x c ih =>
      rw [mapGaps, mapGaps, mapGaps, first?_mapGaps, ih]
      rfl

theorem literals_mapGaps (before : List Atom) (c : Code) :
    literals (pieces (mapGaps φ before c)) = literals c.pieces := by
  induction c generalizing before with
  | nil => rfl
  | cons x c ih =>
      rw [mapGaps, pieces, pieces, literals_append, literals_append, literals_append,
        literals_append, literals_map_code, literals_map_code, ih]

theorem masked_cons (n : Nat) (x : Cell) (c : Code) :
    masked n (x :: c) = numbered n x.atom.pieces ++
      (x.gap ++ masked (n + (literals x.atom.pieces).length) c) := by
  rw [masked, pieces, numbered_append, numbered_map_code_append]
  rfl

/-- A change that leaves atoms apart. -/
def KeepsApart (φ : GapChange) : Prop :=
  ∀ (a : Atom) (before : List Atom) (gap : Text) (next : Option Atom), a.Fits →
    (∀ b, next = some b → b.Fits) → a.Joint gap next → a.Joint (φ a before gap next) next

theorem KeepsApart.comp (hψ : KeepsApart ψ) (hφ : KeepsApart φ) : KeepsApart (ψ.after φ) :=
  fun a before gap next fits hnext joint =>
    hψ a before _ next fits hnext (hφ a before gap next fits hnext joint)

theorem lexed_mapGaps (hφ : KeepsApart φ) {c : Code} (h : Lexed c) (before : List Atom) :
    Lexed (mapGaps φ before c) := by
  induction c generalizing before with
  | nil => trivial
  | cons x c ih =>
      obtain ⟨fits, joint, rest⟩ := h
      refine ⟨fits, ?_, ih rest _⟩
      rw [first?_mapGaps]
      exact hφ _ _ _ _ fits (fits_first? rest) joint

end Code

/-! What the text behind some atoms is like. -/

/-- Opening brackets and a negation, behind which a prefix operator takes no space. -/
def Operator.isTight (c : Char) : Bool := c == '(' || c == '[' || c == '\x7b' || c == '!'

namespace Atom

def isBlank : Atom → Bool
  | symbol c => Text.isBlank c
  | _ => false

/-- The code ends in an operand behind these atoms, nearest first. -/
def endInOperand : List Atom → Bool
  | [] => false
  | symbol c :: before => if Text.isBlank c then endInOperand before else Operand.closes c
  | word t :: _ => Operand.isBehind t.reverse
  | literal _ :: _ => true
  | _ => false

/-- What stands in front of a prefix operator behind these atoms. -/
def lead : List Atom → Text
  | [] => []
  | symbol c :: before =>
      if Text.isBlank c then lead before
      else if Operator.isTight c then []
      else [' ']
  | _ => [' ']

/-- A text, given backwards, that ends in the atoms, nearest first, and a gap. -/
inductive Behind : List Atom → Text → Prop
  | start {gap : Text} : (∀ c ∈ gap, isSpaceOrTab c = true) → Behind [] gap
  | atom {a : Atom} {before : List Atom} {prior gap : Text} (n : Nat) : a.Fits → a.Meets prior →
      (∀ c ∈ gap, isSpaceOrTab c = true) → Behind before prior →
      Behind (a :: before) (gap.reverse ++ ((numbered n a.pieces).reverse ++ prior))

theorem Behind.tight {a : Atom} {before : List Atom} {prior : Text} (n : Nat) (fits : a.Fits)
    (meets : a.Meets prior) (h : Behind before prior) :
    Behind (a :: before) ((numbered n a.pieces).reverse ++ prior) :=
  @Behind.atom a before prior [] n fits meets (List.forall_mem_nil _) h

theorem Behind.gap {before : List Atom} {prior gap : Text} (h : Behind before prior)
    (hg : ∀ c ∈ gap, isSpaceOrTab c = true) : Behind before (gap.reverse ++ prior) := by
  cases h with
  | start hblank =>
      refine .start fun c hc => ?_
      rcases List.mem_append.mp hc with hc | hc
      · exact hg c (List.mem_reverse.mp hc)
      · exact hblank c hc
  | @atom a before prior gap' n fits meets hblank behind =>
      have both : gap.reverse ++ (gap'.reverse ++ ((numbered n a.pieces).reverse ++ prior)) =
          (gap' ++ gap).reverse ++ ((numbered n a.pieces).reverse ++ prior) := by simp
      rw [both]
      refine .atom n fits meets (fun c hc => ?_) behind
      exact (List.mem_append.mp hc).elim (hblank c) (hg c)

end Atom

namespace Text

/-- What a word begins with is seen without what stands behind it. -/
theorem isPrefixOf_word {w t p : Text} (hw : ∀ c ∈ w, isWordPart c = true)
    (free : ∀ c, p.head? = some c → isWordPart c = false) :
    w.isPrefixOf (t ++ p) = w.isPrefixOf t := by
  induction w generalizing t with
  | nil => rfl
  | cons d w ih =>
      obtain ⟨hd, rest⟩ := List.forall_mem_cons.mp hw
      cases t with
      | cons c t => exact congrArg ((d == c) && ·) (ih rest)
      | nil =>
          cases p with
          | nil => rfl
          | cons c p =>
              have notHead : (d == c) = false := by
                rw [beq_eq_false_iff_ne]
                rintro rfl
                rw [free d rfl] at hd
                cases hd
              exact congrArg (· && w.isPrefixOf p) notHead

/-- Whether a word stands alone in front is seen without what follows, if that begins with no
word character. -/
theorem standsAlone_append {w t p : Text} (hw : ∀ c ∈ w, isWordPart c = true)
    (free : ∀ c, p.head? = some c → isWordPart c = false) :
    standsAlone w (t ++ p) = standsAlone w t := by
  rw [standsAlone, standsAlone, isPrefixOf_word hw free]
  cases hfront : w.isPrefixOf t with
  | false => rfl
  | true =>
      obtain ⟨s, rfl⟩ := List.isPrefixOf_iff_prefix.mp hfront
      rw [List.append_assoc, List.drop_left, List.drop_left]
      cases s with
      | cons c s => rfl
      | nil =>
          cases p with
          | nil => rfl
          | cons c p =>
              have here := free c rfl
              simp only [isWordPart, Bool.or_eq_false_iff] at here
              simp [startsWithWordChar, here.1.1.1]

end Text

namespace Operand

theorem isBehind_blank_append {g : Text} (h : ∀ c ∈ g, isBlank c = true) (r : Text) :
    isBehind (g ++ r) = isBehind r := by
  rw [isBehind, isBehind, List.dropWhile_append_of_pos h]

theorem isBehind_blanks {gap : Text} (h : ∀ c ∈ gap, isSpaceOrTab c = true) (prior : Text) :
    isBehind (gap ++ prior) = isBehind prior :=
  isBehind_blank_append (fun c hc => isBlank_of_isSpaceOrTab (h c hc)) prior

theorem prefixKeywords_words : ∀ w ∈ prefixKeywords, w.reverse ≠ [] ∧
    ∀ c ∈ w.reverse, isWordPart c = true := by
  have checked : prefixKeywords.all (fun w => w.reverse != [] && w.reverse.all isWordPart) = true := by
    decide
  intro w hw
  simpa using List.all_eq_true.mp checked w hw

theorem endsWithWord_append {t p : Text} (free : ∀ c, p.head? = some c → isWordPart c = false) :
    endsWithWord prefixKeywords (t ++ p) = endsWithWord prefixKeywords t := by
  rw [endsWithWord, endsWithWord, Bool.eq_iff_iff, List.any_eq_true, List.any_eq_true]
  refine exists_congr fun w => and_congr_right fun hw => ?_
  rw [standsAlone_append (prefixKeywords_words w hw).2 free]

theorem endsWithWord_nil : endsWithWord prefixKeywords [] = false := by decide

/-- A character that is no part of a word settles the matter. -/
theorem isBehind_cons {c : Char} {r : Text} (hblank : Text.isBlank c = false)
    (hc : isWordPart c = false) : isBehind (c :: r) = closes c := by
  have free : ∀ d, (c :: r).head? = some d → isWordPart d = false := by
    intro d hd
    rwa [← Option.some.inj hd]
  have none := endsWithWord_append (t := []) free
  rw [List.nil_append, endsWithWord_nil] at none
  simp only [isBehind, List.dropWhile_cons_of_neg (Bool.eq_false_iff.mp hblank), none,
    Bool.not_false, Bool.true_and]

theorem isBehind_word {t p : Text} (ht : t ≠ []) (hw : ∀ c ∈ t, isWordPart c = true)
    (free : ∀ c, p.head? = some c → isWordPart c = false) :
    isBehind (t.reverse ++ p) = isBehind t.reverse := by
  obtain ⟨c, r, hr⟩ := List.exists_cons_of_ne_nil (mt List.reverse_eq_nil_iff.mp ht)
  have part := hw c (List.mem_reverse.mp (hr ▸ List.mem_cons_self ..))
  have notBlank := Bool.eq_false_iff.mp (isBlank_of_isWordPart part)
  have same := endsWithWord_append (t := c :: r) free
  rw [List.cons_append] at same
  simp only [hr, List.cons_append, isBehind, List.dropWhile_cons_of_neg notBlank, same]

end Operand

theorem Operator.lead_cons {c : Char} {r : Text} (h : Text.isBlank c = false) :
    lead (c :: r) = if isTight c then [] else [' '] := by
  simp only [lead, List.dropWhile_cons_of_neg (Bool.eq_false_iff.mp h)]
  rfl

theorem Operator.last_of_mem_all {op : Text} (h : op ∈ all) :
    ∃ c r, op.reverse = c :: r ∧ Operand.closes c = false ∧ Text.isBlank c = false ∧
      isWordPart c = false ∧ isTight c = false := by
  have checked : all.all (fun op => op.reverse.head?.any fun c => !Operand.closes c &&
      (!Text.isBlank c && (!isWordPart c && !isTight c))) = true := by decide
  have here := List.all_eq_true.mp checked op h
  cases hr : op.reverse with
  | nil =>
      rw [hr] at here
      cases here
  | cons c r =>
      rw [hr] at here
      exact ⟨c, r, rfl, by simpa using here⟩

namespace Atom

theorem Behind.isBehind {before : List Atom} {prior : Text} (h : Behind before prior) :
    Operand.isBehind prior = endInOperand before := by
  induction h with
  | @start gap hblank =>
      have same := Operand.isBehind_blanks hblank []
      rw [List.append_nil] at same
      exact same
  | @atom a before prior gap n fits meets hblank behind ih =>
      rw [Operand.isBehind_blanks fun c hc => hblank c (List.mem_reverse.mp hc)]
      cases a with
      | operator op =>
          obtain ⟨c, r, hr, notClosing, notBlank, notPart, -⟩ := Operator.last_of_mem_all fits
          rw [pieces, numbered_map_code, hr, List.cons_append,
            Operand.isBehind_cons notBlank notPart, notClosing]
          rfl
      | word t =>
          rw [pieces, numbered_map_code]
          exact Operand.isBehind_word fits.1 fits.2 meets
      | exponent sign =>
          rcases head_of_isSign fits with rfl | rfl <;> exact Operand.isBehind_cons rfl rfl
      | symbol c =>
          have hc : isWordPart c = false := by
            simp only [Fits, isLone, Bool.and_eq_true, Bool.not_eq_true', bne_iff_ne] at fits
            exact fits.1.1.1.1.1.1
          have one : (numbered n (symbol c).pieces).reverse ++ prior = c :: prior := rfl
          rw [one, endInOperand]
          split
          · next hb =>
              rw [← ih, Operand.isBehind, Operand.isBehind, List.dropWhile_cons_of_pos hb]
          · next hb => exact Operand.isBehind_cons (eq_false_of_ne_true hb) hc
      | literal t =>
          obtain ⟨r, hr⟩ := reverse_numbered_literal n t
          rw [hr, List.cons_append, Operand.isBehind_cons (by decide) (by decide)]
          rfl

theorem Behind.lead {before : List Atom} {prior : Text} (h : Behind before prior) :
    Operator.lead prior = lead before := by
  induction h with
  | @start gap hblank =>
      have none : gap.dropWhile Text.isBlank = [] :=
        List.dropWhile_eq_nil_iff.mpr fun c hc => isBlank_of_isSpaceOrTab (hblank c hc)
      rw [Operator.lead, none]
      rfl
  | @atom a before prior gap n fits meets hblank behind ih =>
      have skip : Operator.lead (gap.reverse ++ ((numbered n a.pieces).reverse ++ prior)) =
          Operator.lead ((numbered n a.pieces).reverse ++ prior) := by
        rw [Operator.lead, Operator.lead, List.dropWhile_append_of_pos]
        exact fun c hc => isBlank_of_isSpaceOrTab (hblank c (List.mem_reverse.mp hc))
      rw [skip]
      cases a with
      | operator op =>
          obtain ⟨c, r, hr, -, notBlank, -, notTight⟩ := Operator.last_of_mem_all fits
          rw [pieces, numbered_map_code, hr, List.cons_append, Operator.lead_cons notBlank, notTight]
          rfl
      | word t =>
          obtain ⟨c, r, hr⟩ := List.exists_cons_of_ne_nil (mt List.reverse_eq_nil_iff.mp fits.1)
          have part := fits.2 c (List.mem_reverse.mp (hr ▸ List.mem_cons_self ..))
          have notTight : Operator.isTight c = false := by
            by_contra hne
            have tight := eq_true_of_ne_false hne
            simp only [Operator.isTight, Bool.or_eq_true, beq_iff_eq] at tight
            rcases tight with ((rfl | rfl) | rfl) | rfl <;> cases part
          rw [pieces, numbered_map_code, hr, List.cons_append,
            Operator.lead_cons (isBlank_of_isWordPart part), notTight]
          rfl
      | exponent sign =>
          rcases head_of_isSign fits with rfl | rfl <;> rfl
      | symbol c =>
          have one : (numbered n (symbol c).pieces).reverse ++ prior = c :: prior := rfl
          rw [one, Atom.lead]
          split
          · next hb =>
              rw [← ih, Operator.lead, Operator.lead, List.dropWhile_cons_of_pos hb]
          · next hb => exact Operator.lead_cons (eq_false_of_ne_true hb)
      | literal t =>
          obtain ⟨r, hr⟩ := reverse_numbered_literal n t
          rw [hr, List.cons_append, Operator.lead_cons (by decide)]
          rfl

/-- Only a word stands in front of an exponent, and a word behind it. -/
theorem Joint.isWord_of_exponent {a b : Atom} {gap : Text} (joint : a.Joint gap (some b))
    (h : b.isExponent = true) : a.isWord = true := by
  have apart := joint.apart b rfl (.inl (joint.mantissa b rfl h))
  cases a with
  | word t => rfl
  | operator op => exact absurd h (Bool.eq_false_iff.mp apart.1)
  | exponent sign =>
      cases b with
      | exponent c => cases apart
      | _ => cases h
  | symbol c => exact absurd h (Bool.eq_false_iff.mp apart.1)
  | literal t => exact absurd h (Bool.eq_false_iff.mp apart)

theorem Joint.word_behind_exponent {a : Atom} {gap : Text} {next : Option Atom}
    (joint : a.Joint gap next) (h : a.isExponent = true) : ∃ b, next = some b ∧ b.isWord = true := by
  obtain ⟨hgap, hsome⟩ := joint.exponent h
  obtain ⟨b, hb⟩ := Option.isSome_iff_exists.mp hsome
  have apart := joint.apart b hb (.inl hgap)
  cases a with
  | exponent sign => exact ⟨b, hb, apart⟩
  | _ => cases h

/-- Another gap will do if exponents and comments keep theirs and no gap is lost that is needed. -/
theorem Joint.change {a : Atom} {gap gap' : Text} {next : Option Atom} (joint : a.Joint gap next)
    (blank : ∀ c ∈ gap', isSpaceOrTab c = true)
    (same : a.isExponent = true ∨ a.isComment = true ∨ (∃ b, next = some b ∧ b.isExponent = true) →
      gap' = gap)
    (apart : ∀ b, next = some b → gap' = [] → a ≠ .symbol '!' → gap = [] ∨ a.Apart b) :
    a.Joint gap' next := by
  constructor
  case blank => exact blank
  case apart =>
    rintro b hb hgap
    by_cases hneg : a = .symbol '!'
    · exact joint.apart b hb (.inr hneg)
    · rcases apart b hb (hgap.resolve_right hneg) hneg with hgap | h
      · exact joint.apart b hb (.inl hgap)
      · exact h
  case exponent =>
    intro h
    rw [same (.inl h)]
    exact joint.exponent h
  case mantissa =>
    intro b hb h
    rw [same (.inr (.inr ⟨b, hb, h⟩))]
    exact joint.mantissa b hb h
  case comment =>
    intro h
    rw [same (.inr (.inl h))]
    exact joint.comment h

/-- What is no operator itself makes no operator longer. -/
theorem apart_operator {op : Text} {b : Atom} (hop : op ∈ Operator.all) (slash : op ≠ ['/'])
    (fits : b.Fits) (hb : ∀ op, b ≠ .operator op) (hexponent : b.isExponent = false) :
    Apart (.operator op) b := by
  refine ⟨hexponent, fun c hc => ⟨?_, fun h => absurd h slash⟩⟩
  have extend {d : Char} (hd : isOperatorChar d = false) : op ++ [d] ∉ Operator.all :=
    Operator.extend_not_mem_all (text_ne_nil (a := .operator op) hop) hd
  cases b with
  | operator op => exact absurd rfl (hb op)
  | exponent sign => cases hexponent
  | word t => exact extend (plain_of_isWordPart (fits.2 c (List.mem_of_mem_head? hc))).1
  | symbol d =>
      obtain rfl : d = c := Option.some.inj hc
      simp only [Fits, isLone, Bool.and_eq_true, Bool.not_eq_true'] at fits
      exact extend fits.1.1.1.1.1.2
  | literal t => exact extend_not_mem_of_literal fits hc hop

theorem apart_symbol {a : Atom} (fits : a.Fits) {c : Char} (hc : isLone c = true)
    (ha : a.isExponent = false) : a.Apart (.symbol c) := by
  have notOperator : isOperatorChar c = false := by
    simp only [isLone, Bool.and_eq_true, Bool.not_eq_true'] at hc
    exact hc.1.1.1.1.1.2
  have other {d : Char} (hd : isOperatorChar d = true) : c ≠ d := by
    rintro rfl
    rw [notOperator] at hd
    cases hd
  cases a with
  | operator op =>
      refine ⟨rfl, fun d hd => ?_⟩
      obtain rfl : c = d := Option.some.inj hd
      exact ⟨Operator.extend_not_mem_all (text_ne_nil fits) notOperator, fun _ => other (by decide)⟩
  | word t =>
      refine ⟨rfl, ?_⟩
      split <;> rfl
  | exponent sign => cases ha
  | symbol d => exact ⟨rfl, fun _ hd => other (by decide) (Option.some.inj hd)⟩
  | literal t => rfl

/-- Directly behind an atom that is no word there stands no exponent. -/
theorem not_isExponent_of_apart {a b : Atom} (ha : a.isWord = false) (apart : Apart a b) :
    b.isExponent = false := by
  cases a with
  | operator op | symbol c => exact apart.1
  | word t => cases ha
  | exponent c =>
      cases b with
      | word t => rfl
      | _ => cases apart
  | literal t => exact apart

/-- Atoms that are kept apart are read as they are. -/
theorem Joint.meets {a b : Atom} {prior gap : Text} (n : Nat) (fits : a.Fits) (here : a.Meets prior)
    (joint : a.Joint gap (some b)) :
    b.Meets (gap.reverse ++ ((numbered n a.pieces).reverse ++ prior)) := by
  by_cases hgap : gap = []
  · have apart := joint.apart b rfl (.inl hgap)
    rw [hgap, List.reverse_nil, List.nil_append]
    cases hword : a.isWord with
    | true =>
        cases a with
        | word t =>
            rw [pieces, numbered_map_code]
            exact (apart_word_iff fits here).mp apart
        | _ => cases hword
    | false =>
        obtain ⟨c, r, hr, hn, hc⟩ := last_of_not_isWord fits hword n
        rw [hr]
        exact (meets_cons_iff hn hc).mpr (not_isExponent_of_apart hword apart)
  · refine (meets_behindGap_iff joint.blank hgap).mpr ?_
    rw [← Bool.not_eq_true]
    exact fun hb => hgap (joint.mantissa b rfl hb)

end Atom

/-! Scans that act at atoms. -/

namespace Code

/-- At each atom the scan does to the gap in front what `left` says, and to the gap behind what
is left to do for the change of it: it writes some of it and may keep the rest for the next
atom. -/
structure Scans (scan : List Atom → Text → Text → Text) (left : List Atom → Text → Option Atom → Text)
    (φ : GapChange) (R : List Atom → Text → Prop) : Prop where
  stop : ∀ {before passed gap}, R before passed → (∀ d ∈ gap, isSpaceOrTab d = true) →
    scan before passed gap = left before gap none
  step : ∀ {before passed gap} {x : Cell} {c : Code} (n : Nat), R before passed →
    (∀ d ∈ gap, isSpaceOrTab d = true) → x.atom.Meets (gap.reverse ++ passed) → Lexed (x :: c) →
    ∃ pad kept passed', R (x.atom :: before) passed' ∧ (∀ d ∈ kept, isSpaceOrTab d = true) ∧
      kept.reverse ++ passed' =
        x.gap.reverse ++ ((numbered n x.atom.pieces).reverse ++ (gap.reverse ++ passed)) ∧
      φ x.atom before x.gap (first? c) = pad ++ left (x.atom :: before) kept (first? c) ∧
      scan before passed (gap ++ masked n (x :: c)) =
        left before gap (some x.atom) ++ (numbered n x.atom.pieces ++
          (pad ++ scan (x.atom :: before) passed'
            (kept ++ masked (n + (literals x.atom.pieces).length) c)))

theorem Scans.run {scan : List Atom → Text → Text → Text}
    {left : List Atom → Text → Option Atom → Text} {φ : GapChange} {R : List Atom → Text → Prop}
    (h : Scans scan left φ R) {c : Code} (lexed : Lexed c) (n : Nat) {before : List Atom}
    {passed gap : Text} (hR : R before passed) (blank : ∀ d ∈ gap, isSpaceOrTab d = true)
    (meets : ∀ b, first? c = some b → b.Meets (gap.reverse ++ passed)) :
    scan before passed (gap ++ masked n c) =
      left before gap (first? c) ++ masked n (mapGaps φ before c) := by
  induction c generalizing n before passed gap with
  | nil =>
      have stop := h.stop hR blank
      rwa [masked, pieces, numbered, List.append_nil, mapGaps, masked, pieces, numbered,
        List.append_nil]
  | cons x c ih =>
      have here := meets x.atom rfl
      obtain ⟨pad, kept, passed', hR', blank', hpassed, hφ, hscan⟩ := h.step n hR blank here lexed
      have rest := ih lexed.2.2 (n + (literals x.atom.pieces).length) hR' blank' fun b hb => by
        rw [hpassed]
        exact (hb ▸ lexed.2.1 : x.atom.Joint x.gap (some b)).meets n lexed.1 here
      rw [hscan, rest, mapGaps, masked_cons, hφ]
      simp only [List.append_assoc]
      rfl

end Code
end MotionExpr
