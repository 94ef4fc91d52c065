import MotionExpr.Proofs.Format.GapPasses

/-!
Control headers among atoms. A header begins with a keyword and an opening parenthesis, and
blanks do not count where it closes, so whether code is one, or an `else`, is told by its atoms.
-/

namespace MotionExpr

open Text Literal

namespace Text

theorem trimEnd_eq_nil_iff {t : Text} : trimEnd t = [] ↔ t.filter isInk = [] := by
  constructor
  · intro h
    rw [← filter_dropEndWhile isInk_of_isBlank, show dropEndWhile isBlank t = [] from h]
    rfl
  · intro h
    apply dropEndWhile_eq_nil
    intro c hc
    simpa [isInk] using List.filter_eq_nil_iff.mp h c hc

end Text

namespace Header

/-- What stands behind a parenthesis that opens the text. -/
def paren? : Text → Option Text
  | '(' :: r => some r
  | _ => none

/-- The code is a header of the keyword. -/
def heads (k : ControlKeyword) (code : Text) : Bool := (opened? k code).any (closesAtEnd 0)

/-- Code without a brace and an `else` in front. -/
def start (code : Text) : Text := skipElse (skipBrace code)

theorem isControl_eq (keywords : List ControlKeyword) (code : Text) :
    isControl keywords code = keywords.any fun k => heads k (start (mask (trim code)).1) := by
  rw [isControl]
  congr 1
  funext k
  rw [heads, start]
  cases opened? k (skipElse (skipBrace (mask (trim code)).1)) <;> rfl

theorem keyword_words (k : ControlKeyword) : k.text ≠ [] ∧ ∀ c ∈ k.text, isWordPart c = true := by
  have checked : k.text.isEmpty = false ∧ k.text.all isWordPart = true := by cases k <;> decide
  exact ⟨by simpa using checked.1, List.all_eq_true.mp checked.2⟩

theorem keyword_ne_else (k : ControlKeyword) : k.text ≠ "else".toList := by cases k <;> decide

theorem closesAtEnd_of_blank {c : Char} (h : isBlank c = true) (depth : Nat) (r : Text) :
    closesAtEnd depth (c :: r) = closesAtEnd depth r := by
  have ne (d : Char) (hd : isBlank d = false) : c ≠ d := by
    rintro rfl
    rw [hd] at h
    cases h
  cases depth <;> simp only [closesAtEnd, if_neg (ne '(' rfl), if_neg (ne ')' rfl)]

/-- Blanks do not count. -/
theorem closesAtEnd_trimEnd (depth : Nat) (t : Text) :
    closesAtEnd depth (trimEnd t) = closesAtEnd depth (t.filter isInk) := by
  induction t generalizing depth with
  | nil => rfl
  | cons c r ih =>
      cases hc : isBlank c with
      | true =>
          have skipped : closesAtEnd depth (trimEnd (c :: r)) = closesAtEnd depth (trimEnd r) := by
            by_cases hr : trimEnd r = []
            · have all : trimEnd (c :: r) = [] := by
                rw [trimEnd, dropEndWhile, show dropEndWhile isBlank r = [] from hr]
                exact if_pos hc
              rw [all, hr]
            · have kept : trimEnd (c :: r) = c :: trimEnd r := by
                rw [trimEnd, dropEndWhile]
                split
                · next hnil => exact absurd hnil hr
                · rfl
              rw [kept, closesAtEnd_of_blank hc]
          rw [skipped, ih, List.filter_cons_of_neg (by simp [isInk, hc])]
      | false =>
          have kept : trimEnd (c :: r) = c :: trimEnd r :=
            trimEnd_append_ink (w := [c]) (List.forall_mem_singleton.mpr hc) r
          have empty : (trimEnd r).isEmpty = (r.filter isInk).isEmpty := by
            rw [Bool.eq_iff_iff, List.isEmpty_iff, List.isEmpty_iff, trimEnd_eq_nil_iff]
          rw [kept, List.filter_cons_of_pos (by simp [isInk, hc])]
          cases depth with
          | zero => simp only [closesAtEnd, ih, empty]
          | succ depth => simp only [closesAtEnd, ih]

section Word

variable {k : ControlKeyword} {t p : Text} (ht : ∀ c ∈ t, isWordPart c = true)
  (free : ∀ c, p.head? = some c → isWordPart c = false)

include ht free

/-- A word in front is the keyword or settles that this is no header. -/
theorem opened?_word : opened? k (t ++ p) = if t = k.text then paren? (trimStart p) else none := by
  obtain ⟨-, words⟩ := keyword_words k
  rw [opened?, isPrefixOf_word words free]
  by_cases hfront : k.text.isPrefixOf t = true
  · obtain ⟨s, rfl⟩ := List.isPrefixOf_iff_prefix.mp hfront
    rw [if_pos hfront, List.append_assoc, List.drop_left]
    cases s with
    | nil =>
        rw [if_pos (List.append_nil _), List.nil_append]
        rfl
    | cons c s =>
        have part := ht c (List.mem_append_right _ (List.mem_cons_self ..))
        rw [if_neg (by simp), List.cons_append, trimStart,
          List.dropWhile_cons_of_neg (by simp [isBlank_of_isWordPart part])]
        split
        · next heq =>
            rw [(List.cons_eq_cons.mp heq).1] at part
            exact absurd part (by decide)
        · rfl
  · rw [if_neg hfront, if_neg]
    rintro rfl
    exact hfront (List.isPrefixOf_iff_prefix.mpr (List.prefix_refl _))

theorem heads_word :
    heads k (t ++ p) = (decide (t = k.text) && (paren? (trimStart p)).any (closesAtEnd 0)) := by
  rw [heads, opened?_word ht free]
  by_cases h : t = k.text
  · rw [if_pos h, decide_eq_true h, Bool.true_and]
  · rw [if_neg h, decide_eq_false h, Bool.false_and]
    rfl

/-- A word in front is an `else`, or nothing is passed. -/
theorem skipElse_word (hne : t ≠ "else".toList) : skipElse (t ++ p) = t ++ p := by
  have words : ∀ c ∈ "else".toList, isWordPart c = true :=
    List.all_eq_true.mp (by decide : "else".toList.all isWordPart = true)
  rw [skipElse, isPrefixOf_word words free]
  split
  · next hfront =>
      obtain ⟨s, rfl⟩ := List.isPrefixOf_iff_prefix.mp hfront
      have behind : ("else".toList ++ s ++ p).drop 4 = s ++ p := by
        rw [List.append_assoc]
        rfl
      rw [behind]
      cases s with
      | nil => exact absurd (List.append_nil _) hne
      | cons c s =>
          have part := ht c (List.mem_append_right _ (List.mem_cons_self ..))
          rw [List.cons_append]
          dsimp only
          rw [if_neg (by simp [isBlank_of_isWordPart part])]
  · rfl

end Word

section Plain

variable {t : Text} (free : ∀ c, t.head? = some c → isWordPart c = false)

include free

theorem heads_plain (k : ControlKeyword) : heads k t = false := by
  have none := opened?_word (k := k) (t := []) (List.forall_mem_nil _) free
  rw [if_neg (keyword_words k).1.symm] at none
  rw [heads, show opened? k t = Option.none from none]
  rfl

theorem skipElse_plain : skipElse t = t :=
  skipElse_word (t := []) (List.forall_mem_nil _) free (by decide)

/-- Behind an `else` stands what stands behind the blanks there: where no blank follows, no
keyword does. -/
theorem heads_skipElse_else (k : ControlKeyword) :
    heads k (skipElse ("else".toList ++ t)) = heads k (trimStart t) := by
  have words : ∀ c ∈ "else".toList, isWordPart c = true :=
    List.all_eq_true.mp (by decide : "else".toList.all isWordPart = true)
  have none (p : Text) (hp : ∀ c, p.head? = some c → isWordPart c = false) :
      heads k ("else".toList ++ p) = false := by
    rw [heads_word words hp, decide_eq_false (keyword_ne_else k).symm, Bool.false_and]
  cases t with
  | nil => exact (none [] free).trans (heads_plain free k).symm
  | cons c r =>
      have skipped : skipElse ("else".toList ++ c :: r) =
          if isBlank c then trimStart r else "else".toList ++ c :: r := rfl
      rw [skipped]
      cases hc : isBlank c with
      | true => rw [if_pos rfl, trimStart, trimStart, List.dropWhile_cons_of_pos hc]
      | false =>
          rw [if_neg (by decide), none (c :: r) free, trimStart,
            List.dropWhile_cons_of_neg (by simp [hc])]
          exact (heads_plain free k).symm

end Plain

theorem skipBrace_eq_self {t : Text} (h : t.head? ≠ some '\x7d') : skipBrace t = t := by
  unfold skipBrace
  split
  · exact absurd rfl h
  · rfl

end Header

namespace Atom

/-- The atom is this word. -/
def spells (w : Text) : Atom → Bool
  | word t => t == w
  | _ => false

end Atom

namespace Code

/-- The code behind the blanks in front. -/
def dropBlanks : Code → Code
  | [] => []
  | x :: c => if x.atom.isBlank then dropBlanks c else x :: c

def skipBrace : Code → Code
  | [] => []
  | x :: c => if x.atom.isSymbol '\x7d' then dropBlanks c else x :: c

def skipElse : Code → Code
  | [] => []
  | x :: c => if x.atom.spells "else".toList then dropBlanks c else x :: c

/-- The code opens a parenthesis that closes at its end. -/
def closes (n : Nat) : Code → Bool
  | [] => false
  | x :: c => x.atom.isSymbol '(' && Header.closesAtEnd 0 ((masked n c).filter isInk)

/-- The code is a header of the keyword. -/
def heads (k : ControlKeyword) (n : Nat) : Code → Bool
  | [] => false
  | x :: c => x.atom.spells k.text && closes n (dropBlanks c)

/-- The code is one word. -/
def isOnly (w : Text) (n : Nat) : Code → Bool
  | [] => false
  | x :: c => x.atom.spells w && ((masked n c).filter isInk).isEmpty

theorem lexed_dropBlanks {c : Code} (h : Lexed c) : Lexed (dropBlanks c) := by
  induction c with
  | nil => trivial
  | cons x c ih =>
      rw [dropBlanks]
      split
      · exact ih h.2.2
      · exact h

theorem lexed_skipBrace {c : Code} (h : Lexed c) : Lexed (skipBrace c) := by
  cases c with
  | nil => trivial
  | cons x c =>
      rw [skipBrace]
      split
      · exact lexed_dropBlanks h.2.2
      · exact h

theorem lexed_skipElse {c : Code} (h : Lexed c) : Lexed (skipElse c) := by
  cases c with
  | nil => trivial
  | cons x c =>
      rw [skipElse]
      split
      · exact lexed_dropBlanks h.2.2
      · exact h

/-! Other gaps. -/

section Gaps

variable {φ : GapChange}

theorem dropBlanks_mapGaps (before : List Atom) (c : Code) :
    ∃ before', dropBlanks (mapGaps φ before c) = mapGaps φ before' (dropBlanks c) := by
  induction c generalizing before with
  | nil => exact ⟨before, rfl⟩
  | cons x c ih =>
      rw [mapGaps, dropBlanks, dropBlanks]
      split
      · exact ih _
      · exact ⟨before, rfl⟩

theorem skipBrace_mapGaps (before : List Atom) (c : Code) :
    ∃ before', skipBrace (mapGaps φ before c) = mapGaps φ before' (skipBrace c) := by
  cases c with
  | nil => exact ⟨before, rfl⟩
  | cons x c =>
      rw [mapGaps, skipBrace, skipBrace]
      split
      · exact dropBlanks_mapGaps _ c
      · exact ⟨before, rfl⟩

theorem skipElse_mapGaps (before : List Atom) (c : Code) :
    ∃ before', skipElse (mapGaps φ before c) = mapGaps φ before' (skipElse c) := by
  cases c with
  | nil => exact ⟨before, rfl⟩
  | cons x c =>
      rw [mapGaps, skipElse, skipElse]
      split
      · exact dropBlanks_mapGaps _ c
      · exact ⟨before, rfl⟩

theorem filter_gap {a : Atom} {gap : Text} {next : Option Atom} (joint : a.Joint gap next) :
    gap.filter isInk = [] :=
  filter_eq_nil_of_all isInk_of_isSpaceOrTab joint.blank

theorem filter_masked_mapGaps (apart : KeepsApart φ) {c : Code} (h : Lexed c) (n : Nat)
    (before : List Atom) :
    (masked n (mapGaps φ before c)).filter isInk = (masked n c).filter isInk := by
  induction c generalizing n before with
  | nil => rfl
  | cons x c ih =>
      obtain ⟨fits, joint, rest⟩ := h
      have changed := apart _ before _ _ fits (fits_first? rest) joint
      rw [mapGaps, masked_cons, masked_cons]
      simp only [List.filter_append, filter_gap joint, filter_gap changed, ih rest]

theorem closes_mapGaps (apart : KeepsApart φ) {c : Code} (h : Lexed c) (n : Nat)
    (before : List Atom) : closes n (mapGaps φ before c) = closes n c := by
  cases c with
  | nil => rfl
  | cons x c => rw [mapGaps, closes, closes, filter_masked_mapGaps apart h.2.2]

theorem heads_mapGaps (apart : KeepsApart φ) {c : Code} (h : Lexed c) (k : ControlKeyword) (n : Nat)
    (before : List Atom) : heads k n (mapGaps φ before c) = heads k n c := by
  cases c with
  | nil => rfl
  | cons x c =>
      obtain ⟨before', same⟩ := dropBlanks_mapGaps (φ := φ) (x.atom :: before) c
      rw [mapGaps, heads, heads, same, closes_mapGaps apart (lexed_dropBlanks h.2.2)]

theorem isOnly_mapGaps (apart : KeepsApart φ) {c : Code} (h : Lexed c) (w : Text) (n : Nat)
    (before : List Atom) : isOnly w n (mapGaps φ before c) = isOnly w n c := by
  cases c with
  | nil => rfl
  | cons x c => rw [mapGaps, isOnly, isOnly, filter_masked_mapGaps apart h.2.2]

end Gaps

/-! Masked code. -/

theorem trimStart_masked {c : Code} (h : Lexed c) (n : Nat) :
    trimStart (masked n c) = masked n (dropBlanks c) := by
  induction c with
  | nil => rfl
  | cons x c ih =>
      obtain ⟨fits, joint, rest⟩ := h
      rw [dropBlanks]
      split
      · next hblank =>
          cases hx : x.atom with
          | symbol d =>
              rw [hx] at hblank
              have whole : masked n (x :: c) = d :: (x.gap ++ masked n c) := by
                rw [masked_cons, hx]
                rfl
              have blank : Text.isBlank d = true := hblank
              rw [whole, trimStart, List.dropWhile_cons_of_pos blank,
                List.dropWhile_append_of_pos fun d hd => isBlank_of_isSpaceOrTab (joint.blank d hd)]
              exact ih rest
          | _ =>
              rw [hx] at hblank
              cases hblank
      · next hblank =>
          obtain ⟨d, s, hd⟩ := exists_masked_cons ⟨fits, joint, rest⟩ n
          have head := head?_masked n (c := x :: c) ⟨fits, joint, rest⟩
          rw [hd] at head
          have notBlank := Atom.isBlank_of_head fits head.symm
          rw [eq_false_of_ne_true hblank] at notBlank
          rw [hd, trimStart, List.dropWhile_cons_of_neg (by simp [notBlank])]

section Behind

variable {x : Cell} {c : Code} (h : Lexed (x :: c)) (n : Nat)

include h

theorem trimStart_behind : trimStart (trimEnd (x.gap ++ masked n c)) = trimEnd (masked n (dropBlanks c)) := by
  obtain ⟨-, joint, rest⟩ := h
  rw [trimStart_trimEnd, trim, trimBoth,
    List.dropWhile_append_of_pos fun d hd => isBlank_of_isSpaceOrTab (joint.blank d hd),
    ← trimStart_masked rest]
  rfl

/-- Behind a word stands no part of one. -/
theorem free_behind (hword : x.atom.isWord = true) :
    ∀ d, (trimEnd (x.gap ++ masked n c)).head? = some d → isWordPart d = false := by
  intro d hd
  rw [← Bool.not_eq_true]
  intro hpart
  rcases Operator.head_of_joint h (head?_of_trimEnd hd) with hblank | ⟨hgap, b, hb, hhead⟩
  · rw [isWordPart_of_isBlank (isBlank_of_isSpaceOrTab hblank)] at hpart
    cases hpart
  · have word := Atom.isWord_of_head (fits_first? h.2.2 b hb) hhead hpart
    have apart := h.2.1.apart b hb (.inl hgap)
    cases hx : x.atom with
    | word t =>
        rw [hx] at apart
        rw [apart.1] at word
        cases word
    | _ =>
        rw [hx] at hword
        cases hword

theorem trimEnd_masked_word {t : Text} (hx : x.atom = .word t) :
    trimEnd (masked n (x :: c)) = t ++ trimEnd (x.gap ++ masked n c) := by
  have fits := h.1
  rw [hx] at fits
  rw [masked_cons, hx, Atom.pieces, numbered_map_code, literals_map_code]
  apply trimEnd_append_ink
  intro d hd
  exact isBlank_of_isWordPart (fits.2 d hd)

/-- Code in front of which no word stands begins with no part of one. -/
theorem free_front (hword : x.atom.isWord = false) :
    ∀ d, (trimEnd (masked n (x :: c))).head? = some d → isWordPart d = false := by
  intro d hd
  have head := head?_of_trimEnd hd
  rw [head?_masked n h] at head
  rw [← Bool.not_eq_true]
  intro hpart
  rw [Atom.isWord_of_head h.1 head hpart] at hword
  cases hword

omit h in
theorem trimEnd_masked_symbol {d : Char} (hx : x.atom = .symbol d) (hd : isBlank d = false) :
    trimEnd (masked n (x :: c)) = d :: trimEnd (x.gap ++ masked n c) := by
  rw [masked_cons, hx]
  exact trimEnd_append_ink (w := [d]) (List.forall_mem_singleton.mpr hd) _

end Behind

theorem isWord_of_spells {w : Text} {a : Atom} (h : a.spells w = true) : a = .word w := by
  cases a with
  | word t => exact congrArg Atom.word (beq_iff_eq.mp h)
  | _ => cases h

theorem spells_eq_false {w : Text} {a : Atom} (h : a.isWord = false) : a.spells w = false := by
  cases a with
  | word t => cases h
  | _ => rfl

variable {c : Code} (h : Lexed c) (n : Nat)

include h

theorem skipBrace_masked :
    Header.skipBrace (trimEnd (masked n c)) = trimEnd (masked n (skipBrace c)) := by
  cases c with
  | nil => rfl
  | cons x c =>
      rw [skipBrace]
      split
      · next hbrace =>
          rw [trimEnd_masked_symbol n (Atom.isSymbol_iff.mp hbrace) rfl, ← trimStart_behind h]
          rfl
      · next hbrace =>
          apply Header.skipBrace_eq_self
          intro hhead
          have head := head?_of_trimEnd hhead
          rw [head?_masked n h] at head
          exact hbrace (Atom.isSymbol_iff.mpr (Atom.eq_symbol_of_head h.1 head (by decide) (by decide)))

theorem paren?_masked :
    (Header.paren? (trimEnd (masked n c))).any (Header.closesAtEnd 0) = closes n c := by
  cases c with
  | nil => rfl
  | cons x c =>
      rw [closes]
      cases hparen : x.atom.isSymbol '(' with
      | true =>
          rw [trimEnd_masked_symbol n (Atom.isSymbol_iff.mp hparen) rfl, Header.paren?, Option.any_some,
            Header.closesAtEnd_trimEnd, List.filter_append, filter_gap h.2.1]
          rfl
      | false =>
          unfold Header.paren?
          split
          · next r hr =>
              have head := head?_of_trimEnd (t := masked n (x :: c)) (c := '(') (by rw [hr]; rfl)
              rw [head?_masked n h] at head
              rw [Atom.isSymbol_iff.mpr (Atom.eq_symbol_of_head h.1 head (by decide) (by decide))] at hparen
              cases hparen
          · rfl

theorem heads_masked (k : ControlKeyword) :
    Header.heads k (trimEnd (masked n c)) = heads k n c := by
  cases c with
  | nil => exact Header.heads_plain (fun d hd => by cases hd) k
  | cons x c =>
      rw [heads]
      cases hword : x.atom.isWord with
      | false => rw [Header.heads_plain (free_front h n hword), spells_eq_false hword, Bool.false_and]
      | true =>
          cases hx : x.atom with
          | word t =>
              have fits := h.1
              rw [hx] at fits
              rw [trimEnd_masked_word h n hx, Header.heads_word fits.2 (free_behind h n hword),
                trimStart_behind h, paren?_masked (lexed_dropBlanks h.2.2), Atom.spells,
                Bool.beq_eq_decide_eq]
          | _ =>
              rw [hx] at hword
              cases hword

omit h in
theorem skipElse_masked_of_other {x : Cell} (h : Lexed (x :: c))
    (other : x.atom.spells "else".toList ≠ true) :
    Header.skipElse (trimEnd (masked n (x :: c))) = trimEnd (masked n (x :: c)) := by
  cases hword : x.atom.isWord with
  | false => exact Header.skipElse_plain (free_front h n hword)
  | true =>
      cases hx : x.atom with
      | word t =>
          have fits := h.1
          rw [hx] at fits other
          rw [trimEnd_masked_word h n hx]
          exact Header.skipElse_word fits.2 (free_behind h n hword) fun ht =>
            other (beq_iff_eq.mpr ht)
      | _ =>
          rw [hx] at hword
          cases hword

theorem heads_skipElse_masked (k : ControlKeyword) :
    Header.heads k (Header.skipElse (trimEnd (masked n c))) = heads k n (skipElse c) := by
  cases c with
  | nil => exact Header.heads_plain (fun d hd => by cases hd) k
  | cons x c =>
      rw [skipElse]
      split
      · next helse =>
          have hx := isWord_of_spells helse
          rw [trimEnd_masked_word h n hx,
            Header.heads_skipElse_else (free_behind h n (by rw [hx]; rfl)), trimStart_behind h,
            heads_masked (lexed_dropBlanks h.2.2)]
      · next other => rw [skipElse_masked_of_other n h other, heads_masked h]

theorem start_masked (k : ControlKeyword) :
    Header.heads k (Header.start (trimEnd (masked n c))) = heads k n (skipElse (skipBrace c)) := by
  rw [Header.start, skipBrace_masked h, heads_skipElse_masked (lexed_skipBrace h)]

theorem isOnly_masked {w : Text} (hw : ∀ d ∈ w, isWordPart d = true) (hne : w ≠ []) :
    (trimEnd (masked n c) == w) = isOnly w n c := by
  rw [Bool.eq_iff_iff, beq_iff_eq]
  cases c with
  | nil => exact iff_of_false hne.symm Bool.false_ne_true
  | cons x c =>
      rw [isOnly, Bool.and_eq_true, List.isEmpty_iff]
      cases hword : x.atom.isWord with
      | false =>
          rw [spells_eq_false hword]
          refine iff_of_false (fun heq => ?_) fun hand => by cases hand.1
          obtain ⟨d, r, rfl⟩ := List.exists_cons_of_ne_nil hne
          have part := free_front h n hword d (by rw [heq]; rfl)
          rw [hw d (List.mem_cons_self ..)] at part
          cases part
      | true =>
          cases hx : x.atom with
          | word t =>
              have behind : (masked n c).filter isInk = [] ↔ trimEnd (x.gap ++ masked n c) = [] := by
                rw [trimEnd_eq_nil_iff, List.filter_append, filter_gap h.2.1, List.nil_append]
              rw [trimEnd_masked_word h n hx, Atom.spells, beq_iff_eq, behind]
              constructor
              · rintro rfl
                have empty : trimEnd (x.gap ++ masked n c) = [] := by
                  cases hp : trimEnd (x.gap ++ masked n c) with
                  | nil => rfl
                  | cons d r =>
                      have part := free_behind h n hword d (by rw [hp]; rfl)
                      rw [hp] at hw
                      rw [hw d (List.mem_append_right _ (List.mem_cons_self ..))] at part
                      cases part
                rw [empty, List.append_nil]
                exact ⟨rfl, rfl⟩
              · rintro ⟨rfl, hp⟩
                rw [hp, List.append_nil]
          | _ =>
              rw [hx] at hword
              cases hword

theorem isElse_masked :
    Indentation.isElse (trimEnd (masked n c)) = isOnly "else".toList n (skipBrace c) := by
  have words : ∀ d ∈ "else".toList, isWordPart d = true :=
    List.all_eq_true.mp (by decide : "else".toList.all isWordPart = true)
  rw [Indentation.isElse, skipBrace_masked h]
  exact isOnly_masked (lexed_skipBrace h) n words (by decide)

end Code
end MotionExpr
