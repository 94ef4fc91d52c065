import MotionExpr.Proofs.Format.GapRules

/-!
What the spaces inside brackets and the ones between a callee and its parenthesis do to gaps.
-/

namespace MotionExpr

open Text Literal

namespace Atom

/-- Whether the atom is a closing bracket. -/
def closes : Atom → Bool
  | symbol c => Bracket.isClosing c
  | _ => false

end Atom

namespace Bracket

/-- Of each bracket that is open behind these atoms, innermost first, whether it takes spaces. -/
def stack : List Atom → List Bool
  | [] => []
  | .symbol c :: before =>
      if isOpening c then (c == '\x7b' || !Atom.endInOperand before) :: stack before
      else if isClosing c then (stack before).tail
      else stack before
  | _ :: before => stack before

def back (a : Atom) (before : List Atom) (gap : Text) (next : Option Atom) : Text :=
  if a.opens && (stack (a :: before)).headD false && gap.isEmpty &&
      next.any (fun b => !b.isBlank && !b.closes) then [' ']
  else []

def left : (before : List Atom) → (gap : Text) → (next : Option Atom) → Text
  | a :: before, gap, some (.symbol c) =>
      if isClosing c && (stack (a :: before)).headD (c == '\x7d') && gap.isEmpty &&
          (!a.isBlank && !a.opens) then [' ']
      else gap
  | _, gap, _ => gap

def spaceGap : GapChange := fun a before gap next =>
  back a before gap next ++ left (a :: before) gap next

theorem plain_of_isSpaceOrTab {c : Char} (h : isSpaceOrTab c = true) :
    isOpening c = false ∧ isClosing c = false := by
  simp only [isSpaceOrTab, Bool.or_eq_true, beq_iff_eq] at h
  rcases h with rfl | rfl <;> exact ⟨rfl, rfl⟩

theorem plain_of_part {c : Char} (h : isWordPart c = true ∨ isOperatorChar c = true ∨ c = '!') :
    isOpening c = false ∧ isClosing c = false := by
  have ne (d : Char) (hd : isWordPart d = false ∧ isOperatorChar d = false ∧ d ≠ '!') :
      (c == d) = false := by
    rw [beq_eq_false_iff_ne]
    rintro rfl
    rw [hd.1, hd.2.1] at h
    rcases h with h | h | h
    · cases h
    · cases h
    · exact hd.2.2 h
  rw [isOpening, isClosing, ne '\x7b' (by decide), ne '[' (by decide), ne '\x7d' (by decide),
    ne ']' (by decide)]
  exact ⟨rfl, rfl⟩

theorem plain_atom {a : Atom} (h : a.Fits) (hopens : a.opens = false) (hcloses : a.closes = false)
    (n : Nat) : ∀ c ∈ numbered n a.pieces, isOpening c = false ∧ isClosing c = false := by
  intro c hc
  cases a with
  | literal t =>
      rw [Atom.pieces, numbered, numbered, List.append_nil] at hc
      exact plain_of_mem_placeholder hc
  | symbol d =>
      obtain rfl := List.mem_singleton.mp hc
      exact ⟨hopens, hcloses⟩
  | operator t | word t =>
      rw [Atom.pieces, numbered_map_code] at hc
      have code := Atom.of_mem_text h (fun _ ha => by cases ha) hc
      exact plain_of_part (code.resolve_left fun ha => by cases ha)
  | exponent sign =>
      obtain rfl := List.mem_singleton.mp hc
      rcases Atom.head_of_isSign h with rfl | rfl <;> exact ⟨rfl, rfl⟩

theorem isClosing_of_isOpening {c : Char} (h : isOpening c = true) : isClosing c = false := by
  simp only [isOpening, Bool.or_eq_true, beq_iff_eq] at h
  rcases h with rfl | rfl <;> rfl

section Steps

variable {before : List Atom} {passed gap : Text} (touches : Atom.Touches before passed)
  (blank : ∀ d ∈ gap, isSpaceOrTab d = true)

include touches blank

theorem needsSpaceBehind_gap :
    needsSpaceBehind (gap.reverse ++ passed) =
      (gap.isEmpty && (before.head?.any fun a => !a.isBlank && !a.opens)) := by
  cases hr : gap.reverse with
  | nil =>
      obtain rfl := List.reverse_eq_nil_iff.mp hr
      cases before with
      | nil =>
          rw [touches.start rfl]
          rfl
      | cons a before =>
          obtain ⟨c, r, rfl, hblank, hopening⟩ := touches.last a before rfl
          rw [List.nil_append, needsSpaceBehind, hblank, hopening]
          rfl
  | cons c r =>
      have nonempty : gap.isEmpty = false := by
        cases gap with
        | nil => cases hr
        | cons d g => rfl
      have hc := blank c (List.mem_reverse.mp (hr ▸ List.mem_cons_self ..))
      rw [List.cons_append, needsSpaceBehind, isBlank_of_isSpaceOrTab hc, nonempty]
      rfl

end Steps

theorem closes_of_head {a : Atom} (h : a.Fits) {d : Char} (hd : a.head = some d) :
    isClosing d = a.closes := by
  have inside := List.mem_of_mem_head? hd
  cases a with
  | symbol c =>
      rw [List.mem_singleton.mp inside]
      rfl
  | _ => exact (plain_atom h rfl rfl 0 d inside).2

theorem needsSpaceBefore_gap {x : Cell} {c : Code} (h : Code.Lexed (x :: c)) (n : Nat) :
    needsSpaceBefore (x.gap ++ Code.masked n c) =
      (x.gap.isEmpty && ((Code.first? c).any fun b => !b.isBlank && !b.closes)) := by
  cases hgap : x.gap with
  | cons d g =>
      have hd := h.2.1.blank d (hgap ▸ List.mem_cons_self ..)
      rw [List.cons_append, needsSpaceBefore, isBlank_of_isSpaceOrTab hd]
      rfl
  | nil =>
      rw [List.nil_append]
      cases c with
      | nil => rfl
      | cons y c =>
          obtain ⟨d, s, hd⟩ := Code.exists_masked_cons h.2.2 n
          have head := Code.head?_masked n h.2.2
          rw [hd] at head
          have hhead : y.atom.head = some d := head.symm
          rw [hd, needsSpaceBefore, Atom.isBlank_of_head h.2.2.1 hhead]
          rw [closes_of_head h.2.2.1 hhead]
          rfl

theorem left_of_not_closes {before : List Atom} {gap : Text} {next : Option Atom}
    (h : ∀ b, next = some b → b.closes = false) : left before gap next = gap := by
  unfold left
  split
  · next c =>
      have notClosing : isClosing c = false := h _ rfl
      rw [notClosing, Bool.false_and, Bool.false_and, Bool.false_and]
      rfl
  · rfl

theorem back_of_not_opens {a : Atom} (h : a.opens = false) (before : List Atom) (gap : Text)
    (next : Option Atom) : back a before gap next = [] := by
  rw [back, h]
  rfl

/-- Only brackets change what is open. -/
theorem stack_cons_of_plain {a : Atom} (hopens : a.opens = false) (hcloses : a.closes = false)
    (before : List Atom) : stack (a :: before) = stack before := by
  cases a with
  | symbol c =>
      have opening : isOpening c = false := hopens
      have closing : isClosing c = false := hcloses
      rw [stack, opening, closing]
      rfl
  | _ => rfl

section Steps

open Code

variable {x : Cell} {c : Code} (lexed : Lexed (x :: c)) (n : Nat) {before : List Atom}
  {passed gap : Text} (touches : Atom.Touches before passed) (blank : ∀ d ∈ gap, isSpaceOrTab d = true)

include lexed blank

theorem spaceFrom_plain (hopens : x.atom.opens = false) (hcloses : x.atom.closes = false) :
    spaceFrom passed (stack before) (gap ++ masked n (x :: c)) =
      gap ++ (numbered n x.atom.pieces ++
        spaceFrom ((numbered n x.atom.pieces).reverse ++ (gap.reverse ++ passed))
          (stack (x.atom :: before)) (x.gap ++ masked (n + (literals x.atom.pieces).length) c)) := by
  rw [spaceFrom_of_plain fun d hd => plain_of_isSpaceOrTab (blank d hd), masked_cons,
    spaceFrom_of_plain (plain_atom lexed.1 hopens hcloses n), stack_cons_of_plain hopens hcloses]

include touches

theorem spaceFrom_opening {d : Char} (hx : x.atom = .symbol d) (hd : isOpening d = true) :
    spaceFrom passed (stack before) (gap ++ masked n (x :: c)) =
      gap ++ (numbered n x.atom.pieces ++ (back x.atom before x.gap (first? c) ++
        spaceFrom ((numbered n x.atom.pieces).reverse ++ (gap.reverse ++ passed))
          (stack (x.atom :: before)) (x.gap ++ masked (n + (literals x.atom.pieces).length) c))) := by
  have one : numbered n x.atom.pieces = [d] := by rw [hx]; rfl
  have opens : x.atom.opens = true := by rw [hx]; exact hd
  have pushed : stack (x.atom :: before) =
      (d == '\x7b' || !Atom.endInOperand before) :: stack before := by
    rw [hx, stack, hd, if_pos rfl]
  rw [spaceFrom_of_plain fun e he => plain_of_isSpaceOrTab (blank e he), masked_cons, one,
    List.singleton_append, spaceFrom, if_pos hd, (touches.behind.gap blank).isBehind,
    needsSpaceBefore_gap lexed, back, opens, pushed]
  simp only [List.headD_cons, Bool.true_and, Bool.and_assoc]
  rfl

omit lexed in
theorem spaceFrom_closing {d : Char} (hx : x.atom = .symbol d) (hd : isClosing d = true) :
    spaceFrom passed (stack before) (gap ++ masked n (x :: c)) =
      left before gap (some x.atom) ++ (numbered n x.atom.pieces ++
        spaceFrom ((numbered n x.atom.pieces).reverse ++ (gap.reverse ++ passed))
          (stack (x.atom :: before)) (x.gap ++ masked (n + (literals x.atom.pieces).length) c)) := by
  have one : numbered n x.atom.pieces = [d] := by rw [hx]; rfl
  have notOpening : isOpening d = false := by
    rw [← Bool.not_eq_true]
    intro hopening
    rw [isClosing_of_isOpening hopening] at hd
    cases hd
  have popped : stack (x.atom :: before) = (stack before).tail := by
    rw [hx, stack, notOpening, hd]
    rfl
  have padded : gap ++ (if (stack before).headD (d == '\x7d') &&
      needsSpaceBehind (gap.reverse ++ passed) then [' '] else []) = left before gap (some x.atom) := by
    rw [needsSpaceBehind_gap touches blank, hx]
    cases before with
    | nil => simp [left]
    | cons a before =>
        rw [left, hd, List.head?_cons, Option.any_some, Bool.true_and, Bool.and_assoc]
        split
        · next hcond =>
            simp only [Bool.and_eq_true, List.isEmpty_iff] at hcond
            rw [hcond.2.1]
            rfl
        · exact List.append_nil gap
  rw [← padded, spaceFrom_of_plain fun e he => plain_of_isSpaceOrTab (blank e he), masked_cons, one,
    List.singleton_append, spaceFrom, if_neg (by simp [notOpening]), if_pos hd, popped]
  simp only [List.append_assoc]
  rfl

end Steps

theorem scans_space :
    Code.Scans (fun before passed t => spaceFrom passed (stack before) t) left spaceGap
      Atom.Touches where
  stop {before passed gap} _ blank := by
    have only := spaceFrom_of_plain (fun d hd => plain_of_isSpaceOrTab (blank d hd)) passed
      (stack before) []
    rw [List.append_nil, spaceFrom, List.append_nil] at only
    rw [only, left_of_not_closes fun _ hb => by cases hb]
  step {before passed gap x c} n touches blank meets lexed := by
    have next := Atom.Touches.atom n lexed.1 meets (touches.behind.gap blank)
    refine ⟨back x.atom before x.gap (Code.first? c), x.gap, _, next, lexed.2.1.blank, rfl, rfl, ?_⟩
    by_cases hopens : x.atom.opens = true
    · cases hx : x.atom with
      | symbol d =>
          rw [hx] at hopens
          have kept : left before gap (some x.atom) = gap := by
            apply left_of_not_closes
            intro b hb
            rw [← Option.some.inj hb, hx]
            exact isClosing_of_isOpening hopens
          rw [← hx, kept]
          exact spaceFrom_opening lexed n touches blank hx hopens
      | _ => rw [hx] at hopens; cases hopens
    · have notOpens := eq_false_of_ne_true hopens
      rw [back_of_not_opens notOpens, List.nil_append]
      by_cases hcloses : x.atom.closes = true
      · cases hx : x.atom with
        | symbol d =>
            rw [hx] at hcloses
            rw [← hx]
            exact spaceFrom_closing n touches blank hx hcloses
        | _ => rw [hx] at hcloses; cases hcloses
      · have notCloses := eq_false_of_ne_true hcloses
        have kept : left before gap (some x.atom) = gap := by
          apply left_of_not_closes
          intro b hb
          rw [← Option.some.inj hb]
          exact notCloses
        rw [kept]
        exact spaceFrom_plain lexed n blank notOpens notCloses

theorem spaceGap_eq_self {a : Atom} {next : Option Atom} (hopens : a.opens = false)
    (hcloses : ∀ b, next = some b → b.closes = false) (before : List Atom) (gap : Text) :
    spaceGap a before gap next = gap := by
  rw [spaceGap, back_of_not_opens hopens, left_of_not_closes hcloses, List.nil_append]

/-- A gap that is there stays as it is, and a new one is one space. -/
theorem spaceGap_cases (a : Atom) (before : List Atom) (gap : Text) (next : Option Atom) :
    spaceGap a before gap next = gap ∨ gap = [] ∧ spaceGap a before gap next = [' '] := by
  have one (p : Bool) : (if p then [' '] else []) = ([] : Text) ∨ (if p then [' '] else []) = [' '] := by
    cases p
    · exact .inl rfl
    · exact .inr rfl
  by_cases hcloses : ∀ b, next = some b → b.closes = false
  · rw [spaceGap, left_of_not_closes hcloses]
    cases gap with
    | nil =>
        rw [List.append_nil]
        exact (one _).imp_right fun h => ⟨rfl, h⟩
    | cons d g => simp [back]
  · obtain ⟨b, hb⟩ := not_forall.mp hcloses
    obtain ⟨rfl, hne⟩ := Classical.not_imp.mp hb
    have closes : b.closes = true := eq_true_of_ne_false hne
    have noBack : back a before gap (some b) = [] := by simp [back, closes]
    rw [spaceGap, noBack, List.nil_append]
    cases b with
    | symbol c =>
        rw [left]
        split
        · next hcond =>
            simp only [Bool.and_eq_true, List.isEmpty_iff] at hcond
            exact .inr ⟨hcond.1.2, rfl⟩
        · exact .inl rfl
    | _ => cases closes

theorem keepsApart_space : Code.KeepsApart spaceGap := by
  intro a before gap next fits hnext joint
  have changed := spaceGap_cases a before gap next
  apply joint.change
  · rcases changed with h | ⟨-, h⟩ <;> rw [h]
    · exact joint.blank
    · exact List.forall_mem_singleton.mpr rfl
  · rintro (h | h | ⟨b, rfl, h⟩)
    · obtain ⟨b, rfl, hword⟩ := joint.word_behind_exponent h
      apply spaceGap_eq_self
      · cases a with
        | exponent sign => rfl
        | _ => cases h
      · rintro b' hb'
        obtain rfl := Option.some.inj hb'
        cases b with
        | word t => rfl
        | _ => cases hword
    · apply spaceGap_eq_self
      · cases a with
        | literal t => rfl
        | _ => cases h
      · rw [(joint.comment h).2]
        exact fun _ hb => by cases hb
    · have hword := joint.isWord_of_exponent h
      apply spaceGap_eq_self
      · cases a with
        | word t => rfl
        | _ => cases hword
      · rintro b' hb'
        obtain rfl := Option.some.inj hb'
        cases b with
        | exponent sign => rfl
        | _ => cases h
  · intro b _ closed _
    rcases changed with h | ⟨h, -⟩
    · exact .inl (h ▸ closed)
    · exact .inl h

theorem acts_space : Code.Acts space spaceGap :=
  scans_space.acts .nil fun hgap => hgap

end Bracket
end MotionExpr
