import MotionExpr.Proofs.Format.LineEnds
import MotionExpr.Proofs.Format.Operands

/-!
One space on each side of a binary operator. An operator is put between spaces by what stands in
front of it, the space of the next one may come behind it, and several spaces become one; so the
gaps around it are told by the text in front and by whether an operator follows. A sign behind
an operand that the test does not see is taken for a prefix and has no space of its own behind it.
-/

namespace MotionExpr

open Text Line

namespace Text

theorem all_isSpaceOrTab_of_filter {t : Text} (h : t.filter (!isSpaceOrTab ·) = []) :
    ∀ c ∈ t, isSpaceOrTab c = true :=
  fun c hc => by simpa using List.filter_eq_nil_iff.mp h c hc

theorem ne_space {c : Char} (h : isSpaceOrTab c = false) : (c == ' ') = false := by
  rw [isSpaceOrTab, Bool.or_eq_false_iff] at h
  exact h.1

section Stop

variable {p : Char → Bool} {c : Char} (hc : p c = false) (b r : Text)

include hc

theorem takeWhile_concat_append : (b ++ [c] ++ r).takeWhile p = (b ++ [c]).takeWhile p := by
  induction b with
  | nil => simp [hc]
  | cons d b ih => simp only [List.cons_append, List.takeWhile_cons, ih]

theorem dropWhile_concat_append :
    ∃ d w, (b ++ [c]).dropWhile p = d :: w ∧ (b ++ [c] ++ r).dropWhile p = d :: (w ++ r) := by
  induction b with
  | nil => exact ⟨c, [], by simp [hc], by simp [hc]⟩
  | cons d b ih =>
      cases hd : p d with
      | true => simpa [hd] using ih
      | false => exact ⟨d, b ++ [c], by simp [hd], by simp [hd]⟩

end Stop

theorem exists_concat_of_append {y u b : Text} {c : Char} (h : y ++ [c] = u ++ b)
    (some : b ≠ []) : ∃ b', b = b' ++ [c] := by
  obtain ⟨b', d, rfl⟩ := (List.eq_nil_or_concat b).resolve_left some
  rw [List.concat_eq_append, ← List.append_assoc] at h
  obtain ⟨-, same⟩ := List.append_inj' h rfl
  rw [List.concat_eq_append, ← same]
  exact ⟨b', rfl⟩

end Text

namespace Operator

/-! Where an operator is put. -/

/-- The text ends in no gap, or in one space behind what is no blank. -/
def Loose (t : Text) : Prop :=
  t = [] ∨ ∃ y c gap, t = y ++ c :: gap ∧ isSpaceOrTab c = false ∧
    (gap = [] ∨ gap = [' '] ∧ Text.isBlank c = false)

theorem Loose.append {t : Text} (h : Loose t) (some : t ≠ []) (front : Text) :
    Loose (front ++ t) := by
  obtain ⟨y, c, gap, rfl, hc, hgap⟩ := h.resolve_left some
  exact .inr ⟨front ++ y, c, gap, (List.append_assoc ..).symm, hc, hgap⟩

theorem loose_placed {op : Text} (hop : op ∈ all) (passed : Text) (bare : Bool) :
    Loose (placed passed op bare) := by
  obtain ⟨front, back, heq, -, hback, -⟩ := placed_eq_append passed op bare
  obtain ⟨c, r, hc, -, ink, -⟩ := last_of_mem_all hop
  have whole : placed passed op bare = (front ++ r.reverse) ++ c :: back := by
    rw [heq, List.reverse_eq_cons_iff.mp hc]
    simp
  rw [whole]
  exact .inr ⟨_, c, back, rfl, not_isSpaceOrTab ink, hback.imp_right fun h => ⟨h, ink⟩⟩

/-- An operator of a text, what the text in front of it becomes, and what the rule sees there. -/
structure Site (passed t result op rest : Text) where
  front : Text
  gap : Text
  prior : Text
  behind : Text
  bare : Bool
  out : Text
  member : op ∈ all
  whole : t = front ++ (op ++ rest)
  blankGap : ∀ c ∈ gap, isSpaceOrTab c = true
  seen : gap ++ prior = front.reverse ++ passed
  blankBehind : ∀ c ∈ behind, isSpaceOrTab c = true
  alone : bare = true → gap = [] ∧ rest.head?.any isSpaceOrTab = false
  kept : out.filter (!isSpaceOrTab ·) = front.filter (!isSpaceOrTab ·)
  loose : Loose out
  made : result = out ++ (placed prior op bare ++
    substituteFrom respace (behind ++ (op.reverse ++ (gap ++ prior))) 0
      (rest.dropWhile isSpaceOrTab))

theorem head_of_mem_all {op : Text} (hop : op ∈ all) {rest : Text} :
    ∀ c r, op ++ rest = c :: r → isSpaceOrTab c = false := by
  intro c r h
  obtain ⟨nonempty, symbols⟩ := symbols_of_mem_all hop
  obtain ⟨d, w, rfl⟩ := List.exists_cons_of_ne_nil nonempty
  obtain rfl := (List.cons_eq_cons.mp h).1
  exact not_isSpaceOrTab (symbols d (List.mem_cons_self ..)).2.2

/-- In front of an operator no gap is passed over. -/
theorem Site.loose_cons {passed r result op rest : Text} {c : Char}
    (hc : respace passed (c :: r) = none) (s : Site (c :: passed) r result op rest) :
    Loose (c :: s.out) := by
  by_cases empty : s.out = []
  · have blank : ∀ d ∈ s.front, isSpaceOrTab d = true :=
      all_isSpaceOrTab_of_filter (by rw [← s.kept, empty]; rfl)
    refine .inr ⟨[], c, [], by rw [empty]; rfl, eq_false_of_ne_true fun gap => ?_, .inl rfl⟩
    have none := respace_eq_none_iff.mp hc
    rw [s.whole, ← List.cons_append, dropWhile_append_stop (List.forall_mem_cons.mpr ⟨gap, blank⟩)
      (head_of_mem_all s.member)] at none
    exact operator?_append_ne_none s.member rest none
  · exact s.loose.append empty [c]

namespace Site

/-- One character in front that the rule passes over. -/
def cons {passed r result op rest : Text} {c : Char} (hc : respace passed (c :: r) = none)
    (s : Site (c :: passed) r result op rest) : Site passed (c :: r) (c :: result) op rest :=
  { s with
    front := c :: s.front
    out := c :: s.out
    whole := congrArg (c :: ·) s.whole
    seen := by simp [s.seen]
    kept := by rw [List.filter_cons, List.filter_cons, s.kept]
    loose := s.loose_cons hc
    made := congrArg (c :: ·) s.made }

section Found

variable {passed gap op behind rest : Text} (hgap : ∀ c ∈ gap, isSpaceOrTab c = true)
  (hbehind : ∀ c ∈ behind, isSpaceOrTab c = true) (hop : op ∈ all)

/-- The operator that is found, the blanks around it with it. -/
def here {bare : Bool} (alone : bare = true → gap = [] ∧ behind = [])
    (stop : rest.head?.any isSpaceOrTab = false) :
    Site passed (gap ++ (op ++ behind) ++ rest) (placed passed op bare ++
      substituteFrom respace ((gap ++ (op ++ behind)).reverse ++ passed) 0 rest) op (behind ++ rest) where
  front := gap
  gap := gap.reverse
  prior := passed
  behind := behind.reverse
  bare := bare
  out := []
  member := hop
  whole := by simp
  blankGap c hc := hgap c (List.mem_reverse.mp hc)
  seen := rfl
  blankBehind c hc := hbehind c (List.mem_reverse.mp hc)
  alone bare := by
    obtain ⟨rfl, rfl⟩ := alone bare
    exact ⟨rfl, stop⟩
  kept := (filter_eq_nil_of_all not_gap hgap).symm
  loose := .inl rfl
  made := by
    have shown : (behind ++ rest).dropWhile isSpaceOrTab = rest :=
      dropWhile_append_stop hbehind fun c r first => by rwa [first] at stop
    simp [shown]

/-- An operator behind the one that is found. -/
def beyond (bare : Bool) {result next rest' : Text}
    (s : Site ((gap ++ (op ++ behind)).reverse ++ passed) rest result next rest') :
    Site passed (gap ++ (op ++ behind) ++ rest) (placed passed op bare ++ result) next rest' :=
  { s with
    front := gap ++ (op ++ behind) ++ s.front
    out := placed passed op bare ++ s.out
    whole := by simp [s.whole]
    seen := by simp [s.seen]
    kept := by
      rw [List.filter_append, List.filter_append, s.kept, filter_placed not_gap hgap hbehind]
    loose := by
      have loose := loose_placed hop passed bare
      by_cases empty : s.out = []
      · rwa [empty, List.append_nil]
      · exact s.loose.append empty _
    made := (congrArg (placed passed op bare ++ ·) s.made).trans (List.append_assoc ..).symm }

end Found
end Site

theorem exists_site {passed t op rest : Text} (h : (op, rest) ∈ readings t) :
    Nonempty (Site passed t (substituteFrom respace passed 0 t) op rest) := by
  induction passed, t using finds_matched.induction with
  | nil passed => cases h
  | pass passed c r hc ih =>
      rw [readings_of_none (operator?_of_respace_none hc)] at h
      exact (ih h).map (Site.cons hc)
  | found passed found rest' text hf ih =>
      obtain ⟨bare, hgap, hbehind, hop, alone, stop⟩ := hf
      next gap op' behind =>
      have member := (of_operator? hop).1
      have parts : gap ++ (op' ++ behind) ++ rest' = gap ++ (op' ++ (behind ++ rest')) := by simp
      rw [parts, readings_blanks hgap, readings_of_some hop, readings_blanks hbehind] at h
      rcases List.mem_cons.mp h with first | later
      · obtain ⟨rfl, rfl⟩ := Prod.mk.inj first
        exact ⟨.here hgap hbehind member alone stop⟩
      · exact (ih later).map (Site.beyond hgap hbehind member bare)

/-- Behind an operator the next one begins behind a space, and anything else as it is. -/
theorem respace_behind_operator {op : Text} (hop : op ∈ all) {behind : Text}
    (hbehind : ∀ c ∈ behind, isSpaceOrTab c = true) (prior : Text) {d : Char} {r : Text}
    (hd : isSpaceOrTab d = false) :
    ∃ space c out, substituteFrom respace (behind ++ (op.reverse ++ prior)) 0 (d :: r) =
        space ++ c :: out ∧ isSpaceOrTab c = false ∧
      (operator? (d :: r) = none ∧ space = [] ∨
        operator? (d :: r) ≠ none ∧ space = [' '] ∧ Text.isBlank c = false) := by
  have shown : (d :: r).dropWhile isSpaceOrTab = d :: r :=
    List.dropWhile_cons_of_neg (Bool.eq_false_iff.mp hd)
  cases hm : respace (behind ++ (op.reverse ++ prior)) (d :: r) with
  | none =>
      rw [substituteFrom_of_none hm]
      exact ⟨[], d, _, rfl, hd, .inl ⟨operator?_of_respace_none hm, rfl⟩⟩
  | some m =>
      have found : operator? (d :: r) ≠ none := fun none => by
        rw [respace_eq_none_iff.mpr (shown.symm ▸ none)] at hm
        cases hm
      obtain ⟨_, rest, -, -, -, put⟩ := finds_respace _ _ _ hm
      rw [substituteFrom_of_some hm]
      generalize m.text = text at put
      obtain ⟨bare, -, -, hnext, -⟩ := put
      next next _ =>
      obtain ⟨u, hu⟩ := placed_behind_operator hop hbehind prior next bare
      obtain ⟨front, back, heq, hfront, -, -⟩ :=
        placed_eq_append (behind ++ (op.reverse ++ prior)) next bare
      obtain ⟨nonempty, symbols⟩ := symbols_of_mem_all (of_operator? hnext).1
      obtain ⟨c, w, rfl⟩ := List.exists_cons_of_ne_nil nonempty
      have ink := (symbols c (List.mem_cons_self ..)).2.2
      rcases hfront with rfl | rfl
      · rw [heq] at hu
        rw [(List.cons_eq_cons.mp hu).1] at ink
        cases ink
      · rw [heq]
        exact ⟨[' '], c, _, rfl, not_isSpaceOrTab ink, .inr ⟨found, rfl, ink⟩⟩

/-! Spaces that become one. -/

section Cut

variable {c : Char} (hc : isSpaceOrTab c = false) (passed y r : Text)

include hc

/-- Behind what is no space spaces are squeezed as at a beginning. -/
theorem squeeze_append : substituteFrom squeeze passed 0 (y ++ [c] ++ r) =
    substituteFrom squeeze passed 0 (y ++ [c]) ++
      substituteFrom squeeze ((y ++ [c]).reverse ++ passed) 0 r := by
  have notSpace := ne_space hc
  refine finds_squeeze.substituteFrom_append fun u b hub some => ?_
  obtain ⟨b, rfl⟩ := exists_concat_of_append hub some
  obtain ⟨d, w, alone, followed⟩ := dropWhile_concat_append (p := (· == ' ')) notSpace b r
  simp only [squeeze, takeWhile_concat_append (p := (· == ' ')) notSpace, alone, followed]

theorem negation_append (other : c ≠ '!') : substituteFrom negation passed 0 (y ++ [c] ++ r) =
    substituteFrom negation passed 0 (y ++ [c]) ++
      substituteFrom negation ((y ++ [c]).reverse ++ passed) 0 r := by
  refine finds_negation.substituteFrom_append fun u b hub some => ?_
  obtain ⟨b, rfl⟩ := exists_concat_of_append hub some
  cases b with
  | nil => simp [negation, other]
  | cons d b =>
      by_cases hd : d = '!'
      · rw [hd]
        simp only [negation, List.cons_append, takeWhile_concat_append hc]
      · simp [negation, hd]

end Cut

/-- At most two spaces become one, two of them only between what is no blank. -/
theorem squeeze_spaces {c d : Char} {gap : Text} (passed r : Text) (hd : isSpaceOrTab d = false)
    (few : gap = [] ∨ gap = [' '] ∨
      gap = [' ', ' '] ∧ Text.isBlank c = false ∧ Text.isBlank d = false) :
    substituteFrom squeeze (c :: passed) 0 (gap ++ d :: r) =
      gap.take 1 ++ substituteFrom squeeze (gap.reverse ++ c :: passed) 0 (d :: r) := by
  have notSpace := ne_space hd
  rcases few with rfl | rfl | ⟨rfl, hc, ink⟩
  · rfl
  · have none : squeeze (c :: passed) (' ' :: d :: r) = none := by simp [squeeze, notSpace]
    exact substituteFrom_of_none none
  · have found : squeeze (c :: passed) ([' ', ' '] ++ d :: r) = some ⟨2, [' ']⟩ := by
      simp [squeeze, notSpace, hc, ink]
    exact substituteFrom_found found rfl (List.cons_ne_nil _ _)

/-- So it does behind a space and with a gap behind the operator. -/
theorem equality_of_spaced_negation {op : Text} (hop : op ∈ all) {next : Text}
    (hnext : ∀ c ∈ next, isSpaceOrTab c = true) {u v : Text}
    (h : ' ' :: (op ++ next) = u ++ '!' :: v) : v.head? = some '=' := by
  have outside : '!' ∉ next := fun inside => absurd (hnext '!' inside) (by decide)
  cases u with
  | nil => cases h
  | cons _ u =>
      obtain ⟨-, h⟩ := List.cons_eq_cons.mp h
      rcases List.append_eq_append_iff.mp h with ⟨a, -, rfl⟩ | ⟨a, inOp, ha⟩
      · exact absurd (List.mem_append_right a (List.mem_cons_self ..)) outside
      · cases a with
        | nil =>
            obtain rfl : '!' :: v = next := ha
            exact absurd (List.mem_cons_self ..) outside
        | cons e a =>
            obtain ⟨rfl, rfl⟩ := List.cons_eq_cons.mp ha
            obtain ⟨s, rfl⟩ := List.head?_eq_some_iff.mp (equality_of_negation hop inOp)
            rfl

section Around

variable {op : Text} (hop : op ∈ all) {c d : Char} (hc : isSpaceOrTab c = false)
  (hd : isSpaceOrTab d = false)

include hop hc hd

theorem exists_squeeze {gap next : Text} (y out : Text)
    (hgap : gap = [] ∨ gap = [' '] ∧ Text.isBlank c = false)
    (hnext : next = [] ∨ next = [' '] ∨ next = [' ', ' '] ∧ Text.isBlank d = false) :
    ∃ out', substitute squeeze (y ++ c :: (gap ++ ' ' :: (op ++ (next ++ d :: out)))) =
      substitute squeeze (y ++ [c]) ++ ' ' :: (op ++ (next.take 1 ++ d :: out')) := by
  obtain ⟨nonempty, symbols⟩ := symbols_of_mem_all hop
  obtain ⟨o, w, ho⟩ := List.exists_cons_of_ne_nil nonempty
  obtain ⟨l, r, hl, -, inkLast, -⟩ := last_of_mem_all hop
  have ink := (symbols o (ho ▸ List.mem_cons_self ..)).2.2
  have pass (p rest : Text) : substituteFrom squeeze p 0 (op ++ rest) =
      op ++ substituteFrom squeeze (l :: (r ++ p)) 0 rest := by
    have passed := substituteFrom_pass (w := op) p rest fun u e v huv =>
      squeeze_of_ne fun space => by
        obtain rfl : e = ' ' := Option.some.inj space
        cases (symbols ' ' (huv ▸ List.mem_append_right u (List.mem_cons_self ..))).2.2
    rwa [hl, List.cons_append] at passed
  have before (rest : Text) :
      substituteFrom squeeze (c :: y.reverse) 0 (gap ++ ' ' :: (op ++ rest)) =
        ' ' :: substituteFrom squeeze (' ' :: (gap ++ c :: y.reverse)) 0 (op ++ rest) := by
    rw [ho]
    rcases hgap with rfl | ⟨rfl, inkFirst⟩
    · exact squeeze_spaces _ _ (not_isSpaceOrTab ink) (.inr (.inl rfl))
    · exact squeeze_spaces _ _ (not_isSpaceOrTab ink) (.inr (.inr ⟨rfl, inkFirst, ink⟩))
  have behind (p : Text) : substituteFrom squeeze (l :: p) 0 (next ++ d :: out) =
      next.take 1 ++ substituteFrom squeeze (next.reverse ++ l :: p) 0 (d :: out) :=
    squeeze_spaces p out hd
      (hnext.imp_right (Or.imp_right fun ⟨two, inkNext⟩ => ⟨two, inkLast, inkNext⟩))
  have parts : y ++ c :: (gap ++ ' ' :: (op ++ (next ++ d :: out))) =
      y ++ [c] ++ (gap ++ ' ' :: (op ++ (next ++ d :: out))) := by simp
  have seen : (y ++ [c]).reverse ++ [] = c :: y.reverse := by simp
  obtain ⟨out', hout⟩ := List.head?_eq_some_iff.mp ((head?_squeeze
    (next.reverse ++ l :: (r ++ ' ' :: (gap ++ c :: y.reverse))) (d :: out)).trans rfl)
  refine ⟨out', ?_⟩
  rw [parts, substitute, squeeze_append hc, seen, before, pass, behind, hout]
  rfl

omit hd in
/-- No negation in an operator has a gap behind it. -/
theorem exists_negation {next : Text} (hnext : ∀ c ∈ next, isSpaceOrTab c = true) (y out : Text)
    (other : c ≠ '!') :
    ∃ out', substitute negation (y ++ [c] ++ ' ' :: (op ++ (next ++ d :: out))) =
      substitute negation (y ++ [c]) ++ ' ' :: (op ++ (next ++ d :: out')) := by
  have passes : ∀ u e v, ' ' :: (op ++ next) = u ++ e :: v →
      ∀ passed, negation passed (e :: (v ++ d :: out)) = none := by
    intro u e v huv passed
    by_cases he : e = '!'
    · obtain ⟨s, rfl⟩ := List.head?_eq_some_iff.mp (equality_of_spaced_negation hop hnext (he ▸ huv))
      rw [he]
      rfl
    · simp [negation, he]
  have parts : ' ' :: (op ++ (next ++ d :: out)) = ' ' :: (op ++ next) ++ d :: out := by simp
  obtain ⟨out', hout⟩ := List.head?_eq_some_iff.mp ((head?_negation
    ((' ' :: (op ++ next)).reverse ++ ((y ++ [c]).reverse ++ [])) (d :: out)).trans rfl)
  refine ⟨out', ?_⟩
  rw [substitute, negation_append hc _ _ _ other, parts,
    substituteFrom_pass _ _ fun u e v huv => passes u e v huv _, hout]
  simp [substitute]

end Around

theorem getLast?_squeeze {t : Text} {c : Char} (hc : isSpaceOrTab c = false)
    (h : t.getLast? = some c) : (substitute squeeze t).getLast? = some c := by
  refine finds_squeeze.getLast? ?_ [] h
  rintro passed found rest _ ⟨-, spaces⟩ inside
  rw [spaces c inside] at hc
  cases hc

theorem getLast?_negation {t : Text} {c : Char} (hc : isSpaceOrTab c = false) (other : c ≠ '!')
    (h : t.getLast? = some c) : (substitute negation t).getLast? = some c := by
  refine finds_negation.getLast? ?_ [] h
  rintro passed _ rest _ ⟨-, hgap, -⟩ inside
  rcases List.mem_cons.mp inside with rfl | inside
  · exact other rfl
  · rw [hgap c inside] at hc
    cases hc

/-- Around an operator with a space in front of it only spaces behind it are squeezed. -/
theorem exists_squeeze_negation {op gap next : Text} (hop : op ∈ all) {c d : Char}
    (hc : isSpaceOrTab c = false) (other : c ≠ '!') (hd : isSpaceOrTab d = false) (y out : Text)
    (hgap : gap = [] ∨ gap = [' '] ∧ Text.isBlank c = false)
    (hnext : next = [] ∨ next = [' '] ∨ next = [' ', ' '] ∧ Text.isBlank d = false) :
    ∃ z out', substitute negation (substitute squeeze
        (y ++ c :: (gap ++ ' ' :: (op ++ (next ++ d :: out))))) =
          z ++ ' ' :: (op ++ (next.take 1 ++ d :: out')) ∧
      z.getLast? = some c ∧ z.filter (!isSpaceOrTab ·) = (y ++ [c]).filter (!isSpaceOrTab ·) := by
  have spaces : ∀ e ∈ next.take 1, isSpaceOrTab e = true := by
    rcases hnext with rfl | rfl | ⟨rfl, -⟩ <;> simp [isSpaceOrTab]
  obtain ⟨squeezed, hsqueezed⟩ := exists_squeeze hop hc hd y out hgap hnext
  have last := getLast?_squeeze hc (List.getLast?_concat (l := y))
  obtain ⟨front, hfront⟩ := List.getLast?_eq_some_iff.mp last
  obtain ⟨out', hnegation⟩ := exists_negation hop hc (d := d) spaces front squeezed other
  refine ⟨substitute negation (front ++ [c]), out', ?_, ?_, ?_⟩
  · rw [hsqueezed, hfront, hnegation]
  · exact getLast?_negation hc other (List.getLast?_concat ..)
  · rw [filter_negation not_gap, ← hfront, filter_squeeze not_gap]

/-- Only the ends of a text are tidied. -/
theorem exists_tidy (body middle out : Text) {z : Text} {c d : Char} (hz : z.getLast? = some c)
    (hc : isSpaceOrTab c = false) (hd : isSpaceOrTab d = false) :
    ∃ out', tidy body (z ++ (middle ++ d :: out)) =
      z.dropWhile isSpaceOrTab ++ (middle ++ d :: out') := by
  have last := getLast?_dropWhile hz hc
  have start : (z ++ (middle ++ d :: out)).dropWhile isSpaceOrTab =
      z.dropWhile isSpaceOrTab ++ (middle ++ d :: out) := by
    rw [List.dropWhile_append, if_neg]
    intro empty
    rw [List.isEmpty_iff.mp empty] at last
    cases last
  have stop : ∃ out', dropEndWhile isSpaceOrTab (d :: out) = d :: out' := by
    rw [dropEndWhile]
    split
    · exact ⟨[], if_neg (Bool.eq_false_iff.mp hd)⟩
    · exact ⟨_, rfl⟩
  rw [tidy, start]
  split
  · exact ⟨out, rfl⟩
  · obtain ⟨out', hout⟩ := stop
    refine ⟨out', ?_⟩
    rw [dropEndWhile_append, dropEndWhile_append, hout, if_neg (List.cons_ne_nil _ _),
      if_neg (List.append_ne_nil_of_right_ne_nil _ (List.cons_ne_nil _ _))]

/-! One operator. -/

/-- An operator of a body that stands for a binary one: it is read behind an operand, is no update
and no sign of an exponent, and does not end the line. -/
structure Binary (body front op rest : Text) : Prop where
  read : (op, rest) ∈ readings body
  whole : body = front ++ (op ++ rest)
  operand : Operand.Ends front
  update : isUpdate op = false
  exponent : (isSign op && behindExponentMark front.reverse && !rest.head?.any isSpaceOrTab) = false
  ahead : rest.any (!isSpaceOrTab ·) = true

/-- The sign is taken for a prefix, and what follows is no operator. -/
def Prefixed (front op rest : Text) : Prop :=
  isSign op = true ∧ Operand.overlooked front.reverse = true ∧
    operator? (rest.dropWhile isSpaceOrTab) = none

instance (front op rest : Text) : Decidable (Prefixed front op rest) :=
  inferInstanceAs (Decidable (_ ∧ _ ∧ _))

/-- What was in front of the operator and behind it, but for gaps, is there now with exactly one
space between each and the operator. -/
def SpacedOnce (front op rest u : Text) : Prop :=
  ∃ before after, u = before ++ ' ' :: (op ++ ' ' :: after) ∧
    before.filter (!isSpaceOrTab ·) = front.filter (!isSpaceOrTab ·) ∧
    after.filter (!isSpaceOrTab ·) = rest.filter (!isSpaceOrTab ·) ∧
    before.getLast?.any isSpaceOrTab = false ∧ after.head?.any isSpaceOrTab = false

theorem Binary.exists_site {body front op rest : Text} (h : Binary body front op rest) :
    Nonempty (Site [] body (substitute respace body) op rest) :=
  Operator.exists_site h.read

theorem Binary.member {body front op rest : Text} (h : Binary body front op rest) : op ∈ all := by
  obtain ⟨s⟩ := h.exists_site
  exact s.member

theorem Binary.placed {body front op rest prior gap : Text} (h : Binary body front op rest)
    {bare : Bool} (hgap : ∀ c ∈ gap, isSpaceOrTab c = true) (seen : gap ++ prior = front.reverse)
    (alone : bare = true → gap = [] ∧ rest.head?.any isSpaceOrTab = false) :
    Operator.placed prior op bare =
      ' ' :: (op ++ if isSign op && Operand.overlooked front.reverse then [] else [' ']) := by
  have free : (isSign op && bare && behindExponentMark prior) = false := by
    cases hbare : bare with
    | false => rw [Bool.and_false, Bool.false_and]
    | true =>
        rw [Bool.and_true]
        obtain ⟨rfl, next⟩ := alone hbare
        have exponent := h.exponent
        rwa [next, Bool.not_false, Bool.and_true, ← seen, List.nil_append] at exponent
  simp only [Operator.placed, free, h.update, h.operand.isBehind hgap seen,
    h.operand.lead hgap seen]
  cases isSign op <;> cases Operand.overlooked front.reverse <;> simp

theorem Site.exists_last {t result op rest : Text} (s : Site [] t result op rest)
    (operand : Operand.Ends s.front) :
    ∃ y c gap, s.out = y ++ c :: gap ∧ isSpaceOrTab c = false ∧ c ≠ '!' ∧
      (gap = [] ∨ gap = [' '] ∧ Text.isBlank c = false) ∧
      (y ++ [c]).filter (!isSpaceOrTab ·) = s.front.filter (!isSpaceOrTab ·) := by
  obtain ⟨e, last, other⟩ := operand.last_ink
  rw [← s.kept] at last
  obtain ⟨y, c, gap, hout, hc, hgap⟩ := s.loose.resolve_left fun empty => by
    rw [empty] at last
    cases last
  have none : gap.filter (!isSpaceOrTab ·) = [] :=
    filter_eq_nil_of_all not_gap (isSpaceOrTab_of_atMostOne (hgap.imp_right And.left))
  have shown : s.out.filter (!isSpaceOrTab ·) = y.filter (!isSpaceOrTab ·) ++ [c] := by
    rw [hout, List.filter_append, List.filter_cons_of_pos (by rw [hc, Bool.not_false]), none]
  rw [shown, List.getLast?_concat] at last
  obtain rfl := Option.some.inj last
  refine ⟨y, c, gap, hout, hc, other, hgap, ?_⟩
  rw [← s.kept, shown, List.filter_append, List.filter_cons_of_pos (by rw [hc, Bool.not_false])]
  rfl

theorem Binary.exists_ahead {body front op rest : Text} (h : Binary body front op rest) :
    ∃ d r, rest.dropWhile isSpaceOrTab = d :: r ∧ isSpaceOrTab d = false := by
  cases hrest : rest.dropWhile isSpaceOrTab with
  | nil =>
      obtain ⟨d, hd, shown⟩ := List.any_eq_true.mp h.ahead
      rw [List.dropWhile_eq_nil_iff.mp hrest d hd] at shown
      cases shown
  | cons d r =>
      have stop := any_head?_dropWhile isSpaceOrTab rest
      rw [hrest] at stop
      exact ⟨d, r, rfl, stop⟩

/-- What the rule makes of a body around a binary operator: between it and the nearest characters
in front and behind there are only spaces. -/
structure Around (front op rest result : Text) where
  before : Text
  last : Char
  gap : Text
  next : Text
  first : Char
  after : Text
  made : result = before ++ last :: (gap ++ ' ' :: (op ++ (next ++ first :: after)))
  shownLast : isSpaceOrTab last = false
  other : last ≠ '!'
  kept : (before ++ [last]).filter (!isSpaceOrTab ·) = front.filter (!isSpaceOrTab ·)
  tight : gap = [] ∨ gap = [' '] ∧ Text.isBlank last = false
  shownFirst : isSpaceOrTab first = false
  few : next = [] ∨ next = [' '] ∨ next = [' ', ' '] ∧ Text.isBlank first = false
  one : next.take 1 = if Prefixed front op rest then [] else [' ']

/-- The space behind a binary operator and the one in front of an operator that follows. -/
theorem Binary.exists_around {body front op rest : Text} (h : Binary body front op rest) :
    Nonempty (Around front op rest (substitute respace body)) := by
  obtain ⟨s⟩ := h.exists_site
  obtain rfl : s.front = front := List.append_cancel_right (s.whole.symm.trans h.whole)
  have seen := s.seen
  rw [List.append_nil] at seen
  obtain ⟨y, c, gap, hout, hc, other, tight, kept⟩ := s.exists_last h.operand
  obtain ⟨d, r, hrest, hd⟩ := h.exists_ahead
  obtain ⟨next, e, out, hbehind, he, hnext⟩ :=
    respace_behind_operator s.member s.blankBehind (s.gap ++ s.prior) hd (r := r)
  obtain ⟨back, hback⟩ : ∃ back, back =
    if isSign op && Operand.overlooked s.front.reverse then [] else [' '] := ⟨_, rfl⟩
  exact ⟨{
    before := y
    last := c
    gap := gap
    next := back ++ next
    first := e
    after := out
    made := by
      rw [s.made, h.placed s.blankGap seen s.alone, hrest, hbehind, hout, hback]
      simp
    shownLast := hc
    other := other
    kept := kept
    tight := tight
    shownFirst := he
    few := by
      rw [hback]
      rcases hnext with ⟨-, rfl⟩ | ⟨-, rfl, ink⟩
      · split <;> simp
      · split <;> simp [ink]
    one := by
      simp only [hback, Prefixed, hrest, Bool.and_eq_true]
      rcases hnext with ⟨none, rfl⟩ | ⟨some, rfl, -⟩
      · simp only [none, and_true]
        split <;> rfl
      · simp only [some, and_false, if_false]
        split <;> rfl }⟩

/-- What the spaced body is around a binary operator. -/
theorem Binary.exists_spaced {body front op rest : Text} (h : Binary body front op rest) :
    ∃ before after, tidy body (space body) =
        before ++ ' ' :: (op ++ ((if Prefixed front op rest then [] else [' ']) ++ after)) ∧
      before.filter (!isSpaceOrTab ·) = front.filter (!isSpaceOrTab ·) ∧
      after.filter (!isSpaceOrTab ·) = rest.filter (!isSpaceOrTab ·) ∧
      before.getLast?.any isSpaceOrTab = false ∧ after ≠ [] ∧
      after.head?.any isSpaceOrTab = false := by
  obtain ⟨⟨y, c, gap, next, d, out, made, hc, other, keptLast, tight, hd, few, one⟩⟩ :=
    h.exists_around
  obtain ⟨z, out, hz, last, keptFront⟩ :=
    exists_squeeze_negation h.member hc other hd y out tight few
  obtain ⟨after, htidy⟩ := exists_tidy body (' ' :: (op ++ next.take 1)) out last hc hd
  have whole : tidy body (space body) = z.dropWhile isSpaceOrTab ++
      ' ' :: (op ++ ((if Prefixed front op rest then [] else [' ']) ++ d :: after)) := by
    rw [one] at hz htidy
    rw [space, made, hz]
    simpa using htidy
  have before : (z.dropWhile isSpaceOrTab).filter (!isSpaceOrTab ·) =
      front.filter (!isSpaceOrTab ·) := by
    rw [filter_dropWhile not_gap, keptFront, keptLast]
  have gone : (if Prefixed front op rest then [] else [' ']).filter (!isSpaceOrTab ·) = [] := by
    split <;> rfl
  have kept : (tidy body (space body)).filter (!isSpaceOrTab ·) =
      (front ++ (op ++ rest)).filter (!isSpaceOrTab ·) := by
    rw [filter_tidy not_gap, filter_space not_gap, ← h.whole]
  rw [whole, List.filter_append, List.filter_append, before, List.append_cancel_left_eq,
    List.filter_cons_of_neg (by decide), List.filter_append, List.filter_append, gone,
    List.nil_append, List.filter_append, List.append_cancel_left_eq] at kept
  refine ⟨_, _, whole, before, kept, ?_, List.cons_ne_nil d after, hd⟩
  rw [getLast?_dropWhile last hc]
  exact hc

/-- A text is cut in front of an operator where its beginning is told, but for gaps. -/
theorem eq_of_filter_eq {op x y x' y' : Text} (hop : op ∈ all)
    (whole : x ++ (op ++ y) = x' ++ (op ++ y'))
    (same : x.filter (!isSpaceOrTab ·) = x'.filter (!isSpaceOrTab ·)) : x = x' ∧ y = y' := by
  have tight {x x' y y' : Text} {z : Text} (hx : x' = x ++ z) (hz : op ++ y = z ++ (op ++ y'))
      (same : x.filter (!isSpaceOrTab ·) = x'.filter (!isSpaceOrTab ·)) : z = [] := by
    rw [hx, List.filter_append, List.self_eq_append_right] at same
    cases z with
    | nil => rfl
    | cons c z =>
        have gap := all_isSpaceOrTab_of_filter same c (List.mem_cons_self ..)
        rw [head_of_mem_all hop c _ hz] at gap
        cases gap
  rcases List.append_eq_append_iff.mp whole with ⟨z, hx, hz⟩ | ⟨z, hx, hz⟩
  · obtain rfl := tight hx hz same
    rw [List.append_nil] at hx
    exact ⟨hx.symm, List.append_cancel_left hz⟩
  · obtain rfl := tight hx hz same.symm
    rw [List.append_nil] at hx
    exact ⟨hx, (List.append_cancel_left hz).symm⟩

theorem Binary.spacedOnce_iff {body front op rest : Text} (h : Binary body front op rest) :
    SpacedOnce front op rest (tidy body (space body)) ↔ ¬Prefixed front op rest := by
  obtain ⟨before, after, whole, keptFront, keptRest, last, some, head⟩ := h.exists_spaced
  rw [whole]
  by_cases taken : Prefixed front op rest
  · refine iff_of_false ?_ (not_not_intro taken)
    rintro ⟨before', after', parts, keptFront', -, -, -⟩
    have cut :
        (before ++ [' ']) ++ (op ++ after) = (before' ++ [' ']) ++ (op ++ ' ' :: after') := by
      simpa [taken] using parts
    obtain ⟨-, rfl⟩ := eq_of_filter_eq h.member cut (by
      rw [List.filter_append, List.filter_append, keptFront, keptFront'])
    cases head
  · refine iff_of_true ?_ taken
    exact ⟨before, after, by rw [if_neg taken]; rfl, keptFront, keptRest, last, head⟩

end Operator

/-! Lines of code. -/

theorem Literal.pieces_of_plain {t : Text} (plain : ∀ c ∈ t, Token.isQuote c = false)
    (code : occursIn "//".toList t = false) : pieces t = t.map Piece.code := by
  induction t with
  | nil => rfl
  | cons c t ih =>
      obtain ⟨hc, plain⟩ := List.forall_mem_cons.mp plain
      rw [occursIn, Bool.or_eq_false_iff] at code
      rw [pieces_cons, length?_none_of_plain hc code.1, ih plain code.2]
      rfl

namespace Operator

open Literal

/-- In a line without literals and marks the body is spaced as it is. -/
theorem mapCode_plain {line : Text} (clean : mark ∉ line)
    (plain : ∀ c ∈ line, Token.isQuote c = false)
    (code : occursIn "//".toList line = false) (some : (splitIndent line).2 ≠ []) :
    mapCode space line =
      .ok ((splitIndent line).1 ++ tidy (splitIndent line).2 (space (splitIndent line).2)) := by
  have parts := splitIndent_append line
  have body : pieces (splitIndent line).2 = (splitIndent line).2.map Piece.code := by
    rw [← parts] at code
    exact pieces_of_plain (fun c hc => plain c (mem_body hc)) (occursIn_of_append code)
  have unmarked :
      Unmarked ((tidy (splitIndent line).2 (space (splitIndent line).2)).map Piece.code) := by
    intro hm
    obtain ⟨c, hc, hcode⟩ := List.mem_map.mp hm
    obtain rfl := Piece.code.inj hcode
    have kept := (List.mem_filter (p := (!isSpaceOrTab ·))).mpr ⟨hc, by decide⟩
    rw [filter_tidy not_gap, filter_space not_gap] at kept
    exact clean (mem_body (List.mem_of_mem_filter kept))
  have restored := restore_numbered unmarked
  rw [literals_map_code, numbered_map_code, flatMap_text_map_code] at restored
  rw [mapCode]
  dsimp only
  rw [if_neg (mt List.isEmpty_iff.mp some), mask, body, literals_map_code, numbered_map_code,
    restored]
  rfl

/-- On a line without quotes, comments and marks each binary operator that follows an operand, but
for those at its end, gets exactly one space on each side, unless it is a sign behind an operand
that is overlooked and no operator follows. -/
theorem spaced_once_iff (o : FormatOptions) {source line : Text} {row : Nat}
    (here : (lines source)[row]? = some line) (clean : mark ∉ line)
    (plain : ∀ c ∈ line, Token.isQuote c = false) (code : occursIn "//".toList line = false)
    {front op rest : Text} (binary : Binary (splitIndent line).2 front op rest) :
    (mark ∉ source → ∃ t, Pass.operators.apply o source = .ok t) ∧
    ∀ t, Pass.operators.apply o source = .ok t →
      ∃ u, (lines t)[row]? = some ((splitIndent line).1 ++ u) ∧
        (SpacedOnce front op rest u ↔ ¬Prefixed front op rest) := by
  constructor
  · intro unmarked
    obtain ⟨t, ht, -⟩ := Pass.forall₂_apply o unmarked (p := .operators) (by decide) rfl
    exact ⟨t, ht⟩
  · intro t ht
    rw [Pass.apply_eq_mapLines (p := .operators) rfl] at ht
    have related := forall₂_of_mapLines (fun onLine hu newline =>
      onLine (mem_of_mapCode keepsEnd_space hu (by decide) (by decide) newline)) ht
    obtain ⟨e, he, made⟩ := getElem?_of_forall₂ related here
    have some : (splitIndent line).2 ≠ [] := by
      intro none
      have reading := binary.read
      rw [none] at reading
      cases reading
    rw [mapCode_plain clean plain code some] at made
    cases made
    exact ⟨_, he, binary.spacedOnce_iff⟩

/-- An equality sign behind a name, and a sign behind an update. -/
theorem spaced_once_iff_update :
    let source := "x = a++ + b".toList
    (lines source)[0]? = some source ∧ mark ∉ source ∧ (∀ c ∈ source, Token.isQuote c = false) ∧
      occursIn "//".toList source = false ∧
      Binary (splitIndent source).2 "x ".toList ['='] " a++ + b".toList ∧
      Binary (splitIndent source).2 "x = a++ ".toList ['+'] " b".toList ∧
      ∃ t, Pass.operators.apply {} source = .ok t ∧ ∃ u, (lines t)[0]? = some u ∧
        SpacedOnce "x ".toList ['='] " a++ + b".toList u ∧
        ¬SpacedOnce "x = a++ ".toList ['+'] " b".toList u := by
  intro source
  have here : (lines source)[0]? = some source := by decide
  have clean : mark ∉ source := by decide
  have checked : source.all (!Token.isQuote ·) = true := by decide
  have plain (c : Char) (hc : c ∈ source) : Token.isQuote c = false := by
    simpa using List.all_eq_true.mp checked c hc
  have code : occursIn "//".toList source = false := by decide
  have name {c : Char} (t : Text) (hc : Call.continuesName c = true)
      (other : [c] ∉ Operand.prefixKeywords) (front : t.getLast?.any Call.continuesName = false) :
      Operand.Ends (t ++ [c]) :=
    .name (List.cons_ne_nil c []) (List.forall_mem_singleton.mpr hc) front other
  have equality : Binary (splitIndent source).2 "x ".toList ['='] " a++ + b".toList := {
    read := by decide
    whole := by decide
    operand := .blank (t := ['x']) (c := ' ') (by decide)
      (name [] (by decide) (by decide) (by decide))
    update := by decide
    exponent := by decide
    ahead := by decide }
  have sign : Binary (splitIndent source).2 "x = a++ ".toList ['+'] " b".toList := {
    read := by decide
    whole := by decide
    operand := .blank (t := "x = a++".toList) (c := ' ') (by decide)
      (.update (t := "x = a".toList) (by decide)
        (name "x = ".toList (by decide) (by decide) (by decide)))
    update := by decide
    exponent := by decide
    ahead := by decide }
  obtain ⟨t, ht⟩ := (spaced_once_iff {} here clean plain code equality).1 clean
  obtain ⟨u, hu, spaced⟩ := (spaced_once_iff {} here clean plain code equality).2 t ht
  obtain ⟨v, hv, prefixed⟩ := (spaced_once_iff {} here clean plain code sign).2 t ht
  rw [hu] at hv
  obtain rfl := List.append_cancel_left (Option.some.inj hv)
  exact ⟨here, clean, plain, code, equality, sign, t, ht, u, hu, spaced.mpr (by decide),
    fun once => prefixed.mp once (by decide)⟩

end Operator
end MotionExpr
