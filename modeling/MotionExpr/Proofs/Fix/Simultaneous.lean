import MotionExpr.Proofs.Fix.Patch

/-!
Fixing unattended is replacing at once. Each character of a text has its place,
and the fixes that are kept cover places of their own: a character that none of
them covers stays, and the new text of a fix stands where the first character
that it covers stood.
-/

namespace MotionExpr

section Sorting

variable {α : Type} {le : α → α → Bool}

theorem pairwise_insertSorted (total : ∀ a b, le a b = false → le b a = true)
    (trans : ∀ a b c, le a b = true → le b c = true → le a c = true) (x : α) {xs : List α}
    (h : xs.Pairwise fun a b => le a b = true) :
    (insertSorted le x xs).Pairwise fun a b => le a b = true := by
  induction xs with
  | nil => exact List.pairwise_singleton _ x
  | cons y ys ih =>
      obtain ⟨first, rest⟩ := List.pairwise_cons.mp h
      rw [insertSorted]
      split
      · next hxy =>
          refine .cons (fun z hz => ?_) h
          rcases List.mem_cons.mp hz with rfl | hz
          · exact hxy
          · exact trans x y z hxy (first z hz)
      · next hxy =>
          refine .cons (fun z hz => ?_) (ih rest)
          rcases List.mem_cons.mp ((insertSorted_perm le x ys).mem_iff.mp hz) with rfl | hz
          · exact total z y (Bool.eq_false_iff.mpr hxy)
          · exact first z hz

theorem pairwise_stableSort (total : ∀ a b, le a b = false → le b a = true)
    (trans : ∀ a b c, le a b = true → le b c = true → le a c = true) (xs : List α) :
    (stableSort le xs).Pairwise fun a b => le a b = true := by
  induction xs with
  | nil => exact .nil
  | cons x xs ih => exact pairwise_insertSorted total trans x ih

/-- Elements that may stand in either order keep theirs. -/
theorem filter_insertSorted {q : α → Bool} (tied : ∀ a b, q a → q b → le a b = true) (x : α)
    (xs : List α) : (insertSorted le x xs).filter q = (x :: xs).filter q := by
  induction xs with
  | nil => rfl
  | cons y ys ih =>
      rw [insertSorted]
      split
      · rfl
      · next hxy =>
          rw [List.filter_cons, ih]
          cases hx : q x with
          | false => simp [List.filter_cons, hx]
          | true =>
              have hy : q y = false := by
                by_contra hy
                exact hxy (tied x y hx (by simpa using hy))
              simp [hx, hy]

theorem filter_stableSort {q : α → Bool} (tied : ∀ a b, q a → q b → le a b = true)
    (xs : List α) : (stableSort le xs).filter q = xs.filter q := by
  induction xs with
  | nil => rfl
  | cons x xs ih => rw [stableSort, filter_insertSorted tied, List.filter_cons, ih, List.filter_cons]

end Sorting

/-! Characters and their places. -/

structure Place where
  line : Int
  column : Int
  deriving DecidableEq, Repr

namespace Place

def start : Place := ⟨1, 1⟩

/-- The place behind a character that stands at `p`. -/
def next (p : Place) (c : Char) : Place :=
  if c = '\n' then ⟨p.line + 1, 1⟩ else ⟨p.line, p.column + 1⟩

def behind (p : Place) (t : Text) : Place := t.foldl next p

def upTo (p q : Place) : Prop := p.line < q.line ∨ p.line = q.line ∧ p.column ≤ q.column

theorem upTo_refl (p : Place) : p.upTo p := .inr ⟨rfl, Int.le_refl _⟩

theorem upTo_trans {p q r : Place} (h : p.upTo q) (k : q.upTo r) : p.upTo r := by
  simp only [upTo] at *
  omega

theorem upTo_next (p : Place) (c : Char) : p.upTo (p.next c) := by
  rw [next]
  split
  · exact .inl (Int.lt_succ p.line)
  · exact .inr ⟨rfl, Int.le_of_lt (Int.lt_succ p.column)⟩

theorem behind_append (p : Place) (a b : Text) : p.behind (a ++ b) = (p.behind a).behind b :=
  List.foldl_append

theorem upTo_behind (p : Place) (t : Text) : p.upTo (p.behind t) := by
  induction t generalizing p with
  | nil => exact p.upTo_refl
  | cons c r ih => exact upTo_trans (p.upTo_next c) (ih (p.next c))

theorem behind_of_not_newline {t : Text} (h : '\n' ∉ t) (p : Place) :
    p.behind t = ⟨p.line, p.column + t.length⟩ := by
  induction t generalizing p with
  | nil => simp [behind]
  | cons c r ih =>
      rw [List.mem_cons, not_or] at h
      have step : p.next c = ⟨p.line, p.column + 1⟩ := if_neg (Ne.symm h.1)
      rw [behind, List.foldl_cons, step, ← behind, ih h.2]
      simp only [List.length_cons, mk.injEq, true_and]
      omega

theorem behind_unlines {before : List Text} {x : Text} (clean : ∀ l ∈ before ++ [x], '\n' ∉ l)
    (p : Place) (hp : p.column = 1) :
    p.behind (Text.unlines (before ++ [x])) = ⟨p.line + before.length, x.length + 1⟩ := by
  induction before generalizing p with
  | nil =>
      rw [List.nil_append, Text.unlines, behind_of_not_newline (clean x (by simp)), hp]
      simp [Int.add_comm]
  | cons l before ih =>
      rw [List.cons_append, List.forall_mem_cons] at clean
      rw [List.cons_append, Text.unlines_cons l (by simp), behind_append,
        behind_of_not_newline clean.1, behind, List.foldl_cons, ← behind, next, if_pos rfl,
        ih clean.2 _ rfl]
      simp only [List.length_cons, mk.injEq, and_true]
      omega

end Place

/-- The characters of a text that starts at `p`, with their places. -/
def located : (p : Place) → Text → List (Place × Char)
  | _, [] => []
  | p, c :: r => (p, c) :: located (p.next c) r

theorem located_append (p : Place) (a b : Text) :
    located p (a ++ b) = located p a ++ located (p.behind a) b := by
  induction a generalizing p with
  | nil => rfl
  | cons c a ih => rw [List.cons_append, located, ih, located, List.cons_append]; rfl

theorem map_snd_located (p : Place) (t : Text) : (located p t).map Prod.snd = t := by
  induction t generalizing p with
  | nil => rfl
  | cons c r ih => rw [located, List.map_cons, ih]

theorem of_mem_located {p : Place} {t : Text} {x : Place × Char} (h : x ∈ located p t) :
    p.upTo x.1 ∧ (x.1.next x.2).upTo (p.behind t) := by
  induction t generalizing p with
  | nil => cases h
  | cons c r ih =>
      rcases List.mem_cons.mp h with rfl | h
      · exact ⟨p.upTo_refl, (p.next c).upTo_behind r⟩
      · obtain ⟨front, back⟩ := ih h
        exact ⟨Place.upTo_trans (p.upTo_next c) front, back⟩

namespace QuickFix

/-- The place `p` is in the span that the fix replaces. -/
def covers (f : QuickFix) (p : Place) : Bool :=
  p.line == f.line && f.column ≤ p.column && p.column < f.endColumn

def overlaps (f g : QuickFix) : Bool :=
  f.line == g.line && f.column < g.endColumn && g.column < f.endColumn

/-- What stands for a character: itself, the new text of the fix whose first character
it is, or nothing. -/
def standIn (fixes : List QuickFix) (x : Place × Char) : Text :=
  match fixes.find? fun f => f.covers x.1 with
  | none => [x.2]
  | some f => if f.column = x.1.column then f.newText else []

/-- All fixes replace their spans of the text at once. -/
def replaceAll (fixes : List QuickFix) (source : Text) : Text :=
  (located .start source).flatMap (standIn fixes)

/-- The characters that no fix covers. -/
def uncovered (fixes : List QuickFix) (source : Text) : Text :=
  ((located .start source).filter fun x => !fixes.any fun f => f.covers x.1).map Prod.snd

/-- A fix is taken unless it overlaps one that was taken before. -/
def takeOver (taken : List QuickFix) (f : QuickFix) : List QuickFix :=
  if taken.any f.overlaps then taken else taken ++ [f]

def greedy (fixes : List QuickFix) : List QuickFix := fixes.foldl takeOver []

/-- Later places first, and fixes of one place in the order in which they were given. -/
structure Descending (given fixes : List QuickFix) : Prop where
  perm : fixes.Perm given
  sorted : fixes.Pairwise fun f g => g.line < f.line ∨ g.line = f.line ∧ g.column ≤ f.column
  stable : ∀ line column, (fixes.filter fun f => f.line == line && f.column == column) =
    given.filter fun f => f.line == line && f.column == column

end QuickFix

/-- The columns are a part, not empty, of a line of the text. -/
def Text.HasSpan (source : Text) (line column endColumn : Int) : Prop :=
  ∃ l, (lines source)[(line - 1).toNat]? = some l ∧
    1 ≤ line ∧ 1 ≤ column ∧ column < endColumn ∧ endColumn ≤ l.length + 1

namespace QuickFix

theorem notBefore_iff {f g : QuickFix} :
    f.notBefore g = true ↔ g.line < f.line ∨ g.line = f.line ∧ g.column ≤ f.column := by
  simp only [notBefore, Bool.or_eq_true, Bool.and_eq_true, decide_eq_true_eq, beq_iff_eq]
  omega

theorem descending_stableSort (given : List QuickFix) :
    Descending given (stableSort notBefore given) where
  perm := stableSort_perm notBefore given
  sorted := by
    refine (@pairwise_stableSort _ notBefore (fun a b h => ?_) (fun a b c h k => ?_)
      given).imp fun h => notBefore_iff.mp h
    · rw [← Bool.not_eq_true, notBefore_iff] at h
      rw [notBefore_iff]
      omega
    · rw [notBefore_iff] at *
      omega
  stable line column := by
    refine filter_stableSort (fun a b ha hb => ?_) given
    simp only [Bool.and_eq_true, beq_iff_eq] at ha hb
    rw [notBefore_iff]
    omega

/-! Taking fixes greedily. -/

theorem overlaps_iff {f g : QuickFix} : f.overlaps g = true ↔
    f.line = g.line ∧ f.column < g.endColumn ∧ g.column < f.endColumn := by
  simp only [overlaps, Bool.and_eq_true, beq_iff_eq, decide_eq_true_eq, and_assoc]

theorem overlaps_comm (f g : QuickFix) : f.overlaps g = g.overlaps f := by
  rw [Bool.eq_iff_iff, overlaps_iff, overlaps_iff]
  omega

theorem mem_takeOver {taken : List QuickFix} {f g : QuickFix} (h : g ∈ taken) :
    g ∈ takeOver taken f := by
  rw [takeOver]
  split
  · exact h
  · exact List.mem_append_left _ h

theorem mem_foldl_takeOver {taken fixes : List QuickFix} {g : QuickFix} (h : g ∈ taken) :
    g ∈ fixes.foldl takeOver taken := by
  induction fixes generalizing taken with
  | nil => exact h
  | cons f fixes ih => exact ih (mem_takeOver h)

theorem takeOver_apart {taken : List QuickFix} {f : QuickFix}
    (h : taken.Pairwise fun g k => g.overlaps k = false) :
    (takeOver taken f).Pairwise fun g k => g.overlaps k = false := by
  rw [takeOver]
  split
  · exact h
  · next hf =>
      refine List.pairwise_append.mpr ⟨h, List.pairwise_singleton _ f, fun g hg k hk => ?_⟩
      obtain rfl := List.mem_singleton.mp hk
      rw [overlaps_comm]
      exact Bool.eq_false_iff.mpr fun overlap => hf (List.any_eq_true.mpr ⟨g, hg, overlap⟩)

theorem foldl_takeOver_apart (fixes : List QuickFix) {taken : List QuickFix}
    (h : taken.Pairwise fun g k => g.overlaps k = false) :
    (fixes.foldl takeOver taken).Pairwise fun g k => g.overlaps k = false := by
  induction fixes generalizing taken with
  | nil => exact h
  | cons f fixes ih => exact ih (takeOver_apart h)

theorem greedy_apart (fixes : List QuickFix) :
    (greedy fixes).Pairwise fun f g => f.overlaps g = false := foldl_takeOver_apart fixes .nil

/-- A fix is left out for one that it overlaps. -/
theorem mem_or_overlaps {fixes : List QuickFix} {f : QuickFix} (h : f ∈ fixes)
    (taken : List QuickFix) : f ∈ fixes.foldl takeOver taken ∨
      ∃ g ∈ fixes.foldl takeOver taken, f.overlaps g = true := by
  induction fixes generalizing taken with
  | nil => cases h
  | cons k fixes ih =>
      rcases List.mem_cons.mp h with rfl | h
      · rw [List.foldl_cons]
        by_cases overlap : taken.any f.overlaps
        · obtain ⟨g, hg, overlap⟩ := List.any_eq_true.mp overlap
          exact .inr ⟨g, mem_foldl_takeOver (mem_takeOver hg), overlap⟩
        · rw [takeOver, if_neg overlap]
          exact .inl (mem_foldl_takeOver (List.mem_append_right _ (List.mem_singleton_self f)))
      · exact ih h _

/-- The last fix that was taken decides: those taken before it begin behind it or where
it does. -/
theorem any_overlaps_eq {taken : List QuickFix} {last f : QuickFix} (hl : last ∈ taken)
    (ht : ∀ g ∈ taken, g.notBefore last = true) (hf : last.notBefore f = true)
    (wide : last.column < last.endColumn) : taken.any f.overlaps = f.reachesInto last := by
  rw [notBefore_iff] at hf
  rw [Bool.eq_iff_iff, List.any_eq_true]
  simp only [reachesInto, Bool.and_eq_true, beq_iff_eq, decide_eq_true_eq]
  constructor
  · rintro ⟨g, hg, overlap⟩
    have back := notBefore_iff.mp (ht g hg)
    rw [overlaps_iff] at overlap
    omega
  · intro into
    refine ⟨last, hl, overlaps_iff.mpr ?_⟩
    omega

theorem foldl_takeOver_eq {fixes taken : List QuickFix} {last : QuickFix} (hl : last ∈ taken)
    (ht : ∀ g ∈ taken, g.notBefore last = true)
    (sorted : (last :: fixes).Pairwise fun f g => f.notBefore g = true)
    (wide : ∀ f ∈ last :: fixes, f.column < f.endColumn) :
    fixes.foldl takeOver taken = taken ++ select (some last) fixes := by
  induction fixes generalizing taken last with
  | nil => simp [select]
  | cons f fixes ih =>
      obtain ⟨first, rest⟩ := List.pairwise_cons.mp sorted
      rw [List.forall_mem_cons] at wide first
      have decided := any_overlaps_eq hl ht first.1 wide.1
      rw [List.foldl_cons, takeOver, decided, select]
      split
      · refine ih hl ht (.cons first.2 (List.pairwise_cons.mp rest).2) ?_
        exact List.forall_mem_cons.mpr ⟨wide.1, (List.forall_mem_cons.mp wide.2).2⟩
      · rw [ih (List.mem_append_right _ (List.mem_singleton_self f)) ?_ rest wide.2,
          List.append_assoc]
        · rfl
        · intro g hg
          rw [List.mem_append, List.mem_singleton] at hg
          have back := notBefore_iff.mp first.1
          rw [notBefore_iff]
          rcases hg with hg | rfl
          · have earlier := notBefore_iff.mp (ht g hg)
            omega
          · omega

theorem select_eq_greedy {fixes : List QuickFix}
    (sorted : fixes.Pairwise fun f g => f.notBefore g = true)
    (wide : ∀ f ∈ fixes, f.column < f.endColumn) : select none fixes = greedy fixes := by
  cases fixes with
  | nil => rfl
  | cons f fixes =>
      have started : takeOver [] f = [f] := rfl
      rw [greedy, List.foldl_cons, started,
        foldl_takeOver_eq (List.mem_singleton_self f) ?_ sorted wide]
      · rfl
      · intro g hg
        rw [List.mem_singleton.mp hg, notBefore_iff]
        omega

/-! One fix in a text. -/

/-- The fix replaces `b`, which stands behind `a`. -/
structure Spans (f : QuickFix) (a b : Text) : Prop where
  start : Place.start.behind a = ⟨f.line, f.column⟩
  stop : f.endColumn = f.column + b.length
  clean : '\n' ∉ b
  wide : b ≠ []

end QuickFix

theorem Text.unlines_append (before : List Text) (x y : Text) (after : List Text) :
    unlines (before ++ [x]) ++ unlines (y :: after) = unlines (before ++ (x ++ y) :: after) := by
  induction before with
  | nil =>
      cases after with
      | nil => rfl
      | cons z after => simp [unlines]
  | cons l before ih =>
      rw [List.cons_append, unlines_cons l (by simp), List.cons_append, unlines_cons l (by simp),
        ← ih, List.append_assoc, List.cons_append]

/-- Every text ends with its last line. -/
theorem Text.exists_unlines_concat (t : Text) :
    ∃ before x, t = unlines (before ++ [x]) ∧ ∀ l ∈ before ++ [x], '\n' ∉ l := by
  obtain ⟨before, x, h⟩ := (List.eq_nil_or_concat' (lines t)).resolve_left (lines_ne_nil t)
  refine ⟨before, x, by rw [← h, unlines_lines], fun l hl => ?_⟩
  exact not_newline_of_mem_lines (h ▸ hl)

namespace QuickFix

variable {f : QuickFix} {fixes : List QuickFix} {a b : Text}

theorem apply_of_spans (h : f.Spans a b) (c : Text) :
    f.apply (a ++ b ++ c) = a ++ f.newText ++ c := by
  obtain ⟨before, x, rfl, cleanFront⟩ := Text.exists_unlines_concat a
  obtain ⟨y, after, hc⟩ := List.exists_cons_of_ne_nil (Text.lines_ne_nil c)
  have cleanBack : ∀ l ∈ y :: after, '\n' ∉ l := fun l hl =>
    Text.not_newline_of_mem_lines (hc ▸ hl)
  obtain rfl : c = Text.unlines (y :: after) := by rw [← hc, Text.unlines_lines]
  have place := h.start
  rw [Place.behind_unlines cleanFront _ rfl, Place.mk.injEq] at place
  have spliced (t : Text) : Text.unlines (before ++ [x]) ++ t ++ Text.unlines (y :: after) =
      Text.unlines (before ++ (x ++ t ++ y) :: after) := by
    rw [← Text.unlines_append, ← Text.unlines_append before x t []]
    rfl
  have clean : ∀ l ∈ before ++ (x ++ b ++ y) :: after, '\n' ∉ l := by
    rw [List.forall_mem_append, List.forall_mem_singleton] at cleanFront
    rw [List.forall_mem_cons] at cleanBack
    rw [List.forall_mem_append, List.forall_mem_cons, List.mem_append, List.mem_append, not_or,
      not_or]
    exact ⟨cleanFront.1, ⟨⟨cleanFront.2, h.clean⟩, cleanBack.1⟩, cleanBack.2⟩
  have start : f.column = x.length + 1 := place.2.symm
  have stop : f.endColumn = (x ++ b).length + 1 := by
    rw [h.stop, List.length_append]
    omega
  rw [spliced, apply_on_line ?_ clean, replaceInLine_of_columns start stop, ← spliced]
  have row : (1 : Int) + before.length = f.line := place.1
  omega

theorem exists_spans {source : Text} (h : source.HasSpan f.line f.column f.endColumn) :
    ∃ a b c, source = a ++ b ++ c ∧ f.Spans a b := by
  obtain ⟨l, hl, row, start, wide, stop⟩ := h
  obtain ⟨inside, hl⟩ := List.getElem?_eq_some_iff.mp hl
  obtain ⟨before, after, split, passed⟩ : ∃ before after,
      Text.lines source = before ++ l :: after ∧ before.length = (f.line - 1).toNat :=
    ⟨_, _, by rw [← hl, ← List.drop_eq_getElem_cons, List.take_append_drop],
      List.length_take_of_le (Nat.le_of_lt inside)⟩
  obtain ⟨x, b, y, rfl, hx, hb⟩ : ∃ x b y, l = x ++ b ++ y ∧
      x.length = (f.column - 1).toNat ∧ b.length = (f.endColumn - f.column).toNat :=
    ⟨l.take (f.column - 1).toNat,
      (l.drop (f.column - 1).toNat).take (f.endColumn - f.column).toNat, _,
      by rw [List.append_assoc, List.take_append_drop, List.take_append_drop],
      by rw [List.length_take]; omega, by rw [List.length_take, List.length_drop]; omega⟩
  have clean : ∀ k ∈ before ++ (x ++ b ++ y) :: after, '\n' ∉ k := fun k hk =>
    Text.not_newline_of_mem_lines (split ▸ hk)
  rw [List.forall_mem_append, List.forall_mem_cons, List.mem_append, List.mem_append, not_or,
    not_or] at clean
  refine ⟨Text.unlines (before ++ [x]), b, Text.unlines (y :: after), ?_, ?_, ?_, clean.2.1.1.2,
    List.ne_nil_of_length_pos (by omega)⟩
  · rw [← Text.unlines_lines source, split, ← Text.unlines_append,
      ← Text.unlines_append before x b []]
    rfl
  · rw [Place.behind_unlines ?_ _ rfl, Place.mk.injEq, Place.start]
    · simp only
      omega
    · rw [List.forall_mem_append, List.forall_mem_singleton]
      exact ⟨clean.1, clean.2.1.1.1⟩
  · omega

/-! Replacing at once, from the end of the text. -/

def EndsBefore (f g : QuickFix) : Prop :=
  f.line < g.line ∨ f.line = g.line ∧ f.endColumn ≤ g.column

theorem covers_iff {p : Place} : f.covers p = true ↔
    p.line = f.line ∧ f.column ≤ p.column ∧ p.column < f.endColumn := by
  simp only [covers, Bool.and_eq_true, beq_iff_eq, decide_eq_true_eq, and_assoc]

theorem flatMap_standIn_of_uncovered {p : Place} {t : Text}
    (h : ∀ x ∈ located p t, ∀ f ∈ fixes, f.covers x.1 = false) :
    (located p t).flatMap (standIn fixes) = t := by
  have same : ∀ x ∈ located p t, standIn fixes x = [x.2] := by
    intro x hx
    have none : fixes.find? (fun f => f.covers x.1) = none :=
      List.find?_eq_none.mpr fun f hf => by simp [h x hx f hf]
    rw [standIn, none]
  rw [List.flatMap_congr same, ← List.map_eq_flatMap, map_snd_located]

theorem standIn_concat {x : Place × Char} (h : f.covers x.1 = false) :
    standIn (fixes ++ [f]) x = standIn fixes x := by
  rw [standIn, standIn, List.find?_append, List.find?_singleton, h]
  simp

/-- The places of what a fix replaces. -/
theorem of_mem_span (h : f.Spans a b) {x : Place × Char}
    (hx : x ∈ located (Place.start.behind a) b) :
    x.1.line = f.line ∧ f.column ≤ x.1.column ∧ x.1.column < f.endColumn := by
  obtain ⟨front, back⟩ := of_mem_located hx
  rw [Place.behind_of_not_newline h.clean, h.start, ← h.stop] at back
  rw [h.start] at front
  simp only [Place.upTo, Place.next] at front back
  split at back <;> simp only at back <;> omega

theorem flatMap_standIn_span (h : f.Spans a b)
    (away : ∀ x ∈ located (Place.start.behind a) b, ∀ g ∈ fixes, g.covers x.1 = false) :
    (located (Place.start.behind a) b).flatMap (standIn (fixes ++ [f])) = f.newText := by
  have stands : ∀ x ∈ located (Place.start.behind a) b, standIn (fixes ++ [f]) x =
      if f.column = x.1.column then f.newText else [] := by
    intro x hx
    have found : (fixes ++ [f]).find? (fun g => g.covers x.1) = some f := by
      rw [List.find?_append, List.find?_eq_none.mpr fun g hg => by simp [away x hx g hg],
        List.find?_singleton, covers_iff.mpr (of_mem_span h hx)]
      rfl
    rw [standIn, found]
  rw [List.flatMap_congr stands]
  cases b with
  | nil => exact absurd rfl h.wide
  | cons c r =>
      rw [located, h.start, List.flatMap_cons, if_pos rfl]
      refine List.append_right_eq_self.mpr (List.flatMap_eq_nil_iff.mpr fun x hx => ?_)
      have next : (Place.mk f.line f.column).next c = ⟨f.line, f.column + 1⟩ :=
        if_neg fun hc : c = '\n' => h.clean (hc ▸ List.mem_cons_self ..)
      have front := (of_mem_located hx).1
      have inside := of_mem_span h (x := x) (h.start ▸ List.mem_cons_of_mem _ hx)
      rw [next] at front
      refine if_neg fun same => ?_
      simp only [Place.upTo] at front
      omega

/-- The text behind a fix and what the others make of it. -/
theorem replaceAll_of_spans (h : f.Spans a b) (behind : ∀ g ∈ fixes, f.EndsBefore g) (c : Text) :
    ∃ d, replaceAll fixes (a ++ b ++ c) = a ++ b ++ d ∧
      replaceAll (fixes ++ [f]) (a ++ b ++ c) = a ++ f.newText ++ d := by
  have inFront : ∀ x ∈ located .start a, ∀ g ∈ fixes ++ [f], g.covers x.1 = false := by
    intro x hx g hg
    have back := (of_mem_located hx).2
    have wide := List.length_pos_iff.mpr h.wide
    have stop := h.stop
    have later : f.line < g.line ∨ f.line = g.line ∧ f.column ≤ g.column := by
      rw [List.mem_append, List.mem_singleton] at hg
      rcases hg with hg | rfl
      · have apart := behind g hg
        rw [EndsBefore] at apart
        omega
      · exact .inr ⟨rfl, Int.le_refl _⟩
    rw [← Bool.not_eq_true, covers_iff]
    simp only [Place.next, Place.upTo, h.start] at back
    split at back <;> simp only at back <;> omega
  have inSpan : ∀ x ∈ located (Place.start.behind a) b, ∀ g ∈ fixes, g.covers x.1 = false := by
    intro x hx g hg
    have inside := of_mem_span h hx
    have apart := behind g hg
    rw [EndsBefore] at apart
    rw [← Bool.not_eq_true, covers_iff]
    omega
  have passed : ∀ x ∈ located (Place.start.behind (a ++ b)) c, f.covers x.1 = false := by
    intro x hx
    have front := (of_mem_located hx).1
    rw [Place.behind_append, h.start, Place.behind_of_not_newline h.clean, ← h.stop] at front
    rw [← Bool.not_eq_true, covers_iff]
    simp only [Place.upTo] at front
    omega
  refine ⟨(located (Place.start.behind (a ++ b)) c).flatMap (standIn fixes), ?_, ?_⟩
  · rw [replaceAll, located_append, located_append, List.flatMap_append, List.flatMap_append,
      flatMap_standIn_of_uncovered inSpan, flatMap_standIn_of_uncovered fun x hx g hg =>
        inFront x hx g (List.mem_append_left _ hg)]
  · rw [replaceAll, located_append, located_append, List.flatMap_append, List.flatMap_append,
      flatMap_standIn_span h inSpan, flatMap_standIn_of_uncovered inFront,
      List.flatMap_congr fun x hx => standIn_concat (passed x hx)]

/-- Fixes that follow one another from the end of the text act at once. -/
theorem applyAll_eq_replaceAll {source : Text}
    (inside : ∀ f ∈ fixes, source.HasSpan f.line f.column f.endColumn)
    (apart : fixes.Pairwise fun g f => f.EndsBefore g) :
    applyAll source fixes = replaceAll fixes source := by
  induction fixes using List.reverseRecOn with
  | nil => exact (flatMap_standIn_of_uncovered (fun _ _ _ hf => absurd hf List.not_mem_nil)).symm
  | append_singleton fixes f ih =>
      rw [List.forall_mem_append, List.forall_mem_singleton] at inside
      obtain ⟨apart, -, behind⟩ := List.pairwise_append.mp apart
      obtain ⟨a, b, c, rfl, spans⟩ := exists_spans inside.2
      obtain ⟨d, others, all⟩ := replaceAll_of_spans spans
        (fun g hg => behind g hg f (List.mem_singleton_self f)) c
      rw [applyAll_append, ih inside.1 apart, others, all]
      exact apply_of_spans spans d

/-- What no fix covers stays, in its order. -/
theorem uncovered_sublist (fixes : List QuickFix) (source : Text) :
    (uncovered fixes source).Sublist (replaceAll fixes source) := by
  rw [uncovered, replaceAll]
  induction located .start source with
  | nil => exact .refl _
  | cons x rest ih =>
      rw [List.flatMap_cons, List.filter_cons]
      split
      · next free =>
          have none : fixes.find? (fun f => f.covers x.1) = none := by
            simpa using free
          rw [standIn, none]
          exact ih.cons_cons x.2
      · exact ih.trans (List.sublist_append_right _ _)

theorem foldl_takeOver_sublist (fixes taken : List QuickFix) :
    (fixes.foldl takeOver taken).Sublist (taken ++ fixes) := by
  induction fixes generalizing taken with
  | nil => rw [List.append_nil]; exact .refl taken
  | cons f fixes ih =>
      have step : (takeOver taken f).Sublist (taken ++ [f]) := by
        rw [takeOver]
        split
        · exact List.sublist_append_left taken [f]
        · exact .refl _
      rw [List.append_cons]
      exact (ih (takeOver taken f)).trans (step.append_right fixes)

/-- Fixes taken from the end of the text follow one another. -/
theorem greedy_endsBefore {fixes : List QuickFix}
    (sorted : fixes.Pairwise fun f g => f.notBefore g = true)
    (wide : ∀ f ∈ fixes, f.column < f.endColumn) :
    (greedy fixes).Pairwise fun g f => f.EndsBefore g := by
  have kept : (greedy fixes).Sublist fixes := foldl_takeOver_sublist fixes []
  refine ((greedy_apart fixes).and (sorted.sublist kept)).imp_of_mem fun {g f} hg hf h => ?_
  have wideg := wide g (kept.subset hg)
  have widef := wide f (kept.subset hf)
  have back := notBefore_iff.mp h.2
  have apart := Bool.eq_false_iff.mp h.1
  rw [ne_eq, overlaps_iff] at apart
  rw [EndsBefore]
  omega

end QuickFix

theorem Diagnostic.hasSpan_of_autoFix? {source : Text} {d : Diagnostic} {f : QuickFix}
    (h : d.autoFix? = some f) (inside : source.HasSpan d.line d.column d.endColumn) :
    source.HasSpan f.line f.column f.endColumn := by
  rw [autoFix?] at h
  split at h
  · obtain ⟨n, -, rfl⟩ := List.mem_map.mp (List.mem_of_head? h)
    exact inside
  · cases h

open QuickFix

/-- Fixing unattended replaces, at once, the spans of fixes taken greedily from the end of
the text. The rest of the text stays, and a fix that is left out overlaps one of those. -/
theorem fixAll_simultaneous {source : Text} {found : List Diagnostic}
    (inside : ∀ d ∈ found, source.HasSpan d.line d.column d.endColumn) :
    ∃ order, Descending (found.filterMap (·.autoFix?)) order ∧
      fixAll source found = replaceAll (greedy order) source ∧
      (greedy order).Pairwise (fun f g => f.overlaps g = false) ∧
      (uncovered (greedy order) source).Sublist (fixAll source found) ∧
      ∀ f ∈ order, f ∈ greedy order ∨ ∃ g ∈ greedy order, f.overlaps g = true := by
  have order := descending_stableSort (found.filterMap (·.autoFix?))
  have sorted : (stableSort notBefore (found.filterMap (·.autoFix?))).Pairwise
      fun f g => f.notBefore g = true := order.sorted.imp notBefore_iff.mpr
  have within : ∀ f ∈ stableSort notBefore (found.filterMap (·.autoFix?)),
      source.HasSpan f.line f.column f.endColumn := by
    intro f hf
    obtain ⟨d, hd, fix⟩ := List.mem_filterMap.mp (order.perm.mem_iff.mp hf)
    exact Diagnostic.hasSpan_of_autoFix? fix (inside d hd)
  have wide : ∀ f ∈ stableSort notBefore (found.filterMap (·.autoFix?)),
      f.column < f.endColumn := fun f hf => by
    obtain ⟨_, _, _, _, wide, _⟩ := within f hf
    exact wide
  have replaced : fixAll source found =
      replaceAll (greedy (stableSort notBefore (found.filterMap (·.autoFix?)))) source := by
    rw [fixAll, chosen, select_eq_greedy sorted wide]
    exact applyAll_eq_replaceAll (fun f hf => within f ((foldl_takeOver_sublist _ []).subset hf))
      (greedy_endsBefore sorted wide)
  refine ⟨_, order, replaced, greedy_apart _, ?_, fun f hf => mem_or_overlaps hf []⟩
  rw [replaced]
  exact uncovered_sublist _ source

/-- A deprecated name on the first line. -/
def deprecatedAt (column endColumn : Int) (newText : String) : Diagnostic where
  line := 1
  column := column
  endLine := 1
  endColumn := endColumn
  message := ""
  severity := .info
  rule := "no-deprecated-functions"
  source := []
  suggestions := some [newText.toList]

/-- Of two fixes that overlap the one that begins later is kept. -/
theorem fixAll_overlapping :
    let source : Text := "abcdefghij".toList
    let found := [deprecatedAt 1 6 "first", deprecatedAt 3 8 "second"]
    fixAll source found = "absecondhij".toList ∧
      (∀ d ∈ found, source.HasSpan d.line d.column d.endColumn) ∧
      ∃ order, Descending (found.filterMap (·.autoFix?)) order ∧
        fixAll source found = replaceAll (greedy order) source ∧
        (greedy order).Pairwise (fun f g => f.overlaps g = false) ∧
        (uncovered (greedy order) source).Sublist (fixAll source found) ∧
        ∀ f ∈ order, f ∈ greedy order ∨ ∃ g ∈ greedy order, f.overlaps g = true := by
  intro source found
  have inside : ∀ d ∈ found, source.HasSpan d.line d.column d.endColumn := by
    intro d hd
    rcases List.mem_pair.mp hd with rfl | rfl
    · exact ⟨source, rfl, by decide⟩
    · exact ⟨source, rfl, by decide⟩
  exact ⟨by decide +kernel, inside, fixAll_simultaneous inside⟩

end MotionExpr
