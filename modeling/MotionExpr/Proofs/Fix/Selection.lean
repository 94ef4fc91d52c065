import MotionExpr.Proofs.Token.Order
import MotionExpr.Fix.Unattended

/-!
Which fixes are chosen where every fix replaces a token. The fixes come rule by
rule, each rule along the tokens. Sorting brings those of one token together, in
the order of the rules, and of these the first is kept: it goes from the last
token to the first.
-/

namespace MotionExpr

section Sorting

variable {α : Type} {le : α → α → Bool}

theorem insertSorted_append {x : α} {ys : List α} (h : ∀ y ∈ ys, le x y = true) (xs : List α) :
    insertSorted le x (xs ++ ys) = insertSorted le x xs ++ ys := by
  induction xs with
  | nil =>
      cases ys with
      | nil => rfl
      | cons y ys => simp [insertSorted, h]
  | cons z zs ih =>
      rw [List.cons_append, insertSorted, insertSorted]
      split
      · rfl
      · rw [ih, List.cons_append]

theorem insertSorted_of_behind {x : α} {xs : List α} (h : ∀ z ∈ xs, le x z = false) :
    insertSorted le x xs = xs ++ [x] := by
  induction xs with
  | nil => rfl
  | cons z zs ih =>
      rw [List.forall_mem_cons] at h
      rw [insertSorted, h.1, ih h.2]
      rfl

theorem foldr_insertSorted_append {new ys : List α} (h : ∀ x ∈ new, ∀ y ∈ ys, le x y = true)
    (xs : List α) :
    new.foldr (insertSorted le) (xs ++ ys) = new.foldr (insertSorted le) xs ++ ys := by
  induction new with
  | nil => rfl
  | cons x new ih =>
      rw [List.forall_mem_cons] at h
      rw [List.foldr_cons, List.foldr_cons, ih h.2, insertSorted_append h.1]

theorem stableSort_append (xs ys : List α) :
    stableSort le (xs ++ ys) = xs.foldr (insertSorted le) (stableSort le ys) := by
  induction xs with
  | nil => rfl
  | cons x xs ih => rw [List.cons_append, stableSort, ih, List.foldr_cons]

/-- Elements that go with places: those of earlier places stand behind those of later
ones, and each place keeps the order in which its elements come. -/
theorem foldr_insertSorted_places {β : Type} {before : β → β → Prop} {places : List β}
    (ordered : places.Pairwise before) {g : β → List α} {new : β → Option α}
    (later : ∀ a b, before a b → ∀ x ∈ new b, ∀ y ∈ g a, le x y = true)
    (earlier : ∀ a b, before a b → ∀ x ∈ new a, ∀ y, y ∈ new b ∨ y ∈ g b → le x y = false)
    (same : ∀ a, ∀ x ∈ new a, ∀ y ∈ g a, le x y = true) :
    (places.filterMap new).foldr (insertSorted le) (places.reverse.flatMap g) =
      places.reverse.flatMap fun a => (new a).toList ++ g a := by
  induction places with
  | nil => rfl
  | cons a rest ih =>
      obtain ⟨first, ordered⟩ := List.pairwise_cons.mp ordered
      have behind : ∀ x ∈ rest.filterMap new, ∀ y ∈ g a, le x y = true := by
        intro x hx y hy
        obtain ⟨b, hb, hxb⟩ := List.mem_filterMap.mp hx
        exact later a b (first b hb) x hxb y hy
      have sorted : (rest.filterMap new).foldr (insertSorted le) (rest.reverse.flatMap g ++ g a) =
          (rest.reverse.flatMap fun a => (new a).toList ++ g a) ++ g a := by
        rw [foldr_insertSorted_append behind, ih ordered]
      simp only [List.reverse_cons, List.flatMap_append, List.flatMap_singleton]
      cases hx : new a with
      | none =>
          rw [List.filterMap_cons_none hx, sorted]
          rfl
      | some x =>
          have passed :
              ∀ y ∈ rest.reverse.flatMap fun a => (new a).toList ++ g a, le x y = false := by
            intro y hy
            obtain ⟨b, hb, hyb⟩ := List.mem_flatMap.mp hy
            rw [List.mem_append, Option.mem_toList] at hyb
            exact earlier a b (first b (List.mem_reverse.mp hb)) x hx y hyb
          rw [List.filterMap_cons_some hx, List.foldr_cons, sorted,
            insertSorted_append (same a x hx), insertSorted_of_behind passed]
          simp

end Sorting

open Token

/-- The fix that puts a text in the place of a token. -/
def fixAt (t : Token) (text : Text) : QuickFix where
  title := "Replace with '" ++ String.ofList text ++ "'"
  line := t.line
  column := t.column
  endLine := t.line
  endColumn := t.endColumn
  newText := text

@[simp] theorem fixAt_line (t : Token) (n : Text) : (fixAt t n).line = t.line := rfl

@[simp] theorem fixAt_column (t : Token) (n : Text) : (fixAt t n).column = t.column := rfl

@[simp] theorem fixAt_endColumn (t : Token) (n : Text) : (fixAt t n).endColumn = t.endColumn := rfl

/-- The texts that some rules have for a token, in their order. -/
def offered (rules : List (Token → Option Text)) (t : Token) : List Text :=
  rules.filterMap fun rule => rule t

namespace QuickFix

theorem notBefore_of_before {a b : Token} (h : Before a b) (m n : Text) :
    notBefore (fixAt b m) (fixAt a n) = true := by
  simp only [notBefore, Bool.or_eq_true, Bool.and_eq_true, decide_eq_true_eq, beq_iff_eq]
  cases h with
  | inl h => exact .inl h
  | inr h => exact .inr ⟨h.1.symm, Int.le_of_lt h.2.1⟩

theorem not_notBefore_of_before {a b : Token} (h : Before a b) (m n : Text) :
    notBefore (fixAt a n) (fixAt b m) = false := by
  rw [← Bool.not_eq_true]
  simp only [notBefore, Bool.or_eq_true, Bool.and_eq_true, decide_eq_true_eq, beq_iff_eq]
  intro back
  simp only [fixAt_line, fixAt_column] at back
  cases h with
  | inl h => omega
  | inr h => omega

theorem notBefore_same (t : Token) (m n : Text) : notBefore (fixAt t m) (fixAt t n) = true := by
  simp only [notBefore, Bool.or_eq_true, Bool.and_eq_true, decide_eq_true_eq, beq_iff_eq]
  exact .inr ⟨rfl, Int.le_refl _⟩

/-- Sorting the fixes of some rules along ordered tokens. -/
theorem stableSort_fixes {tokens : List Token} (ordered : tokens.Pairwise Before)
    (rules : List (Token → Option Text)) :
    stableSort notBefore (rules.flatMap fun rule =>
        tokens.filterMap fun t => (rule t).map (fixAt t)) =
      tokens.reverse.flatMap fun t => (offered rules t).map (fixAt t) := by
  induction rules with
  | nil => simp [offered, stableSort]
  | cons rule rules ih =>
      rw [List.flatMap_cons, stableSort_append, ih, foldr_insertSorted_places ordered]
      · congr 1
        funext t
        cases h : rule t <;> simp [offered, h]
      · intro a b h x hx y hy
        obtain ⟨m, -, rfl⟩ := Option.map_eq_some_iff.mp hx
        obtain ⟨n, -, rfl⟩ := List.mem_map.mp hy
        exact notBefore_of_before h m n
      · intro a b h x hx y hy
        obtain ⟨n, -, rfl⟩ := Option.map_eq_some_iff.mp hx
        cases hy with
        | inl hy =>
            obtain ⟨m, -, rfl⟩ := Option.map_eq_some_iff.mp hy
            exact not_notBefore_of_before h m n
        | inr hy =>
            obtain ⟨m, -, rfl⟩ := List.mem_map.mp hy
            exact not_notBefore_of_before h m n
      · intro a x hx y hy
        obtain ⟨m, -, rfl⟩ := Option.map_eq_some_iff.mp hx
        obtain ⟨n, -, rfl⟩ := List.mem_map.mp hy
        exact notBefore_same a m n

theorem select_of_reachesInto {last : QuickFix} {fixes : List QuickFix}
    (h : ∀ f ∈ fixes, f.reachesInto last = true) (rest : List QuickFix) :
    select (some last) (fixes ++ rest) = select (some last) rest := by
  induction fixes with
  | nil => rfl
  | cons f fixes ih =>
      rw [List.forall_mem_cons] at h
      rw [List.cons_append, select, if_pos h.1, ih h.2]

theorem select_of_not_reachesInto {last : Option QuickFix} {f : QuickFix}
    (h : ∀ l ∈ last, f.reachesInto l = false) (rest : List QuickFix) :
    select last (f :: rest) = f :: select (some f) rest := by
  cases last with
  | none => rfl
  | some l => simp [select, h l rfl]

/-- Of the fixes of a token the first one is kept. -/
theorem select_fixes {tokens : List Token} (ordered : tokens.Pairwise fun a b => Before b a)
    (nonempty : ∀ t ∈ tokens, t.text ≠ []) (texts : Token → List Text) {last : Option QuickFix}
    (hlast : ∀ l ∈ last, ∀ t ∈ tokens, ∀ n, (fixAt t n).reachesInto l = false) :
    select last (tokens.flatMap fun t => (texts t).map (fixAt t)) =
      tokens.filterMap fun t => (texts t).head?.map (fixAt t) := by
  induction tokens generalizing last with
  | nil => cases last <;> rfl
  | cons t ts ih =>
      obtain ⟨first, ordered⟩ := List.pairwise_cons.mp ordered
      rw [List.forall_mem_cons] at nonempty
      rw [List.flatMap_cons]
      cases h : texts t with
      | nil =>
          rw [List.filterMap_cons_none (by simp [h]), List.map_nil, List.nil_append]
          exact ih ordered nonempty.2 fun l hl u hu => hlast l hl u (List.mem_cons_of_mem _ hu)
      | cons n ns =>
          have fits : ∀ l ∈ last, (fixAt t n).reachesInto l = false :=
            fun l hl => hlast l hl t (List.mem_cons_self ..) n
          have dropped : ∀ f ∈ ns.map (fixAt t), f.reachesInto (fixAt t n) = true := by
            intro f hf
            obtain ⟨m, -, rfl⟩ := List.mem_map.mp hf
            simp only [reachesInto, Bool.and_eq_true, beq_iff_eq, decide_eq_true_eq]
            exact ⟨rfl, column_lt_endColumn nonempty.1⟩
          have apart :
              ∀ l ∈ some (fixAt t n), ∀ u ∈ ts, ∀ m, (fixAt u m).reachesInto l = false := by
            intro l hl u hu m
            cases hl
            rw [← Bool.not_eq_true]
            simp only [reachesInto, Bool.and_eq_true, beq_iff_eq, decide_eq_true_eq]
            intro back
            simp only [fixAt_line, fixAt_column, fixAt_endColumn] at back
            cases first u hu with
            | inl h => omega
            | inr h => omega
          rw [List.filterMap_cons_some (by rw [h]; rfl), List.map_cons, List.cons_append,
            select_of_not_reachesInto fits, select_of_reachesInto dropped,
            ih ordered nonempty.2 apart]

/-- The first rule that has a text for a token provides its fix. -/
def chosenText (rules : List (Token → Option Text)) (t : Token) : Option Text :=
  (offered rules t).head?

theorem chosen_fixes {found : List Diagnostic} {tokens : List Token}
    (ordered : tokens.Pairwise Before) (nonempty : ∀ t ∈ tokens, t.text ≠ [])
    {rules : List (Token → Option Text)}
    (h : found.filterMap (·.autoFix?) =
      rules.flatMap fun rule => tokens.filterMap fun t => (rule t).map (fixAt t)) :
    chosen found = tokens.reverse.filterMap fun t => (chosenText rules t).map (fixAt t) := by
  rw [chosen, h, stableSort_fixes ordered]
  apply select_fixes (List.pairwise_reverse.mpr ordered)
  · exact fun t ht => nonempty t (List.mem_reverse.mp ht)
  · simp

end QuickFix
end MotionExpr
