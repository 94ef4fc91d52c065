import MotionExpr.Proofs.Token.Boundary
import MotionExpr.Proofs.Token.Order

/-!
A line cut in two. Where the cut falls between tokens, the parts have the tokens of
the line; where it falls within one, they do not. Blanks at the end of a part may
be dropped: only a comment and a string that is not closed can end in one, and
these run to the end of their line.
-/

namespace MotionExpr
namespace Token

variable {p : Profile}

/-! Blanks at the end. -/

theorem getLast?_stringRest {quote : Char} {escaped : Bool} {w r : Text}
    (h : stringRest quote escaped (w ++ r) = w) (hr : r ≠ []) : w.getLast? = some quote := by
  induction w generalizing escaped with
  | nil => exact absurd ((stringRest_eq_nil_iff quote escaped r).mp h) hr
  | cons c w ih =>
      cases escaped with
      | true =>
          have rest := (List.cons_eq_cons.mp h).2
          rw [List.getLast?_cons, ih rest]
          rfl
      | false =>
          rw [List.cons_append, stringRest] at h
          split at h
          · next hc =>
              obtain ⟨-, rfl⟩ := List.cons_eq_cons.mp h
              rw [hc]
              rfl
          · have rest := (List.cons_eq_cons.mp h).2
            rw [List.getLast?_cons, ih rest]
            rfl

/-- A token that ends in a blank ends its line. -/
theorem trimEnd_of_lexeme? {c : Char} {kind : TokenKind} {w r : Text}
    (h : lexeme? p c (w ++ r) = some (kind, c :: w)) (hr : r ≠ []) :
    Text.trimEnd (c :: w) = c :: w := by
  have shows (hw : ∀ d ∈ w, Text.isBlank d = false) : Text.trimEnd (c :: w) = c :: w := by
    refine Text.dropEndWhile_eq_self (List.forall_mem_cons.mpr ⟨?_, hw⟩)
    rw [← Bool.not_eq_true]
    intro blank
    rw [lexeme?_eq_none_iff.mpr blank] at h
    cases h
  have taken {q : Char → Bool} (hq : ∀ d, Text.isBlank d = true → q d = false)
      (read : w = (w ++ r).takeWhile q) : ∀ d ∈ w, Text.isBlank d = false := by
    intro d hd
    rw [← Bool.not_eq_true]
    intro blank
    have inside := ((takeWhile_append_eq_iff w r).mp read.symm).1 d hd
    rw [hq d blank] at inside
    cases inside
  have shape := lexeme?_eq_some_iff.mp h
  generalize ht : c :: w = text at shape
  rw [← ht]
  cases shape with
  | comment _ =>
      have whole := (List.cons_eq_cons.mp ht).2
      exact absurd (List.self_eq_append_right.mp whole) hr
  | string hc =>
      have last := getLast?_stringRest (List.cons_eq_cons.mp ht).2.symm hr
      refine Text.dropEndWhile_of_getLast? ?_
      rw [List.getLast?_cons, last]
      exact (plain_of_isQuote hc).1
  | number _ =>
      exact shows (taken (fun _ => not_continuesNumber_of_isBlank) (List.cons_eq_cons.mp ht).2)
  | word _ =>
      exact shows (taken (fun _ => not_continuesWord_of_isBlank) (List.cons_eq_cons.mp ht).2)
  | operator _ _ hop =>
      have member := List.mem_of_find?_eq_some hop
      rw [← ht] at member
      exact shows fun d hd => shows_of_mem_pairOperators member d (List.mem_cons_of_mem c hd)
  | punctuation _ _ _ =>
      obtain ⟨-, rfl⟩ := List.cons_eq_cons.mp ht
      exact shows (List.forall_mem_nil _)

theorem trimEnd_token {c : Char} {kind : TokenKind} {w r : Text}
    (h : lexeme? p c (w ++ r) = some (kind, c :: w)) (hr : r ≠ []) (s : Text) :
    Text.trimEnd (c :: (w ++ s)) = c :: (w ++ Text.trimEnd s) := by
  rw [← List.cons_append, Text.trimEnd_append]
  split
  · next hs => rw [trimEnd_of_lexeme? h hr, hs, List.append_nil]
  · rfl

theorem ends_trimEnd {r s : Text} (h : Ends r s) : Ends r (Text.trimEnd s) :=
  ⟨fun hr => by rw [h.1 hr]; rfl, fun d hd => h.2 d (Text.head?_of_trimEnd hd)⟩

theorem lexemes_trimEnd_blank {c : Char} (hc : Text.isBlank c = true) (r : Text) :
    lexemes p (Text.trimEnd (c :: r)) = lexemes p (Text.trimEnd r) := by
  rw [Text.trimEnd_blank hc]
  split
  · next hr => rw [hr]
  · exact lexemes_of_none (lexeme?_eq_none_iff.mpr hc)

theorem lexemes_trimEnd_token {c : Char} {kind : TokenKind} {w r s : Text}
    (h : lexeme? p c (w ++ r) = some (kind, c :: w)) (hr : r ≠ []) (ends : Ends r s) :
    lexemes p (Text.trimEnd (c :: (w ++ s))) =
      ⟨kind, c :: w, Text.trimEnd s⟩ :: lexemes p (Text.trimEnd s) := by
  rw [trimEnd_token h hr]
  exact lexemes_of_some (lexeme?_of_ends h (ends_trimEnd ends)) rfl

theorem length_le_of_mem_spell {l : Text} {x : TokenKind × Text} (h : x ∈ spell (lexemes p l)) :
    x.2.length ≤ l.length := by
  induction l using scan_induction p with
  | nil => cases h
  | blank c r hc ih =>
      rw [lexemes_of_none hc] at h
      exact Nat.le_succ_of_le (ih h)
  | token c kind w behind hc ih =>
      rw [lexemes_of_some hc rfl, spell_cons] at h
      rw [← List.cons_append, List.length_append]
      cases List.mem_cons.mp h with
      | inl here => exact here ▸ Nat.le_add_right ..
      | inr there => exact Nat.le_trans (ih there) (Nat.le_add_left ..)

theorem spell_ne_nil {c : Char} (hc : Text.isBlank c = false) (r : Text) :
    spell (lexemes p (c :: r)) ≠ [] := by
  cases h : lexeme? p c r with
  | none =>
      rw [lexeme?_eq_none_iff.mp h] at hc
      cases hc
  | some found =>
      obtain ⟨kind, text⟩ := found
      obtain ⟨w, behind, rfl, rfl⟩ := lexeme?_append h
      rw [lexemes_of_some h rfl, spell_cons]
      exact List.cons_ne_nil _ _

theorem ends_self (r : Text) : Ends r r := ⟨id, fun _ => .inl⟩

/-- The tokens of a line without blanks at its end do not end in blanks either. -/
theorem trimmed_of_mem_spell {l : Text} (hl : Text.trimEnd l = l) :
    ∀ x ∈ spell (lexemes p l), Text.trimEnd x.2 = x.2 := by
  induction l using scan_induction p with
  | nil => exact List.forall_mem_nil _
  | blank c r hc ih =>
      rw [lexemes_of_none hc]
      exact ih (Text.trimmed_of_append (a := [c]) hl)
  | token c kind w behind hc ih =>
      rw [lexemes_of_some hc rfl, spell_cons, List.forall_mem_cons]
      refine ⟨?_, ih (Text.trimmed_of_append (a := c :: w) hl)⟩
      by_cases last : behind = []
      · rwa [last, List.append_nil] at hl
      · exact trimEnd_of_lexeme? hc last

/-- Blanks at the end of a line are dropped, and its tokens stay, unless one ends in them. -/
theorem scanLine_trimEnd {l : Text} (h : ∀ x ∈ spell (lexemes p l), Text.trimEnd x.2 = x.2)
    (line column : Int) :
    scanLine p line column 0 (Text.trimEnd l) = scanLine p line column 0 l := by
  induction l using scan_induction p generalizing column with
  | nil => rfl
  | blank c r hc ih =>
      rw [lexemes_of_none hc] at h
      rw [Text.trimEnd_blank (lexeme?_eq_none_iff.mp hc), scanLine_of_none hc, ← ih h]
      split
      · next hr => rw [hr]; rfl
      · exact scanLine_of_none (lexeme?_eq_none_iff.mpr (lexeme?_eq_none_iff.mp hc)) line column
  | token c kind w behind hc ih =>
      rw [lexemes_of_some hc rfl, spell_cons, List.forall_mem_cons] at h
      have here : Text.trimEnd (c :: (w ++ behind)) = c :: (w ++ Text.trimEnd behind) := by
        by_cases last : behind = []
        · rw [last, List.append_nil, h.1, Text.trimEnd, Text.dropEndWhile, List.append_nil]
        · exact trimEnd_token hc last behind
      rw [here, scanLine_of_some (lexeme?_of_ends hc (ends_trimEnd (ends_self behind))), ih h.2,
        scanLine_of_some hc]

theorem spell_trimEnd {l : Text} (h : ∀ x ∈ spell (lexemes p l), Text.trimEnd x.2 = x.2) :
    spell (lexemes p (Text.trimEnd l)) = spell (lexemes p l) := by
  rw [← map_spelling_scanLine 1 1, scanLine_trimEnd h, map_spelling_scanLine]

theorem scanLine_trimStart (l : Text) (line column : Int) :
    scanLine p line column 0 l =
      scanLine p line (column + (l.takeWhile Text.isBlank).length) 0 (Text.trimStart l) := by
  induction l generalizing column with
  | nil => simp [Text.trimStart, scanLine]
  | cons c r ih =>
      cases hc : Text.isBlank c with
      | true =>
          have place : column + 1 + (r.takeWhile Text.isBlank).length =
              column + ((c :: r.takeWhile Text.isBlank).length : Nat) := by
            rw [List.length_cons]
            omega
          rw [scanLine_of_none (lexeme?_eq_none_iff.mpr hc), ih, List.takeWhile_cons_of_pos hc,
            place, Text.trimStart, Text.trimStart, List.dropWhile_cons_of_pos hc]
      | false =>
          have shows : ¬Text.isBlank c = true := by simp [hc]
          rw [List.takeWhile_cons_of_neg shows, Text.trimStart, List.dropWhile_cons_of_neg shows,
            List.length_nil, Int.natCast_zero, Int.add_zero]

/-! A cut. -/

/-- No token is on both sides of the column. -/
def Clear (ts : List Token) (column : Int) : Prop :=
  ∀ t ∈ ts, t.endColumn ≤ column ∨ column ≤ t.column

instance (ts : List Token) (column : Int) : Decidable (Clear ts column) :=
  inferInstanceAs (Decidable (∀ t ∈ ts, t.endColumn ≤ column ∨ column ≤ t.column))

theorem endColumn_le_of_mem_scanLine {line column : Int} {l : Text} {t : Token}
    (h : t ∈ scanLine p line column 0 l) : t.endColumn ≤ column + l.length := by
  induction l using scan_induction p generalizing column with
  | nil => cases h
  | blank c r hc ih =>
      rw [scanLine_of_none hc] at h
      have behind := ih h
      rw [List.length_cons]
      omega
  | token c kind w behind hc ih =>
      rw [scanLine_of_some hc] at h
      rw [← List.cons_append, List.length_append]
      cases List.mem_cons.mp h with
      | inl here =>
          simp only [here, endColumn]
          omega
      | inr there =>
          have rest := ih there
          omega

theorem clear_start (line column : Int) (l : Text) :
    Clear (scanLine p line column 0 l) column :=
  fun _ ht => .inr (of_mem_scanLine ht).2.1

theorem split_append {a b w r : Text} (h : a ++ b = w ++ r) (hl : w.length ≤ a.length) :
    ∃ rest, a = w ++ rest ∧ r = rest ++ b := by
  obtain ⟨rest, rfl⟩ : w <+: a := List.prefix_of_prefix_length_le ⟨r, rfl⟩ ⟨b, h⟩ hl
  rw [List.append_assoc] at h
  exact ⟨rest, rfl, (List.append_cancel_left h).symm⟩

theorem ends_append (a b : Text) : Ends (a ++ b) a :=
  ⟨fun h => (List.append_eq_nil_iff.mp h).1, fun d hd => .inl (by rw [List.head?_append, hd]; rfl)⟩

/-- Cut between tokens, a line falls into parts that have its tokens. -/
theorem scanLine_append {a b : Text} {line column : Int}
    (clear : Clear (scanLine p line column 0 (a ++ b)) (column + a.length)) :
    scanLine p line column 0 (a ++ b) =
      scanLine p line column 0 a ++ scanLine p line (column + a.length) 0 b := by
  generalize hl : a ++ b = l at clear ⊢
  induction l using scan_induction p generalizing a column with
  | nil =>
      obtain ⟨rfl, rfl⟩ := List.append_eq_nil_iff.mp hl
      rfl
  | blank c r hc ih =>
      cases a with
      | nil =>
          obtain rfl : b = c :: r := hl
          simp [scanLine]
      | cons d a =>
          obtain ⟨rfl, rfl⟩ := List.cons_eq_cons.mp hl
          have place : column + ((d :: a).length : Nat) = column + 1 + a.length := by
            rw [List.length_cons]
            omega
          have blank : lexeme? p d a = none := lexeme?_eq_none_iff.mpr (lexeme?_eq_none_iff.mp hc)
          rw [scanLine_of_none hc, place] at clear ⊢
          rw [scanLine_of_none blank, ih rfl clear]
  | token c kind w behind hc ih =>
      cases a with
      | nil =>
          obtain rfl : b = c :: (w ++ behind) := hl
          simp [scanLine]
      | cons d a =>
          obtain ⟨rfl, whole⟩ := List.cons_eq_cons.mp hl
          rw [scanLine_of_some hc] at clear ⊢
          obtain ⟨here, there⟩ := List.forall_mem_cons.mp clear
          have reach : w.length ≤ a.length := by
            simp only [endColumn, List.length_cons] at here
            omega
          obtain ⟨a, rfl, rfl⟩ := split_append whole reach
          have place : column + ((d :: (w ++ a)).length : Nat) =
              column + ((d :: w).length : Nat) + a.length := by
            rw [← List.cons_append, List.length_append]
            omega
          have first : lexeme? p d (w ++ a) = some (kind, d :: w) :=
            lexeme?_of_ends hc (ends_append a b)
          rw [place] at there ⊢
          rw [scanLine_of_some first, ih rfl there, List.cons_append]

/-- A front of a line that shows a token's first character and begins with the whole of its
spelling is at least as long as the token. -/
theorem length_le_of_spell_front {c : Char} {kind : TokenKind} {w r a : Text}
    {xs ys : List (TokenKind × Text)} (h : lexeme? p c r = some (kind, c :: w))
    (same : spell (lexemes p (Text.trimEnd (c :: a))) ++ xs = (kind, c :: w) :: ys) :
    (c :: w).length ≤ (c :: a).length := by
  have shows : Text.isBlank c = false := by
    rw [← Bool.not_eq_true]
    intro blank
    rw [lexeme?_eq_none_iff.mpr blank] at h
    cases h
  have front : Text.trimEnd (c :: a) = c :: Text.trimEnd a :=
    Text.trimEnd_append_ink (List.forall_mem_singleton.mpr shows) a
  have first := spell_ne_nil (p := p) shows (Text.trimEnd a)
  rw [← front] at first
  obtain ⟨x, rest, hx⟩ := List.exists_cons_of_ne_nil first
  rw [hx, List.cons_append] at same
  have member : x ∈ spell (lexemes p (Text.trimEnd (c :: a))) :=
    hx ▸ List.mem_cons_self ..
  have shorter := length_le_of_mem_spell member
  rw [(List.cons_eq_cons.mp same).1] at shorter
  exact shorter.trans (Text.isPrefix_dropEndWhile Text.isBlank (c :: a)).length_le

/-- The front of a line has the first of its tokens only if it is cut off between tokens. -/
theorem clear_of_spell {a b : Text} {xs : List (TokenKind × Text)}
    (same : spell (lexemes p (Text.trimEnd a)) ++ xs = spell (lexemes p (a ++ b)))
    (line column : Int) : Clear (scanLine p line column 0 (a ++ b)) (column + a.length) := by
  generalize hl : a ++ b = l at same ⊢
  induction l using scan_induction p generalizing a column with
  | nil => exact List.forall_mem_nil _
  | blank c r hc ih =>
      cases a with
      | nil => exact (Int.add_zero column).symm ▸ clear_start line column _
      | cons d a =>
          obtain ⟨rfl, rfl⟩ := List.cons_eq_cons.mp hl
          have place : column + ((d :: a).length : Nat) = column + 1 + a.length := by
            rw [List.length_cons]
            omega
          rw [lexemes_of_none hc, lexemes_trimEnd_blank (lexeme?_eq_none_iff.mp hc)] at same
          rw [scanLine_of_none hc, place]
          exact ih _ rfl same
  | token c kind w behind hc ih =>
      cases a with
      | nil => exact (Int.add_zero column).symm ▸ clear_start line column _
      | cons d a =>
          obtain ⟨rfl, whole⟩ := List.cons_eq_cons.mp hl
          rw [lexemes_of_some hc rfl, spell_cons] at same
          by_cases reach : w.length ≤ a.length
          · obtain ⟨a, rfl, rfl⟩ := split_append whole reach
            have place : column + ((d :: (w ++ a)).length : Nat) =
                column + ((d :: w).length : Nat) + a.length := by
              rw [← List.cons_append, List.length_append]
              omega
            rw [scanLine_of_some hc, place]
            refine List.forall_mem_cons.mpr ⟨.inl (by simp only [endColumn]; omega), ?_⟩
            by_cases last : a ++ b = []
            · rw [last]
              exact List.forall_mem_nil _
            · refine ih _ rfl ?_
              rw [lexemes_trimEnd_token hc last (ends_append a b), spell_cons] at same
              exact (List.cons_eq_cons.mp same).2
          · -- the front ends within the token, and what it has begins with less
            have begins := length_le_of_spell_front hc same
            simp only [List.length_cons] at begins
            omega

end Token
end MotionExpr
