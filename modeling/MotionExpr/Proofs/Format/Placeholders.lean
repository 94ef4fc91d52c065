import MotionExpr.Proofs.Format.Blanks

/-!
Restoring what was masked. The placeholders of a masked text are found again unless its code
has marks of its own: a mark with a numeral behind it and then another mark reads as a
placeholder, and that other mark may be the first one of the placeholder of a literal. The first
that is misread spoils the text, as a literal is put in the place of a mark.
-/

namespace MotionExpr
namespace Literal

open Text

/-- A numeral and then a mark, as masked code has them: a mark of the code or a literal. -/
def BeginsNumeral (ps : List Piece) : Prop :=
  ∃ digits p behind, ps = digits.map Piece.code ++ p :: behind ∧ digits ≠ [] ∧
    (∀ d ∈ digits, isDigit d = true) ∧ (p = .code mark ∨ ∃ t, p = .literal t)

/-- A mark of the code with such a numeral behind it. -/
def Misleads (ps : List Piece) : Prop := ∃ rest, .code mark :: rest <:+ ps ∧ BeginsNumeral rest

theorem misleads_cons {p : Piece} {ps : List Piece} :
    Misleads (p :: ps) ↔ (p = .code mark ∧ BeginsNumeral ps) ∨ Misleads ps := by
  simp only [Misleads, List.suffix_cons_iff, List.cons.injEq, or_and_right, exists_or, and_assoc]
  refine or_congr_left ⟨?_, ?_⟩
  · rintro ⟨rest, rfl, rfl, numeral⟩
    exact ⟨rfl, numeral⟩
  · rintro ⟨rfl, numeral⟩
    exact ⟨ps, rfl, rfl, numeral⟩

theorem ne_mark_of_mem_literals {t l : Text} (h : l ∈ literals (pieces t)) :
    ∃ c r, l = c :: r ∧ c ≠ mark := by
  obtain ⟨c, s, rest, n, hl, rfl⟩ := exists_length?_of_mem_literals h
  refine ⟨c, s, rfl, ?_⟩
  rintro rfl
  simp [length?, mark] at hl

/-! Numerals in masked code. -/

theorem numbered_eq_cons_mark {n : Nat} {ps : List Piece} {r : Text}
    (h : numbered n ps = mark :: r) :
    ∃ p behind, ps = p :: behind ∧ (p = .code mark ∨ ∃ t, p = .literal t) := by
  cases ps with
  | nil => cases h
  | cons p behind =>
      refine ⟨p, behind, rfl, ?_⟩
      cases p with
      | code c => exact .inl (congrArg Piece.code (List.cons_eq_cons.mp h).1)
      | literal t => exact .inr ⟨t, rfl⟩

theorem head?_numbered {n : Nat} {p : Piece} (hp : p = .code mark ∨ ∃ t, p = .literal t)
    (behind : List Piece) : ∃ r, numbered n (p :: behind) = mark :: r := by
  rcases hp with rfl | ⟨t, rfl⟩
  · exact ⟨_, rfl⟩
  · exact ⟨_, rfl⟩

theorem numeral?_eq_some_iff {ahead digits : Text} :
    numeral? ahead = some digits ↔
      digits ≠ [] ∧ (∀ d ∈ digits, isDigit d = true) ∧ ∃ r, ahead = digits ++ mark :: r := by
  constructor
  · intro h
    rw [numeral?] at h
    split at h
    · next d ds c r front back =>
        split at h
        · next hc =>
            cases h
            subst hc
            refine ⟨List.cons_ne_nil d ds, ?_, r, ?_⟩
            · rw [← front]
              exact List.all_eq_true.mp List.all_takeWhile
            · rw [← front, ← back, List.takeWhile_append_dropWhile]
        · cases h
    · cases h
  · rintro ⟨some, all, r, rfl⟩
    obtain ⟨d, ds, rfl⟩ := List.exists_cons_of_ne_nil some
    rw [numeral?, takeWhile_digits all, dropWhile_digits all]
    exact if_pos rfl

theorem isSome_numeral?_numbered {n : Nat} {ps : List Piece} :
    (numeral? (numbered n ps)).isSome = true ↔ BeginsNumeral ps := by
  simp only [Option.isSome_iff_exists, numeral?_eq_some_iff]
  constructor
  · rintro ⟨digits, some, all, r, h⟩
    have plain : mark ∉ digits := fun hm => by cases isDigit_mark.symm.trans (all _ hm)
    obtain ⟨behind, rfl, hr⟩ := of_numbered_eq_append h plain
    obtain ⟨p, behind, rfl, hp⟩ := numbered_eq_cons_mark hr.symm
    exact ⟨digits, p, behind, rfl, some, all, hp⟩
  · rintro ⟨digits, p, behind, rfl, some, all, hp⟩
    obtain ⟨r, hr⟩ := head?_numbered (n := n) hp behind
    exact ⟨digits, some, all, r, by rw [numbered_map_code_append, hr]⟩

/-! Restoring. -/

/-- A literal is put in the place of a mark that is misread, or nothing can be put there. -/
theorem restoreFrom_misread {ls : List Text} (first : ∀ l ∈ ls, ∃ c r, l = c :: r ∧ c ≠ mark)
    {ahead : Text} (h : (numeral? ahead).isSome = true) (u : Text) :
    restoreFrom ls 0 (mark :: ahead) ≠ .ok (mark :: u) := by
  obtain ⟨digits, hdigits⟩ := Option.isSome_iff_exists.mp h
  rw [restoreFrom, if_pos rfl, hdigits]
  intro restored
  obtain ⟨l, hl, restored⟩ := bind_eq_ok_iff.mp restored
  obtain ⟨v, -, restored⟩ := bind_eq_ok_iff.mp restored
  obtain ⟨c, r, rfl, hc⟩ := first l (mem_of_lookUp hl)
  exact hc (List.cons_eq_cons.mp (Except.ok.inj restored)).1

theorem restoreFrom_unread {ls : List Text} {c : Char} {ahead : Text}
    (h : c = mark → numeral? ahead = none) :
    restoreFrom ls 0 (c :: ahead) = (restoreFrom ls 0 ahead).map (c :: ·) := by
  have none : (if c = mark then numeral? ahead else none) = none := by
    split
    · next hc => exact h hc
    · rfl
  rw [restoreFrom, none]
  cases restoreFrom ls 0 ahead <;> rfl

theorem map_append_eq_ok_iff {x : Except Fault Text} {a u : Text} :
    x.map (a ++ ·) = .ok (a ++ u) ↔ x = .ok u := by
  cases x <;> simp [Except.map]

/-- Restoring undoes masking, unless a mark of the code misleads it. -/
theorem restore_mask_iff (code : Text) :
    restore (mask code).2 (mask code).1 = .ok code ↔ ¬ Misleads (pieces code) := by
  have first : ∀ l ∈ (mask code).2, ∃ c r, l = c :: r ∧ c ≠ mark :=
    fun _ => ne_mark_of_mem_literals
  suffices step : ∀ (before : List Text) (ps : List Piece), before ++ literals ps = (mask code).2 →
      (restoreFrom (mask code).2 0 (numbered before.length ps) = .ok (ps.flatMap Piece.text) ↔
        ¬ Misleads ps) by
    have whole := step [] (pieces code) rfl
    rwa [flatMap_text_pieces] at whole
  intro before ps hls
  induction ps generalizing before with
  | nil => exact iff_of_true rfl fun ⟨rest, suffix, _⟩ => by simp at suffix
  | cons p ps ih =>
      rw [misleads_cons, List.flatMap_cons]
      cases p with
      | literal t =>
          have here : (mask code).2[before.length]? = some t := by rw [← hls]; simp [literals]
          have rest := ih (before ++ [t]) (by rw [← hls]; simp [literals])
          rw [List.length_append, List.length_singleton] at rest
          rw [numbered, restoreFrom_placeholder here, Piece.text, map_append_eq_ok_iff, rest]
          simp
      | code c =>
          have rest := ih before hls
          rw [numbered, Piece.text, List.singleton_append]
          by_cases misread : c = mark ∧ BeginsNumeral ps
          · obtain ⟨rfl, numeral⟩ := misread
            exact iff_of_false
              (restoreFrom_misread first (isSome_numeral?_numbered.mpr numeral) _)
              (not_not_intro (.inl ⟨rfl, numeral⟩))
          · have unread : c = mark → numeral? (numbered before.length ps) = none := by
              intro hc
              rw [← Option.not_isSome_iff_eq_none, isSome_numeral?_numbered]
              exact fun numeral => misread ⟨hc, numeral⟩
            rw [restoreFrom_unread unread]
            have same := @map_append_eq_ok_iff
              (restoreFrom (mask code).2 0 (numbered before.length ps)) [c] (ps.flatMap Piece.text)
            refine (same.trans rest).trans (not_congr ?_)
            rw [Piece.code.injEq, or_iff_right misread]

/-- Two marks with a numeral between them name a literal, and there is none. -/
theorem restore_mask_numeral :
    restore (mask "\x000\x00".toList).2 (mask "\x000\x00".toList).1 = .error .missing ∧
      ¬∀ code, restore (mask code).2 (mask code).1 = .ok code := by
  have missing : restore (mask "\x000\x00".toList).2 (mask "\x000\x00".toList).1 = .error .missing := by
    decide +kernel
  exact ⟨missing, fun lossless => by cases missing.symm.trans (lossless _)⟩

/-- Here the numeral ends at the first mark of a placeholder, and the wrong literal is put back. -/
example : restore (mask "\x001'a''b'".toList).2 (mask "\x001'a''b'".toList).1 =
    .ok "'b'0\x00'b'".toList := by
  decide +kernel

end Literal
end MotionExpr
