import MotionExpr.Proofs.Text.Trimming
import MotionExpr.Text.Decimal
import MotionExpr.Token.Lexer

/-!
Classes of characters and how they exclude each other. What holds of every ASCII
character is decided by going through them.
-/

namespace MotionExpr
namespace Text

theorem of_ascii {P : Char → Prop} {c : Char} (hc : c.toNat < 128)
    (h : ∀ n < 128, P (Char.ofNat n)) : P c := by
  have := h c.toNat hc
  rwa [Char.ofNat_toNat] at this

/-- A character that shows. -/
def isInk (c : Char) : Bool := !isBlank c

theorem isBlank_of_isSpaceOrTab {c : Char} (h : isSpaceOrTab c = true) : isBlank c = true := by
  simp only [isSpaceOrTab, Bool.or_eq_true, beq_iff_eq] at h
  rcases h with rfl | rfl <;> rfl

theorem isInk_of_isBlank (c : Char) (h : isBlank c = true) : isInk c = false := by
  simp [isInk, h]

theorem isInk_of_isSpaceOrTab (c : Char) (h : isSpaceOrTab c = true) : isInk c = false :=
  isInk_of_isBlank c (isBlank_of_isSpaceOrTab h)

theorem not_mem_takeWhile {p : Char → Bool} {c : Char} (hc : p c = false) (t : Text) :
    c ∉ t.takeWhile p := by
  intro hm
  rw [List.all_eq_true.mp List.all_takeWhile _ hm] at hc
  cases hc

theorem isPrefixOf_pair (a b c : Char) (r : Text) :
    [a, b].isPrefixOf (c :: r) = true ↔ a = c ∧ r.head? = some b := by
  cases r with
  | nil => simp [List.isPrefixOf]
  | cons d s =>
      simp only [List.isPrefixOf, Bool.and_true, Bool.and_eq_true, beq_iff_eq, List.head?_cons,
        Option.some.injEq]
      exact and_congr_right fun _ => eq_comm

theorem toNat_lt_of_startsWord {c : Char} (h : Token.startsWord c = true) : c.toNat < 128 := by
  simp only [Token.startsWord, isAsciiLetter, Bool.or_eq_true, Bool.and_eq_true, beq_iff_eq,
    decide_eq_true_eq, Char.le_def, UInt32.le_iff_toNat_le] at h
  change c.val.toNat < 128
  rcases h with ((⟨-, h⟩ | ⟨-, h⟩) | rfl) | rfl
  · exact Nat.lt_of_le_of_lt h (by decide)
  · exact Nat.lt_of_le_of_lt h (by decide)
  · decide
  · decide

theorem toNat_lt_of_isAsciiDigit {c : Char} (h : isAsciiDigit c = true) : c.toNat < 128 := by
  simp only [isAsciiDigit, Bool.and_eq_true, decide_eq_true_eq, Char.le_def,
    UInt32.le_iff_toNat_le] at h
  exact Nat.lt_of_le_of_lt h.2 (by decide)

end Text
end MotionExpr
