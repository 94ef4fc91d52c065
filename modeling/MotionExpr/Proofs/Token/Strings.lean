import MotionExpr.Proofs.Format.Pieces
import MotionExpr.Proofs.Token.Lexemes
import MotionExpr.Proofs.Token.Shape

/-!
Strings among the tokens. A string is closed if the quote that opens it comes back
at its end, not behind a backslash. What it is otherwise does not depend on which
of the two quotes delimits it, unless the other one stands bare in it.
-/

namespace MotionExpr
namespace Token

open Literal

/-- The quote comes back at the end of the string and not before. -/
def isClosed : Text → Bool
  | [] => false
  | q :: r => closing? q false false r == some r.length

theorem stringRest_of_closing? {quote : Char} {escaped : Bool} {t : Text} {n : Nat}
    (h : closing? quote false escaped t = some n) : stringRest quote escaped t = t.take n := by
  induction t generalizing escaped n with
  | nil => cases escaped <;> cases h
  | cons c r ih =>
      cases escaped with
      | true =>
          simp only [closing?] at h
          split at h
          · cases h
          · obtain ⟨m, hm, rfl⟩ := Option.map_eq_some_iff.mp h
            rw [stringRest, ih hm, List.take_succ_cons]
      | false =>
          simp only [closing?] at h
          split at h
          · next hc =>
              cases h
              rw [stringRest, if_pos hc]
              rfl
          · next hc =>
              split at h
              · cases h
              · obtain ⟨m, hm, rfl⟩ := Option.map_eq_some_iff.mp h
                rw [stringRest, if_neg hc, ih hm, List.take_succ_cons]

/-- A closed string, cut into its delimiters and what stands between them. -/
theorem of_isClosed {t : Text} (h : isClosed t = true) :
    ∃ q inner, t = q :: inner ++ [q] ∧
      closing? q false false (inner ++ [q]) = some (inner.length + 1) := by
  cases t with
  | nil => cases h
  | cons q r =>
      have hr : closing? q false false r = some r.length := beq_iff_eq.mp h
      obtain ⟨inner, rest, rfl, hlen⟩ := of_closing? hr
      have : rest = [] := by
        rw [List.length_append, List.length_cons] at hlen
        exact List.eq_nil_of_length_eq_zero (by omega)
      subst this
      refine ⟨q, inner, rfl, ?_⟩
      rw [hr, List.length_append]
      rfl

/-- A string that closes is read whatever follows it. -/
theorem lexeme?_of_closing? {p : Profile} {q : Char} (hq : isQuote q = true) {inner : Text}
    (h : closing? q false false (inner ++ [q]) = some (inner.length + 1)) (rest : Text) :
    lexeme? p q (inner ++ q :: rest) = some (.string, q :: inner ++ [q]) := by
  have more := closing?_append_of_some h rest
  rw [List.append_assoc, List.singleton_append] at more
  have taken : (inner ++ q :: rest).take (inner.length + 1) = inner ++ [q] := by
    rw [← List.singleton_append, ← List.append_assoc]
    exact List.take_left' (by simp)
  rw [(Shape.string hq).lexeme?, stringRest_of_closing? more, taken]
  rfl

theorem lexemes_of_closing? {p : Profile} {q : Char} (hq : isQuote q = true) {inner : Text}
    (h : closing? q false false (inner ++ [q]) = some (inner.length + 1)) (rest : Text) :
    lexemes p (q :: (inner ++ q :: rest)) = ⟨.string, q :: inner ++ [q], rest⟩ :: lexemes p rest :=
  lexemes_of_some (lexeme?_of_closing? hq h rest) (by simp)

/-- The quote that closes a string may be another one, if that one is not bare in it. -/
theorem closing?_of_closing? {q q' : Char} {escaped : Bool} {inner : Text}
    (h : closing? q false escaped (inner ++ [q]) = some (inner.length + 1))
    (hbare : closing? q' false escaped inner = none) :
    closing? q' false escaped (inner ++ [q']) = some (inner.length + 1) := by
  induction inner generalizing escaped with
  | nil =>
      cases escaped with
      | true => simp [closing?] at h
      | false => simp [closing?]
  | cons c r ih =>
      rw [List.cons_append, closing?_cons] at h ⊢
      rw [closing?_cons] at hbare
      have same : verdict q' false escaped c = verdict q false escaped c := by
        cases escaped with
        | true => rfl
        | false =>
            have hq : c ≠ q := fun e => by simp [e, verdict] at h
            have hq' : c ≠ q' := fun e => by simp [e, verdict] at hbare
            simp only [verdict, hq, hq', ite_false]
      rw [same] at hbare ⊢
      cases hv : verdict q false escaped c with
      | closes => simp [hv] at h
      | fails => simp [hv] at h
      | passes escaped' =>
          simp only [hv] at h hbare ⊢
          obtain ⟨m, hm, hlen⟩ := Option.map_eq_some_iff.mp h
          obtain rfl : m = r.length + 1 := Nat.succ_inj.mp hlen
          rw [ih hm (Option.map_eq_none_iff.mp hbare)]
          rfl

end Token
end MotionExpr
