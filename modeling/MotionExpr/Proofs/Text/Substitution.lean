import Mathlib.Data.List.Chain
import MotionExpr.Text.Substitution

/-!
Induction along a substitution. What a rule replaces is described once, by what
it finds, the text behind that and what it puts there; the result is then built
from characters that are passed and from replacements, and what both keep the
substitution keeps.
-/

namespace MotionExpr
namespace Text

variable {rule : Rule} {Found : (passed found rest text : Text) → Prop} {q : Char → Bool}

/-- Where the rule applies it finds something at the front of the text ahead, as described. -/
def Rule.Finds (rule : Rule) (Found : (passed found rest text : Text) → Prop) : Prop :=
  ∀ passed ahead m, rule passed ahead = some m →
    ∃ found rest, ahead = found ++ rest ∧ found.length = m.consumed ∧ found ≠ [] ∧
      Found passed found rest m.text

theorem Rule.Finds.mono (finds : rule.Finds Found)
    {Found' : (passed found rest text : Text) → Prop}
    (h : ∀ passed found rest text, Found passed found rest text → Found' passed found rest text) :
    rule.Finds Found' := by
  intro passed ahead m applies
  obtain ⟨found, rest, whole, hlen, hne, described⟩ := finds passed ahead m applies
  exact ⟨found, rest, whole, hlen, hne, h passed found rest m.text described⟩

/-- A rule that applies replaces what it found, and the scan goes on behind it. -/
theorem substituteFrom_found {passed found rest : Text} {m : Replacement}
    (h : rule passed (found ++ rest) = some m) (hlen : found.length = m.consumed)
    (hne : found ≠ []) :
    substituteFrom rule passed 0 (found ++ rest) =
      m.text ++ substituteFrom rule (found.reverse ++ passed) 0 rest := by
  obtain ⟨c, r, rfl⟩ := List.exists_cons_of_ne_nil hne
  rw [List.cons_append] at h ⊢
  rw [substituteFrom_of_some h, substituteFrom_skip, ← hlen]
  simp

/-- Induction along a substitution: over characters that are passed and over replacements. -/
@[elab_as_elim]
theorem Rule.Finds.induction (finds : rule.Finds Found) {motive : (passed t result : Text) → Prop}
    (nil : ∀ passed, motive passed [] [])
    (pass : ∀ passed c r, rule passed (c :: r) = none →
      motive (c :: passed) r (substituteFrom rule (c :: passed) 0 r) →
      motive passed (c :: r) (c :: substituteFrom rule (c :: passed) 0 r))
    (found : ∀ passed found rest text, Found passed found rest text →
      motive (found.reverse ++ passed) rest (substituteFrom rule (found.reverse ++ passed) 0 rest) →
      motive passed (found ++ rest)
        (text ++ substituteFrom rule (found.reverse ++ passed) 0 rest))
    (passed t : Text) : motive passed t (substituteFrom rule passed 0 t) := by
  induction hk : t.length using Nat.strongRecOn generalizing passed t with
  | ind k ih =>
  cases t with
  | nil => exact nil passed
  | cons c r =>
      cases hm : rule passed (c :: r) with
      | none =>
          rw [substituteFrom_of_none hm]
          exact pass passed c r hm (ih r.length (by simp [← hk]) (c :: passed) r rfl)
      | some m =>
          obtain ⟨front, rest, happ, hlen, hne, described⟩ := finds _ _ _ hm
          have shorter : rest.length < k := by
            have hpos := List.length_pos_iff.mpr hne
            rw [← hk, happ, List.length_append]
            omega
          rw [happ] at hm ⊢
          rw [substituteFrom_found hm hlen hne]
          exact found passed front rest m.text described
            (ih rest.length shorter (front.reverse ++ passed) rest rfl)

/-- A filter that sees no difference between what is found and what is put there sees none
between a text and the result. -/
theorem Rule.Finds.filter (finds : rule.Finds Found)
    (same : ∀ passed found rest text, Found passed found rest text → text.filter q = found.filter q)
    (passed t : Text) : (substituteFrom rule passed 0 t).filter q = t.filter q := by
  induction passed, t using finds.induction with
  | nil passed => rfl
  | pass passed c r _ ih => rw [List.filter_cons, List.filter_cons, ih]
  | found passed found rest text h ih =>
      rw [List.filter_append, List.filter_append, ih, same passed found rest text h]

/-- A last character that nothing found ends in stays the last one. -/
theorem Rule.Finds.getLast?_of_ends (finds : rule.Finds Found) {c : Char}
    (ends : ∀ passed found rest text, Found passed found rest text → found.getLast? ≠ some c)
    (passed : Text) {t : Text} (h : t.getLast? = some c) :
    (substituteFrom rule passed 0 t).getLast? = some c := by
  induction passed, t using finds.induction with
  | nil passed => exact h
  | pass passed d r _ ih =>
      cases r with
      | nil => exact h
      | cons e r =>
          rw [List.getLast?_cons_cons] at h
          rw [List.getLast?_cons, ih h]
          rfl
  | found passed found rest text hf ih =>
      rw [List.getLast?_append] at h
      cases hr : rest.getLast? with
      | some d =>
          rw [hr] at h
          rw [List.getLast?_append, ih (hr.trans h)]
          rfl
      | none =>
          rw [hr] at h
          exact absurd h (ends passed found rest text hf)

/-- A last character that is never found stays the last one. -/
theorem Rule.Finds.getLast? (finds : rule.Finds Found) {c : Char}
    (free : ∀ passed found rest text, Found passed found rest text → c ∉ found)
    (passed : Text) {t : Text} (h : t.getLast? = some c) :
    (substituteFrom rule passed 0 t).getLast? = some c :=
  finds.getLast?_of_ends
    (fun _ _ _ _ hf last => free _ _ _ _ hf (List.mem_of_getLast? last)) passed h

/-- The first character stays where no replacement changes it. -/
theorem Rule.Finds.head? (finds : rule.Finds Found)
    (same : ∀ passed found rest text, Found passed found rest text →
      text ≠ [] ∧ text.head? = (found ++ rest).head?)
    (passed t : Text) : (substituteFrom rule passed 0 t).head? = t.head? := by
  induction passed, t using finds.induction with
  | nil passed => rfl
  | pass passed c r _ _ => rfl
  | found passed found rest text h _ =>
      obtain ⟨nonempty, first⟩ := same passed found rest text h
      rw [List.head?_append_of_ne_nil _ nonempty, first]

theorem head?_dropWhile_append {p : Char → Bool} {a : Text} {c : Char}
    (h : (a.dropWhile p).head? = some c) (b : Text) : ((a ++ b).dropWhile p).head? = some c := by
  obtain ⟨r, hr⟩ := List.head?_eq_some_iff.mp h
  rw [List.dropWhile_append, hr]
  rfl

/-- What shows first stays where what is put in a place shows first what was found there. -/
theorem Rule.Finds.head?_dropWhile (finds : rule.Finds Found) {p : Char → Bool}
    (same : ∀ passed found rest text, Found passed found rest text →
      ∃ c, (found.dropWhile p).head? = some c ∧ (text.dropWhile p).head? = some c)
    (passed t : Text) :
    ((substituteFrom rule passed 0 t).dropWhile p).head? = (t.dropWhile p).head? := by
  induction passed, t using finds.induction with
  | nil passed => rfl
  | pass passed c r _ ih =>
      rw [List.dropWhile_cons, List.dropWhile_cons]
      split
      · exact ih
      · rfl
  | found passed found rest text h _ =>
      obtain ⟨c, hfound, htext⟩ := same passed found rest text h
      rw [head?_dropWhile_append hfound, head?_dropWhile_append htext]

/-- What a rule finds it finds there again. -/
theorem Rule.Finds.applies (finds : rule.Finds Found) :
    rule.Finds fun passed found rest text =>
      found ≠ [] ∧ rule passed (found ++ rest) = some ⟨found.length, text⟩ := by
  intro passed ahead m h
  obtain ⟨found, rest, rfl, hlen, hne, -⟩ := finds passed ahead m h
  refine ⟨found, rest, rfl, hlen, hne, hne, ?_⟩
  rw [h, hlen]

/-- A text whose places look the same without what follows is scanned by itself. -/
theorem Rule.Finds.substituteFrom_append (finds : rule.Finds Found) {passed a r : Text}
    (same : ∀ u b, a = u ++ b → b ≠ [] → rule (u.reverse ++ passed) (b ++ r) = rule (u.reverse ++ passed) b) :
    substituteFrom rule passed 0 (a ++ r) =
      substituteFrom rule passed 0 a ++ substituteFrom rule (a.reverse ++ passed) 0 r := by
  induction passed, a using finds.applies.induction with
  | nil passed => rfl
  | pass passed c a hc ih =>
      have here : rule passed (c :: (a ++ r)) = none :=
        (same [] (c :: a) rfl (List.cons_ne_nil c a)).trans hc
      rw [List.cons_append, substituteFrom_of_none here, ih]
      · simp
      · intro u b hub hb
        have next := same (c :: u) b (by rw [hub]; rfl) hb
        rwa [List.reverse_cons, List.append_assoc] at next
  | found passed found rest text h ih =>
      obtain ⟨nonempty, h⟩ := h
      have here : rule passed (found ++ (rest ++ r)) = some ⟨found.length, text⟩ := by
        rw [← List.append_assoc]
        exact (same [] (found ++ rest) rfl (List.append_ne_nil_of_left_ne_nil nonempty _)).trans h
      rw [List.append_assoc, substituteFrom_found here rfl nonempty, ih]
      · simp
      · intro u b hub hb
        have next := same (found ++ u) b (by rw [hub, List.append_assoc]) hb
        rwa [List.reverse_append, List.append_assoc] at next

end Text
end MotionExpr
