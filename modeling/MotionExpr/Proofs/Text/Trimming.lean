import Mathlib.Data.List.DropRight
import MotionExpr.Text.Blank

/-!
What trimming takes away: the end that is dropped and the part that is kept make
up the text, and a filter that passes over the dropped characters sees no
difference.
-/

namespace MotionExpr
namespace Text

theorem dropEndWhile_spec (p : Char → Bool) (t : Text) :
    ∃ rest, dropEndWhile p t ++ rest = t ∧ ∀ c ∈ rest, p c = true := by
  induction t with
  | nil => exact ⟨[], rfl, by simp⟩
  | cons c r ih =>
      obtain ⟨rest, hr, hall⟩ := ih
      simp only [dropEndWhile]
      split
      · next hnil =>
          rw [hnil, List.nil_append] at hr
          subst hr
          split
          · next hc => exact ⟨c :: rest, rfl, by simpa [hc] using hall⟩
          · exact ⟨rest, rfl, hall⟩
      · exact ⟨rest, by rw [List.cons_append, hr], hall⟩

theorem isPrefix_dropEndWhile (p : Char → Bool) (t : Text) : dropEndWhile p t <+: t := by
  obtain ⟨rest, h, -⟩ := dropEndWhile_spec p t
  exact ⟨rest, h⟩

theorem takeEndWhile_eq {p : Char → Bool} {t rest : Text} (h : dropEndWhile p t ++ rest = t) :
    takeEndWhile p t = rest := by
  have hdrop : (dropEndWhile p t ++ rest).drop (dropEndWhile p t).length = rest := List.drop_left
  rwa [h] at hdrop

theorem dropEndWhile_append_takeEndWhile (p : Char → Bool) (t : Text) :
    dropEndWhile p t ++ takeEndWhile p t = t := by
  obtain ⟨rest, h, _⟩ := dropEndWhile_spec p t
  rw [takeEndWhile_eq h, h]

theorem mem_takeEndWhile {p : Char → Bool} {t : Text} {c : Char} (h : c ∈ takeEndWhile p t) :
    p c = true := by
  obtain ⟨rest, hrest, hall⟩ := dropEndWhile_spec p t
  rw [takeEndWhile_eq hrest] at h
  exact hall c h

theorem dropEndWhile_append (p : Char → Bool) (a b : Text) :
    dropEndWhile p (a ++ b) =
      if dropEndWhile p b = [] then dropEndWhile p a else a ++ dropEndWhile p b := by
  induction a with
  | nil => by_cases h : dropEndWhile p b = [] <;> simp [dropEndWhile, h]
  | cons c r ih =>
      by_cases h : dropEndWhile p b = []
      · simp only [List.cons_append, dropEndWhile, ih, h, ite_true]
      · simp only [h, ite_false] at ih ⊢
        simp only [List.cons_append, dropEndWhile, ih]
        split <;> simp_all

theorem dropEndWhile_eq_reverse (p : Char → Bool) (t : Text) :
    dropEndWhile p t = (t.reverse.dropWhile p).reverse := by
  suffices back : ∀ b : Text, dropEndWhile p b.reverse = (b.dropWhile p).reverse by
    rw [← back, List.reverse_reverse]
  intro b
  induction b with
  | nil => rfl
  | cons c r ih =>
      rw [List.reverse_cons, dropEndWhile_append, ih]
      by_cases hc : p c = true <;> simp [dropEndWhile, hc]

theorem dropEndWhile_of_getLast? {p : Char → Bool} {t : Text} (h : t.getLast?.any p = false) :
    dropEndWhile p t = t := by
  rw [dropEndWhile_eq_reverse]
  cases hr : t.reverse with
  | nil => exact (List.reverse_eq_nil_iff.mp hr).symm
  | cons c r =>
      rw [List.getLast?_eq_head?_reverse, hr, List.head?_cons, Option.any_some] at h
      rw [List.dropWhile_cons_of_neg (Bool.eq_false_iff.mp h), ← hr, List.reverse_reverse]

theorem any_head?_dropWhile (p : Char → Bool) (t : Text) : (t.dropWhile p).head?.any p = false := by
  have stop := List.head?_dropWhile_not p t
  cases hd : (t.dropWhile p).head? with
  | none => rfl
  | some c =>
      rw [hd] at stop
      exact stop

theorem any_getLast?_dropEndWhile (p : Char → Bool) (t : Text) :
    (dropEndWhile p t).getLast?.any p = false := by
  rw [dropEndWhile_eq_reverse, List.getLast?_reverse]
  exact any_head?_dropWhile p t.reverse

theorem takeEndWhile_eq_reverse (p : Char → Bool) (t : Text) :
    takeEndWhile p t = (t.reverse.takeWhile p).reverse := by
  apply takeEndWhile_eq
  rw [dropEndWhile_eq_reverse, ← List.reverse_append, List.takeWhile_append_dropWhile,
    List.reverse_reverse]

theorem drop_length_takeWhile (p : Char → Bool) (t : Text) :
    t.drop (t.takeWhile p).length = t.dropWhile p := by
  have h : (t.takeWhile p ++ t.dropWhile p).drop (t.takeWhile p).length = t.dropWhile p :=
    List.drop_left
  rwa [List.takeWhile_append_dropWhile] at h

theorem takeWhile_append_of_length_le {p : Char → Bool} {a b : Text}
    (h : ((a ++ b).takeWhile p).length ≤ a.length) : (a ++ b).takeWhile p = a.takeWhile p := by
  rw [List.takeWhile_append] at h ⊢
  split
  · next ha =>
      rw [if_pos ha, List.length_append] at h
      have hb : b.takeWhile p = [] := List.eq_nil_of_length_eq_zero (by omega)
      rw [hb, List.append_nil]
      exact ((List.takeWhile_prefix p).eq_of_length ha).symm
  · rfl

theorem dropEndWhile_congr {p q : Char → Bool} {t : Text} (h : ∀ c ∈ t, p c = q c) :
    dropEndWhile p t = dropEndWhile q t := by
  induction t with
  | nil => rfl
  | cons c r ih =>
      obtain ⟨here, rest⟩ := List.forall_mem_cons.mp h
      rw [dropEndWhile, dropEndWhile, here, ih rest]

theorem dropEndWhile_dropEndWhile (p : Char → Bool) (t : Text) :
    dropEndWhile p (dropEndWhile p t) = dropEndWhile p t := by
  rw [dropEndWhile_eq_reverse p t, dropEndWhile_eq_reverse, List.reverse_reverse,
    List.dropWhile_idempotent]

theorem dropEndWhile_eq_self {p : Char → Bool} {t : Text} (h : ∀ c ∈ t, p c = false) :
    dropEndWhile p t = t :=
  dropEndWhile_of_getLast? ((Option.any_eq_false ..).mpr fun c hc => h c (List.mem_of_getLast? hc))

theorem dropEndWhile_eq_nil {p : Char → Bool} {t : Text} (h : ∀ c ∈ t, p c = true) :
    dropEndWhile p t = [] := by
  rw [dropEndWhile_eq_reverse, List.dropWhile_eq_nil_iff.mpr fun c hc => h c (List.mem_reverse.mp hc)]
  rfl

/-- The two ends are trimmed in either order. -/
theorem dropWhile_dropEndWhile (p : Char → Bool) (t : Text) :
    (dropEndWhile p t).dropWhile p = dropEndWhile p (t.dropWhile p) := by
  induction t with
  | nil => rfl
  | cons c r ih =>
      cases hc : p c with
      | true =>
          rw [List.dropWhile_cons_of_pos hc, ← ih, dropEndWhile]
          split
          · next hr => rw [hr, if_pos hc]
          · rw [List.dropWhile_cons_of_pos hc]
      | false =>
          rw [List.dropWhile_cons_of_neg (by simp [hc]), dropEndWhile]
          split
          · rw [if_neg (by simp [hc]), List.dropWhile_cons_of_neg (by simp [hc])]
          · rw [List.dropWhile_cons_of_neg (by simp [hc])]

theorem trimStart_trimEnd (t : Text) : trimStart (trimEnd t) = trim t :=
  dropWhile_dropEndWhile isBlank t

theorem trimEnd_trim (t : Text) : trimEnd (trim t) = trim t :=
  dropEndWhile_dropEndWhile isBlank (t.dropWhile isBlank)

theorem trimEnd_append_ink {w : Text} (hw : ∀ c ∈ w, isBlank c = false) (r : Text) :
    trimEnd (w ++ r) = w ++ trimEnd r := by
  have kept := dropEndWhile_eq_self hw
  rw [trimEnd, dropEndWhile_append]
  split
  · next hr => rw [kept, trimEnd, hr, List.append_nil]
  · rfl

/-- A trimmed text begins as the text does, if it begins at all. -/
theorem head?_of_trimEnd {t : Text} {c : Char} (h : (trimEnd t).head? = some c) : t.head? = some c := by
  obtain ⟨rest, hrest, -⟩ := dropEndWhile_spec isBlank t
  obtain ⟨r, hr⟩ := List.head?_eq_some_iff.mp h
  rw [← hrest, show dropEndWhile isBlank t = c :: r from hr]
  rfl

theorem trimEnd_append (a b : Text) :
    trimEnd (a ++ b) = if trimEnd b = [] then trimEnd a else a ++ trimEnd b :=
  dropEndWhile_append isBlank a b

theorem trimEnd_blank {c : Char} (hc : isBlank c = true) (r : Text) :
    trimEnd (c :: r) = if trimEnd r = [] then [] else c :: trimEnd r := by
  have single : trimEnd [c] = [] := by rw [trimEnd, dropEndWhile, dropEndWhile, if_pos hc]
  rw [← List.singleton_append, trimEnd_append, single]
  rfl

theorem isBlank_of_trimEnd_concat {t x : Text} {c : Char} (h : trimEnd t = x ++ [c]) :
    isBlank c = false := by
  rw [trimEnd, dropEndWhile_eq_reverse, List.reverse_eq_iff, List.reverse_concat] at h
  have first := List.head?_dropWhile_not isBlank t.reverse
  rw [h] at first
  simpa using first

/-- The end of a text without blanks at its end has none either. -/
theorem trimmed_of_append {a b : Text} (h : trimEnd (a ++ b) = a ++ b) : trimEnd b = b := by
  rw [trimEnd_append] at h
  split at h
  · next hb =>
      have size : (trimEnd a).length ≤ a.length := (isPrefix_dropEndWhile isBlank a).length_le
      rw [h, List.length_append] at size
      obtain rfl : b = [] := List.eq_nil_of_length_eq_zero (by omega)
      exact hb
  · exact List.append_cancel_left h

theorem trim_trim (t : Text) : trim (trim t) = trim t := by
  rw [← trimStart_trimEnd (trim t), trimEnd_trim, ← trimStart_trimEnd, trimStart, trimStart,
    List.dropWhile_idempotent]

/-! A front that ends where the text behind it begins. -/

theorem takeWhile_append_stop {p : Char → Bool} {a b : Text} (ha : ∀ c ∈ a, p c = true)
    (hb : ∀ c r, b = c :: r → p c = false) : (a ++ b).takeWhile p = a := by
  rw [List.takeWhile_append_of_pos ha]
  cases b with
  | nil => exact List.append_nil a
  | cons c r => rw [List.takeWhile_cons_of_neg (by simp [hb c r rfl]), List.append_nil]

theorem dropWhile_append_stop {p : Char → Bool} {a b : Text} (ha : ∀ c ∈ a, p c = true)
    (hb : ∀ c r, b = c :: r → p c = false) : (a ++ b).dropWhile p = b := by
  rw [List.dropWhile_append_of_pos ha]
  cases b with
  | nil => rfl
  | cons c r => rw [List.dropWhile_cons_of_neg (by simp [hb c r rfl])]

/-! A filter that drops what trimming drops. -/

section Filter

variable {p q : Char → Bool} (h : ∀ c, p c = true → q c = false)

include h

theorem filter_eq_nil_of_all {t : Text} (ht : ∀ c ∈ t, p c = true) : t.filter q = [] :=
  List.filter_eq_nil_iff.mpr fun c hc => by simp [h c (ht c hc)]

theorem filter_dropEndWhile (t : Text) : (dropEndWhile p t).filter q = t.filter q := by
  obtain ⟨rest, hrest, hall⟩ := dropEndWhile_spec p t
  conv => rhs; rw [← hrest, List.filter_append, filter_eq_nil_of_all h hall]
  rw [List.append_nil]

theorem filter_dropWhile (t : Text) : (t.dropWhile p).filter q = t.filter q := by
  conv => rhs; rw [← List.takeWhile_append_dropWhile (p := p) (l := t), List.filter_append]
  rw [filter_eq_nil_of_all h (List.all_eq_true.mp List.all_takeWhile), List.nil_append]

end Filter

end Text
end MotionExpr
