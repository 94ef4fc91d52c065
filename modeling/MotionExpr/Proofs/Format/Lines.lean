import Mathlib.Data.List.Forall2
import MotionExpr.Proofs.Text.Trimming
import MotionExpr.Format.Line

/-!
Lines put together differ from their characters by newlines only, and are found
again if they hold none. A transform of single lines that never fails acts on
each line by itself.
-/

namespace MotionExpr
namespace Text

theorem filter_unlines {q : Char → Bool} (h : q '\n' = false) (ls : List Text) :
    (unlines ls).filter q = ls.flatMap fun l => l.filter q := by
  induction ls with
  | nil => rfl
  | cons l ls ih =>
      cases ls with
      | nil => simp [unlines]
      | cons m ms =>
          rw [unlines_cons l (List.cons_ne_nil m ms), List.filter_append,
            List.filter_cons_of_neg (by simp [h]), ih]
          rfl

theorem filter_eq_flatMap_lines {q : Char → Bool} (h : q '\n' = false) (t : Text) :
    t.filter q = (lines t).flatMap fun l => l.filter q := by
  rw [← filter_unlines h, unlines_lines]

theorem not_newline_of_mem_lines {t l : Text} (h : l ∈ lines t) : '\n' ∉ l := by
  induction t generalizing l with
  | nil =>
      simp only [lines, List.mem_singleton] at h
      simp [h]
  | cons c r ih =>
      simp only [lines] at h
      split at h
      · rcases List.mem_cons.mp h with rfl | hl
        · simp
        · exact ih hl
      · next hc =>
          cases hr : lines r with
          | nil => exact absurd hr (lines_ne_nil r)
          | cons m ms =>
              rw [hr] at h ih
              rcases List.mem_cons.mp h with rfl | hl
              · simp only [List.mem_cons, not_or]
                exact ⟨fun e => hc e.symm, ih (List.mem_cons_self ..)⟩
              · exact ih (List.mem_cons_of_mem _ hl)

theorem mem_of_mem_lines {t l : Text} {c : Char} (hl : l ∈ lines t) (hc : c ∈ l) : c ∈ t := by
  rw [← unlines_lines t]
  generalize lines t = ls at hl
  induction ls with
  | nil => cases hl
  | cons m ms ih =>
      cases ms with
      | nil =>
          obtain rfl := List.mem_singleton.mp hl
          exact hc
      | cons n ns =>
          rw [unlines_cons m (List.cons_ne_nil n ns)]
          rcases List.mem_cons.mp hl with rfl | hl
          · exact List.mem_append_left _ hc
          · exact List.mem_append_right _ (List.mem_cons_of_mem _ (ih hl))

theorem lines_of_not_newline {l : Text} (h : '\n' ∉ l) : lines l = [l] := by
  induction l with
  | nil => rfl
  | cons c r ih =>
      simp only [List.mem_cons, not_or] at h
      rw [lines, if_neg (Ne.symm h.1), ih h.2]
      rfl

theorem lines_newline (t r : Text) : lines (t ++ '\n' :: r) = lines t ++ lines r := by
  induction t with
  | nil => rfl
  | cons c s ih =>
      rw [List.cons_append, lines, lines, ih]
      split
      · rfl
      · cases hs : lines s with
        | nil => exact absurd hs (lines_ne_nil s)
        | cons l ls => rfl

theorem lines_append_newline {l : Text} (h : '\n' ∉ l) (r : Text) :
    lines (l ++ '\n' :: r) = l :: lines r := by
  rw [lines_newline, lines_of_not_newline h, List.singleton_append]

theorem lines_unlines {ls : List Text} (hne : ls ≠ []) (h : ∀ l ∈ ls, '\n' ∉ l) :
    lines (unlines ls) = ls := by
  induction ls with
  | nil => exact absurd rfl hne
  | cons l ls ih =>
      have hl := h l (List.mem_cons_self ..)
      cases ls with
      | nil => exact lines_of_not_newline hl
      | cons m ms =>
          rw [unlines_cons l (List.cons_ne_nil m ms), lines_append_newline hl,
            ih (List.cons_ne_nil m ms) fun k hk => h k (List.mem_cons_of_mem _ hk)]

/-- The empty line behind a newline at the end. -/
theorem unlines_concat_nil {ls : List Text} (h : ls ≠ []) :
    unlines (ls ++ [[]]) = unlines ls ++ ['\n'] := by
  induction ls with
  | nil => exact absurd rfl h
  | cons l ls ih =>
      by_cases hnil : ls = []
      · rw [hnil]
        rfl
      · rw [List.cons_append, unlines_cons l (by simp), unlines_cons l hnil, ih hnil]
        simp

theorem getLast?_eq_newline_iff {t : Text} :
    t.getLast? = some '\n' ↔ 1 < (lines t).length ∧ (lines t).getLast? = some [] := by
  constructor
  · intro h
    obtain ⟨front, rfl⟩ := List.getLast?_eq_some_iff.mp h
    rw [lines_newline, List.length_append]
    exact ⟨Nat.lt_add_of_pos_left (length_lines_pos front), List.getLast?_concat⟩
  · rintro ⟨several, last⟩
    obtain ⟨front, split⟩ := List.getLast?_eq_some_iff.mp last
    have some : front ≠ [] := by
      rintro rfl
      rw [split] at several
      exact absurd several (Nat.lt_irrefl 1)
    rw [← unlines_lines t, split, unlines_concat_nil some, List.getLast?_concat]

end Text

theorem bind_eq_ok_iff {ε α β : Type} {x : Except ε α} {f : α → Except ε β} {b : β} :
    (x >>= f) = .ok b ↔ ∃ a, x = .ok a ∧ f a = .ok b := by
  cases x with
  | error e => exact iff_of_false nofun fun ⟨_, h, _⟩ => nomatch h
  | ok a => exact ⟨fun h => ⟨a, rfl, h⟩, fun ⟨_, h, hb⟩ => (Except.ok.inj h) ▸ hb⟩

theorem map_eq_ok_iff {ε α β : Type} {x : Except ε α} {f : α → β} {b : β} :
    x.map f = .ok b ↔ ∃ a, x = .ok a ∧ f a = b := by
  cases x with
  | error e => exact iff_of_false nofun fun ⟨_, h, _⟩ => nomatch h
  | ok a =>
      refine ⟨fun h => ⟨a, rfl, Except.ok.inj h⟩, ?_⟩
      rintro ⟨_, h, rfl⟩
      cases h
      rfl

namespace Line

section MapM

variable {ε α β : Type} {f : α → Except ε β}

theorem mapM_of_forall {R : α → β → Prop} {ls : List α} (h : ∀ l ∈ ls, ∃ u, f l = .ok u ∧ R l u) :
    ∃ us, ls.mapM f = .ok us ∧ List.Forall₂ R ls us := by
  induction ls with
  | nil => exact ⟨[], rfl, .nil⟩
  | cons l ls ih =>
      obtain ⟨u, hu, hr⟩ := h l (List.mem_cons_self ..)
      obtain ⟨us, hus, hrs⟩ := ih fun k hk => h k (List.mem_cons_of_mem _ hk)
      refine ⟨u :: us, ?_, .cons hr hrs⟩
      simp only [List.mapM_cons, hu, hus]
      rfl

theorem forall₂_of_mapM {ls : List α} {us : List β} (h : ls.mapM f = .ok us) :
    List.Forall₂ (fun l u => f l = .ok u) ls us := by
  induction ls generalizing us with
  | nil =>
      cases h
      exact .nil
  | cons l ls ih =>
      rw [List.mapM_cons] at h
      cases hu : f l with
      | error e =>
          rw [hu] at h
          cases h
      | ok u =>
          cases hus : ls.mapM f with
          | error e =>
              rw [hu, hus] at h
              cases h
          | ok rest =>
              rw [hu, hus] at h
              cases h
              exact .cons hu (ih hus)

end MapM

/-- What is made of each element of a list is so of each element of the one made of it. -/
theorem forall_of_forall₂ {α β : Type} {P : α → Prop} {Q : β → Prop} {R : α → β → Prop} {ls : List α}
    {us : List β} (related : List.Forall₂ R ls us) (h : ∀ l ∈ ls, P l)
    (step : ∀ {l u}, P l → R l u → Q u) : ∀ u ∈ us, Q u := by
  induction related with
  | nil => exact List.forall_mem_nil _
  | cons hr _ ih =>
      obtain ⟨here, rest⟩ := List.forall_mem_cons.mp h
      exact List.forall_mem_cons.mpr ⟨step here hr, ih rest⟩

theorem mapLines_of_forall {f : Text → Except Literal.Fault Text} {R : Text → Text → Prop}
    {source : Text} (h : ∀ l ∈ Text.lines source, ∃ u, f l = .ok u ∧ R l u) :
    ∃ us, mapLines f source = .ok (Text.unlines us) ∧ List.Forall₂ R (Text.lines source) us := by
  obtain ⟨us, hus, hr⟩ := mapM_of_forall h
  exact ⟨us, by rw [mapLines, hus]; rfl, hr⟩

/-- Results without newlines are the lines of the text that they make. -/
theorem lines_of_mapLines {f : Text → Except Literal.Fault Text} {R : Text → Text → Prop}
    {source : Text} (h : ∀ l ∈ Text.lines source, ∃ u, f l = .ok u ∧ '\n' ∉ u ∧ R l u) :
    ∃ t, mapLines f source = .ok t ∧ List.Forall₂ R (Text.lines source) (Text.lines t) := by
  obtain ⟨us, ht, related⟩ := mapLines_of_forall h
  have nonempty : us ≠ [] := by
    rintro rfl
    exact Text.lines_ne_nil source (List.forall₂_nil_right_iff.mp related)
  have noNewline : ∀ u ∈ us, '\n' ∉ u := by
    intro u hu
    obtain ⟨row, hrow, rfl⟩ := List.mem_iff_getElem.mp hu
    exact (List.Forall₂.get related (related.length_eq ▸ hrow) hrow).1
  refine ⟨_, ht, ?_⟩
  rw [Text.lines_unlines nonempty noNewline]
  exact related.imp fun _ _ => And.right

/-- A transform that makes lines of lines is told line by line. -/
theorem forall₂_of_mapLines {f : Text → Except Literal.Fault Text} {source t : Text}
    (onLine : ∀ {l u}, '\n' ∉ l → f l = .ok u → '\n' ∉ u) (h : mapLines f source = .ok t) :
    List.Forall₂ (fun l u => f l = .ok u) (Text.lines source) (Text.lines t) := by
  obtain ⟨us, hus, rfl⟩ := map_eq_ok_iff.mp h
  have related := forall₂_of_mapM hus
  have nonempty : us ≠ [] := by
    rintro rfl
    exact Text.lines_ne_nil source (List.forall₂_nil_right_iff.mp related)
  rwa [Text.lines_unlines nonempty]
  exact forall_of_forall₂ related (fun _ => Text.not_newline_of_mem_lines) onLine

/-- Lines that are left as they are make the same text. -/
theorem mapLines_eq_self {f : Text → Except Literal.Fault Text} {t : Text}
    (h : ∀ l ∈ Text.lines t, f l = .ok l) : mapLines f t = .ok t := by
  obtain ⟨us, ht, same⟩ := mapLines_of_forall (R := Eq) fun l hl => ⟨l, h l hl, rfl⟩
  rw [List.forall₂_eq_eq_eq] at same
  rw [ht, ← same, Text.unlines_lines]

/-- A second run finds the lines as the first one left them. -/
theorem mapLines_again {f : Text → Except Literal.Fault Text} {R : Text → Text → Prop} {source : Text}
    (h : ∀ l ∈ Text.lines source, ∃ u, f l = .ok u ∧ '\n' ∉ u ∧ R l u ∧ f u = .ok u) :
    ∃ t, mapLines f source = .ok t ∧ List.Forall₂ R (Text.lines source) (Text.lines t) ∧
      mapLines f t = .ok t := by
  obtain ⟨t, ht, related⟩ := lines_of_mapLines h
  refine ⟨t, ht, related.imp fun _ _ => And.left, mapLines_eq_self fun l hl => ?_⟩
  obtain ⟨row, hrow, rfl⟩ := List.mem_iff_getElem.mp hl
  exact (related.get (related.length_eq ▸ hrow) hrow).2

theorem getElem?_of_forall₂ {R : Text → Text → Prop} {ls us : List Text}
    (h : List.Forall₂ R ls us) {row : Nat} {l : Text} (hl : ls[row]? = some l) :
    ∃ u, us[row]? = some u ∧ R l u := by
  induction h generalizing row with
  | nil => cases hl
  | cons hr _ ih =>
      cases row with
      | zero =>
          cases hl
          exact ⟨_, rfl, hr⟩
      | succ row => exact ih hl

end Line
end MotionExpr
