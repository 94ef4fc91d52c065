import MotionExpr.Lint.Naming
import MotionExpr.Proofs.Token.Boundary

/-!
What becomes of a name that is put in camel case. Only underscores go: each with a character behind
it takes that one along, in upper case. So the first letter is what it was or a capital one, dollars
stay, and so does an underscore that stands behind another or at the end.
-/

namespace MotionExpr
namespace Naming

open Token

def isLetterOrDigit (c : Char) : Bool := Text.isAsciiLetter c || Text.isAsciiDigit c

def isLowerLetter (c : Char) : Bool := 'a' ≤ c && c ≤ 'z'

/-- Each underscore of a name stands in front of a letter or a digit, and nothing else is special. -/
structure Separated (name : Text) : Prop where
  plain : '$' ∉ name
  single : ¬['_', '_'] <:+: name
  closed : name.getLast? ≠ some '_'

/-! Characters of words. -/

theorem toNat_lt_of_continuesWord {c : Char} (h : continuesWord c = true) : c.toNat < 128 := by
  rw [continuesWord, Bool.or_eq_true] at h
  exact h.elim Text.toNat_lt_of_startsWord Text.toNat_lt_of_isAsciiDigit

theorem upperChar_of_continuesWord {c : Char} (h : continuesWord c = true) :
    Text.upperChar c = [c.toUpper] := if_pos (toNat_lt_of_continuesWord h)

theorem of_continuesWord {c : Char} (h : continuesWord c = true) :
    c ≠ '\n' ∧ (isSeparator c = true ↔ c = '_') ∧ (isLetterOrDigit c = true ↔ c ≠ '_' ∧ c ≠ '$') ∧
      continuesWord c.toUpper = true ∧ isLowerLetter c.toUpper = false ∧
      (isLetterOrDigit c.toUpper = true ↔ c ≠ '_' ∧ c ≠ '$') :=
  Text.of_ascii (P := fun c => continuesWord c = true →
      c ≠ '\n' ∧ (isSeparator c = true ↔ c = '_') ∧ (isLetterOrDigit c = true ↔ c ≠ '_' ∧ c ≠ '$') ∧
        continuesWord c.toUpper = true ∧ isLowerLetter c.toUpper = false ∧
        (isLetterOrDigit c.toUpper = true ↔ c ≠ '_' ∧ c ≠ '$'))
    (toNat_lt_of_continuesWord h) (by decide +kernel) h

/-! The substitution from character to character. -/

/-- What is in front of a separator does not matter. -/
theorem substituteFrom_joinWords (passed : Text) (skip : Nat) (t : Text) :
    Text.substituteFrom joinWords passed skip t = Text.substituteFrom joinWords [] skip t := by
  induction t generalizing passed skip with
  | nil => cases skip <;> rfl
  | cons c r ih =>
      cases skip with
      | succ skip => exact (ih (c :: passed) skip).trans (ih [c] skip).symm
      | zero =>
          have same : joinWords passed (c :: r) = joinWords [] (c :: r) := rfl
          rw [Text.substituteFrom, Text.substituteFrom, same]
          cases joinWords [] (c :: r) with
          | none => exact congrArg (c :: ·) ((ih (c :: passed) 0).trans (ih [c] 0).symm)
          | some m =>
              exact congrArg (m.text ++ ·) ((ih (c :: passed) _).trans (ih [c] _).symm)

theorem toCamelCase_of_other {c : Char} (hc : isSeparator c = false) (r : Text) :
    toCamelCase (c :: r) = c :: toCamelCase r := by
  have none : joinWords [] (c :: r) = none := by
    cases r with
    | nil => rfl
    | cons d r => rw [joinWords, hc]; rfl
  rw [toCamelCase, Text.substitute, Text.substituteFrom_of_none none, substituteFrom_joinWords]
  rfl

theorem toCamelCase_of_separator {s c : Char} (hs : isSeparator s = true)
    (hc : continuesWord c = true) (r : Text) :
    toCamelCase (s :: c :: r) = c.toUpper :: toCamelCase r := by
  have some : joinWords [] (s :: c :: r) = some ⟨2, [c.toUpper]⟩ := by
    rw [joinWords, hs, bne_iff_ne.mpr (of_continuesWord hc).1, upperChar_of_continuesWord hc]
    rfl
  rw [toCamelCase, Text.substitute, Text.substituteFrom_of_some some]
  exact congrArg (c.toUpper :: ·) (substituteFrom_joinWords [c, s] 0 r)

/-- Induction along a name: over separators with the characters behind them, and over others. -/
@[elab_as_elim]
theorem words_induction {motive : Text → Prop} (nil : motive [])
    (last : ∀ s, isSeparator s = true → motive [s])
    (joined : ∀ s c r, isSeparator s = true → motive r → motive (s :: c :: r))
    (other : ∀ c r, isSeparator c = false → motive r → motive (c :: r)) : ∀ t, motive t
  | [] => nil
  | [s] => by
      cases hs : isSeparator s with
      | true => exact last s hs
      | false => exact other s [] hs nil
  | s :: c :: r => by
      cases hs : isSeparator s with
      | true => exact joined s c r hs (words_induction nil last joined other r)
      | false => exact other s (c :: r) hs (words_induction nil last joined other (c :: r))

/-- The result is made of characters of words. -/
theorem continuesWord_toCamelCase {w : Text} (hw : ∀ c ∈ w, continuesWord c = true) :
    ∀ c ∈ toCamelCase w, continuesWord c = true := by
  induction w using words_induction with
  | nil => exact hw
  | last s hs => exact hw
  | joined s c r hs ih =>
      obtain ⟨-, hc, hr⟩ := List.forall_mem_cons.mp hw |>.imp id List.forall_mem_cons.mp
      rw [toCamelCase_of_separator hs hc]
      exact List.forall_mem_cons.mpr ⟨(of_continuesWord hc).2.2.2.1, ih hr⟩
  | other c r hc ih =>
      obtain ⟨here, hr⟩ := List.forall_mem_cons.mp hw
      rw [toCamelCase_of_other hc]
      exact List.forall_mem_cons.mpr ⟨here, ih hr⟩

theorem toCamelCase_ne_nil {w : Text} (hw : ∀ c ∈ w, continuesWord c = true) (nonempty : w ≠ []) :
    toCamelCase w ≠ [] := by
  cases w using words_induction with
  | nil => exact nonempty
  | last s hs => exact nonempty
  | joined s c r hs ih =>
      rw [toCamelCase_of_separator hs (hw c (by simp))]
      exact List.cons_ne_nil _ _
  | other c r hc ih =>
      rw [toCamelCase_of_other hc]
      exact List.cons_ne_nil _ _

/-! Names that are separated. -/

theorem separated_nil : Separated [] where
  plain := List.not_mem_nil
  single := fun ⟨a, b, whole⟩ => by simp at whole
  closed := nofun

theorem not_separated_singleton : ¬Separated ['_'] := fun h => h.closed rfl

theorem separated_cons_iff {c : Char} {r : Text} (hc : c ≠ '_') :
    Separated (c :: r) ↔ c ≠ '$' ∧ Separated r := by
  have plain : '$' ∉ c :: r ↔ c ≠ '$' ∧ '$' ∉ r := by
    rw [List.mem_cons, not_or, ne_comm]
  have single : ['_', '_'] <:+: c :: r ↔ ['_', '_'] <:+: r := by
    rw [List.infix_cons_iff, List.cons_prefix_cons]
    exact or_iff_right fun h => hc h.1.symm
  have closed : (c :: r).getLast? ≠ some '_' ↔ r.getLast? ≠ some '_' := by
    cases r with
    | nil => exact iff_of_true (fun h => hc (Option.some_inj.mp h)) nofun
    | cons d r => rw [List.getLast?_cons_cons]
  constructor
  · rintro ⟨p, s, l⟩
    exact ⟨(plain.mp p).1, (plain.mp p).2, mt single.mpr s, closed.mp l⟩
  · rintro ⟨dollar, p, s, l⟩
    exact ⟨plain.mpr ⟨dollar, p⟩, mt single.mp s, closed.mpr l⟩

theorem separated_underscore_iff {c : Char} {r : Text} :
    Separated ('_' :: c :: r) ↔ c ≠ '_' ∧ c ≠ '$' ∧ Separated r := by
  have single : ['_', '_'] <:+: '_' :: c :: r ↔ c = '_' ∨ ['_', '_'] <:+: c :: r := by
    rw [List.infix_cons_iff, List.cons_prefix_cons, List.cons_prefix_cons]
    simp [eq_comm]
  constructor
  · rintro ⟨p, s, l⟩
    rw [single, not_or] at s
    rw [List.getLast?_cons_cons] at l
    exact ⟨s.1, (separated_cons_iff s.1).mp ⟨fun h => p (List.mem_cons_of_mem _ h), s.2, l⟩⟩
  · rintro ⟨hc, rest⟩
    obtain ⟨p, s, l⟩ := (separated_cons_iff hc).mpr rest
    refine ⟨fun h => ?_, fun h => (single.mp h).elim hc s, l⟩
    exact (List.mem_cons.mp h).elim (by decide) p

/-- An underscore that goes leaves a letter or a digit just if there is one behind it. -/
theorem all_toCamelCase_iff {w : Text} (hw : ∀ c ∈ w, continuesWord c = true) :
    (toCamelCase w).all isLetterOrDigit = true ↔ Separated w := by
  induction w using words_induction with
  | nil => exact iff_of_true rfl separated_nil
  | last s hs =>
      obtain rfl := (of_continuesWord (hw s (List.mem_singleton_self s))).2.1.mp hs
      exact iff_of_false (by decide) not_separated_singleton
  | joined s c r hs ih =>
      rw [List.forall_mem_cons, List.forall_mem_cons] at hw
      obtain rfl := (of_continuesWord hw.1).2.1.mp hs
      rw [toCamelCase_of_separator hs hw.2.1, List.all_cons, Bool.and_eq_true, ih hw.2.2,
        (of_continuesWord hw.2.1).2.2.2.2.2, separated_underscore_iff, and_assoc]
  | other c r hc ih =>
      rw [List.forall_mem_cons] at hw
      obtain ⟨-, separator, letter, -⟩ := of_continuesWord hw.1
      have other : c ≠ '_' := fun same => by
        rw [separator.mpr same] at hc
        cases hc
      rw [toCamelCase_of_other hc, List.all_cons, Bool.and_eq_true, ih hw.2, letter,
        separated_cons_iff other, and_iff_right other]

/-! Camel case. -/

/-- A newline at the end, which the check lets pass, is in no name. -/
theorem isCamelCase_cons {c : Char} {r : Text} (h : '\n' ∉ r) :
    isCamelCase (c :: r) = (isLowerLetter c && r.all isLetterOrDigit) := by
  have last : r.getLast? ≠ some '\n' := fun last => h (List.mem_of_getLast? last)
  rw [isCamelCase, if_neg last]
  rfl

/-- The form of a name is camel case just if the name begins with a lower-case letter, has no dollar,
and each of its underscores stands in front of a letter or a digit. -/
theorem isCamelCase_toCamelCase_iff {w : Text} (hw : isWord w = true) :
    isCamelCase (toCamelCase w) = true ↔ w.head?.any isLowerLetter = true ∧ Separated w := by
  obtain ⟨c, r, rfl, hc, hr⟩ := of_isWord hw
  have all : ∀ d ∈ c :: r, continuesWord d = true :=
    List.forall_mem_cons.mpr ⟨continuesWord_of_startsWord c hc, hr⟩
  have newline {t : Text} (ht : ∀ d ∈ t, continuesWord d = true) : '\n' ∉ toCamelCase t := fun h => by
    have := continuesWord_toCamelCase ht _ h
    revert this
    decide
  obtain ⟨-, separator, letter, -⟩ := of_continuesWord (all c (List.mem_cons_self ..))
  rw [List.head?_cons, Option.any_some]
  cases hs : isSeparator c with
  | true =>
      obtain rfl := separator.mp hs
      refine iff_of_false (fun camel => ?_) fun h => absurd h.1 (by decide)
      cases r with
      | nil => exact absurd camel (by decide)
      | cons d r =>
          obtain ⟨hd, hr⟩ := List.forall_mem_cons.mp hr
          rw [toCamelCase_of_separator hs hd, isCamelCase_cons (newline hr),
            (of_continuesWord hd).2.2.2.2.1, Bool.false_and] at camel
          cases camel
  | false =>
      have other : c ≠ '_' := fun same => by
        rw [separator.mpr same] at hs
        cases hs
      rw [toCamelCase_of_other hs, isCamelCase_cons (newline hr), Bool.and_eq_true,
        all_toCamelCase_iff hr, separated_cons_iff other]
      refine and_congr_right fun lower => (and_iff_right ?_).symm
      rintro rfl
      exact absurd lower (by decide)

end Naming
end MotionExpr
