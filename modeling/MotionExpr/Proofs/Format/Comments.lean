import MotionExpr.Proofs.Format.Outline
import MotionExpr.Proofs.Format.Reindented

/-!
Comments behind code, and the indentation of the lines that follow. A line sends those behind it
deeper, or one of them if it leads a statement, and this is judged on the whole line with its
comment: behind a comment code neither opens a bracket nor leads, and a comment that ends in an
opening bracket opens one. A change of comments leaves the indentation of all lines as it is just
if what the line does is the same before and after.
-/

namespace MotionExpr

open Text Literal

namespace Indentation

/-- What a line does to those behind it. -/
inductive Turn where
  | deeper
  | leads
  | level
  deriving DecidableEq

def turn (code : Text) : Turn :=
  if endsWith opensGroup code then .deeper
  else if isElse code || Header.isControl ControlKeyword.indenting code then .leads
  else .level

/-- The state behind a line on this level. -/
def Turn.after (level : Nat) : Turn → State
  | deeper => ⟨level + 1, false⟩
  | leads => ⟨level, true⟩
  | Turn.level => ⟨level, false⟩

/-- The level that brackets give to a line. -/
def State.base (s : State) (code : Text) : Nat :=
  if startsWith closesGroup code then s.level - 1 else s.level

theorem snd_step (s : State) (code : Text) : (step s code).2 = (turn code).after (s.base code) := by
  rw [step, turn, State.base]
  dsimp only
  split
  · rfl
  · cases isElse code || Header.isControl ControlKeyword.indenting code <;> rfl

/-- The state behind a line, whether or not it is blank. -/
def State.behind (s : State) (l : Text) : State :=
  if (trim l).isEmpty then s else (step s (trim l)).2

/-- The indentation of each line of a text. -/
def indents (t : Text) : List Text := (lines t).map fun l => (splitIndent l).1

def indentsFrom (unit : IndentUnit) (s : State) (ls : List Text) : List Text :=
  (indentFrom unit s ls).map fun l => (splitIndent l).1

section Indents

variable {unit : IndentUnit}

theorem isBlank_of_mem_atLevel (hu : isBlank unit.char = true) {n : Nat} {c : Char}
    (h : c ∈ unit.atLevel n) : isBlank c = true :=
  List.eq_of_mem_replicate h ▸ hu

theorem indentsFrom_cons (hu : isBlank unit.char = true) (s : State) (l : Text) (ls : List Text) :
    indentsFrom unit s (l :: ls) =
      (if (trim l).isEmpty then [] else unit.atLevel (step s (trim l)).1) ::
        indentsFrom unit (s.behind l) ls := by
  have trimmed : trimEnd (trimStart l) = trim l := rfl
  rw [indentsFrom, indentFrom, trimmed, State.behind]
  dsimp only
  split
  · next empty =>
      have none := trimEnd_trimStart_eq_nil_iff.mp (List.isEmpty_iff.mp empty)
      rw [none]
      rfl
  · rw [List.map_cons, splitIndent_indented (fun c => isBlank_of_mem_atLevel hu)
      (unindented_trimStart l)]
    rfl

theorem indentsFrom_append (hu : isBlank unit.char = true) (s : State) (ls ms : List Text) :
    indentsFrom unit s (ls ++ ms) =
      indentsFrom unit s ls ++ indentsFrom unit (ls.foldl State.behind s) ms := by
  induction ls generalizing s with
  | nil => rfl
  | cons l ls ih =>
      rw [List.cons_append, indentsFrom_cons hu, indentsFrom_cons hu, ih]
      rfl

/-- A unit without characters indents nothing. -/
theorem indentsFrom_of_count_eq_zero (hu : isBlank unit.char = true) (h : unit.count = 0) (s : State)
    (ls : List Text) : indentsFrom unit s ls = ls.map fun _ => [] := by
  have flat (n : Nat) : unit.atLevel n = [] := by
    rw [IndentUnit.atLevel, h, Nat.mul_zero, List.replicate_zero]
  induction ls generalizing s with
  | nil => rfl
  | cons l ls ih => rw [indentsFrom_cons hu, ih, flat, ite_self, List.map_cons]

theorem indents_apply (hu : isSpaceOrTab unit.char = true) {ls : List Text} (hne : ls ≠ [])
    (h : ∀ l ∈ ls, '\n' ∉ l) : indents (apply unit (unlines ls)) = indentsFrom unit {} ls := by
  rw [indents, lines_apply hu, lines_unlines hne h, indentsFrom]

theorem atLevel_inj (h : unit.count ≠ 0) {m n : Nat} : unit.atLevel m = unit.atLevel n ↔ m = n := by
  refine ⟨fun same => ?_, fun same => by rw [same]⟩
  have lengths := congrArg List.length same
  rw [IndentUnit.length_atLevel, IndentUnit.length_atLevel] at lengths
  exact Nat.eq_of_mul_eq_mul_right (Nat.pos_of_ne_zero h) lengths

theorem behind_plain (s : State) : s.behind "x".toList = ⟨s.level, false⟩ := by
  obtain ⟨level, pending⟩ := s
  rfl

theorem step_plain (s : State) :
    (step s (trim "x".toList)).1 = s.level + if s.pending then 1 else 0 := by
  obtain ⟨level, pending⟩ := s
  cases pending <;> rfl

/-- Two plain lines show what the line in front of them does. -/
theorem indentsFrom_after_inj (hu : isBlank unit.char = true) (h : unit.count ≠ 0) {level : Nat}
    {r r' : Turn}
    (same : indentsFrom unit (r.after level) ["x".toList, "x".toList] =
      indentsFrom unit (r'.after level) ["x".toList, "x".toList]) : r = r' := by
  have plain : (trim "x".toList).isEmpty = false := by decide
  simp only [indentsFrom_cons hu, plain, step_plain, behind_plain, List.cons.injEq, Bool.false_eq_true,
    ite_false, atLevel_inj h] at same
  obtain ⟨first, second, -⟩ := same
  cases r <;> cases r' <;> simp_all [Turn.after]

end Indents

/-- A line of code with a comment behind it, or with none. Between them blanks may stand, and the
comment is a piece of the line, so it begins outside of strings. -/
inductive Commented (code : Text) : Option Text → Text → Prop
  | bare {gap : Text} : (∀ c ∈ gap, isBlank c = true) → Commented code none (code ++ gap)
  | behind {gap comment : Text} : (∀ c ∈ gap, isBlank c = true) →
      "//".toList.isPrefixOf comment = true →
      pieces (code ++ gap ++ comment) = pieces (code ++ gap) ++ [.literal comment] →
      Commented code (some comment) (code ++ gap ++ comment)

/-- What code with this comment behind it does. -/
def turnBehind (code : Text) : Option Text → Turn
  | none => turn (trim code)
  | some comment => if endsWith opensGroup (trimEnd comment) then .deeper else .level

section Behind

variable {x comment : Text} (hn : '\n' ∉ x ++ comment)
  (cut : pieces (x ++ comment) = pieces x ++ [.literal comment])

include hn cut

/-- The mark of the comment ends the masked line. -/
theorem getLast?_mask_trim : (mask (trim (x ++ comment))).1.getLast? = some mark := by
  let body := trimStart (x ++ comment)
  have inside : '\n' ∉ body := fun hm => hn ((List.dropWhile_sublist _).subset hm)
  have last : (pieces body).getLast? = some (.literal comment) := by
    have parts : (x ++ comment).takeWhile isBlank ++ body = x ++ comment :=
      List.takeWhile_append_dropWhile
    have split := pieces_blanks_append (b := (x ++ comment).takeWhile isBlank)
      (List.all_eq_true.mp List.all_takeWhile) body
    rw [parts, cut] at split
    have ends := congrArg List.getLast? split
    rw [List.getLast?_concat] at ends
    by_cases none : pieces body = []
    · rw [none, List.append_nil] at ends
      obtain ⟨c, -, hc⟩ := List.mem_map.mp (List.mem_of_getLast? ends.symm)
      cases hc
    · rw [ends, List.getLast?_append_of_ne_nil _ none]
  have trimmed : trimEnd (numbered 0 (pieces body)) = numbered 0 (pieces body) := by
    refine trimEnd_numbered fun c hc => ?_
    rw [last] at hc
    cases hc
  rw [show trim (x ++ comment) = trimEnd body from rfl, mask_trimEnd inside, mask, trimmed,
    getLast?_numbered, last]
  rfl

/-- Code does not count where a comment stands behind it. -/
theorem turn_behind (slashes : "//".toList.isPrefixOf comment = true) :
    turn (trim (x ++ comment)) = if endsWith opensGroup (trimEnd comment) then .deeper else .level := by
  obtain ⟨s, hs⟩ : ∃ s, comment = '/' :: s := by
    cases comment with
    | nil => cases slashes
    | cons c s => exact ⟨s, congrArg (· :: s) ((startsComment_iff c s).mp slashes).1⟩
  have first : trimEnd comment = '/' :: trimEnd s := by
    rw [hs]
    exact trimEnd_append_ink (w := ['/']) (List.forall_mem_singleton.mpr rfl) s
  have body : trimStart (x ++ comment) = trimStart x ++ comment := by
    rw [trimStart, trimStart, List.dropWhile_append]
    split
    · next none =>
        rw [List.isEmpty_iff.mp none, hs]
        rfl
    · rfl
  have trimmed : trim (x ++ comment) = trimStart x ++ '/' :: trimEnd s := by
    rw [show trim (x ++ comment) = trimEnd (trimStart (x ++ comment)) from rfl, body, trimEnd_append,
      first, if_neg (List.cons_ne_nil _ _)]
  have ends : endsWith opensGroup (trim (x ++ comment)) = endsWith opensGroup (trimEnd comment) := by
    rw [trimmed, first, endsWith, endsWith, List.getLast?_append_of_ne_nil _ (List.cons_ne_nil _ _)]
  have noElse : isElse (trim (x ++ comment)) = false := by
    rw [← Bool.not_eq_true]
    intro helse
    have slash := isElsePart_of_isElse helse '/'
      (trimmed ▸ List.mem_append_right _ (List.mem_cons_self ..))
    exact absurd slash (by decide)
  have noControl : Header.isControl ControlKeyword.indenting (trim (x ++ comment)) = false := by
    rw [Header.isControl_eq, trim_trim, ← Bool.not_eq_true]
    intro control
    obtain ⟨k, -, hheads⟩ := List.any_eq_true.mp control
    obtain ⟨m, hm⟩ := concat_of_heads hheads
    have last := getLast?_mask_trim hn cut
    rw [← hm, List.getLast?_concat] at last
    exact absurd (Option.some.inj last) (by decide)
  rw [turn, ends, noElse, noControl]
  rfl

end Behind

theorem turn_of_commented {code line : Text} {k : Option Text} (h : Commented code k line)
    (hn : '\n' ∉ line) : turn (trim line) = turnBehind code k := by
  cases h with
  | bare gap => rw [turnBehind, ← trimStart_trimEnd, trimEnd_append_blanks gap, trimStart_trimEnd]
  | behind _ slashes cut => exact turn_behind hn cut slashes

/-- A trimmed text begins with the first character that is not blank. -/
theorem head?_trim (t : Text) : (trim t).head? = (t.filter isInk).head? := by
  have same : (trim t).filter isInk = t.filter isInk := by
    rw [trim, trimBoth, filter_dropEndWhile isInk_of_isBlank, filter_dropWhile isInk_of_isBlank]
  rw [← same, ← trimStart_trimEnd]
  have front := unindented_trimStart (trimEnd t)
  cases htrim : trimStart (trimEnd t) with
  | nil => rfl
  | cons c r =>
      rw [htrim] at front
      rw [List.filter_cons_of_pos (by simp [isInk, unindented_cons.mp front])]
      rfl

/-- The code settles how the line begins, or the comment if there is no code. -/
theorem head?_trim_commented {code line : Text} {k : Option Text} (h : Commented code k line) :
    (trim line).head? = (trim code).head?.or (k.map fun _ => '/') := by
  have clean {gap : Text} (hgap : ∀ c ∈ gap, isBlank c = true) : gap.filter isInk = [] :=
    filter_eq_nil_of_all isInk_of_isBlank hgap
  rw [head?_trim, head?_trim]
  cases h with
  | bare hgap => rw [List.filter_append, clean hgap, List.append_nil, Option.map_none, Option.or_none]
  | @behind gap comment hgap slashes cut =>
      rw [List.filter_append, List.filter_append, clean hgap, List.append_nil, List.head?_append]
      cases comment with
      | nil => cases slashes
      | cons c s =>
          obtain ⟨rfl, -⟩ := (startsComment_iff c s).mp slashes
          rfl

section Lines

variable {code line line' : Text} {k k' : Option Text} (h : Commented code k line)
  (h' : Commented code k' line')

include h h'

/-- Lines with one code and different comments begin alike, unless there is a comment only. -/
theorem head?_trim_congr (kept : trim code = [] → k.isSome = k'.isSome) :
    (trim line).head? = (trim line').head? := by
  rw [head?_trim_commented h, head?_trim_commented h']
  cases hcode : trim code with
  | nil =>
      have same := kept hcode
      cases k <;> cases k' <;> simp_all
  | cons c r => rfl

variable {unit : IndentUnit} (hu : isBlank unit.char = true) (hn : '\n' ∉ line) (hn' : '\n' ∉ line')
  (kept : trim code = [] → k.isSome = k'.isSome)

include hu hn hn' kept

/-- From one state on, all lines behind have the same indentation just if the line does the same
with both comments, or if there is nothing to indent with. -/
theorem indentsFrom_commented_iff (s : State) :
    (∀ behind, (∀ l ∈ behind, '\n' ∉ l) →
        indentsFrom unit s (line :: behind) = indentsFrom unit s (line' :: behind)) ↔
      unit.count = 0 ∨ turnBehind code k = turnBehind code k' := by
  have heads := head?_trim_congr h h' kept
  have starts (p : Char → Bool) : startsWith p (trim line) = startsWith p (trim line') := by
    cases hl : trim line <;> cases hl' : trim line' <;> simp_all [startsWith]
  have empty : (trim line).isEmpty = (trim line').isEmpty := by
    cases hl : trim line <;> cases hl' : trim line' <;> simp_all
  have level : (step s (trim line)).1 = (step s (trim line')).1 := by simp only [step, starts]
  have base : s.base (trim line) = s.base (trim line') := by rw [State.base, State.base, starts]
  rw [← turn_of_commented h hn, ← turn_of_commented h' hn']
  constructor
  · intro same
    refine or_iff_not_imp_left.mpr fun count => ?_
    cases hempty : (trim line').isEmpty with
    | true => rw [List.isEmpty_iff.mp hempty, List.isEmpty_iff.mp (empty.trans hempty)]
    | false =>
        have shown := same ["x".toList, "x".toList] (by decide)
        rw [indentsFrom_cons hu s line, indentsFrom_cons hu s line', State.behind, State.behind, empty,
          hempty, snd_step, snd_step, base] at shown
        exact indentsFrom_after_inj hu count (List.cons.inj shown).2
  · rintro (count | turns) behind -
    · rw [indentsFrom_of_count_eq_zero hu count, indentsFrom_of_count_eq_zero hu count]
      rfl
    · rw [indentsFrom_cons hu, indentsFrom_cons hu, State.behind, State.behind, empty, level, snd_step,
        snd_step, turns, base]

end Lines

end Indentation

namespace FormatSettings

open Indentation

theorem indents_indentation {s : FormatSettings} {unit : IndentUnit} (hunit : s.indentUnit = .ok unit)
    {ls : List Text} (hne : ls ≠ []) (h : ∀ l ∈ ls, '\n' ∉ l) :
    (s.indentation (unlines ls)).map indents = .ok (indentsFrom unit {} ls) := by
  rw [indentation, hunit]
  exact congrArg Except.ok (indents_apply (isSpaceOrTab_of_indentUnit hunit) hne h)

/-- Behind a line a comment is put, taken away or reworded: whatever lines follow, none gets other
indentation just if the line does the same to them before and after. -/
theorem comments_keep_indents_iff (s : FormatSettings) {code line line' : Text} {k k' : Option Text}
    (h : Commented code k line) (h' : Commented code k' line') (hn : '\n' ∉ line) (hn' : '\n' ∉ line')
    (kept : trim code = [] → k.isSome = k'.isSome) {before : List Text}
    (hb : ∀ l ∈ before, '\n' ∉ l) :
    (∀ behind : List Text, (∀ l ∈ behind, '\n' ∉ l) →
        (s.indentation (unlines (before ++ line :: behind))).map indents =
          (s.indentation (unlines (before ++ line' :: behind))).map indents) ↔
      ∀ unit, s.indentUnit = .ok unit → unit.count = 0 ∨ turnBehind code k = turnBehind code k' := by
  cases hunit : s.indentUnit with
  | error fault =>
      have fails : s.indentation = Plan.failing fault := by rw [indentation, hunit]
      rw [fails]
      exact iff_of_true (fun _ _ => rfl) fun _ found => by cases found
  | ok unit =>
      have hu := isBlank_of_indentUnit hunit
      have onLines {l : Text} (hl : '\n' ∉ l) {behind : List Text} (hbehind : ∀ l ∈ behind, '\n' ∉ l) :
          ∀ m ∈ before ++ l :: behind, '\n' ∉ m :=
        List.forall_mem_append.mpr ⟨hb, List.forall_mem_cons.mpr ⟨hl, hbehind⟩⟩
      simp only [Except.ok.injEq, forall_eq']
      rw [← indentsFrom_commented_iff h h' hu hn hn' kept (before.foldl State.behind {})]
      refine forall_congr' fun behind => forall_congr' fun hbehind => ?_
      rw [indents_indentation hunit (by simp) (onLines hn hbehind),
        indents_indentation hunit (by simp) (onLines hn' hbehind), Except.ok.injEq,
        indentsFrom_append hu, indentsFrom_append hu, List.append_cancel_left_eq]

/-- Behind a bracket that opens a block a comment takes the block back to the level of its header,
and the same comment behind an assignment moves nothing. -/
theorem comments_keep_indents_iff_opened :
    (¬∀ behind : List Text, (∀ l ∈ behind, '\n' ∉ l) →
        (indentation {} (unlines (["\t f()".toList] ++ "if (a) \x7b".toList :: behind))).map indents =
          (indentation {} (unlines (["\t f()".toList] ++ "if (a) \x7b // b".toList :: behind))).map
            indents) ∧
      ∀ behind : List Text, (∀ l ∈ behind, '\n' ∉ l) →
        (indentation {} (unlines (["\t f()".toList] ++ "a = 1".toList :: behind))).map indents =
          (indentation {} (unlines (["\t f()".toList] ++ "a = 1 // b".toList :: behind))).map indents := by
  have bare (code : Text) : Commented code none code := by
    have alone := @Commented.bare code [] (List.forall_mem_nil _)
    rwa [List.append_nil] at alone
  have opened : Commented "if (a) \x7b".toList (some "// b".toList) "if (a) \x7b // b".toList :=
    @Commented.behind _ [' '] _ (List.forall_mem_singleton.mpr rfl) (by decide) (by decide)
  have assigned : Commented "a = 1".toList (some "// b".toList) "a = 1 // b".toList :=
    @Commented.behind _ [' '] _ (List.forall_mem_singleton.mpr rfl) (by decide) (by decide)
  refine ⟨fun same => ?_, (comments_keep_indents_iff {} (bare _) assigned (by decide) (by decide)
    (by decide) (by decide)).mpr fun unit _ => .inr (by decide)⟩
  have settled := (comments_keep_indents_iff {} (bare _) opened (by decide) (by decide) (by decide)
    (by decide)).mp same (.spaces 2) rfl
  exact absurd settled (by decide)

end FormatSettings
end MotionExpr
