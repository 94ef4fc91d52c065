import MotionExpr.Proofs.Format.Atoms
import MotionExpr.Proofs.Format.CommentLines

/-!
The last character of code and of what the passes make of it. Masked code ends as the code
does or in a mark, restored code ends as the code or as a literal does, and a transform of
masked code puts nothing behind a character that is no gap. A blank that is not taken for a
gap, such as a no-break space, stays at the end.
-/

namespace MotionExpr

open Text Literal

namespace Text

variable {p : Char → Bool}

theorem getLast?_dropWhile {t : Text} {c : Char} (h : t.getLast? = some c) (hc : p c = false) :
    (t.dropWhile p).getLast? = some c := by
  obtain ⟨front, rfl⟩ := List.getLast?_eq_some_iff.mp h
  rw [List.dropWhile_append]
  split
  · rw [List.dropWhile_cons_of_neg (by simp [hc])]
    rfl
  · rw [List.getLast?_concat]

theorem getLast?_filter {t : Text} {c : Char} (h : t.getLast? = some c) (hc : p c = true) :
    (t.filter p).getLast? = some c := by
  obtain ⟨front, rfl⟩ := List.getLast?_eq_some_iff.mp h
  rw [List.filter_append, List.filter_cons_of_pos hc, List.filter_nil, List.getLast?_concat]

end Text

/-! The last character of masked and of restored code. -/

namespace LineEnd

/-- The line does not end in a blank that is trimmed. -/
def Trimmed (l : Text) : Prop := ∀ c ∈ l.getLast?, isTrailing c = false

theorem isTrailing_of_ink {c : Char} (h : isBlank c = false) : isTrailing c = false := by
  refine eq_false_of_ne_true fun trailing => ?_
  rw [isBlank_of_isTrailing trailing] at h
  cases h

theorem isTrailing_of_isSpaceOrTab {c : Char} (h : isSpaceOrTab c = true) :
    isTrailing c = true := by
  simp only [isSpaceOrTab, Bool.or_eq_true, beq_iff_eq] at h
  rcases h with rfl | rfl <;> decide

theorem Trimmed.of_append {a b : Text} (h : Trimmed (a ++ b)) : Trimmed b :=
  fun c hc => h c (List.mem_getLast?_append_of_mem_getLast? hc)

theorem Trimmed.append {a b : Text} (hb : Trimmed b) (some : b ≠ []) : Trimmed (a ++ b) := by
  intro c hc
  rw [List.getLast?_append_of_ne_nil a some] at hc
  exact hb c hc

theorem trimmed_append {a b : Text} (ha : Trimmed a) (hb : Trimmed b) : Trimmed (a ++ b) := by
  intro c hc
  rw [List.getLast?_append, Option.mem_def] at hc
  cases h : b.getLast? with
  | none =>
      rw [h] at hc
      exact ha c hc
  | some d =>
      rw [h] at hc
      exact hb c (h.trans hc)

end LineEnd

namespace Literal

open LineEnd

/-- Masked code ends as the code does, or in a mark. -/
theorem getLast?_mask {body : Text} {c : Char} (h : (mask body).1.getLast? = some c) :
    c = mark ∨ body.getLast? = some c := by
  rw [mask, getLast?_numbered, Option.map_eq_some_iff] at h
  obtain ⟨p, hp, rfl⟩ := h
  cases p with
  | literal t => exact .inl rfl
  | code c =>
      obtain ⟨front, parts⟩ := List.getLast?_eq_some_iff.mp hp
      have whole := flatMap_text_pieces body
      rw [parts, List.flatMap_append] at whole
      refine .inr ?_
      rw [← whole]
      exact List.getLast?_concat ..

theorem trimmed_mask {body : Text} (h : Trimmed body) : Trimmed (mask body).1 := by
  intro c hc
  rcases getLast?_mask hc with rfl | last
  · decide
  · exact h c last

theorem mem_of_mem_mask {body : Text} {c : Char} (blank : isBlank c = true)
    (h : c ∈ (mask body).1) : c ∈ body := by
  rcases mem_of_mem_numbered h with code | ink
  · exact mem_of_code_mem_pieces code
  · rw [blank] at ink
    cases ink

theorem mask_ne_nil {body : Text} (some : body ≠ []) : (mask body).1 ≠ [] := by
  intro none
  have parts := flatMap_text_pieces body
  rw [numbered_eq_nil none] at parts
  exact some parts.symm

/-- A literal of a trimmed line ends in a quote, or as the line does. -/
theorem trimmed_literal {body l : Text} (onLine : '\n' ∉ body) (trimmed : Trimmed body)
    (h : l ∈ (mask body).2) : l ≠ [] ∧ Trimmed l := by
  obtain ⟨c, r, first, -⟩ := head_of_mem_literals h
  refine ⟨fun none => List.cons_ne_nil c r (first.symm.trans none), ?_⟩
  obtain ⟨front, back, parts⟩ := List.append_of_mem (mem_literals.mp h)
  obtain ⟨alone, last⟩ := of_pieces_append_literal onLine parts
  cases comment : "//".toList.isPrefixOf l with
  | true =>
      have whole := flatMap_text_pieces body
      rw [parts, last comment, List.flatMap_append, List.flatMap_singleton] at whole
      intro d hd
      refine trimmed d ?_
      rw [← whole]
      exact List.mem_getLast?_append_of_mem_getLast? hd
  | false =>
      obtain ⟨x, q, rfl, quote⟩ := concat_of_pieces_eq_literal alone comment
      intro d hd
      rw [List.getLast?_concat, Option.mem_some] at hd
      subst hd
      exact isTrailing_of_ink (Token.plain_of_isQuote quote).1

/-- What is restored ends as the code or as a literal, whatever the marks in the code name. -/
theorem trimmed_of_restore {ls : List Text} (hls : ∀ l ∈ ls, l ≠ [] ∧ Trimmed l) {code u : Text}
    (some : code ≠ []) (trimmed : Trimmed code) (h : restore ls code = .ok u) :
    u ≠ [] ∧ Trimmed u := by
  suffices step : ∀ code skip u, Trimmed code → restoreFrom ls skip code = .ok u →
      (u = [] → code.length ≤ skip) ∧ Trimmed u by
    obtain ⟨short, last⟩ := step code 0 u trimmed h
    exact ⟨fun none => some (List.eq_nil_of_length_eq_zero (Nat.le_zero.mp (short none))), last⟩
  intro code
  induction code with
  | nil =>
      intro skip u _ hu
      cases skip <;> cases hu <;> exact ⟨fun _ => Nat.zero_le _, nofun⟩
  | cons d r ih =>
      intro skip u ends hu
      have rest : Trimmed r := by
        intro c hc
        refine ends c ?_
        rw [List.getLast?_cons, Option.mem_def.mp hc]
        rfl
      cases skip with
      | succ skip =>
          obtain ⟨short, last⟩ := ih skip u rest hu
          exact ⟨fun none => Nat.succ_le_succ (short none), last⟩
      | zero =>
          rw [restoreFrom] at hu
          split at hu
          · obtain ⟨l, hl, hu⟩ := bind_eq_ok_iff.mp hu
            obtain ⟨v, hv, hu⟩ := bind_eq_ok_iff.mp hu
            cases hu
            obtain ⟨nonempty, last⟩ := hls l (mem_of_lookUp hl)
            exact ⟨fun none => absurd (List.append_eq_nil_iff.mp none).1 nonempty,
              trimmed_append last (ih _ v rest hv).2⟩
          · obtain ⟨v, hv, hu⟩ := bind_eq_ok_iff.mp hu
            cases hu
            obtain ⟨short, last⟩ := ih 0 v rest hv
            refine ⟨fun none => absurd none (List.cons_ne_nil d v), ?_⟩
            cases v with
            | nil =>
                -- nothing is restored from nothing only, so the character ends the code
                have none : r = [] := List.eq_nil_of_length_eq_zero (Nat.le_zero.mp (short rfl))
                rw [none] at ends
                exact ends
            | cons e v => exact last

end Literal

/-! The transforms of masked code. -/

namespace Line

open LineEnd

/-- The mark behind a literal, and the blanks that are not taken for gaps. -/
def stays (c : Char) : Bool := c == mark || (isBlank c && !isSpaceOrTab c)

/-- The transform changes nothing but spaces and tabs, and puts none behind what stays. -/
structure KeepsEnd (f : Text → Text) : Prop where
  filter : ∀ t, (f t).filter (!isSpaceOrTab ·) = t.filter (!isSpaceOrTab ·)
  last : ∀ {t c}, stays c = true → t.getLast? = some c → (f t).getLast? = some c

theorem not_stays_of_isSpaceOrTab {c : Char} (h : isSpaceOrTab c = true) : stays c = false := by
  rw [stays, h, Bool.not_true, Bool.and_false, Bool.or_false]
  refine beq_false_of_ne fun marked => ?_
  subst marked
  cases h

theorem not_stays_of_ink {c : Char} (h : isBlank c = false) (unmarked : c ≠ mark) :
    stays c = false := by
  rw [stays, h, Bool.false_and, Bool.or_false]
  exact beq_false_of_ne unmarked

section Rule

variable {rule : Text.Rule} {Found : (passed found rest text : Text) → Prop}
  (finds : rule.Finds Found) (ends : ∀ passed found rest text, Found passed found rest text →
    ∀ c ∈ found.getLast?, stays c = false)

include finds ends

/-- What stays is not found at the end. -/
theorem last_of_finds {t : Text} {c : Char} (hc : stays c = true) (h : t.getLast? = some c) :
    (substitute rule t).getLast? = some c := by
  refine finds.getLast?_of_ends (fun passed found rest text hf last => ?_) [] h
  rw [ends passed found rest text hf _ last] at hc
  cases hc

theorem keepsEnd_of_finds (same : ∀ passed found rest text, Found passed found rest text →
    text.filter (!isSpaceOrTab ·) = found.filter (!isSpaceOrTab ·)) :
    KeepsEnd (substitute rule) where
  filter := finds.filter same []
  last := last_of_finds finds ends

end Rule

end Line

open Line

namespace Bracket

theorem getLast?_spaceFrom (passed : Text) (spaced : List Bool) (t : Text) :
    (spaceFrom passed spaced t).getLast? = t.getLast? := by
  induction t generalizing passed spaced with
  | nil => rfl
  | cons c r ih =>
      cases r with
      | nil =>
          simp only [spaceFrom, needsSpaceBefore, Bool.and_false, Bool.false_eq_true, if_false]
          split
          · rfl
          · split
            · rw [List.getLast?_concat]
              rfl
            · rfl
      | cons d r =>
          obtain ⟨front, back, kept, -, -, heq⟩ := spaceFrom_cons passed spaced c (d :: r)
          rw [heq, List.getLast?_append, ih, List.getLast?_cons_cons, List.getLast?_cons]
          rfl

theorem filter_spaceFrom (passed : Text) (spaced : List Bool) (t : Text) :
    (spaceFrom passed spaced t).filter (!isSpaceOrTab ·) = t.filter (!isSpaceOrTab ·) := by
  induction t generalizing passed spaced with
  | nil => rfl
  | cons c r ih =>
      obtain ⟨front, back, kept, hfront, hback, heq⟩ := spaceFrom_cons passed spaced c r
      have none {gap : Text} {P : Prop} (h : gap = [] ∨ gap = [' '] ∧ P) :
          gap.filter (!isSpaceOrTab ·) = [] := by
        rcases h with rfl | ⟨rfl, -⟩ <;> rfl
      rw [heq, List.filter_append, List.filter_append, none hfront, List.nil_append,
        List.filter_cons, none hback, ih, List.filter_cons]
      split <;> rfl

theorem keepsEnd_space : KeepsEnd space where
  filter := filter_spaceFrom [] []
  last _ h := (getLast?_spaceFrom [] [] _).trans h

end Bracket

theorem Call.keepsEnd_tighten : KeepsEnd Call.tighten := by
  refine keepsEnd_of_finds Call.finds_join ?_ ?_
  · rintro passed _ rest _ ⟨-, -, -, -⟩ c hc
    rw [← List.append_assoc, List.getLast?_concat] at hc
    obtain rfl := Option.mem_some.mp hc
    decide
  · rintro passed _ rest _ ⟨-, -, hgap, hkept⟩
    rcases hkept with rfl | rfl
    · rw [List.filter_append, List.filter_append, List.filter_append, List.filter_append,
        filter_eq_nil_of_all not_gap hgap]
      rfl
    · rfl

theorem Comma.keepsEnd_space : KeepsEnd Comma.space := by
  refine keepsEnd_of_finds Comma.finds_respace ?_ ?_
  · rintro passed _ rest _ ⟨hgap, hbehind⟩ c hc
    rcases List.mem_append.mp (List.mem_of_getLast? hc) with hc | hc
    · exact not_stays_of_isSpaceOrTab (hgap c hc)
    · rcases List.mem_cons.mp hc with rfl | hc
      · decide
      · exact not_stays_of_isSpaceOrTab (hbehind c hc)
  · rintro passed _ rest _ ⟨hgap, hbehind⟩
    have comma (t : Text) :
        (',' :: t).filter (!isSpaceOrTab ·) = ',' :: t.filter (!isSpaceOrTab ·) := rfl
    rw [List.filter_append, filter_eq_nil_of_all not_gap hgap, comma, comma,
      filter_eq_nil_of_all not_gap hbehind]
    rfl

namespace Operator

theorem keepsEnd_space : KeepsEnd space where
  filter := filter_space not_gap
  last hc h := by
    rw [space]
    refine last_of_finds finds_negation ?_ hc
      (last_of_finds finds_squeeze ?_ hc (last_of_finds finds_respace ?_ hc h))
    · rintro passed _ rest _ ⟨-, hgap, -⟩ c hc
      rcases List.mem_cons.mp (List.mem_of_getLast? hc) with rfl | hc
      · decide
      · exact not_stays_of_isSpaceOrTab (hgap c hc)
    · rintro passed found rest _ ⟨-, spaces⟩ c hc
      obtain rfl := spaces c (List.mem_of_getLast? hc)
      decide
    · rintro passed _ rest _ ⟨bare, hgap, hbehind, hop, -⟩ c hc
      rcases List.mem_append.mp (List.mem_of_getLast? hc) with hc | hc
      · exact not_stays_of_isSpaceOrTab (hgap c hc)
      · rcases List.mem_append.mp hc with hc | hc
        · obtain ⟨unmarked, -, ink⟩ := (symbols_of_mem_all (of_operator? hop).1).2 c hc
          exact not_stays_of_ink ink unmarked
        · exact not_stays_of_isSpaceOrTab (hbehind c hc)

end Operator

/-! Tidied code. -/

namespace Line

open LineEnd

theorem mem_indent {l : Text} {c : Char} (h : c ∈ (splitIndent l).1) : c ∈ l :=
  (List.takeWhile_sublist _).mem h

theorem mem_body {l : Text} {c : Char} (h : c ∈ (splitIndent l).2) : c ∈ l :=
  (List.dropWhile_sublist _).mem h

variable {f : Text → Text} (keeps : KeepsEnd f) {body : Text}

include keeps

/-- Tidied code ends as masked code does that ends in no gap, or in what stays. -/
theorem last_of_tidy {d : Char} (hlast : (mask body).1.getLast? = some d)
    (stay : endsBlank body = true → stays d = true)
    (ink : endsBlank body = false → isSpaceOrTab d = false) {c : Char}
    (hc : (tidy body (f (mask body).1)).getLast? = some c) : d = c := by
  rw [tidy] at hc
  split at hc
  · next blank =>
      have kept := getLast?_dropWhile (keeps.last (stay blank) hlast) (p := isSpaceOrTab) <|
        eq_false_of_ne_true fun gap => by
          have staying := stay blank
          rw [not_stays_of_isSpaceOrTab gap] at staying
          cases staying
      exact Option.some.inj (kept.symm.trans hc)
  · next bare =>
      have gap := any_getLast?_dropEndWhile isSpaceOrTab ((f (mask body).1).dropWhile isSpaceOrTab)
      rw [hc, Option.any_some] at gap
      have shown := getLast?_filter hc (p := (!isSpaceOrTab ·)) (by rw [gap, Bool.not_false])
      rw [filter_dropEndWhile not_gap, filter_dropWhile not_gap, keeps.filter,
        getLast?_filter hlast (by rw [ink (eq_false_of_ne_true bare), Bool.not_false])] at shown
      exact Option.some.inj shown

/-- A body that does not end in a blank that is trimmed is not made to. -/
theorem trimmed_tidy (trimmed : Trimmed body) : Trimmed (tidy body (f (mask body).1)) := by
  intro c hc
  rw [Option.mem_def] at hc
  cases hlast : (mask body).1.getLast? with
  | none =>
      have empty : body = [] :=
        by_contra fun some => mask_ne_nil some (List.getLast?_eq_none_iff.mp hlast)
      subst empty
      have gap : isSpaceOrTab c = false := by
        have stop := any_getLast?_dropEndWhile isSpaceOrTab ((f []).dropWhile isSpaceOrTab)
        rwa [show dropEndWhile isSpaceOrTab ((f []).dropWhile isSpaceOrTab) = tidy [] (f [])
            from rfl,
          show (tidy [] (f [])).getLast? = some c from hc] at stop
      have shown := getLast?_filter hc (p := (!isSpaceOrTab ·)) (by rw [gap, Bool.not_false])
      rw [filter_tidy not_gap, keeps.filter] at shown
      cases shown
  | some d =>
      rcases getLast?_mask hlast with rfl | hbody
      · obtain rfl := last_of_tidy keeps hlast (fun _ => by decide) (fun _ => by decide) hc
        decide
      · have other := trimmed d hbody
        have gap := mt isTrailing_of_isSpaceOrTab (ne_true_of_eq_false other)
        have blank : endsBlank body = isBlank d := by rw [endsBlank, hbody]
        have same : d = c := by
          refine last_of_tidy keeps hlast (fun ends => ?_) (fun _ => eq_false_of_ne_true gap) hc
          rw [stays, ← blank, ends, eq_false_of_ne_true gap]
          exact Bool.or_true _
        exact same ▸ other

/-- Tidied code begins as the body or its first literal does. -/
theorem head_tidy (front : Unindented body) (some : body ≠ []) :
    ∃ c r, tidy body (f (mask body).1) = c :: r ∧ isBlank c = false := by
  obtain ⟨c, r, hmask⟩ := List.exists_cons_of_ne_nil (mask_ne_nil some)
  have ink := unindented_mask front
  rw [hmask, unindented_cons] at ink
  have start := head?_tidy body (f (mask body).1)
  have same : (tidy body (f (mask body).1)).filter (!isSpaceOrTab ·) =
      c :: r.filter (!isSpaceOrTab ·) := by
    rw [filter_tidy not_gap, keeps.filter, hmask,
      List.filter_cons_of_pos (by rw [not_isSpaceOrTab ink, Bool.not_false])]
  cases tidied : tidy body (f (mask body).1) with
  | nil =>
      rw [tidied] at same
      cases same
  | cons d s =>
      rw [tidied, List.head?_cons, Option.any_some] at start
      rw [tidied, List.filter_cons_of_pos (by rw [start, Bool.not_false])] at same
      rw [(List.cons_eq_cons.mp same).1]
      exact ⟨c, s, rfl, ink⟩

/-- Tidied code has no blanks but spaces and tabs that the body has not. -/
theorem mem_of_mem_tidy {c : Char} (blank : isBlank c = true) (other : isSpaceOrTab c = false)
    (hc : c ∈ tidy body (f (mask body).1)) : c ∈ body := by
  have kept : c ∈ (tidy body (f (mask body).1)).filter (!isSpaceOrTab ·) :=
    List.mem_filter.mpr ⟨hc, by rw [other, Bool.not_false]⟩
  rw [filter_tidy not_gap, keeps.filter] at kept
  exact mem_of_mem_mask blank (List.mem_of_mem_filter kept)

/-- No other blanks come into a line. -/
theorem mem_of_mapCode {l u : Text} (hu : mapCode f l = .ok u) {c : Char} (blank : isBlank c = true)
    (other : isSpaceOrTab c = false) (hc : c ∈ u) : c ∈ l := by
  rw [mapCode] at hu
  dsimp only at hu
  split at hu
  · cases hu
    exact hc
  · obtain ⟨v, hv, rfl⟩ := map_eq_ok_iff.mp hu
    rcases List.mem_append.mp hc with hc | hc
    · exact mem_indent hc
    · rcases mem_of_restore hv c hc with hc | ⟨t, ht, hc⟩
      · exact mem_body (mem_of_mem_tidy keeps blank other hc)
      · exact mem_body (mem_of_mem_literals ht hc)

end Line

namespace Semicolon

/-- No blanks come into a line. -/
theorem mem_of_terminateLine {l u : Text} (hu : terminateLine l = .ok u) {c : Char}
    (blank : isBlank c = true) (hc : c ∈ u) : c ∈ l := by
  obtain rfl | ⟨a, b, restored, masked, hr, rfl⟩ := of_terminateLine hu
  · exact hc
  · have front {d : Char} (hd : d ∈ trimEnd (splitIndent l).2) : d ∈ l :=
      mem_body ((isPrefix_dropEndWhile isBlank _).mem hd)
    rcases List.mem_append.mp hc with hc | hc
    · rcases List.mem_append.mp hc with hc | hc
      · exact mem_indent hc
      · rcases mem_of_restore hr c hc with hc | ⟨t, ht, hc⟩
        · refine front (mem_of_mem_mask blank ?_)
          have other : c ≠ ';' := by
            rintro rfl
            cases blank
          rw [masked]
          simpa [other] using hc
        · exact front (mem_of_mem_literals ht hc)
    · exact mem_body ((List.drop_sublist _ _).mem hc)

end Semicolon

end MotionExpr
