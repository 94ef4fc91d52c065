import MotionExpr.Proofs.Format.Rows

/-!
Bodies whose blanks are spaces and tabs, with none in front. The passes that go line
by line keep them so, whether or not the text holds marks of its own: a pass adds no
blank but a space, trims the start of what it changed, and a literal that is put back
does not begin with a blank.
-/

namespace MotionExpr

open Text Literal

namespace Text

/-- All blanks are spaces or tabs. -/
def Spaced (t : Text) : Prop := ∀ c ∈ t, isBlank c = true → isSpaceOrTab c = true

structure Compact (t : Text) : Prop where
  spaced : Spaced t
  front : Unindented t

theorem spaced_append {a b : Text} : Spaced (a ++ b) ↔ Spaced a ∧ Spaced b := by
  simp only [Spaced, List.mem_append, or_imp, forall_and]

theorem spaced_cons {c : Char} {t : Text} :
    Spaced (c :: t) ↔ (isBlank c = true → isSpaceOrTab c = true) ∧ Spaced t :=
  List.forall_mem_cons

theorem Spaced.subset {a b : Text} (h : Spaced b) (hab : ∀ c ∈ a, c ∈ b) : Spaced a :=
  fun c hc => h c (hab c hc)

theorem Spaced.not_newline {t : Text} (h : Spaced t) : '\n' ∉ t :=
  fun hm => absurd (h '\n' hm (by decide)) (by decide)

theorem spaced_of_ink {t : Text} (h : ∀ c ∈ t, isBlank c = false) : Spaced t := by
  intro c hc hblank
  rw [h c hc] at hblank
  cases hblank

theorem spaced_nil : Spaced [] := List.forall_mem_nil _

theorem spaced_single : Spaced [' '] := List.forall_mem_singleton.mpr fun _ => rfl

theorem unindented_nil : Unindented [] := fun _ _ h => absurd h.symm (List.cons_ne_nil _ _)

theorem unindented_cons {c : Char} {t : Text} : Unindented (c :: t) ↔ isBlank c = false := by
  constructor
  · intro h
    exact h c t rfl
  · intro h d r heq
    rwa [← (List.cons_eq_cons.mp heq).1]

theorem Unindented.of_append {a b : Text} (h : Unindented (a ++ b)) : Unindented a := by
  rintro c r rfl
  exact h c (r ++ b) rfl

theorem Compact.of_append {a b : Text} (h : Compact (a ++ b)) : Compact a :=
  ⟨(spaced_append.mp h.spaced).1, h.front.of_append⟩

theorem compact_dropEndWhile {p : Char → Bool} {t : Text} (h : Compact t) :
    Compact (dropEndWhile p t) := by
  rw [← dropEndWhile_append_takeEndWhile p t] at h
  exact h.of_append

theorem unindented_dropWhile {t : Text} (h : Spaced t) : Unindented (t.dropWhile isSpaceOrTab) := by
  intro c r hd
  have stop := List.head?_dropWhile_not isSpaceOrTab t
  rw [hd, List.head?_cons] at stop
  dsimp only at stop
  rw [← Bool.not_eq_true]
  intro hblank
  have member : c ∈ t := (List.dropWhile_sublist _).subset (hd ▸ List.mem_cons_self ..)
  rw [h c member hblank] at stop
  cases stop

/-- A rule that writes no blanks but spaces and tabs, if there are no others ahead. -/
theorem spaced_substitute {rule : Rule}
    (hr : ∀ passed ahead m, rule passed ahead = some m → Spaced ahead → Spaced m.text)
    {t : Text} (h : Spaced t) : Spaced (substitute rule t) := by
  suffices step : ∀ passed skip, Spaced (substituteFrom rule passed skip t) from step [] 0
  induction t with
  | nil =>
      intro passed skip
      cases skip <;> exact h
  | cons c r ih =>
      have rest := ih (spaced_cons.mp h).2
      intro passed skip
      cases skip with
      | succ skip => exact rest (c :: passed) skip
      | zero =>
          cases hm : rule passed (c :: r) with
          | none =>
              rw [substituteFrom_of_none hm, spaced_cons]
              exact ⟨(spaced_cons.mp h).1, rest _ _⟩
          | some m =>
              rw [substituteFrom_of_some hm, spaced_append]
              exact ⟨hr passed _ m hm h, rest _ _⟩

end Text

/-! The transforms of code. -/

theorem Bracket.spaced_space {t : Text} (h : Spaced t) : Spaced (Bracket.space t) := by
  have gap {g : Text} (hg : g = [] ∨ g = [' ']) : Spaced g := by
    rcases hg with rfl | rfl <;> intro c hc <;> simp_all [isSpaceOrTab]
  suffices step : ∀ passed spaced, Spaced (spaceFrom passed spaced t) from step [] []
  induction t with
  | nil => exact fun _ _ => h
  | cons c r ih =>
      intro passed spaced
      obtain ⟨front, back, kept, hfront, hback, heq⟩ := spaceFrom_cons passed spaced c r
      rw [heq, List.append_assoc, spaced_append, List.cons_append, spaced_cons, spaced_append]
      exact ⟨gap (hfront.imp_right And.left), (spaced_cons.mp h).1, gap (hback.imp_right And.left), ih (spaced_cons.mp h).2 _ _⟩

theorem Call.spaced_tighten {t : Text} (h : Spaced t) : Spaced (Call.tighten t) := by
  apply spaced_substitute _ h
  intro passed ahead m hm hahead
  obtain ⟨found, rest, rfl, -⟩ := respacingRule passed ahead m hm
  have paren : Spaced ['('] := spaced_of_ink (List.forall_mem_singleton.mpr rfl)
  cases hsplit : found ++ rest with
  | nil =>
      rw [hsplit] at hm
      cases hm
  | cons c r =>
      rw [hsplit] at hm hahead
      simp only [join] at hm
      split at hm
      · have name : Spaced (c :: r.takeWhile continuesName) := by
          apply hahead.subset
          intro d hd
          rcases List.mem_cons.mp hd with rfl | hd
          · exact List.mem_cons_self ..
          · exact List.mem_cons_of_mem _ ((List.takeWhile_sublist _).subset hd)
        have blanks : Spaced ((r.dropWhile continuesName).takeWhile isSpaceOrTab) :=
          fun d hd _ => List.all_eq_true.mp List.all_takeWhile d hd
        split at hm
        · next b bs s hb _ =>
            cases hm
            rw [hb] at blanks
            dsimp only
            split
            · rw [hb]
              exact spaced_append.mpr ⟨spaced_append.mpr ⟨name, blanks⟩, paren⟩
            · exact spaced_append.mpr ⟨name, paren⟩
        · cases hm
      · cases hm

theorem Comma.spaced_space {t : Text} (h : Spaced t) : Spaced (Comma.space t) := by
  apply spaced_substitute _ h
  intro passed ahead m hm _
  simp only [respace] at hm
  split at hm
  · cases hm
    exact spaced_cons.mpr ⟨fun h => absurd h (by decide), spaced_single⟩
  · cases hm

namespace Operator

theorem spaced_placed (passed : Text) {op : Text} (hop : op ∈ all) (bare : Bool) :
    Spaced (placed passed op bare) := by
  have symbols : Spaced op := spaced_of_ink fun c hc => ((symbols_of_mem_all hop).2 c hc).2.2
  have lead : Spaced (lead passed) := by
    rw [lead]
    split
    · exact spaced_nil
    · split
      · exact spaced_nil
      · exact spaced_single
  simp only [placed]
  split
  · exact symbols
  · split
    · exact symbols
    · split
      · exact spaced_append.mpr ⟨lead, symbols⟩
      · exact spaced_append.mpr ⟨spaced_append.mpr ⟨spaced_single, symbols⟩, spaced_single⟩

theorem spaced_space {t : Text} (h : Spaced t) : Spaced (Operator.space t) := by
  have respaced : Spaced (substitute respace t) := by
    apply spaced_substitute _ h
    intro passed ahead m hm _
    simp only [respace] at hm
    split at hm
    · cases hm
    · next op hop =>
        cases hm
        exact spaced_placed passed (of_operator? hop).1 _
  have squeezed : Spaced (substitute squeeze (substitute respace t)) := by
    apply spaced_substitute _ respaced
    intro passed ahead m hm _
    simp only [squeeze] at hm
    split at hm
    · cases hm
    · split at hm
      · split at hm
        · cases hm
          exact spaced_single
        · cases hm
      · cases hm
  apply spaced_substitute _ squeezed
  intro passed ahead m hm _
  simp only [negation] at hm
  split at hm
  · split at hm
    · cases hm
    · cases hm
      exact spaced_cons.mpr ⟨fun h => absurd h (by decide), spaced_nil⟩
  · cases hm

end Operator

/-! Masking and restoring. -/

namespace Literal

theorem mem_of_mem_numbered {n : Nat} {ps : List Piece} {c : Char} (h : c ∈ numbered n ps) :
    .code c ∈ ps ∨ isBlank c = false := by
  induction ps generalizing n with
  | nil => cases h
  | cons p ps ih =>
      cases p with
      | code d =>
          rcases List.mem_cons.mp h with rfl | h
          · exact .inl (List.mem_cons_self ..)
          · exact (ih h).imp_left (List.mem_cons_of_mem _)
      | literal t =>
          rcases List.mem_append.mp h with h | h
          · refine .inr ?_
            simp only [placeholder, List.cons_append, List.mem_cons, List.mem_append,
              List.not_mem_nil, or_false] at h
            rcases h with rfl | h | rfl
            · decide
            · have digit := isAsciiDigit_of_mem_ofNat h
              exact of_ascii (P := fun c => isAsciiDigit c = true → isBlank c = false)
                (toNat_lt_of_isAsciiDigit digit) (by decide) digit
            · decide
          · exact (ih h).imp_left (List.mem_cons_of_mem _)

theorem mem_literals {ps : List Piece} {l : Text} : l ∈ literals ps ↔ .literal l ∈ ps := by
  induction ps with
  | nil => simp [literals]
  | cons p ps ih => cases p <;> simp [literals, ih]

/-- A literal stands where the scan finds one. -/
theorem exists_length?_of_mem_literals {t l : Text} (h : l ∈ literals (pieces t)) :
    ∃ c s rest n, length? c (s ++ rest) = some n ∧ l = c :: s := by
  rw [mem_literals] at h
  generalize hps : pieces t = ps at h
  induction ps generalizing t with
  | nil => cases h
  | cons p ps ih =>
      obtain ⟨c, r, rfl, -, rfl, tail⟩ | ⟨c, s, rest, rfl, hl, rfl, tail⟩ := of_pieces_eq_cons hps
      · exact ih tail ((List.mem_cons.mp h).resolve_left (by simp))
      · rcases List.mem_cons.mp h with h | h
        · cases h
          exact ⟨c, s, rest, _, hl, rfl⟩
        · exact ih tail h

/-- A literal begins with a quote or a slash. -/
theorem head_of_mem_literals {t l : Text} (h : l ∈ literals (pieces t)) :
    ∃ c r, l = c :: r ∧ isBlank c = false := by
  obtain ⟨c, s, rest, n, hl, rfl⟩ := exists_length?_of_mem_literals h
  refine ⟨c, s, rfl, eq_false_of_ne_true fun hblank => ?_⟩
  rw [length?_none_of_isBlank hblank] at hl
  cases hl

theorem mem_of_mem_literals {t l : Text} (h : l ∈ literals (pieces t)) {c : Char} (hc : c ∈ l) :
    c ∈ t := by
  rw [← flatMap_text_pieces t]
  exact List.mem_flatMap.mpr ⟨_, mem_literals.mp h, hc⟩

theorem mem_of_lookUp {ls : List Text} {digits l : Text} (h : lookUp ls digits = .ok l) :
    l ∈ ls := by
  simp only [lookUp] at h
  split at h
  · cases h
  · split at h
    · next found =>
        cases h
        exact List.mem_of_getElem? found
    · cases h

/-- What is restored is code or comes from a literal, whatever the marks in the code name. -/
theorem mem_of_restore {ls : List Text} {code u : Text} (h : restore ls code = .ok u) :
    ∀ c ∈ u, c ∈ code ∨ ∃ l ∈ ls, c ∈ l := by
  suffices step : ∀ code skip u, restoreFrom ls skip code = .ok u →
      ∀ c ∈ u, c ∈ code ∨ ∃ l ∈ ls, c ∈ l from step code 0 u h
  intro code
  induction code with
  | nil =>
      intro skip u hu
      cases skip <;> cases hu <;> exact List.forall_mem_nil _
  | cons d r ih =>
      have deeper {skip : Nat} {v : Text} (hv : restoreFrom ls skip r = .ok v) (c : Char) (hc : c ∈ v) :
          c ∈ d :: r ∨ ∃ l ∈ ls, c ∈ l := (ih skip v hv c hc).imp_left (List.mem_cons_of_mem d)
      intro skip u hu
      cases skip with
      | succ skip => exact deeper hu
      | zero =>
          rw [restoreFrom] at hu
          split at hu
          · obtain ⟨l, hl, hu⟩ := bind_eq_ok_iff.mp hu
            obtain ⟨v, hv, hu⟩ := bind_eq_ok_iff.mp hu
            cases hu
            intro c hc
            rcases List.mem_append.mp hc with hc | hc
            · exact .inr ⟨l, mem_of_lookUp hl, hc⟩
            · exact deeper hv c hc
          · obtain ⟨v, hv, hu⟩ := bind_eq_ok_iff.mp hu
            cases hu
            intro c hc
            rcases List.mem_cons.mp hc with rfl | hc
            · exact .inl (List.mem_cons_self ..)
            · exact deeper hv c hc

theorem head_of_restore {ls : List Text} (hls : ∀ l ∈ ls, ∃ c r, l = c :: r ∧ isBlank c = false)
    {c : Char} {r u : Text} (hc : isBlank c = false) (h : restore ls (c :: r) = .ok u) :
    ∃ d s, u = d :: s ∧ isBlank d = false := by
  rw [restore, restoreFrom] at h
  split at h
  · obtain ⟨l, hl, h⟩ := bind_eq_ok_iff.mp h
    obtain ⟨v, -, h⟩ := bind_eq_ok_iff.mp h
    cases h
    obtain ⟨d, s, rfl, hd⟩ := hls l (mem_of_lookUp hl)
    exact ⟨d, s ++ v, rfl, hd⟩
  · obtain ⟨v, -, h⟩ := bind_eq_ok_iff.mp h
    cases h
    exact ⟨c, v, rfl, hc⟩

/-- Masked, a body begins as it did, or with the mark of a literal. -/
theorem unindented_mask {body : Text} (h : Unindented body) : Unindented (mask body).1 := by
  cases body with
  | nil => exact unindented_nil
  | cons c r =>
      rw [mask, pieces_cons]
      dsimp only
      split
      · exact unindented_cons.mpr (by decide)
      · exact unindented_cons.mpr (unindented_cons.mp h)

section Masked

variable {b : Text} (h : Compact b)

include h

theorem spaced_masked : Spaced (mask b).1 := by
  intro c hc hblank
  rcases mem_of_mem_numbered hc with hcode | hink
  · exact h.spaced c (mem_of_code_mem_pieces hcode) hblank
  · rw [hblank] at hink
    cases hink

/-- Literals put back into changed code leave it compact. -/
theorem compact_of_restore {code u : Text} (hcode : Compact code)
    (hu : restore (mask b).2 code = .ok u) : Compact u := by
  constructor
  · intro c hc
    rcases mem_of_restore hu c hc with hin | ⟨l, hl, hin⟩
    · exact hcode.spaced c hin
    · exact h.spaced c (mem_of_mem_literals hl hin)
  · cases code with
    | nil =>
        cases hu
        exact unindented_nil
    | cons c r =>
        obtain ⟨d, s, rfl, hd⟩ := head_of_restore (fun _ => head_of_mem_literals)
          (unindented_cons.mp hcode.front) hu
        exact unindented_cons.mpr hd

end Masked
end Literal

/-! The passes that go line by line. -/

namespace Line

theorem compact_tidy (b : Text) {code : Text} (h : Spaced code) : Compact (tidy b code) := by
  have start : Compact (code.dropWhile isSpaceOrTab) :=
    ⟨h.subset fun _ hc => (List.dropWhile_sublist _).subset hc, unindented_dropWhile h⟩
  simp only [tidy]
  split
  · exact start
  · exact compact_dropEndWhile start

theorem compact_mapCode {f : Text → Text} (hf : ∀ {t}, Spaced t → Spaced (f t)) {b u : Text}
    (h : Compact b) (hu : mapCode f b = .ok u) : Compact u := by
  rw [mapCode, splitIndent_unindented h.front] at hu
  dsimp only at hu
  split at hu
  · cases hu
    exact h
  · obtain ⟨v, hv, rfl⟩ := map_eq_ok_iff.mp hu
    exact compact_of_restore h (compact_tidy b (hf (spaced_masked h))) hv

end Line

namespace Semicolon

theorem of_splitComment {masked : Text} {literals : List Text} {code comment : Text}
    (h : splitComment masked literals = .ok (code, comment)) : masked = code ++ comment := by
  simp only [splitComment] at h
  split at h
  · cases h
    exact (List.append_nil _).symm
  · obtain ⟨l, -, h⟩ := bind_eq_ok_iff.mp h
    split at h <;> cases h
    · exact (List.take_append_drop ..).symm
    · exact (List.append_nil _).symm

/-- A line is left as it is, or one semicolon is put into the masked code of its body. -/
theorem of_terminateLine {l u : Text} (hu : terminateLine l = .ok u) :
    u = l ∨ ∃ a b restored, (mask (trimEnd (splitIndent l).2)).1 = a ++ b ∧
      restore (mask (trimEnd (splitIndent l).2)).2 (a ++ ';' :: b) = .ok restored ∧
      u = (splitIndent l).1 ++ restored ++ takeEndWhile isBlank (splitIndent l).2 := by
  rw [terminateLine] at hu
  dsimp only at hu
  split at hu
  · cases hu
    exact .inl rfl
  · obtain ⟨⟨code, comment⟩, hparts, hu⟩ := bind_eq_ok_iff.mp hu
    have masked := of_splitComment hparts
    dsimp only at hu
    cases ht : terminate? code with
    | none =>
        rw [ht] at hu
        cases hu
        exact .inl rfl
    | some code' =>
        rw [ht] at hu
        obtain ⟨restored, hr, hu⟩ := bind_eq_ok_iff.mp hu
        cases hu
        obtain ⟨a, b, rfl, rfl, -⟩ := of_terminate? ht
        rw [List.append_assoc] at masked hr
        exact .inr ⟨a, b ++ comment, restored, masked, hr, rfl⟩

theorem compact_inserted {a b : Text} (h : Compact (a ++ b)) : Compact (a ++ ';' :: b) := by
  obtain ⟨ha, hb⟩ := spaced_append.mp h.spaced
  refine ⟨spaced_append.mpr ⟨ha, spaced_cons.mpr ⟨fun h => absurd h (by decide), hb⟩⟩, ?_⟩
  cases a with
  | nil => exact unindented_cons.mpr (by decide)
  | cons c r => exact unindented_cons.mpr (unindented_cons.mp h.front)

theorem compact_terminateLine {b u : Text} (h : Compact b) (hu : terminateLine b = .ok u) :
    Compact u := by
  have trimmed : Compact (trimEnd b) := compact_dropEndWhile h
  obtain rfl | ⟨code, rest, restored, masked, hr, rfl⟩ := of_terminateLine hu
  · exact h
  · rw [splitIndent_unindented h.front] at masked hr ⊢
    have changed : Compact (code ++ ';' :: rest) :=
      compact_inserted (masked ▸ ⟨spaced_masked trimmed, unindented_mask trimmed.front⟩)
    have behind : Spaced (takeEndWhile isBlank b) := by
      have whole := h.spaced
      rw [← dropEndWhile_append_takeEndWhile isBlank b, spaced_append] at whole
      exact whole.2
    obtain ⟨c, r, first⟩ : ∃ c r, code ++ ';' :: rest = c :: r :=
      List.exists_cons_of_ne_nil (by simp)
    have ink : isBlank c = false := unindented_cons.mp (first ▸ changed.front)
    obtain ⟨d, s, rfl, hd⟩ := head_of_restore (fun _ => head_of_mem_literals) ink (first ▸ hr)
    exact ⟨spaced_append.mpr ⟨(compact_of_restore trimmed changed hr).spaced, behind⟩,
      unindented_cons.mpr hd⟩

end Semicolon

namespace Quote

theorem isBlank_plainQuote (c : Char) : isBlank (plainQuote c) = isBlank c := by
  have ink := isInk_plainQuote c
  simpa only [isInk, Bool.not_inj_iff] using ink

theorem plainQuote_of_isBlank {c : Char} (h : isBlank c = true) : plainQuote c = c := by
  rw [plainQuote, if_neg]
  rintro rfl
  cases h

theorem compact_restyle (style : QuoteStyle) {b : Text} (h : Compact b) :
    Compact (restyle style b) := by
  have same := map_plainQuote_restyle style b
  constructor
  · intro c hc hblank
    obtain ⟨d, hd, hcd⟩ := List.mem_map.mp (same ▸ List.mem_map_of_mem (f := plainQuote) hc)
    have blank : isBlank d = true := by rw [← isBlank_plainQuote, hcd, isBlank_plainQuote, hblank]
    rw [plainQuote_of_isBlank blank, plainQuote_of_isBlank hblank] at hcd
    exact hcd ▸ h.spaced d hd blank
  · intro c r heq
    rw [heq] at same
    cases b with
    | nil => cases same
    | cons d s =>
        have first : plainQuote c = plainQuote d := (List.cons_eq_cons.mp same).1
        rw [← isBlank_plainQuote, first, isBlank_plainQuote]
        exact unindented_cons.mp h.front

end Quote

theorem Pass.actsOnCompact {o : FormatOptions} {p : Pass} {f : Text → Except Literal.Fault Text}
    (h : p.onLine? o = some f) : Line.ActsOnBodies Compact f where
  indented hi hb := p.indented_of_onLine? h hi hb.front
  keeps := by
    intro b u hb hu
    cases p with
    | brackets => cases h; exact Line.compact_mapCode Bracket.spaced_space hb hu
    | calls => cases h; exact Line.compact_mapCode Call.spaced_tighten hb hu
    | operators => cases h; exact Line.compact_mapCode Operator.spaced_space hb hu
    | commas => cases h; exact Line.compact_mapCode Comma.spaced_space hb hu
    | semicolons => cases h; exact Semicolon.compact_terminateLine hb hu
    | quotes =>
        cases h
        cases hu
        exact Quote.compact_restyle o.quoteStyle hb
    | _ => cases h

end MotionExpr
