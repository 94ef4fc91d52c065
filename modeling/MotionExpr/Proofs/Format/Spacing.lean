import MotionExpr.Proofs.Format.Respacing
import MotionExpr.Proofs.Format.CallsAndCommas
import MotionExpr.Format.Spacing

/-!
The passes on masked code respace it, and so the code of a line keeps all that
shows: trimming the transformed code, brackets, calls, operators and commas move
blanks and nothing else.
-/

namespace MotionExpr
namespace Literal

section Trimming

variable {p : Char → Bool} (hp : ∀ c, p c = true → Text.isBlank c = true)

include hp

theorem not_mark_of_blanks : p mark = false := by
  cases hm : p mark with
  | false => rfl
  | true => exact absurd (hp mark hm) (by decide)

theorem respaces_dropWhile : Respaces fun t => t.dropWhile p := by
  rintro n ps -
  induction ps with
  | nil => exact ⟨[], rfl, rfl⟩
  | cons q ps ih =>
      cases q with
      | literal t =>
          refine ⟨.literal t :: ps, ?_, rfl⟩
          simp [numbered, placeholder, not_mark_of_blanks hp]
      | code c =>
          cases hc : p c with
          | false => exact ⟨.code c :: ps, by simp [numbered, hc], rfl⟩
          | true =>
              obtain ⟨qs, hq, sq⟩ := ih
              refine ⟨qs, ?_, ?_⟩
              · simpa [numbered, hc] using hq
              · simpa [solid, Piece.isGap, hp c hc] using sq

theorem dropEndWhile_placeholder (n : Nat) :
    Text.dropEndWhile p (placeholder n) = placeholder n := by
  rw [placeholder, Text.dropEndWhile_append]
  simp [Text.dropEndWhile, not_mark_of_blanks hp]

theorem respaces_dropEndWhile : Respaces (Text.dropEndWhile p) := by
  rintro n ps -
  induction ps generalizing n with
  | nil => exact ⟨[], rfl, rfl⟩
  | cons q ps ih =>
      cases q with
      | literal t =>
          obtain ⟨qs, hq, sq⟩ := ih (n + 1)
          refine ⟨.literal t :: qs, ?_, by simpa [solid, Piece.isGap] using sq⟩
          rw [numbered, Text.dropEndWhile_append, hq]
          split
          · next hnil => simp [numbered, hnil, dropEndWhile_placeholder hp]
          · rfl
      | code c =>
          obtain ⟨qs, hq, sq⟩ := ih n
          have whole : Text.dropEndWhile p (numbered n (.code c :: ps)) =
              if numbered n qs = [] then Text.dropEndWhile p [c] else c :: numbered n qs := by
            rw [numbered, ← List.singleton_append, Text.dropEndWhile_append, hq]
            rfl
          by_cases hnil : numbered n qs = [] ∧ p c = true
          · obtain rfl := numbered_eq_nil hnil.1
            refine ⟨[], ?_, ?_⟩
            · rw [whole, if_pos hnil.1]
              simp [Text.dropEndWhile, hnil.2, numbered]
            · rw [← List.singleton_append, solid_append, ← sq]
              simp [solid, Piece.isGap, hp c hnil.2]
          · refine ⟨.code c :: qs, ?_, ?_⟩
            · rw [whole]
              split
              · next h => simp_all [Text.dropEndWhile, numbered]
              · rfl
            · rw [← List.singleton_append, solid_append, sq, ← solid_append, List.singleton_append]

end Trimming

theorem respaces_tidy (body : Text) {f : Text → Text} (hf : Respaces f) :
    Respaces fun t => Line.tidy body (f t) := by
  have start := (respaces_dropWhile fun _ => Text.isBlank_of_isSpaceOrTab).comp hf
  simp only [Line.tidy]
  split
  · exact start
  · exact (respaces_dropEndWhile fun _ => Text.isBlank_of_isSpaceOrTab).comp start

end Literal

namespace Line

open Literal

/-- The code of a line comes back with its literals in place, respaced; without code the line is
passed by. -/
theorem exists_mapCode {f : Text → Text} (hf : Respaces f) {line : Text} (h : mark ∉ line) :
    ∃ qs, mapCode f line = .ok ((Text.splitIndent line).1 ++ qs.flatMap Piece.text) ∧
      solid qs = solid (pieces (Text.splitIndent line).2) ∧
      ((Text.splitIndent line).2 = [] ∧ qs = [] ∨
        tidy (Text.splitIndent line).2 (f (mask (Text.splitIndent line).2).1) = numbered 0 qs) := by
  have parts := Text.splitIndent_append line
  revert parts
  rcases hs : Text.splitIndent line with ⟨indent, body⟩
  intro parts
  simp only [mapCode, hs]
  by_cases empty : body = []
  · subst empty
    exact ⟨[], by rw [← parts]; rfl, rfl, .inl ⟨rfl, rfl⟩⟩
  · have full : body.isEmpty = false := List.isEmpty_eq_false_iff.mpr empty
    have clean : Unmarked (pieces body) :=
      unmarked_pieces fun hm => h (parts ▸ List.mem_append_right indent hm)
    obtain ⟨qs, hq, sq⟩ := respaces_tidy body hf 0 (pieces body) clean
    have sameLiterals : literals (pieces body) = literals qs := by
      rw [← literals_solid, ← sq, literals_solid]
    have restored := restore_numbered (unmarked_of_solid_eq sq clean)
    refine ⟨qs, ?_, sq, .inr hq⟩
    simp only [full, mask, hq, sameLiterals, restored]
    rfl

theorem mapCode_of_respaces {f : Text → Text} (hf : Respaces f) {line : Text}
    (h : mark ∉ line) :
    ∃ u, mapCode f line = .ok u ∧ u.filter Text.isInk = line.filter Text.isInk := by
  obtain ⟨qs, hu, sq, -⟩ := exists_mapCode hf h
  refine ⟨_, hu, ?_⟩
  conv => rhs; rw [← Text.splitIndent_append line]
  rw [List.filter_append, List.filter_append, filter_isInk_flatMap_text, sq,
    ← filter_isInk_flatMap_text, flatMap_text_pieces]

end Line

open Literal

namespace Bracket

theorem spaceFrom_of_plain {a : Text} (h : ∀ c ∈ a, isOpening c = false ∧ isClosing c = false)
    (passed : Text) (spaced : List Bool) (r : Text) :
    spaceFrom passed spaced (a ++ r) = a ++ spaceFrom (a.reverse ++ passed) spaced r := by
  induction a generalizing passed with
  | nil => rfl
  | cons c cs ih =>
      have hc := h c (List.mem_cons_self ..)
      simp [spaceFrom, hc, ih (fun d hd => h d (List.mem_cons_of_mem _ hd))]

theorem plain_of_isAsciiDigit {c : Char} (h : Text.isAsciiDigit c = true) :
    isOpening c = false ∧ isClosing c = false := by
  have notSymbol (d : Char) (hd : Text.isAsciiDigit d = false) : (c == d) = false := by
    rw [beq_eq_false_iff_ne]
    rintro rfl
    rw [h] at hd
    cases hd
  constructor
  · simp [isOpening, notSymbol _ (show Text.isAsciiDigit '\x7b' = false by decide),
      notSymbol _ (show Text.isAsciiDigit '[' = false by decide)]
  · simp [isClosing, notSymbol _ (show Text.isAsciiDigit '\x7d' = false by decide),
      notSymbol _ (show Text.isAsciiDigit ']' = false by decide)]

theorem plain_of_mem_placeholder {n : Nat} {c : Char} (h : c ∈ placeholder n) :
    isOpening c = false ∧ isClosing c = false := by
  simp only [placeholder, List.cons_append, List.mem_cons, List.mem_append, List.not_mem_nil,
    or_false] at h
  rcases h with rfl | h | rfl
  · decide
  · exact plain_of_isAsciiDigit (Text.isAsciiDigit_of_mem_ofNat h)
  · decide

/-- A bracket brings at most one space, in front of it if it closes and behind it if it opens. -/
theorem spaceFrom_cons (passed : Text) (spaced : List Bool) (c : Char) (r : Text) :
    ∃ front back kept, (front = [] ∨ front = [' '] ∧ isClosing c = true) ∧
      (back = [] ∨ back = [' '] ∧ isOpening c = true) ∧
      spaceFrom passed spaced (c :: r) = front ++ c :: back ++ spaceFrom (c :: passed) kept r := by
  simp only [spaceFrom]
  split
  · next opening =>
      refine ⟨[], _, _, .inl rfl, ?_, rfl⟩
      split
      · exact .inr ⟨rfl, opening⟩
      · exact .inl rfl
  · split
    · next closing =>
        refine ⟨if spaced.headD (c == '\x7d') && needsSpaceBehind passed then [' '] else [], [],
          spaced.tail, ?_, .inl rfl, (List.append_assoc _ [c] _).symm⟩
        split
        · exact .inr ⟨rfl, closing⟩
        · exact .inl rfl
    · exact ⟨[], [], spaced, .inl rfl, .inl rfl, rfl⟩

/-- A relation of pieces that holds along literals and along what becomes of a character holds
between masked code and the spaced one. -/
theorem spaceFrom_relates {R : List Piece → List Piece → Prop} (nil : R [] [])
    (literal : ∀ t ps qs, R ps qs → R (.literal t :: ps) (.literal t :: qs))
    (code : ∀ c front back ps qs, (front = [] ∨ front = [' '] ∧ isClosing c = true) →
      (back = [] ∨ back = [' '] ∧ isOpening c = true) → R ps qs →
      R (.code c :: ps) ((front ++ c :: back).map Piece.code ++ qs))
    (n : Nat) (ps : List Piece) (passed : Text) (spaced : List Bool) :
    ∃ qs, spaceFrom passed spaced (numbered n ps) = numbered n qs ∧ R ps qs := by
  induction ps generalizing n passed spaced with
  | nil => exact ⟨[], rfl, nil⟩
  | cons p ps ih =>
      cases p with
      | literal t =>
          obtain ⟨qs, hq, related⟩ := ih (n + 1) ((placeholder n).reverse ++ passed) spaced
          refine ⟨.literal t :: qs, ?_, literal t ps qs related⟩
          rw [numbered, spaceFrom_of_plain fun c => plain_of_mem_placeholder, hq, numbered]
      | code c =>
          obtain ⟨front, back, kept, hfront, hback, heq⟩ :=
            spaceFrom_cons passed spaced c (numbered n ps)
          obtain ⟨qs, hq, related⟩ := ih n (c :: passed) kept
          refine ⟨_, ?_, code c front back ps qs hfront hback related⟩
          rw [numbered_map_code_append, ← hq]
          exact heq

theorem respaces_space : Respaces space := by
  have gap {c : Char} {p : Char → Bool} {t : Text} (ht : t = [] ∨ t = [' '] ∧ p c = true) :
      t.filter Text.isInk = [] := by
    rcases ht with rfl | ⟨rfl, -⟩ <;> rfl
  refine fun n ps _ => spaceFrom_relates (R := fun ps qs => solid qs = solid ps) rfl
    (fun t ps qs h => ?_) (fun c front back ps qs hfront hback h => ?_) n ps [] []
  · simpa [solid, Piece.isGap] using h
  · have ink : (front ++ c :: back).filter Text.isInk = [c].filter Text.isInk := by
      rw [List.filter_append, gap hfront, ← List.singleton_append, List.filter_append, gap hback,
        List.nil_append, List.append_nil]
    rw [solid_append, h, solid_map_code, ink, ← solid_map_code, ← solid_append]
    rfl

end Bracket

namespace Comma

/-- A comma with the gaps around it. -/
inductive Placed (passed : Text) : (found rest text : Text) → Prop where
  | intro {gap behind rest : Text} : (∀ c ∈ gap, Text.isSpaceOrTab c = true) →
      (∀ c ∈ behind, Text.isSpaceOrTab c = true) → Placed passed (gap ++ ',' :: behind) rest [',', ' ']

theorem finds_respace : Text.Rule.Finds respace Placed :=
  finds_listed.mono fun _ _ _ _ h => by
    obtain ⟨hgap, hbehind, -⟩ := h
    exact .intro hgap hbehind

theorem Placed.respaced {passed found rest text : Text} (h : Placed passed found rest text) :
    Respaced found text := by
  obtain ⟨hgap, hbehind⟩ := h
  next gap behind =>
  refine ⟨fun hm => ?_, ⟨',', by simp, by decide⟩, ?_⟩
  · rcases List.mem_append.mp hm with hm | hm
    · exact Bool.false_ne_true (hgap mark hm)
    · rcases List.mem_cons.mp hm with hm | hm
      · exact absurd hm (by decide)
      · exact Bool.false_ne_true (hbehind mark hm)
  · have comma (t : Text) : (',' :: t).filter Text.isInk = ',' :: t.filter Text.isInk := rfl
    rw [List.filter_append, comma, comma,
      Text.filter_eq_nil_of_all Text.isInk_of_isSpaceOrTab hgap,
      Text.filter_eq_nil_of_all Text.isInk_of_isSpaceOrTab hbehind]
    rfl

theorem respacingRule : RespacingRule respace :=
  finds_respace.respacingRule fun _ _ _ _ => Placed.respaced

theorem respaces_space : Respaces space := respacingRule.respaces

end Comma

namespace Call

/-- A name, a gap and a parenthesis. The gap stays behind a keyword. -/
inductive Joined (passed : Text) : (found rest text : Text) → Prop where
  | intro {name gap kept rest : Text} : name ≠ [] → (∀ c ∈ name, continuesName c = true) →
      (∀ c ∈ gap, Text.isSpaceOrTab c = true) → (kept = [] ∨ kept = gap) →
      Joined passed (name ++ (gap ++ ['('])) rest (name ++ (kept ++ ['(']))

theorem finds_join : Text.Rule.Finds join Joined :=
  finds_called.mono fun passed found rest text h => by
    obtain @⟨c, w, gap, _, start, hw, hgap, -⟩ := h
    have name : ∀ d ∈ c :: w, continuesName d = true :=
      List.forall_mem_cons.mpr ⟨continuesName_of_startsWord start, hw⟩
    split
    · exact .intro (List.cons_ne_nil c w) name hgap (.inr rfl)
    · exact .intro (List.cons_ne_nil c w) name hgap (.inl rfl)

theorem Joined.respaced {passed found rest text : Text} (h : Joined passed found rest text) :
    Respaced found text := by
  obtain ⟨-, hname, hgap, hkept⟩ := h
  next name gap kept =>
  refine ⟨fun hm => ?_, ⟨'(', by simp, by decide⟩, ?_⟩
  · rcases List.mem_append.mp hm with hm | hm
    · exact absurd (hname mark hm) (by decide)
    · rcases List.mem_append.mp hm with hm | hm
      · exact Bool.false_ne_true (hgap mark hm)
      · exact absurd (List.mem_singleton.mp hm) (by decide)
  · rcases hkept with rfl | rfl
    · rw [List.filter_append, List.filter_append, List.filter_append, List.filter_append,
        Text.filter_eq_nil_of_all Text.isInk_of_isSpaceOrTab hgap]
      rfl
    · rfl

theorem respacingRule : RespacingRule join :=
  finds_join.respacingRule fun _ _ _ _ => Joined.respaced

theorem respaces_tighten : Respaces tighten := respacingRule.respaces

end Call

namespace Operator

/-- Operators are made of symbols. -/
theorem symbols_of_mem_all {op : Text} (h : op ∈ all) :
    op ≠ [] ∧ ∀ c ∈ op, c ≠ mark ∧ Text.isDigit c = false ∧ Text.isBlank c = false := by
  have checked : all.all (fun op => !op.isEmpty &&
      op.all fun c => c != mark && !Text.isDigit c && !Text.isBlank c) = true := by decide
  have here := List.all_eq_true.mp checked op h
  simpa [and_assoc] using here

theorem of_operator? {t op : Text} (h : operator? t = some op) :
    op ∈ all ∧ ∃ rest, t = op ++ rest := by
  have found := List.find?_some h
  obtain ⟨rest, hrest⟩ := List.isPrefixOf_iff_prefix.mp found
  exact ⟨List.mem_of_find?_eq_some h, rest, hrest.symm⟩

/-! What the rules replace. -/

/-- An operator with the gaps around it. -/
inductive Placed (passed : Text) : (found rest text : Text) → Prop where
  | intro {gap op behind rest : Text} (bare : Bool) :
      (∀ c ∈ gap, Text.isSpaceOrTab c = true) → (∀ c ∈ behind, Text.isSpaceOrTab c = true) →
      operator? (op ++ (behind ++ rest)) = some op → (bare = true → gap = [] ∧ behind = []) →
      Placed passed (gap ++ (op ++ behind)) rest (placed passed op bare)

/-- A run of spaces. -/
inductive Squeezed (passed : Text) : (found rest text : Text) → Prop where
  | intro {run rest : Text} : run ≠ [] → (∀ c ∈ run, c = ' ') → Squeezed passed run rest [' ']

/-- A negation with the gap behind it. -/
inductive Tightened (passed : Text) : (found rest text : Text) → Prop where
  | intro {gap rest : Text} : gap ≠ [] → (∀ c ∈ gap, Text.isSpaceOrTab c = true) →
      (∀ c ∈ rest.head?, Text.isSpaceOrTab c = false) → Tightened passed ('!' :: gap) rest ['!']

theorem isSpaceOrTab_of_mem_takeWhile {t : Text} : ∀ c ∈ t.takeWhile Text.isSpaceOrTab, Text.isSpaceOrTab c = true :=
  fun c hc => List.all_eq_true.mp List.all_takeWhile c hc

/-- An operator with all of the gaps around it. -/
inductive Matched (passed : Text) : (found rest text : Text) → Prop where
  | intro {gap op behind rest : Text} (bare : Bool) :
      (∀ c ∈ gap, Text.isSpaceOrTab c = true) → (∀ c ∈ behind, Text.isSpaceOrTab c = true) →
      operator? (op ++ (behind ++ rest)) = some op → (bare = true → gap = [] ∧ behind = []) →
      rest.head?.any Text.isSpaceOrTab = false →
      Matched passed (gap ++ (op ++ behind)) rest (placed passed op bare)

theorem finds_matched : Text.Rule.Finds respace Matched := by
  intro passed ahead m h
  simp only [respace] at h
  split at h
  · cases h
  · next op hop =>
      cases h
      obtain ⟨member, rest, hrest⟩ := of_operator? hop
      have whole : ahead = ahead.takeWhile Text.isSpaceOrTab ++ (op ++ rest) := by
        rw [← hrest, List.takeWhile_append_dropWhile]
      have behind : ahead.drop ((ahead.takeWhile Text.isSpaceOrTab).length + op.length) = rest := by
        rw [← List.drop_drop, Text.drop_length_takeWhile, hrest, List.drop_left]
      refine ⟨ahead.takeWhile Text.isSpaceOrTab ++ (op ++ rest.takeWhile Text.isSpaceOrTab),
        rest.dropWhile Text.isSpaceOrTab, ?_, ?_, ?_, ?_⟩
      · conv => lhs; rw [whole]
        simp only [List.append_assoc, List.takeWhile_append_dropWhile]
      · simp [behind, Nat.add_assoc]
      · simp [(symbols_of_mem_all member).1]
      · refine .intro _ isSpaceOrTab_of_mem_takeWhile isSpaceOrTab_of_mem_takeWhile ?_ ?_ ?_
        · rw [List.takeWhile_append_dropWhile, ← hrest, hop]
        · rw [beq_iff_eq, ← List.drop_drop, Text.drop_length_takeWhile, hrest, List.drop_left]
          intro alone
          exact ⟨List.length_eq_zero_iff.mp (by omega), List.length_eq_zero_iff.mp (by omega)⟩
        · exact Text.any_head?_dropWhile Text.isSpaceOrTab rest

theorem finds_respace : Text.Rule.Finds respace Placed :=
  finds_matched.mono fun _ _ _ _ h => by
    obtain ⟨bare, hgap, hbehind, hop, alone, -⟩ := h
    exact .intro bare hgap hbehind hop alone

theorem finds_squeeze : Text.Rule.Finds squeeze Squeezed := by
  intro passed ahead m h
  cases passed with
  | nil => cases h
  | cons p ps =>
      simp only [squeeze] at h
      split at h
      · split at h
        · next d r hr hcond =>
            cases h
            simp only [Bool.and_eq_true, decide_eq_true_eq] at hcond
            have nonempty : ahead.takeWhile (· == ' ') ≠ [] := by
              intro none
              rw [none] at hcond
              exact absurd hcond.1.2 (by decide)
            exact ⟨_, _, List.takeWhile_append_dropWhile.symm, rfl, nonempty, .intro nonempty fun c hc =>
              by simpa using List.all_eq_true.mp List.all_takeWhile c hc⟩
        · cases h
      · cases h

theorem finds_negation : Text.Rule.Finds negation Tightened := by
  intro passed ahead m h
  simp only [negation] at h
  split at h
  · next r =>
      split at h
      · cases h
      · next blanks hne =>
          cases h
          refine ⟨'!' :: r.takeWhile Text.isSpaceOrTab, r.dropWhile Text.isSpaceOrTab, ?_, ?_, List.cons_ne_nil _ _, ?_⟩
          · rw [List.cons_append, List.takeWhile_append_dropWhile]
          · rw [List.length_cons, Nat.add_comm]
          · refine .intro hne isSpaceOrTab_of_mem_takeWhile fun c hc => ?_
            have stop := List.head?_dropWhile_not Text.isSpaceOrTab r
            rw [Option.mem_def.mp hc] at stop
            simpa using stop
  · cases h

theorem isSpaceOrTab_of_atMostOne {gap : Text} (h : gap = [] ∨ gap = [' ']) :
    ∀ c ∈ gap, Text.isSpaceOrTab c = true := by
  rcases h with rfl | rfl
  · exact List.forall_mem_nil _
  · exact List.forall_mem_singleton.mpr rfl

/-- An operator is put between at most one space on either side; only updates may have none, and
signs that had none or that no operand precedes. -/
theorem placed_eq_append (passed op : Text) (bare : Bool) :
    ∃ front back, placed passed op bare = front ++ (op ++ back) ∧
      (front = [] ∨ front = [' ']) ∧ (back = [] ∨ back = [' ']) ∧
      (isSign op = true ∧ (bare = true ∧ front = [] ∨ Operand.isBehind passed = false) ∨
        isUpdate op = true ∨ front = [' '] ∧ back = [' ']) := by
  have atMost : lead passed = [] ∨ lead passed = [' '] := by
    rw [lead]
    split
    · exact .inl rfl
    · split
      · exact .inl rfl
      · exact .inr rfl
  rw [placed]
  split
  · next h => exact ⟨[], [], by simp, .inl rfl, .inl rfl, .inl (by simp_all)⟩
  · split
    · next h => exact ⟨[], [], by simp, .inl rfl, .inl rfl, .inr (.inl (by simp_all))⟩
    · split
      · next h =>
          refine ⟨lead passed, [], by simp, atMost, .inl rfl, ?_⟩
          rw [Bool.or_eq_true, Bool.and_eq_true] at h
          exact h.elim (fun update => .inr (.inl update)) fun sign =>
            .inl ⟨sign.1, .inr (by simpa using sign.2)⟩
      · exact ⟨[' '], [' '], rfl, .inr rfl, .inr rfl, .inr (.inr ⟨rfl, rfl⟩)⟩

/-! Each of them respaces. -/

theorem Placed.respaced {passed found rest text : Text} (h : Placed passed found rest text) :
    Respaced found text := by
  cases h with
  | @intro gap op behind _ bare hgap hbehind hop _ =>
      obtain ⟨nonempty, symbols⟩ := symbols_of_mem_all (of_operator? hop).1
      obtain ⟨front, back, heq, hfront, hback, -⟩ := placed_eq_append passed op bare
      obtain ⟨d, hd⟩ := List.exists_mem_of_ne_nil op nonempty
      refine ⟨?_, ⟨d, by simp [hd], (symbols d hd).2.1⟩, ?_⟩
      · rw [List.mem_append, List.mem_append]
        rintro (hm | hm | hm)
        · exact Bool.false_ne_true (hgap mark hm)
        · exact (symbols mark hm).1 rfl
        · exact Bool.false_ne_true (hbehind mark hm)
      · have none {gap : Text} (h : ∀ c ∈ gap, Text.isSpaceOrTab c = true) :
            gap.filter Text.isInk = [] :=
          Text.filter_eq_nil_of_all Text.isInk_of_isSpaceOrTab h
        simp only [heq, List.filter_append, none hgap, none hbehind,
          none (isSpaceOrTab_of_atMostOne hfront), none (isSpaceOrTab_of_atMostOne hback)]

theorem Squeezed.respaced {passed found rest text : Text} (h : Squeezed passed found rest text) :
    Respaced found text := by
  obtain ⟨nonempty, spaces⟩ := h
  obtain ⟨c, hc⟩ := List.exists_mem_of_ne_nil found nonempty
  refine ⟨fun hm => absurd (spaces mark hm) (by decide), ⟨c, hc, spaces c hc ▸ rfl⟩, ?_⟩
  rw [Text.filter_eq_nil_of_all Text.isInk_of_isSpaceOrTab fun d hd => spaces d hd ▸ rfl]
  rfl

theorem Tightened.respaced {passed found rest text : Text} (h : Tightened passed found rest text) :
    Respaced found text := by
  obtain ⟨-, blank, -⟩ := h
  refine ⟨fun hm => ?_, ⟨'!', List.mem_cons_self .., by decide⟩, ?_⟩
  · rcases List.mem_cons.mp hm with hm | hm
    · exact absurd hm (by decide)
    · exact Bool.false_ne_true (blank mark hm)
  · rw [List.filter_cons, List.filter_cons,
      Text.filter_eq_nil_of_all Text.isInk_of_isSpaceOrTab blank]
    rfl

theorem respacingRule_respace : RespacingRule respace :=
  finds_respace.respacingRule fun _ _ _ _ => Placed.respaced

theorem respacingRule_squeeze : RespacingRule squeeze :=
  finds_squeeze.respacingRule fun _ _ _ _ => Squeezed.respaced

theorem respacingRule_negation : RespacingRule negation :=
  finds_negation.respacingRule fun _ _ _ _ => Tightened.respaced

theorem respaces_space : Respaces space :=
  respacingRule_negation.respaces.comp
    (respacingRule_squeeze.respaces.comp respacingRule_respace.respaces)

end Operator
end MotionExpr
