import MotionExpr.Proofs.Text.Characters
import MotionExpr.Format.Literal

/-!
How a text falls into pieces. A literal is settled by its own characters: what
follows its end is of no account, and characters that close nothing can be put in
front or behind. So the pieces of a text cut between two pieces are those of its
parts.
-/

namespace MotionExpr
namespace Literal

/-- What a character behind an opening quote does. -/
inductive Verdict where
  | closes
  | fails
  | passes (escaped : Bool)

def verdict (quote : Char) (multiline escaped : Bool) (c : Char) : Verdict :=
  if escaped then (if c = '\n' then .fails else .passes false)
  else if c = quote then .closes
  else if c = '\n' && !multiline then .fails
  else .passes (c == '\\')

section Closing

variable {quote : Char} {multiline escaped : Bool}

theorem closing?_cons (c : Char) (r : Text) :
    closing? quote multiline escaped (c :: r) =
      match verdict quote multiline escaped c with
      | .closes => some 1
      | .fails => none
      | .passes escaped => (closing? quote multiline escaped r).map (· + 1) := by
  cases escaped with
  | true =>
      simp only [closing?, verdict, ite_true]
      split <;> rfl
  | false =>
      simp only [closing?, verdict, Bool.false_eq_true, ite_false]
      split
      · rfl
      · split <;> rfl

theorem verdict_ne_closes {c : Char} (h : c ≠ quote) :
    verdict quote multiline escaped c ≠ .closes := by
  simp only [verdict, h, ite_false]
  split
  · split <;> simp
  · split <;> simp

/-- What closes ends with the quote. -/
theorem of_closing? {t : Text} {n : Nat} (h : closing? quote multiline escaped t = some n) :
    ∃ inner rest, t = inner ++ quote :: rest ∧ n = inner.length + 1 := by
  induction t generalizing escaped n with
  | nil => cases escaped <;> cases h
  | cons c r ih =>
      rw [closing?_cons] at h
      split at h
      · next hv =>
          cases h
          by_cases hc : c = quote
          · exact ⟨[], r, by rw [hc, List.nil_append], rfl⟩
          · exact absurd hv (verdict_ne_closes hc)
      · cases h
      · obtain ⟨m, hm, rfl⟩ := Option.map_eq_some_iff.mp h
        obtain ⟨inner, rest, rfl, rfl⟩ := ih hm
        exact ⟨c :: inner, rest, rfl, rfl⟩

theorem closing?_append_of_some {t : Text} {n : Nat}
    (h : closing? quote multiline escaped t = some n) (rest : Text) :
    closing? quote multiline escaped (t ++ rest) = some n := by
  induction t generalizing escaped n with
  | nil => cases escaped <;> cases h
  | cons c r ih =>
      rw [closing?_cons] at h
      rw [List.cons_append, closing?_cons]
      split at h
      · exact h
      · cases h
      · obtain ⟨m, hm, rfl⟩ := Option.map_eq_some_iff.mp h
        rw [ih hm]
        rfl

theorem closing?_append_of_none {t rest : Text}
    (h : closing? quote multiline escaped t = none) (hrest : quote ∉ rest) :
    closing? quote multiline escaped (t ++ rest) = none := by
  induction t generalizing escaped with
  | nil =>
      clear h
      induction rest generalizing escaped with
      | nil => cases escaped <;> rfl
      | cons c r ih =>
          have hc : c ≠ quote := fun e => hrest (by simp [e])
          rw [List.nil_append, closing?_cons]
          split
          · next hv => exact absurd hv (verdict_ne_closes hc)
          · rfl
          · exact Option.map_eq_none_iff.mpr (ih fun hm => hrest (List.mem_cons_of_mem _ hm))
  | cons c r ih =>
      rw [closing?_cons] at h
      rw [List.cons_append, closing?_cons]
      split at h
      · cases h
      · rfl
      · rw [ih (Option.map_eq_none_iff.mp h)]
        rfl

/-- What closes within the first characters closes without the others. -/
theorem closing?_of_append {t rest : Text} {n : Nat}
    (h : closing? quote multiline escaped (t ++ rest) = some n) (hn : n ≤ t.length) :
    closing? quote multiline escaped t = some n := by
  induction t generalizing escaped n with
  | nil =>
      have := (closing?_le h).1
      rw [List.length_nil] at hn
      omega
  | cons c r ih =>
      rw [List.cons_append, closing?_cons] at h
      rw [closing?_cons]
      split at h
      · exact h
      · cases h
      · obtain ⟨m, hm, rfl⟩ := Option.map_eq_some_iff.mp h
        rw [List.length_cons] at hn
        rw [ih hm (by omega)]
        rfl

end Closing

/-! The pieces of parts. -/

/-- A literal is what it begins with and some of the text behind. -/
theorem exists_of_length? {c : Char} {r : Text} {n : Nat} (h : length? c r = some n) :
    ∃ s rest, r = s ++ rest ∧ n = s.length + 1 := by
  obtain ⟨some, le⟩ := length?_le h
  rw [List.length_cons] at le
  refine ⟨r.take (n - 1), r.drop (n - 1), (List.take_append_drop ..).symm, ?_⟩
  rw [List.length_take]
  omega

theorem pieces_cons (c : Char) (r : Text) :
    pieces (c :: r) =
      match length? c r with
      | some n => .literal ((c :: r).take n) :: pieces ((c :: r).drop n)
      | none => .code c :: pieces r := by
  simp only [pieces, piecesFrom]
  cases h : length? c r with
  | none => rfl
  | some n =>
      obtain ⟨s, rest, -, rfl⟩ := exists_of_length? h
      simp [piecesFrom_skip s.length]

theorem pieces_of_length? {c : Char} {s rest : Text}
    (h : length? c (s ++ rest) = some (s.length + 1)) :
    pieces (c :: (s ++ rest)) = .literal (c :: s) :: pieces rest := by
  rw [pieces_cons, h]
  simp only [List.take_succ_cons, List.take_left, List.drop_succ_cons, List.drop_left]

theorem startsComment_iff (c : Char) (r : Text) :
    "//".toList.isPrefixOf (c :: r) = true ↔ c = '/' ∧ ∃ s, r = '/' :: s := by
  have slashes : "//".toList = ['/', '/'] := rfl
  rw [slashes, Text.isPrefixOf_pair, List.head?_eq_some_iff, @eq_comm _ '/' c]

theorem not_startsComment_of_append {c : Char} {r rest : Text}
    (h : ¬ "//".toList.isPrefixOf (c :: (r ++ rest)) = true) :
    ¬ "//".toList.isPrefixOf (c :: r) = true := by
  rw [startsComment_iff] at h ⊢
  rintro ⟨rfl, s, rfl⟩
  exact h ⟨rfl, s ++ rest, rfl⟩

theorem length?_of_append {c : Char} {r rest : Text} {n : Nat}
    (h : length? c (r ++ rest) = some n) (hn : n ≤ (c :: r).length) : length? c r = some n := by
  rw [List.length_cons] at hn
  simp only [length?] at h ⊢
  split at h
  · next hp =>
      cases h
      have inside := Text.takeWhile_append_of_length_le (p := (· ≠ '\n')) (a := r) (b := rest)
        (by omega)
      obtain ⟨rfl, s, hs⟩ := (startsComment_iff c _).mp hp
      -- the second slash is among the characters that the comment takes
      have slash : ∃ u, r = '/' :: u := by
        cases r with
        | nil =>
            rw [List.nil_append] at hs inside
            rw [hs] at inside
            cases inside
        | cons d u => exact ⟨u, by rw [(List.cons_eq_cons.mp hs).1]⟩
      rw [if_pos ((startsComment_iff '/' r).mpr ⟨rfl, slash⟩), inside]
  · next hp =>
      rw [if_neg (not_startsComment_of_append hp)]
      split at h
      · next hq =>
          obtain ⟨m, hm, rfl⟩ := Option.map_eq_some_iff.mp h
          rw [if_pos hq, closing?_of_append hm (by omega)]
          rfl
      · cases h

theorem length?_none_of_append {c : Char} {r rest : Text} (h : length? c (r ++ rest) = none) :
    length? c r = none := by
  simp only [length?] at h ⊢
  split at h
  · cases h
  · next hp =>
      rw [if_neg (not_startsComment_of_append hp)]
      split at h
      · next hq =>
          rw [if_pos hq]
          cases hr : closing? c true false r with
          | none => rfl
          | some m => simp [closing?_append_of_some hr] at h
      · next hq => rw [if_neg hq]

/-- The first piece of a text, and the text behind it. -/
theorem of_pieces_eq_cons {t : Text} {p : Piece} {ps : List Piece} (h : pieces t = p :: ps) :
    (∃ c r, t = c :: r ∧ length? c r = none ∧ p = .code c ∧ pieces r = ps) ∨
      ∃ c s rest, t = c :: (s ++ rest) ∧ length? c (s ++ rest) = some (s.length + 1) ∧
        p = .literal (c :: s) ∧ pieces rest = ps := by
  cases t with
  | nil => cases h
  | cons c r =>
      cases hl : length? c r with
      | none =>
          rw [pieces_cons, hl] at h
          obtain ⟨rfl, rfl⟩ := List.cons_eq_cons.mp h
          exact .inl ⟨c, r, rfl, hl, rfl, rfl⟩
      | some n =>
          obtain ⟨s, rest, rfl, rfl⟩ := exists_of_length? hl
          rw [pieces_of_length? hl] at h
          obtain ⟨rfl, rfl⟩ := List.cons_eq_cons.mp h
          exact .inr ⟨c, s, rest, rfl, hl, rfl, rfl⟩

/-- Cut between two pieces, each part keeps its own. -/
theorem pieces_of_append {a b : Text} {ps qs : List Piece} (h : pieces (a ++ b) = ps ++ qs)
    (ha : ps.flatMap Piece.text = a) : pieces a = ps ∧ pieces b = qs := by
  induction ps generalizing a with
  | nil =>
      subst ha
      exact ⟨rfl, h⟩
  | cons p ps ih =>
      subst ha
      rw [List.flatMap_cons, List.append_assoc] at h
      rw [List.flatMap_cons]
      rcases of_pieces_eq_cons h with ⟨c, r, ht, hl, rfl, tail⟩ | ⟨c, s, rest, ht, hl, rfl, tail⟩
      · rw [Piece.text, List.singleton_append] at ht
        obtain ⟨-, rfl⟩ := List.cons_eq_cons.mp ht
        obtain ⟨front, back⟩ := ih tail rfl
        refine ⟨?_, back⟩
        rw [Piece.text, List.singleton_append, pieces_cons, length?_none_of_append hl, front]
      · have behind : c :: s ++ (ps.flatMap Piece.text ++ b) = c :: s ++ rest := ht
        obtain rfl := List.append_cancel_left behind
        obtain ⟨front, back⟩ := ih tail rfl
        refine ⟨?_, back⟩
        rw [← List.append_assoc] at hl
        rw [Piece.text, List.cons_append, pieces_of_length? (length?_of_append hl (by simp)), front]

theorem pieces_append {a b : Text} {ps qs : List Piece} (h : pieces (a ++ b) = ps ++ qs)
    (ha : ps.flatMap Piece.text = a) : pieces (a ++ b) = pieces a ++ pieces b := by
  obtain ⟨hfront, hback⟩ := pieces_of_append h ha
  rw [h, hfront, hback]

/-! Blanks around a text. -/

theorem length?_none_of_isBlank {c : Char} (h : Text.isBlank c = true) (r : Text) :
    length? c r = none := by
  have ne (d : Char) (hd : Text.isBlank d = false) : c ≠ d := by
    rintro rfl
    rw [h] at hd
    cases hd
  have slash := ne '/' (by decide)
  have notComment : ¬ "//".toList.isPrefixOf (c :: r) = true := by
    rw [startsComment_iff]
    exact fun hc => slash hc.1
  simp only [length?]
  rw [if_neg notComment]
  simp [ne '"' (by decide), ne '\'' (by decide)]

theorem pieces_blanks_append {b : Text} (h : ∀ c ∈ b, Text.isBlank c = true) (t : Text) :
    pieces (b ++ t) = b.map Piece.code ++ pieces t := by
  induction b with
  | nil => rfl
  | cons c r ih =>
      rw [List.cons_append, pieces_cons, length?_none_of_isBlank (h c (List.mem_cons_self ..)),
        ih fun d hd => h d (List.mem_cons_of_mem _ hd)]
      rfl

theorem length?_append_blanks {c : Char} {r b : Text} (hb : ∀ d ∈ b, Text.isBlank d = true)
    (notComment : ¬ "//".toList.isPrefixOf (c :: r) = true) :
    length? c (r ++ b) = length? c r := by
  have free (d : Char) (hd : Text.isBlank d = false) : d ∉ b := by
    intro hm
    rw [hb d hm] at hd
    cases hd
  have notComment' : ¬ "//".toList.isPrefixOf (c :: (r ++ b)) = true := by
    rw [startsComment_iff] at notComment ⊢
    rintro ⟨rfl, s, hs⟩
    cases r with
    | nil =>
        rw [List.nil_append] at hs
        exact free '/' (by decide) (hs ▸ List.mem_cons_self ..)
    | cons d u => exact notComment ⟨rfl, u, by rw [(List.cons_eq_cons.mp hs).1]⟩
  simp only [length?]
  rw [if_neg notComment, if_neg notComment']
  split
  · next hq =>
      have hc : c ∉ b := by
        simp only [Bool.or_eq_true, decide_eq_true_eq] at hq
        rcases hq with rfl | rfl
        · exact free '"' (by decide)
        · exact free '\'' (by decide)
      cases hr : closing? c true false r with
      | none => rw [closing?_append_of_none hr hc]
      | some m => rw [closing?_append_of_some hr]
  · rfl

theorem pieces_comment {t : Text} (h : "//".toList.isPrefixOf t = true) (hn : '\n' ∉ t) :
    pieces t = [.literal t] := by
  cases t with
  | nil => cases h
  | cons c r =>
      have noneEnds : ∀ d ∈ r, (d ≠ '\n' : Bool) = true := by
        intro d hd
        rw [decide_eq_true_iff]
        rintro rfl
        exact hn (List.mem_cons_of_mem _ hd)
      have whole : r.takeWhile (· ≠ '\n') = r := by
        have all : (r ++ []).takeWhile (· ≠ '\n') = r ++ [] := List.takeWhile_append_of_pos noneEnds
        rwa [List.append_nil] at all
      have length : length? c r = some (r.length + 1) := by
        rw [length?, if_pos h, whole, Nat.add_comm]
      rw [pieces_cons, length]
      simp [pieces, piecesFrom]

/-- Blanks at the end of a line are code, or belong to the comment that ends it. -/
theorem pieces_append_blanks {t b : Text} (ht : '\n' ∉ t) (hb : ∀ c ∈ b, Text.isBlank c = true)
    (hn : '\n' ∉ b) :
    (pieces (t ++ b) = pieces t ++ b.map Piece.code) ∨
      ∃ ps u, "//".toList.isPrefixOf u = true ∧ pieces t = ps ++ [.literal u] ∧
        pieces (t ++ b) = ps ++ [.literal (u ++ b)] := by
  induction hk : t.length using Nat.strongRecOn generalizing t with
  | ind k ih =>
  cases t with
  | nil =>
      have only := pieces_blanks_append hb []
      rw [List.append_nil] at only
      exact .inl (by rw [List.nil_append, only]; exact List.append_nil _)
  | cons c r =>
      have hr : '\n' ∉ r := fun hm => ht (List.mem_cons_of_mem _ hm)
      by_cases hc : "//".toList.isPrefixOf (c :: r) = true
      · have longer : "//".toList.isPrefixOf (c :: r ++ b) = true :=
          List.isPrefixOf_iff_prefix.mpr
            ((List.isPrefixOf_iff_prefix.mp hc).trans (List.prefix_append _ b))
        have noNewline : '\n' ∉ c :: r ++ b := by
          rw [List.mem_append]
          exact fun hm => hm.elim ht hn
        exact .inr ⟨[], c :: r, hc, pieces_comment hc ht, pieces_comment longer noNewline⟩
      · rw [List.cons_append, pieces_cons, pieces_cons, length?_append_blanks hb hc]
        cases hl : length? c r with
        | none =>
            rcases ih r.length (by simp [← hk]) hr rfl with h | ⟨ps, u, hu, h, h'⟩
            · exact .inl (by simp [h])
            · exact .inr ⟨.code c :: ps, u, hu, by simp [h], by simp [h']⟩
        | some n =>
            obtain ⟨s, rest, rfl, rfl⟩ := exists_of_length? hl
            have shorter : rest.length < k := by
              rw [← hk, List.length_cons, List.length_append]
              omega
            simp only [List.append_assoc, List.take_succ_cons, List.take_left,
              List.drop_succ_cons, List.drop_left]
            rcases ih _ shorter (fun hm => hr (List.mem_append_right _ hm)) rfl with
              h | ⟨ps, u, hu, h, h'⟩
            · exact .inl (by simp [h])
            · exact .inr ⟨.literal (c :: s) :: ps, u, hu, by simp [h], by simp [h']⟩

/-- A literal alone is found in its whole length. -/
theorem length?_of_pieces_eq_literal {t : Text} (h : pieces t = [.literal t]) :
    ∃ c r, t = c :: r ∧ length? c r = some (r.length + 1) := by
  obtain ⟨c, r, -, -, other, -⟩ | ⟨c, s, rest, ht, hl, same, -⟩ := of_pieces_eq_cons h
  · cases other
  · obtain rfl : t = c :: s := Piece.literal.inj same
    obtain rfl : rest = [] := List.self_eq_append_right.mp (List.cons_eq_cons.mp ht).2
    rw [List.append_nil] at hl
    exact ⟨c, s, rfl, hl⟩

theorem pieces_eq_literal_append {t : Text} {qs : List Piece}
    (h : pieces ((Piece.literal t :: qs).flatMap Piece.text) = .literal t :: qs) :
    pieces t = [.literal t] ∧ pieces (qs.flatMap Piece.text) = qs := by
  have cut : pieces (t ++ qs.flatMap Piece.text) = [.literal t] ++ qs := h
  exact pieces_of_append cut (List.append_nil t)

/-- What is behind a literal among the pieces of a line: nothing, if it is a comment. -/
theorem of_pieces_append_literal {l : Text} (hn : '\n' ∉ l) {front back : List Piece} {t : Text}
    (h : pieces l = front ++ .literal t :: back) :
    pieces t = [.literal t] ∧ ("//".toList.isPrefixOf t = true → back = []) := by
  have whole : front.flatMap Piece.text ++ (t ++ back.flatMap Piece.text) = l := by
    have parts := flatMap_text_pieces l
    rw [h, List.flatMap_append, List.flatMap_cons] at parts
    exact parts
  rw [← whole] at h hn
  have behind := (pieces_of_append h rfl).2
  refine ⟨(pieces_eq_literal_append behind).1, fun comment => ?_⟩
  have longer : "//".toList.isPrefixOf (t ++ back.flatMap Piece.text) = true := by
    rw [List.isPrefixOf_iff_prefix] at comment ⊢
    exact comment.trans (List.prefix_append t _)
  rw [pieces_comment longer fun hm => hn (List.mem_append_right _ hm)] at behind
  exact (List.cons_eq_cons.mp behind).2.symm

end Literal
end MotionExpr
