import MotionExpr.Proofs.Format.Essence
import MotionExpr.Proofs.Format.Spacing
import MotionExpr.Proofs.Format.SemicolonSites
import MotionExpr.Format.Pass

/-!
No pass loses, doubles or moves code: each keeps the characters that show, and
with options of use to it none fails.
-/

namespace MotionExpr

open Text

/-! Blanks at the ends of lines and of the text. -/

namespace Text

variable {p : Char → Bool} (hp : ∀ c, p c = true → isBlank c = true)

include hp

theorem ink_dropEndWhile (t : Text) : (dropEndWhile p t).filter isInk = t.filter isInk :=
  filter_dropEndWhile (fun c hc => isInk_of_isBlank c (hp c hc)) t

theorem ink_dropWhile (t : Text) : (t.dropWhile p).filter isInk = t.filter isInk :=
  filter_dropWhile (fun c hc => isInk_of_isBlank c (hp c hc)) t

end Text

namespace LineEnd

theorem ink_unifyFrom (behindReturn : Bool) (t : Text) :
    (unifyFrom behindReturn t).filter isInk = t.filter isInk := by
  have newline : isInk '\n' = false := by decide
  have carriageReturn : isInk '\r' = false := by decide
  induction t generalizing behindReturn with
  | nil => rfl
  | cons c r ih =>
      simp only [unifyFrom]
      split
      · next hc => simp [hc, newline, carriageReturn, ih]
      · split
        · next hc =>
            simp only [Bool.and_eq_true, decide_eq_true_eq] at hc
            simp [hc.1, newline, ih]
        · rw [List.filter_cons, List.filter_cons, ih]

theorem isBlank_of_isTrailing {c : Char} (h : isTrailing c = true) : isBlank c = true := by
  simp only [isTrailing, Bool.or_eq_true, beq_iff_eq] at h
  rcases h with ((rfl | rfl) | rfl) | rfl <;> rfl

theorem ink_trim (t : Text) : (trim t).filter isInk = t.filter isInk := by
  rw [trim, filter_unlines (by decide), filter_eq_flatMap_lines (by decide), List.flatMap_map]
  congr 1
  funext l
  exact ink_dropEndWhile (fun _ => isBlank_of_isTrailing) l

theorem ink_close (t : Text) : (close t).filter isInk = t.filter isInk := by
  simp only [close]
  split
  · rfl
  · rw [List.filter_append]
    exact List.append_nil _

end LineEnd

namespace Indentation

theorem ink_atLevel {unit : IndentUnit} (hu : isBlank unit.char = true) (level : Nat) :
    (unit.atLevel level).filter isInk = [] :=
  filter_eq_nil_of_all isInk_of_isBlank fun c hc => by rwa [List.eq_of_mem_replicate hc]

theorem ink_indentFrom {unit : IndentUnit} (hu : isBlank unit.char = true) (s : State)
    (ls : List Text) :
    (indentFrom unit s ls).flatMap (·.filter isInk) = ls.flatMap (·.filter isInk) := by
  induction ls generalizing s with
  | nil => rfl
  | cons l ls ih =>
      have body : (trimStart l).filter isInk = l.filter isInk := ink_dropWhile (fun _ h => h) l
      simp only [indentFrom]
      split
      · rw [List.flatMap_cons, List.flatMap_cons, body, ih]
      · rw [List.flatMap_cons, List.flatMap_cons, List.filter_append, ink_atLevel hu, body, ih,
          List.nil_append]

theorem ink_apply {unit : IndentUnit} (hu : isBlank unit.char = true) (t : Text) :
    (apply unit t).filter isInk = t.filter isInk := by
  rw [apply, filter_unlines (by decide), ink_indentFrom hu,
    filter_eq_flatMap_lines (by decide) t]

end Indentation

namespace Wrap

theorem ink_trimEnd (t : Text) : (trimEnd t).filter isInk = t.filter isInk :=
  ink_dropEndWhile (fun _ h => h) t

theorem ink_trim (t : Text) : (Text.trim t).filter isInk = t.filter isInk :=
  (ink_dropEndWhile (fun _ h => h) _).trans (ink_dropWhile (fun _ h => h) t)

theorem ink_indent (line : Text) : (splitIndent line).1.filter isInk = [] :=
  filter_eq_nil_of_all isInk_of_isBlank (List.all_eq_true.mp List.all_takeWhile)

/-- Cut anywhere, the two parts of a text keep its characters. -/
theorem ink_cut (t : Text) (i : Int) :
    (t.upTo i).filter isInk ++ (t.startingAt i).filter isInk = t.filter isInk := by
  rw [← List.filter_append, upTo, startingAt, List.take_append_drop]

theorem ink_indented {indent : Text} (hi : indent.filter isInk = []) (t : Text) :
    [indent ++ t].flatMap (·.filter isInk) = t.filter isInk := by
  rw [List.flatMap_cons, List.filter_append, hi, List.flatMap_nil, List.append_nil,
    List.nil_append]

theorem ink_piecesFrom (o : FormatOptions) (fuel : Nat) {indent : Text}
    (hi : indent.filter isInk = []) (content : Text) :
    (piecesFrom o fuel indent content).flatMap (·.filter isInk) = content.filter isInk := by
  induction fuel generalizing indent content with
  | zero => exact ink_indented hi content
  | succ fuel ih =>
      have deeper : (indent ++ continuation).filter isInk = [] := by
        rw [List.filter_append, hi]
        rfl
      simp only [piecesFrom]
      split
      · exact ink_indented hi content
      · split
        · exact ink_indented hi content
        · rw [List.flatMap_cons, ih deeper, List.filter_append, hi, List.nil_append, ink_trimEnd,
            ink_trim, ink_cut]

theorem ink_wrapLine (o : FormatOptions) (line : Text) :
    (wrapLine o line).flatMap (·.filter isInk) = line.filter isInk := by
  rw [wrapLine]
  split
  · simp
  · rw [pieces, ink_piecesFrom o _ (ink_indent line), ink_trim]

theorem ink_apply (o : FormatOptions) (t : Text) : (apply o t).filter isInk = t.filter isInk := by
  rw [apply, filter_unlines (by decide), List.flatMap_assoc, filter_eq_flatMap_lines (by decide) t]
  congr 1
  funext l
  exact ink_wrapLine o l

theorem ink_measureLine {o : FormatOptions} {limit : Float} {line : Text} {us : List Text}
    (h : measureLine o limit line = .ok us) :
    us.flatMap (·.filter isInk) = line.filter isInk := by
  rw [measureLine] at h
  split at h
  · cases h
    simp
  · simp only [measuredPieces] at h
    split at h
    · cases h
    · cases h
      rw [ink_indented (ink_indent line), ink_trim]

end Wrap

namespace Text

/-- A rule that consumes as it writes, up to `f`, leaves the text as it was up to `f`. -/
theorem map_substituteFrom {α : Type} {f : Char → α} {rule : Rule}
    (hr : ∀ passed ahead m, rule passed ahead = some m →
      ∃ found rest, ahead = found ++ rest ∧ found.length = m.consumed ∧ found ≠ [] ∧
        m.text.map f = found.map f)
    (passed t : Text) : (substituteFrom rule passed 0 t).map f = t.map f := by
  induction hk : t.length using Nat.strongRecOn generalizing passed t with
  | ind k ih =>
  cases t with
  | nil => rfl
  | cons c r =>
      cases hm : rule passed (c :: r) with
      | none =>
          rw [substituteFrom_of_none hm, List.map_cons, List.map_cons,
            ih r.length (by simp [← hk]) _ r rfl]
      | some m =>
          obtain ⟨found, rest, happ, hlen, hne, hmap⟩ := hr _ _ _ hm
          have shorter : rest.length < k := by
            have hpos := List.length_pos_iff.mpr hne
            rw [← hk, happ, List.length_append]
            omega
          rw [happ] at hm ⊢
          rw [substituteFrom_found hm hlen hne, List.map_append, List.map_append, hmap,
            ih rest.length shorter _ rest rfl]

end Text

namespace Quote

theorem plainQuote_mark (style : QuoteStyle) : plainQuote style.mark = '"' := by
  cases style <;> rfl

theorem map_plainQuote_restyle (style : QuoteStyle) (t : Text) :
    (restyle style t).map plainQuote = t.map plainQuote := by
  rw [restyle, substitute, map_substituteFrom]
  intro passed ahead m h
  cases ahead with
  | nil => cases h
  | cons c r =>
      simp only [swap] at h
      split at h
      · next hc =>
          obtain ⟨n, hn, rfl⟩ := Option.map_eq_some_iff.mp h
          obtain ⟨inner, rest, rfl, rfl⟩ := Literal.of_closing? hn
          refine ⟨c :: inner ++ [c], rest, by simp, by simp, by simp, ?_⟩
          simp [hc, plainQuote_mark]
      · cases h

theorem essence_restyle (style : QuoteStyle) (t : Text) :
    essence (restyle style t) = essence t := by
  rw [essence, essence, map_plainQuote_restyle]

end Quote

/-! One pass. -/

namespace Line

theorem mapLines_preserves {f : Text → Except Literal.Fault Text} {source : Text}
    (h : Literal.mark ∉ source)
    (hf : ∀ l, Literal.mark ∉ l → '\n' ∉ l → ∃ u, f l = .ok u ∧ Preserves l u) :
    ∃ t, mapLines f source = .ok t ∧ Preserves source t := by
  obtain ⟨us, ht, related⟩ := mapLines_of_forall fun l hl =>
    hf l (fun hm => h (mem_of_mem_lines hl hm)) (not_newline_of_mem_lines hl)
  have kept := Preserves.unlines related
  rw [unlines_lines] at kept
  exact ⟨_, ht, kept⟩

theorem mapLines_mapCode_preserves {f : Text → Text} (hf : Literal.Respaces f) {source : Text}
    (h : Literal.mark ∉ source) :
    ∃ t, mapLines (mapCode f) source = .ok t ∧ Preserves source t := by
  refine mapLines_preserves h fun l hl _ => ?_
  obtain ⟨u, hu, ink⟩ := mapCode_of_respaces hf hl
  exact ⟨u, hu, .ofInk ink⟩

end Line

namespace Semicolon

theorem terminateLine_preserves {line : Text} (hm : Literal.mark ∉ line) (hn : '\n' ∉ line) :
    ∃ u, terminateLine line = .ok u ∧ Preserves line u := by
  obtain ⟨u, hu, rfl | ⟨front, back, rfl, rfl, -⟩⟩ := terminateLine_spec hm hn
  · exact ⟨u, hu, .refl u⟩
  · exact ⟨_, hu, .insert front back⟩

end Semicolon

theorem FormatOptions.isBlank_indentUnit (o : FormatOptions) :
    isBlank o.indentUnit.char = true := by
  rw [indentUnit]
  split <;> rfl

theorem Pass.apply_preserves (o : FormatOptions) (p : Pass) {t : Text} (h : Literal.mark ∉ t) :
    ∃ u, p.apply o t = .ok u ∧ Preserves t u := by
  cases p with
  | lineEndings => exact ⟨_, rfl, .ofInk (LineEnd.ink_unifyFrom false t)⟩
  | trailingBlanks => exact ⟨_, rfl, .ofInk (LineEnd.ink_trim t)⟩
  | indentation => exact ⟨_, rfl, .ofInk (Indentation.ink_apply o.isBlank_indentUnit t)⟩
  | brackets => exact Line.mapLines_mapCode_preserves Bracket.respaces_space h
  | calls => exact Line.mapLines_mapCode_preserves Call.respaces_tighten h
  | operators => exact Line.mapLines_mapCode_preserves Operator.respaces_space h
  | commas => exact Line.mapLines_mapCode_preserves Comma.respaces_space h
  | semicolons =>
      exact Line.mapLines_preserves h fun l hm hn => Semicolon.terminateLine_preserves hm hn
  | quotes => exact ⟨_, rfl, .ofEssence (Quote.essence_restyle o.quoteStyle t)⟩
  | lineLength => exact ⟨_, rfl, .ofInk (Wrap.ink_apply o t)⟩
  | finalNewline => exact ⟨_, rfl, .ofInk (LineEnd.ink_close t)⟩

end MotionExpr
