import MotionExpr.Proofs.Token.Boundary
import MotionExpr.Proofs.Fix.Patch

/-!
The tokens of a patched text. Where a patch puts names in the place of names, the
tokens around them stay what they were: the patched text has the old tokens, with
the tokens of the new names in the place of those that were replaced.
-/

namespace MotionExpr
namespace Token

/-- A text that reads the same in front of anything that does not go on with a word. -/
structure IsName (p : Profile) (n : Text) : Prop where
  begins : ∃ c w, n = c :: w ∧ startsWord c = true
  oneLine : '\n' ∉ n
  apart : ∀ r, EndsWord r → spell (lexemes p (n ++ r)) = spell (lexemes p n) ++ spell (lexemes p r)

theorem endsWord_nil : EndsWord [] := by
  intro d hd
  cases hd

theorem not_newline_of_continuesWord {t : Text} (h : ∀ c ∈ t, continuesWord c = true) : '\n' ∉ t :=
  fun newline => absurd (h '\n' newline) (by decide)

theorem continuesWord_of_isWord {word : Text} (h : isWord word = true) :
    ∀ c ∈ word, continuesWord c = true := by
  obtain ⟨c, w, rfl, hc, hw⟩ := of_isWord h
  exact List.forall_mem_cons.mpr ⟨continuesWord_of_startsWord c hc, hw⟩

theorem not_newline_of_isWord {word : Text} (h : isWord word = true) : '\n' ∉ word :=
  not_newline_of_continuesWord (continuesWord_of_isWord h)

theorem spell_word {p : Profile} {word : Text} (hw : isWord word = true) :
    spell (lexemes p word) = [(classify p word, word)] := by
  have here := lexemes_word (p := p) hw endsWord_nil
  rw [List.append_nil] at here
  rw [here]
  rfl

theorem isName_word {p : Profile} {word : Text} (hw : isWord word = true) : IsName p word where
  begins := by
    obtain ⟨c, w, rfl, hc, -⟩ := of_isWord hw
    exact ⟨c, w, rfl, hc⟩
  oneLine := not_newline_of_isWord hw
  apart r hr := by
    rw [lexemes_word hw hr, spell_word hw]
    rfl

theorem spell_dotted {p : Profile} {a b : Text} (ha : isWord a = true) (hb : isWord b = true) :
    spell (lexemes p (a ++ '.' :: b)) =
      [(classify p a, a), (.punctuation, ['.']), (classify p b, b)] := by
  have stop : EndsWord ('.' :: b) := by
    intro d hd
    cases hd
    decide
  rw [lexemes_word ha stop, lexemes_dot, spell_cons, spell_cons, spell_word hb]

/-- Two words with a dot between them. -/
theorem isName_dotted {p : Profile} {a b : Text} (ha : isWord a = true) (hb : isWord b = true) :
    IsName p (a ++ '.' :: b) where
  begins := by
    obtain ⟨c, w, rfl, hc, -⟩ := of_isWord ha
    exact ⟨c, w ++ '.' :: b, rfl, hc⟩
  oneLine := by
    rw [List.mem_append, List.mem_cons, not_or, not_or]
    exact ⟨not_newline_of_isWord ha, by decide, not_newline_of_isWord hb⟩
  apart r hr := by
    have stop : EndsWord ('.' :: (b ++ r)) := by
      intro d hd
      cases hd
      decide
    rw [spell_dotted ha hb, List.append_assoc, List.cons_append, lexemes_word ha stop, lexemes_dot,
      lexemes_word hb hr]
    rfl

end Token

open Token

/-- What stands in the place of a token. -/
def expand (p : Profile) (new : Token → Option Text) (t : Token) : List (TokenKind × Text) :=
  match new t with
  | none => [spelling t]
  | some n => spell (lexemes p n)

/-- Names replace names. -/
structure Renames (p : Profile) (new : Token → Option Text) : Prop where
  old : ∀ t n, new t = some n → ∀ c ∈ t.text.head?, startsWord c = true
  fresh : ∀ t n, new t = some n → IsName p n

variable {p : Profile} {new : Token → Option Text}

theorem alike_patchFrom (h : Renames p new) (line column : Int) (t : Text) :
    Alike t (patchFrom p new line column 0 t) := by
  cases t using scan_induction p with
  | nil => exact .inl rfl
  | blank c r hc =>
      rw [patchFrom_of_none hc]
      exact .inl rfl
  | token c kind w behind hc =>
      rw [patchFrom_of_some hc]
      cases hn : new ⟨kind, c :: w, line, column⟩ with
      | none => exact .inl rfl
      | some n =>
          obtain ⟨d, v, rfl, hd⟩ := (h.fresh _ n hn).begins
          exact .inr ⟨c, d, rfl, rfl, h.old _ _ hn c rfl, hd⟩

theorem spell_patchFrom (h : Renames p new) (line column : Int) (t : Text) :
    spell (lexemes p (patchFrom p new line column 0 t)) =
      (scanLine p line column 0 t).flatMap (expand p new) := by
  induction t using scan_induction p generalizing column with
  | nil => rfl
  | blank c r hc ih =>
      have still : lexeme? p c (patchFrom p new line (column + 1) 0 r) = none :=
        lexeme?_eq_none_iff.mpr (lexeme?_eq_none_iff.mp hc)
      rw [patchFrom_of_none hc, lexemes_of_none still, scanLine_of_none hc, ih]
  | token c kind w behind hc ih =>
      have alike := alike_patchFrom h line (column + (c :: w).length) behind
      rw [patchFrom_of_some hc, scanLine_of_some hc, List.flatMap_cons, ← ih]
      cases hn : new ⟨kind, c :: w, line, column⟩ with
      | none =>
          rw [Option.getD_none, List.cons_append, lexemes_of_some (lexeme?_of_alike hc alike) rfl,
            spell_cons, expand, hn]
          rfl
      | some n =>
          -- the old name was read up to the end of its word, and the new one stops there too
          have stop := endsWord_of_lexeme? hc (h.old _ n hn c rfl)
          have stop' : EndsWord (patchFrom p new line (column + (c :: w).length) 0 behind) :=
            alike.head continuesWord_of_startsWord stop
          rw [Option.getD_some, (h.fresh _ n hn).apart _ stop', expand, hn]

theorem spell_patchLines (h : Renames p new) (line : Int) (ls : List Text) :
    spell ((patchLines p new line ls).flatMap (lexemes p)) =
      (scanLines p line ls).flatMap (expand p new) := by
  induction ls generalizing line with
  | nil => rfl
  | cons l ls ih =>
      rw [patchLines, List.flatMap_cons, spell_append, spell_patchFrom h, ih, scanLines,
        List.flatMap_append]

theorem lines_patch (h : Renames p new) (source : Text) :
    Text.lines (patch p new source) = patchLines p new 1 (Text.lines source) := by
  refine Text.lines_unlines ?_ (not_mem_patchLines (fun t n hn => (h.fresh t n hn).oneLine) 1
    fun l hl => Text.not_newline_of_mem_lines hl)
  cases hl : Text.lines source with
  | nil => exact absurd hl (Text.lines_ne_nil source)
  | cons l ls => simp [patchLines]

/-- A patched text has the tokens of the text, with those that are replaced read anew. -/
theorem map_spelling_patch (h : Renames p new) (source : Text) :
    (tokenize p (patch p new source)).map spelling =
      (tokenize p source).flatMap (expand p new) := by
  rw [map_spelling_tokenize, lines_patch h, spell_patchLines h]
  rfl

end MotionExpr
