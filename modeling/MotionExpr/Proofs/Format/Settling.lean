import Mathlib.Data.List.Zip
import MotionExpr.Proofs.Format.Outline

/-!
What the passes over lines make of a body, and that they leave it alone the next time. Each of
them does what the one before left undone, and none undoes it: the gaps that spacing makes stay
when a semicolon is added, and the gaps and the semicolon stay when quotes take one style.
-/

namespace MotionExpr

open Text Literal Code

namespace Formatter

/-- What is asked of a body: strings are closed, the code can be read atom by atom, the literals
take the quote style once and for all, and a semicolon is added behind such characters only that
the spacing of the line stays. -/
structure Steady (o : FormatOptions) (body : Text) : Prop where
  plain : ∀ c, .code c ∈ Literal.pieces body → isPlain c = true
  readable : Readable (mask body).1
  quotes : Quote.Settled o.quoteStyle (literals (Literal.pieces body))
  semicolon : o.semicolons = true → ∀ spaced, runPasses o.plan spacing body = .ok spaced →
    ∀ front back, spaced = front ++ back →
      Semicolon.terminateLine spaced = .ok (front ++ ';' :: back) →
      ∀ d, front.getLast? = some d → Semicolon.follows d = true

/-! Bodies between the passes. -/

def IsCode (b : Text) : Prop := ∃ c : Code, Sound c ∧ c.text = b

/-- Spaced code that takes its semicolon well. -/
def IsSpaced (o : FormatOptions) (b : Text) : Prop :=
  ∃ c : Code, Sound c ∧ mapGaps (spacedGap o.bracketSpacing) [] c = c ∧ c.text = b ∧
    ∀ front back, b = front ++ back → Semicolon.terminateLine b = .ok (front ++ ';' :: back) →
      ∀ d, front.getLast? = some d → Semicolon.follows d = true

def IsQuoted (o : FormatOptions) (b : Text) : Prop :=
  ∃ c : Code, Sound c ∧ Quote.Settled o.quoteStyle (literals c.pieces) ∧ c.text = b

theorem IsCode.noNewline {b : Text} (h : IsCode b) : '\n' ∉ b := by
  obtain ⟨c, sound, rfl⟩ := h
  exact (onLine sound.lexed).1

theorem actsOnCode {f : Text → Text} {φ : GapChange} (acts : Acts f φ) (apart : KeepsApart φ)
    (quiet : Quiet φ) : Line.ActsOnBodies IsCode (Line.mapCode f) where
  indented hi h := by
    obtain ⟨c, sound, rfl⟩ := h
    exact Line.mapCode_indented hi sound.front f
  keeps h hu := by
    obtain ⟨c, sound, rfl⟩ := h
    rw [acts.mapCode apart quiet sound] at hu
    cases hu
    exact ⟨_, sound.mapGaps apart.tidied, rfl⟩

/-- No semicolon is added twice. -/
theorem isSpaced_of_terminated {o : FormatOptions} {d : Code} (sound : Sound d)
    (spaced : mapGaps (spacedGap o.bracketSpacing) [] d = d)
    (terminated : Semicolon.terminateLine d.text = .ok d.text) : IsSpaced o d.text := by
  refine ⟨d, sound, spaced, rfl, fun front back whole added => ?_⟩
  have same := congrArg List.length (Except.ok.inj (terminated.symm.trans added))
  rw [whole, List.length_append, List.length_append, List.length_cons] at same
  omega

theorem actsOnSpaced (o : FormatOptions) :
    Line.ActsOnBodies (IsSpaced o) Semicolon.terminateLine where
  indented hi h := by
    obtain ⟨c, sound, -, rfl, -⟩ := h
    exact Line.terminateLine_indented hi sound.front
  keeps h hu := by
    obtain ⟨c, sound, spaced, rfl, place⟩ := h
    obtain ⟨d, -, made, again, sound', spaced'⟩ := exists_terminated sound spaced place
    rw [made] at hu
    cases hu
    exact isSpaced_of_terminated sound' spaced' again

theorem settled_restyled {style : QuoteStyle} {ts : List Text} (h : Quote.Settled style ts) :
    Quote.Settled style (ts.map (Quote.restyle style)) := by
  have same : (ts.map (Quote.restyle style)).map (Quote.restyle style) = ts.map (Quote.restyle style) := by
    rw [List.map_map]
    exact List.map_congr_left h.twice
  refine ⟨fun u hu => ?_, fun u hu => ?_, h.after, by rw [same]; exact h.after⟩
  · obtain ⟨t, ht, rfl⟩ := List.mem_map.mp hu
    rw [h.twice t ht]
    exact h.whole t ht
  · obtain ⟨t, ht, rfl⟩ := List.mem_map.mp hu
    rw [h.twice t ht, h.twice t ht]

theorem actsOnQuoted (o : FormatOptions) :
    Line.ActsOnBodies (IsQuoted o) fun l => .ok (Quote.restyle o.quoteStyle l) where
  indented hi _ := congrArg Except.ok (Line.restyle_indented hi _)
  keeps h hu := by
    obtain ⟨c, sound, settled, rfl⟩ := h
    cases hu
    refine ⟨_, sound_restyled sound settled, ?_, (restyle_text sound.lexed settled.before).symm⟩
    rw [literals_mapLiterals]
    exact settled_restyled settled

/-! The passes over lines on rows. -/

/-- What becomes of a body from pass to pass, where each finds what it is made for. -/
def Settles (o : FormatOptions) (b e : Text) : Prop :=
  ∃ m, (IsCode b ∧ runPasses o.plan spacing b = .ok m) ∧
    ∃ n, ((o.semicolons = true → IsSpaced o m) ∧ runPasses o.plan [.semicolons] m = .ok n) ∧
      IsQuoted o n ∧ runPasses o.plan [.quotes] n = .ok e

section Rows

variable {o : FormatOptions} {rows rows' : List Row} (nonempty : rows ≠ [])

include nonempty

theorem runPasses_spacing_rows (fits : ∀ r ∈ rows, r.Fits IsCode)
    (h : List.Forall₂ (Row.Over fun b c => runPasses o.plan spacing b = .ok c) rows rows') :
    runPasses o.plan spacing (Row.join rows) = .ok (Row.join rows') := by
  have byLine : RunsByLine IsCode o.plan o spacing := by
    intro p hp
    simp only [spacing, List.mem_cons, List.not_mem_nil, or_false] at hp
    obtain rfl | rfl | rfl | rfl := hp
    · exact ⟨rfl, _, rfl, actsOnCode Bracket.acts_space Bracket.keepsApart_space
        (quiet_of_end (bracketGap_end true))⟩
    · exact ⟨rfl, _, rfl, actsOnCode Call.acts_tighten Call.keepsApart_tighten
        (quiet_of_end tightenGap_end)⟩
    · exact ⟨rfl, _, rfl, actsOnCode acts_operatorGap keepsApart_operatorGap quiet_operatorGap⟩
    · exact ⟨rfl, _, rfl, actsOnCode Comma.acts_space Comma.keepsApart_respace quiet_comma⟩
  exact (runPasses_join_iff byLine (fun _ => IsCode.noNewline) nonempty fits).mpr ⟨rows', h, rfl⟩

theorem runPasses_pass_rows {P : Text → Prop} {p : Pass} {f : Text → Except Literal.Fault Text}
    (hline : p.onLine? o = some f) (hf : Line.ActsOnBodies P f) (noNewline : ∀ b, P b → '\n' ∉ b)
    (fits : ∀ r ∈ rows, r.Fits P)
    (h : List.Forall₂ (Row.Over fun b c => runPasses o.plan [p] b = .ok c) rows rows') :
    runPasses o.plan [p] (Row.join rows) = .ok (Row.join rows') := by
  have byLine : RunsByLine P o.plan o [p] :=
    List.forall_mem_singleton.mpr ⟨rfl, f, hline, hf⟩
  exact (runPasses_join_iff byLine noNewline nonempty fits).mpr ⟨rows', h, rfl⟩

theorem runPasses_semicolons_rows
    (blank : ∀ r ∈ rows, r.Fits fun b => o.semicolons = true → IsSpaced o b)
    (h : List.Forall₂ (Row.Over fun b c => runPasses o.plan [.semicolons] b = .ok c) rows rows') :
    runPasses o.plan [.semicolons] (Row.join rows) = .ok (Row.join rows') := by
  cases on : o.semicolons with
  | false =>
      simp only [runPasses_off (p := .semicolons) [] rfl on] at h ⊢
      have same : rows' = rows :=
        Row.over_eq_iff.mp (h.imp fun _ _ pair => ⟨pair.1, (Except.ok.inj pair.2).symm⟩)
      rw [same]
      rfl
  | true =>
      have noNewline (b : Text) (hb : IsSpaced o b) : '\n' ∉ b := by
        obtain ⟨c, sound, -, rfl, -⟩ := hb
        exact (onLine sound.lexed).1
      exact runPasses_pass_rows nonempty rfl (actsOnSpaced o) noNewline (fun r hr =>
        ⟨(blank r hr).blank, (blank r hr).onLine, (blank r hr).body on⟩) h

theorem runPasses_quotes_rows (fits : ∀ r ∈ rows, r.Fits (IsQuoted o))
    (h : List.Forall₂ (Row.Over fun b c => runPasses o.plan [.quotes] b = .ok c) rows rows') :
    runPasses o.plan [.quotes] (Row.join rows) = .ok (Row.join rows') := by
  have noNewline (b : Text) (hb : IsQuoted o b) : '\n' ∉ b := by
    obtain ⟨c, sound, -, rfl⟩ := hb
    exact (onLine sound.lexed).1
  exact runPasses_pass_rows nonempty rfl (actsOnQuoted o) noNewline fits h

/-- Rows settle if their bodies do. -/
theorem runPasses_byLine_rows (fits : ∀ r ∈ rows, r.Fits fun _ => True)
    (h : List.Forall₂ (Row.Over (Settles o)) rows rows') :
    runPasses o.plan Pass.byLine (Row.join rows) = .ok (Row.join rows') := by
  obtain ⟨spaced, first, rest⟩ := Row.over_comp_iff.mp h
  obtain ⟨ended, second, third⟩ := Row.over_comp_iff.mp rest
  have bodies {Q : Text → Prop} {R : Text → Text → Prop} {rs rs' : List Row}
      (fits : ∀ r ∈ rs, r.Fits fun _ => True)
      (related : List.Forall₂ (Row.Over fun b c => Q b ∧ R b c) rs rs') : ∀ r ∈ rs, r.Fits Q := by
    induction related with
    | nil => exact fun r hr => absurd hr List.not_mem_nil
    | cons pair _ ih =>
        obtain ⟨here, others⟩ := List.forall_mem_cons.mp fits
        exact List.forall_mem_cons.mpr ⟨⟨here.blank, here.onLine, pair.2.1⟩, ih others⟩
  have fitsSpaced := Row.fits_of_over (fun _ _ => trivial) fits first
  have fitsEnded := Row.fits_of_over (fun _ _ => trivial) fitsSpaced second
  have nonemptySpaced : spaced ≠ [] := by
    rintro rfl
    exact nonempty (List.forall₂_nil_right_iff.mp first)
  have nonemptyEnded : ended ≠ [] := by
    rintro rfl
    exact nonemptySpaced (List.forall₂_nil_right_iff.mp second)
  refine (runPasses_append _ spacing [.semicolons, .quotes] _ _).mpr ⟨_, runPasses_spacing_rows nonempty
    (bodies fits first) (first.imp fun _ _ pair => ⟨pair.1, pair.2.2⟩), ?_⟩
  refine (runPasses_append _ [.semicolons] [.quotes] _ _).mpr ⟨_, runPasses_semicolons_rows nonemptySpaced
    (bodies fitsSpaced second) (second.imp fun _ _ pair => ⟨pair.1, pair.2.2⟩), ?_⟩
  exact runPasses_quotes_rows nonemptyEnded (bodies fitsEnded third)
    (third.imp fun _ _ pair => ⟨pair.1, pair.2.2⟩)

end Rows

end Formatter

/-! The ends of lines. -/

/-- Nothing stands at the end that trimming takes away. -/
def LineEnd.Clean (t : Text) : Prop := t.getLast?.any isTrailing = false

namespace Code

/-- A change that makes no gap at the end of a line leaves a clean end clean. -/
theorem clean_mapGaps {φ : GapChange} (closed : ∀ a before, φ a before [] none = []) {c : Code}
    (h : Lexed c) (clean : LineEnd.Clean c.text) (before : List Atom) :
    LineEnd.Clean (text (mapGaps φ before c)) := by
  induction c generalizing before with
  | nil => exact clean
  | cons x c ih =>
      obtain ⟨fits, joint, rest⟩ := h
      cases c with
      | nil =>
          have noGap : x.gap = [] := by
            by_contra hgap
            obtain ⟨g, d, hd⟩ := (List.eq_nil_or_concat x.gap).resolve_left hgap
            rw [List.concat_eq_append] at hd
            have blank := joint.blank d (by rw [hd]; simp)
            rw [LineEnd.Clean, text, text, List.append_nil, hd, ← List.append_assoc,
              List.getLast?_concat, Option.any_some, LineEnd.isTrailing] at clean
            rw [isSpaceOrTab] at blank
            rw [blank] at clean
            cases clean
          have same : mapGaps φ before [x] = [x] := by
            rw [mapGaps, mapGaps, noGap, first?, closed, ← noGap]
          rw [same]
          exact clean
      | cons y c =>
          have tail {g : Text} {d : Code} (hd : text d ≠ []) :
              (x.atom.text ++ (g ++ text d)).getLast? = (text d).getLast? := by
            rw [← List.append_assoc, List.getLast?_append_of_ne_nil _ hd]
          have later : LineEnd.Clean (text (y :: c)) := by
            rw [LineEnd.Clean, text, tail (text_ne_nil rest)] at clean
            exact clean
          have changed : text (mapGaps φ (x.atom :: before) (y :: c)) ≠ [] := by
            rw [mapGaps, text]
            exact List.append_ne_nil_of_left_ne_nil (Atom.text_ne_nil rest.1) _
          rw [mapGaps, LineEnd.Clean, text, tail changed]
          exact ih rest later _

theorem clean_terminated {c d : Code} (h : Terminated c d) (clean : LineEnd.Clean c.text) :
    LineEnd.Clean d.text := by
  cases h with
  | same => exact clean
  | @added l a g r hc =>
      have before : c.text = (text l ++ a.text) ++ (g ++ text r) := by
        simp [hc, text_append, text]
      have after : text (l ++ ⟨a, []⟩ :: ⟨.symbol ';', g⟩ :: r) =
          (text l ++ a.text ++ [';']) ++ (g ++ text r) := by
        have one : (Atom.symbol ';').text = [';'] := rfl
        simp [text_append, text, one]
      rw [LineEnd.Clean, before] at clean
      rw [LineEnd.Clean, after]
      generalize g ++ text r = back at clean
      by_cases hback : back = []
      · rw [hback, List.append_nil, List.getLast?_concat]
        rfl
      · rw [List.getLast?_append_of_ne_nil _ hback] at clean ⊢
        exact clean

theorem clean_restyle {style : QuoteStyle} {t : Text} (clean : LineEnd.Clean t) :
    LineEnd.Clean (Quote.restyle style t) := by
  have same : (Quote.restyle style t).getLast?.any LineEnd.isTrailing =
      t.getLast?.any LineEnd.isTrailing := by
    apply any_of_map_plainQuote
    · rw [← List.getLast?_map, ← List.getLast?_map, Quote.map_plainQuote_restyle]
    · intro q hq
      simp only [Token.isQuote, Bool.or_eq_true, beq_iff_eq] at hq
      obtain rfl | rfl := hq <;> rfl
  rw [LineEnd.Clean, same]
  exact clean

theorem literals_terminated {c d : Code} (h : Terminated c d) :
    literals d.pieces = literals c.pieces := by
  cases h with
  | same => rfl
  | @added l a g r hc =>
      simp [hc, pieces_append, pieces, literals_append, literals_map_code, Atom.pieces, literals]

end Code

namespace Formatter

/-! One body. -/

variable {o : FormatOptions}

/-- Spaced code becomes code that has its semicolon. -/
theorem exists_ended {c : Code} (h : Sound c)
    (spaced : mapGaps (spacedGap o.bracketSpacing) [] c = c)
    (place : o.semicolons = true → ∀ front back, c.text = front ++ back →
      Semicolon.terminateLine c.text = .ok (front ++ ';' :: back) →
      ∀ d, front.getLast? = some d → Semicolon.follows d = true) :
    ∃ d, Terminated c d ∧ Sound d ∧ mapGaps (spacedGap o.bracketSpacing) [] d = d ∧
      (o.semicolons = true → IsSpaced o c.text) ∧
      runPasses o.plan [.semicolons] c.text = .ok d.text ∧
      (o.semicolons = true → Semicolon.terminateLine d.text = .ok d.text) := by
  cases on : o.semicolons with
  | false =>
      refine ⟨c, .same, h, spaced, fun impossible => absurd impossible Bool.false_ne_true, ?_,
        fun impossible => absurd impossible Bool.false_ne_true⟩
      rw [runPasses_off (p := .semicolons) [] rfl on]
      rfl
  | true =>
      obtain ⟨d, terminated, made, again, sound, spaced'⟩ := exists_terminated h spaced (place on)
      refine ⟨d, terminated, sound, spaced', fun _ => ⟨c, h, spaced, rfl, place on⟩, ?_, fun _ => again⟩
      exact runPasses_onLine (p := .semicolons) rfl on rfl [] (onLine h.lexed).1 made

/-- Spaced code that has its semicolon and the quote style settles as it is. -/
theorem settles_self {c : Code} (h : Sound c)
    (spaced : mapGaps (spacedGap o.bracketSpacing) [] c = c)
    (terminated : o.semicolons = true → Semicolon.terminateLine c.text = .ok c.text)
    (quoted : Quote.Settled o.quoteStyle (literals c.pieces))
    (restyled : Quote.restyle o.quoteStyle c.text = c.text) : Settles o c.text c.text := by
  have onLine := (onLine h.lexed).1
  have spacing := @runPasses_spacing o.plan o (fun _ _ => rfl) [] c h
  rw [spaced] at spacing
  refine ⟨_, ⟨⟨c, h, rfl⟩, spacing⟩, _, ⟨fun on => isSpaced_of_terminated h spaced (terminated on), ?_⟩,
    ⟨c, h, quoted, rfl⟩, ?_⟩
  · cases on : o.semicolons with
    | false => exact runPasses_off (p := .semicolons) [] rfl on c.text
    | true => exact runPasses_onLine (p := .semicolons) rfl on rfl [] onLine (terminated on)
  · exact runPasses_onLine (p := .quotes) rfl rfl rfl [] onLine (congrArg Except.ok restyled)

/-- A steady body settles, and the result settles as it is. Indentation sees no difference. -/
theorem exists_settled {b : Text} (h : Steady o b) (front : Unindented b)
    (inLine : '\n' ∉ b ∧ '\r' ∉ b) :
    ∃ e, Settles o b e ∧ Settles o e e ∧ Indentation.Alike b e ∧
      (LineEnd.Clean b → LineEnd.Clean e) := by
  obtain ⟨c, rfl, lexed, start⟩ := exists_lexed inLine front h.plain h.readable
  have sound : Sound c := ⟨lexed, start, front⟩
  have quoted := h.quotes
  rw [pieces_text lexed] at quoted
  -- the spaced code
  have sound' := sound.mapGaps (keepsApart_spacedGap o.bracketSpacing)
  have spacing := @runPasses_spacing o.plan o (fun _ _ => rfl) [] c sound
  have spaced : mapGaps (spacedGap o.bracketSpacing) [] (mapGaps (spacedGap o.bracketSpacing) [] c) =
      mapGaps (spacedGap o.bracketSpacing) [] c := by
    rw [mapGaps_mapGaps]
    congr 1
    funext a before gap next
    exact steady_spacedGap o.bracketSpacing a before gap next
  -- the code with its semicolon
  obtain ⟨d, terminated, soundD, spacedD, isSpaced, ended, again⟩ := exists_ended sound' spaced
    fun on => h.semicolon on _ spacing
  have quotedD : Quote.Settled o.quoteStyle (literals d.pieces) := by
    rw [literals_terminated terminated, literals_mapGaps]
    exact quoted
  have quotes : runPasses o.plan [.quotes] d.text = .ok (Quote.restyle o.quoteStyle d.text) :=
    runPasses_onLine (p := .quotes) rfl rfl rfl [] (onLine soundD.lexed).1 rfl
  -- the code with one quote style
  have restyled := restyle_text soundD.lexed quotedD.before
  refine ⟨text (mapLiterals (Quote.restyle o.quoteStyle) d), ?_, ?_, ?_, ?_⟩
  · exact ⟨_, ⟨⟨c, sound, rfl⟩, spacing⟩, d.text, ⟨isSpaced, ended⟩, ⟨d, soundD, quotedD, rfl⟩,
      restyled ▸ quotes⟩
  · refine settles_self (sound_restyled soundD quotedD) ?_
      (fun on => terminateLine_restyled soundD quotedD (again on)) ?_ (restyle_restyled soundD quotedD)
    · have blind := @mapGaps_mapLiterals _ (Quote.restyle o.quoteStyle)
        (blind_spacedGap o.bracketSpacing) [] d
      rw [spacedD] at blind
      exact blind
    · rw [literals_mapLiterals]
      exact settled_restyled quotedD
  · exact ((alike_mapGaps (keepsApart_spacedGap _) sound).trans
      (alike_terminated sound' soundD terminated)).trans (alike_restyled soundD quotedD)
  · intro clean
    rw [← restyled]
    exact clean_restyle (clean_terminated terminated (clean_mapGaps (fun _ _ => rfl) lexed clean []))

end Formatter

/-! Whether a body is steady can be computed. -/

theorem Text.forall_split {t : Text} {P : Text × Text → Prop} :
    (∀ p ∈ t.inits.zip t.tails, P p) ↔ ∀ front back, t = front ++ back → P (front, back) :=
  ⟨fun h _ _ ht => h _ (List.mem_zip_inits_tails.mpr ht.symm),
    fun h p hp => h p.1 p.2 (List.mem_zip_inits_tails.mp hp).symm⟩

namespace Literal

theorem readable_iff {t : Text} :
    (∀ p ∈ t.inits.zip t.tails,
      (p.2.head? = some '!' → ∀ q ∈ p.2.tail.inits.zip p.2.tail.tails, q.2.head? = some '=' →
        q.1.all isSpaceOrTab = true → q.1 = []) ∧
      (Operator.operator? p.2 = some (p.2.take 1) → Operator.isSign (p.2.take 1) = true →
        Operator.behindExponentMark p.1.reverse = true → p.2.tail.head?.any isWordPart = true)) ↔
      Readable t := by
  refine forall_split.trans ⟨fun h => ⟨fun front gap back ht blank => ?_,
    fun front sign back ht read isSign marked => ?_⟩, fun h front rest ht => ⟨fun first => ?_,
      fun read isSign marked => ?_⟩⟩
  · have parted := (h front ('!' :: gap ++ '=' :: back) (by rw [ht]; simp)).1 rfl
    exact forall_split.mp parted gap ('=' :: back) rfl rfl (List.all_eq_true.mpr blank)
  · have signed := (h front (sign :: back) ht).2 read isSign marked
    cases back with
    | nil => cases signed
    | cons c r => exact ⟨c, r, rfl, signed⟩
  · refine forall_split.mpr fun gap behind parted next blank => ?_
    obtain ⟨back, rfl⟩ := List.head?_eq_some_iff.mp next
    obtain ⟨r, rfl⟩ := List.head?_eq_some_iff.mp first
    rw [List.tail_cons] at parted
    exact h.negation front gap back (by rw [ht, parted]; simp) (List.all_eq_true.mp blank)
  · cases rest with
    | nil => cases isSign
    | cons sign back =>
        obtain ⟨c, r, rfl, part⟩ := h.exponent front sign back ht read isSign marked
        exact part

instance (t : Text) : Decidable (Readable t) := decidable_of_iff _ readable_iff

def Piece.isPlain : Piece → Bool
  | .code c => Literal.isPlain c
  | .literal _ => true

theorem all_isPlain_iff {ps : List Piece} :
    ps.all Piece.isPlain = true ↔ ∀ c, .code c ∈ ps → isPlain c = true := by
  refine List.all_eq_true.trans ⟨fun h c hc => h _ hc, fun h p hp => ?_⟩
  cases p with
  | code c => exact h c hp
  | literal t => rfl

end Literal

theorem Quote.settled_iff {style : QuoteStyle} {ts : List Text} :
    ((∀ t ∈ ts, Literal.pieces (restyle style t) = [.literal (restyle style t)]) ∧
      (∀ t ∈ ts, restyle style (restyle style t) = restyle style t) ∧
      (ts.Pairwise fun t u =>
        leavesOpen style t = true → closing? style.other.mark false false u = none) ∧
      (ts.map (restyle style)).Pairwise fun t u =>
        leavesOpen style t = true → closing? style.other.mark false false u = none) ↔
      Settled style ts := by
  refine ⟨?_, fun h => ⟨h.whole, h.twice, h.before, h.after⟩⟩
  rintro ⟨whole, twice, before, after⟩
  exact ⟨whole, twice, before, after⟩

instance (style : QuoteStyle) (ts : List Text) : Decidable (Quote.Settled style ts) :=
  decidable_of_iff _ Quote.settled_iff

namespace Formatter

theorem steady_iff {o : FormatOptions} {body : Text} :
    ((Literal.pieces body).all Piece.isPlain = true ∧ Readable (mask body).1 ∧
      Quote.Settled o.quoteStyle (literals (Literal.pieces body)) ∧
      (o.semicolons = true → ∀ spaced ∈ (runPasses o.plan spacing body).toOption,
        ∀ p ∈ spaced.inits.zip spaced.tails,
          Semicolon.terminateLine spaced = .ok (p.1 ++ ';' :: p.2) →
          p.1.getLast?.all Semicolon.follows = true)) ↔ Steady o body := by
  have given (spaced : Text) : spaced ∈ (runPasses o.plan spacing body).toOption ↔
      runPasses o.plan spacing body = .ok spaced := by
    cases runPasses o.plan spacing body with
    | error _ => exact iff_of_false (Option.not_mem_none _) (by rintro ⟨⟩)
    | ok t =>
        exact ⟨fun h => congrArg Except.ok (Option.some.inj h),
          fun h => congrArg some (Except.ok.inj h)⟩
  constructor
  · rintro ⟨plain, readable, quotes, semicolon⟩
    refine ⟨all_isPlain_iff.mp plain, readable, quotes, fun on spaced made front back whole added => ?_⟩
    have places := forall_split.mp (semicolon on spaced ((given spaced).mpr made))
    exact (Option.all_eq_true ..).mp (places front back whole added)
  · rintro ⟨plain, readable, quotes, semicolon⟩
    refine ⟨all_isPlain_iff.mpr plain, readable, quotes, fun on spaced made => ?_⟩
    have places := semicolon on spaced ((given spaced).mp made)
    exact forall_split.mpr fun front back whole added =>
      (Option.all_eq_true ..).mpr (places front back whole added)

instance (o : FormatOptions) (body : Text) : Decidable (Steady o body) :=
  decidable_of_iff _ steady_iff

end Formatter
end MotionExpr
