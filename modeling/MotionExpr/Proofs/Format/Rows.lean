import MotionExpr.Proofs.Format.QuoteStyle
import MotionExpr.Format.Engine

/-!
Passes that go line by line. A text is rows, each an indentation and a body behind
it. Such a pass leaves the indentation alone and does to a body what it does to a
text of that body alone, so a run over the text succeeds just if it does over each
body by itself.
-/

namespace MotionExpr

open Text

namespace Text

/-- No blank stands in front. -/
def Unindented (t : Text) : Prop := ∀ c r, t = c :: r → isBlank c = false

section Indent

variable {indent b : Text} (hi : ∀ c ∈ indent, isBlank c = true)

include hi

theorem splitIndent_indented (hb : Unindented b) : splitIndent (indent ++ b) = (indent, b) := by
  rw [splitIndent, takeWhile_append_stop hi hb, dropWhile_append_stop hi hb]

theorem trim_indented : trim (indent ++ b) = trim b := by
  rw [trim, trimBoth, List.dropWhile_append_of_pos hi]
  rfl

end Indent

theorem splitIndent_unindented {b : Text} (hb : Unindented b) : splitIndent b = ([], b) :=
  splitIndent_indented (List.forall_mem_nil _) hb

theorem unindented_trimStart (t : Text) : Unindented (trimStart t) := by
  intro c r h
  have first := List.head?_dropWhile_not isBlank t
  rw [show t.dropWhile isBlank = c :: r from h] at first
  simpa using first

end Text

namespace Line

/-- The transform leaves an indentation alone and keeps what `P` says of bodies. -/
structure ActsOnBodies (P : Text → Prop) (f : Text → Except Literal.Fault Text) : Prop where
  indented : ∀ {indent b : Text}, (∀ c ∈ indent, isBlank c = true) → P b →
    f (indent ++ b) = (f b).map (indent ++ ·)
  keeps : ∀ {b u : Text}, P b → f b = .ok u → P u

section Indented

variable {indent b : Text} (hi : ∀ c ∈ indent, isBlank c = true) (hb : Unindented b)

include hi hb

theorem mapCode_indented (f : Text → Text) :
    mapCode f (indent ++ b) = (mapCode f b).map (indent ++ ·) := by
  rw [mapCode, mapCode, splitIndent_indented hi hb, splitIndent_unindented hb]
  dsimp only
  split
  · rfl
  · cases Literal.restore (Literal.mask b).2 (tidy b (f (Literal.mask b).1)) <;> rfl

theorem terminateLine_indented :
    Semicolon.terminateLine (indent ++ b) = (Semicolon.terminateLine b).map (indent ++ ·) := by
  rw [Semicolon.terminateLine, Semicolon.terminateLine, splitIndent_indented hi hb,
    splitIndent_unindented hb]
  dsimp only
  split
  · rfl
  · cases Semicolon.splitComment (Literal.mask (trimEnd b)).1 (Literal.mask (trimEnd b)).2 with
    | error fault => rfl
    | ok parts =>
        simp only [bind, Except.bind]
        cases Semicolon.terminate? parts.1 with
        | none => rfl
        | some code =>
            dsimp only
            cases Literal.restore (Literal.mask (trimEnd b)).2 (code ++ parts.2) with
            | error fault => rfl
            | ok restored => simp [pure, Except.pure, Except.map]

omit hb in
theorem restyle_indented (style : QuoteStyle) :
    Quote.restyle style (indent ++ b) = indent ++ Quote.restyle style b := by
  apply Quote.restyle_append
  apply Quote.beginsRun_eq_false
  intro c hc
  rw [← Bool.not_eq_true]
  intro hquote
  have blank := hi c hc
  rw [(Token.plain_of_isQuote hquote).1] at blank
  cases blank

end Indented

theorem mapLines_of_not_newline (f : Text → Except Literal.Fault Text) {b : Text}
    (h : '\n' ∉ b) : mapLines f b = f b := by
  rw [mapLines, lines_of_not_newline h]
  cases hf : f b <;> simp [hf, Except.map, bind, Except.bind, pure, Except.pure, unlines]

theorem mapM_eq_ok_iff {ε α β : Type} {f : α → Except ε β} {ls : List α} {us : List β} :
    ls.mapM f = .ok us ↔ List.Forall₂ (fun l u => f l = .ok u) ls us := by
  refine ⟨forall₂_of_mapM, fun h => ?_⟩
  induction h with
  | nil => rfl
  | cons hl _ ih =>
      rw [List.mapM_cons, hl, ih]
      rfl

end Line

structure Row where
  indent : Text
  body : Text

namespace Row

open Line

def text (r : Row) : Text := r.indent ++ r.body

def join (rows : List Row) : Text := unlines (rows.map text)

/-- The indentation is blank and stays on the line, and the body is as `P` says. -/
structure Fits (P : Text → Prop) (r : Row) : Prop where
  blank : ∀ c ∈ r.indent, isBlank c = true
  onLine : '\n' ∉ r.indent
  body : P r.body

/-- Two rows with one indentation and related bodies. -/
def Over (R : Text → Text → Prop) (r r' : Row) : Prop :=
  r'.indent = r.indent ∧ R r.body r'.body

variable {P : Text → Prop} {rows : List Row}

theorem lines_join (noNewline : ∀ b, P b → '\n' ∉ b) (hne : rows ≠ [])
    (h : ∀ r ∈ rows, r.Fits P) : lines (join rows) = rows.map text := by
  apply lines_unlines (by simpa using hne)
  intro l hl
  obtain ⟨r, hr, rfl⟩ := List.mem_map.mp hl
  rw [text, List.mem_append, not_or]
  exact ⟨(h r hr).onLine, noNewline _ (h r hr).body⟩

theorem join_concat {rows : List Row} (h : rows ≠ []) :
    join (rows ++ [⟨[], []⟩]) = join rows ++ ['\n'] := by
  rw [join, List.map_append]
  exact unlines_concat_nil (by simpa using h)

theorem fits_of_over {Q : Text → Prop} {R : Text → Text → Prop} (hR : ∀ {b c}, P b → R b c → Q c)
    {rows' : List Row} (h : ∀ r ∈ rows, r.Fits P) (related : List.Forall₂ (Over R) rows rows') :
    ∀ r ∈ rows', r.Fits Q := by
  induction related with
  | nil => simp
  | @cons r r' rs rs' hr _ ih =>
      obtain ⟨here, rest⟩ := List.forall_mem_cons.mp h
      refine List.forall_mem_cons.mpr ⟨⟨?_, ?_, hR here.body hr.2⟩, ih rest⟩
      · rw [hr.1]
        exact here.blank
      · rw [hr.1]
        exact here.onLine

theorem exists_of_over {R : Text → Text → Prop} {rows rows' : List Row}
    (h : List.Forall₂ (Over R) rows rows') {r' : Row} (hr' : r' ∈ rows') :
    ∃ r ∈ rows, Over R r r' := by
  induction h with
  | nil => cases hr'
  | cons hr _ ih =>
      rcases List.mem_cons.mp hr' with rfl | hr'
      · exact ⟨_, List.mem_cons_self .., hr⟩
      · obtain ⟨r, hr, related⟩ := ih hr'
        exact ⟨r, List.mem_cons_of_mem _ hr, related⟩

theorem exists_over (R : Text → Text → Prop)
    (h : ∀ r ∈ rows, ∃ e, R r.body e) : ∃ rows', List.Forall₂ (Over R) rows rows' := by
  induction rows with
  | nil => exact ⟨[], .nil⟩
  | cons r rows ih =>
      obtain ⟨⟨e, he⟩, rest⟩ := List.forall_mem_cons.mp h
      obtain ⟨rows', related⟩ := ih rest
      exact ⟨⟨r.indent, e⟩ :: rows', .cons ⟨rfl, he⟩ related⟩

theorem over_comp_iff {R S : Text → Text → Prop} {rows'' : List Row} :
    List.Forall₂ (Over fun b d => ∃ c, R b c ∧ S c d) rows rows'' ↔
      ∃ rows', List.Forall₂ (Over R) rows rows' ∧ List.Forall₂ (Over S) rows' rows'' := by
  constructor
  · intro h
    induction h with
    | nil => exact ⟨[], .nil, .nil⟩
    | @cons r r'' rs rs'' hr _ ih =>
        obtain ⟨c, hc, hd⟩ := hr.2
        obtain ⟨rows', first, second⟩ := ih
        exact ⟨⟨r.indent, c⟩ :: rows', .cons ⟨rfl, hc⟩ first, .cons ⟨hr.1, hd⟩ second⟩
  · rintro ⟨rows', first, second⟩
    induction first generalizing rows'' with
    | nil =>
        rw [List.forall₂_nil_left_iff.mp second]
        exact .nil
    | cons hr _ ih =>
        cases second with
        | cons hs hss => exact .cons ⟨hs.1.trans hr.1, _, hr.2, hs.2⟩ (ih hss)

theorem over_eq_iff {rows' : List Row} :
    List.Forall₂ (Over fun b c => c = b) rows rows' ↔ rows' = rows := by
  have same : Over (fun b c => c = b) = Eq := by
    funext r r'
    cases r
    cases r'
    simp [Over, eq_comm]
  rw [same, List.forall₂_eq_eq_eq, eq_comm]

theorem over_congr {R S : Text → Text → Prop} (h : ∀ r ∈ rows, ∀ c, R r.body c ↔ S r.body c)
    {rows' : List Row} : List.Forall₂ (Over R) rows rows' ↔ List.Forall₂ (Over S) rows rows' := by
  induction rows generalizing rows' with
  | nil => rw [List.forall₂_nil_left_iff, List.forall₂_nil_left_iff]
  | cons r rs ih =>
      obtain ⟨here, rest⟩ := List.forall_mem_cons.mp h
      cases rows' with
      | nil => simp
      | cons r' rs' =>
          rw [List.forall₂_cons, List.forall₂_cons, ih rest]
          exact and_congr_left fun _ => and_congr_right fun _ => here _

theorem onText_iff {f : Text → Except Literal.Fault Text} (hf : ActsOnBodies P f) {r : Row}
    (hr : r.Fits P) {c : Text} : f r.text = .ok c ↔ ∃ d, f r.body = .ok d ∧ c = r.indent ++ d := by
  rw [text, hf.indented hr.blank hr.body]
  cases f r.body <;> simp [Except.map, eq_comm]

theorem mapM_text_iff {f : Text → Except Literal.Fault Text} (hf : ActsOnBodies P f)
    (h : ∀ r ∈ rows, r.Fits P) {us : List Text} :
    (rows.map text).mapM f = .ok us ↔
      ∃ rows', List.Forall₂ (Over fun b c => f b = .ok c) rows rows' ∧ us = rows'.map text := by
  rw [mapM_eq_ok_iff, List.forall₂_map_left_iff]
  induction rows generalizing us with
  | nil =>
      rw [List.forall₂_nil_left_iff]
      constructor
      · rintro rfl
        exact ⟨[], .nil, rfl⟩
      · rintro ⟨rows', related, rfl⟩
        rw [List.forall₂_nil_left_iff.mp related]
        rfl
  | cons r rs ih =>
      obtain ⟨hr, rest⟩ := List.forall_mem_cons.mp h
      constructor
      · rintro (_ | ⟨hc, hcs⟩)
        obtain ⟨d, hd, rfl⟩ := (onText_iff hf hr).mp hc
        obtain ⟨rows', related, rfl⟩ := (ih rest).mp hcs
        exact ⟨⟨r.indent, d⟩ :: rows', .cons ⟨rfl, hd⟩ related, rfl⟩
      · rintro ⟨_, _ | ⟨hd, related⟩, rfl⟩
        refine .cons ((onText_iff hf hr).mpr ⟨_, hd.2, ?_⟩) ((ih rest).mpr ⟨_, related, rfl⟩)
        rw [text, hd.1]

/-- A pass over lines succeeds just if it does on every body, and keeps the indentation. -/
theorem mapLines_join_iff {f : Text → Except Literal.Fault Text} (hf : ActsOnBodies P f)
    (noNewline : ∀ b, P b → '\n' ∉ b) (hne : rows ≠ []) (h : ∀ r ∈ rows, r.Fits P) {u : Text} :
    mapLines f (join rows) = .ok u ↔
      ∃ rows', List.Forall₂ (Over fun b c => f b = .ok c) rows rows' ∧ u = join rows' := by
  rw [mapLines, lines_join noNewline hne h, map_eq_ok_iff]
  constructor
  · rintro ⟨us, hus, rfl⟩
    obtain ⟨rows', related, rfl⟩ := (mapM_text_iff hf h).mp hus
    exact ⟨rows', related, rfl⟩
  · rintro ⟨rows', related, rfl⟩
    exact ⟨_, (mapM_text_iff hf h).mpr ⟨rows', related, rfl⟩, rfl⟩

end Row

/-- What a pass does to a line, for the passes that go line by line. -/
def Pass.onLine? (o : FormatOptions) : Pass → Option (Text → Except Literal.Fault Text)
  | .brackets => some (Line.mapCode Bracket.space)
  | .calls => some (Line.mapCode Call.tighten)
  | .operators => some (Line.mapCode Operator.space)
  | .commas => some (Line.mapCode Comma.space)
  | .semicolons => some Semicolon.terminateLine
  | .quotes => some fun l => .ok (Quote.restyle o.quoteStyle l)
  | _ => none

namespace Pass

theorem apply_eq_mapLines {o : FormatOptions} {p : Pass} {f : Text → Except Literal.Fault Text}
    (h : p.onLine? o = some f) (t : Text) : p.apply o t = Line.mapLines f t := by
  cases p with
  | quotes =>
      cases h
      have pure (ls : List Text) :
          ls.mapM (fun l => (.ok (Quote.restyle o.quoteStyle l) : Except Literal.Fault Text)) =
            .ok (ls.map (Quote.restyle o.quoteStyle)) :=
        Line.mapM_eq_ok_iff.mpr (List.forall₂_map_right_iff.mpr (List.forall₂_same.mpr fun _ _ => rfl))
      rw [apply, Line.mapLines, pure, ← Quote.lines_restyle]
      exact congrArg Except.ok (unlines_lines _).symm
  | brackets | calls | operators | commas | semicolons => cases h; rfl
  | _ => cases h

/-- A pass that goes line by line leaves the indentation of a body alone. -/
theorem indented_of_onLine? {o : FormatOptions} {p : Pass} {f : Text → Except Literal.Fault Text}
    (h : p.onLine? o = some f) {indent b : Text} (hi : ∀ c ∈ indent, isBlank c = true)
    (hb : Unindented b) : f (indent ++ b) = (f b).map (indent ++ ·) := by
  cases p with
  | brackets | calls | operators | commas => cases h; exact Line.mapCode_indented hi hb _
  | semicolons => cases h; exact Line.terminateLine_indented hi hb
  | quotes => cases h; exact congrArg Except.ok (Line.restyle_indented hi _)
  | _ => cases h

end Pass

namespace Formatter

theorem runPasses_append (plan : Plan) (ps qs : List Pass) (t u : Text) :
    runPasses plan (ps ++ qs) t = .ok u ↔
      ∃ v, runPasses plan ps t = .ok v ∧ runPasses plan qs v = .ok u := by
  induction ps generalizing t with
  | nil => simp [runPasses]
  | cons p ps ih =>
      rw [List.cons_append, runPasses, runPasses]
      cases plan p with
      | none => exact ih t
      | some f =>
          dsimp only
          cases f t with
          | error fault => simp
          | ok v => exact ih v

theorem runPasses_cons_ok {plan : Plan} {p : Pass} {ps : List Pass} {t u : Text} :
    runPasses plan (p :: ps) t = .ok u ↔
      ∃ v, (match plan p with
        | none => v = t
        | some f => f t = .ok v) ∧ runPasses plan ps v = .ok u := by
  rw [runPasses]
  cases plan p with
  | none => simp
  | some f =>
      dsimp only
      cases f t <;> simp

variable {P : Text → Prop} {plan : Plan} {o : FormatOptions}

/-- The plan runs these passes as the options say, line by line, and they keep what `P` says
of bodies. -/
def RunsByLine (P : Text → Prop) (plan : Plan) (o : FormatOptions) (ps : List Pass) : Prop :=
  ∀ p ∈ ps, plan p = o.plan p ∧ ∃ f, p.onLine? o = some f ∧ Line.ActsOnBodies P f

section OnePass

variable {p : Pass} (ps : List Pass) (hplan : plan p = o.plan p)

include hplan

theorem runPasses_off (hoff : p.enabled o = false) (t : Text) :
    runPasses plan (p :: ps) t = runPasses plan ps t := by
  rw [runPasses, hplan, FormatOptions.plan, hoff]
  rfl

theorem runPasses_on_iff (hon : p.enabled o = true) {t u : Text} :
    runPasses plan (p :: ps) t = .ok u ↔
      ∃ v, PassFault.ofRestored (p.apply o t) = .ok v ∧ runPasses plan ps v = .ok u := by
  rw [runPasses_cons_ok, hplan, FormatOptions.plan, hon]
  rfl

/-- On a text of one line a pass does what it does to that line. -/
theorem runPasses_onLine_iff (hon : p.enabled o = true) {f : Text → Except Literal.Fault Text}
    (hline : p.onLine? o = some f) {b d : Text} (hb : '\n' ∉ b) :
    runPasses plan (p :: ps) b = .ok d ↔ ∃ c, f b = .ok c ∧ runPasses plan ps c = .ok d := by
  rw [runPasses_on_iff ps hplan hon]
  refine exists_congr fun c => and_congr_left fun _ => ?_
  rw [Pass.apply_eq_mapLines hline, Line.mapLines_of_not_newline f hb]
  cases f b <;> simp [PassFault.ofRestored]

end OnePass

theorem keeps_of_run {ps : List Pass} (hps : RunsByLine P plan o ps)
    (noNewline : ∀ b, P b → '\n' ∉ b) {b c : Text} (hb : P b)
    (hc : runPasses plan ps b = .ok c) : P c := by
  induction ps generalizing b with
  | nil =>
      cases hc
      exact hb
  | cons p ps ih =>
      obtain ⟨⟨hplan, f, hline, hf⟩, rest⟩ := List.forall_mem_cons.mp hps
      cases hon : p.enabled o with
      | false =>
          rw [runPasses_off ps hplan hon] at hc
          exact ih rest hb hc
      | true =>
          obtain ⟨d, hd, hc⟩ := (runPasses_onLine_iff ps hplan hon hline (noNewline b hb)).mp hc
          exact ih rest (hf.keeps hb hd) hc

theorem pass_join_iff {p : Pass} {f : Text → Except Literal.Fault Text}
    (hf : Line.ActsOnBodies P f) (hp : p.onLine? o = some f) (noNewline : ∀ b, P b → '\n' ∉ b)
    {rows : List Row} (hne : rows ≠ []) (h : ∀ r ∈ rows, r.Fits P) {v : Text} :
    (PassFault.ofRestored (p.apply o (Row.join rows)) = .ok v) ↔
      ∃ rows', List.Forall₂ (Row.Over fun b c => f b = .ok c) rows rows' ∧ v = Row.join rows' := by
  rw [← Row.mapLines_join_iff hf noNewline hne h, Pass.apply_eq_mapLines hp]
  cases Line.mapLines f (Row.join rows) <;> simp [PassFault.ofRestored]

/-- A run of such passes succeeds just if it does over each body as a text of its own. -/
theorem runPasses_join_iff {ps : List Pass} (hps : RunsByLine P plan o ps)
    (noNewline : ∀ b, P b → '\n' ∉ b) {rows : List Row} (hne : rows ≠ [])
    (h : ∀ r ∈ rows, r.Fits P) {u : Text} :
    runPasses plan ps (Row.join rows) = .ok u ↔
      ∃ rows', List.Forall₂ (Row.Over fun b c => runPasses plan ps b = .ok c) rows rows' ∧
        u = Row.join rows' := by
  induction ps generalizing rows with
  | nil =>
      have stop (t v : Text) : runPasses plan [] t = .ok v ↔ v = t := by
        rw [runPasses, Except.ok.injEq, eq_comm]
      simp only [stop, Row.over_eq_iff, exists_eq_left]
  | cons p ps ih =>
      obtain ⟨⟨hplan, f, hline, hf⟩, rest⟩ := List.forall_mem_cons.mp hps
      cases hon : p.enabled o with
      | false =>
          simp only [runPasses_off ps hplan hon]
          exact ih rest hne h
      | true =>
          have onBody (r : Row) (hr : r ∈ rows) (d : Text) : runPasses plan (p :: ps) r.body = .ok d ↔
              ∃ c, f r.body = .ok c ∧ runPasses plan ps c = .ok d :=
            runPasses_onLine_iff ps hplan hon hline (noNewline _ (h r hr).body)
          have split (rows'' : List Row) :
              List.Forall₂ (Row.Over fun b d => runPasses plan (p :: ps) b = .ok d) rows rows'' ↔
                ∃ rows', List.Forall₂ (Row.Over fun b c => f b = .ok c) rows rows' ∧
                  List.Forall₂ (Row.Over fun c d => runPasses plan ps c = .ok d) rows' rows'' :=
            (Row.over_congr onBody).trans Row.over_comp_iff
          rw [runPasses_on_iff ps hplan hon]
          simp only [pass_join_iff hf hline noNewline hne h, split]
          have nonempty {rows' : List Row}
              (first : List.Forall₂ (Row.Over fun b c => f b = .ok c) rows rows') : rows' ≠ [] := by
            rintro rfl
            exact hne (List.forall₂_nil_right_iff.mp first)
          constructor
          · rintro ⟨_, ⟨rows', first, rfl⟩, hu⟩
            obtain ⟨rows'', second, rfl⟩ :=
              (ih rest (nonempty first) (Row.fits_of_over (fun hb hc => hf.keeps hb hc) h first)).mp hu
            exact ⟨rows'', ⟨rows', first, second⟩, rfl⟩
          · rintro ⟨rows'', ⟨rows', first, second⟩, rfl⟩
            exact ⟨_, ⟨rows', first, rfl⟩,
              (ih rest (nonempty first) (Row.fits_of_over (fun hb hc => hf.keeps hb hc) h first)).mpr ⟨rows'', second, rfl⟩⟩

end Formatter
end MotionExpr
