import Mathlib.Logic.Relation
import MotionExpr.Proofs.Format.Atoms
import MotionExpr.Proofs.Format.SemicolonSites

/-!
Masked code whose gaps have changed, masked again. A gap that is closed joins no slashes and
puts no quote or backslash behind another backslash, and one that is opened parts no backslash
from these, so what was no literal is none afterwards, open quotes among it. The text that is
put together again then falls into the same pieces, with other gaps between them.
-/

namespace MotionExpr

open Text

namespace Literal

/-- Characters that a backslash in front makes no difference to. -/
def isCalm (c : Char) : Bool := !Token.isQuote c && c != '\\' && c != '\n'

/-- Characters that are code wherever they stand. -/
def isPlainCode (c : Char) : Bool := isCalm c && c != '/'

section Closing

variable {quote : Char} (hq : Token.isQuote quote = true)

include hq

theorem verdict_of_isCalm {c : Char} (hc : isCalm c = true) (escaped : Bool) :
    verdict quote true escaped c = .passes false := by
  simp only [isCalm, Bool.and_eq_true, Bool.not_eq_true', bne_iff_ne] at hc
  have notQuote : c ≠ quote := by
    rintro rfl
    rw [hq] at hc
    cases hc.1.1
  cases escaped <;> simp [verdict, hc, notQuote]

/-- Characters in front that a backslash makes no difference to. -/
theorem closing?_calm_append {x : Text} (hx : ∀ c ∈ x, isCalm c = true) {d : Text} {escaped : Bool}
    (settled : escaped = true → x = [] → ∀ c ∈ d.head?, isCalm c = true) :
    closing? quote true escaped (x ++ d) = none ↔ closing? quote true false d = none := by
  induction x generalizing escaped with
  | nil =>
      cases escaped with
      | false => rfl
      | true =>
          cases d with
          | nil => exact iff_of_true rfl rfl
          | cons c r =>
              have hc := settled rfl rfl c rfl
              rw [List.nil_append, closing?_cons, closing?_cons, verdict_of_isCalm hq hc,
                verdict_of_isCalm hq hc]
  | cons c x ih =>
      obtain ⟨hc, rest⟩ := List.forall_mem_cons.mp hx
      rw [List.cons_append, closing?_cons, verdict_of_isCalm hq hc, Option.map_eq_none_iff]
      exact ih rest nofun

/-- Plain text in the middle can be exchanged. -/
theorem closing?_exchange {a x y d : Text} (hx : ∀ c ∈ x, isCalm c = true)
    (hy : ∀ c ∈ y, isCalm c = true) {escaped : Bool}
    (settled : (a = [] → escaped = true) → (∀ c ∈ a.getLast?, c = '\\') →
      (x ≠ [] ∧ y ≠ []) ∨ ∀ c ∈ d.head?, isCalm c = true)
    (h : closing? quote true escaped (a ++ (x ++ d)) = none) :
    closing? quote true escaped (a ++ (y ++ d)) = none := by
  induction a generalizing escaped with
  | nil =>
      have calm {z : Text} (hz : ∀ c ∈ z, isCalm c = true)
          (of : (x ≠ [] ∧ y ≠ []) → z ≠ []) :
          closing? quote true escaped (z ++ d) = none ↔ closing? quote true false d = none := by
        refine closing?_calm_append hq hz fun escaped empty => ?_
        exact (settled (fun _ => escaped) nofun).resolve_left fun both => of both empty
      exact (calm hy And.right).mpr ((calm hx And.left).mp h)
  | cons c a ih =>
      rw [List.cons_append, closing?_cons] at h ⊢
      split at h
      · cases h
      · rfl
      · next escaped' hv =>
          refine Option.map_eq_none_iff.mpr (ih (fun state last => ?_) (Option.map_eq_none_iff.mp h))
          refine settled nofun fun d hd => ?_
          cases a with
          | cons e a => exact last d (by rwa [List.getLast?_cons_cons] at hd)
          | nil =>
              -- the state behind a single character tells which one it was
              obtain rfl : c = d := Option.some.inj hd
              have escapes := state rfl
              simp only [verdict] at hv
              split at hv
              · split at hv <;> cases hv
                cases escapes
              · split at hv
                · cases hv
                · split at hv <;> cases hv
                  exact beq_iff_eq.mp escapes

end Closing

/-! Pieces read again. -/

/-- What begins no literal begins none where plain code behind it is exchanged. -/
theorem length?_exchange {c : Char} {a x y d : Text} (hx : ∀ e ∈ x, isPlainCode e = true)
    (hy : ∀ e ∈ y, isPlainCode e = true)
    (escape : a ≠ [] → (∀ e ∈ a.getLast?, e = '\\') →
      (x ≠ [] ∧ y ≠ []) ∨ ∀ e ∈ d.head?, isCalm e = true)
    (slash : a = [] → c = '/' → x ≠ [] → y = [] → d.head? ≠ some '/')
    (h : length? c (a ++ (x ++ d)) = none) : length? c (a ++ (y ++ d)) = none := by
  have calm {z : Text} (hz : ∀ e ∈ z, isPlainCode e = true) : ∀ e ∈ z, isCalm e = true :=
    fun e he => (Bool.and_eq_true_iff.mp (hz e he)).1
  cases hq : Token.isQuote c with
  | true =>
      have quote : (c = '"' || c = '\'') = true := by
        simpa [Token.isQuote, or_comm] using hq
      have notComment (r : Text) : ¬ "//".toList.isPrefixOf (c :: r) = true := by
        rw [startsComment_iff]
        rintro ⟨rfl, -⟩
        cases hq
      rw [length?, if_neg (notComment _), if_pos quote, Option.map_eq_none_iff] at h ⊢
      refine closing?_exchange hq (calm hx) (calm hy) (fun start => escape ?_) h
      exact fun none => Bool.false_ne_true (start none)
  | false =>
      refine length?_none_of_plain hq (eq_false_of_ne_true fun comment => ?_)
      obtain ⟨rfl, s, hs⟩ := (startsComment_iff c _).mp comment
      have noSlash : (a ++ (x ++ d)).head? ≠ some '/' := by
        intro first
        obtain ⟨r, hr⟩ := List.head?_eq_some_iff.mp first
        rw [length?, if_pos ((startsComment_iff '/' _).mpr ⟨rfl, r, hr⟩)] at h
        cases h
      have slashBehind : (a ++ (y ++ d)).head? = some '/' := by rw [hs]; rfl
      cases a with
      | cons e a => exact noSlash slashBehind
      | nil =>
          cases y with
          | cons e y =>
              obtain rfl : e = '/' := Option.some.inj slashBehind
              exact absurd (hy '/' (List.mem_cons_self ..)) (by decide)
          | nil =>
              cases x with
              | nil => exact noSlash slashBehind
              | cons e x => exact slash rfl rfl (List.cons_ne_nil e x) rfl slashBehind

/-- The pieces are those that their text is read as. -/
def IsRead (ps : List Piece) : Prop := pieces (ps.flatMap Piece.text) = ps

theorem isRead_pieces (t : Text) : IsRead (pieces t) := by
  rw [IsRead, flatMap_text_pieces]

theorem IsRead.right {as bs : List Piece} (h : IsRead (as ++ bs)) : IsRead bs := by
  rw [IsRead, List.flatMap_append] at h
  exact (pieces_of_append h rfl).2

theorem isRead_code_cons {c : Char} {ps : List Piece} :
    IsRead (.code c :: ps) ↔ length? c (ps.flatMap Piece.text) = none ∧ IsRead ps := by
  rw [IsRead, List.flatMap_cons, Piece.text, List.singleton_append, pieces_cons]
  cases length? c (ps.flatMap Piece.text) <;> simp [IsRead]

theorem isRead_code_append {x : Text} (hx : ∀ c ∈ x, isPlainCode c = true) {bs : List Piece} :
    IsRead (x.map Piece.code ++ bs) ↔ IsRead bs := by
  have plain : ∀ c ∈ x, Token.isQuote c = false ∧ c ≠ '/' := by
    intro c hc
    have here := hx c hc
    simp only [isPlainCode, isCalm, Bool.and_eq_true, Bool.not_eq_true', bne_iff_ne] at here
    exact ⟨here.1.1.1, here.2⟩
  rw [IsRead, IsRead, List.flatMap_append, flatMap_text_map_code, pieces_plain_append plain,
    List.append_cancel_left_eq]

/-- Text that ends in a backslash ends in code, or in a comment. -/
theorem IsRead.of_backslash {as bs : List Piece} (h : IsRead (as ++ bs))
    (onLine : '\n' ∉ (as ++ bs).flatMap Piece.text) (some : as.flatMap Piece.text ≠ [])
    (last : ∀ c ∈ (as.flatMap Piece.text).getLast?, c = '\\') :
    as.getLast? = .some (.code '\\') ∨ bs = [] ∧ ∃ t, as.getLast? = .some (.literal t) := by
  obtain ⟨front, p, rfl⟩ := (List.eq_nil_or_concat as).resolve_left fun none => some (by rw [none]; rfl)
  rw [List.concat_eq_append] at h onLine last ⊢
  rw [List.flatMap_append, List.flatMap_singleton] at last
  rw [List.getLast?_concat]
  cases p with
  | code c =>
      rw [Piece.text, List.getLast?_concat] at last
      exact .inl (by rw [last c rfl])
  | literal t =>
      refine .inr ⟨?_, t, rfl⟩
      rw [List.append_assoc] at h onLine
      have cut : pieces _ = front ++ .literal t :: bs := h
      obtain ⟨alone, comment⟩ := of_pieces_append_literal onLine cut
      by_contra more
      obtain ⟨x, q, rfl, hq⟩ := concat_of_pieces_eq_literal alone
        (eq_false_of_ne_true fun hc => more (comment hc))
      rw [Piece.text, ← List.append_assoc, List.getLast?_concat] at last
      rw [last q rfl] at hq
      cases hq

theorem IsRead.text_ne_nil {p : Piece} {ps : List Piece} (h : IsRead (p :: ps)) : p.text ≠ [] := by
  obtain ⟨c, -, -, -, rfl, -⟩ | ⟨c, s, -, -, -, rfl, -⟩ := of_pieces_eq_cons h
  · exact List.cons_ne_nil c []
  · exact List.cons_ne_nil c s

/-- Plain code between pieces can be exchanged. A backslash in front wants to be followed as it
was, and so do a slash and a comment. -/
theorem IsRead.exchange {as bs : List Piece} {x y : Text} (hx : ∀ c ∈ x, isPlainCode c = true)
    (hy : ∀ c ∈ y, isPlainCode c = true)
    (escape : as.getLast? = some (.code '\\') →
      (x ≠ [] ∧ y ≠ []) ∨ ∀ c ∈ (bs.flatMap Piece.text).head?, isCalm c = true)
    (slash : as.getLast? = some (.code '/') → x ≠ [] → y = [] →
      (bs.flatMap Piece.text).head? ≠ some '/')
    (comment : ∀ t, as.getLast? = some (.literal t) → "//".toList.isPrefixOf t = true → bs = [] →
      x = [] → y = [])
    (onLine : '\n' ∉ (as ++ (x.map Piece.code ++ bs)).flatMap Piece.text)
    (h : IsRead (as ++ (x.map Piece.code ++ bs))) : IsRead (as ++ (y.map Piece.code ++ bs)) := by
  induction as with
  | nil => exact (isRead_code_append hy).mpr ((isRead_code_append hx).mp h)
  | cons p as ih =>
      have rest : IsRead (as ++ (x.map Piece.code ++ bs)) := @IsRead.right [p] _ h
      have onRest : '\n' ∉ (as ++ (x.map Piece.code ++ bs)).flatMap Piece.text :=
        fun hm => onLine (List.mem_append_right p.text hm)
      have last {q : Piece} (hq : as.getLast? = some q) : (p :: as).getLast? = some q := by
        rw [List.getLast?_cons, hq]
        rfl
      have behind := ih (fun hq => escape (last hq)) (fun hq => slash (last hq))
        (fun t ht => comment t (last ht)) onRest rest
      have texts (z : Text) : (as ++ (z.map Piece.code ++ bs)).flatMap Piece.text =
          as.flatMap Piece.text ++ (z ++ bs.flatMap Piece.text) := by
        rw [List.flatMap_append, List.flatMap_append, flatMap_text_map_code]
      rw [List.cons_append] at h onLine ⊢
      cases p with
      | code c =>
          have none := (isRead_code_cons.mp h).1
          rw [texts] at none
          have noneBehind := length?_exchange hx hy (fun some ends => ?_) (fun start hc => ?_) none
          · rw [← texts] at noneBehind
            exact isRead_code_cons.mpr ⟨noneBehind, behind⟩
          · rcases rest.of_backslash onRest some ends with code | ⟨empty, -⟩
            · exact escape (last code)
            · rw [(List.append_eq_nil_iff.mp empty).2]
              exact .inr nofun
          · cases as with
            | nil => exact slash (by rw [hc]; rfl)
            | cons q as => exact absurd (List.append_eq_nil_iff.mp start).1 rest.text_ne_nil
      | literal t =>
          have cut : pieces _ = [] ++ .literal t :: (as ++ (x.map Piece.code ++ bs)) := h
          obtain ⟨alone, ends⟩ := of_pieces_append_literal onLine cut
          rw [IsRead, List.flatMap_cons, Piece.text,
            Atom.pieces_literal_append alone, behind]
          intro hc
          obtain ⟨rfl, more⟩ := List.append_eq_nil_iff.mp (ends hc)
          obtain ⟨empty, rfl⟩ := List.append_eq_nil_iff.mp more
          rw [comment t rfl hc rfl (List.map_eq_nil_iff.mp empty)]
          rfl

/-! Changes of gaps. -/

/-- Characters in front of which any gap may be closed. -/
def isJoined (c : Char) : Bool := c == '+' || c == '-' || c == ','

/-- One gap is changed. Behind a backslash it is closed or opened in front of calm code only, no
slashes are joined, and nothing comes behind a literal that ends the line. -/
inductive Regap : List Piece → List Piece → Prop where
  | intro {as bs : List Piece} {g h : Text} : (∀ c ∈ g, isSpaceOrTab c = true) →
      (∀ c ∈ h, isSpaceOrTab c = true) →
      (g ≠ [] → h = [] → ∀ c, as.getLast? = some (.code c) → c = '\\' ∨ c = '/' →
        ∀ p ∈ bs.head?, ∃ d, p = .code d ∧ isJoined d = true) →
      (g = [] → h ≠ [] → as.getLast? = some (.code '\\') →
        ∀ p ∈ bs.head?, ∃ d, p = .code d ∧ isCalm d = true) →
      (g = [] → h ≠ [] → bs = [] → ∃ c, as.getLast? = some (.code c)) →
      Regap (as ++ (g.map Piece.code ++ bs)) (as ++ (h.map Piece.code ++ bs))

/-- What changing gaps keeps: the pieces are those of one line, and the same but for blanks. -/
structure Agrees (ps qs : List Piece) : Prop where
  read : IsRead qs
  onLine : '\n' ∉ qs.flatMap Piece.text
  same : solid qs = solid ps

theorem isPlainCode_of_isSpaceOrTab {c : Char} (h : isSpaceOrTab c = true) : isPlainCode c = true := by
  simp only [isSpaceOrTab, Bool.or_eq_true, beq_iff_eq] at h
  rcases h with rfl | rfl <;> rfl

theorem Regap.agrees {ps qs : List Piece} (h : Regap ps qs) (read : IsRead ps)
    (onLine : '\n' ∉ ps.flatMap Piece.text) : Agrees ps qs := by
  obtain ⟨hg, hh, closed, opened, ended⟩ := h
  next as bs g h =>
  have first {p : Char → Bool} (hp : ∀ q ∈ bs.head?, ∃ d, q = .code d ∧ p d = true) :
      ∀ c ∈ (bs.flatMap Piece.text).head?, p c = true := by
    intro c hc
    cases bs with
    | nil => cases hc
    | cons q bs =>
        obtain ⟨d, rfl, hd⟩ := hp q rfl
        rwa [← Option.some.inj hc]
  have blank {x : Text} (hx : ∀ c ∈ x, isSpaceOrTab c = true) : solid (x.map Piece.code) = [] := by
    rw [solid_map_code, Text.filter_eq_nil_of_all Text.isInk_of_isSpaceOrTab hx]
    rfl
  refine ⟨?_, fun hm => ?_, ?_⟩
  · by_cases empty : g = [] ∧ h = []
    · rwa [empty.1, ← empty.2] at read
    · refine read.exchange (fun c hc => isPlainCode_of_isSpaceOrTab (hg c hc))
        (fun c hc => isPlainCode_of_isSpaceOrTab (hh c hc)) (fun last => ?_) (fun last some none => ?_)
        (fun t last _ hbs none => ?_) onLine
      · by_cases hgap : g = []
        · exact .inr (first (opened hgap (fun none => empty ⟨hgap, none⟩) last))
        · by_cases hgap' : h = []
          · refine .inr fun c hc => ?_
            have joined := first (closed hgap hgap' _ last (.inl rfl)) c hc
            simp only [isJoined, Bool.or_eq_true, beq_iff_eq] at joined
            rcases joined with (rfl | rfl) | rfl <;> rfl
          · exact .inl ⟨hgap, hgap'⟩
      · exact fun slash => absurd (first (closed some none _ last (.inr rfl)) '/' slash) (by decide)
      · by_contra some
        obtain ⟨c, hc⟩ := ended none some hbs
        rw [last] at hc
        cases hc
  · simp only [List.flatMap_append, flatMap_text_map_code, List.mem_append, not_or] at hm onLine
    rcases hm with hm | hm | hm
    · exact onLine.1 hm
    · exact absurd (hh _ hm) (by decide)
    · exact onLine.2.2 hm
  · simp only [solid_append, blank hg, blank hh]

/-- Changes of gaps one behind the other. -/
abbrev Regapped (ps qs : List Piece) : Prop := Relation.ReflTransGen Regap ps qs

theorem Regapped.agrees {ps qs : List Piece} (h : Regapped ps qs) (read : IsRead ps)
    (onLine : '\n' ∉ ps.flatMap Piece.text) : Agrees ps qs := by
  induction h with
  | refl => exact ⟨read, onLine, rfl⟩
  | tail _ step ih =>
      have next := step.agrees ih.read ih.onLine
      exact ⟨next.read, next.onLine, next.same.trans ih.same⟩

/-- Where there are no pieces there is no gap. -/
theorem Regapped.eq_nil {qs : List Piece} (h : Regapped [] qs) : qs = [] := by
  induction h with
  | refl => rfl
  | tail _ step ih =>
      subst ih
      generalize hp : ([] : List Piece) = ps at step
      obtain ⟨-, -, -, -, ended⟩ := step
      next as bs g h =>
      obtain ⟨rfl, more⟩ := List.append_eq_nil_iff.mp hp.symm
      obtain ⟨empty, rfl⟩ := List.append_eq_nil_iff.mp more
      obtain rfl := List.map_eq_nil_iff.mp empty
      by_contra some
      obtain ⟨c, hc⟩ := ended rfl (fun none => some (by rw [none])) rfl
      cases hc

/-- The transform changes no more than gaps of masked code. -/
def Regaps (f : Text → Text) : Prop :=
  ∀ n ps, ∃ qs, f (numbered n ps) = numbered n qs ∧ Regapped ps qs

theorem Regaps.comp {f g : Text → Text} (hf : Regaps f) (hg : Regaps g) :
    Regaps fun t => f (g t) := by
  intro n ps
  obtain ⟨qs, hq, first⟩ := hg n ps
  obtain ⟨rs, hr, second⟩ := hf n qs
  exact ⟨rs, (congrArg f hq).trans hr, first.trans second⟩

theorem regaps_dropWhile : Regaps fun t => t.dropWhile isSpaceOrTab := by
  intro n ps
  have whole := (List.takeWhile_append_dropWhile (p := isSpaceOrTab) (l := numbered n ps)).symm
  obtain ⟨qs, hps, hq⟩ := of_numbered_eq_append whole (Text.not_mem_takeWhile (by decide) _)
  have step := @Regap.intro [] qs _ [] (Operator.isSpaceOrTab_of_mem_takeWhile (t := numbered n ps))
    (List.forall_mem_nil _) (fun _ _ _ hc => nomatch hc) (fun _ some => absurd rfl some)
    fun _ some => absurd rfl some
  rw [List.nil_append, ← hps] at step
  exact ⟨qs, hq, .single step⟩

theorem regaps_dropEndWhile : Regaps (Text.dropEndWhile isSpaceOrTab) := by
  intro n ps
  have blank : ∀ c ∈ Text.takeEndWhile isSpaceOrTab (numbered n ps), isSpaceOrTab c = true :=
    fun c hc => Text.mem_takeEndWhile hc
  obtain ⟨qs, hps, hq⟩ := of_append_eq_numbered (Text.dropEndWhile_append_takeEndWhile ..)
    fun hm => absurd (blank mark hm) (by decide)
  have step := @Regap.intro qs [] _ [] blank (List.forall_mem_nil _) (fun _ _ _ _ _ => nofun)
    (fun _ some => absurd rfl some) fun _ some => absurd rfl some
  rw [List.append_nil, ← hps, List.map_nil, List.nil_append, List.append_nil] at step
  exact ⟨qs, hq, .single step⟩

theorem regaps_tidy (body : Text) {f : Text → Text} (hf : Regaps f) :
    Regaps fun t => Line.tidy body (f t) := by
  have start := regaps_dropWhile.comp hf
  simp only [Line.tidy]
  split
  · exact start
  · exact regaps_dropEndWhile.comp start

end Literal

/-! The passes. -/

/-- A rule that changes gaps of code makes a transform that does. -/
theorem Text.Rule.Finds.regaps {rule : Rule} {Found : (passed found rest text : Text) → Prop}
    (finds : rule.Finds Found)
    (respaced : ∀ passed found rest text, Found passed found rest text →
      Literal.Respaced found text)
    (h : ∀ passed found rest text, Found passed found rest text → ∀ as bs : List Literal.Piece,
      Literal.Regapped (as ++ (found.map .code ++ bs)) (as ++ (text.map .code ++ bs))) :
    Literal.Regaps (substitute rule) := by
  intro n ps
  suffices related : ∃ qs, substitute rule (Literal.numbered n ps) = Literal.numbered n qs ∧
      ∀ as, Literal.Regapped (as ++ ps) (as ++ qs) by
    obtain ⟨qs, hq, steps⟩ := related
    exact ⟨qs, hq, steps []⟩
  refine finds.relates respaced (R := fun ps qs => ∀ as, Literal.Regapped (as ++ ps) (as ++ qs))
    (fun as => .refl) (fun p ps qs steps as => ?_)
    (fun passed found rest text ps qs described steps as => ?_) n ps []
  · have rest := steps (as ++ [p])
    rwa [List.append_assoc, List.append_assoc] at rest
  · have behind := steps (as ++ text.map .code)
    rw [List.append_assoc, List.append_assoc] at behind
    exact (h passed found rest text described as ps).trans behind

open Literal

theorem Bracket.isCalm_of_isClosing {c : Char} (h : isClosing c = true) : isCalm c = true := by
  simp only [isClosing, Bool.or_eq_true, beq_iff_eq] at h
  rcases h with rfl | rfl <;> rfl

theorem Bracket.regaps_space : Regaps space := by
  intro n ps
  suffices related : ∃ qs, space (numbered n ps) = numbered n qs ∧
      ∀ as, Regapped (as ++ ps) (as ++ qs) by
    obtain ⟨qs, hq, steps⟩ := related
    exact ⟨qs, hq, steps []⟩
  refine spaceFrom_relates (R := fun ps qs => ∀ as, Regapped (as ++ ps) (as ++ qs))
    (fun as => .refl) (fun t ps qs steps as => ?_)
    (fun c front back ps qs hfront hback steps as => ?_) n ps [] []
  · have rest := steps (as ++ [.literal t])
    rwa [List.append_assoc, List.append_assoc] at rest
  · have blank {p : Char → Bool} {x : Text} (h : x = [] ∨ x = [' '] ∧ p c = true) :
        ∀ d ∈ x, isSpaceOrTab d = true :=
      Operator.isSpaceOrTab_of_atMostOne (h.imp_right And.left)
    have before : Regap (as ++ .code c :: ps) (as ++ (front.map .code ++ .code c :: ps)) := by
      refine @Regap.intro as (.code c :: ps) [] front (List.forall_mem_nil _) (blank hfront)
        (fun some => absurd rfl some) (fun _ some _ => ?_) fun _ _ => nofun
      rintro p ⟨⟩
      exact ⟨c, rfl, isCalm_of_isClosing (hfront.resolve_left some).2⟩
    have last : (as ++ (front.map Piece.code ++ [Piece.code c])).getLast? = some (Piece.code c) := by
      rw [← List.append_assoc, List.getLast?_concat]
    have behind := @Regap.intro (as ++ (front.map .code ++ [.code c])) ps [] back
      (List.forall_mem_nil _) (blank hback) (fun some => absurd rfl some) (fun _ some backslash => ?_)
      fun _ _ _ => ⟨c, last⟩
    · have rest := steps (as ++ ((front ++ c :: back).map .code))
      refine (Relation.ReflTransGen.single before).trans (.head (b := ?_) ?_ ?_)
      · exact as ++ ((front ++ c :: back).map .code ++ ps)
      · simpa using behind
      · simpa using rest
    · rw [last] at backslash
      cases backslash
      exact absurd (hback.resolve_left some).2 (by decide)

theorem Call.regaps_tighten : Regaps tighten := by
  refine finds_join.regaps (fun _ _ _ _ => Joined.respaced) ?_
  rintro passed found rest text ⟨some, hname, hgap, hkept⟩ as bs
  next name gap kept =>
  have keptBlank : ∀ c ∈ kept, isSpaceOrTab c = true := by
    rcases hkept with rfl | rfl
    · exact List.forall_mem_nil _
    · exact hgap
  have last (c : Char) (h : (as ++ name.map Piece.code).getLast? = .some (.code c)) :
      continuesName c = true := by
    rw [List.getLast?_append_of_ne_nil _ (by simpa using some), List.getLast?_map] at h
    obtain ⟨d, hd, hdc⟩ := Option.map_eq_some_iff.mp h
    exact Piece.code.inj hdc ▸ hname d (List.mem_of_getLast? hd)
  have step := @Regap.intro (as ++ name.map .code) (['('].map .code ++ bs) gap kept hgap keptBlank
    (fun _ _ c hc special => ?_) (fun _ _ backslash => ?_) fun _ _ => nofun
  · simpa using Relation.ReflTransGen.single step
  · have here := last c hc
    rcases special with rfl | rfl <;> cases here
  · cases last _ backslash

theorem Comma.regaps_space : Regaps space := by
  refine finds_respace.regaps (fun _ _ _ _ => Placed.respaced) ?_
  rintro passed found rest text ⟨hgap, hbehind⟩ as bs
  next gap behind =>
  have before := @Regap.intro as (.code ',' :: (behind.map .code ++ bs)) gap [] hgap
    (List.forall_mem_nil _) (fun _ _ _ _ _ => ?_) (fun _ some => absurd rfl some) fun _ _ => nofun
  · have after := @Regap.intro (as ++ [.code ',']) bs behind [' '] hbehind
      (List.forall_mem_singleton.mpr rfl) (fun _ => nofun) (fun _ _ backslash => ?_)
      fun _ _ _ => ⟨',', List.getLast?_concat⟩
    · refine .head (b := as ++ (.code ',' :: (behind.map .code ++ bs))) ?_ (.single ?_)
      · simpa using before
      · simpa using after
    · rw [List.getLast?_concat] at backslash
      cases backslash
  · rintro p ⟨⟩
    exact ⟨',', rfl, rfl⟩

namespace Operator

/-- Where an operator begins and ends it bears no backslash. -/
theorem ends_of_mem_all {op : Text} (h : op ∈ all) :
    (∃ c r, op = c :: r ∧ isCalm c = true ∧ (isSign op = true ∨ isUpdate op = true → isJoined c = true)) ∧
      ∃ r c, op = r ++ [c] ∧ c ≠ '\\' ∧ (isSign op = true ∨ isUpdate op = true → c ≠ '/') := by
  have checked : all.all (fun op => op.head?.any (fun c => isCalm c &&
      (!(isSign op || isUpdate op) || isJoined c)) && op.getLast?.any fun c => c != '\\' &&
      (!(isSign op || isUpdate op) || c != '/')) = true := by decide
  have here := List.all_eq_true.mp checked op h
  rw [Bool.and_eq_true, Option.any_eq_true, Option.any_eq_true] at here
  obtain ⟨⟨c, hc, first⟩, d, hd, last⟩ := here
  obtain ⟨r, rfl⟩ := List.head?_eq_some_iff.mp hc
  obtain ⟨s, hs⟩ := List.getLast?_eq_some_iff.mp hd
  simp only [Bool.and_eq_true, Bool.or_eq_true, Bool.not_eq_true', bne_iff_ne,
    Bool.or_eq_false_iff] at first last
  refine ⟨⟨c, r, rfl, first.1, fun kind => first.2.resolve_left fun none => ?_⟩,
    s, d, hs, last.1, fun kind => last.2.resolve_left fun none => ?_⟩
  · simp [none] at kind
  · simp [none] at kind

theorem regaps_respace : Regaps (substitute respace) := by
  refine finds_respace.regaps (fun _ _ _ _ => Placed.respaced) ?_
  intro passed found rest text h as bs
  cases h with
  | @intro gap op behind _ bare hgap hbehind hop _ =>
      obtain ⟨front, back, heq, hfront, hback, outside⟩ := placed_eq_append passed op bare
      obtain ⟨⟨c, r, first, calm, joined⟩, s, d, last, notBackslash, notSlash⟩ :=
        ends_of_mem_all (of_operator? hop).1
      have bare {x : Text} (none : x = []) (inside : x = front ∨ x = back) :
          isSign op = true ∨ isUpdate op = true := by
        rcases outside with sign | update | both
        · exact .inl sign.1
        · exact .inr update
        · rcases inside with rfl | rfl <;> simp_all
      have before := @Regap.intro as (op.map .code ++ (behind.map .code ++ bs)) gap front hgap
        (isSpaceOrTab_of_atMostOne hfront) (fun _ none _ _ _ => ?_) (fun _ _ _ => ?_) fun _ _ => ?_
      · have ends : (as ++ (front.map Piece.code ++ op.map Piece.code)).getLast? = some (Piece.code d) := by
          rw [last, List.map_append, ← List.append_assoc, ← List.append_assoc]
          exact List.getLast?_concat
        have after := @Regap.intro (as ++ (front.map .code ++ op.map .code)) bs behind back hbehind
          (isSpaceOrTab_of_atMostOne hback) (fun _ none e he special => ?_) (fun _ _ backslash => ?_)
          fun _ _ _ => ⟨d, ends⟩
        · rw [heq]
          refine .head (b := as ++ (front.map .code ++ (op.map .code ++ (behind.map .code ++ bs)))) ?_
            (.single ?_)
          · simpa using before
          · simpa using after
        · obtain rfl : d = e := Piece.code.inj (Option.some.inj (ends.symm.trans he))
          exact absurd special (not_or.mpr ⟨notBackslash, notSlash (bare none (.inr rfl))⟩)
        · exact absurd (Piece.code.inj (Option.some.inj (ends.symm.trans backslash))) notBackslash
      · rw [first]
        rintro p ⟨⟩
        exact ⟨c, rfl, joined (bare none (.inl rfl))⟩
      · rw [first]
        rintro p ⟨⟩
        exact ⟨c, rfl, calm⟩
      · rw [first]
        exact nofun

theorem regaps_squeeze : Regaps (substitute squeeze) := by
  refine finds_squeeze.regaps (fun _ _ _ _ => Squeezed.respaced) ?_
  rintro passed run rest _ ⟨some, spaces⟩ as bs
  exact .single (.intro (fun c hc => spaces c hc ▸ rfl) (List.forall_mem_singleton.mpr rfl)
    (fun _ => nofun) (fun none => absurd none some) fun none => absurd none some)

theorem regaps_negation : Regaps (substitute negation) := by
  refine finds_negation.regaps (fun _ _ _ _ => Tightened.respaced) ?_
  rintro passed _ rest _ ⟨some, blank, -⟩ as bs
  next gap =>
  have step := @Regap.intro (as ++ [.code '!']) bs gap [] blank (List.forall_mem_nil _)
    (fun _ _ c hc special => ?_) (fun _ some => absurd rfl some) fun none => absurd none some
  · simpa using Relation.ReflTransGen.single step
  · obtain rfl : '!' = c := by
      rw [List.getLast?_concat] at hc
      exact Piece.code.inj (Option.some.inj hc)
    exact absurd special (by decide)

theorem regaps_space : Regaps space :=
  regaps_negation.comp (regaps_squeeze.comp regaps_respace)

end Operator

/-- Blanks in front are masked as they are. -/
theorem Literal.mask_indented {indent : Text} (h : ∀ c ∈ indent, isBlank c = true) (body : Text) :
    (Literal.mask (indent ++ body)).1 = indent ++ (Literal.mask body).1 := by
  rw [Literal.mask, Literal.pieces_blanks_append h, Literal.numbered_map_code_append]
  rfl

namespace Line

open Literal

theorem isBlank_of_mem_indent {line : Text} : ∀ c ∈ (splitIndent line).1, isBlank c = true :=
  List.all_eq_true.mp List.all_takeWhile

/-- A transform of masked code puts the pieces of a body together again with other gaps. -/
theorem exists_regapped {f : Text → Text} (hf : Regaps f) {line : Text} (clean : mark ∉ line)
    (onLine : '\n' ∉ line) :
    ∃ qs, mapCode f line = .ok ((splitIndent line).1 ++ qs.flatMap Piece.text) ∧
      Regapped (pieces (splitIndent line).2) qs ∧ Agrees (pieces (splitIndent line).2) qs ∧
      tidy (splitIndent line).2 (f (mask (splitIndent line).2).1) = numbered 0 qs := by
  have parts := splitIndent_append line
  revert parts
  rcases hs : splitIndent line with ⟨indent, body⟩
  intro parts
  have inBody {c : Char} (hc : c ∈ body) : c ∈ line := parts ▸ List.mem_append_right indent hc
  obtain ⟨qs, hq, steps⟩ := regaps_tidy body hf 0 (pieces body)
  have agrees := steps.agrees (isRead_pieces body) <| by
    rw [flatMap_text_pieces]
    exact fun hm => onLine (inBody hm)
  have code : tidy body (f (mask body).1) = numbered 0 qs := hq
  refine ⟨qs, ?_, steps, agrees, code⟩
  simp only [mapCode, hs]
  split
  · next empty =>
      obtain rfl := List.isEmpty_iff.mp empty
      rw [Regapped.eq_nil steps, ← parts]
      rfl
  · have sameLiterals : literals (pieces body) = literals qs := by
      rw [← literals_solid, ← agrees.same, literals_solid]
    have restored := restore_numbered
      (unmarked_of_solid_eq agrees.same (unmarked_pieces fun hm => clean (inBody hm)))
    rw [code, mask, sameLiterals, restored]
    rfl

/-- Masked again, the code of a line is what the transform made of it. -/
theorem mask_mapCode {f : Text → Text} (hf : Regaps f) {line : Text} (clean : mark ∉ line)
    (onLine : '\n' ∉ line) :
    ∃ e, mapCode f line = .ok e ∧ mark ∉ e ∧ '\n' ∉ e ∧
      (mask e).1 = (splitIndent line).1 ++
        tidy (splitIndent line).2 (f (mask (splitIndent line).2).1) := by
  obtain ⟨qs, he, -, ⟨read, onLine', same⟩, code⟩ := exists_regapped hf clean onLine
  have parts := splitIndent_append line
  have blank := @isBlank_of_mem_indent line
  have inBody {c : Char} (hc : c ∈ (splitIndent line).2) : c ∈ line :=
    parts ▸ List.mem_append_right _ hc
  have inIndent {c : Char} (hc : c ∈ (splitIndent line).1) : c ∈ line :=
    parts ▸ List.mem_append_left _ hc
  have unmarked : mark ∉ qs.flatMap Piece.text := by
    intro hm
    have kept : mark ∈ (qs.flatMap Piece.text).filter isInk := List.mem_filter.mpr ⟨hm, by decide⟩
    rw [filter_isInk_flatMap_text, same, ← filter_isInk_flatMap_text, flatMap_text_pieces] at kept
    exact clean (inBody (List.mem_of_mem_filter kept))
  refine ⟨_, he, ?_, ?_, ?_⟩
  · exact List.not_mem_append (fun hm => clean (inIndent hm)) unmarked
  · exact List.not_mem_append (fun hm => onLine (inIndent hm)) onLine'
  · rw [mask_indented blank, mask, read, ← code]

end Line
end MotionExpr
