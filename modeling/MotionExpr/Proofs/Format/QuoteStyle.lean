import Mathlib.Data.List.Find
import MotionExpr.Proofs.Format.Conservation
import MotionExpr.Proofs.Token.Strings

/-!
When one quote style for all strings leaves the tokens as they are. The change
looks for runs between quotes, not for strings: it keeps the tokens just if no
string gets a bare quote inside and no run begins within a string of the right
style or within a comment.
-/

namespace MotionExpr

open Text Literal

/-! Scanning does not tell the quotes apart, but for those that begin a token. -/

namespace Token

theorem isQuote_of_plainQuote_eq {c d : Char} (h : plainQuote c = plainQuote d) :
    c = d ∨ isQuote c = true ∧ isQuote d = true := by
  simp only [plainQuote] at h
  split at h
  · next hc =>
      split at h
      · next hd => exact .inl (hc.trans hd.symm)
      · exact .inr ⟨by simp [isQuote, hc], by simp [isQuote, ← h]⟩
  · split at h
    · next hd => exact .inr ⟨by simp [isQuote, h], by simp [isQuote, hd]⟩
    · exact .inl h

theorem takeWhile_eq_of_map_plainQuote {q : Char → Bool}
    (hq : ∀ c, isQuote c = true → q c = false) {a b : Text}
    (h : a.map plainQuote = b.map plainQuote) : a.takeWhile q = b.takeWhile q := by
  induction a generalizing b with
  | nil =>
      obtain rfl := List.map_eq_nil_iff.mp h.symm
      rfl
  | cons c r ih =>
      cases b with
      | nil => cases h
      | cons d s =>
          obtain ⟨hcd, hrs⟩ := List.cons_eq_cons.mp h
          rcases isQuote_of_plainQuote_eq hcd with rfl | ⟨hc, hd⟩
          · rw [List.takeWhile_cons, List.takeWhile_cons, ih hrs]
          · rw [List.takeWhile_cons_of_neg (by simp [hq c hc]),
              List.takeWhile_cons_of_neg (by simp [hq d hd])]

theorem isPrefixOf_eq_of_map_plainQuote {op : Text} (hop : ∀ c ∈ op, isQuote c = false) {a b : Text}
    (h : a.map plainQuote = b.map plainQuote) : op.isPrefixOf a = op.isPrefixOf b := by
  induction op generalizing a b with
  | nil => rfl
  | cons e op ih =>
      cases a with
      | nil =>
          obtain rfl := List.map_eq_nil_iff.mp h.symm
          rfl
      | cons c r =>
          cases b with
          | nil => cases h
          | cons d s =>
              obtain ⟨hcd, hrs⟩ := List.cons_eq_cons.mp h
              have he := hop e (List.mem_cons_self ..)
              have rest := ih (fun c hc => hop c (List.mem_cons_of_mem _ hc)) hrs
              rcases isQuote_of_plainQuote_eq hcd with rfl | ⟨hc, hd⟩
              · simp only [List.isPrefixOf, rest]
              · have other {x : Char} (hx : isQuote x = true) : (e == x) = false := by
                  rw [beq_eq_false_iff_ne]
                  rintro rfl
                  rw [hx] at he
                  cases he
                simp only [List.isPrefixOf, other hc, other hd, Bool.false_and]

theorem not_isQuote_of_mem_pairOperators :
    ∀ op ∈ Language.pairOperators, ∀ c ∈ op, isQuote c = false := by
  have checked : (Language.pairOperators.all fun op => op.all fun c => !isQuote c) = true := by
    decide
  intro op hop c hc
  have here := List.all_eq_true.mp (List.all_eq_true.mp checked op hop) c hc
  simpa using here

theorem continuesNumber_of_isQuote (c : Char) (h : isQuote c = true) :
    continuesNumber c = false := by
  simp only [isQuote, Bool.or_eq_true, beq_iff_eq] at h
  rcases h with rfl | rfl <;> rfl

theorem continuesWord_of_isQuote (c : Char) (h : isQuote c = true) : continuesWord c = false := by
  simp only [isQuote, Bool.or_eq_true, beq_iff_eq] at h
  rcases h with rfl | rfl <;> rfl

theorem startsComment_eq_of_map_plainQuote {a b : Text} (h : a.map plainQuote = b.map plainQuote) :
    startsComment a = startsComment b := by
  apply isPrefixOf_eq_of_map_plainQuote _ h
  have slashes : "//".toList = ['/', '/'] := rfl
  rw [slashes, List.forall_mem_cons, List.forall_mem_singleton]
  exact ⟨rfl, rfl⟩

theorem lexeme?_eq_of_map_plainQuote {p : Profile} {c : Char} (hc : isQuote c = false) {r s : Text}
    (h : r.map plainQuote = s.map plainQuote) (notComment : startsComment (c :: r) = false) :
    lexeme? p c s = lexeme? p c r := by
  have whole : (c :: r).map plainQuote = (c :: s).map plainQuote := congrArg (plainQuote c :: ·) h
  have comment := startsComment_eq_of_map_plainQuote whole
  have operators : pairOperator? (c :: s) = pairOperator? (c :: r) := List.find?_congr fun op hop =>
    (isPrefixOf_eq_of_map_plainQuote (not_isQuote_of_mem_pairOperators op hop) whole).symm
  cases found : lexeme? p c r with
  | none => exact lexeme?_eq_none_iff.mpr (lexeme?_eq_none_iff.mp found)
  | some token =>
      obtain ⟨kind, text⟩ := token
      rw [lexeme?_eq_some_iff] at found ⊢
      cases found with
      | comment hcomment => exact absurd hcomment (by rw [notComment]; decide)
      | string hquote => exact absurd hquote (by rw [hc]; decide)
      | number hdigit =>
          rw [takeWhile_eq_of_map_plainQuote continuesNumber_of_isQuote h]
          exact .number hdigit
      | word hword =>
          rw [takeWhile_eq_of_map_plainQuote continuesWord_of_isQuote h]
          exact .word hword
      | operator hsymbol _ hop =>
          exact .operator hsymbol (comment.symm.trans notComment) (operators.trans hop)
      | punctuation hsymbol _ hop =>
          exact .punctuation hsymbol (comment.symm.trans notComment) (operators.trans hop)

end Token
namespace Text

theorem substituteFrom_of_blind {rule : Rule}
    (h : ∀ passed passed' ahead, rule passed ahead = rule passed' ahead) (passed passed' t : Text) :
    substituteFrom rule passed 0 t = substituteFrom rule passed' 0 t := by
  induction hk : t.length using Nat.strongRecOn generalizing passed passed' t with
  | ind k ih =>
  cases t with
  | nil => rfl
  | cons c r =>
      cases hm : rule passed (c :: r) with
      | none =>
          rw [substituteFrom_of_none hm, substituteFrom_of_none (h passed' passed _ ▸ hm),
            ih r.length (by simp [← hk]) (c :: passed) (c :: passed') r rfl]
      | some m =>
          have shorter : (r.drop (m.consumed - 1)).length < k := by
            rw [List.length_drop, ← hk, List.length_cons]
            omega
          rw [substituteFrom_of_some hm, substituteFrom_of_some (h passed' passed _ ▸ hm),
            substituteFrom_skip, substituteFrom_skip rule (c :: passed'),
            ih (r.drop (m.consumed - 1)).length shorter _ _ _ rfl]

end Text

namespace Quote

variable {style : QuoteStyle}

theorem mark_ne_other (style : QuoteStyle) : style.mark ≠ style.other.mark := by
  cases style <;> decide

theorem isQuote_mark (style : QuoteStyle) : Token.isQuote style.mark = true := by
  cases style <;> rfl

theorem eq_of_isQuote {c : Char} (h : Token.isQuote c = true) (style : QuoteStyle) :
    c = style.mark ∨ c = style.other.mark := by
  simp only [Token.isQuote, Bool.or_eq_true, beq_iff_eq] at h
  cases style with
  | single => exact h
  | double => exact h.symm

theorem restyle_from (passed t : Text) :
    substituteFrom (swap style) passed 0 t = restyle style t :=
  substituteFrom_of_blind (fun _ _ _ => rfl) passed [] t

theorem restyle_nil : restyle style [] = [] := rfl

theorem restyle_cons_of_none {c : Char} {r : Text}
    (h : c = style.other.mark → closing? style.other.mark false false r = none) :
    restyle style (c :: r) = c :: restyle style r := by
  have unchanged : swap style [] (c :: r) = none := by
    simp only [swap]
    split
    · next hc => rw [hc, h hc, Option.map_none]
    · rfl
  rw [restyle, substitute, substituteFrom_of_none unchanged, restyle_from]

theorem restyle_run {inner rest : Text}
    (h : closing? style.other.mark false false (inner ++ style.other.mark :: rest) =
      some (inner.length + 1)) :
    restyle style (style.other.mark :: inner ++ style.other.mark :: rest) =
      style.mark :: inner ++ style.mark :: restyle style rest := by
  have changed : swap style [] (style.other.mark :: inner ++ style.other.mark :: rest) =
      some ⟨inner.length + 2, style.mark :: inner ++ [style.mark]⟩ := by
    simp [swap, h]
  have whole : style.other.mark :: inner ++ style.other.mark :: rest =
      (style.other.mark :: inner ++ [style.other.mark]) ++ rest := by simp
  rw [restyle, substitute]
  rw [whole] at changed ⊢
  rw [substituteFrom_found changed (by simp) (by simp), restyle_from]
  simp

/-- Some other quote in the text begins a run that is closed in it or behind it. -/
def beginsRun (style : QuoteStyle) : (t behind : Text) → Bool
  | [], _ => false
  | c :: r, behind =>
      (c == style.other.mark && (closing? style.other.mark false false (r ++ behind)).isSome) ||
        beginsRun style r behind

theorem restyle_append {t behind : Text} (h : beginsRun style t behind = false) :
    restyle style (t ++ behind) = t ++ restyle style behind := by
  induction t with
  | nil => rfl
  | cons c r ih =>
      simp only [beginsRun, Bool.or_eq_false_iff, Bool.and_eq_false_iff, beq_eq_false_iff_ne,
        Option.isSome_eq_false_iff, Option.isNone_iff_eq_none] at h
      rw [List.cons_append, restyle_cons_of_none fun hc => h.1.resolve_left (fun hne => hne hc),
        ih h.2]
      rfl

theorem restyle_append_of_beginsRun {t behind : Text} (h : beginsRun style t behind = true) :
    ∃ a b more, t = a ++ style.other.mark :: b ∧
      restyle style (t ++ behind) = a ++ style.mark :: more := by
  induction t with
  | nil => cases h
  | cons c r ih =>
      by_cases hc : c = style.other.mark ∧
          (closing? style.other.mark false false (r ++ behind)).isSome = true
      · obtain ⟨rfl, hsome⟩ := hc
        obtain ⟨n, hn⟩ := Option.isSome_iff_exists.mp hsome
        obtain ⟨inner, rest, hr, rfl⟩ := of_closing? hn
        rw [hr] at hn
        refine ⟨[], r, inner ++ style.mark :: restyle style rest, rfl, ?_⟩
        rw [List.cons_append, hr]
        exact restyle_run hn
      · have later : beginsRun style r behind = true := by
          simp only [beginsRun, Bool.or_eq_true, Bool.and_eq_true, beq_iff_eq] at h
          exact h.resolve_left hc
        obtain ⟨a, b, more, rfl, hr⟩ := ih later
        refine ⟨c :: a, b, more, rfl, ?_⟩
        rw [List.cons_append, restyle_cons_of_none, hr]
        · rfl
        · rintro rfl
          exact Option.not_isSome_iff_eq_none.mp fun hsome => hc ⟨rfl, hsome⟩

/-- What a token has to be so that it comes back: a string of the other style without bare
quotes of this one, a string of this style or a comment in which no run begins, or no
string and no comment. -/
def restylable (style : QuoteStyle) (x : Lexeme) : Bool :=
  match x.kind with
  | .string =>
      if x.text.head? = some style.mark then !beginsRun style x.text x.behind
      else (closing? style.mark false false x.text.tail).isNone
  | .comment => !beginsRun style x.text x.behind
  | _ => true

/-- The kind is the same and so is the text, for strings what stands between the
delimiters. -/
structure SameSpelling (x y : TokenKind × Text) : Prop where
  kind : x.1 = y.1
  text : x.1 ≠ .string → x.2 = y.2
  inner : x.1 = .string → ∃ q q' inner, x.2 = q :: inner ++ [q] ∧ y.2 = q' :: inner ++ [q']

open Token

variable {p : Profile}

theorem lexemes_comment {t : Text} (h : startsComment t = true) :
    lexemes p t = [⟨.comment, t, []⟩] := by
  cases t with
  | nil => cases h
  | cons c r => exact lexemes_of_some (Shape.comment h).lexeme? (List.append_nil _).symm

/-- Scanning what was restyled agrees with scanning the text. -/
def Agree (p : Profile) (style : QuoteStyle) (t : Text) : Prop :=
  ∀ X Y : List (TokenKind × Text),
    List.Forall₂ SameSpelling (spell (lexemes p t) ++ X)
        (spell (lexemes p (restyle style t)) ++ Y) ↔
      (∀ x ∈ lexemes p t, restylable style x = true) ∧ List.Forall₂ SameSpelling X Y

theorem agree_nil : Agree p style [] := by
  intro X Y
  simp [lexemes, lexemesFrom, restyle_nil]

theorem Agree.cons {t u behind text : Text} {x : Lexeme} (hu : restyle style t = u)
    (ht : lexemes p t = x :: lexemes p behind)
    (hr : lexemes p u = ⟨x.kind, text, restyle style behind⟩ :: lexemes p (restyle style behind))
    (same : SameSpelling (x.kind, x.text) (x.kind, text)) (hx : restylable style x = true)
    (rest : Agree p style behind) : Agree p style t := by
  intro X Y
  rw [hu, ht, hr, spell_cons, spell_cons, List.cons_append, List.cons_append,
    List.forall₂_cons, List.forall_mem_cons, rest X Y]
  simp [same, hx]

theorem agree_of_broken {t u : Text} {x y : Lexeme} {xs ys : List Lexeme}
    (hu : restyle style t = u) (ht : lexemes p t = x :: xs) (hr : lexemes p u = y :: ys)
    (broken : ¬SameSpelling (x.kind, x.text) (y.kind, y.text)) (hx : restylable style x = false) :
    Agree p style t := by
  intro X Y
  rw [hu, ht, hr, spell_cons, spell_cons, List.cons_append, List.cons_append,
    List.forall₂_cons, List.forall_mem_cons]
  simp [broken, hx]

theorem agree_comment {t : Text} (h : startsComment t = true) : Agree p style t := by
  have comment : startsComment (restyle style t) = true :=
    (startsComment_eq_of_map_plainQuote (map_plainQuote_restyle style t)).trans h
  have scanned : lexemes p t = ⟨.comment, t, []⟩ :: lexemes p [] := lexemes_comment h
  have notString : TokenKind.comment ≠ .string := by decide
  cases hrun : beginsRun style t [] with
  | false =>
      have same : restyle style t = t := by
        have := restyle_append hrun
        rwa [List.append_nil, restyle_nil, List.append_nil] at this
      exact .cons same scanned scanned ⟨rfl, fun _ => rfl, fun hs => absurd hs notString⟩
          (by simp [restylable, hrun]) agree_nil
  | true =>
      obtain ⟨a, b, more, ht, hr⟩ := restyle_append_of_beginsRun hrun
      rw [List.append_nil] at hr
      refine agree_of_broken rfl scanned (lexemes_comment comment) (fun same => ?_)
        (by simp [restylable, hrun])
      have text : t = restyle style t := same.text notString
      rw [hr, ht] at text
      exact mark_ne_other style (List.cons_eq_cons.mp (List.append_cancel_left text)).1.symm

/-- All strings of a line are closed. -/
def Closed (p : Profile) (line : Text) : Prop :=
  ∀ x ∈ lexemes p line, x.kind = .string → isClosed x.text = true

theorem not_isQuote_of_mem_takeWhile {q : Char → Bool} (hq : ∀ c, isQuote c = true → q c = false)
    {c : Char} {r : Text} (hc : isQuote c = false) :
    ∀ d ∈ c :: r.takeWhile q, isQuote d = false := by
  rw [List.forall_mem_cons]
  refine ⟨hc, fun d hd => ?_⟩
  have taken : q d = true := List.all_eq_true.mp List.all_takeWhile d hd
  by_contra hne
  rw [hq d (eq_true_of_ne_false hne)] at taken
  cases taken

theorem classify_ne (word : Text) : classify p word ≠ .string ∧ classify p word ≠ .comment := by
  simp only [classify]
  split
  · exact ⟨by decide, by decide⟩
  · split
    · exact ⟨by decide, by decide⟩
    · split <;> exact ⟨by decide, by decide⟩

theorem of_lexeme?_plain {c : Char} {r : Text} {kind : TokenKind} {text : Text}
    (h : lexeme? p c r = some (kind, text)) (hc : isQuote c = false)
    (hcomment : startsComment (c :: r) = false) :
    (kind ≠ .string ∧ kind ≠ .comment) ∧ ∀ d ∈ text, isQuote d = false := by
  cases lexeme?_eq_some_iff.mp h with
  | comment hslashes => exact absurd hslashes (by rw [hcomment]; decide)
  | string hquote => exact absurd hquote (by rw [hc]; decide)
  | number =>
      exact ⟨⟨by decide, by decide⟩, not_isQuote_of_mem_takeWhile continuesNumber_of_isQuote hc⟩
  | word => exact ⟨classify_ne _, not_isQuote_of_mem_takeWhile continuesWord_of_isQuote hc⟩
  | operator _ _ hop =>
      exact ⟨⟨by decide, by decide⟩,
        not_isQuote_of_mem_pairOperators _ (List.mem_of_find?_eq_some hop)⟩
  | punctuation => exact ⟨⟨by decide, by decide⟩, by simpa using hc⟩

theorem beginsRun_eq_false {t : Text} (h : ∀ c ∈ t, isQuote c = false) (behind : Text) :
    beginsRun style t behind = false := by
  induction t with
  | nil => rfl
  | cons c r ih =>
      have hc : (c == style.other.mark) = false := by
        rw [beq_eq_false_iff_ne]
        rintro rfl
        have := h _ (List.mem_cons_self ..)
        rw [isQuote_mark] at this
        cases this
      rw [beginsRun, hc, ih fun d hd => h d (List.mem_cons_of_mem _ hd)]
      rfl

theorem agree_of_plain {c : Char} {r : Text} (hc : isQuote c = false)
    (hcomment : startsComment (c :: r) = false) (hclosed : Closed p (c :: r))
    (ih : ∀ s : Text, s.length < (c :: r).length → Closed p s → Agree p style s) :
    Agree p style (c :: r) := by
  have notOther : c ≠ style.other.mark := by
    rintro rfl
    rw [isQuote_mark] at hc
    cases hc
  have restyled : restyle style (c :: r) = c :: restyle style r :=
    restyle_cons_of_none fun h => absurd h notOther
  have again :=
    lexeme?_eq_of_map_plainQuote (p := p) hc (map_plainQuote_restyle style r).symm hcomment
  cases h : lexeme? p c r with
  | none =>
      have hr : Closed p r := by
        rwa [Closed, lexemes_of_none h] at hclosed
      have here := ih r (Nat.lt_succ_self _) hr
      rw [h] at again
      intro X Y
      rw [restyled, lexemes_of_none h, lexemes_of_none again]
      exact here X Y
  | some found =>
      obtain ⟨kind, text⟩ := found
      obtain ⟨⟨notString, notComment⟩, noQuotes⟩ := of_lexeme?_plain h hc hcomment
      obtain ⟨w, behind, rfl, rfl⟩ := lexeme?_append h
      have ht := lexemes_of_some h rfl
      have hu : restyle style (c :: (w ++ behind)) = c :: w ++ restyle style behind :=
        restyle_append (beginsRun_eq_false noQuotes behind)
      rw [h, (List.cons_eq_cons.mp (restyled.symm.trans hu)).2] at again
      have hbehind : Closed p behind := by
        rw [Closed, ht] at hclosed
        exact fun x hx => hclosed x (List.mem_cons_of_mem _ hx)
      have shorter : behind.length < (c :: (w ++ behind)).length := by
        rw [List.length_cons, List.length_append]
        omega
      refine .cons hu ht ?_ ⟨rfl, fun _ => rfl, fun hs => absurd hs notString⟩ ?_
        (ih behind shorter hbehind)
      · exact lexemes_of_some again rfl
      · cases kind <;> simp_all [restylable]

theorem agree_of_otherQuote {inner behind : Text}
    (hclosed : closing? style.other.mark false false (inner ++ [style.other.mark]) =
      some (inner.length + 1))
    (rest : Agree p style behind) :
    Agree p style (style.other.mark :: (inner ++ style.other.mark :: behind)) := by
  have hquote := isQuote_mark style.other
  have ht := lexemes_of_closing? (p := p) hquote hclosed behind
  have closes := closing?_append_of_some hclosed behind
  rw [List.append_assoc, List.singleton_append] at closes
  have hu := restyle_run closes
  have notMark : (some style.other.mark = some style.mark) ↔ False :=
    iff_of_false (fun h => mark_ne_other style (Option.some.inj h).symm) id
  cases hbare : closing? style.mark false false (inner ++ [style.other.mark]) with
  | none =>
      have bare : closing? style.mark false false inner = none := by
        cases h : closing? style.mark false false inner with
        | none => rfl
        | some n =>
            exact absurd ((closing?_append_of_some h _).symm.trans hbare) (Option.some_ne_none n)
      have hr := lexemes_of_closing? (p := p) (isQuote_mark style)
        (closing?_of_closing? hclosed bare) (restyle style behind)
      refine .cons hu ht hr ⟨rfl, fun h => absurd rfl h, fun _ => ⟨_, _, inner, rfl, rfl⟩⟩ ?_ rest
      simp [restylable, notMark, hbare]
  | some n =>
      -- the new string ends at the bare quote, before the old one did
      obtain ⟨front, back, happ, rfl⟩ := of_closing? hbare
      have short : front.length + 1 ≤ inner.length := by
        cases back with
        | nil =>
            have last := (List.append_inj' happ rfl).2
            exact absurd (List.cons_eq_cons.mp last).1.symm (mark_ne_other style)
        | cons d back =>
            have := congrArg List.length happ
            simp only [List.length_append, List.length_cons, List.length_nil] at this
            omega
      have early := stringRest_of_closing? (closing?_append_of_some
        (closing?_of_append hbare short) (style.mark :: restyle style behind))
      obtain ⟨rest', hrest⟩ := stringRest_append style.mark false
        (inner ++ style.mark :: restyle style behind)
      have hr := lexemes_of_some (Shape.string (p := p) (isQuote_mark style)).lexeme? (congrArg (style.mark :: ·) hrest)
      refine agree_of_broken hu ht hr (fun same => ?_) (by simp [restylable, notMark, hbare])
      obtain ⟨q, q', body, hx, hy⟩ := same.inner rfl
      have lengthX := congrArg List.length hx
      have lengthY := congrArg List.length hy
      simp only [early, List.length_append, List.length_cons, List.length_nil, List.length_take]
        at lengthX lengthY
      omega

theorem agree_of_sameQuote {inner behind : Text}
    (hclosed : closing? style.mark false false (inner ++ [style.mark]) = some (inner.length + 1))
    (rest : Agree p style behind) :
    Agree p style (style.mark :: (inner ++ style.mark :: behind)) := by
  have hquote := isQuote_mark style
  have ht := lexemes_of_closing? (p := p) hquote hclosed behind
  have whole : style.mark :: (inner ++ style.mark :: behind) =
      (style.mark :: inner ++ [style.mark]) ++ behind := by simp
  cases hrun : beginsRun style (style.mark :: inner ++ [style.mark]) behind with
  | false =>
      have hu : restyle style (style.mark :: (inner ++ style.mark :: behind)) =
          style.mark :: (inner ++ style.mark :: restyle style behind) := by
        rw [whole, restyle_append hrun]
        simp
      have hr := lexemes_of_closing? (p := p) hquote hclosed (restyle style behind)
      refine .cons hu ht hr ⟨rfl, fun h => absurd rfl h, fun _ => ⟨_, _, inner, rfl, rfl⟩⟩ ?_ rest
      simpa [restylable] using hrun
  | true =>
      -- the run that begins in the string puts another character there
      obtain ⟨a, b, more, htext, hu⟩ := restyle_append_of_beginsRun hrun
      rw [← whole] at hu
      cases a with
      | nil => exact absurd (List.cons_eq_cons.mp htext).1 (mark_ne_other style)
      | cons d a =>
          obtain ⟨rfl, hinner⟩ := List.cons_eq_cons.mp htext
          obtain ⟨rest', hrest⟩ := stringRest_append style.mark false (a ++ style.mark :: more)
          have hr := lexemes_of_some (Shape.string (p := p) hquote).lexeme?
            (congrArg (style.mark :: ·) hrest)
          refine agree_of_broken hu ht hr (fun same => ?_) (by simpa [restylable] using hrun)
          obtain ⟨q, q', body, hx, hy⟩ := same.inner rfl
          obtain ⟨rfl, hx⟩ := List.cons_eq_cons.mp hx
          obtain ⟨rfl, hy⟩ := List.cons_eq_cons.mp hy
          rw [hy] at hrest
          have same : inner ++ [style.mark] = body ++ [style.mark] := hx
          change inner ++ [style.mark] = a ++ style.other.mark :: b at hinner
          have read : a ++ style.mark :: more = a ++ style.other.mark :: b ++ rest' := by
            rw [hrest, ← hinner, same]
            rfl
          rw [List.append_assoc] at read
          exact mark_ne_other style (List.cons_eq_cons.mp (List.append_cancel_left read)).1

theorem agree_of_quote {c : Char} {r : Text} (hc : isQuote c = true) (hclosed : Closed p (c :: r))
    (ih : ∀ s : Text, s.length < (c :: r).length → Closed p s → Agree p style s) :
    Agree p style (c :: r) := by
  obtain ⟨behind, hr⟩ := stringRest_append c false r
  have scanned := lexemes_of_some (Shape.string (p := p) hc).lexeme?
    (congrArg (c :: ·) hr : c :: r = c :: stringRest c false r ++ behind)
  rw [Closed, scanned, List.forall_mem_cons] at hclosed
  obtain ⟨q, inner, htext, hends⟩ := of_isClosed (hclosed.1 rfl)
  obtain ⟨rfl, hrest⟩ := List.cons_eq_cons.mp htext
  have whole : r = inner ++ c :: behind := by
    rw [hr, hrest]
    simp
  have shorter : behind.length < (c :: r).length := by
    rw [whole, List.length_cons, List.length_append, List.length_cons]
    omega
  have rest := ih behind shorter hclosed.2
  rw [whole]
  rcases eq_of_isQuote hc style with rfl | rfl
  · exact agree_of_sameQuote hends rest
  · exact agree_of_otherQuote hends rest

/-- A line is changed token by token, up to the first token that does not come back. -/
theorem agree_of_closed {t : Text} (h : Closed p t) : Agree p style t := by
  induction hk : t.length using Nat.strongRecOn generalizing t with
  | ind k ih =>
  subst hk
  have shorter (s : Text) (hs : s.length < t.length) (hclosed : Closed p s) : Agree p style s :=
    ih s.length hs hclosed rfl
  cases hcomment : startsComment t with
  | true => exact agree_comment hcomment
  | false =>
      cases t with
      | nil => exact agree_nil
      | cons c r =>
          cases hc : isQuote c with
          | false => exact agree_of_plain hc hcomment h shorter
          | true => exact agree_of_quote hc h shorter

/-! Lines are changed one by one. -/

theorem closing?_append_newline {quote : Char} (hq : quote ≠ '\n') (escaped : Bool) (a b : Text) :
    closing? quote false escaped (a ++ '\n' :: b) = closing? quote false escaped a := by
  induction a generalizing escaped with
  | nil => cases escaped <;> simp [closing?, hq.symm]
  | cons c r ih =>
      rw [List.cons_append, closing?_cons, closing?_cons]
      split
      · rfl
      · rfl
      · rw [ih]

theorem restyle_append_newline (a b : Text) :
    restyle style (a ++ '\n' :: b) = restyle style a ++ '\n' :: restyle style b := by
  have notNewline : style.other.mark ≠ '\n' := by cases style <;> decide
  induction hk : a.length using Nat.strongRecOn generalizing a with
  | ind k ih =>
  cases a with
  | nil => exact restyle_cons_of_none fun h => absurd h.symm notNewline
  | cons c r =>
      cases hrun : closing? style.other.mark false false r with
      | none =>
          have there : closing? style.other.mark false false (r ++ '\n' :: b) = none :=
            (closing?_append_newline notNewline false r b).trans hrun
          rw [List.cons_append, restyle_cons_of_none fun _ => there,
            restyle_cons_of_none fun _ => hrun, ih r.length (by simp [← hk]) r rfl]
          rfl
      | some n =>
          by_cases hc : c = style.other.mark
          · obtain ⟨inner, rest, rfl, rfl⟩ := of_closing? hrun
            have there := closing?_append_of_some hrun ('\n' :: b)
            rw [List.append_assoc, List.cons_append] at there
            have shorter : rest.length < k := by
              rw [← hk, List.length_cons, List.length_append, List.length_cons]
              omega
            have whole : c :: (inner ++ style.other.mark :: rest) ++ '\n' :: b =
                style.other.mark :: inner ++ style.other.mark :: (rest ++ '\n' :: b) := by
              simp [hc]
            have run := restyle_run hrun
            rw [List.cons_append] at run
            rw [whole, restyle_run there, ih rest.length shorter rest rfl, hc, run]
            simp
          · rw [List.cons_append, restyle_cons_of_none fun h => absurd h hc,
              restyle_cons_of_none fun h => absurd h hc, ih r.length (by simp [← hk]) r rfl]
            rfl

theorem not_newline_mem_restyle {l : Text} (h : '\n' ∉ l) : '\n' ∉ restyle style l := by
  intro hm
  have member : '\n' ∈ (restyle style l).map plainQuote := List.mem_map.mpr ⟨'\n', hm, rfl⟩
  rw [map_plainQuote_restyle] at member
  obtain ⟨c, hc, hcn⟩ := List.mem_map.mp member
  rcases isQuote_of_plainQuote_eq (show plainQuote c = plainQuote '\n' from hcn) with rfl | ⟨-, hn⟩
  · exact h hc
  · cases hn

theorem lines_restyle (source : Text) :
    Text.lines (restyle style source) = (Text.lines source).map (restyle style) := by
  suffices step : ∀ ls : List Text, ls ≠ [] →
      restyle style (unlines ls) = unlines (ls.map (restyle style)) by
    have whole := step (Text.lines source) (Text.lines_ne_nil source)
    rw [unlines_lines] at whole
    rw [whole, lines_unlines (by simpa using Text.lines_ne_nil source)]
    intro u hu
    obtain ⟨l, hl, rfl⟩ := List.mem_map.mp hu
    exact not_newline_mem_restyle (not_newline_of_mem_lines hl)
  intro ls hne
  induction ls with
  | nil => exact absurd rfl hne
  | cons l ls ih =>
      cases ls with
      | nil => rfl
      | cons m ms =>
          rw [unlines_cons l (List.cons_ne_nil m ms), restyle_append_newline,
            ih (List.cons_ne_nil m ms)]
          rfl

theorem forall₂_lines {ls : List Text} (h : ∀ l ∈ ls, Closed p l) :
    List.Forall₂ SameSpelling (spell (ls.flatMap (lexemes p)))
        (spell ((ls.map (restyle style)).flatMap (lexemes p))) ↔
      ∀ l ∈ ls, ∀ x ∈ lexemes p l, restylable style x = true := by
  induction ls with
  | nil => simp
  | cons l ls ih =>
      have first : Agree p style l := agree_of_closed (h l (List.mem_cons_self ..))
      have rest := ih fun k hk => h k (List.mem_cons_of_mem _ hk)
      rw [List.map_cons, List.flatMap_cons, List.flatMap_cons, spell_append, spell_append,
        List.forall_mem_cons, ← rest]
      exact first _ _

/-- Where all strings are closed, one quote style keeps the tokens just if every token is
restylable. -/
theorem restyle_keeps_tokens_iff (p : Profile) (style : QuoteStyle) (source : Text)
    (h : ∀ t ∈ tokenize p source, t.kind = .string → isClosed t.text = true) :
    List.Forall₂ (fun a b => SameSpelling (spelling a) (spelling b)) (tokenize p source)
        (tokenize p (restyle style source)) ↔
      ∀ line ∈ Text.lines source, ∀ x ∈ lexemes p line, restylable style x = true := by
  have closed : ∀ line ∈ Text.lines source, Closed p line := by
    intro line hline x hx hkind
    have member : (x.kind, x.text) ∈ (tokenize p source).map spelling := by
      rw [map_spelling_tokenize]
      exact List.mem_map.mpr ⟨x, List.mem_flatMap.mpr ⟨line, hline, hx⟩, rfl⟩
    obtain ⟨t, ht, same⟩ := List.mem_map.mp member
    obtain ⟨kind, text⟩ := Prod.mk.inj same
    exact text ▸ h t ht (kind.trans hkind)
  rw [← forall₂_lines closed, ← lines_restyle, ← map_spelling_tokenize,
    ← map_spelling_tokenize, List.forall₂_map_left_iff, List.forall₂_map_right_iff]

theorem restyle_keeps_tokens_escaped :
    let source := "x = 'it\\'s' + \"a\" // 'b".toList
    (∀ t ∈ tokenize .standard source, t.kind = .string → isClosed t.text = true) ∧
      List.Forall₂ (fun a b => SameSpelling (spelling a) (spelling b)) (tokenize .standard source)
        (tokenize .standard (restyle .double source)) := by
  intro source
  have closed : ∀ t ∈ tokenize .standard source, t.kind = .string → isClosed t.text = true := by
    decide +kernel
  exact ⟨closed, (restyle_keeps_tokens_iff .standard .double source closed).mpr (by decide +kernel)⟩

/-- A string with a bare quote of the new style falls apart. -/
theorem restyle_splits_string :
    let source := "'a\"b'".toList
    (∀ t ∈ tokenize .standard source, t.kind = .string → isClosed t.text = true) ∧
      (tokenize .standard source).length = 1 ∧
      (tokenize .standard (restyle .double source)).length = 3 := by
  decide +kernel

end Quote

end MotionExpr
