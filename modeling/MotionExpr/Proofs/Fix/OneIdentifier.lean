import MotionExpr.Proofs.Fix.OneName

/-!
A text made of the characters of words in the place of a name. It need not be a name: where it begins
with digits, these are a number, or go on with one that ends in front of it. So the tokens around it
may change, but not the identifiers: those of the text stay or are moved, and in the place of the old
name stand those of the new text.
-/

namespace MotionExpr
namespace Token

variable {p : Profile} {line column : Int} {t u : Token} {n : Text}

/-- The identifiers of a line from a column on. -/
def identifiersIn (p : Profile) (line column : Int) (l : Text) : List Token :=
  (scanLine p line column 0 l).filter (·.isIdentifier)

theorem identifiersIn_of_none {c : Char} {r : Text} (h : lexeme? p c r = none) :
    identifiersIn p line column (c :: r) = identifiersIn p line (column + 1) r := by
  rw [identifiersIn, scanLine_of_none h]
  rfl

theorem identifiersIn_of_other {c : Char} {kind : TokenKind} {w behind : Text}
    (h : lexeme? p c (w ++ behind) = some (kind, c :: w)) (other : kind ≠ .identifier) :
    identifiersIn p line column (c :: (w ++ behind)) =
      identifiersIn p line (column + (c :: w).length) behind := by
  rw [identifiersIn, scanLine_of_some h, List.filter_cons_of_neg (by simpa [isIdentifier] using other)]
  rfl

theorem identifiersIn_of_identifier {c : Char} {w behind : Text}
    (h : lexeme? p c (w ++ behind) = some (.identifier, c :: w)) :
    identifiersIn p line column (c :: (w ++ behind)) = ⟨.identifier, c :: w, line, column⟩ ::
      identifiersIn p line (column + (c :: w).length) behind := by
  rw [identifiersIn, scanLine_of_some h, List.filter_cons_of_pos rfl]
  rfl

/-! Digits and dots hold no identifier, whatever number they make with what is around them. -/

theorem classify_ne_number (word : Text) : classify p word ≠ .number := by
  rw [classify]
  repeat' split
  all_goals exact nofun

theorem continuesNumber_of_number {c : Char} {r text : Text}
    (h : lexeme? p c r = some (.number, text)) : ∀ d ∈ text, continuesNumber d = true := by
  generalize number : TokenKind.number = kind at h
  cases shape_of_lexeme? h with
  | number hc =>
      refine List.forall_mem_cons.mpr ⟨?_, fun d hd => List.mem_takeWhile_imp hd⟩
      rw [continuesNumber, hc, Bool.true_or]
  | word hc => exact absurd number.symm (classify_ne_number _)
  | _ => cases number

theorem identifiersIn_dropWhile (line column : Int) (l : Text) :
    identifiersIn p line (column + (l.takeWhile continuesNumber).length)
        (l.dropWhile continuesNumber) = identifiersIn p line column l := by
  induction l generalizing column with
  | nil => rfl
  | cons c r ih =>
      cases hc : continuesNumber c with
      | false => simp [hc]
      | true =>
          rw [List.takeWhile_cons_of_pos hc, List.dropWhile_cons_of_pos hc]
          rw [continuesNumber, Bool.or_eq_true, beq_iff_eq] at hc
          rcases hc with digit | rfl
          · have taken : lexeme? p c (r.takeWhile continuesNumber ++ r.dropWhile continuesNumber) =
                some (.number, c :: r.takeWhile continuesNumber) := by
              rw [List.takeWhile_append_dropWhile]
              exact (Shape.number digit).lexeme?
            rw [← identifiersIn_of_other taken (by decide), List.takeWhile_append_dropWhile]
          · have later := ih (column + 1)
            rw [show column + 1 + ((r.takeWhile continuesNumber).length : Int) =
              column + ('.' :: r.takeWhile continuesNumber).length by simp; omega] at later
            exact later.trans (identifiersIn_of_other (w := []) (lexeme?_dot r) (by decide)).symm

/-- A run of them is passed, also where a number goes on behind it. -/
theorem identifiersIn_append {digits : Text} (h : ∀ c ∈ digits, continuesNumber c = true)
    (line column : Int) (l : Text) :
    identifiersIn p line column (digits ++ l) = identifiersIn p line (column + digits.length) l := by
  rw [← identifiersIn_dropWhile, List.takeWhile_append_of_pos h, List.dropWhile_append_of_pos h,
    List.length_append, ← identifiersIn_dropWhile line (column + digits.length) l]
  congr 1
  omega

/-! Digits with a word behind them. -/

theorem exists_digits (h : ∀ c ∈ n, continuesWord c = true) :
    ∃ digits rest, n = digits ++ rest ∧ (∀ c ∈ digits, Text.isAsciiDigit c = true) ∧
      rest = n.dropWhile Text.isAsciiDigit ∧ (rest = [] ∨ isWord rest = true) := by
  refine ⟨_, _, List.takeWhile_append_dropWhile.symm, fun c hc => List.mem_takeWhile_imp hc, rfl, ?_⟩
  cases rest : n.dropWhile Text.isAsciiDigit with
  | nil => exact .inl rfl
  | cons c r =>
      have sub : c :: r ⊆ n := rest ▸ (List.dropWhile_suffix _).subset
      have here := h c (sub (List.mem_cons_self ..))
      have other : Text.isAsciiDigit c = false := by
        have first := List.head?_dropWhile_not Text.isAsciiDigit n
        rw [rest] at first
        simpa using first
      rw [continuesWord, other, Bool.or_false] at here
      refine .inr ?_
      rw [isWord, here, Bool.true_and, List.all_eq_true]
      exact fun d hd => h d (sub (List.mem_cons_of_mem c hd))

theorem identifiersIn_word {word r : Text} (hw : isWord word = true) (hr : EndsWord r)
    (line column : Int) : identifiersIn p line column (word ++ r) =
      (if classify p word = .identifier then [⟨.identifier, word, line, column⟩] else []) ++
        identifiersIn p line (column + word.length) r := by
  obtain ⟨c, w, rfl, -, -⟩ := of_isWord hw
  have read := lexeme?_word (p := p) hw hr
  split
  · next ident =>
      rw [ident] at read
      exact identifiersIn_of_identifier read
  · next other => exact identifiersIn_of_other read other

section Digits

variable {digits : Text} (hd : ∀ c ∈ digits, Text.isAsciiDigit c = true)

include hd

theorem identifiersIn_digits_append (line column : Int) (l : Text) :
    identifiersIn p line column (digits ++ l) = identifiersIn p line (column + digits.length) l :=
  identifiersIn_append (fun c hc => by rw [continuesNumber, hd c hc, Bool.true_or]) line column l

theorem identifiersIn_digits (line column : Int) : identifiersIn p line column digits = [] := by
  have whole := identifiersIn_digits_append (p := p) hd line column []
  rwa [List.append_nil] at whole

/-- The identifier of a text is what stands behind its digits, unless that is a known name. -/
theorem identifiersIn_digits_word {word : Text} (hw : isWord word = true) (line column : Int) :
    identifiersIn p line column (digits ++ word) = if classify p word = .identifier then
      [⟨.identifier, word, line, column + digits.length⟩] else [] := by
  have whole := identifiersIn_word (p := p) hw endsWord_nil line (column + digits.length)
  rw [List.append_nil] at whole
  rw [identifiersIn_digits_append hd, whole]
  exact List.append_nil _

end Digits

/-- Nothing that does not go on with a word changes how such a text is read. -/
theorem identifiersIn_append_of_endsWord {r : Text} (h : ∀ c ∈ n, continuesWord c = true)
    (hr : EndsWord r) (line column : Int) : identifiersIn p line column (n ++ r) =
      identifiersIn p line column n ++ identifiersIn p line (column + n.length) r := by
  obtain ⟨digits, rest, rfl, hd, -, rfl | word⟩ := exists_digits h
  · rw [List.append_nil, identifiersIn_digits hd, identifiersIn_digits_append hd, List.nil_append]
  · rw [List.append_assoc, identifiersIn_digits_append hd, identifiersIn_word word hr,
      identifiersIn_digits_word hd word, List.length_append, Int.natCast_add, Int.add_assoc]

/-! One name of a text. -/

/-- The identifiers that stand in the place of one after `n` was put in the place of `t`. -/
def reread (p : Profile) (t : Token) (n : Text) (u : Token) : List Token :=
  if u = t then identifiersIn p t.line t.column n else [t.respelled p n u]

/-- A token that is no identifier hides none of a text that goes on as the text behind it does. -/
theorem identifiersIn_of_kindred {c : Char} {kind : TokenKind} {w r s : Text}
    (h : lexeme? p c (w ++ r) = some (kind, c :: w)) (other : kind ≠ .identifier)
    (kindred : Kindred r s) (line column : Int) : identifiersIn p line column (c :: (w ++ s)) =
      identifiersIn p line (column + (c :: w).length) s := by
  by_cases number : kind = .number
  · exact identifiersIn_append (continuesNumber_of_number (number ▸ h)) line column s
  · exact identifiersIn_of_other (lexeme?_of_kindred h kindred number) other

theorem reread_self (p : Profile) (t : Token) (n : Text) :
    t.reread p n t = identifiersIn p t.line t.column n := if_pos rfl

theorem reread_of_ne (p : Profile) (n : Text) (differ : u ≠ t) :
    t.reread p n u = [t.respelled p n u] := if_neg differ

theorem flatMap_reread {us : List Token} (others : t ∉ us) :
    us.flatMap (t.reread p n) = us.map (t.respelled p n) := by
  rw [List.map_eq_flatMap]
  exact List.flatMap_congr fun u hu => reread_of_ne p n fun same => others (same ▸ hu)

theorem flatMap_reread_behind (nonempty : t.text ≠ []) (n l : Text) :
    (identifiersIn p t.line t.endColumn l).flatMap (t.reread p n) =
      identifiersIn p t.line (t.column + n.length) l := by
  have longer := column_lt_endColumn nonempty
  have others : t ∉ scanLine p t.line t.endColumn 0 l := fun ht => by
    have := (of_mem_scanLine ht).2.1
    omega
  rw [identifiersIn, identifiersIn, flatMap_reread fun ht => others (List.mem_of_mem_filter ht),
    ← map_respelled_behind nonempty, List.filter_map]
  refine congrArg (List.map _) (List.filter_congr fun u hu => ?_)
  have differ : u ≠ t := fun same => others (same ▸ hu)
  rw [Function.comp_apply, respelled_of_ne p n differ]
  rfl

section Reread

variable (ident : t.isIdentifier = true) (old : isWord t.text = true)
  (fresh : ∀ c ∈ n, continuesWord c = true) (nonempty : n ≠ [])

include ident old fresh nonempty

/-- Along a line: where the new text begins with digits, it may make the token in front longer, but
that is a number, too. -/
theorem identifiersIn_reread {line : Int} {front l : Text}
    (ht : t ∈ scanLine p line (front.length + 1) 0 l) :
    ∃ l', Kindred l l' ∧ (fixAt t n).replaceInLine (front ++ l) = front ++ l' ∧
      identifiersIn p line (front.length + 1) l' =
        (identifiersIn p line (front.length + 1) l).flatMap (t.reread p n) := by
  induction l using scan_induction p generalizing front with
  | nil => cases ht
  | blank c r hc ih =>
      have place : (front.length + 1 + 1 : Int) = (front ++ [c]).length + 1 := by simp
      rw [scanLine_of_none hc, place] at ht
      obtain ⟨r', -, replaced, scanned⟩ := ih ht
      have still : lexeme? p c r' = none := lexeme?_eq_none_iff.mpr (lexeme?_eq_none_iff.mp hc)
      refine ⟨c :: r', .inl rfl, by simpa using replaced, ?_⟩
      rw [identifiersIn_of_none hc, identifiersIn_of_none still, place, scanned]
  | token c kind w behind hc ih =>
      have place : (front.length + 1 + (c :: w).length : Int) = (front ++ c :: w).length + 1 := by
        simp only [List.length_append]
        omega
      rw [scanLine_of_some hc] at ht
      rcases List.mem_cons.mp ht with rfl | later
      · obtain rfl : kind = .identifier := of_decide_eq_true ident
        obtain ⟨_, _, same, hstart, -⟩ := of_isWord old
        obtain ⟨rfl, rfl⟩ := List.cons_eq_cons.mp same
        obtain ⟨d, v, rfl⟩ := List.exists_cons_of_ne_nil nonempty
        refine ⟨(d :: v) ++ behind, .inr ⟨c, d, rfl, rfl, hstart, fresh d (List.mem_cons_self ..)⟩,
          ?_, ?_⟩
        · simpa using replaceInLine_fixAt front (c :: w) (d :: v) behind
            (t := ⟨.identifier, c :: w, line, front.length + 1⟩) rfl rfl
        · rw [identifiersIn_append_of_endsWord fresh (endsWord_of_lexeme? hc hstart),
            identifiersIn_of_identifier hc, List.flatMap_cons, reread_self]
          exact congrArg (_ ++ ·) (flatMap_reread_behind (p := p)
            (t := ⟨.identifier, c :: w, line, front.length + 1⟩) (List.cons_ne_nil c w) (d :: v) behind).symm
      · obtain ⟨differ, kept⟩ := respelled_of_later (n := n)
          (u := ⟨kind, c :: w, line, front.length + 1⟩) (List.cons_ne_nil c w) later
        rw [place] at later
        obtain ⟨behind', kindred, replaced, scanned⟩ := ih later
        refine ⟨c :: (w ++ behind'), .inl rfl, by simpa using replaced, ?_⟩
        by_cases other : kind = .identifier
        · subst other
          rw [identifiersIn_of_identifier hc,
            identifiersIn_of_identifier (lexeme?_of_kindred hc kindred (by decide)), List.flatMap_cons,
            reread_of_ne p n differ, kept, place, scanned]
          rfl
        · rw [identifiersIn_of_other hc other, identifiersIn_of_kindred hc other kindred, place, scanned]

/-- The identifiers of the text. -/
theorem identifiers_reread {source : Text} (ht : t ∈ tokenize p source) :
    (tokenize p ((fixAt t n).apply source)).filter (·.isIdentifier) =
      ((tokenize p source).filter (·.isIdentifier)).flatMap (t.reread p n) := by
  obtain ⟨row, l, hl, here⟩ := mem_tokenize_iff.mp ht
  have home : t.line = 1 + row := (of_mem_scanLine here).1
  obtain ⟨above, below, elsewhere, whole⟩ := exists_scanLines_modify p 1 hl
  have others {us : List Token} (sub : us ⊆ above ++ below) :
      (us.filter (·.isIdentifier)).flatMap (t.reread p n) = us.filter (·.isIdentifier) := by
    have off : ∀ u ∈ us.filter (·.isIdentifier), u.line ≠ t.line := fun u hu =>
      home ▸ elsewhere u (sub (List.mem_of_mem_filter hu))
    rw [flatMap_reread fun ht => off t ht rfl, map_respelled_elsewhere off]
  obtain ⟨l', -, replaced, scanned⟩ :=
    @identifiersIn_reread p t n ident old fresh nonempty _ [] _ here
  rw [List.nil_append, List.nil_append] at replaced
  have before := whole id
  rw [List.modify_id] at before
  rw [tokenize, QuickFix.lines_apply (not_newline_of_continuesWord fresh) home hl, whole, tokenize,
    before, replaced]
  simp only [List.filter_append, List.flatMap_append, others (List.subset_append_left ..),
    others (List.subset_append_right ..)]
  exact congrArg (fun us => _ ++ (us ++ _)) scanned

end Reread

end Token
end MotionExpr
