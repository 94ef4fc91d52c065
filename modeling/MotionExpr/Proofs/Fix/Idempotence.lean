import MotionExpr.Proofs.Fix.Retokenize
import MotionExpr.Proofs.Fix.Automatic

/-!
Fixing all twice, with the standard names. The new names are read back as names of
the host and as keywords that no rule replaces, but for one: the name for `random`
ends in `random`, which is replaced again. So a second run changes the text just
where the first one met that name.
-/

namespace MotionExpr

open Token

/-! The new texts of the standard profile, as they are read back. -/

theorem renames_deprecated {e : Text × Deprecation} (h : e ∈ Language.deprecated) :
    (∃ c w, e.1 = c :: w ∧ startsWord c = true) ∧ IsName .standard e.2.replacement := by
  have dotted (a b : Text) (ha : isWord a = true) (hb : isWord b = true) :
      IsName .standard (a ++ '.' :: b) := isName_dotted ha hb
  simp only [Language.deprecated, List.mem_cons, List.not_mem_nil, or_false] at h
  obtain rfl | rfl | rfl | rfl | rfl | rfl := h
  · exact ⟨⟨'M', "ath.round".toList, rfl, rfl⟩, dotted "Math".toList "round".toList rfl rfl⟩
  · exact ⟨⟨'r', "andom".toList, rfl, rfl⟩, dotted "Math".toList "random".toList rfl rfl⟩
  · exact ⟨⟨'s', "eedRandom".toList, rfl, rfl⟩, dotted "Math".toList "seedrandom".toList rfl rfl⟩
  · exact ⟨⟨'c', "omp".toList, rfl, rfl⟩, isName_word rfl⟩
  · exact ⟨⟨'l', "ayer".toList, rfl, rfl⟩, isName_word rfl⟩
  · exact ⟨⟨'e', "ffect".toList, rfl, rfl⟩, dotted "thisLayer".toList "effect".toList rfl rfl⟩

/-- What a token is called whose text is replaced. -/
def isRandom (t : Token) : Bool := t.isIdentifier && t.text == "random".toList

/-- A new text begins with a token that is no identifier, it declares no variable, and
only the one for `random` has a deprecated name in it. -/
structure Settled (n : Text) (random : Bool) : Prop where
  first : ∃ x xs, spell (lexemes .standard n) = x :: xs ∧ x.1 ≠ .identifier
  noVar : (.keyword, "var".toList) ∉ spell (lexemes .standard n)
  lasting : random = false → ∀ w, (.identifier, w) ∈ spell (lexemes .standard n) →
    Profile.standard.deprecation? w = none

def settles (n : Text) (random : Bool) : Bool :=
  let xs := spell (lexemes .standard n)
  xs.head?.any (·.1 != .identifier) && !xs.contains (.keyword, "var".toList) &&
    (random || xs.all fun x => x.1 != .identifier || (Profile.standard.deprecation? x.2).isNone)

theorem settled_of_settles {n : Text} {random : Bool} (h : settles n random = true) :
    Settled n random := by
  simp only [settles, Bool.and_eq_true] at h
  obtain ⟨⟨first, noVar⟩, lasting⟩ := h
  refine ⟨?_, ?_, ?_⟩
  · cases hx : spell (lexemes .standard n) with
    | nil => rw [hx] at first; cases first
    | cons x xs =>
        rw [hx] at first
        exact ⟨x, xs, rfl, by simpa using first⟩
  · simpa using noVar
  · rintro rfl w hw
    rw [Bool.false_or, List.all_eq_true] at lasting
    simpa using lasting _ hw

theorem settles_deprecated {e : Text × Deprecation} (h : e ∈ Language.deprecated) :
    settles e.2.replacement (e.1 == "random".toList) = true := by
  have checked : (Language.deprecated.all fun e =>
      settles e.2.replacement (e.1 == "random".toList)) = true := by decide +kernel
  exact List.all_eq_true.mp checked e h

theorem isName_of_replaces {t : Token} {n : Text} (h : Replaces .standard t n) :
    IsName .standard n := by
  cases h with
  | renamed _ hd => exact (renames_deprecated (of_deprecation? hd)).2
  | declared _ hn =>
      simp only [List.mem_cons, List.not_mem_nil, or_false] at hn
      obtain rfl | rfl := hn
      · exact isName_word rfl
      · exact isName_word rfl

theorem startsWord_of_replaces {t : Token} {n : Text} (h : Replaces .standard t n) :
    ∃ c w, t.text = c :: w ∧ startsWord c = true := by
  cases h with
  | renamed _ hd => exact (renames_deprecated (of_deprecation? hd)).1
  | declared var _ =>
      exact ⟨'v', "ar".toList, (Prod.mk.inj (isVar_iff.mp var)).2, rfl⟩

theorem settled_of_replaces {t : Token} {n : Text} (h : Replaces .standard t n) :
    Settled n (isRandom t) := by
  apply settled_of_settles
  cases h with
  | renamed ident hd =>
      rw [isRandom, ident, Bool.true_and]
      exact settles_deprecated (of_deprecation? hd)
  | declared var hn =>
      have kind : t.isIdentifier = false := by
        rw [isIdentifier, (Prod.mk.inj (isVar_iff.mp var)).1]
        rfl
      rw [isRandom, kind, Bool.false_and]
      simp only [List.mem_cons, List.not_mem_nil, or_false] at hn
      obtain rfl | rfl := hn
      · decide
      · decide

/-! A text and what one run makes of it. -/

/-- The linter with the standard names. -/
def Linter.standard (o : LintOptions) : Linter := { options := o }

variable {o : LintOptions} {source : Text}

theorem replaces_of_standard {t : Token} {n : Text}
    (h : autoText (Linter.standard o) source t = some n) : Replaces .standard t n :=
  replaces_of_autoText h

theorem renames_autoText (o : LintOptions) (source : Text) :
    Renames .standard (autoText (Linter.standard o) source) where
  old t n h c hc := by
    obtain ⟨d, w, text, hd⟩ := startsWord_of_replaces (replaces_of_standard h)
    rw [text] at hc
    cases hc
    exact hd
  fresh _ _ h := isName_of_replaces (replaces_of_standard h)

/-- The text after all fixes. -/
def fixed (o : LintOptions) (source : Text) : Text := (Linter.standard o).fixStep source .all

theorem fixed_eq_patch (o : LintOptions) (source : Text) :
    fixed o source = patch .standard (autoText (Linter.standard o) source) source :=
  fixAll_lint fun t n h => ((renames_autoText o source).fresh t n h).oneLine

/-- What stands in the place of a token after all fixes. -/
def rewritten (o : LintOptions) (source : Text) : Token → List (TokenKind × Text) :=
  expand .standard (autoText (Linter.standard o) source)

theorem map_spelling_fixed (o : LintOptions) (source : Text) :
    (tokenize .standard (fixed o source)).map spelling =
      (tokenize .standard source).flatMap (rewritten o source) := by
  rw [fixed_eq_patch]
  exact map_spelling_patch (renames_autoText o source) source

theorem rewritten_of_none {t : Token} (h : autoText (Linter.standard o) source t = none) :
    rewritten o source t = [spelling t] := by
  rw [rewritten, expand, h]

theorem rewritten_of_some {t : Token} {n : Text}
    (h : autoText (Linter.standard o) source t = some n) :
    rewritten o source t = spell (lexemes .standard n) := by
  rw [rewritten, expand, h]

theorem rewritten_ne_nil (t : Token) : rewritten o source t ≠ [] := by
  cases h : autoText (Linter.standard o) source t with
  | none => simp [rewritten_of_none h]
  | some n =>
      obtain ⟨x, xs, hx, -⟩ := (settled_of_replaces (replaces_of_standard h)).first
      simp [rewritten_of_some h, hx]

/-- An identifier in front comes from a token that was kept. -/
theorem of_head_rewritten {t : Token} {w : Text}
    (h : (rewritten o source t).head? = some (.identifier, w)) :
    autoText (Linter.standard o) source t = none ∧ spelling t = (.identifier, w) := by
  cases ht : autoText (Linter.standard o) source t with
  | none =>
      rw [rewritten_of_none ht] at h
      exact ⟨rfl, Option.some.inj h⟩
  | some n =>
      obtain ⟨x, xs, hx, kind⟩ := (settled_of_replaces (replaces_of_standard ht)).first
      rw [rewritten_of_some ht, hx] at h
      cases h
      exact absurd rfl kind

/-- A `var` comes from a token that was kept. -/
theorem of_var_mem_rewritten {t : Token} (h : (.keyword, "var".toList) ∈ rewritten o source t) :
    autoText (Linter.standard o) source t = none ∧ isVar t = true := by
  cases ht : autoText (Linter.standard o) source t with
  | none =>
      rw [rewritten_of_none ht, List.mem_singleton] at h
      exact ⟨rfl, isVar_iff.mpr h.symm⟩
  | some n =>
      rw [rewritten_of_some ht] at h
      exact absurd h (settled_of_replaces (replaces_of_standard ht)).noVar

/-- Two neighbours after the fixes: behind a `var` stands what stood behind one that was kept. -/
def Neighbours (o : LintOptions) (source : Text) (x y : TokenKind × Text) : Prop :=
  x = (.keyword, "var".toList) → ∃ t u, isVar t = true ∧
    autoText (Linter.standard o) source t = none ∧ follower (tokenize .standard source) t = some u ∧
    (rewritten o source u).head? = some y

theorem isChain_rewritten (t : Token) : (rewritten o source t).IsChain (Neighbours o source) := by
  cases ht : autoText (Linter.standard o) source t with
  | none =>
      rw [rewritten_of_none ht]
      exact .singleton _
  | some n =>
      rw [rewritten_of_some ht]
      refine (List.pairwise_of_forall_mem_list fun x hx y _ var => ?_).isChain
      rw [var] at hx
      exact absurd hx (settled_of_replaces (replaces_of_standard ht)).noVar

theorem isChain_fixed (o : LintOptions) (source : Text) :
    ((tokenize .standard (fixed o source)).map spelling).IsChain (Neighbours o source) := by
  have full : [] ∉ (tokenize .standard source).map (rewritten o source) := by
    rw [List.mem_map]
    rintro ⟨t, -, nil⟩
    exact rewritten_ne_nil t nil
  rw [map_spelling_fixed, List.flatMap, List.isChain_flatten full, List.isChain_map,
    List.forall_mem_map]
  refine ⟨fun t _ => isChain_rewritten t, ?_⟩
  refine (isChain_follower (nodup_tokenize .standard source)).imp ?_
  rintro t u htu x hx y hy rfl
  obtain ⟨kept, var⟩ := of_var_mem_rewritten (List.mem_of_getLast? hx)
  exact ⟨t, u, var, kept, htu, hy⟩

theorem follower_fixed {t' u' : Token} (var : isVar t' = true)
    (h : follower (tokenize .standard (fixed o source)) t' = some u') :
    ∃ t u, isVar t = true ∧ autoText (Linter.standard o) source t = none ∧
      follower (tokenize .standard source) t = some u ∧
      (rewritten o source u).head? = some (spelling u') := by
  have chain := isChain_fixed o source
  rw [List.isChain_map] at chain
  exact of_follower chain h (isVar_iff.mp var)

/-! Assignments are not lost. -/

/-- The assignments to a name, counted over spellings. -/
def assigned (name : Text) : List (TokenKind × Text) → Nat
  | x :: y :: z :: xs =>
      (if x = (.identifier, name) ∧ y.2 = ['='] then 1 else 0) + assigned name (y :: z :: xs)
  | _ => 0

theorem assignmentCount_eq_assigned (name : Text) (tokens : List Token) :
    Check.assignmentCount name tokens = assigned name (tokens.map spelling) := by
  induction tokens with
  | nil => rfl
  | cons t ts ih =>
      cases ts with
      | nil => rfl
      | cons u us =>
          cases us with
          | nil => rfl
          | cons v vs =>
              simp only [List.map_cons] at ih ⊢
              rw [Check.assignmentCount, assigned, ih]
              simp [spelling, isIdentifier]

theorem assigned_le_append (name : Text) (xs ys : List (TokenKind × Text)) :
    assigned name ys ≤ assigned name (xs ++ ys) := by
  induction xs with
  | nil => exact Nat.le_refl _
  | cons x xs ih =>
      refine Nat.le_trans ih ?_
      rw [List.cons_append]
      rcases xs ++ ys with _ | ⟨y, _ | ⟨z, zs⟩⟩
      · exact Nat.zero_le _
      · exact Nat.zero_le _
      · exact Nat.le_add_left ..

theorem assigned_le_flatMap {name : Text} {f : Token → List (TokenKind × Text)}
    (nonempty : ∀ t, f t ≠ [])
    (kept : ∀ t, spelling t = (.identifier, name) ∨ t.text = ['='] → f t = [spelling t])
    (tokens : List Token) :
    assigned name (tokens.map spelling) ≤ assigned name (tokens.flatMap f) := by
  induction tokens with
  | nil => exact Nat.zero_le _
  | cons t ts ih =>
      cases ts with
      | nil => exact Nat.zero_le _
      | cons u us =>
          cases us with
          | nil => exact Nat.zero_le _
          | cons v vs =>
              simp only [List.map_cons] at ih ⊢
              rw [assigned, List.flatMap_cons]
              split
              · next here =>
                  obtain ⟨z, zs, hz⟩ := List.exists_cons_of_ne_nil (nonempty v)
                  rw [List.flatMap_cons, List.flatMap_cons, kept u (.inr here.2), hz] at ih
                  rw [List.flatMap_cons, List.flatMap_cons, kept t (.inl here.1),
                    kept u (.inr here.2), hz]
                  simp only [List.cons_append, List.nil_append] at ih ⊢
                  rw [assigned, if_pos here]
                  omega
              · have later := assigned_le_append name (f t) ((u :: v :: vs).flatMap f)
                omega

theorem autoText_name {t : Token} (ident : t.isIdentifier = true) :
    autoText (Linter.standard o) source t =
      if o.modernizes then (Profile.standard.deprecation? t.text).map (·.replacement) else none :=
  autoText_identifier ident

theorem assignmentCount_fixed {t : Token} (ident : t.isIdentifier = true)
    (kept : autoText (Linter.standard o) source t = none) :
    Check.assignmentCount t.text (tokenize .standard source) ≤
      Check.assignmentCount t.text (tokenize .standard (fixed o source)) := by
  rw [assignmentCount_eq_assigned, assignmentCount_eq_assigned, map_spelling_fixed]
  refine assigned_le_flatMap rewritten_ne_nil (fun u hu => rewritten_of_none ?_) _
  cases hu with
  | inl same =>
      obtain ⟨kind, text⟩ := Prod.mk.inj same
      have ident' : u.isIdentifier = true := by rw [isIdentifier, kind]; rfl
      rw [autoText_name ident', text, ← autoText_name ident, kept]
  | inr equals =>
      cases hn : autoText (Linter.standard o) source u with
      | none => rfl
      | some n =>
          have letter := (renames_autoText o source).old u n hn '=' (by rw [equals]; rfl)
          exact absurd letter (by decide)

/-! The second run. -/

theorem deprecation?_fixed (on : o.modernizes = true)
    (lasting : ∀ t ∈ tokenize .standard source, isRandom t = false) {t' : Token}
    (ht' : t' ∈ tokenize .standard (fixed o source)) (ident : t'.isIdentifier = true) :
    Profile.standard.deprecation? t'.text = none := by
  have kind : t'.kind = .identifier := by simpa [isIdentifier] using ident
  have mem : spelling t' ∈ (tokenize .standard source).flatMap (rewritten o source) := by
    rw [← map_spelling_fixed]
    exact List.mem_map_of_mem ht'
  obtain ⟨t, ht, mem⟩ := List.mem_flatMap.mp mem
  cases kept : autoText (Linter.standard o) source t with
  | none =>
      rw [rewritten_of_none kept, List.mem_singleton] at mem
      obtain ⟨sameKind, text⟩ := Prod.mk.inj mem
      have ident' : t.isIdentifier = true := by rw [isIdentifier, ← sameKind]; exact ident
      rw [autoText_name ident', if_pos on, Option.map_eq_none_iff] at kept
      rw [text]
      exact kept
  | some n =>
      rw [rewritten_of_some kept] at mem
      refine (settled_of_replaces (replaces_of_standard kept)).lasting (lasting t ht) _ ?_
      rw [← kind]
      exact mem

theorem modernWording_fixed (on : o.isEnabled Rule.modernWording.id = true) (t' : Token) :
    Rule.modernWording.newText .standard o (tokenize .standard (fixed o source)) t' = none := by
  rw [Rule.newText]
  cases h : follower (tokenize .standard (fixed o source)) t' with
  | none => rfl
  | some u' =>
      rw [Option.bind_some, if_neg]
      intro var
      obtain ⟨t, u, var, kept, htu, -⟩ := follower_fixed var h
      have first : Rule.modernWording.newText .standard o (tokenize .standard source) t = none :=
        autoText_eq_none_iff.mp kept _ (mem_enabledRules.mpr on)
      rw [Rule.newText, htu, Option.bind_some, if_pos var] at first
      cases first

theorem constants_fixed (on : o.isEnabled Rule.constants.id = true) (t' : Token) :
    Rule.constants.newText .standard o (tokenize .standard (fixed o source)) t' = none := by
  rw [Rule.newText]
  cases h : follower (tokenize .standard (fixed o source)) t' with
  | none => rfl
  | some u' =>
      rw [Option.bind_some, if_neg]
      intro flagged
      simp only [Bool.and_eq_true, decide_eq_true_eq] at flagged
      obtain ⟨⟨var, ident⟩, few⟩ := flagged
      -- the name behind the `var` was there before, with no more assignments than now
      obtain ⟨t, u, var, kept, htu, head⟩ := follower_fixed var h
      have kind : u'.kind = .identifier := by simpa [isIdentifier] using ident
      obtain ⟨keptNext, same⟩ := of_head_rewritten (head.trans (by rw [spelling, kind]))
      obtain ⟨kindNext, text⟩ := Prod.mk.inj same
      have identNext : u.isIdentifier = true := by rw [isIdentifier, kindNext]; rfl
      have first : Rule.constants.newText .standard o (tokenize .standard source) t = none :=
        autoText_eq_none_iff.mp kept _ (mem_enabledRules.mpr on)
      have fewer := assignmentCount_fixed identNext keptNext
      rw [text] at fewer
      rw [Rule.newText, htu, Option.bind_some, if_pos] at first
      · cases first
      · rw [var, identNext, text, Bool.true_and, Bool.true_and, decide_eq_true_eq]
        exact Nat.le_trans fewer few

/-- After one run no rule has a text left, but for `random`. -/
theorem autoText_fixed
    (lasting : o.modernizes = true → ∀ t ∈ tokenize .standard source, isRandom t = false)
    {t' : Token} (ht' : t' ∈ tokenize .standard (fixed o source)) :
    autoText (Linter.standard o) (fixed o source) t' = none := by
  rw [autoText_eq_none_iff]
  intro r hr
  have on : o.isEnabled r.id = true := mem_enabledRules.mp hr
  cases r using Rule.cases_autoFixable with
  | others r auto => exact Rule.newText_of_not_autoFixable auto ..
  | deprecatedNames =>
      change Rule.deprecatedNames.newText .standard o _ t' = none
      rw [Rule.newText]
      split
      · rfl
      · next looked =>
          simp only [Bool.or_eq_true, Bool.not_eq_true', not_or, Bool.not_eq_true,
            Bool.not_eq_false] at looked
          have modern : o.modernizes = true := by rw [LintOptions.modernizes, on, looked.1]; rfl
          rw [deprecation?_fixed modern (lasting modern) ht' looked.2]
          rfl
  | modernWording => exact modernWording_fixed on t'
  | constants => exact constants_fixed on t'

/-! The name `random`. -/

theorem length_lt_flatMap {f : Token → List (TokenKind × Text)} (nonempty : ∀ t, f t ≠ [])
    {tokens : List Token} {t : Token} (ht : t ∈ tokens) (long : 1 < (f t).length) :
    tokens.length < (tokens.flatMap f).length := by
  have atLeast (ts : List Token) : ts.length ≤ (ts.flatMap f).length := by
    induction ts with
    | nil => exact Nat.le_refl _
    | cons u us ih =>
        have one := List.length_pos_iff.mpr (nonempty u)
        rw [List.flatMap_cons, List.length_append, List.length_cons]
        omega
  obtain ⟨before, after, rfl⟩ := List.append_of_mem ht
  have first := atLeast before
  have last := atLeast after
  simp only [List.flatMap_append, List.flatMap_cons, List.length_append, List.length_cons]
  omega

theorem rewritten_random (on : o.modernizes = true) {t : Token} (h : isRandom t = true) :
    rewritten o source t =
      [(.hostFunction, "Math".toList), (.punctuation, ['.']), (.identifier, "random".toList)] := by
  rw [isRandom, Bool.and_eq_true, beq_iff_eq] at h
  have new : autoText (Linter.standard o) source t = some "Math.random".toList := by
    rw [autoText_name h.1, if_pos on, h.2]
    rfl
  rw [rewritten_of_some new]
  decide +kernel

theorem random_fixed (on : o.modernizes = true) {t : Token} (ht : t ∈ tokenize .standard source)
    (h : isRandom t = true) : ∃ t' ∈ tokenize .standard (fixed o source), isRandom t' = true := by
  have mem : (TokenKind.identifier, "random".toList) ∈
      (tokenize .standard (fixed o source)).map spelling := by
    rw [map_spelling_fixed, List.mem_flatMap]
    refine ⟨t, ht, ?_⟩
    rw [rewritten_random on h]
    simp
  obtain ⟨t', ht', same⟩ := List.mem_map.mp mem
  obtain ⟨kind, text⟩ := Prod.mk.inj same
  refine ⟨t', ht', ?_⟩
  rw [isRandom, isIdentifier, kind, text]
  decide

/-- With `random` in it a text grows by every run. -/
theorem length_tokenize_fixed (on : o.modernizes = true) {t : Token}
    (ht : t ∈ tokenize .standard source) (h : isRandom t = true) :
    (tokenize .standard source).length < (tokenize .standard (fixed o source)).length := by
  have three : 1 < (rewritten o source t).length := by
    rw [rewritten_random on h]
    decide
  have longer := length_lt_flatMap rewritten_ne_nil ht three
  rwa [← map_spelling_fixed, List.length_map] at longer

/-- Fixing all a second time changes nothing, unless deprecated names are replaced and
`random` is one of the names. -/
theorem fixStep_all_idem_iff (o : LintOptions) (source : Text) :
    (Linter.standard o).fixStep ((Linter.standard o).fixStep source .all) .all =
        (Linter.standard o).fixStep source .all ↔
      ¬(o.modernizes = true ∧ ∃ t ∈ tokenize .standard source, isRandom t = true) := by
  change fixed o (fixed o source) = fixed o source ↔ _
  constructor
  · -- each run leaves a `random` and adds tokens in front of it
    rintro same ⟨on, t, ht, random⟩
    obtain ⟨t', ht', random'⟩ := random_fixed on ht random
    have longer := length_tokenize_fixed on ht' random'
    rw [same] at longer
    exact Nat.lt_irrefl _ longer
  · intro none
    rw [fixed_eq_patch o (fixed o source)]
    refine patch_eq_self (fun t n h => ((renames_autoText o _).fresh t n h).oneLine)
      fun t' ht' => ?_
    refine autoText_fixed (fun on t ht => ?_) ht'
    rw [← Bool.not_eq_true]
    exact fun random => none ⟨on, t, ht, random⟩

end MotionExpr
