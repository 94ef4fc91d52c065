import MotionExpr.Proofs.Format.GapRules

/-!
What becomes of the gap between a callee and its parenthesis. The callee is the last name of
a word: behind it stands the gap.
-/

namespace MotionExpr

open Text Literal

namespace Call

theorem isWordPart_of_continuesName {c : Char} (h : continuesName c = true) : isWordPart c = true := by
  simp only [continuesName, Bool.or_eq_true] at h
  simp only [isWordPart, Bool.or_eq_true]
  rcases h with h | h
  · exact .inl (.inl (.inl h))
  · exact .inl (.inr h)

theorem isWordPart_of_startsWord {c : Char} (h : Token.startsWord c = true) : isWordPart c = true :=
  isWordPart_of_continuesName (continuesName_of_startsWord h)

/-- The name at the end of a word. -/
def callee? : Text → Option Text
  | [] => none
  | c :: r => if Token.startsWord c && r.all continuesName then some (c :: r) else callee? r

def tightenGap : GapChange := fun a _ gap next =>
  match a, next with
  | .word t, some (.symbol '(') =>
      if (callee? t).any fun name => !keywords.contains name then [] else gap
  | _, _ => gap

theorem join_of_not_startsWord {c : Char} (h : Token.startsWord c = false) (passed r : Text) :
    join passed (c :: r) = none :=
  join_cons_eq_none_iff.mpr fun start => absurd start (by simp [h])

theorem not_startsWord_of_not_isWordPart {c : Char} (h : isWordPart c = false) :
    Token.startsWord c = false := by
  rw [← Bool.not_eq_true]
  intro hc
  rw [isWordPart_of_startsWord hc] at h
  cases h

theorem callee?_eq_some {t name : Text} (h : callee? t = some name) :
    ∃ u c r, t = u ++ c :: r ∧ name = c :: r ∧ Token.startsWord c = true ∧
      (∀ d ∈ r, continuesName d = true) ∧
      ∀ u' d v, u = u' ++ d :: v → ¬(Token.startsWord d = true ∧ ∀ e ∈ v ++ c :: r, continuesName e = true) := by
  induction t with
  | nil => cases h
  | cons c r ih =>
      rw [callee?] at h
      split at h
      · next hcond =>
          rw [Bool.and_eq_true, List.all_eq_true] at hcond
          refine ⟨[], c, r, rfl, (Option.some.inj h).symm, hcond.1, hcond.2, ?_⟩
          intro u' d v huv
          simp at huv
      · next hcond =>
          obtain ⟨u, d, s, rfl, hname, hd, hs, earlier⟩ := ih h
          refine ⟨c :: u, d, s, rfl, hname, hd, hs, ?_⟩
          intro u' e v huv
          cases u' with
          | nil =>
              obtain ⟨rfl, rfl⟩ := List.cons_eq_cons.mp huv
              rw [Bool.and_eq_true, List.all_eq_true] at hcond
              exact hcond
          | cons f u' => exact earlier u' e v (List.cons_eq_cons.mp huv).2

theorem callee?_eq_none {t : Text} (h : callee? t = none) :
    ∀ u d v, t = u ++ d :: v → ¬(Token.startsWord d = true ∧ ∀ e ∈ v, continuesName e = true) := by
  induction t with
  | nil =>
      intro u d v huv
      simp at huv
  | cons c r ih =>
      rw [callee?] at h
      split at h
      · cases h
      · next hcond =>
          rw [Bool.and_eq_true, List.all_eq_true] at hcond
          intro u d v huv
          cases u with
          | nil =>
              obtain ⟨rfl, rfl⟩ := List.cons_eq_cons.mp huv
              exact hcond
          | cons f u => exact ih h u d v (List.cons_eq_cons.mp huv).2

section Word

open Code

variable {x : Cell} {c : Code} (lexed : Lexed (x :: c)) (m : Nat)

include lexed

/-- The callee, the blanks, and the parenthesis are taken together. -/
theorem join_callee {passed v s : Text} {d : Char} (hd : Token.startsWord d = true)
    (hv : ∀ e ∈ v, continuesName e = true) (hgap : x.gap ≠ [])
    (hparen : masked m c = '(' :: s) :
    join passed (d :: v ++ (x.gap ++ masked m c)) =
      some ⟨(d :: v ++ x.gap ++ ['(']).length,
        if keywords.contains (d :: v) then d :: v ++ x.gap ++ ['('] else d :: v ++ ['(']⟩ := by
  have found := join_eq_some hd hv lexed.2.1.blank hgap passed s
  rw [hparen]
  simpa using found

variable {t : Text} (hx : x.atom = .word t)

include hx

/-- Behind a word no name goes on. -/
theorem stop_of_word : ∀ d s, x.gap ++ masked m c = d :: s → continuesName d = false := by
  intro d s hd
  rw [← Bool.not_eq_true]
  intro hname
  have hpart := isWordPart_of_continuesName hname
  rcases Operator.head_of_joint lexed (d := d) (by rw [hd]; rfl) with hblank | ⟨hgap, b, hb, hhead⟩
  · rw [isWordPart_of_isBlank (isBlank_of_isSpaceOrTab hblank)] at hpart
    cases hpart
  · have apart := lexed.2.1.apart b hb (.inl hgap)
    rw [hx] at apart
    have hword := Atom.isWord_of_head (fits_first? lexed.2.2 b hb) hhead hpart
    rw [apart.1] at hword
    cases hword

/-- Only the callee of a word is joined, and only with a parenthesis behind blanks. -/
theorem join_eq_none {passed u v : Text} {d : Char} (ht : t = u ++ d :: v)
    (h : ¬((Token.startsWord d = true ∧ ∀ e ∈ v, continuesName e = true) ∧ x.gap ≠ [] ∧
      first? c = some (.symbol '('))) :
    join passed (d :: (v ++ (x.gap ++ masked m c))) = none := by
  have parts : ∀ e ∈ v, isWordPart e = true := by
    have fits := lexed.1
    rw [hx] at fits
    exact fun e he => fits.2 e (ht ▸ List.mem_append_right u (List.mem_cons_of_mem d he))
  by_cases hd : Token.startsWord d = true
  · by_cases hv : ∀ e ∈ v, continuesName e = true
    · have stop := stop_of_word lexed m hx
      rw [join, if_pos hd, takeWhile_append_stop hv stop, dropWhile_append_stop hv stop]
      dsimp only
      rw [takeWhile_gap lexed.2.2 m lexed.2.1.blank, dropWhile_gap lexed.2.2 m lexed.2.1.blank]
      split
      · next b bs s hgap hparen =>
          refine absurd ⟨⟨hd, hv⟩, by simp [hgap], ?_⟩ h
          have head := head?_masked m lexed.2.2
          rw [hparen] at head
          obtain ⟨a, ha, hhead⟩ := Option.bind_eq_some_iff.mp head.symm
          rw [ha, Atom.eq_symbol_of_head (fits_first? lexed.2.2 a ha) hhead rfl (by decide)]
      · rfl
    · -- the name ends within the word
      obtain ⟨w, e, s, rfl, hw, he⟩ : ∃ w e s, v = w ++ e :: s ∧ (∀ f ∈ w, continuesName f = true) ∧
          continuesName e = false := by
        have parts := List.takeWhile_append_dropWhile (p := continuesName) (l := v)
        cases hs : v.dropWhile continuesName with
        | nil => exact absurd (List.dropWhile_eq_nil_iff.mp hs) hv
        | cons e s =>
            have stop := List.head?_dropWhile_not continuesName v
            rw [hs] at stop
            exact ⟨v.takeWhile continuesName, e, s, by rw [← hs, parts], 
              List.all_eq_true.mp List.all_takeWhile, by simpa using stop⟩
      have stop : ∀ f r, e :: (s ++ (x.gap ++ masked m c)) = f :: r → continuesName f = false := by
        intro f r heq
        rwa [← (List.cons_eq_cons.mp heq).1]
      have notBlank : isSpaceOrTab e = false :=
        isSpaceOrTab_of_isWordPart (parts e (List.mem_append_right w (List.mem_cons_self ..)))
      rw [join, if_pos hd, List.append_assoc, List.cons_append, takeWhile_append_stop hw stop,
        dropWhile_append_stop hw stop]
      dsimp only
      rw [List.takeWhile_cons_of_neg (by simp [notBlank])]
  · exact join_of_not_startsWord (eq_false_of_ne_true hd) passed _

end Word

theorem join_in_gap {gap : Text} (blank : ∀ d ∈ gap, isSpaceOrTab d = true) (passed rest : Text) :
    ∀ u d v, gap = u ++ d :: v → join (u.reverse ++ passed) (d :: (v ++ rest)) = none := by
  intro u d v huv
  apply join_of_not_startsWord
  apply not_startsWord_of_not_isWordPart
  apply isWordPart_of_isBlank
  exact isBlank_of_isSpaceOrTab (blank d (huv ▸ List.mem_append_right u (List.mem_cons_self ..)))

section Steps

open Code

variable {x : Cell} {c : Code} (lexed : Lexed (x :: c)) (n : Nat) {passed gap : Text}
  (blank : ∀ d ∈ gap, isSpaceOrTab d = true)

include lexed blank

theorem passes_other (hword : x.atom.isWord = false) : Passes join passed gap n x c := by
  apply respacingRule.passes
  · intro u d v huv
    exact join_in_gap blank passed _ u d v huv
  · intro u d v rest huv hliteral _
    apply join_of_not_startsWord
    apply not_startsWord_of_not_isWordPart
    rw [← Bool.not_eq_true]
    intro hpart
    have inside : d ∈ x.atom.text := huv ▸ List.mem_append_right u (List.mem_cons_self ..)
    rw [Atom.isWord_of_mem_text lexed.1 hliteral inside hpart] at hword
    cases hword

theorem passes_word {t : Text} (hx : x.atom = .word t)
    (h : (callee? t).isSome → x.gap ≠ [] → first? c ≠ some (.symbol '(')) :
    Passes join passed gap n x c := by
  apply respacingRule.passes
  · intro u d v huv
    exact join_in_gap blank passed _ u d v huv
  · intro u d v rest huv _ hrest
    rw [hx] at huv
    rw [hrest]
    apply join_eq_none lexed _ hx huv
    rintro ⟨hname, hgap, hparen⟩
    refine h ?_ hgap hparen
    rw [Option.isSome_iff_ne_none]
    exact fun hnone => callee?_eq_none hnone u d v huv hname

theorem substituteFrom_callee {t name : Text} (hx : x.atom = .word t) (hname : callee? t = some name)
    (hgap : x.gap ≠ []) (hparen : first? c = some (.symbol '(')) :
    substituteFrom join passed 0 (gap ++ masked n (x :: c)) =
      gap ++ (t ++ ((if keywords.contains name then x.gap else []) ++
        substituteFrom join (x.gap.reverse ++ (t.reverse ++ (gap.reverse ++ passed))) 0
          (masked n c))) := by
  have code : masked n (x :: c) = t ++ (x.gap ++ masked n c) := by
    rw [masked_cons, hx, Atom.pieces, numbered_map_code, literals_map_code]
    rfl
  obtain ⟨s, hs⟩ : ∃ s, masked n c = '(' :: s := by
    have head := head?_masked n lexed.2.2
    rw [hparen] at head
    exact List.head?_eq_some_iff.mp head
  obtain ⟨u, d, v, rfl, rfl, hd, hv, earlier⟩ := callee?_eq_some hname
  have found (passed : Text) := @join_callee _ _ lexed n passed _ _ _ hd hv hgap hs
  rw [code, substituteFrom_pass passed _ (join_in_gap blank passed _), List.append_assoc,
    substituteFrom_pass]
  · have whole : d :: v ++ (x.gap ++ masked n c) = (d :: v ++ x.gap ++ ['(']) ++ s := by
      rw [hs]
      simp
    have paren (passed : Text) : join passed ('(' :: s) = none :=
      join_of_not_startsWord (by decide) passed s
    rw [whole] at found ⊢
    rw [substituteFrom_found (found _) rfl (by simp), hs, substituteFrom_of_none (paren _)]
    dsimp only
    split <;> simp
  · intro u' e w huv
    have inside : u ++ d :: v = u' ++ e :: (w ++ d :: v) := by rw [huv, List.append_assoc]; rfl
    have none := @join_eq_none _ _ lexed n _ hx (u'.reverse ++ (gap.reverse ++ passed)) _ _ _ inside
      fun h => earlier u' e w huv h.1
    rwa [List.append_assoc] at none

end Steps

/-- Whether a callee stands in front of the gap and a parenthesis behind it. -/
def IsCall (a : Atom) (next : Option Atom) (name : Text) : Prop :=
  (∃ t, a = .word t ∧ callee? t = some name) ∧ next = some (.symbol '(')

theorem tightenGap_call {a : Atom} {next : Option Atom} {name : Text} (h : IsCall a next name)
    (before : List Atom) (gap : Text) :
    tightenGap a before gap next = if keywords.contains name then gap else [] := by
  obtain ⟨⟨t, rfl, hname⟩, rfl⟩ := h
  rw [tightenGap, hname, Option.any_some]
  cases keywords.contains name <;> rfl

theorem tightenGap_other {a : Atom} {next : Option Atom} (h : ∀ name, ¬IsCall a next name)
    (before : List Atom) (gap : Text) : tightenGap a before gap next = gap := by
  unfold tightenGap
  split
  · next t =>
      cases hname : callee? t with
      | none => rfl
      | some name => exact absurd ⟨⟨t, rfl, hname⟩, rfl⟩ (h name)
  · rfl

theorem scans_join :
    Code.Scans (fun _ passed t => substituteFrom join passed 0 t) (fun _ gap _ => gap) tightenGap
      fun _ _ => True where
  stop {before passed gap} _ blank := substituteFrom_stop passed fun u d v huv => by
    have here := join_in_gap blank passed [] u d v huv
    rwa [List.append_nil] at here
  step {before passed gap x c} n _ blank meets lexed := by
    by_cases call : x.gap ≠ [] ∧ ∃ name, IsCall x.atom (Code.first? c) name
    · obtain ⟨hgap, name, call⟩ := call
      obtain ⟨⟨t, hx, hname⟩, hparen⟩ := call
      have masked_word : numbered n x.atom.pieces = t := by
        rw [hx]
        exact numbered_map_code n t
      have noLiterals : n + (literals x.atom.pieces).length = n := by
        rw [hx, Atom.pieces, literals_map_code]
        rfl
      refine ⟨if keywords.contains name then x.gap else [], [], x.gap.reverse ++
        ((numbered n x.atom.pieces).reverse ++ (gap.reverse ++ passed)), trivial,
        List.forall_mem_nil _, rfl, ?_, ?_⟩
      · rw [tightenGap_call ⟨⟨t, hx, hname⟩, hparen⟩, List.append_nil]
      · rw [masked_word, noLiterals]
        exact substituteFrom_callee lexed n blank hx hname hgap hparen
    · refine ⟨[], x.gap, _, trivial, lexed.2.1.blank, rfl, ?_, ?_⟩
      · by_cases hgap : x.gap = []
        · rw [hgap, List.nil_append]
          by_cases named : ∃ name, IsCall x.atom (Code.first? c) name
          · obtain ⟨name, named⟩ := named
            rw [tightenGap_call named, ite_self]
          · exact tightenGap_other (not_exists.mp named) before []
        · exact tightenGap_other (fun name h => call ⟨hgap, name, h⟩) before x.gap
      · cases hword : x.atom.isWord with
        | false => exact passes_other lexed n blank hword
        | true =>
            cases hx : x.atom with
            | word t =>
                have pass : Passes join passed gap n x c := by
                  apply passes_word lexed n blank hx
                  intro hsome hgap hparen
                  obtain ⟨name, hname⟩ := Option.isSome_iff_exists.mp hsome
                  exact call ⟨hgap, name, ⟨t, hx, hname⟩, hparen⟩
                rw [← hx]
                exact pass
            | _ => rw [hx] at hword; cases hword

theorem keepsApart_tighten : Code.KeepsApart tightenGap := by
  intro a before gap next fits hnext joint
  by_cases call : ∃ name, IsCall a next name
  · obtain ⟨name, call⟩ := call
    rw [tightenGap_call call]
    split
    · exact joint
    · obtain ⟨⟨t, rfl, -⟩, rfl⟩ := call
      apply joint.change (List.forall_mem_nil _)
      · rintro (h | h | ⟨b, hb, h⟩)
        · cases h
        · cases h
        · rw [← Option.some.inj hb] at h
          cases h
      · intro b hb _ _
        obtain rfl := Option.some.inj hb
        exact .inr (Atom.apart_symbol fits (by decide) rfl)
  · rw [tightenGap_other (not_exists.mp call)]
    exact joint

theorem acts_tighten : Code.Acts tighten tightenGap :=
  scans_join.acts trivial fun hgap => hgap

end Call
end MotionExpr
