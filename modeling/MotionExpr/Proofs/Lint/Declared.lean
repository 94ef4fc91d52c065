import MotionExpr.Lint.Engine

/-!
Which names are declared. A name is declared by the first identifier behind a declarator, if
both stand in one line; what other tokens are between them does not matter. So the names stay
declared where tokens change, as long as declarators and the identifiers behind them do not.
-/

namespace MotionExpr
namespace Declaration

open Token

theorem firstIdentifier?_eq_some_iff {line : Int} {ts : List Token} {u : Token} :
    firstIdentifier? line ts = some u ↔ ∃ between after, ts = between ++ u :: after ∧
      (∀ v ∈ between, v.line = line ∧ v.isIdentifier = false) ∧
      u.line = line ∧ u.isIdentifier = true := by
  induction ts with
  | nil =>
      refine iff_of_false (fun h => by cases h) ?_
      rintro ⟨between, after, whole, -⟩
      exact List.append_ne_nil_of_right_ne_nil between (List.cons_ne_nil u after) whole.symm
  | cons t ts ih =>
      rw [firstIdentifier?]
      constructor
      · intro h
        split at h
        · cases h
        · next here =>
            rw [Decidable.not_not] at here
            split at h
            · next ident =>
                cases h
                exact ⟨[], ts, rfl, fun _ hv => absurd hv List.not_mem_nil, here, ident⟩
            · next other =>
                obtain ⟨between, after, rfl, passed, found⟩ := ih.mp h
                refine ⟨t :: between, after, rfl, fun v hv => ?_, found⟩
                rcases List.mem_cons.mp hv with rfl | hv
                · exact ⟨here, Bool.eq_false_iff.mpr other⟩
                · exact passed v hv
      · rintro ⟨between, after, whole, passed, line, ident⟩
        cases between with
        | nil =>
            obtain ⟨rfl, rfl⟩ := List.cons_eq_cons.mp whole
            rw [if_neg (Decidable.not_not.mpr line), if_pos ident]
        | cons v between =>
            obtain ⟨rfl, rfl⟩ := List.cons_eq_cons.mp whole
            obtain ⟨here, other⟩ := passed t (List.mem_cons_self ..)
            rw [if_neg (Decidable.not_not.mpr here), if_neg (Bool.eq_false_iff.mp other)]
            exact ih.mpr ⟨between, after, rfl, fun v hv => passed v (List.mem_cons_of_mem _ hv),
              line, ident⟩

theorem mem_declaredAfter_iff {ts : List Token} {u : Token} :
    u ∈ declaredAfter ts ↔ ∃ before d rest, ts = before ++ d :: rest ∧ d.declares = true ∧
      firstIdentifier? d.line rest = some u := by
  induction ts with
  | nil =>
      refine iff_of_false List.not_mem_nil ?_
      rintro ⟨before, d, rest, whole, -⟩
      exact List.append_ne_nil_of_right_ne_nil before (List.cons_ne_nil d rest) whole.symm
  | cons t ts ih =>
      rw [declaredAfter]
      constructor
      · intro h
        have later (hu : u ∈ declaredAfter ts) : ∃ before d rest, t :: ts = before ++ d :: rest ∧
            d.declares = true ∧ firstIdentifier? d.line rest = some u := by
          obtain ⟨before, d, rest, rfl, found⟩ := ih.mp hu
          exact ⟨t :: before, d, rest, rfl, found⟩
        split at h
        · next declares =>
            rcases List.mem_append.mp h with here | hu
            · exact ⟨[], t, ts, rfl, declares, Option.mem_toList.mp here⟩
            · exact later hu
        · exact later h
      · rintro ⟨before, d, rest, whole, declares, found⟩
        cases before with
        | nil =>
            obtain ⟨rfl, rfl⟩ := List.cons_eq_cons.mp whole
            rw [if_pos declares]
            exact List.mem_append_left _ (Option.mem_toList.mpr found)
        | cons v before =>
            obtain ⟨rfl, rfl⟩ := List.cons_eq_cons.mp whole
            have later := ih.mpr ⟨before, d, rest, rfl, declares, found⟩
            split
            · exact List.mem_append_right _ later
            · exact later

/-- Names are declared by identifiers of the text. -/
theorem of_mem_declaredAfter {ts : List Token} {u : Token} (h : u ∈ declaredAfter ts) :
    u ∈ ts ∧ u.isIdentifier = true := by
  obtain ⟨before, d, rest, rfl, -, found⟩ := mem_declaredAfter_iff.mp h
  obtain ⟨between, after, rfl, -, -, ident⟩ := firstIdentifier?_eq_some_iff.mp found
  exact ⟨by simp, ident⟩

theorem map_text_keepFirst (ts : List Token) :
    (keepFirst ts).map (·.text) = Profile.distinct (ts.map (·.text)) := by
  induction ts with
  | nil => rfl
  | cons t ts ih =>
      have others : ((keepFirst ts).filter fun u => u.text ≠ t.text).map (·.text) =
          ((keepFirst ts).map (·.text)).filter (· ≠ t.text) := by
        rw [List.filter_map]
        rfl
      rw [keepFirst, List.map_cons, List.map_cons, Profile.distinct, others, ih]

/-! Tokens that change in their places. -/

section Map

variable {g : Token → Token} {t : Token} {ts : List Token}
  (lines : ∀ u, (g u).line = u.line)
  (kept : ∀ u, u ≠ t → (g u).isIdentifier = u.isIdentifier) (ident : t.isIdentifier = true)

include lines kept ident

theorem firstIdentifier?_map {line : Int} (h : firstIdentifier? line ts ≠ some t) :
    firstIdentifier? line (ts.map g) = (firstIdentifier? line ts).map g := by
  induction ts with
  | nil => rfl
  | cons u ts ih =>
      simp only [List.map_cons, firstIdentifier?, lines] at h ⊢
      split
      · rfl
      · next here =>
          rw [if_neg here] at h
          by_cases same : u = t
          · exact absurd (same ▸ if_pos (same ▸ ident)) h
          · rw [kept u same]
            split
            · rfl
            · next other =>
                rw [if_neg other] at h
                exact ih h

/-- One identifier may become something else, if it declares nothing. -/
theorem declaredAfter_map (declarators : ∀ u, (g u).declares = u.declares)
    (h : t ∉ declaredAfter ts) : declaredAfter (ts.map g) = (declaredAfter ts).map g := by
  induction ts with
  | nil => rfl
  | cons u ts ih =>
      rw [List.map_cons, declaredAfter, declaredAfter, declarators, lines]
      rw [declaredAfter] at h
      split
      · next declares =>
          rw [if_pos declares, List.mem_append, not_or, Option.mem_toList] at h
          rw [firstIdentifier?_map lines kept ident h.1, ih h.2, List.map_append]
          cases firstIdentifier? u.line ts <;> rfl
      · next other =>
          rw [if_neg other] at h
          exact ih h

end Map

end Declaration

/-- A defined name is declared in the text or built in. -/
theorem Check.contains_definedNames {p : Profile} {tokens : List Token} {name : Text} :
    (definedNames p tokens).contains name = true ↔
      name ∈ (Declaration.declaredAfter tokens).map (·.text) ∨ name ∈ p.builtins := by
  rw [List.contains_iff_mem, definedNames, Profile.mem_distinct, List.mem_append, Declaration.onLine,
    Declaration.map_text_keepFirst, Profile.mem_distinct]

/-- The defined names depend on the texts of the declared ones only. -/
theorem Check.definedNames_congr {p : Profile} {ts us : List Token}
    (same : (Declaration.declaredAfter ts).map (·.text) = (Declaration.declaredAfter us).map (·.text)) :
    definedNames p ts = definedNames p us := by
  simp only [definedNames, Declaration.onLine, Declaration.map_text_keepFirst, same]

end MotionExpr
