import MotionExpr.Proofs.Text.Characters
import MotionExpr.Proofs.Text.Substitution
import MotionExpr.Proofs.Format.Masking
import MotionExpr.Format.Line

/-!
Respacing: a transform of masked code that moves blanks and nothing else. Its
result is masked code again, of pieces that differ from the given ones by blanks
between them, so no placeholder is cut and every literal comes back. A rule of a
substitution respaces if what it consumes holds no mark and is no mere run of
digits, as only such a run can lie within a placeholder.
-/

namespace MotionExpr

namespace Literal

def Piece.isGap : Piece → Bool
  | code c => Text.isBlank c
  | literal _ => false

/-- The pieces without the blanks between them. -/
def solid (ps : List Piece) : List Piece := ps.filter fun p => !p.isGap

theorem solid_append (ps qs : List Piece) : solid (ps ++ qs) = solid ps ++ solid qs :=
  List.filter_append ..

theorem literals_solid (ps : List Piece) : literals (solid ps) = literals ps := by
  induction ps with
  | nil => rfl
  | cons p ps ih =>
      rw [← List.singleton_append, solid_append]
      cases p with
      | literal t => simpa [solid, Piece.isGap, literals] using ih
      | code c => cases hc : Text.isBlank c <;> simpa [solid, Piece.isGap, hc, literals] using ih

theorem unmarked_of_solid_eq {ps qs : List Piece} (h : solid qs = solid ps) (hps : Unmarked ps) :
    Unmarked qs := by
  have through (rs : List Piece) : Piece.code mark ∈ solid rs ↔ Piece.code mark ∈ rs := by
    rw [solid, List.mem_filter]
    exact and_iff_left (by decide)
  intro hm
  exact hps ((through ps).mp (h ▸ (through qs).mpr hm))

theorem filter_isInk_flatMap_text (ps : List Piece) :
    (ps.flatMap Piece.text).filter Text.isInk =
      (solid ps).flatMap fun p => p.text.filter Text.isInk := by
  induction ps with
  | nil => rfl
  | cons p ps ih =>
      rw [List.flatMap_cons, List.filter_append, ih, ← List.singleton_append, solid_append,
        List.flatMap_append]
      congr 1
      cases p with
      | literal t => simp [solid, Piece.isGap]
      | code c => cases hc : Text.isBlank c <;> simp [solid, Piece.isGap, Piece.text, Text.isInk, hc]

theorem solid_map_code (t : Text) :
    solid (t.map Piece.code) = (t.filter Text.isInk).map Piece.code :=
  List.filter_map ..

/-- The transform moves no more than the blanks of masked code. -/
def Respaces (f : Text → Text) : Prop :=
  ∀ n ps, Unmarked ps → ∃ qs, f (numbered n ps) = numbered n qs ∧ solid qs = solid ps

theorem Respaces.comp {f g : Text → Text} (hf : Respaces f) (hg : Respaces g) :
    Respaces fun t => f (g t) := by
  intro n ps hps
  obtain ⟨qs, hq, sq⟩ := hg n ps hps
  obtain ⟨rs, hr, sr⟩ := hf n qs (unmarked_of_solid_eq sq hps)
  exact ⟨rs, (congrArg f hq).trans hr, sr.trans sq⟩

theorem numbered_eq_nil {n : Nat} {ps : List Piece} (h : numbered n ps = []) : ps = [] := by
  cases ps with
  | nil => rfl
  | cons q ps => cases q <;> simp [numbered, placeholder] at h

/-- Text in front that holds no mark is code. -/
theorem of_numbered_eq_append {n : Nat} {ps : List Piece} {found rest : Text}
    (h : numbered n ps = found ++ rest) (hm : mark ∉ found) :
    ∃ qs, ps = found.map Piece.code ++ qs ∧ rest = numbered n qs := by
  induction found generalizing ps with
  | nil => exact ⟨ps, rfl, h.symm⟩
  | cons c r ih =>
      cases ps with
      | nil => cases h
      | cons p ps =>
          cases p with
          | literal t =>
              have hc : mark = c := (List.cons_eq_cons.mp h).1
              exact absurd (hc ▸ List.mem_cons_self ..) hm
          | code d =>
              obtain ⟨rfl, htail⟩ := List.cons_eq_cons.mp h
              obtain ⟨qs, rfl, hrest⟩ := ih htail fun hr => hm (List.mem_cons_of_mem _ hr)
              exact ⟨qs, rfl, hrest⟩

/-! Rules of a substitution. -/

/-- What a respacing rule consumes, and what it puts there. -/
structure Respaced (found text : Text) : Prop where
  unmarked : mark ∉ found
  notNumeral : ∃ c ∈ found, Text.isDigit c = false
  sameInk : text.filter Text.isInk = found.filter Text.isInk

def RespacingRule (rule : Text.Rule) : Prop :=
  ∀ passed ahead m, rule passed ahead = some m →
    ∃ found rest, ahead = found ++ rest ∧ found.length = m.consumed ∧ Respaced found m.text

end Literal

theorem Text.Rule.Finds.respacingRule {rule : Text.Rule}
    {Found : (passed found rest text : Text) → Prop} (finds : rule.Finds Found)
    (respaced : ∀ passed found rest text, Found passed found rest text →
      Literal.Respaced found text) : Literal.RespacingRule rule := by
  intro passed ahead m h
  obtain ⟨found, rest, happ, hlen, -, described⟩ := finds passed ahead m h
  exact ⟨found, rest, happ, hlen, respaced _ _ _ _ described⟩

namespace Literal

theorem RespacingRule.none_in_placeholder {rule : Text.Rule} (hr : RespacingRule rule)
    {digits : Text} (hd : ∀ c ∈ digits, Text.isDigit c = true) (passed r : Text) :
    rule passed (digits ++ mark :: r) = none := by
  cases hm : rule passed (digits ++ mark :: r) with
  | none => rfl
  | some m =>
      obtain ⟨found, rest, happ, -, unmarked, ⟨c, hc, hcd⟩, -⟩ := hr _ _ _ hm
      have inside : ∃ more, digits = found ++ more := by
        rcases List.append_eq_append_iff.mp happ with ⟨more, rfl, hmore⟩ | ⟨more, rfl, -⟩
        · cases more with
          | nil => exact ⟨[], by simp⟩
          | cons d ds =>
              have hmark : mark = d := (List.cons_eq_cons.mp hmore).1
              exact absurd (by simp [hmark]) unmarked
        · exact ⟨more, rfl⟩
      obtain ⟨more, rfl⟩ := inside
      rw [hd c (List.mem_append_left _ hc)] at hcd
      cases hcd

theorem substituteFrom_digits {rule : Text.Rule} (hr : RespacingRule rule)
    {digits : Text} (hd : ∀ c ∈ digits, Text.isDigit c = true) (passed r : Text) :
    Text.substituteFrom rule passed 0 (digits ++ mark :: r) =
      digits ++ mark :: Text.substituteFrom rule (mark :: (digits.reverse ++ passed)) 0 r := by
  induction digits generalizing passed with
  | nil => exact Text.substituteFrom_of_none (hr.none_in_placeholder hd passed r)
  | cons d ds ih =>
      have hds : ∀ c ∈ ds, Text.isDigit c = true := fun c hc => hd c (List.mem_cons_of_mem _ hc)
      have here : rule passed (d :: (ds ++ mark :: r)) = none := hr.none_in_placeholder hd passed r
      rw [List.cons_append, Text.substituteFrom_of_none here, ih hds]
      simp

theorem substituteFrom_placeholder {rule : Text.Rule} (hr : RespacingRule rule) (n : Nat)
    (passed r : Text) :
    Text.substituteFrom rule passed 0 (placeholder n ++ r) =
      placeholder n ++ Text.substituteFrom rule ((placeholder n).reverse ++ passed) 0 r := by
  have first : rule passed (mark :: (Text.ofNat n ++ mark :: r)) = none :=
    hr.none_in_placeholder (List.forall_mem_nil _) passed _
  have digits : ∀ c ∈ Text.ofNat n, Text.isDigit c = true := fun c => Text.isDigit_of_mem_ofNat
  simp only [placeholder, List.cons_append, List.append_assoc, List.nil_append]
  rw [Text.substituteFrom_of_none first, substituteFrom_digits hr digits]
  simp

end Literal

/-- A relation of pieces that holds along what a rule passes and along what it replaces holds
between masked code and the result. -/
theorem Text.Rule.Finds.relates {rule : Text.Rule} {Found : (passed found rest text : Text) → Prop}
    (finds : rule.Finds Found)
    (respaced : ∀ passed found rest text, Found passed found rest text →
      Literal.Respaced found text)
    {R : List Literal.Piece → List Literal.Piece → Prop} (nil : R [] [])
    (cons : ∀ p ps qs, R ps qs → R (p :: ps) (p :: qs))
    (replace : ∀ passed found rest text ps qs, Found passed found rest text → R ps qs →
      R (found.map .code ++ ps) (text.map .code ++ qs)) (n : Nat) (ps : List Literal.Piece)
    (passed : Text) :
    ∃ qs, Text.substituteFrom rule passed 0 (Literal.numbered n ps) = Literal.numbered n qs ∧
      R ps qs := by
  have hr := finds.respacingRule respaced
  induction hk : ps.length using Nat.strongRecOn generalizing n ps passed with
  | ind k ih =>
  cases ps with
  | nil => exact ⟨[], rfl, nil⟩
  | cons p ps =>
      cases p with
      | literal t =>
          obtain ⟨qs, hq, related⟩ := ih ps.length (by simp [← hk]) (n + 1) ps
            ((Literal.placeholder n).reverse ++ passed) rfl
          refine ⟨.literal t :: qs, ?_, cons _ ps qs related⟩
          simp only [Literal.numbered, Literal.substituteFrom_placeholder hr, hq]
      | code c =>
          cases hm : rule passed (Literal.numbered n (.code c :: ps)) with
          | none =>
              obtain ⟨qs, hq, related⟩ := ih ps.length (by simp [← hk]) n ps (c :: passed) rfl
              refine ⟨.code c :: qs, ?_, cons _ ps qs related⟩
              simp only [Literal.numbered] at hm ⊢
              rw [Text.substituteFrom_of_none hm, hq]
          | some m =>
              obtain ⟨found, rest, happ, hlen, hne, described⟩ := finds _ _ _ hm
              obtain ⟨tail, hps, rfl⟩ := Literal.of_numbered_eq_append happ
                (respaced _ _ _ _ described).unmarked
              have shorter : tail.length < k := by
                have hpos := List.length_pos_iff.mpr hne
                rw [← hk, hps, List.length_append, List.length_map]
                omega
              obtain ⟨qs, hq, related⟩ := ih tail.length shorter n tail (found.reverse ++ passed) rfl
              refine ⟨m.text.map Literal.Piece.code ++ qs, ?_, ?_⟩
              · rw [happ] at hm ⊢
                rw [Text.substituteFrom_found hm hlen hne, hq, Literal.numbered_map_code_append]
              · rw [hps]
                exact replace _ _ _ _ tail qs described related

namespace Literal

theorem RespacingRule.respaces {rule : Text.Rule} (hr : RespacingRule rule) :
    Respaces (Text.substitute rule) := by
  have finds : rule.Finds fun _ found _ text => Respaced found text := by
    intro passed ahead m h
    obtain ⟨found, rest, happ, hlen, respaced⟩ := hr passed ahead m h
    obtain ⟨d, hd, -⟩ := respaced.notNumeral
    exact ⟨found, rest, happ, hlen, List.ne_nil_of_mem hd, respaced⟩
  refine fun n ps _ => finds.relates (fun _ _ _ _ h => h) (R := fun ps qs => solid qs = solid ps)
    rfl (fun p ps qs h => ?_) (fun _ found _ text ps qs respaced h => ?_) n ps []
  · rw [← List.singleton_append, solid_append, h, ← solid_append, List.singleton_append]
  · rw [solid_append, solid_append, h, solid_map_code, solid_map_code, respaced.sameInk]

end Literal
end MotionExpr
