import MotionExpr.Format.Literal

/-!
Numbered placeholders name their literals: restoring undoes numbering, for every
list of pieces whose code holds no mark. Whether the pieces are those of the code
that was masked does not matter, so code may be changed in between.
-/

namespace MotionExpr
namespace Text

theorem isAsciiDigit_of_isDigit {c : Char} (h : c.isDigit = true) : isAsciiDigit c = true := by
  simpa [isAsciiDigit, Char.isDigit, Char.le_def] using h

theorem isAsciiDigit_of_mem_ofNat {n : Nat} {c : Char} (h : c ∈ ofNat n) : isAsciiDigit c = true :=
  isAsciiDigit_of_isDigit (Nat.isDigit_of_mem_toDigits (by decide) (by decide) h)

theorem digitValue?_of_isAsciiDigit {c : Char} (h : isAsciiDigit c = true) :
    digitValue? c = some (c.toNat - 0x30) := by
  simp [digitValue?, h]

theorem isDigit_of_isAsciiDigit {c : Char} (h : isAsciiDigit c = true) : isDigit c = true := by
  simp [isDigit, digitValue?_of_isAsciiDigit h]

theorem isDigit_of_mem_ofNat {n : Nat} {c : Char} (h : c ∈ ofNat n) : isDigit c = true :=
  isDigit_of_isAsciiDigit (isAsciiDigit_of_mem_ofNat h)

/-- On plain digits the value is the one that the digits of a number are read with. -/
theorem numeralValue_eq {digits : Text} (h : ∀ c ∈ digits, isAsciiDigit c = true) :
    numeralValue digits = Nat.ofDigitChars 10 digits 0 := by
  suffices step : ∀ (n : Nat), digits.foldl (fun n c => 10 * n + (digitValue? c).getD 0) n =
      Nat.ofDigitChars 10 digits n from step 0
  induction digits with
  | nil => intro n; rfl
  | cons c r ih =>
      intro n
      have hc := digitValue?_of_isAsciiDigit (h c (List.mem_cons_self ..))
      rw [List.foldl_cons, hc, ih (fun d hd => h d (List.mem_cons_of_mem _ hd)),
        Nat.ofDigitChars_cons]
      rfl

theorem numeralValue_ofNat (n : Nat) : numeralValue (ofNat n) = n := by
  rw [numeralValue_eq fun c hc => isAsciiDigit_of_mem_ofNat hc]
  exact Nat.ofDigitChars_ten_toDigits

theorem ofNat_ne_nil (n : Nat) : ofNat n ≠ [] := Nat.toDigits_ne_nil

theorem length_ofNat_mono {m n : Nat} (h : m ≤ n) : (ofNat m).length ≤ (ofNat n).length := by
  have hpos : 0 < (ofNat n).length := List.length_pos_iff.mpr (ofNat_ne_nil n)
  have hn : n < 10 ^ (ofNat n).length :=
    (Nat.length_toDigits_le_iff (by decide) hpos).mp (Nat.le_refl _)
  exact (Nat.length_toDigits_le_iff (by decide) hpos).mpr (Nat.lt_of_le_of_lt h hn)

end Text

namespace Literal

theorem isDigit_mark : Text.isDigit mark = false := by decide

theorem takeWhile_digits {digits : Text} (h : ∀ c ∈ digits, Text.isDigit c = true) (r : Text) :
    (digits ++ mark :: r).takeWhile Text.isDigit = digits := by
  rw [List.takeWhile_append_of_pos h, List.takeWhile_cons_of_neg (by simp [isDigit_mark]),
    List.append_nil]

theorem dropWhile_digits {digits : Text} (h : ∀ c ∈ digits, Text.isDigit c = true) (r : Text) :
    (digits ++ mark :: r).dropWhile Text.isDigit = mark :: r := by
  rw [List.dropWhile_append_of_pos h, List.dropWhile_cons_of_neg (by simp [isDigit_mark])]

theorem numeral?_ofNat (n : Nat) (r : Text) :
    numeral? (Text.ofNat n ++ mark :: r) = some (Text.ofNat n) := by
  have digits : ∀ c ∈ Text.ofNat n, Text.isDigit c = true := fun c => Text.isDigit_of_mem_ofNat
  obtain ⟨d, ds, hd⟩ := List.exists_cons_of_ne_nil (Text.ofNat_ne_nil n)
  rw [numeral?, takeWhile_digits digits, dropWhile_digits digits, hd]
  simp

theorem lookUp_ofNat {ls : List Text} {n : Nat} {t : Text} (h : ls[n]? = some t) :
    lookUp ls (Text.ofNat n) = .ok t := by
  have hn : n < ls.length := (List.getElem?_eq_some_iff.mp h).1
  have short := Text.length_ofNat_mono (Nat.le_of_lt hn)
  have readable :
      ¬ max Text.maxNumeral (Text.ofNat ls.length).length < (Text.ofNat n).length := by
    omega
  simp only [lookUp, readable, ite_false, Text.numeralValue_ofNat, h]

theorem restoreFrom_placeholder {ls : List Text} {n : Nat} {t : Text} (h : ls[n]? = some t)
    (r : Text) :
    restoreFrom ls 0 (placeholder n ++ r) = (restoreFrom ls 0 r).map (t ++ ·) := by
  have skipped : restoreFrom ls ((Text.ofNat n).length + 1) (Text.ofNat n ++ mark :: r) =
      restoreFrom ls 0 r := by
    rw [restoreFrom_skip]
    simp
  simp only [placeholder, List.cons_append, List.append_assoc, List.nil_append, restoreFrom,
    ite_true, numeral?_ofNat, lookUp_ofNat h, skipped]
  cases restoreFrom ls 0 r <;> rfl

theorem restoreFrom_code {ls : List Text} {c : Char} (h : c ≠ mark) (r : Text) :
    restoreFrom ls 0 (c :: r) = (restoreFrom ls 0 r).map (c :: ·) := by
  simp only [restoreFrom, h, ite_false]
  cases restoreFrom ls 0 r <;> rfl

/-! Pieces put together, and plain code among them. -/

theorem numbered_append (n : Nat) (ps qs : List Piece) :
    numbered n (ps ++ qs) = numbered n ps ++ numbered (n + (literals ps).length) qs := by
  induction ps generalizing n with
  | nil => rfl
  | cons p ps ih =>
      cases p with
      | code c => simp [numbered, literals, ih]
      | literal t => simp [numbered, literals, ih, Nat.add_assoc, Nat.add_comm 1]

theorem literals_append (ps qs : List Piece) :
    literals (ps ++ qs) = literals ps ++ literals qs := by
  induction ps with
  | nil => rfl
  | cons p ps ih => cases p <;> simp [literals, ih]

theorem numbered_map_code_append (n : Nat) (t : Text) (ps : List Piece) :
    numbered n (t.map Piece.code ++ ps) = t ++ numbered n ps := by
  induction t with
  | nil => rfl
  | cons c r ih => exact congrArg (c :: ·) ih

theorem numbered_map_code (n : Nat) (t : Text) : numbered n (t.map Piece.code) = t := by
  have := numbered_map_code_append n t []
  rwa [List.append_nil, numbered, List.append_nil] at this

theorem literals_map_code (t : Text) : literals (t.map Piece.code) = [] := by
  induction t with
  | nil => rfl
  | cons c r ih => exact ih

theorem flatMap_text_map_code (t : Text) : (t.map Piece.code).flatMap Piece.text = t := by
  induction t with
  | nil => rfl
  | cons c r ih => exact congrArg (c :: ·) ih

/-- The code among the pieces holds no mark. -/
def Unmarked (ps : List Piece) : Prop := Piece.code mark ∉ ps

theorem restore_numbered {ps : List Piece} (h : Unmarked ps) :
    restore (literals ps) (numbered 0 ps) = .ok (ps.flatMap Piece.text) := by
  suffices step : ∀ before : List Text,
      restoreFrom (before ++ literals ps) 0 (numbered before.length ps) =
        .ok (ps.flatMap Piece.text) from step []
  induction ps with
  | nil => intro before; rfl
  | cons p ps ih =>
      intro before
      have rest : Unmarked ps := fun hm => h (List.mem_cons_of_mem _ hm)
      cases p with
      | code c =>
          have hc : c ≠ mark := fun e => h (by simp [e])
          simp only [numbered, literals, restoreFrom_code hc, ih rest before]
          rfl
      | literal t =>
          have ht : (before ++ t :: literals ps)[before.length]? = some t := by simp
          have tail := ih rest (before ++ [t])
          rw [List.append_assoc, List.singleton_append, List.length_append,
            List.length_singleton] at tail
          simp only [numbered, literals, restoreFrom_placeholder ht, tail]
          rfl

theorem mem_of_code_mem_pieces {c : Char} {t : Text} (h : Piece.code c ∈ pieces t) : c ∈ t := by
  rw [← flatMap_text_pieces t, List.mem_flatMap]
  exact ⟨.code c, h, by simp [Piece.text]⟩

theorem unmarked_pieces {t : Text} (h : mark ∉ t) : Unmarked (pieces t) :=
  fun hm => h (mem_of_code_mem_pieces hm)

end Literal
end MotionExpr
