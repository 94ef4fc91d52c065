import Mathlib.Data.List.Induction
import Mathlib.Order.Bounds.Basic
import Mathlib.Order.MinMax
import MotionExpr.Lint.Spelling

/-!
The edit distance of two texts. The row of a longer text goes on where that of a shorter one
ends, so an entry of the table comes from the three beside it: that is the usual recursion.
By the recursion there are so many edits from one text to the other, and no edit takes a text
nearer to any other by more than one, so there are no fewer. The rest is told of edits: they
can be undone, put behind one another and read backwards.
-/

namespace MotionExpr
namespace EditDistance

/-- What it costs to have `c` for `d`. -/
def cost (c d : Char) : Nat := if c = d then 0 else 1

/-! The table, row by row. -/

section Table

variable {a b : Text} {c d : Char} {row : List Nat}

theorem rowBehind_concat (up left : Nat) (h : row.length = a.length + 1) :
    rowBehind d (a ++ [c]) (row ++ [up]) left = rowBehind d a row left ++
      [min (min ((rowBehind d a row left).getLastD left + 1) (up + 1))
        (row.getLastD 0 + cost c d)] := by
  induction a generalizing row left with
  | nil =>
      obtain ⟨x, rfl⟩ := List.length_eq_one_iff.mp h
      rfl
  | cons e a ih =>
      obtain ⟨x, y, row, rfl⟩ : ∃ x y r, row = x :: y :: r := by
        match row, h with
        | x :: y :: r, _ => exact ⟨x, y, r, rfl⟩
      simp only [List.length_cons, Nat.add_right_cancel_iff] at h
      simp only [List.cons_append, rowBehind, List.getLastD_cons]
      rw [← List.cons_append, ih _ (by simpa using h), List.getLastD_cons]

theorem nextRow_concat (x : Nat) (h : row.length = a.length + 1) :
    nextRow (a ++ [c]) (row ++ [x]) d = nextRow a row d ++
      [min (min ((nextRow a row d).getLastD 0 + 1) (x + 1)) (row.getLastD 0 + cost c d)] := by
  obtain ⟨y, row, rfl⟩ := List.exists_cons_of_length_eq_add_one h
  simp only [nextRow, List.cons_append, List.headD_cons, List.getLastD_cons]
  rw [← List.cons_append, rowBehind_concat x _ h, List.getLastD_cons]

theorem length_rowBehind (left : Nat) (h : row.length = a.length + 1) :
    (rowBehind d a row left).length = a.length := by
  induction a generalizing row left with
  | nil => rfl
  | cons e a ih =>
      match row, h with
      | x :: y :: r, h =>
          simp only [rowBehind, List.length_cons, Nat.add_right_cancel_iff]
          exact ih _ (by simpa using h)

theorem lastRow_concat_right (a b : Text) (d : Char) :
    lastRow a (b ++ [d]) = nextRow a (lastRow a b) d := by
  simp only [lastRow, List.foldl_append, List.foldl_cons, List.foldl_nil]

theorem length_lastRow (a b : Text) : (lastRow a b).length = a.length + 1 := by
  induction b using List.reverseRecOn with
  | nil => simp [lastRow]
  | append_singleton b d ih =>
      simp only [lastRow_concat_right, nextRow, List.length_cons, length_rowBehind _ ih]

/-- The row of a longer text goes on where that of a shorter one ends. -/
theorem lastRow_concat_left (a b : Text) (c : Char) :
    lastRow (a ++ [c]) b = lastRow a b ++ [distance (a ++ [c]) b] := by
  suffices h : ∃ x, lastRow (a ++ [c]) b = lastRow a b ++ [x] by
    obtain ⟨x, hx⟩ := h
    simp [distance, hx]
  induction b using List.reverseRecOn with
  | nil => exact ⟨a.length + 1, by simp [lastRow, List.range_succ]⟩
  | append_singleton b d ih =>
      obtain ⟨x, hx⟩ := ih
      exact ⟨_, by rw [lastRow_concat_right, lastRow_concat_right, hx,
        nextRow_concat x (length_lastRow a b)]⟩

theorem distance_nil_right (a : Text) : distance a [] = a.length := by
  simp [distance, lastRow, List.range_succ]

theorem lastRow_nil_left (b : Text) : lastRow [] b = [b.length] := by
  induction b using List.reverseRecOn with
  | nil => rfl
  | append_singleton b d ih => simp [lastRow_concat_right, ih, nextRow, rowBehind]

theorem distance_nil_left (b : Text) : distance [] b = b.length := by
  simp [distance, lastRow_nil_left]

/-- An entry of the table comes from the three beside it. -/
theorem distance_concat (a b : Text) (c d : Char) :
    distance (a ++ [c]) (b ++ [d]) =
      min (min (distance a (b ++ [d]) + 1) (distance (a ++ [c]) b + 1))
        (distance a b + cost c d) := by
  rw [distance, lastRow_concat_right, lastRow_concat_left,
    nextRow_concat _ (length_lastRow a b), ← lastRow_concat_right]
  simp [distance]

end Table

/-! Edits. -/

/-- One character is put in, taken out, or put in the place of another. -/
inductive Edit : Text → Text → Prop where
  | insert (front behind : Text) (c : Char) : Edit (front ++ behind) (front ++ c :: behind)
  | delete (front behind : Text) (c : Char) : Edit (front ++ c :: behind) (front ++ behind)
  | replace (front behind : Text) (c d : Char) :
      Edit (front ++ c :: behind) (front ++ d :: behind)

/-- So many edits, one after another. -/
inductive Edits : Nat → Text → Text → Prop where
  | refl (a : Text) : Edits 0 a a
  | step {n : Nat} {a b c : Text} : Edits n a b → Edit b c → Edits (n + 1) a c

section Edits

variable {m n : Nat} {a b c : Text}

theorem Edit.symm (h : Edit a b) : Edit b a := by
  cases h with
  | insert front behind c => exact .delete front behind c
  | delete front behind c => exact .insert front behind c
  | replace front behind c d => exact .replace front behind d c

theorem Edit.append (h : Edit a b) (z : Text) : Edit (a ++ z) (b ++ z) := by
  cases h with
  | insert front behind c => simpa using Edit.insert front (behind ++ z) c
  | delete front behind c => simpa using Edit.delete front (behind ++ z) c
  | replace front behind c d => simpa using Edit.replace front (behind ++ z) c d

theorem Edit.reverse (h : Edit a b) : Edit a.reverse b.reverse := by
  cases h with
  | insert front behind c => simpa using Edit.insert behind.reverse front.reverse c
  | delete front behind c => simpa using Edit.delete behind.reverse front.reverse c
  | replace front behind c d => simpa using Edit.replace behind.reverse front.reverse c d

theorem Edits.trans (h : Edits m a b) (k : Edits n b c) : Edits (m + n) a c := by
  induction k with
  | refl => exact h
  | step _ last ih => exact (ih h).step last

theorem Edits.single (h : Edit a b) : Edits 1 a b := (Edits.refl a).step h

theorem Edits.symm (h : Edits n a b) : Edits n b a := by
  induction h with
  | refl a => exact .refl a
  | step _ last ih => simpa [Nat.add_comm] using (Edits.single last.symm).trans ih

theorem Edits.append (h : Edits n a b) (z : Text) : Edits n (a ++ z) (b ++ z) := by
  induction h with
  | refl a => exact .refl _
  | step _ last ih => exact ih.step (last.append z)

theorem Edits.reverse (h : Edits n a b) : Edits n a.reverse b.reverse := by
  induction h with
  | refl a => exact .refl _
  | step _ last ih => exact ih.step last.reverse

theorem edits_zero_iff : Edits 0 a b ↔ a = b := by
  constructor
  · rintro ⟨⟩
    rfl
  · rintro rfl
    exact .refl a

theorem Edit.concat (a : Text) (c : Char) : Edit a (a ++ [c]) := by
  simpa using Edit.insert a [] c

theorem edits_cost (a : Text) (c d : Char) : Edits (cost c d) (a ++ [c]) (a ++ [d]) := by
  by_cases h : c = d
  · simpa [cost, h] using Edits.refl (a ++ [d])
  · simpa [cost, h] using Edits.single (.replace a [] c d)

/-- The recursion tells how to come from one text to the other. -/
theorem edits_distance (a b : Text) : Edits (distance a b) a b := by
  induction a using List.reverseRecOn generalizing b with
  | nil =>
      induction b using List.reverseRecOn with
      | nil => exact .refl []
      | append_singleton b d ih =>
          simp only [distance_nil_left, List.length_append, List.length_singleton] at ih ⊢
          exact ih.step (.concat b d)
  | append_singleton a c iha =>
      have dropped : Edits 1 (a ++ [c]) a := .single (Edit.concat a c).symm
      induction b using List.reverseRecOn with
      | nil =>
          have rest := iha []
          simp only [distance_nil_right, List.length_append, List.length_singleton] at rest ⊢
          exact Nat.add_comm 1 _ ▸ dropped.trans rest
      | append_singleton b d ihb =>
          -- the last edit is one of three, and the recursion takes the shortest way
          have deleted := dropped.trans (iha (b ++ [d]))
          have inserted := ihb.step (.concat b d)
          have replaced := ((iha b).append [c]).trans (edits_cost b c d)
          rw [Nat.add_comm] at deleted
          rw [distance_concat]
          rcases min_choice (min (distance a (b ++ [d]) + 1) (distance (a ++ [c]) b + 1))
            (distance a b + cost c d) with least | least
          · rw [least]
            rcases min_choice (distance a (b ++ [d]) + 1) (distance (a ++ [c]) b + 1) with h | h
            · rwa [h]
            · rwa [h]
          · rwa [least]

end Edits

/-! No edit takes a text nearer to another by more than one. -/

/-- From `a` it is at most one further than from `b`, whatever text one goes to. -/
def Near (a b : Text) : Prop := ∀ z, distance a z ≤ distance b z + 1

section Near

variable {a b : Text}

theorem cost_le_one (c d : Char) : cost c d ≤ 1 := by
  unfold cost
  split <;> omega

theorem near_of_concat (a : Text) (c : Char) : Near (a ++ [c]) a := by
  intro z
  cases z using List.reverseRecOn with
  | nil => simp [distance_nil_right]
  | append_singleton z d =>
      rw [distance_concat]
      omega

theorem distance_concat_le (a z : Text) (d : Char) : distance a (z ++ [d]) ≤ distance a z + 1 := by
  cases a using List.reverseRecOn with
  | nil => simp [distance_nil_left]
  | append_singleton a c =>
      rw [distance_concat]
      omega

theorem near_concat (a : Text) (c : Char) : Near a (a ++ [c]) := by
  intro z
  induction z using List.reverseRecOn with
  | nil =>
      simp only [distance_nil_right, List.length_append, List.length_singleton]
      omega
  | append_singleton z d ih =>
      have longer := distance_concat_le a z d
      rw [distance_concat]
      omega

theorem near_of_concat_concat (a : Text) (c d : Char) : Near (a ++ [c]) (a ++ [d]) := by
  intro z
  induction z using List.reverseRecOn with
  | nil => simp [distance_nil_right]
  | append_singleton z e ih =>
      have small := cost_le_one c e
      rw [distance_concat, distance_concat]
      omega

theorem Near.concat (h : Near a b) (c : Char) : Near (a ++ [c]) (b ++ [c]) := by
  intro z
  induction z using List.reverseRecOn with
  | nil => simpa [distance_nil_right] using h []
  | append_singleton z d ih =>
      have whole := h (z ++ [d])
      have front := h z
      rw [distance_concat, distance_concat]
      omega

theorem Near.append (h : Near a b) (z : Text) : Near (a ++ z) (b ++ z) := by
  induction z using List.reverseRecOn with
  | nil => simpa using h
  | append_singleton z c ih => simpa using ih.concat c

theorem Edit.near (h : Edit a b) : Near a b := by
  cases h with
  | insert front behind c => simpa using (near_concat front c).append behind
  | delete front behind c => simpa using (near_of_concat front c).append behind
  | replace front behind c d => simpa using (near_of_concat_concat front c d).append behind

end Near

theorem distance_self (a : Text) : distance a a = 0 := by
  induction a using List.reverseRecOn with
  | nil => rfl
  | append_singleton a c ih => simp [distance_concat, ih, cost]

theorem Edits.distance_le {n : Nat} {a b : Text} (h : Edits n a b) (z : Text) :
    distance a z ≤ distance b z + n := by
  induction h with
  | refl a => exact Nat.le_refl _
  | step _ last ih =>
      have one := last.near z
      omega


/-- No fewer edits do. -/
theorem isLeast_distance (a b : Text) : IsLeast {n | Edits n a b} (distance a b) := by
  refine ⟨edits_distance a b, fun n h => ?_⟩
  have shortest := h.distance_le b
  rwa [distance_self, Nat.zero_add] at shortest

/-! What holds of edits holds of the distance. -/

section Metric

variable {a b : Text}

theorem distance_comm (a b : Text) : distance a b = distance b a :=
  Nat.le_antisymm ((isLeast_distance a b).2 (edits_distance b a).symm)
    ((isLeast_distance b a).2 (edits_distance a b).symm)

theorem distance_eq_zero_iff : distance a b = 0 ↔ a = b := by
  constructor
  · intro none
    exact edits_zero_iff.mp (none ▸ edits_distance a b)
  · rintro rfl
    exact distance_self a

theorem distance_triangle (a b c : Text) : distance a c ≤ distance a b + distance b c :=
  (isLeast_distance a c).2 ((edits_distance a b).trans (edits_distance b c))

theorem distance_reverse (a b : Text) : distance a.reverse b.reverse = distance a b := by
  have forward := (isLeast_distance a.reverse b.reverse).2 (edits_distance a b).reverse
  have back := (isLeast_distance a b).2 (by simpa using (edits_distance a.reverse b.reverse).reverse)
  exact Nat.le_antisymm forward back

/-- Read from their ends, texts are as far apart as they are. -/
theorem distance_cons (a b : Text) (c d : Char) :
    distance (c :: a) (d :: b) =
      min (min (distance a (d :: b) + 1) (distance (c :: a) b + 1))
        (distance a b + cost c d) := by
  have last := distance_concat a.reverse b.reverse c d
  simpa only [← List.reverse_cons, distance_reverse] using last

end Metric

/-- The distance obeys the usual recursion, on the last characters and on the first, and it is
the least number of edits that turn one text into the other. So it is a metric. -/
theorem distance_least_edits (a b : Text) :
    (distance a [] = a.length ∧ distance [] b = b.length ∧
      ∀ c d, distance (a ++ [c]) (b ++ [d]) =
          min (min (distance a (b ++ [d]) + 1) (distance (a ++ [c]) b + 1))
            (distance a b + if c = d then 0 else 1) ∧
        distance (c :: a) (d :: b) =
          min (min (distance a (d :: b) + 1) (distance (c :: a) b + 1))
            (distance a b + if c = d then 0 else 1)) ∧
    IsLeast {n | Edits n a b} (distance a b) ∧
    distance a b = distance b a ∧ (distance a b = 0 ↔ a = b) ∧
    ∀ c, distance a c ≤ distance a b + distance b c :=
  ⟨⟨distance_nil_right a, distance_nil_left b,
      fun c d => ⟨distance_concat a b c d, distance_cons a b c d⟩⟩,
    isLeast_distance a b, distance_comm a b, distance_eq_zero_iff, distance_triangle a b⟩

example : distance "kitten".toList "sitting".toList = 3 := by decide

end EditDistance
end MotionExpr
