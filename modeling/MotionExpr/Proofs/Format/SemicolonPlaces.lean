import MotionExpr.Proofs.Format.PaddedLines

/-!
The places that take a semicolon: behind the code of a line, with blanks and a comment behind it
at most, or in front of the brace of a block that ends the code. What the pass makes of a text it
leaves alone the second time.
-/

namespace MotionExpr

open Text Literal

namespace Semicolon

/-- What a block may open behind: a parenthesis or a word that takes a block, and blanks. -/
inductive Opens : Text → Prop
  | paren {h g : Text} : (∀ c ∈ g, isBlank c = true) → Opens (h ++ ')' :: g)
  | word {h w g : Text} : w ∈ blockKeywords → (∀ c ∈ h.getLast?, isWordChar c = false) →
      (∀ c ∈ g, isBlank c = true) → Opens (h ++ w ++ g)

theorem opens_of_introducesBlock {head : Text} (h : introducesBlock head.reverse = true) :
    Opens head := by
  have parts : head = (trimStart head.reverse).reverse ++ (head.reverse.takeWhile isBlank).reverse := by
    rw [← List.reverse_append, trimStart, List.takeWhile_append_dropWhile, List.reverse_reverse]
  have blank : ∀ c ∈ (head.reverse.takeWhile isBlank).reverse, isBlank c = true := fun c hc =>
    List.all_eq_true.mp List.all_takeWhile c (List.mem_reverse.mp hc)
  generalize (head.reverse.takeWhile isBlank).reverse = g at parts blank
  rw [introducesBlock] at h
  split at h
  · cases h
  · next c r hback =>
      rw [hback] at parts
      simp only [Bool.or_eq_true, Bool.and_eq_true, beq_iff_eq, List.any_eq_true,
        Bool.not_eq_true'] at h
      rcases h with ⟨rfl, -⟩ | ⟨w, hw, ⟨hfront, notWord⟩, -⟩
      · rw [parts, List.reverse_cons, List.append_assoc]
        exact .paren blank
      · obtain ⟨s, hs⟩ := List.isPrefixOf_iff_prefix.mp hfront
        rw [← hs, ← List.length_reverse, List.drop_left] at notWord
        rw [parts, ← hs, List.reverse_append, List.reverse_reverse]
        refine .word hw (fun d hd => ?_) blank
        rw [List.getLast?_reverse] at hd
        obtain ⟨s, rfl⟩ := List.head?_eq_some_iff.mp hd
        exact notWord

theorem Opens.behind {head : Text} (h : Opens head) {indent : Text}
    (blank : ∀ c ∈ indent, isBlank c = true) : Opens (indent ++ head) := by
  cases h with
  | @paren h g hg =>
      rw [← List.append_assoc]
      exact .paren hg
  | @word h w g hw before hg =>
      rw [← List.append_assoc, ← List.append_assoc]
      refine .word hw (fun c hc => ?_) hg
      rw [List.getLast?_append] at hc
      cases hlast : h.getLast? with
      | some d =>
          rw [hlast] at hc
          exact before c (hlast ▸ hc)
      | none =>
          rw [hlast] at hc
          have notPart := isWordPart_of_isBlank (blank c (List.mem_of_getLast? hc))
          simp only [isWordPart, Bool.or_eq_false_iff] at notPart
          exact notPart.1.1.1

/-- A block that takes a semicolon opens behind a header or word and holds no other braces. -/
theorem exists_opens_of_terminateBlock? {code u : Text} (h : terminateBlock? code = some u) :
    ∃ head inside, code = head ++ '\x7b' :: inside ∧ Opens head ∧
      ∀ c ∈ inside, c ≠ '\x7b' ∧ c ≠ '\x7d' := by
  have parts : code = (code.reverse.dropWhile (· ≠ '\x7b')).reverse ++
      (code.reverse.takeWhile (· ≠ '\x7b')).reverse := by
    rw [← List.reverse_append, List.takeWhile_append_dropWhile, List.reverse_reverse]
  have noOpening : ∀ c ∈ (code.reverse.takeWhile (· ≠ '\x7b')).reverse, c ≠ '\x7b' := fun c hc =>
    of_decide_eq_true (List.all_eq_true.mp List.all_takeWhile c (List.mem_reverse.mp hc))
  have first := List.head?_dropWhile_not (fun c => (c ≠ '\x7b' : Bool)) code.reverse
  simp only [terminateBlock?] at h
  generalize (code.reverse.takeWhile (· ≠ '\x7b')).reverse = inside at h parts noOpening
  split at h
  · cases h
  · next c back hback =>
      rw [hback] at parts first
      obtain rfl : c = '\x7b' := by simpa using first
      split at h
      · next taken =>
          simp only [Bool.and_eq_true, Bool.not_eq_true', List.contains_eq_mem,
            decide_eq_false_iff_not] at taken
          refine ⟨back.reverse, inside, ?_, ?_, fun c hc => ⟨noOpening c hc, ?_⟩⟩
          · rw [parts, List.reverse_cons, List.append_assoc]
            rfl
          · exact opens_of_introducesBlock (by rw [List.reverse_reverse]; exact taken.1.1.1.1)
          · rintro rfl
            exact taken.1.1.1.2 hc
      · cases h

/-- Where a semicolon may go: behind the code, with blanks and a comment behind it at most, or in
front of the brace that closes the block at the end of the code. -/
inductive Place (front back : Text) : Prop
  | behindCode : Tail (pieces back) → Place front back
  | inBlock {head inside gap : Text} {rest : List Piece} :
      (mask front).1 = head ++ '\x7b' :: inside → Opens head →
      (∀ c ∈ inside, c ≠ '\x7b' ∧ c ≠ '\x7d') →
      pieces back = gap.map Piece.code ++ .code '\x7d' :: rest → (∀ c ∈ gap, isBlank c = true) →
      Tail rest → Place front back

/-- A line that is left alone or takes one semicolon between two of its pieces. -/
inductive Inserted (line : Text) : Text → Prop
  | same : Inserted line line
  | added {front back : Text} : line = front ++ back →
      pieces (front ++ back) = pieces front ++ pieces back → Place front back →
      Inserted line (front ++ ';' :: back)

theorem Place.indented {front back : Text} (h : Place front back) {indent : Text}
    (blank : ∀ c ∈ indent, isBlank c = true) : Place (indent ++ front) back := by
  cases h with
  | behindCode tail => exact .behindCode tail
  | inBlock masked opens plain behind gap tail =>
      refine .inBlock ?_ (opens.behind blank) plain behind gap tail
      rw [mask_indented blank, masked, List.append_assoc]

theorem Inserted.indented {line u : Text} (h : Inserted line u) {indent : Text}
    (blank : ∀ c ∈ indent, isBlank c = true) : Inserted (indent ++ line) (indent ++ u) := by
  cases h with
  | same => exact .same
  | @added front back whole between place =>
      rw [← List.append_assoc]
      refine .added (by rw [whole, List.append_assoc]) ?_ (place.indented blank)
      rw [List.append_assoc, pieces_blanks_append blank, pieces_blanks_append blank, between,
        List.append_assoc]

/-- Masked code that ends in a block opens it in front of the blanks at its end. -/
theorem exists_opens_of_terminate? {m g u : Text} (hg : ∀ c ∈ g, isBlank c = true)
    (h : terminate? (m ++ (g ++ ['\x7d'])) = some u) :
    ∃ head inside, m = head ++ '\x7b' :: inside ∧ Opens head ∧
      ∀ c ∈ inside, c ≠ '\x7b' ∧ c ≠ '\x7d' := by
  have noBrace : '\x7b' ∉ g := fun hm => absurd (hg _ hm) (by decide)
  rw [← List.append_assoc, terminate?, List.getLast?_concat, List.dropLast_concat] at h
  obtain ⟨head, inside, cut, opens, plain⟩ := exists_opens_of_terminateBlock? h
  rcases List.append_eq_append_iff.mp cut with ⟨more, -, hback⟩ | ⟨more, hfront, hback⟩
  · exact absurd (hback ▸ List.mem_append_right _ (List.mem_cons_self ..)) noBrace
  · cases more with
    | nil => exact absurd (hback ▸ List.mem_cons_self .. : '\x7b' ∈ [] ++ g) noBrace
    | cons c inside' =>
        obtain ⟨rfl, rfl⟩ := List.cons_eq_cons.mp hback
        exact ⟨head, inside', hfront, opens, fun d hd => plain d (List.mem_append_left _ hd)⟩

/-- Where code is parted there is a place for the semicolon. -/
theorem place_of_parts {as rest : List Piece} {b : Text}
    (h : terminate? (numbered 0 as ++ b) = some (numbered 0 as ++ ';' :: b))
    (parted : Parts (numbered 0 as) b) (tail : Tail rest)
    (hfront : pieces (as.flatMap Piece.text) = as)
    (hback : pieces (b ++ rest.flatMap Piece.text) = b.map Piece.code ++ rest) :
    Place (as.flatMap Piece.text) (b ++ rest.flatMap Piece.text) := by
  have masked : (mask (as.flatMap Piece.text)).1 = numbered 0 as := by rw [mask, hfront]
  generalize numbered 0 as = m at h parted masked
  cases parted with
  | code => exact .behindCode (by rw [hback]; exact tail)
  | @block s g d notBlank notTerminator hg =>
      obtain ⟨head, inside, cut, opens, plain⟩ := exists_opens_of_terminate? hg h
      refine .inBlock (masked.trans cut) opens plain ?_ hg tail
      rw [hback, List.map_append, List.append_assoc]
      rfl

theorem unindented_insert {a b : Text} (h : Unindented (a ++ b)) : Unindented (a ++ ';' :: b) := by
  cases a with
  | nil => exact unindented_cons.mpr rfl
  | cons c r => exact unindented_cons.mpr (unindented_cons.mp h)

section Body

variable {t : Text} (front : Unindented t) (ht : '\n' ∉ t) (clean : mark ∉ t)

include front ht clean

/-- What the pass makes of a body it leaves alone the second time. -/
theorem exists_inserted : ∃ u, terminateLine t = .ok u ∧ '\n' ∉ u ∧ Unindented u ∧ Inserted t u ∧
    terminateLine u = .ok u := by
  have unmarked := unmarked_pieces clean
  have kept (run : terminateLine t = .ok t) : ∃ u, terminateLine t = .ok u ∧ '\n' ∉ u ∧ Unindented u ∧
      Inserted t u ∧ terminateLine u = .ok u := ⟨t, run, ht, front, .same, run⟩
  cases hskip : skips t with
  | true => exact kept (terminateLine_of_skips front hskip)
  | false =>
      cases hu : terminate? (numbered 0 (bodyCode (pieces t))) with
      | none => exact kept (terminateLine_of_none front ht unmarked hu)
      | some u =>
          obtain ⟨as, b, rest, hpieces, hcode, rfl, parted, tail, atEnd, run⟩ :=
            terminateLine_of_some front ht unmarked hskip hu
          have text : t = as.flatMap Piece.text ++ (b ++ rest.flatMap Piece.text) := by
            have whole := flatMap_text_pieces t
            rw [hpieces, List.flatMap_append, List.flatMap_append, flatMap_text_map_code] at whole
            exact whole.symm
          have terminated := pieces_terminated ht hpieces parted.closes tail atEnd
          obtain ⟨hfront, hback⟩ := pieces_of_append (text ▸ hpieces) rfl
          rw [hcode, numbered_append, Nat.zero_add, numbered_map_code] at hu
          have onLine : '\n' ∉ as.flatMap Piece.text ++ ';' :: (b ++ rest.flatMap Piece.text) := by
            rw [text] at ht
            simpa using ht
          have clean' : Unmarked (pieces (as.flatMap Piece.text ++ ';' :: (b ++ rest.flatMap Piece.text))) := by
            rw [text] at clean
            exact unmarked_pieces (by simpa [mark] using clean)
          have front' := unindented_insert (text ▸ front)
          refine ⟨_, run, onLine, front', .added text ?_ (place_of_parts hu parted tail hfront hback), ?_⟩
          · rw [hfront, hback, ← text, hpieces]
          · refine terminateLine_terminated onLine front' clean' (by rw [terminated]; simp) tail hu

end Body

/-- Every line stays as it is or takes one semicolon in its place, and a second time nothing is
put anywhere. -/
theorem semicolons_in_place (o : FormatOptions) {source : Text} (clean : mark ∉ source) :
    ∃ t, Pass.apply o .semicolons source = .ok t ∧
      List.Forall₂ Inserted (lines source) (lines t) ∧ Pass.apply o .semicolons t = .ok t := by
  refine Line.mapLines_again fun line hline => ?_
  have unmarked : mark ∉ line := fun hm => clean (mem_of_mem_lines hline hm)
  have onLine := not_newline_of_mem_lines hline
  have front : Unindented (splitIndent line).2 := unindented_trimStart line
  have indent := @Line.isBlank_of_mem_indent line
  rw [← splitIndent_append line] at unmarked onLine ⊢
  generalize (splitIndent line).1 = blanks at *
  generalize (splitIndent line).2 = body at *
  rw [List.mem_append, not_or] at unmarked onLine
  obtain ⟨u, run, onLine', front', inserted, again⟩ := exists_inserted front onLine.2 unmarked.2
  refine ⟨blanks ++ u, ?_, List.not_mem_append onLine.1 onLine', inserted.indented indent, ?_⟩
  · rw [Line.terminateLine_indented indent front, run]
    rfl
  · rw [Line.terminateLine_indented indent front', again]
    rfl

/-- In front of a comment, in an inline block, and nowhere in an open call. -/
theorem semicolons_in_place_block :
    let source := "x = f(1) // y;\n\tif (a) \x7b b = ';c' \x7d  \nfoo(d".toList
    let result := "x = f(1); // y;\n\tif (a) \x7b b = ';c'; \x7d  \nfoo(d".toList
    mark ∉ source ∧ Pass.apply {} .semicolons source = .ok result ∧
      List.Forall₂ Inserted (lines source) (lines result) ∧
      Pass.apply {} .semicolons result = .ok result := by
  intro source result
  have clean : mark ∉ source := by decide
  obtain ⟨t, ht, related, again⟩ := semicolons_in_place {} clean
  obtain rfl : result = t := Except.ok.inj ht
  exact ⟨clean, ht, related, again⟩

end Semicolon
end MotionExpr
