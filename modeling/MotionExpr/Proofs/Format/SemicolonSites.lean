import MotionExpr.Proofs.Format.Spacing
import MotionExpr.Proofs.Format.Pieces
import MotionExpr.Format.Semicolon

/-!
Where a line takes its semicolon. The code of a line is what is left of its body
without a comment that ends it. A semicolon goes behind that code or in front of
the blanks and the brace that close an inline block, so never into a literal, and
no placeholder is cut.
-/

namespace MotionExpr
namespace Literal

/-- Text behind that holds no mark is code. -/
theorem of_append_eq_numbered {n : Nat} {ps : List Piece} {a b : Text}
    (h : a ++ b = numbered n ps) (hm : mark ∉ b) :
    ∃ qs, ps = qs ++ b.map Piece.code ∧ a = numbered n qs := by
  induction ps generalizing n a with
  | nil =>
      obtain ⟨rfl, rfl⟩ := List.append_eq_nil_iff.mp h
      exact ⟨[], rfl, rfl⟩
  | cons p ps ih =>
      cases p with
      | code c =>
          cases a with
          | nil =>
              obtain ⟨qs, hps, hq⟩ := of_numbered_eq_append (h.symm.trans (List.append_nil b).symm) hm
              obtain rfl := numbered_eq_nil hq.symm
              exact ⟨[], by rw [hps, List.append_nil, List.nil_append], rfl⟩
          | cons d r =>
              obtain ⟨rfl, htail⟩ := List.cons_eq_cons.mp h
              obtain ⟨qs, rfl, rfl⟩ := ih htail
              exact ⟨.code d :: qs, rfl, rfl⟩
      | literal t =>
          rcases List.append_eq_append_iff.mp h with ⟨more, hp, hb⟩ | ⟨more, rfl, hrest⟩
          · cases more with
            | nil =>
                rw [List.append_nil] at hp
                rw [List.nil_append] at hb
                obtain ⟨qs, rfl, hq⟩ := ih (a := []) hb
                obtain rfl := numbered_eq_nil hq.symm
                exact ⟨[.literal t], rfl, by rw [← hp, numbered, numbered, List.append_nil]⟩
            | cons d r =>
                -- the end of a placeholder would be among the characters of `b`
                have last : (placeholder n).getLast? = some mark := List.getLast?_concat
                rw [hp, List.getLast?_append, List.getLast?_cons, Option.some_or] at last
                have inside : mark ∈ d :: r := List.mem_of_getLast? (List.getLast?_cons.trans last)
                exact absurd (hb ▸ List.mem_append_left _ inside) hm
          · obtain ⟨qs, rfl, rfl⟩ := ih hrest.symm
            exact ⟨.literal t :: qs, rfl, rfl⟩

/-- A character put between two pieces of masked code stands there in the restored code. -/
theorem restore_inserted {as ds : List Piece} {b : Text} {c : Char}
    (h : Unmarked (as ++ b.map Piece.code ++ ds)) (hc : c ≠ mark) :
    restore (literals (as ++ b.map Piece.code ++ ds))
        (numbered 0 as ++ c :: b ++ numbered (literals (as ++ b.map Piece.code)).length ds) =
      .ok (as.flatMap Piece.text ++ c :: b ++ ds.flatMap Piece.text) := by
  have clean : Unmarked (as ++ (c :: b).map Piece.code ++ ds) := by
    simp only [Unmarked, List.mem_append, List.map_cons, List.mem_cons, Piece.code.injEq,
      not_or] at h ⊢
    exact ⟨⟨h.1.1, hc.symm, h.1.2⟩, h.2⟩
  have restored := restore_numbered clean
  simp only [literals_append, literals_map_code, List.append_nil, numbered_append,
    numbered_map_code, List.flatMap_append, flatMap_text_map_code, Nat.zero_add] at restored ⊢
  exact restored

theorem getLast?_numbered (n : Nat) (ps : List Piece) :
    (numbered n ps).getLast? = ps.getLast?.map fun p =>
      match p with
      | .code c => c
      | .literal _ => mark := by
  rcases List.eq_nil_or_concat ps with rfl | ⟨qs, p, rfl⟩
  · rfl
  · rw [List.concat_eq_append, numbered_append]
    cases p with
    | code c => simp [numbered]
    | literal t => simp [numbered, placeholder, List.getLast?_append, List.getLast?_cons]

theorem count_numbered {c : Char} (hm : c ≠ mark) (hd : Text.isDigit c = false) (n : Nat)
    (ps : List Piece) : (numbered n ps).count c = ps.count (.code c) := by
  induction ps generalizing n with
  | nil => rfl
  | cons p ps ih =>
      cases p with
      | code d => simp only [numbered, List.count_cons, ih, beq_iff_eq, Piece.code.injEq]
      | literal t =>
          have notDigit : c ∉ Text.ofNat n := by
            intro h
            rw [Text.isDigit_of_mem_ofNat h] at hd
            cases hd
          have notIn : c ∉ placeholder n := by simp [placeholder, hm, notDigit]
          rw [numbered, List.count_append, List.count_eq_zero_of_not_mem notIn, ih, List.count_cons]
          simp

end Literal

namespace Semicolon

open Literal

def isSpace : Piece → Bool
  | .code c => Text.isSpaceOrTab c
  | .literal _ => false

/-- The pieces in front of a comment that ends the line and of the spaces in front of it. -/
def codePieces (ps : List Piece) : List Piece :=
  match ps.reverse with
  | .literal t :: before =>
      if "//".toList.isPrefixOf t then (before.dropWhile isSpace).reverse else ps
  | _ => ps

theorem dropEndWhile_numbered (n : Nat) (back : List Piece) :
    Text.dropEndWhile Text.isSpaceOrTab (numbered n back.reverse) =
      numbered n (back.dropWhile isSpace).reverse := by
  induction back with
  | nil => rfl
  | cons p ps ih =>
      rw [List.reverse_cons, numbered_append, Text.dropEndWhile_append]
      cases p with
      | code c =>
          cases hc : Text.isSpaceOrTab c with
          | true => simp [numbered, Text.dropEndWhile, isSpace, hc, ih]
          | false => simp [numbered, Text.dropEndWhile, isSpace, hc, numbered_append]
      | literal t =>
          have kept := dropEndWhile_placeholder (p := Text.isSpaceOrTab)
            (fun _ => Text.isBlank_of_isSpaceOrTab)
          have nonempty (k : Nat) : placeholder k ≠ [] := by simp [placeholder]
          simp [numbered, kept, nonempty, isSpace, numbered_append]

theorem codePieces_append_literal (ps : List Piece) (t : Text) :
    codePieces (ps ++ [.literal t]) =
      if "//".toList.isPrefixOf t then (ps.reverse.dropWhile isSpace).reverse
      else ps ++ [.literal t] := by
  simp [codePieces]

theorem codePieces_eq_self {ps : List Piece} (h : ∀ qs t, ps ≠ qs ++ [.literal t]) :
    codePieces ps = ps := by
  rw [codePieces]
  split
  · next t before hr =>
      have := congrArg List.reverse hr
      rw [List.reverse_reverse, List.reverse_cons] at this
      exact absurd this (h _ _)
  · rfl

theorem exists_of_isSpace {ps : List Piece} (h : ∀ p ∈ ps, isSpace p = true) :
    ∃ b : Text, ps = b.map Piece.code ∧ ∀ c ∈ b, Text.isSpaceOrTab c = true := by
  induction ps with
  | nil => exact ⟨[], rfl, by simp⟩
  | cons p ps ih =>
      obtain ⟨b, rfl, hb⟩ := ih fun q hq => h q (List.mem_cons_of_mem _ hq)
      have hp := h p (List.mem_cons_self ..)
      cases p with
      | code c => exact ⟨c :: b, rfl, List.forall_mem_cons.mpr ⟨hp, hb⟩⟩
      | literal t => cases hp

/-- Either nothing is split off, as no comment ends the pieces, or a comment and the spaces
in front of it are. -/
theorem codePieces_spec (ps : List Piece) :
    (codePieces ps = ps ∧ ∀ qs t, ps = qs ++ [.literal t] → ¬ "//".toList.isPrefixOf t = true) ∨
      ∃ (b t : Text), ps = codePieces ps ++ (b.map Piece.code ++ [.literal t]) ∧
        (∀ c ∈ b, Text.isSpaceOrTab c = true) ∧ "//".toList.isPrefixOf t = true := by
  by_cases h : ∃ qs t, ps = qs ++ [.literal t]
  · obtain ⟨qs, t, rfl⟩ := h
    rw [codePieces_append_literal]
    by_cases ht : "//".toList.isPrefixOf t = true
    · obtain ⟨b, hb, spaces⟩ := exists_of_isSpace fun p hp =>
        List.all_eq_true.mp List.all_takeWhile p (List.mem_reverse.mp hp)
      refine .inr ⟨b, t, ?_, spaces, ht⟩
      rw [if_pos ht, ← hb, ← List.append_assoc, ← List.reverse_append,
        List.takeWhile_append_dropWhile, List.reverse_reverse]
    · refine .inl ⟨if_neg ht, fun rs u hu => ?_⟩
      obtain ⟨-, hu⟩ := List.append_inj' hu rfl
      cases hu
      exact ht
  · have none : ∀ qs t, ps ≠ qs ++ [.literal t] := fun qs t e => h ⟨qs, t, e⟩
    exact .inl ⟨codePieces_eq_self none, fun qs t e => absurd e (none qs t)⟩

theorem codePieces_append (ps : List Piece) : ∃ ds, ps = codePieces ps ++ ds := by
  rcases codePieces_spec ps with ⟨hself, -⟩ | ⟨b, t, hps, -, -⟩
  · exact ⟨[], by rw [hself, List.append_nil]⟩
  · exact ⟨_, hps⟩

/-! A comment is found by its placeholder. -/

theorem trailingPlaceholder?_eq_none {ps : List Piece} (hps : Unmarked ps)
    (h : ∀ qs t, ps ≠ qs ++ [.literal t]) : trailingPlaceholder? (numbered 0 ps) = none := by
  have notMark : (numbered 0 ps).getLast? ≠ some mark := by
    rw [getLast?_numbered]
    rcases List.eq_nil_or_concat ps with rfl | ⟨qs, p, rfl⟩
    · simp
    · rw [List.concat_eq_append] at h hps ⊢
      cases p with
      | code c =>
          have hc : c ≠ mark := fun e => hps (by simp [e])
          simpa using hc
      | literal t => exact absurd rfl (h qs t)
  rw [← List.head?_reverse] at notMark
  rw [trailingPlaceholder?]
  split
  · rfl
  · next m r hr =>
      rw [hr, List.head?_cons] at notMark
      rw [if_neg fun e => notMark (congrArg some e)]

theorem trailingPlaceholder?_literal (ps : List Piece) (t : Text) :
    trailingPlaceholder? (numbered 0 (ps ++ [.literal t])) =
      some ((Text.takeEndWhile Text.isSpaceOrTab (numbered 0 ps)).length +
        (placeholder (literals ps).length).length, Text.ofNat (literals ps).length) := by
  have digits : ∀ c ∈ (Text.ofNat (literals ps).length).reverse, Text.isDigit c = true :=
    fun c hc => Text.isDigit_of_mem_ofNat (List.mem_reverse.mp hc)
  obtain ⟨d, ds, hd⟩ := List.exists_cons_of_ne_nil
    (mt List.reverse_eq_nil_iff.mp (Text.ofNat_ne_nil (literals ps).length))
  have back : (numbered 0 (ps ++ [.literal t])).reverse =
      mark :: ((Text.ofNat (literals ps).length).reverse ++ mark :: (numbered 0 ps).reverse) := by
    simp [numbered_append, numbered, placeholder]
  rw [trailingPlaceholder?, back]
  simp only [ite_true, takeWhile_digits digits, dropWhile_digits digits]
  have length : (Text.ofNat (literals ps).length).length = ds.length + 1 := by
    rw [← List.length_reverse, hd, List.length_cons]
  rw [hd]
  simp only [ite_true, ← hd, List.reverse_reverse, Text.takeEndWhile_eq_reverse,
    List.length_reverse, Option.some.injEq, Prod.mk.injEq, and_true, placeholder,
    List.length_append, List.length_cons, List.length_nil]
  omega

/-- Masked code is split into code and comment, and never fails. -/
theorem splitComment_numbered {ps : List Piece} (hps : Unmarked ps) :
    ∃ comment,
      splitComment (numbered 0 ps) (literals ps) = .ok (numbered 0 (codePieces ps), comment) ∧
      numbered 0 ps = numbered 0 (codePieces ps) ++ comment := by
  by_cases h : ∃ qs t, ps = qs ++ [.literal t]
  · obtain ⟨qs, t, rfl⟩ := h
    have found : (literals (qs ++ [.literal t]))[(literals qs).length]? = some t := by
      simp [literals_append, literals]
    rw [codePieces_append_literal, splitComment, trailingPlaceholder?_literal]
    simp only [lookUp_ofNat found, bind, Except.bind]
    by_cases ht : "//".toList.isPrefixOf t = true
    · rw [if_pos ht, if_pos ht]
      have parts : numbered 0 (qs ++ [.literal t]) =
          numbered 0 (qs.reverse.dropWhile isSpace).reverse ++
            (Text.takeEndWhile Text.isSpaceOrTab (numbered 0 qs) ++
              placeholder (literals qs).length) := by
        rw [← dropEndWhile_numbered, List.reverse_reverse, ← List.append_assoc,
          Text.dropEndWhile_append_takeEndWhile, numbered_append, numbered, numbered,
          List.append_nil, Nat.zero_add]
      refine ⟨_, ?_, parts⟩
      rw [← List.length_append, parts]
      rw [List.length_append, Nat.add_sub_cancel, List.take_left, List.drop_left]
      rfl
    · rw [if_neg ht, if_neg ht]
      exact ⟨[], rfl, (List.append_nil _).symm⟩
  · have none : ∀ qs t, ps ≠ qs ++ [.literal t] := fun qs t e => h ⟨qs, t, e⟩
    refine ⟨[], ?_, ?_⟩
    · rw [splitComment, trailingPlaceholder?_eq_none hps none, codePieces_eq_self none]
    · rw [codePieces_eq_self none, List.append_nil]

/-! Where the semicolon goes. -/

/-- A character that may stand behind an added semicolon. -/
def closesLine (c : Char) : Bool := Text.isBlank c || c == '\x7d'

theorem of_terminateBlock? {code u : Text} (h : terminateBlock? code = some u) :
    u = Text.trimEnd code ++ ';' :: (Text.takeEndWhile Text.isBlank code ++ ['\x7d']) := by
  simp only [terminateBlock?] at h
  split at h
  · cases h
  · split at h
    · exact (Option.some.inj h).symm.trans (by simp)
    · cases h

/-- The statement of a block ends in what a semicolon may follow. -/
theorem last_of_terminateBlock? {code u : Text} (h : terminateBlock? code = some u) :
    ∃ s d, Text.trimEnd code = s ++ [d] ∧ Text.isBlank d = false ∧ isTerminator d = false := by
  have whole := congrArg List.reverse
    (List.takeWhile_append_dropWhile (p := (· ≠ '\x7b')) (l := code.reverse))
  rw [List.reverse_append, List.reverse_reverse] at whole
  simp only [terminateBlock?] at h
  generalize (code.reverse.takeWhile (· ≠ '\x7b')).reverse = inside at h whole
  generalize (code.reverse.dropWhile (· ≠ '\x7b')).reverse = front at whole
  split at h
  · cases h
  · split at h
    · next taken =>
        simp only [Bool.and_eq_true, Bool.not_eq_true', List.isEmpty_eq_false_iff] at taken
        obtain ⟨⟨⟨-, some⟩, notTerminator⟩, -⟩ := taken
        obtain ⟨z, d, hd⟩ := (List.eq_nil_or_concat (Text.trim inside)).resolve_left some
        rw [List.concat_eq_append] at hd
        have inner : Text.trimEnd inside = (Text.trimEnd inside).takeWhile Text.isBlank ++ (z ++ [d]) := by
          rw [← hd, ← Text.trimStart_trimEnd, Text.trimStart, List.takeWhile_append_dropWhile]
        generalize (Text.trimEnd inside).takeWhile Text.isBlank = blanks at inner
        have outer : Text.trimEnd code = (front ++ blanks ++ z) ++ [d] := by
          rw [← whole, Text.trimEnd_append, inner, if_neg (by simp)]
          simp
        refine ⟨_, d, outer, Text.isBlank_of_trimEnd_concat outer, ?_⟩
        rwa [hd, endsIn, List.getLast?_concat] at notTerminator
    · cases h

/-- Where a semicolon parts code: behind all of it, or behind the statement of a block that ends
it. -/
inductive Parts : (front back : Text) → Prop where
  | code {a : Text} : Parts a []
  | block {s g : Text} {d : Char} : Text.isBlank d = false → isTerminator d = false →
      (∀ c ∈ g, Text.isBlank c = true) → Parts (s ++ [d]) (g ++ ['\x7d'])

theorem Parts.closes {a b : Text} (h : Parts a b) : ∀ c ∈ b, closesLine c = true := by
  intro c hc
  cases h with
  | code => cases hc
  | block _ _ hg =>
      rcases List.mem_append.mp hc with hc | hc
      · simp [closesLine, hg c hc]
      · simp [closesLine, List.mem_singleton.mp hc]

/-- A semicolon is all that is added, behind the code or in front of the brace that ends it. -/
theorem of_terminate? {code u : Text} (h : terminate? code = some u) :
    ∃ a b, code = a ++ b ∧ u = a ++ ';' :: b ∧ Parts a b := by
  have atEnd : u = code ++ [';'] → ∃ a b, code = a ++ b ∧ u = a ++ ';' :: b ∧ Parts a b :=
    fun hu => ⟨code, [], (List.append_nil _).symm, hu, .code⟩
  rw [terminate?] at h
  split at h
  · cases h
  · next last hlast =>
      split at h
      · next hbrace =>
          have whole : code = code.dropLast ++ ['\x7d'] := by
            obtain rfl := beq_iff_eq.mp hbrace
            obtain ⟨front, rfl⟩ := List.getLast?_eq_some_iff.mp hlast
            rw [List.dropLast_concat]
          refine ⟨_, _, ?_, of_terminateBlock? h, ?_⟩
          · conv => lhs; rw [whole]
            rw [← List.append_assoc, Text.trimEnd, Text.dropEndWhile_append_takeEndWhile]
          · obtain ⟨s, d, ends, notBlank, notTerminator⟩ := last_of_terminateBlock? h
            rw [ends]
            exact .block notBlank notTerminator fun c hc => Text.mem_takeEndWhile hc
      · split at h
        · split at h
          · cases h
          · split at h
            · exact atEnd (Option.some.inj h).symm
            · cases h
        · split at h
          · cases h
          · split at h
            · exact atEnd (Option.some.inj h).symm
            · cases h

theorem terminate?_opening {code : Text}
    (h : code.getLast? = some '(' ∨ code.getLast? = some '\x7b') : terminate? code = none := by
  rcases h with h | h <;> simp [terminate?, h, isTerminator]

theorem balanced_of_terminate? {code u : Text} (h : terminate? code = some u)
    (hlast : code.getLast? = some ')') : code.count '(' = code.count ')' := by
  simp only [terminate?, hlast] at h
  by_cases heq : code.count '(' = code.count ')'
  · exact heq
  · simp [heq] at h

/-- The code of a line: what stands between the blanks at its ends, without a comment that
ends it. -/
def lineCode (line : Text) : List Piece := codePieces (pieces (Text.trim line))

theorem pieces_append_of_codePieces {t blanks : Text} {as bs : List Piece} (ht : '\n' ∉ t)
    (hb : ∀ c ∈ blanks, Text.isBlank c = true) (hn : '\n' ∉ blanks)
    (h : codePieces (pieces t) = as ++ bs) :
    ∃ rest, pieces (t ++ blanks) = as ++ (bs ++ rest) ∧
      ∀ c, .code c ∈ rest → Text.isBlank c = true := by
  rcases codePieces_spec (pieces t) with ⟨hself, notComment⟩ | ⟨b, u, hps, spaces, -⟩
  · rcases pieces_append_blanks ht hb hn with happ | ⟨ps, u, hu, hps, -⟩
    · refine ⟨blanks.map Piece.code, ?_, by simpa using hb⟩
      rw [happ, ← hself, h, List.append_assoc]
    · exact absurd hu (notComment ps u hps)
  · rw [h] at hps
    have blank (v : Text) (c : Char) (hc : .code c ∈ b.map Piece.code ++ [.literal v]) :
        Text.isBlank c = true := by
      simp only [List.mem_append, List.mem_map, Piece.code.injEq, exists_eq_right,
        List.mem_singleton, reduceCtorEq, or_false] at hc
      exact Text.isBlank_of_isSpaceOrTab (spaces c hc)
    rcases pieces_append_blanks ht hb hn with happ | ⟨ps, v, -, hps', happ⟩
    · refine ⟨b.map Piece.code ++ [.literal u] ++ blanks.map Piece.code, ?_, ?_⟩
      · rw [happ, hps]
        simp only [List.append_assoc]
      · intro c hc
        rcases List.mem_append.mp hc with hc | hc
        · exact blank u c hc
        · exact hb c (by simpa using hc)
    · rw [hps, ← List.append_assoc] at hps'
      obtain ⟨rfl, -⟩ := List.append_inj' hps' rfl
      refine ⟨b.map Piece.code ++ [.literal (v ++ blanks)], ?_, blank (v ++ blanks)⟩
      rw [happ]
      simp only [List.append_assoc]

/-- A place between two pieces of a line, with no code behind it but blanks and closing
braces. -/
structure Site (front back : Text) : Prop where
  between : pieces (front ++ back) = pieces front ++ pieces back
  closes : ∀ c, .code c ∈ pieces back → closesLine c = true

theorem Site.ofPieces {front back : Text} {ps qs : List Piece}
    (h : pieces (front ++ back) = ps ++ qs) (hps : ps.flatMap Piece.text = front)
    (hqs : ∀ c, .code c ∈ qs → closesLine c = true) : Site front back where
  between := pieces_append h hps
  closes := by
    rw [(pieces_of_append h hps).2]
    exact hqs

/-- Terminated code, put together with its comment and restored. -/
theorem restore_terminated {ps : List Piece} (clean : Unmarked ps) {u comment : Text}
    (hu : terminate? (numbered 0 (codePieces ps)) = some u)
    (hmasked : numbered 0 ps = numbered 0 (codePieces ps) ++ comment) :
    ∃ as b ds, codePieces ps = as ++ b.map Piece.code ∧ ps = as ++ b.map Piece.code ++ ds ∧
      u = numbered 0 as ++ ';' :: b ∧ Parts (numbered 0 as) b ∧
      restore (literals ps) (u ++ comment) =
        .ok (as.flatMap Piece.text ++ ';' :: b ++ ds.flatMap Piece.text) := by
  obtain ⟨a, b, hab, rfl, parts⟩ := of_terminate? hu
  have unmarked : mark ∉ b := fun h => absurd (parts.closes mark h) (by decide)
  obtain ⟨as, hcode, rfl⟩ := of_append_eq_numbered hab.symm unmarked
  obtain ⟨ds, hps⟩ := codePieces_append ps
  rw [hcode] at hps hmasked
  have hcomment : comment = numbered (literals (as ++ b.map Piece.code)).length ds := by
    rw [hps, numbered_append 0 (as ++ b.map Piece.code), Nat.zero_add] at hmasked
    exact (List.append_cancel_left hmasked).symm
  have restored := restore_inserted (hps ▸ clean) (show ';' ≠ mark by decide)
  rw [← hcomment, ← hps] at restored
  exact ⟨as, b, ds, hcode, hps, rfl, parts, restored⟩

/-- A site between the code of a line and what closes it. -/
theorem site_of_code {indent t blanks b : Text} {as ds : List Piece}
    (hi : ∀ c ∈ indent, Text.isBlank c = true) (hb : ∀ c ∈ blanks, Text.isBlank c = true)
    (hn : '\n' ∉ t ++ blanks) (hcode : codePieces (pieces t) = as ++ b.map Piece.code)
    (hps : pieces t = as ++ b.map Piece.code ++ ds) (closes : ∀ c ∈ b, closesLine c = true) :
    indent ++ (t ++ blanks) = indent ++ as.flatMap Piece.text ++ (b ++ ds.flatMap Piece.text ++ blanks) ∧
      Site (indent ++ as.flatMap Piece.text) (b ++ ds.flatMap Piece.text ++ blanks) := by
  have text : as.flatMap Piece.text ++ (b ++ ds.flatMap Piece.text) = t := by
    have whole := flatMap_text_pieces t
    rw [hps] at whole
    simpa only [List.flatMap_append, flatMap_text_map_code, List.append_assoc] using whole
  have whole : indent ++ (t ++ blanks) =
      indent ++ as.flatMap Piece.text ++ (b ++ ds.flatMap Piece.text ++ blanks) := by
    rw [← text]
    simp only [List.append_assoc]
  rw [List.mem_append, not_or] at hn
  obtain ⟨rest, hrest, blank⟩ := pieces_append_of_codePieces hn.1 hb hn.2 hcode
  have cut : pieces (indent ++ (t ++ blanks)) =
      (indent.map Piece.code ++ as) ++ (b.map Piece.code ++ rest) := by
    rw [pieces_blanks_append hi, hrest, List.append_assoc]
  rw [whole] at cut
  refine ⟨whole, Site.ofPieces cut ?_ fun c hc => ?_⟩
  · rw [List.flatMap_append, flatMap_text_map_code]
  · rcases List.mem_append.mp hc with hc | hc
    · obtain ⟨d, hd, hdc⟩ := List.mem_map.mp hc
      cases hdc
      exact closes _ hd
    · simp [closesLine, blank c hc]

theorem terminateLine_spec {line : Text} (hm : mark ∉ line) (hn : '\n' ∉ line) :
    ∃ u, terminateLine line = .ok u ∧
      (u = line ∨ ∃ front back, line = front ++ back ∧ u = front ++ ';' :: back ∧
        Site front back ∧ (terminate? (numbered 0 (lineCode line))).isSome) := by
  have parts := Text.splitIndent_append line
  have indentBlank : ∀ c ∈ (Text.splitIndent line).1, Text.isBlank c = true :=
    List.all_eq_true.mp List.all_takeWhile
  have code : lineCode line = codePieces (pieces (Text.trimEnd (Text.splitIndent line).2)) := rfl
  revert parts indentBlank
  rw [code]
  rcases hs : Text.splitIndent line with ⟨indent, body⟩
  intro parts indentBlank
  simp only [terminateLine, hs]
  by_cases hskip :
      (body.isEmpty || "//".toList.isPrefixOf body || "/*".toList.isPrefixOf body) = true
  · exact ⟨line, by rw [if_pos hskip], .inl rfl⟩
  rw [if_neg hskip]
  have trimmed : Text.trimEnd body ++ Text.takeEndWhile Text.isBlank body = body :=
    Text.dropEndWhile_append_takeEndWhile ..
  have inBody (c : Char) (hc : c ∈ body) : c ∈ line := parts ▸ List.mem_append_right indent hc
  have clean : Unmarked (pieces (Text.trimEnd body)) := unmarked_pieces fun h =>
    hm (inBody _ (trimmed ▸ List.mem_append_left _ h))
  obtain ⟨comment, hsplit, hmasked⟩ := splitComment_numbered clean
  simp only [mask, hsplit, bind, Except.bind]
  cases hu : terminate? (numbered 0 (codePieces (pieces (Text.trimEnd body)))) with
  | none => exact ⟨line, rfl, .inl rfl⟩
  | some u =>
      obtain ⟨as, b, ds, hcode, hps, -, parted, restored⟩ := restore_terminated clean hu hmasked
      simp only [restored]
      have onLine : '\n' ∉ Text.trimEnd body ++ Text.takeEndWhile Text.isBlank body :=
        fun h => hn (inBody _ (trimmed ▸ h))
      obtain ⟨whole, site⟩ := site_of_code indentBlank (fun c hc => Text.mem_takeEndWhile hc)
        onLine hcode hps parted.closes
      rw [trimmed, parts] at whole
      exact ⟨_, rfl, .inr ⟨_, _, whole, by simp, site, rfl⟩⟩

end Semicolon
end MotionExpr
