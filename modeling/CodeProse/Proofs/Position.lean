/-
# Positions follow the text

Further on in a text the position is never an earlier one: the line grows with each line break, and
on one line the column grows with each piece that starts (`Position.follows`). This holds whatever
a line is cut into, grapheme clusters or other pieces, as long as that is a segmentation: then the
part of a line up to an offset is cut as the whole line is, but for its last piece.
-/
import CodeProse.Position
import CodeProse.Proofs.Text.Cut
import CodeProse.Proofs.Unicode.Clusters
import Mathlib.Data.Prod.Lex

namespace CodeProse

open Text (byteLength cutAt?_eq_some_iff byteLength_append append_split_of_le)

/-! ## The last line -/

/-- A line starts behind a text: the first one, or the one behind its line break. -/
def Text.StartsLine (t : Text) : Prop := t = [] ∨ t.getLast? = some '\n'

/-- What goes on without a line break goes on in the last line. -/
theorem Text.lastLine_append {t m : Text} (h : '\n' ∉ m) :
    (t ++ m).lastLine = t.lastLine ++ m := by
  have hline : ∀ c ∈ m.reverse, (c != '\n') = true := by
    intro c hc
    rw [List.mem_reverse] at hc
    exact bne_iff_ne.2 fun heq => h (heq ▸ hc)
  rw [lastLine, lastLine, List.reverse_append, List.takeWhile_append_of_pos hline,
    List.reverse_append, List.reverse_reverse]

/-- The last line is empty at the start of a line only. -/
theorem Text.lastLine_eq_nil_iff (t : Text) :
    t.lastLine = [] ↔ t.StartsLine := by
  have hnil : t = [] ↔ t.reverse = [] := List.reverse_eq_nil_iff.symm
  rw [StartsLine, lastLine, List.reverse_eq_nil_iff, hnil, ← List.head?_reverse]
  cases t.reverse with
  | nil => simp
  | cons c rest => by_cases hc : c = '\n' <;> simp [hc]

/-- The last line is what stands behind the last line break, or the whole text if it has none. -/
theorem Text.lastLine_eq_iff (t line : Text) :
    t.lastLine = line ↔
      ∃ front : Text, t = front ++ line ∧ front.StartsLine ∧ '\n' ∉ line := by
  constructor
  · rintro rfl
    refine ⟨(t.reverse.dropWhile (· != '\n')).reverse, ?_, ?_, ?_⟩
    · rw [lastLine, ← List.reverse_append, List.takeWhile_append_dropWhile, List.reverse_reverse]
    · rw [StartsLine, List.reverse_eq_nil_iff, List.getLast?_reverse]
      cases hhead : (t.reverse.dropWhile (· != '\n')).head? with
      | none => exact .inl (List.head?_eq_none_iff.1 hhead)
      | some c =>
        have hstop := List.head?_dropWhile_not (· != '\n') t.reverse
        rw [hhead] at hstop
        have hc : c = '\n' := by simpa using hstop
        exact .inr (by rw [hc])
    · intro hmem
      rw [lastLine, List.mem_reverse] at hmem
      have hnot := List.all_eq_true.1 List.all_takeWhile _ hmem
      simp at hnot
  · rintro ⟨front, rfl, hfront, hline⟩
    rw [lastLine_append hline, (lastLine_eq_nil_iff front).2 hfront, List.nil_append]

namespace Position

/-! ## Comparing positions -/

/-- Positions are compared by line, and on one line by column. -/
def key (p : Position) : ℕ ×ₗ ℕ := toLex (p.line, p.column)

theorem key_lt_key_iff (p q : Position) :
    p.key < q.key ↔ p.line < q.line ∨ p.line = q.line ∧ p.column < q.column :=
  Prod.Lex.toLex_lt_toLex

theorem key_le_key_iff (p q : Position) :
    p.key ≤ q.key ↔ p.line < q.line ∨ p.line = q.line ∧ p.column ≤ q.column :=
  Prod.Lex.toLex_le_toLex

/-! ## Going on -/

variable {segment : Text → List Text} {t m : Text}

/-- Behind a line break the line is a later one. -/
theorem line_after_lt (h : '\n' ∈ m) : (after segment t).line < (after segment (t ++ m)).line := by
  have hpos := List.count_pos_iff.2 h
  simp only [after, List.count_append]
  omega

/-- Up to the next line break the line stays. -/
theorem line_after_append (h : '\n' ∉ m) :
    (after segment (t ++ m)).line = (after segment t).line := by
  simp only [after, List.count_append, List.count_eq_zero.2 h, Nat.add_zero]

/-- A text that goes on is not left for an earlier position. -/
theorem key_after_le (hsegment : Text.IsSegmentation segment) (t m : Text) :
    (after segment t).key ≤ (after segment (t ++ m)).key := by
  rw [key_le_key_iff]
  by_cases h : '\n' ∈ m
  · exact .inl (line_after_lt h)
  · refine .inr ⟨(line_after_append h).symm, ?_⟩
    rw [after, after, Text.lastLine_append h]
    exact Nat.add_le_add_right (hsegment.length_le _ _) 1

/-- Up to the next line break the column is a later one exactly behind the start of a piece. -/
theorem column_after_lt_iff (hsegment : Text.IsSegmentation segment) (h : '\n' ∉ m) :
    (after segment t).column < (after segment (t ++ m)).column ↔
      ∃ x piece y, segment (t ++ m).lastLine = x ++ piece :: y ∧ t.lastLine <+: x.flatten := by
  simp only [after, Text.lastLine_append h, Nat.add_lt_add_iff_right]
  exact hsegment.length_lt_iff _ _

/-! ## Offsets -/

/-- There is a line break between two offsets of a text. -/
def LineBetween (content : Text) (start stop : Nat) : Prop :=
  ∃ m, Text.slice? start stop content = some m ∧ '\n' ∈ m

/-- There is a whole piece between two offsets of a text, one of those of the line up to the second
offset: it starts at the first offset or behind it. -/
def PieceBetween (segment : Text → List Text) (content : Text) (start stop : Nat) : Prop :=
  ∃ front line rest x piece y, Text.cutAt? stop content = some (front ++ line, rest) ∧
    front.StartsLine ∧ '\n' ∉ line ∧ segment line = x ++ piece :: y ∧
      start ≤ byteLength (front ++ x.flatten)

theorem lineBetween_iff (t m rest : Text) :
    LineBetween (t ++ m ++ rest) (byteLength t) (byteLength (t ++ m)) ↔ '\n' ∈ m := by
  have hslice : Text.slice? (byteLength t) (byteLength (t ++ m)) (t ++ m ++ rest) = some m :=
    (Text.slice?_eq_some_iff _ _ _ _).2 ⟨t, rest, rfl, rfl, (byteLength_append t m).symm⟩
  rw [LineBetween, hslice]
  simp

theorem pieceBetween_iff (hsegment : Text.IsSegmentation segment) (h : '\n' ∉ m) (rest : Text) :
    PieceBetween segment (t ++ m ++ rest) (byteLength t) (byteLength (t ++ m)) ↔
      ∃ x piece y, segment (t ++ m).lastLine = x ++ piece :: y ∧ t.lastLine <+: x.flatten := by
  obtain ⟨front, ht, hfront, hline⟩ := (Text.lastLine_eq_iff t _).1 rfl
  have hlast : (t ++ m).lastLine = t.lastLine ++ m := Text.lastLine_append h
  constructor
  · rintro ⟨front', line', rest', x, piece, y, hcut, hfront', hline', hpieces, hle⟩
    rw [Text.cutAt?_append, Option.some.injEq, Prod.mk.injEq] at hcut
    obtain ⟨hcut, rfl⟩ := hcut
    obtain rfl : (t ++ m).lastLine = line' :=
      (Text.lastLine_eq_iff _ _).2 ⟨front', hcut, hfront', hline'⟩
    refine ⟨x, piece, y, hpieces, ?_⟩
    -- what stands before the line is the same with and without `m`
    obtain rfl : front = front' := by
      rw [hlast, ht, List.append_assoc, ← ht] at hcut
      exact List.append_cancel_right hcut
    have hflatten := hsegment.flatten (t ++ m).lastLine
    rw [hpieces, List.flatten_append, hlast] at hflatten
    rw [ht, byteLength_append, byteLength_append] at hle
    obtain ⟨w, hw, -⟩ := append_split_of_le hflatten.symm (Nat.le_of_add_le_add_left hle)
    exact ⟨w, hw.symm⟩
  · rintro ⟨x, piece, y, hpieces, w, hw⟩
    refine ⟨front, (t ++ m).lastLine, rest, x, piece, y, ?_, hfront, ?_, hpieces, ?_⟩
    · rw [hlast, ← List.append_assoc, ← ht, Text.cutAt?_append]
    · rw [hlast, List.mem_append]
      exact not_or.2 ⟨hline, h⟩
    · rw [← hw, ← List.append_assoc, ← ht, byteLength_append]
      exact Nat.le_add_right _ _

/-- The position is a later one exactly behind a line break, or behind the start of a piece of the
same line. -/
theorem key_after_lt_iff (hsegment : Text.IsSegmentation segment) (t m rest : Text) :
    (after segment t).key < (after segment (t ++ m)).key ↔
      LineBetween (t ++ m ++ rest) (byteLength t) (byteLength (t ++ m)) ∨
        PieceBetween segment (t ++ m ++ rest) (byteLength t) (byteLength (t ++ m)) := by
  rw [key_lt_key_iff, lineBetween_iff]
  by_cases h : '\n' ∈ m
  · simp [h, line_after_lt]
  · rw [pieceBetween_iff hsegment h, ← column_after_lt_iff hsegment h, line_after_append h]
    simp [h]

theorem ofOffset_eq {content before rest : Text} {offset : Nat}
    (h : Text.cutAt? offset content = some (before, rest)) :
    ofOffset content offset segment = after segment before := by
  rw [ofOffset, h]

/-- **Positions follow the text.** The line counts the line breaks before an offset, and the column
the pieces between the start of the line and the offset; it is the first one exactly at the start of
a line. Of two offsets the later one has no earlier position, and it has a later one exactly if
there is a line break or a piece between them. -/
structure Follows (segment : Text → List Text) (content : Text) : Prop where
  line : ∀ offset before rest, Text.cutAt? offset content = some (before, rest) →
    (ofOffset content offset segment).line = before.count '\n' + 1
  column : ∀ offset (front line rest : Text),
    Text.cutAt? offset content = some (front ++ line, rest) → front.StartsLine →
      '\n' ∉ line → (ofOffset content offset segment).column = (segment line).length + 1
  column_eq_one_iff : ∀ offset before rest, Text.cutAt? offset content = some (before, rest) →
    ((ofOffset content offset segment).column = 1 ↔ before.StartsLine)
  key_le : ∀ start stop, start ≤ stop → Text.isBoundary start content = true →
    Text.isBoundary stop content = true →
      (ofOffset content start segment).key ≤ (ofOffset content stop segment).key
  key_lt_iff : ∀ start stop, start ≤ stop → Text.isBoundary start content = true →
    Text.isBoundary stop content = true →
      ((ofOffset content start segment).key < (ofOffset content stop segment).key ↔
        LineBetween content start stop ∨ PieceBetween segment content start stop)

/-- Two offsets of a text part it into three. -/
theorem exists_parts {content : Text} {start stop : Nat} (hle : start ≤ stop)
    (hstart : Text.isBoundary start content = true)
    (hstop : Text.isBoundary stop content = true) :
    ∃ t m rest, content = t ++ m ++ rest ∧ byteLength t = start ∧ byteLength (t ++ m) = stop := by
  obtain ⟨m, hm⟩ := Option.isSome_iff_exists.1
    ((Text.isSome_slice?_iff start stop content).2 ⟨hle, hstart, hstop⟩)
  obtain ⟨t, rest, hcontent, hlength, hend⟩ := (Text.slice?_eq_some_iff _ _ _ _).1 hm
  exact ⟨t, m, rest, hcontent, hlength, by rw [byteLength_append, hlength, hend]⟩

/-- The positions of every text follow it, whatever segmentation the columns count. -/
theorem follows (hsegment : Text.IsSegmentation segment) (content : Text) :
    Follows segment content where
  line offset before rest h := by
    rw [ofOffset_eq h]
    rfl
  column offset front line rest h hfront hline := by
    have hlast := (Text.lastLine_eq_iff (front ++ line) line).2 ⟨front, rfl, hfront, hline⟩
    rw [ofOffset_eq h, after, hlast]
  column_eq_one_iff offset before rest h := by
    rw [ofOffset_eq h, ← Text.lastLine_eq_nil_iff, after, ← hsegment.eq_nil_iff,
      Nat.add_eq_right, List.length_eq_zero_iff]
  key_le start stop hle hstart hstop := by
    obtain ⟨t, m, rest, rfl, rfl, rfl⟩ := exists_parts hle hstart hstop
    rw [ofOffset_eq (Text.cutAt?_append (t ++ m) rest), List.append_assoc,
      ofOffset_eq (Text.cutAt?_append t (m ++ rest))]
    exact key_after_le hsegment t m
  key_lt_iff start stop hle hstart hstop := by
    obtain ⟨t, m, rest, rfl, rfl, rfl⟩ := exists_parts hle hstart hstop
    rw [← key_after_lt_iff hsegment, ofOffset_eq (Text.cutAt?_append (t ++ m) rest),
      List.append_assoc, ofOffset_eq (Text.cutAt?_append t (m ++ rest))]

/-- With grapheme clusters: in a text with a line break of two characters, a flag of two indicators
and a letter with an accent. -/
theorem follows_clusters : Text.IsSegmentation Unicode.clusters ∧
    Follows Unicode.clusters "a\r\n🇩🇪e\u0301".toList :=
  ⟨Unicode.isSegmentation_clusters, follows Unicode.isSegmentation_clusters _⟩

/-- A line break of two characters ends its line with the second one. -/
example : [1, 2, 3].map (ofOffset "a\r\nb".toList ·) = [⟨1, 2⟩, ⟨1, 3⟩, ⟨2, 1⟩] := by
  decide

end Position

end CodeProse
