/-
# Repeated words

A word is a maximal run of ASCII letters, digits, underscores and apostrophes that has no apostrophe
at either end. It is repeated where it stands a second time, up to the case of ASCII letters, with
only white space in between (`Repeats`). The search goes through neighbouring runs, words or not; it
finds the same as a search through the words alone, for a run that is no word would stand in the gap
between them (`illusionRemarks_eq_wordPairs`). It finds every repetition and nothing else, each once
and in the order of the text, so in a row of `k` equal words it finds `k - 1` (`findsRepetitions`).
-/
import CodeProse.Proofs.Style.Remark
import CodeProse.Proofs.Style.Search

namespace CodeProse.Style

open Text (IsRun append_inj_of_head append_split_of_le slice?_eq_some_iff)
open Unicode

/-! ## Words -/

/-- What stands between two parts of a text is a word: a maximal run of word characters and
apostrophes that neither begins nor ends with an apostrophe. -/
structure IsPlainWordAt (left word right : Text) : Prop
    extends IsRun isPlainWordChar left word right where
  first : word.head? ≠ some '\''
  last : word.getLast? ≠ some '\''

theorem isPlainWord_iff (word : Text) :
    isPlainWord word = true ↔ word.head? ≠ some '\'' ∧ word.getLast? ≠ some '\'' := by
  simp [isPlainWord]

/-- White space is in no word. -/
theorem not_isPlainWordChar_of_isWhitespace {c : Char} (h : isWhitespace c = true) :
    isPlainWordChar c = false := by
  rw [isPlainWordChar, Text.not_isAsciiWordChar_of_isWhitespace h, Bool.false_or,
    beq_eq_false_iff_ne]
  rintro rfl
  revert h
  decide

/-- In a text, a word stands twice with only white space in between. -/
structure Repeats (t left word gap again right : Text) : Prop where
  split : t = left ++ word ++ gap ++ again ++ right
  first : IsPlainWordAt left word (gap ++ again ++ right)
  second : IsPlainWordAt (left ++ word ++ gap) again right
  gap_ne_nil : gap ≠ []
  blank : ∀ c ∈ gap, isWhitespace c = true
  same : eqIgnoreAsciiCase word again = true

/-- The remark on a repeated word. -/
def repetition (start : Nat) (word gap again : Text) : Remark :=
  .quoting start (word ++ gap ++ again) again "is repeated"

/-- A repeated word is two runs that follow each other. -/
theorem Repeats.exists_adjacent {t left word gap again right : Text}
    (h : Repeats t left word gap again right) :
    ∃ a b, [a, b] <:+: t.runs isPlainWordChar ∧ a.text = word ∧ b.gap = gap ∧ b.text = again ∧
      a.start = left.byteLength ∧ a.stop = (left ++ word).byteLength ∧
      b.start = (left ++ word ++ gap).byteLength :=
  Text.exists_adjacent h.split h.first.toIsRun h.second.toIsRun fun c hc =>
    not_isPlainWordChar_of_isWhitespace (h.blank c hc)

/-! ## Pairs of neighbours -/

/-- Remarks on the pairs of neighbours of a list. -/
def pairRemarks (remark? : Run → Run → Option Remark) : List Run → List Remark
  | a :: b :: rest => (remark? a b).toList ++ pairRemarks remark? (b :: rest)
  | _ => []

variable {remark? : Run → Run → Option Remark}

theorem mem_pairRemarks_iff (runs : List Run) (r : Remark) :
    r ∈ pairRemarks remark? runs ↔ ∃ a b, [a, b] <:+: runs ∧ remark? a b = some r := by
  fun_induction pairRemarks remark? runs with
  | case1 a b rest ih =>
    rw [List.mem_append, Option.mem_toList, ih]
    constructor
    · rintro (hr | ⟨x, y, hin, hr⟩)
      · exact ⟨a, b, ⟨[], rest, rfl⟩, hr⟩
      · exact ⟨x, y, hin.trans (List.suffix_cons a _).isInfix, hr⟩
    · rintro ⟨x, y, hin, hr⟩
      rcases List.infix_cons_iff.1 hin with hstart | hin
      · obtain ⟨rfl, hnext⟩ := List.cons_prefix_cons.1 hstart
        obtain ⟨rfl, -⟩ := List.cons_prefix_cons.1 hnext
        exact .inl hr
      · exact .inr ⟨x, y, hin, hr⟩
  | case2 runs hrest =>
    refine iff_of_false List.not_mem_nil ?_
    rintro ⟨a, b, hin, -⟩
    rcases runs with - | ⟨x, - | ⟨y, rest⟩⟩
    · simp at hin
    · have := hin.length_le
      simp at this
    · exact hrest x y rest rfl

/-- Remarks that begin where the first run of their pair does are in the order of the runs. -/
theorem pairwise_pairRemarks (hstart : ∀ a b r, remark? a b = some r → r.start = a.start)
    {runs : List Run} (hruns : runs.Pairwise fun a b => a.start < b.start) :
    (pairRemarks remark? runs).Pairwise fun a b => a.start < b.start := by
  fun_induction pairRemarks remark? runs with
  | case1 a b rest ih =>
    obtain ⟨hfirst, hrest⟩ := List.pairwise_cons.1 hruns
    refine List.pairwise_append.2 ⟨?_, ih hrest, ?_⟩
    · cases remark? a b <;> simp
    · intro r hr r' hr'
      obtain ⟨x, y, hin, hpair⟩ := (mem_pairRemarks_iff _ _).1 hr'
      have hx : x ∈ b :: rest := hin.subset List.mem_cons_self
      rw [hstart _ _ _ (Option.mem_toList.1 hr), hstart _ _ _ hpair]
      exact hfirst x hx
  | case2 runs hrest => exact .nil

/-- The remark on two runs that follow each other, if both are words and the same. -/
def repetition? (a b : Run) : Option Remark :=
  if isPlainWord a.text && isPlainWord b.text && b.gap.all isWhitespace
      && eqIgnoreAsciiCase a.text b.text then
    some (repetition a.start a.text b.gap b.text)
  else none

theorem illusionRemarks_eq_pairRemarks (t : Text) :
    illusionRemarks t = pairRemarks repetition? (t.runs isPlainWordChar) := by
  unfold illusionRemarks
  generalize t.runs isPlainWordChar = runs
  fun_induction repeatedPairs runs with
  | case1 a b rest later hpair ih => simp [pairRemarks, repetition?, hpair, ← ih, later, repetition]
  | case2 a b rest later hpair ih => simp [pairRemarks, repetition?, hpair, ← ih, later]
  | case3 runs hrest =>
    rcases runs with - | ⟨x, - | ⟨y, rest⟩⟩
    · rfl
    · rfl
    · exact absurd rfl (hrest x y rest)

/-! ## What is found -/

/-- **A remark is on a repeated word,** and on every one. -/
theorem mem_illusionRemarks_iff (t : Text) (r : Remark) :
    r ∈ illusionRemarks t ↔ ∃ left word gap again right,
      Repeats t left word gap again right ∧ r = repetition left.byteLength word gap again := by
  rw [illusionRemarks_eq_pairRemarks, mem_pairRemarks_iff]
  constructor
  · rintro ⟨a, b, hab, hr⟩
    unfold repetition? at hr
    split at hr
    case isTrue hpair =>
      simp only [Bool.and_eq_true, isPlainWord_iff, List.all_eq_true] at hpair
      obtain ⟨⟨⟨hfirst, hsecond⟩, hblank⟩, hsame⟩ := hpair
      obtain ⟨left, right, ht, hstart, ha, hb⟩ := Text.isRun_of_adjacent hab
      refine ⟨left, a.text, b.gap, b.text, right,
        ⟨ht, ⟨ha, hfirst.1, hfirst.2⟩, ⟨hb, hsecond.1, hsecond.2⟩, ?_, hblank, hsame⟩, ?_⟩
      · -- without a gap the second run would belong to the first
        intro hnil
        obtain ⟨c, w, hw⟩ := List.exists_cons_of_ne_nil hb.ne_nil
        have hc := ha.after c (by simp [hnil, hw])
        rw [hb.all c (by simp [hw])] at hc
        cases hc
      · rw [hstart, ← Option.some.inj hr]
    case isFalse => cases hr
  · rintro ⟨left, word, gap, again, right, h, rfl⟩
    obtain ⟨a, b, hab, rfl, rfl, rfl, hstart, -, -⟩ := h.exists_adjacent
    refine ⟨a, b, hab, ?_⟩
    have hpair : (isPlainWord a.text && isPlainWord b.text && b.gap.all isWhitespace
        && eqIgnoreAsciiCase a.text b.text) = true := by
      simp only [Bool.and_eq_true, isPlainWord_iff, List.all_eq_true]
      exact ⟨⟨⟨⟨h.first.first, h.first.last⟩, h.second.first, h.second.last⟩, h.blank⟩, h.same⟩
    rw [repetition?, if_pos hpair, hstart]

theorem pairwise_illusionRemarks (t : Text) :
    (illusionRemarks t).Pairwise fun a b => a.start < b.start := by
  rw [illusionRemarks_eq_pairRemarks]
  refine pairwise_pairRemarks ?_ (Text.pairwise_runs _ _)
  intro a b r hr
  unfold repetition? at hr
  split at hr
  · rw [← Option.some.inj hr]
    rfl
  · cases hr

/-! ## The words alone -/

/-- Whether a run has a word edge at either end. -/
def hasWordEdges (t : Text) (r : Run) : Bool :=
  isWordEdge r.start t && isWordEdge r.stop t

/-- The words of a text: the runs with word edges. -/
def plainWords (t : Text) : List Run :=
  (t.runs isPlainWordChar).filter (hasWordEdges t)

/-- The remark on two words, if they are the same and nothing but white space is between them in the
text. -/
def repetitionIn? (t : Text) (a b : Run) : Option Remark :=
  (Text.slice? a.stop b.start t).bind fun gap =>
    if !gap.isEmpty && gap.all isWhitespace && eqIgnoreAsciiCase a.text b.text then
      some (repetition a.start a.text gap b.text)
    else none

/-- Remarks on the neighbours among the words of a text. -/
def wordPairs (t : Text) : List Remark :=
  pairRemarks (repetitionIn? t) (plainWords t)

/-- Next to a character that is in no word there is an edge unless an apostrophe stands there. -/
theorem isEdge_iff_of_isPlainWordChar {outer : Option Char} {c : Char}
    (houter : ∀ d, outer = some d → isPlainWordChar d = false) (hc : isPlainWordChar c = true) :
    (isEdge outer (some c) = true ↔ c ≠ '\'') ∧ (isEdge (some c) outer = true ↔ c ≠ '\'') := by
  have hout : outer.any isAsciiWordChar = false := by
    cases outer with
    | none => rfl
    | some d => exact (Bool.or_eq_false_iff.1 (houter d rfl)).1
  have hin : isAsciiWordChar c = true ↔ c ≠ '\'' := by
    constructor
    · rintro h rfl
      revert h
      decide
    · intro hne
      exact (Bool.or_eq_true_iff.1 hc).resolve_right (by simpa using hne)
  simp [isEdge, hout, hin]

/-- The runs with word edges are those without apostrophes at the ends. -/
theorem mem_plainWords_iff (t : Text) (r : Run) :
    r ∈ plainWords t ↔ r ∈ t.runs isPlainWordChar ∧ r.text.head? ≠ some '\'' ∧
      r.text.getLast? ≠ some '\'' := by
  rw [plainWords, List.mem_filter, hasWordEdges, Bool.and_eq_true]
  refine and_congr_right fun hr => ?_
  obtain ⟨left, right, rfl, hstart, hstop, hrun⟩ := Text.isRun_of_mem_runs hr
  have hfirst : isWordEdge r.start (left ++ r.text ++ right)
      = isEdge left.getLast? (r.text ++ right).head? := by
    rw [← hstart, List.append_assoc, isWordEdge_append]
  have hlast : isWordEdge r.stop (left ++ r.text ++ right)
      = isEdge (left ++ r.text).getLast? right.head? := by
    rw [← hstop, isWordEdge_append]
  obtain ⟨c, w, hw⟩ := List.exists_cons_of_ne_nil hrun.ne_nil
  obtain ⟨w', d, hd⟩ := (List.eq_nil_or_concat r.text).resolve_left hrun.ne_nil
  rw [List.concat_eq_append] at hd
  have hhead : (r.text ++ right).head? = some c ∧ r.text.head? = some c := by simp [hw]
  have hend : (left ++ r.text).getLast? = some d ∧ r.text.getLast? = some d := by simp [hd]
  rw [hfirst, hlast, hhead.1, hhead.2, hend.1, hend.2,
    (isEdge_iff_of_isPlainWordChar hrun.before (hrun.all c (by simp [hw]))).1,
    (isEdge_iff_of_isPlainWordChar hrun.after (hrun.all d (by simp [hd]))).2]
  simp

theorem mem_wordPairs_iff (t : Text) (r : Remark) :
    r ∈ wordPairs t ↔ ∃ left word gap again right,
      Repeats t left word gap again right ∧ r = repetition left.byteLength word gap again := by
  rw [wordPairs, mem_pairRemarks_iff]
  constructor
  · rintro ⟨a, b, hab, hr⟩
    obtain ⟨ha, hfirst, hlast⟩ := (mem_plainWords_iff t a).1 (hab.subset (by simp))
    obtain ⟨hb, hfirst', hlast'⟩ := (mem_plainWords_iff t b).1 (hab.subset (by simp))
    obtain ⟨gap, hslice, hr⟩ := Option.bind_eq_some_iff.1 hr
    split at hr
    case isTrue hpair =>
      simp only [Bool.and_eq_true, Bool.not_eq_true', List.isEmpty_eq_false_iff,
        List.all_eq_true] at hpair
      obtain ⟨⟨hne, hblank⟩, hsame⟩ := hpair
      obtain ⟨x, y, hsplit, hx, hgap⟩ := (slice?_eq_some_iff _ _ _ _).1 hslice
      obtain ⟨left, rest, ht, hstart, hstop, hrun⟩ := Text.isRun_of_mem_runs ha
      obtain ⟨left', right, ht', hstart', -, hrun'⟩ := Text.isRun_of_mem_runs hb
      -- the gap begins where the first word ends, and ends where the second one begins
      have hfront : x ++ (gap ++ y) = left ++ a.text ++ rest := by
        rw [← List.append_assoc, ← hsplit, ht]
      obtain ⟨rfl, -⟩ := Text.append_inj hfront (by rw [hx, hstop])
      have hback : left ++ a.text ++ gap ++ y = left' ++ (b.text ++ right) := by
        rw [← hsplit, ht', List.append_assoc]
      obtain ⟨rfl, rfl⟩ := Text.append_inj hback (by
        rw [Text.byteLength_append, hx, hgap, hstart'])
      rw [← List.append_cancel_left hfront, ← List.append_assoc] at hrun
      refine ⟨left, a.text, gap, b.text, right,
        ⟨ht', ⟨hrun, hfirst, hlast⟩, ⟨hrun', hfirst', hlast'⟩, hne, hblank, hsame⟩, ?_⟩
      rw [hstart, ← Option.some.inj hr]
    case isFalse => cases hr
  · rintro ⟨left, word, gap, again, right, h, rfl⟩
    obtain ⟨a, b, hab, rfl, rfl, rfl, hstart, hstop, hnext⟩ := h.exists_adjacent
    have hwords : [a, b] <:+: plainWords t := by
      have ha : a ∈ plainWords t :=
        (mem_plainWords_iff t a).2 ⟨hab.subset (by simp), h.first.first, h.first.last⟩
      have hb : b ∈ plainWords t :=
        (mem_plainWords_iff t b).2 ⟨hab.subset (by simp), h.second.first, h.second.last⟩
      have hboth : [a, b].filter (hasWordEdges t) = [a, b] :=
        List.filter_eq_self.2 (by simp [(List.mem_filter.1 ha).2, (List.mem_filter.1 hb).2])
      exact hboth ▸ hab.filter (hasWordEdges t)
    have hslice : Text.slice? a.stop b.start t = some b.gap := by
      refine (slice?_eq_some_iff _ _ _ _).2 ⟨left ++ a.text, b.text ++ right, ?_, hstop.symm, ?_⟩
      · rw [h.split, List.append_assoc (left ++ a.text ++ b.gap)]
      · rw [hstop, hnext, Text.byteLength_append _ b.gap]
    have hpair : (!b.gap.isEmpty && b.gap.all isWhitespace && eqIgnoreAsciiCase a.text b.text)
        = true := by
      simp only [Bool.and_eq_true, Bool.not_eq_true', List.isEmpty_eq_false_iff, List.all_eq_true]
      exact ⟨⟨h.gap_ne_nil, h.blank⟩, h.same⟩
    refine ⟨a, b, hwords, ?_⟩
    rw [repetitionIn?, hslice, Option.bind_some, if_pos hpair, hstart]

theorem pairwise_wordPairs (t : Text) : (wordPairs t).Pairwise fun a b => a.start < b.start := by
  refine pairwise_pairRemarks ?_ ((Text.pairwise_runs _ _).filter _)
  intro a b r hr
  obtain ⟨gap, -, hr⟩ := Option.bind_eq_some_iff.1 hr
  split at hr
  · rw [← Option.some.inj hr]
    rfl
  · cases hr

/-- **Only the words count.**  A run that is no word is never in the white space between two words,
so the neighbours among all runs and those among the words give the same remarks. -/
theorem illusionRemarks_eq_wordPairs (t : Text) : illusionRemarks t = wordPairs t :=
  eq_of_start_lt (pairwise_illusionRemarks t) (pairwise_wordPairs t) fun r =>
    (mem_illusionRemarks_iff t r).trans (mem_wordPairs_iff t r).symm

/-! ## Rows of equal words -/

/-- A row of words: the first one, and the others with the white space in front of them. -/
def rowText (word : Text) : List (Text × Text) → Text
  | [] => word
  | (gap, next) :: rest => word ++ gap ++ rowText next rest

/-- Between two parts of a text, words that are the same stand in a row, with only white space
between them. -/
def RowAt (left word : Text) : List (Text × Text) → Text → Prop
  | [], right => IsPlainWordAt left word right
  | (gap, next) :: rest, right =>
    IsPlainWordAt left word (gap ++ rowText next rest ++ right) ∧ gap ≠ [] ∧
      (∀ c ∈ gap, isWhitespace c = true) ∧ eqIgnoreAsciiCase word next = true ∧
      RowAt (left ++ word ++ gap) next rest right

/-- The remarks on the neighbours in a row of words. -/
def rowRemarks (start : Nat) (word : Text) : List (Text × Text) → List Remark
  | [] => []
  | (gap, next) :: rest =>
    repetition start word gap next :: rowRemarks (start + (word ++ gap).byteLength) next rest

variable {left word right : Text} {others : List (Text × Text)}

theorem length_rowRemarks (start : Nat) (word : Text) (others : List (Text × Text)) :
    (rowRemarks start word others).length = others.length := by
  induction others generalizing start word with
  | nil => rfl
  | cons other rest ih => rw [rowRemarks, List.length_cons, List.length_cons, ih]

/-- A row begins with its first word. -/
theorem byteLength_le_rowText (word : Text) (others : List (Text × Text)) :
    word.byteLength ≤ (rowText word others).byteLength := by
  cases others with
  | nil => exact Nat.le_refl _
  | cons other rest =>
    simp only [rowText, Text.byteLength_append]
    omega

/-- The first word of a row is a word of the text. -/
theorem RowAt.first (h : RowAt left word others right) :
    ∃ more, rowText word others ++ right = word ++ more ∧ IsPlainWordAt left word more := by
  cases others with
  | nil => exact ⟨right, rfl, h⟩
  | cons other rest => exact ⟨_, by simp [rowText], h.1⟩

/-- The second word of a row repeats the first. -/
theorem RowAt.repeats {gap next : Text} {rest : List (Text × Text)}
    (h : RowAt left word ((gap, next) :: rest) right) :
    ∃ more, rowText next rest ++ right = next ++ more ∧
      Repeats (left ++ rowText word ((gap, next) :: rest) ++ right) left word gap next more := by
  obtain ⟨hword, hne, hblank, hsame, hrest⟩ := h
  obtain ⟨more, hmore, hnext⟩ := hrest.first
  refine ⟨more, hmore, ⟨?_, ?_, hnext, hne, hblank, hsame⟩⟩
  · simp [rowText, hmore]
  · rwa [List.append_assoc, hmore, ← List.append_assoc] at hword

/-- Where two words repeat each other and the first is behind the start of a row, it is the second
word of the row or behind that. -/
theorem exists_of_behind {m u gap v : Text} (h : m ++ u = word ++ (gap ++ v)) (hne : m ≠ [])
    (hm : ∀ c, m.getLast? = some c → isPlainWordChar c = false)
    (hu : ∃ c, u.head? = some c ∧ isPlainWordChar c = true)
    (hword : ∀ c ∈ word, isPlainWordChar c = true) (hgap : ∀ c ∈ gap, isWhitespace c = true) :
    ∃ z, m = word ++ gap ++ z := by
  obtain ⟨m, d, rfl⟩ := (List.eq_nil_or_concat m).resolve_left hne
  rw [List.concat_eq_append] at h hm ⊢
  have hd := hm d (by simp)
  obtain ⟨c, hc, hplain⟩ := hu
  rcases List.append_eq_append_iff.1 h with ⟨y, hy, -⟩ | ⟨y, hy, hrest⟩
  · -- the character in front of the word would be in the first word of the row
    rw [hword d (by simp [hy])] at hd
    cases hd
  · rcases List.append_eq_append_iff.1 hrest with ⟨z, rfl, -⟩ | ⟨z, rfl, hz⟩
    · exact ⟨z, by rw [hy, List.append_assoc]⟩
    · cases z with
      | nil => exact ⟨[], by rw [hy]; simp⟩
      | cons e z =>
        -- the word would begin in the white space
        rw [hz, List.cons_append, List.head?_cons, Option.some.injEq] at hc
        have he := not_isPlainWordChar_of_isWhitespace (hgap e (by simp))
        rw [hc, hplain] at he
        cases he

/-- The first two words of a row are the only words there that repeat each other. -/
theorem Repeats.eq_of_start {t gap next more : Text} {w g a rest : Text}
    (h : Repeats t left word gap next more) (h' : Repeats t left w g a rest) :
    w = word ∧ g = gap ∧ a = next := by
  have hsplit : word ++ (gap ++ (next ++ more)) = w ++ (g ++ (a ++ rest)) := by
    have hsame : left ++ (word ++ (gap ++ (next ++ more))) = left ++ (w ++ (g ++ (a ++ rest))) := by
      simpa using h.split.symm.trans h'.split
    exact List.append_cancel_left hsame
  have hvisible : ∀ {l u v : Text}, IsPlainWordAt l u v →
      ∀ c, (u ++ v).head? = some c → isWhitespace c = false := by
    intro l u v hu c hc
    obtain ⟨d, u', rfl⟩ := List.exists_cons_of_ne_nil hu.ne_nil
    obtain rfl : d = c := Option.some.inj hc
    have hd := hu.all d List.mem_cons_self
    rw [Bool.eq_false_iff]
    intro hblank
    rw [not_isPlainWordChar_of_isWhitespace hblank] at hd
    cases hd
  obtain ⟨hw, hrest⟩ := append_inj_of_head hsplit h.first.all h'.first.all
    (by simpa using h.first.after) (by simpa using h'.first.after)
  obtain ⟨hg, hrest⟩ := append_inj_of_head hrest h.blank h'.blank (hvisible h.second)
    (hvisible h'.second)
  obtain ⟨ha, -⟩ := append_inj_of_head hrest h.second.all h'.second.all h.second.after
    h'.second.after
  exact ⟨hw.symm, hg.symm, ha.symm⟩

/-- A word has no white space in it, so nothing is repeated within it. -/
theorem Repeats.not_within {t l w g a rest : Text} (h : Repeats t l w g a rest)
    (ht : t = left ++ word ++ right) (hword : ∀ c ∈ word, isPlainWordChar c = true)
    (hstart : left.byteLength ≤ l.byteLength) :
    ¬ (l ++ w ++ g ++ a).byteLength ≤ (left ++ word).byteLength := by
  intro hstop
  have hsplit : left ++ (word ++ right) = l ++ (w ++ g ++ a ++ rest) := by
    rw [← List.append_assoc, ← ht, h.split]
    simp
  obtain ⟨m, rfl, hm⟩ := append_split_of_le hsplit hstart
  have hinside : (m ++ w ++ g ++ a) ++ rest = word ++ right := by
    rw [hm]
    simp
  obtain ⟨z, hz, -⟩ := append_split_of_le hinside (by
    simp only [Text.byteLength_append] at hstop ⊢
    omega)
  obtain ⟨c, g', hg⟩ := List.exists_cons_of_ne_nil h.gap_ne_nil
  have hc := not_isPlainWordChar_of_isWhitespace (h.blank c (by simp [hg]))
  rw [hword c (by simp [hz, hg])] at hc
  cases hc

/-- Behind the start of two words that repeat each other, the next repetition begins with the second
of them at the earliest. -/
theorem Repeats.le_of_lt {t gap next more l w g a rest : Text}
    (h : Repeats t left word gap next more) (h' : Repeats t l w g a rest)
    (hlt : left.byteLength < l.byteLength) :
    (left ++ word ++ gap).byteLength ≤ l.byteLength := by
  have hsplit : left ++ (word ++ gap ++ next ++ more) = l ++ (w ++ g ++ a ++ rest) := by
    simpa using h.split.symm.trans h'.split
  obtain ⟨m, rfl, hm⟩ := append_split_of_le hsplit (Nat.le_of_lt hlt)
  have hne : m ≠ [] := by
    rintro rfl
    simp at hlt
  obtain ⟨c, w', hw⟩ := List.exists_cons_of_ne_nil h'.first.ne_nil
  have hbehind : m ++ (w ++ g ++ a ++ rest) = word ++ (gap ++ (next ++ more)) := by
    rw [← hm]
    simp
  obtain ⟨z, rfl⟩ := exists_of_behind hbehind hne
    (fun d hd => h'.first.before d (by rw [List.getLast?_append, hd]; rfl))
    ⟨c, by simp [hw], h'.first.all c (by simp [hw])⟩ h.first.all h.blank
  simp only [Text.byteLength_append]
  omega

/-- **The repetitions within a row** are those of the neighbours in it. -/
theorem mem_rowRemarks_iff {t : Text} (hrow : RowAt left word others right)
    (ht : t = left ++ rowText word others ++ right) (r : Remark) :
    r ∈ rowRemarks left.byteLength word others ↔
      (∃ l w g a rest, Repeats t l w g a rest ∧ r = repetition l.byteLength w g a) ∧
        left.byteLength ≤ r.start ∧
        r.start + r.length ≤ (left ++ rowText word others).byteLength := by
  -- by induction along the row: a repetition is of its first two words, or behind the first
  induction others generalizing left word with
  | nil =>
    refine iff_of_false List.not_mem_nil ?_
    rintro ⟨⟨l, w, g, a, rest, h, rfl⟩, hstart, hstop⟩
    refine h.not_within ht hrow.all hstart ?_
    simpa [repetition, Remark.quoting, Nat.add_assoc, rowText] using hstop
  | cons other others ih =>
    obtain ⟨gap, next⟩ := other
    obtain ⟨more, hmore, hfirst⟩ := hrow.repeats
    rw [← ht] at hfirst
    have htail : t = left ++ word ++ gap ++ rowText next others ++ right := by
      rw [ht]
      simp [rowText]
    have hoffset : left.byteLength + (word ++ gap).byteLength
        = (left ++ word ++ gap).byteLength := by simp
    have hends : (left ++ rowText word ((gap, next) :: others)).byteLength
        = (left ++ word ++ gap ++ rowText next others).byteLength := by
      simp [rowText]
    rw [rowRemarks, List.mem_cons, hoffset, ih hrow.2.2.2.2 htail, hends]
    constructor
    · rintro (rfl | ⟨hrepeats, hstart, hstop⟩)
      · refine ⟨⟨left, word, gap, next, more, hfirst, rfl⟩, Nat.le_refl _, ?_⟩
        have hle := byteLength_le_rowText next others
        simp only [repetition, Remark.quoting, Text.byteLength_append]
        omega
      · refine ⟨hrepeats, ?_, hstop⟩
        rw [← hoffset] at hstart
        omega
    · rintro ⟨⟨l, w, g, a, rest, h, rfl⟩, hstart, hstop⟩
      rcases Nat.eq_or_lt_of_le hstart with heq | hlt
      · have hsplit : left ++ (word ++ gap ++ next ++ more) = l ++ (w ++ g ++ a ++ rest) := by
          simpa using hfirst.split.symm.trans h.split
        obtain ⟨rfl, -⟩ := Text.append_inj hsplit heq
        obtain ⟨rfl, rfl, rfl⟩ := hfirst.eq_of_start h
        exact .inl rfl
      · exact .inr ⟨⟨l, w, g, a, rest, h, rfl⟩, hfirst.le_of_lt h hlt, hstop⟩

theorem le_start_of_mem_rowRemarks {start : Nat} {r : Remark}
    (h : r ∈ rowRemarks start word others) : start ≤ r.start := by
  induction others generalizing start word with
  | nil => cases h
  | cons other rest ih =>
    rcases List.mem_cons.1 h with rfl | h
    · exact Nat.le_refl _
    · exact Nat.le_of_add_right_le (ih h)

theorem RowAt.pairwise (h : RowAt left word others right) :
    (rowRemarks left.byteLength word others).Pairwise fun a b => a.start < b.start := by
  induction others generalizing left word with
  | nil => exact .nil
  | cons other rest ih =>
    obtain ⟨hword, -, -, -, hrest⟩ := h
    have hpos := mt (Text.byteLength_eq_zero_iff word).1 hword.ne_nil
    have hoffset : left.byteLength + (word ++ other.1).byteLength
        = (left ++ word ++ other.1).byteLength := by simp
    rw [rowRemarks, hoffset]
    refine List.pairwise_cons.2 ⟨fun r hr => ?_, ih hrest⟩
    have hle := le_start_of_mem_rowRemarks hr
    show left.byteLength < r.start
    simp only [Text.byteLength_append] at hle
    omega

/-! ## All repetitions of a text -/

/-- Between two offsets of a text stands a word that is repeated. -/
def IsRepetition (t : Text) (start stop : Nat) : Prop :=
  ∃ left word gap again right, Repeats t left word gap again right ∧
    left.byteLength = start ∧ (left ++ word ++ gap ++ again).byteLength = stop

/-- Remarks are on the repeated words of a text. -/
structure FindsRepetitions (t : Text) (remarks : List Remark) : Prop where
  /-- The ranges of the remarks are those where a word is repeated. -/
  range_iff : ∀ start stop, (∃ r ∈ remarks, r.start = start ∧ r.start + r.length = stop) ↔
    IsRepetition t start stop
  /-- A remark quotes the second word. -/
  reason : ∀ r ∈ remarks, ∃ left word gap again right, Repeats t left word gap again right ∧
    r = repetition left.byteLength word gap again
  /-- The remarks are in the order of the text, so no range has two of them. -/
  ordered : remarks.Pairwise fun a b => a.start < b.start
  /-- In a row of equal words, every word but the first is a repetition. -/
  row : ∀ left word others right, t = left ++ rowText word others ++ right →
    RowAt left word others right →
      (remarks.filter fun r => left.byteLength ≤ r.start &&
        r.start + r.length ≤ (left ++ rowText word others).byteLength).length = others.length

theorem analyze_illusion (t : Text) : analyze t { illusion := true } = illusionRemarks t := by
  simpa [analyze] using mergeSort_eq_of_pairwise (pairwise_illusionRemarks t)

/-- **Repeated words are found exactly,** whether neighbours are looked for among all runs or among
the words alone. -/
theorem findsRepetitions (t : Text) :
    FindsRepetitions t (analyze t { illusion := true }) ∧
      analyze t { illusion := true } = wordPairs t := by
  rw [analyze_illusion]
  refine ⟨?_, illusionRemarks_eq_wordPairs t⟩
  constructor
  case range_iff =>
    intro start stop
    constructor
    · rintro ⟨r, hr, rfl, rfl⟩
      obtain ⟨left, word, gap, again, right, h, rfl⟩ := (mem_illusionRemarks_iff t r).1 hr
      exact ⟨left, word, gap, again, right, h, rfl,
        by simp [repetition, Remark.quoting]⟩
    · rintro ⟨left, word, gap, again, right, h, rfl, rfl⟩
      refine ⟨_, (mem_illusionRemarks_iff t _).2 ⟨left, word, gap, again, right, h, rfl⟩, rfl, ?_⟩
      simp [repetition, Remark.quoting]
  case reason => exact fun r hr => (mem_illusionRemarks_iff t r).1 hr
  case ordered => exact pairwise_illusionRemarks t
  case row =>
    intro left word others right ht hrow
    rw [← length_rowRemarks left.byteLength word others]
    refine congrArg List.length (eq_of_start_lt ?_ hrow.pairwise fun r => ?_)
    · exact (pairwise_illusionRemarks t).filter _
    · rw [List.mem_filter, mem_illusionRemarks_iff, mem_rowRemarks_iff hrow ht, Bool.and_eq_true,
        decide_eq_true_eq, decide_eq_true_eq]

-- a run with an apostrophe in front is no word, and it keeps the words around it apart
example : (illusionRemarks "so so SO, the 'the the".toList).map (·.start) = [0, 3] := by
  decide +kernel

end CodeProse.Style
