/-
# Suppressed words

A user suppresses words by listing them or by giving patterns for them. What a reader of a text
takes for a word is a maximal run of letters, marks, digits and apostrophes. Spelling does not look
at such a run as a whole: it checks the parts that capitals cut, each on its own, so an issue lies
within a run exactly if one of its parts is reported (`exists_issue_within_iff`). A suppressed run
without a capital behind its first character is its only part and is never reported; any other is
safe only as far as its parts are (`suppressesRuns_iff`).
-/
import CodeProse.Proofs.Text.Word
import CodeProse.Spelling

namespace CodeProse

namespace Text

open Unicode

/-! ## Runs of word characters -/

/-- Letters, combining marks, digits and apostrophes. -/
def isWordPart (c : Char) : Bool :=
  isWordLetter c || isApostrophe c

/-- The length of the escape sequence that a text begins with, `0` if it begins with none. -/
def escapeLength : Text → Nat
  | [] => 0
  | c :: t => if c = '\\' ∧ escapeTail t ≠ 0 then escapeTail t + 1 else 0

/-- The text with its escape sequences blanked. -/
def blankEscapes (t : Text) : Text :=
  blankBy escapeLength 0 t

/-- From an offset on, `w` is a maximal run of word characters of a text, outside its escape
sequences. -/
def WordRunAt (t : Text) (start : Nat) (w : Text) : Prop :=
  ∃ left right, blankEscapes t = left ++ w ++ right ∧ left.byteLength = start ∧ w ≠ [] ∧
    (∀ c ∈ w, isWordPart c = true) ∧ (∀ c ∈ left.getLast?, isWordPart c = false) ∧
    ∀ c ∈ right.head?, isWordPart c = false

/-- No word character is a blank. -/
theorem ne_blank_of_isWordPart {c : Char} (h : isWordPart c = true) : c ≠ ' ' := by
  rintro rfl
  exact absurd h (by decide +kernel)

/-- A run of word characters stands in the text itself. -/
theorem WordRunAt.slice {t w : Text} {start : Nat} (h : WordRunAt t start w) :
    slice? start (start + w.byteLength) t = some w := by
  obtain ⟨left, right, ht, hstart, hne, hw, -⟩ := h
  have hslice : slice? start (start + w.byteLength) (blankEscapes t) = some w :=
    (slice?_eq_some_iff _ _ _ _).2 ⟨left, right, ht, hstart, rfl⟩
  refine (blanked_blankBy escapeLength 0 t).slice hslice hne fun hblank => ?_
  exact ne_blank_of_isWordPart (hw ' ' hblank) rfl

/-- A character as it is, or as many blanks as it has bytes if no word holds it. -/
def blankChar (c : Char) : Text :=
  if keepsInWords c then [c] else List.replicate c.utf8Size ' '

@[simp] theorem blankChar_blank : blankChar ' ' = [' '] := by
  decide +kernel

theorem flatMap_blankChar_replicate (n : Nat) :
    (List.replicate n ' ').flatMap blankChar = List.replicate n ' ' := by
  induction n with
  | zero => rfl
  | succ n ih => rw [List.replicate_succ, List.flatMap_cons, ih, blankChar_blank]; rfl

/-- **What is no word is blanked after the escape sequences, character by character.** -/
theorem blankFrom_eq_flatMap (pending : Nat) (t : Text) :
    blankFrom pending t = (blankBy escapeLength pending t).flatMap blankChar := by
  induction t generalizing pending with
  | nil => rfl
  | cons c t ih =>
    have hblanks : ∀ n, List.replicate c.utf8Size ' ' ++ blankFrom n t
        = (List.replicate c.utf8Size ' ' ++ blankBy escapeLength n t).flatMap blankChar := by
      intro n
      rw [List.flatMap_append, flatMap_blankChar_replicate, ih]
    cases pending with
    | succ n => exact hblanks n
    | zero =>
      unfold blankFrom blankBy
      by_cases hc : c = '\\'
      · subst hc
        cases htail : escapeTail t with
        | zero =>
          -- a backslash that begins no escape sequence is no part of a word either
          have hlone : blankChar '\\' = List.replicate '\\'.utf8Size ' ' := by decide +kernel
          simp only [nonWordLength, escapeLength, htail, if_true, ne_eq, not_true, and_false,
            if_false, Nat.zero_add, List.flatMap_cons, hlone, ih]
        | succ m =>
          simp only [nonWordLength, escapeLength, htail, if_true, ne_eq, Nat.succ_ne_zero,
            not_false_eq_true, and_self]
          exact hblanks (m + 1)
      · by_cases hkeeps : keepsInWords c = true
        · simp only [nonWordLength, escapeLength, hc, hkeeps, if_false, if_true, false_and,
            List.flatMap_cons, blankChar, ih]
          rfl
        · simp only [nonWordLength, escapeLength, hc, hkeeps, if_false, false_and,
            Bool.false_eq_true, List.flatMap_cons, blankChar, ih]

theorem byteLength_blankChar (c : Char) : byteLength (blankChar c) = c.utf8Size := by
  rw [blankChar]
  split
  · simp
  · simp

theorem byteLength_flatMap_blankChar (t : Text) :
    byteLength (t.flatMap blankChar) = byteLength t := by
  induction t with
  | nil => rfl
  | cons c t ih =>
    rw [List.flatMap_cons, byteLength_append, byteLength_blankChar, ih, byteLength_cons]

/-- Word characters stay as they are. -/
theorem blankChar_of_isWordPart {c : Char} (h : isWordPart c = true) : blankChar c = [c] := by
  have hkeeps : keepsInWords c = true := by
    simp only [isWordPart, keepsInWords, Bool.or_eq_true] at h ⊢
    exact h.imp_left .inl
  rw [blankChar, if_pos hkeeps]

theorem flatMap_blankChar_of_isWordPart {w : Text} (h : ∀ c ∈ w, isWordPart c = true) :
    w.flatMap blankChar = w := by
  induction w with
  | nil => rfl
  | cons c w ih =>
    rw [List.flatMap_cons, blankChar_of_isWordPart (h c List.mem_cons_self),
      ih fun d hd => h d (List.mem_cons_of_mem c hd)]
    rfl

/-- What is no word character leaves nothing but blanks, and at least one. -/
theorem blankChar_of_not_isWordPart {c : Char} (h : isWordPart c = false) :
    ∃ n, blankChar c = List.replicate (n + 1) ' ' := by
  have hsize : c.utf8Size = c.utf8Size - 1 + 1 := by
    have := c.utf8Size_pos
    omega
  rw [blankChar]
  split
  case isTrue hkeeps =>
    have hc : c = ' ' := by
      simp only [isWordPart, keepsInWords, Bool.or_eq_true, Bool.or_eq_false_iff,
        beq_iff_eq] at h hkeeps
      simpa [h] using hkeeps
    exact ⟨0, by rw [hc]; rfl⟩
  case isFalse => exact ⟨c.utf8Size - 1, by rw [← hsize]⟩

/-! ## The words of a run -/

/-- The words of a text that starts at an offset stand between its ends. -/
theorem bounds_of_mem_tokensFrom {offset : Nat} {t : Text} {token : Token}
    (h : token ∈ tokensFrom offset offset [] t) :
    offset ≤ token.start ∧ token.stop ≤ offset + t.byteLength :=
  (@along_tokensFrom offset [] t (by simp) (by simp)).bounds token h

/-- What ends with a blank separates the words before its end from those behind it. -/
theorem exists_tokensFrom_front {front : Text} (h : front = [] ∨ ∃ l, front = l ++ [' '])
    (t : Text) :
    ∃ before, tokensFrom 0 0 [] (front ++ t)
        = before ++ tokensFrom front.byteLength front.byteLength [] t ∧
      ∀ token ∈ before, token.stop ≤ front.byteLength := by
  rcases h with rfl | ⟨l, rfl⟩
  · exact ⟨[], rfl, by simp⟩
  · refine ⟨tokensFrom 0 0 [] l, ?_, fun token htoken => ?_⟩
    · have hlength : byteLength (l ++ [' ']) = 0 + l.byteLength + 1 := by
        rw [byteLength_append, Nat.zero_add]
        rfl
      rw [hlength, List.append_assoc]
      exact tokensFrom_append_blank 0 0 [] l t
    · have hbounds := bounds_of_mem_tokensFrom htoken
      rw [byteLength_append]
      omega

/-- What begins with a blank separates the words behind its start from those before it. -/
theorem exists_tokensFrom_back {back : Text} (h : back = [] ∨ ∃ l, back = ' ' :: l) (offset : Nat)
    (w : Text) :
    ∃ after, tokensFrom offset offset [] (w ++ back) = tokensFrom offset offset [] w ++ after ∧
      ∀ token ∈ after, offset + w.byteLength ≤ token.start := by
  rcases h with rfl | ⟨l, rfl⟩
  · exact ⟨[], by rw [List.append_nil, List.append_nil], by simp⟩
  · refine ⟨_, tokensFrom_append_blank offset offset [] w l, fun token htoken => ?_⟩
    have hbounds := bounds_of_mem_tokensFrom htoken
    omega

/-- **The words of a text that lie within a run of word characters are the words of the run.**  All
others end before it or begin behind it. -/
theorem WordRunAt.split_wordTokens {t w : Text} {start : Nat} (h : WordRunAt t start w) :
    ∃ before after, t.wordTokens = before ++ tokensFrom start start [] w ++ after ∧
      (∀ token ∈ before, token.stop ≤ start) ∧
      ∀ token ∈ after, start + w.byteLength ≤ token.start := by
  obtain ⟨left, right, ht, hstart, -, hw, hleft, hright⟩ := h
  have hblanked : blankNonWords t = left.flatMap blankChar ++ (w ++ right.flatMap blankChar) := by
    rw [blankNonWords, blankFrom_eq_flatMap, ← blankEscapes, ht, List.flatMap_append,
      List.flatMap_append, flatMap_blankChar_of_isWordPart hw, List.append_assoc]
  -- what stands next to the run leaves a blank on either side
  have hfront : left.flatMap blankChar = [] ∨ ∃ l, left.flatMap blankChar = l ++ [' '] := by
    rcases List.eq_nil_or_concat left with rfl | ⟨l, c, rfl⟩
    · exact .inl rfl
    · obtain ⟨n, hn⟩ := blankChar_of_not_isWordPart (hleft c (by simp))
      refine .inr ⟨l.flatMap blankChar ++ List.replicate n ' ', ?_⟩
      rw [List.concat_eq_append, List.flatMap_append, List.flatMap_singleton, hn,
        List.replicate_succ', List.append_assoc]
  have hback : right.flatMap blankChar = [] ∨ ∃ l, right.flatMap blankChar = ' ' :: l := by
    cases right with
    | nil => exact .inl rfl
    | cons c right =>
      obtain ⟨n, hn⟩ := blankChar_of_not_isWordPart (hright c rfl)
      refine .inr ⟨List.replicate n ' ' ++ right.flatMap blankChar, ?_⟩
      rw [List.flatMap_cons, hn, List.replicate_succ, List.cons_append]
  have hoffset : byteLength (left.flatMap blankChar) = start := by
    rw [byteLength_flatMap_blankChar, hstart]
  obtain ⟨before, hbefore, hends⟩ :=
    exists_tokensFrom_front hfront (w ++ right.flatMap blankChar)
  obtain ⟨after, hafter, hstarts⟩ := exists_tokensFrom_back hback start w
  rw [hoffset] at hbefore hends
  refine ⟨before, after, ?_, hends, hstarts⟩
  rw [wordTokens, hblanked, hbefore, hafter, List.append_assoc]

/-- The words within a run are the parts that capitals cut it into. -/
theorem map_text_of_run {w : Text} (hw : ∀ c ∈ w, isWordPart c = true) (start : Nat) :
    (tokensFrom start start [] w).map (·.text) = capitalParts w := by
  have hblank : ' ' ∉ w := fun hmem => ne_blank_of_isWordPart (hw ' ' hmem) rfl
  exact @map_text_tokensFrom start start [] w hblank (by simp)

end Text

/-- Whether a word is accepted by the user: it is listed, whatever its case, or matches one of the
patterns for words. -/
def Settings.suppresses (s : Settings) (word : Text) : Bool :=
  s.isSkipWord word || s.skipWordIfMatch.any (·.matchesIn word)

namespace Spelling

open Text Unicode

/-- Whether a word is reported where it stands on its own. -/
def isReported (s : Settings) (d : Dictionary) (word : Text) : Bool :=
  s.keepsWord word && isError s d word

/-- The settings suppress what they are meant to: no issue of a text lies within a run of word
characters that the user accepts. -/
def SuppressesRuns (s : Settings) (d : Dictionary) (t : Text) : Prop :=
  ∀ start w, WordRunAt t start w → s.suppresses w = true →
    ∀ i ∈ check s d t, ¬ (start ≤ i.start ∧ i.stop ≤ start + w.byteLength)

/-- **An issue lies within a run of word characters exactly if one of the parts of the run is
reported.** -/
theorem exists_issue_within_iff {s : Settings} {d : Dictionary} {t w : Text} {start : Nat}
    (h : WordRunAt t start w) :
    (∃ i ∈ check s d t, start ≤ i.start ∧ i.stop ≤ start + w.byteLength) ↔
      ∃ part ∈ capitalParts w, isReported s d part = true := by
  obtain ⟨before, after, htokens, hends, hstarts⟩ := h.split_wordTokens
  obtain ⟨-, -, -, -, -, hw, -, -⟩ := h
  rw [← map_text_of_run hw start]
  constructor
  · rintro ⟨i, hi, hstart, hstop⟩
    obtain ⟨token, htoken, rfl⟩ := List.mem_map.1 hi
    obtain ⟨hmem, hreported⟩ := List.mem_filter.1 htoken
    have hlt : token.start < token.stop := Covers.lt ⟨_, wordToken_slice hmem⟩
    have hstart : start ≤ token.start := hstart
    have hstop : token.stop ≤ start + w.byteLength := hstop
    rw [htokens, List.mem_append, List.mem_append] at hmem
    rcases hmem with (hmem | hmem) | hmem
    · have := hends token hmem
      omega
    · exact ⟨token.text, List.mem_map_of_mem hmem, hreported⟩
    · have := hstarts token hmem
      omega
  · rintro ⟨part, hpart, hreported⟩
    obtain ⟨token, htoken, rfl⟩ := List.mem_map.1 hpart
    have hmem : token ∈ t.wordTokens := by
      rw [htokens]
      simp [htoken]
    exact ⟨issue d token, List.mem_map_of_mem (List.mem_filter.2 ⟨hmem, hreported⟩),
      bounds_of_mem_tokensFrom htoken⟩

/-- A word that is suppressed is not reported where it stands on its own. -/
theorem isReported_of_suppresses {s : Settings} {d : Dictionary} {word : Text}
    (h : s.suppresses word = true) : isReported s d word = false := by
  rw [Settings.suppresses, Bool.or_eq_true] at h
  rcases h with hlisted | hmatches
  · simp [isReported, isError, isMisspelled, hlisted]
  · simp [isReported, Settings.keepsWord, hmatches]

/-- No issue lies within a run of word characters exactly if none of its parts is reported. -/
theorem no_issue_within_iff {s : Settings} {d : Dictionary} {t w : Text} {start : Nat}
    (h : WordRunAt t start w) :
    (∀ i ∈ check s d t, ¬ (start ≤ i.start ∧ i.stop ≤ start + w.byteLength)) ↔
      ∀ part ∈ capitalParts w, isReported s d part = false := by
  have hexists := not_congr (exists_issue_within_iff (s := s) (d := d) h)
  simpa only [not_exists, not_and, Bool.not_eq_true] using hexists

/-- **Suppression holds for a text exactly if no part of a suppressed run is reported.**  It always
holds for the runs without a capital behind their first character. -/
theorem suppressesRuns_iff (s : Settings) (d : Dictionary) (t : Text) :
    (SuppressesRuns s d t ↔
      ∀ start w, WordRunAt t start w → s.suppresses w = true →
        ∀ part ∈ capitalParts w, isReported s d part = false) ∧
      ∀ start w, WordRunAt t start w → s.suppresses w = true →
        (∀ c ∈ w.tail, isUppercase c = false) →
        ∀ i ∈ check s d t, ¬ (start ≤ i.start ∧ i.stop ≤ start + w.byteLength) := by
  constructor
  · constructor
    · intro h start w hrun hw
      exact (no_issue_within_iff hrun).1 (h start w hrun hw)
    · intro h start w hrun hw
      exact (no_issue_within_iff hrun).2 (h start w hrun hw)
  · intro start w hrun hw htail
    rw [no_issue_within_iff hrun]
    obtain ⟨-, -, -, -, hne, -⟩ := hrun
    -- a run without a capital inside is its only part
    rw [capitalParts_of_tail hne htail]
    intro part hpart
    obtain rfl := List.mem_singleton.1 hpart
    exact isReported_of_suppresses hw

/-- The text "the HTTP protocol". -/
def httpText : Text := "the HTTP protocol".toList

/-- The pattern for words of two or more capitals. -/
def capitalsPattern : Text := "^[A-Z]\x7b2,\x7d$".toList

/-- What the pattern matches in: it stands for the whole of a word. -/
def isCapitals (word : Text) : Bool :=
  2 ≤ word.length && word.all Char.isUpper

/-- The language of that pattern alone. -/
def capitals : PatternLanguage := fun t =>
  if t = capitalsPattern then some isCapitals else none

-- as a regular expression the pattern means the same
example : ∀ word ∈ ["HTTP", "H", "Http", "the HTTP"].map String.toList,
    (PatternLanguage.regular capitalsPattern).map (· word) = some (isCapitals word) := by
  decide +kernel

/-- A dictionary of the other two words of the text. -/
def httpDictionary : Dictionary := .ofWords ["the".toList, "protocol".toList]

theorem sublist_dropRepeats (texts : List Text) : (dropRepeats texts).Sublist texts := by
  fun_induction dropRepeats texts with
  | case1 b rest ih => exact ih.cons b
  | case2 a b rest hne ih => exact ih.cons_cons a
  | case3 texts hshort => exact List.Sublist.refl texts

/-- A skip word comes from one that was listed. -/
theorem mem_of_mem_skipWordSet {words : List Text} {w : Text} (h : w ∈ skipWordSet words) :
    w ∈ words.map lowercase :=
  List.mem_mergeSort.1 ((sublist_dropRepeats _).subset h)

/-- The settings with the pattern and all else as it comes. -/
theorem ofOptions_capitals :
    Settings.ofOptions { skipWordIfMatch := [capitalsPattern] } capitals = .ok
      { skipWords := skipWordSet vocabulary
        skipWordIfMatch := [⟨capitalsPattern, isCapitals⟩] } := by
  simp [Settings.ofOptions, readPatterns, capitals, pure, Except.pure, bind, Except.bind]

/-- With the pattern for words of two or more capitals, "HTTP" is suppressed, and its first letter
is reported nevertheless. -/
theorem not_suppressesRuns_http :
    ∃ s, Settings.ofOptions { skipWordIfMatch := [capitalsPattern] } capitals = .ok s ∧
      ¬ SuppressesRuns s httpDictionary httpText := by
  refine ⟨_, ofOptions_capitals, fun h => ?_⟩
  -- the pattern matches the run, and neither its first letter nor that in lower case
  have hmatches : isCapitals ['H', 'T', 'T', 'P'] = true := by decide
  have hletters : isCapitals ['H'] = false ∧ isCapitals ['h'] = false := by decide
  have hlisted : ['h'] ∉ skipWordSet vocabulary := by
    have hvocabulary : ['h'] ∉ vocabulary.map lowercase := by decide +kernel
    exact fun hmem => hvocabulary (mem_of_mem_skipWordSet hmem)
  have hrun : WordRunAt httpText 4 ['H', 'T', 'T', 'P'] := by
    have hcapitals : ['H', 'T', 'T', 'P'].all isWordPart = true := by decide +kernel
    have hblank : isWordPart ' ' = false := by decide +kernel
    refine ⟨['t', 'h', 'e', ' '], ' ' :: "protocol".toList, by decide +kernel, rfl, by simp,
      List.all_eq_true.1 hcapitals, ?_, ?_⟩
    · intro c hc
      obtain rfl := Option.some.inj hc
      exact hblank
    · intro c hc
      obtain rfl := Option.some.inj hc
      exact hblank
  have hpart : ['H'] ∈ capitalParts ['H', 'T', 'T', 'P'] := by decide +kernel
  have hlower : lowercase ['H'] = ['h'] ∧ lowercase ['h'] = ['h'] := by decide +kernel
  have hunknown : httpDictionary.accepts ['H'] = false ∧ httpDictionary.accepts ['h'] = false := by
    decide +kernel
  have hsub : subWords ['H'] = [['h']] := by decide +kernel
  have hsuppressed := h 4 _ hrun (by simp [Settings.suppresses, hmatches])
  have hsafe := (no_issue_within_iff hrun).1 hsuppressed ['H'] hpart
  simp [isReported, isError, isMisspelled, Settings.keepsWord, Settings.isSkipWord, hletters,
    hlisted, hlower, hunknown, hsub] at hsafe

end Spelling

end CodeProse
