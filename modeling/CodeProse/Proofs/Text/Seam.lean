/-
# Words on both sides of a seam

A character that no word holds parts the words before it from those behind it: the words of the text
are those of the part before it and those that the rest would have on its own
(`wordTokens_append_cons`). Escape sequences do not change that. A sequence goes on with letters and
digits only, so none that begins before such a character reaches it (`blankNonWords_append_cons`).

What stands behind the character may still lose its beginning to it, if the character is a
backslash, since an escape sequence may begin there. That the backslash is escaped itself makes no
difference: the words behind it are whole exactly if no escape sequence fits (`sparesEscaped_iff`).
-/
import CodeProse.Proofs.Text.Atom
import CodeProse.Proofs.Text.Partition

namespace CodeProse

/-- A token seen from a text in which its own text starts at `offset`. -/
def Token.shift (offset : Nat) (token : Token) : Token :=
  { token with start := token.start + offset, stop := token.stop + offset }

/-- Moving tokens twice moves them once, by the sum. -/
theorem Token.map_shift_map_shift (m n : Nat) (tokens : List Token) :
    (tokens.map (Token.shift m)).map (Token.shift n) = tokens.map (Token.shift (m + n)) := by
  rw [List.map_map]
  exact List.map_congr_left fun token _ => by simp only [Function.comp, Token.shift, Nat.add_assoc]

namespace Text

open Unicode

/-! ## Forms at a seam -/

/-- No form goes on with `c`: a match may begin with it, but none that begins before it takes it. -/
def Bars (forms : List (List (Char → Bool))) (c : Char) : Prop :=
  ∀ form ∈ forms, ∀ kind ∈ form.tail, kind c = false

/-- A form that never holds `c` fits before `c` as it does at the end of a text. -/
theorem begins_append_cons {c : Char} {form : List (Char → Bool)}
    (h : ∀ kind ∈ form, kind c = false) (a b : Text) :
    begins form (a ++ c :: b) = begins form a := by
  induction form generalizing a with
  | nil => rw [begins_nil, begins_nil]
  | cons kind form ih =>
    cases a with
    | nil =>
      show (kind c && begins form b) = false
      rw [h kind List.mem_cons_self, Bool.false_and]
    | cons d a =>
      rw [List.cons_append, begins_cons_cons, begins_cons_cons,
        ih (fun kind' hkind => h kind' (List.mem_cons_of_mem kind hkind)) a]

/-- What a form matches before a character that bars it does not depend on what comes behind. -/
theorem matchLength_append_cons {c : Char} {forms : List (List (Char → Bool))} (h : Bars forms c)
    (d : Char) (a b : Text) :
    matchLength forms (d :: (a ++ c :: b)) = matchLength forms (d :: a) := by
  induction forms with
  | nil => rfl
  | cons form forms ih =>
    have hform : begins form (d :: (a ++ c :: b)) = begins form (d :: a) := by
      cases form with
      | nil => rw [begins_nil, begins_nil]
      | cons kind form =>
        have htail : ∀ kind' ∈ form, kind' c = false := h (kind :: form) List.mem_cons_self
        rw [begins_cons_cons, begins_cons_cons, begins_append_cons htail a b]
    rw [matchLength_cons, matchLength_cons, hform,
      ih fun form' hform => h form' (List.mem_cons_of_mem form hform)]

theorem length_le_of_begins {form : List (Char → Bool)} {t : Text} (h : begins form t = true) :
    form.length ≤ t.length := by
  induction form generalizing t with
  | nil => exact Nat.zero_le _
  | cons kind form ih =>
    cases t with
    | nil => cases h
    | cons c t =>
      rw [begins_cons_cons, Bool.and_eq_true] at h
      exact Nat.succ_le_succ (ih h.2)

/-- A match lies within its text. -/
theorem matchLength_le (forms : List (List (Char → Bool))) (t : Text) :
    matchLength forms t ≤ t.length := by
  induction forms with
  | nil => exact Nat.zero_le _
  | cons form forms ih =>
    rw [matchLength_cons]
    split
    case isTrue h => exact length_le_of_begins h
    case isFalse => exact ih

/-! ## Blanking at a seam -/

theorem blankBy_cons_of_none {length : Text → Nat} {c : Char} {t : Text}
    (h : length (c :: t) = 0) : blankBy length 0 (c :: t) = c :: blankBy length 0 t := by
  conv_lhs => unfold blankBy
  rw [h]

theorem blankBy_cons_of_match {length : Text → Nat} {c : Char} {t : Text} {n : Nat}
    (h : length (c :: t) = n + 1) :
    blankBy length 0 (c :: t) = List.replicate c.utf8Size ' ' ++ blankBy length n t := by
  conv_lhs => unfold blankBy
  rw [h]

/-- The characters that are to be blanked first leave their bytes as blanks. -/
theorem blankBy_pending (length : Text → Nat) (n : Nat) (t : Text) :
    blankBy length n t
      = List.replicate (byteLength (t.take n)) ' ' ++ blankBy length 0 (t.drop n) := by
  induction t generalizing n with
  | nil => cases n <;> rfl
  | cons c t ih =>
    cases n with
    | zero => rfl
    | succ n =>
      show List.replicate c.utf8Size ' ' ++ blankBy length n t = _
      rw [ih, List.take_succ_cons, List.drop_succ_cons, byteLength_cons, List.replicate_add,
        List.append_assoc]

/-- Nothing that is blanked before a character that bars the forms reaches it. -/
theorem blankBy_append_cons {c : Char} {forms : List (List (Char → Bool))} (h : Bars forms c)
    {n : Nat} {a : Text} (hn : n ≤ a.length) (b : Text) :
    blankBy (matchLength forms) n (a ++ c :: b)
      = blankBy (matchLength forms) n a ++ blankBy (matchLength forms) 0 (c :: b) := by
  induction a generalizing n with
  | nil =>
    obtain rfl := Nat.le_zero.1 hn
    rfl
  | cons d a ih =>
    cases n with
    | succ n =>
      show List.replicate d.utf8Size ' ' ++ blankBy _ n (a ++ c :: b) = _
      rw [ih (Nat.le_of_succ_le_succ hn), ← List.append_assoc]
      rfl
    | zero =>
      have hlength := matchLength_append_cons h d a b
      have hle := matchLength_le forms (d :: a)
      cases hmatch : matchLength forms (d :: a) with
      | zero =>
        rw [List.cons_append, blankBy_cons_of_none (hlength.trans hmatch),
          blankBy_cons_of_none hmatch, ih (Nat.zero_le _)]
        rfl
      | succ n =>
        rw [hmatch] at hle
        rw [List.cons_append, blankBy_cons_of_match (hlength.trans hmatch),
          blankBy_cons_of_match hmatch, ih (Nat.le_of_succ_le_succ hle), List.append_assoc]

/-- Blanking keeps lengths. -/
theorem Blanked.byteLength_eq {t b : Text} (h : Blanked t b) : b.byteLength = t.byteLength := by
  induction h with
  | nil => rfl
  | keep c _ ih => rw [byteLength_cons, byteLength_cons, ih]
  | blank c _ ih => rw [byteLength_append, byteLength_replicate_blank, byteLength_cons, ih]

theorem byteLength_blankNonWords (t : Text) : byteLength (blankNonWords t) = byteLength t := by
  rw [blankNonWords, blankFrom_eq_blankBy]
  exact (blanked_blankBy nonWordLength 0 t).byteLength_eq

/-! ## What escape sequences go on with -/

theorem isWordLetter_of_isAlphanum {c : Char} (h : c.isAlphanum = true) :
    isWordLetter c = true := by
  rw [isWordLetter, if_pos (toNat_of_isAlphanum h).2]
  exact h

theorem isAlphanum_of_isHexDigit {c : Char} (h : isHexDigit c = true) : c.isAlphanum = true := by
  have halpha : c.isAlpha = (c.isUpper || c.isLower) := rfl
  simp only [Char.isAlphanum, halpha, Bool.or_eq_true, isUpper_iff, isLower_iff]
  simp only [isHexDigit, Bool.or_eq_true, Bool.and_eq_true, decide_eq_true_eq, Char.le_def,
    UInt32.le_iff_toNat_le] at h
  rcases h with (hdigit | hlower) | hupper
  · exact .inr hdigit
  · exact .inl (.inr ⟨hlower.1, Nat.le_trans hlower.2 (by decide)⟩)
  · exact .inl (.inl ⟨hupper.1, Nat.le_trans hupper.2 (by decide)⟩)

theorem isHexDigit_of_isOctalDigit {c : Char} (h : isOctalDigit c = true) :
    isHexDigit c = true := by
  simp only [isOctalDigit, Bool.and_eq_true, decide_eq_true_eq, Char.le_def,
    UInt32.le_iff_toNat_le] at h
  have hdigit : c.isDigit = true := by
    simp only [Char.isDigit, Bool.and_eq_true, decide_eq_true_eq, UInt32.le_iff_toNat_le]
    exact ⟨h.1, Nat.le_trans h.2 (by decide)⟩
  rw [isHexDigit, hdigit, Bool.true_or, Bool.true_or]

/-- An escape sequence goes on with letters and digits only. -/
theorem isWordLetter_of_mem_tail {c : Char} {form : List (Char → Bool)} (h : form ∈ nonWordForms)
    {kind : Char → Bool} (hkind : kind ∈ form.tail) (hc : kind c = true) :
    isWordLetter c = true := by
  refine isWordLetter_of_isAlphanum ?_
  have hletters : "sSwdDbB0nfrtv".toList.all Char.isAlphanum = true := by decide
  simp only [nonWordForms, List.mem_cons, List.not_mem_nil, or_false] at h
  rcases h with rfl | rfl | rfl | rfl | rfl <;>
    simp only [List.tail_cons, List.mem_cons, List.not_mem_nil, or_false, List.mem_replicate,
      ne_eq] at hkind
  · subst hkind
    exact List.all_eq_true.1 hletters c (List.contains_iff_mem.1 hc)
  · obtain ⟨-, rfl⟩ := hkind
    exact isAlphanum_of_isHexDigit (isHexDigit_of_isOctalDigit hc)
  · rcases hkind with rfl | ⟨-, rfl⟩
    · rw [beq_iff_eq.1 hc]
      decide
    · exact isAlphanum_of_isHexDigit hc
  · rcases hkind with rfl | ⟨-, rfl⟩
    · rw [beq_iff_eq.1 hc]
      decide
    · exact isAlphanum_of_isHexDigit hc

/-- What is no letter, mark or number bars escape sequences. -/
theorem bars_nonWordForms {c : Char} (h : isWordLetter c = false) : Bars nonWordForms c := by
  intro form hform kind hkind
  rw [Bool.eq_false_iff]
  intro hc
  rw [isWordLetter_of_mem_tail hform hkind hc] at h
  cases h

/-- What is no letter, mark or number parts what is blanked before it from the rest. -/
theorem blankNonWords_append_cons {c : Char} (h : isWordLetter c = false) (a b : Text) :
    blankNonWords (a ++ c :: b) = blankNonWords a ++ blankNonWords (c :: b) := by
  simp only [blankNonWords_eq_blankMatches, blankMatches]
  exact blankBy_append_cons (bars_nonWordForms h) (Nat.zero_le _) b

/-- A match leaves its bytes as blanks. -/
theorem blankNonWords_of_match {c : Char} {t : Text} {n : Nat}
    (h : nonWordLength (c :: t) = n + 1) :
    blankNonWords (c :: t)
      = List.replicate (byteLength (c :: t.take n)) ' ' ++ blankNonWords (t.drop n) := by
  simp only [blankNonWords, blankFrom_eq_blankBy]
  rw [blankBy_cons_of_match h, blankBy_pending, byteLength_cons, List.replicate_add,
    List.append_assoc]

theorem blankNonWords_blank (t : Text) : blankNonWords (' ' :: t) = ' ' :: blankNonWords t := by
  simp only [blankNonWords, blankFrom_eq_blankBy]
  exact blankBy_cons_of_none rfl

/-! ## Tokens at a seam -/

theorem closeToken_shift (k start : Nat) (reversed : Text) :
    closeToken (start + k) reversed = (closeToken start reversed).map (Token.shift k) := by
  rw [closeToken, closeToken]
  split
  · rfl
  · simp only [List.map_cons, List.map_nil, Token.shift]
    rw [Nat.add_right_comm]

/-- Tokens move with their text. -/
theorem tokensFrom_shift (k offset start : Nat) (reversed t : Text) :
    tokensFrom (offset + k) (start + k) reversed t
      = (tokensFrom offset start reversed t).map (Token.shift k) := by
  induction t generalizing offset start reversed with
  | nil => exact closeToken_shift k start reversed
  | cons c t ih =>
    rw [tokensFrom, tokensFrom, Nat.add_right_comm offset k c.utf8Size]
    split
    · rw [List.map_append, closeToken_shift, ih]
    · split
      · rw [List.map_append, closeToken_shift, ih]
      · split
        · rw [ih]
        · rw [ih]

/-- Blanks in front of a text hold no token. -/
theorem tokensFrom_blanks (offset n : Nat) (t : Text) :
    tokensFrom offset offset [] (List.replicate n ' ' ++ t)
      = tokensFrom (offset + n) (offset + n) [] t := by
  induction n generalizing offset with
  | zero => rfl
  | succ n ih =>
    have hfirst : tokensFrom offset offset [] (' ' :: (List.replicate n ' ' ++ t))
        = tokensFrom (offset + 1) (offset + 1) [] (List.replicate n ' ' ++ t) :=
      tokensFrom_append_blank offset offset [] [] (List.replicate n ' ' ++ t)
    rw [List.replicate_succ, List.cons_append, hfirst, ih, Nat.add_assoc, Nat.add_comm 1 n]

/-- Words move behind a number of blanks. -/
theorem wordTokens_of_blanks {t rest : Text} {n : Nat}
    (h : blankNonWords t = List.replicate n ' ' ++ blankNonWords rest) :
    wordTokens t = (wordTokens rest).map (Token.shift n) := by
  rw [wordTokens, h, tokensFrom_blanks]
  exact tokensFrom_shift n 0 0 [] (blankNonWords rest)

/-- What is blanked at the start of a text holds no word. -/
theorem wordTokens_of_match {c : Char} {t : Text} {n : Nat} (h : nonWordLength (c :: t) = n + 1) :
    wordTokens (c :: t)
      = (wordTokens (t.drop n)).map (Token.shift (byteLength (c :: t.take n))) :=
  wordTokens_of_blanks (blankNonWords_of_match h)

theorem wordTokens_blank (t : Text) :
    wordTokens (' ' :: t) = (wordTokens t).map (Token.shift 1) :=
  wordTokens_of_blanks (blankNonWords_blank t)

/-- Whether `c` parts words: it is a blank, or blanked because no word holds it. -/
def partsWords (c : Char) : Bool :=
  c == ' ' || !keepsInWords c

/-- A character that parts words leaves a blank. -/
theorem exists_blankNonWords_cons {c : Char} (h : partsWords c = true) (t : Text) :
    ∃ rest, blankNonWords (c :: t) = ' ' :: rest := by
  rw [partsWords, Bool.or_eq_true, beq_iff_eq, Bool.not_eq_true'] at h
  rcases h with rfl | hkeeps
  · exact ⟨blankNonWords t, blankNonWords_blank t⟩
  · obtain ⟨n, hn⟩ : ∃ n, nonWordLength (c :: t) = n + 1 := by
      rw [nonWordLength, hkeeps]
      split
      · exact ⟨escapeTail t, rfl⟩
      · exact ⟨0, rfl⟩
    obtain ⟨m, hm⟩ := Nat.exists_eq_succ_of_ne_zero (Nat.ne_of_gt c.utf8Size_pos)
    rw [blankNonWords_of_match hn, byteLength_cons, hm, Nat.succ_add, List.replicate_succ]
    exact ⟨_, rfl⟩

theorem not_isWordLetter_of_partsWords {c : Char} (h : partsWords c = true) :
    isWordLetter c = false := by
  rw [partsWords, Bool.or_eq_true, beq_iff_eq, Bool.not_eq_true', keepsInWords] at h
  rcases h with rfl | hkeeps
  · decide
  · exact (Bool.or_eq_false_iff.1 (Bool.or_eq_false_iff.1 hkeeps).1).1

/-- **A character that parts words is a seam.**  The words before it are found as if the text ended
there, and those from it on as if the text began there. -/
theorem wordTokens_append_cons {c : Char} (h : partsWords c = true) (a b : Text) :
    wordTokens (a ++ c :: b)
      = wordTokens a ++ (wordTokens (c :: b)).map (Token.shift (byteLength a)) := by
  obtain ⟨rest, hrest⟩ := exists_blankNonWords_cons h b
  have hback : wordTokens (c :: b) = tokensFrom 1 1 [] rest := by
    rw [wordTokens, hrest]
    exact tokensFrom_blanks 0 1 rest
  have hbytes : 0 + byteLength (blankNonWords a) + 1 = 1 + byteLength a := by
    rw [byteLength_blankNonWords]
    omega
  rw [hback, ← tokensFrom_shift, wordTokens,
    blankNonWords_append_cons (not_isWordLetter_of_partsWords h), hrest, tokensFrom_append_blank,
    hbytes]
  rfl

/-- Words on both sides of a blank. -/
theorem wordTokens_append_blank (a b : Text) :
    wordTokens (a ++ ' ' :: b)
      = wordTokens a ++ (wordTokens b).map (Token.shift (byteLength a + 1)) := by
  rw [wordTokens_append_cons (by decide), wordTokens_blank, Token.map_shift_map_shift,
    Nat.add_comm]

/-! ## Escaped backslashes -/

/-- Whether the escapes of a text are complete: read from left to right, a backslash takes the next
character with it, and none is left over at the end. -/
def escapesComplete : Text → Bool
  | [] => true
  | c :: t =>
    if c = '\\' then
      match t with
      | [] => false
      | _ :: t => escapesComplete t
    else escapesComplete t

/-- The words around an escaped backslash are those of the text before it and those of the text
behind it. -/
def SparesEscaped (a b : Text) : Prop :=
  wordTokens (a ++ '\\' :: '\\' :: b)
    = wordTokens a ++ (wordTokens b).map (Token.shift (byteLength a + 2))

/-- A backslash in front of a text begins no escape sequence: none of the forms that fit there holds
more than the backslash. -/
def StartsNoEscape (t : Text) : Prop :=
  ∀ form ∈ nonWordForms, begins form ('\\' :: t) = true → form.length ≤ 1

theorem startsNoEscape_iff (t : Text) : StartsNoEscape t ↔ escapeTail t = 0 := by
  have hlength : escapeTail t = 0 ↔ matchLength nonWordForms ('\\' :: t) = 1 := by
    rw [matchLength_backslash]
    omega
  rw [hlength, StartsNoEscape]
  have halone : isWordLetter '\\' = false ∧ isApostrophe '\\' = false := by decide
  simp only [nonWordForms, List.forall_mem_cons, matchLength_cons, matchLength_nil]
  split_ifs <;> simp_all

/-- Behind an escaped backslash, whatever a single backslash would take with it is lost. -/
theorem wordTokens_escaped (a b : Text) :
    wordTokens (a ++ '\\' :: '\\' :: b)
      = wordTokens a ++ (wordTokens (b.drop (escapeTail b))).map
        (Token.shift (byteLength a + 2 + byteLength (b.take (escapeTail b)))) := by
  have hlone : wordTokens ('\\' :: '\\' :: b) = (wordTokens ('\\' :: b)).map (Token.shift 1) :=
    wordTokens_of_match (n := 0) rfl
  have hescape : wordTokens ('\\' :: b) = (wordTokens (b.drop (escapeTail b))).map
      (Token.shift (byteLength ('\\' :: b.take (escapeTail b)))) :=
    wordTokens_of_match rfl
  have hbytes : byteLength ('\\' :: b.take (escapeTail b)) + (1 + byteLength a)
      = byteLength a + 2 + byteLength (b.take (escapeTail b)) := by
    rw [byteLength_cons, show '\\'.utf8Size = 1 from rfl]
    omega
  rw [wordTokens_append_cons (by decide), hlone, hescape, Token.map_shift_map_shift,
    Token.map_shift_map_shift, hbytes]

/-- An escape sequence takes a letter or a digit first. -/
theorem exists_head_of_escape {t : Text} (h : escapeTail t ≠ 0) :
    ∃ d rest, t = d :: rest ∧ isWordLetter d = true := by
  rw [ne_eq, ← startsNoEscape_iff, StartsNoEscape] at h
  simp only [not_forall, Nat.not_le] at h
  obtain ⟨form, hform, hbegins, hlength⟩ := h
  obtain ⟨kind, next, form, rfl⟩ : ∃ kind next rest, form = kind :: next :: rest := by
    match form, hlength with
    | kind :: next :: rest, _ => exact ⟨kind, next, rest, rfl⟩
  cases t with
  | nil => simp [begins] at hbegins
  | cons d rest =>
    simp only [begins_cons_cons, Bool.and_eq_true] at hbegins
    exact ⟨d, rest, rfl, isWordLetter_of_mem_tail hform (by simp) hbegins.2.1⟩

/-- A letter, mark or number at the start of a text begins a word there. -/
theorem exists_wordToken_of_head {d : Char} (h : isWordLetter d = true) (t : Text) :
    ∃ token ∈ wordTokens (d :: t), token.start = 0 := by
  have hescape : d ≠ '\\' := by
    rintro rfl
    exact absurd h (by decide)
  have hblank : d ≠ ' ' := by
    rintro rfl
    exact absurd h (by decide)
  have hkept : blankNonWords (d :: t) = d :: blankNonWords t := by
    simp only [blankNonWords, blankFrom_eq_blankBy]
    exact blankBy_cons_of_none (by rw [nonWordLength, if_neg hescape, keepsInWords, h]; rfl)
  have hcovered := covered_iff_of_along (along_wordTokens (d :: t)) 0
  rw [hkept] at hcovered
  obtain ⟨token, htoken, hstart, -⟩ := hcovered.2
    ⟨d, if_pos d.utf8Size_pos, hblank⟩
  exact ⟨token, htoken, Nat.le_zero.1 hstart⟩

/-- **The words behind an escaped backslash are whole exactly if no escape sequence fits there.**
Otherwise the characters that it takes are lost. -/
theorem sparesEscaped_iff (a b : Text) :
    (SparesEscaped a b ↔ StartsNoEscape b) ∧
      wordTokens (a ++ '\\' :: '\\' :: b)
        = wordTokens a ++ (wordTokens (b.drop (escapeTail b))).map
          (Token.shift (byteLength a + 2 + byteLength (b.take (escapeTail b)))) := by
  refine ⟨?_, wordTokens_escaped a b⟩
  rw [startsNoEscape_iff, SparesEscaped, wordTokens_escaped, List.append_cancel_left_eq]
  constructor
  · intro hsame
    by_contra hescape
    obtain ⟨d, rest, rfl, hd⟩ := exists_head_of_escape hescape
    obtain ⟨token, htoken, hstart⟩ := exists_wordToken_of_head hd rest
    obtain ⟨n, hn⟩ := Nat.exists_eq_succ_of_ne_zero hescape
    have hlost : 0 < byteLength ((d :: rest).take (escapeTail (d :: rest))) := by
      rw [hn, List.take_succ_cons, byteLength_cons]
      exact Nat.add_pos_left d.utf8Size_pos _
    -- the word at the very start of `b` would have to start behind what is lost
    have hmoved := List.mem_map_of_mem (f := Token.shift (byteLength a + 2)) htoken
    rw [← hsame] at hmoved
    obtain ⟨other, -, hother⟩ := List.mem_map.1 hmoved
    have hstarts := congrArg Token.start hother
    simp only [Token.shift] at hstarts
    omega
  · intro hnone
    rw [hnone]
    rfl

/-- In the string C:\\new the word behind the escaped backslash is cut. -/
theorem not_sparesEscaped_new :
    escapesComplete "C:".toList = true ∧ ¬ SparesEscaped "C:".toList "new".toList := by
  constructor
  · decide
  · unfold SparesEscaped
    decide +kernel

end Text

end CodeProse
