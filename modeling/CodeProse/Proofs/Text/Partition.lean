/-
# Words partition what is not blanked

What is no part of a word is found from left to right, at each place the first of a few forms that
fits (`nonWordForms`), and blanked (`blankNonWords_eq_blankMatches`). The words of the text share out
what is left: every byte that is not blanked is in just one of them, and no other byte is in any
(`partitions_wordTokens`).

That the words are apart and are slices of the text is known of all that is strung along a text. What
they cover, and where two of them touch, follows by induction along the words: a gap holds nothing but
blanks, and a word that no gap separates from the next is ended by its capital.
-/
import CodeProse.Proofs.Text.Word

namespace CodeProse.Text

open Unicode

/-! ## What is blanked -/

/-- Whether a text begins with a character of each of the given kinds, in their order. -/
def begins : List (Char → Bool) → Text → Bool
  | [], _ => true
  | _ :: _, [] => false
  | kind :: form, c :: t => kind c && begins form t

/-- The length of the first of some forms that a text begins with, `0` if it begins with none. -/
def matchLength (forms : List (List (Char → Bool))) (t : Text) : Nat :=
  ((forms.find? fun form => begins form t).map List.length).getD 0

/-- A text with all matches of some forms blanked. Each is looked for where the last one has
ended. -/
def blankMatches (forms : List (List (Char → Bool))) (t : Text) : Text :=
  blankBy (matchLength forms) 0 t

/-- What is no part of a word: escapes of one letter, escapes by three octal, two hexadecimal and
four hexadecimal digits, and all characters but letters, marks, numbers, blanks and apostrophes. -/
def nonWordForms : List (List (Char → Bool)) :=
  [[(· == '\\'), isEscapeLetter],
    (· == '\\') :: List.replicate 3 isOctalDigit,
    (· == '\\') :: (· == 'x') :: List.replicate 2 isHexDigit,
    (· == '\\') :: (· == 'u') :: List.replicate 4 isHexDigit,
    [fun c => !(isWordLetter c || c == ' ' || isApostrophe c)]]

@[simp] theorem begins_cons_cons (kind : Char → Bool) (form : List (Char → Bool)) (c : Char)
    (t : Text) : begins (kind :: form) (c :: t) = (kind c && begins form t) := rfl

@[simp] theorem begins_nil (t : Text) : begins [] t = true := by
  cases t <;> rfl

theorem begins_replicate (n : Nat) (kind : Char → Bool) (t : Text) :
    begins (List.replicate n kind) t = ((t.take n).length == n && (t.take n).all kind) := by
  induction n generalizing t with
  | zero => simp
  | succ n ih =>
    cases t with
    | nil => rfl
    | cons c t =>
      rw [List.replicate_succ, begins_cons_cons, ih]
      cases hc : kind c <;> simp [hc]

@[simp] theorem matchLength_nil (t : Text) : matchLength [] t = 0 := rfl

@[simp] theorem matchLength_cons (form : List (Char → Bool)) (forms : List (List (Char → Bool)))
    (t : Text) :
    matchLength (form :: forms) t
      = if begins form t then form.length else matchLength forms t := by
  rw [matchLength, List.find?_cons]
  cases begins form t <;> rfl

/-- A backslash is blanked alone if none of the escapes fits. -/
theorem matchLength_backslash (t : Text) :
    matchLength nonWordForms ('\\' :: t) = escapeTail t + 1 := by
  cases t with
  | nil => decide
  | cons d t =>
    have hoctal : begins (List.replicate 3 isOctalDigit) (d :: t)
        = (isOctalDigit d && (t.take 2).length == 2 && (t.take 2).all isOctalDigit) := by
      rw [List.replicate_succ, begins_cons_cons, begins_replicate, Bool.and_assoc]
    have halone : isWordLetter '\\' = false ∧ isApostrophe '\\' = false := by decide
    simp only [nonWordForms, matchLength_cons, matchLength_nil, begins_cons_cons, hoctal,
      begins_replicate, begins_nil, escapeTail, apply_ite (· + 1), beq_self_eq_true, halone]
    simp [Bool.and_assoc]

/-- The length of what is no part of a word is that of the first form that fits. -/
theorem nonWordLength_eq_matchLength (t : Text) :
    nonWordLength t = matchLength nonWordForms t := by
  cases t with
  | nil => rfl
  | cons c t =>
    rw [nonWordLength]
    split
    case isTrue hc => rw [hc, matchLength_backslash]
    case isFalse hc =>
      have hescape : (c == '\\') = false := by simpa using hc
      simp only [nonWordForms, matchLength_cons, matchLength_nil, begins_cons_cons, begins_nil,
        hescape, Bool.false_and]
      grind [keepsInWords]

/-- What is blanked of a text are the matches of the forms. -/
theorem blankNonWords_eq_blankMatches (t : Text) :
    blankNonWords t = blankMatches nonWordForms t := by
  rw [blankNonWords, blankFrom_eq_blankBy, blankMatches, funext nonWordLength_eq_matchLength]

/-! ## Bytes and characters -/

/-- The character that the byte at an offset belongs to. -/
def charAt? : Nat → Text → Option Char
  | _, [] => none
  | k, c :: t => if k < c.utf8Size then some c else charAt? (k - c.utf8Size) t

theorem charAt?_append_of_lt {k : Nat} {a : Text} (b : Text) (h : k < a.byteLength) :
    charAt? k (a ++ b) = charAt? k a := by
  induction a generalizing k with
  | nil => simp at h
  | cons c a ih =>
    rw [List.cons_append, charAt?, charAt?]
    split
    · rfl
    · rw [byteLength_cons] at h
      exact ih (by omega)

theorem charAt?_append_of_le {k : Nat} {a : Text} (b : Text) (h : a.byteLength ≤ k) :
    charAt? k (a ++ b) = charAt? (k - a.byteLength) b := by
  induction a generalizing k with
  | nil => rfl
  | cons c a ih =>
    rw [byteLength_cons] at h ⊢
    rw [List.cons_append, charAt?, if_neg (by omega), ih (by omega), Nat.sub_sub]

theorem mem_of_charAt? {k : Nat} {t : Text} {c : Char} (h : charAt? k t = some c) : c ∈ t := by
  induction t generalizing k with
  | nil => cases h
  | cons d t ih =>
    rw [charAt?] at h
    split at h
    · exact Option.some.inj h ▸ List.mem_cons_self
    · exact List.mem_cons_of_mem d (ih h)

theorem exists_charAt?_of_mem {t : Text} {c : Char} (h : c ∈ t) :
    ∃ k, k < byteLength t ∧ charAt? k t = some c := by
  obtain ⟨left, right, rfl⟩ := List.append_of_mem h
  have hpos := c.utf8Size_pos
  refine ⟨byteLength left, ?_, ?_⟩
  · rw [byteLength_append, byteLength_cons]
    omega
  · rw [charAt?_append_of_le _ (Nat.le_refl _), Nat.sub_self, charAt?, if_pos hpos]

theorem exists_charAt? {k : Nat} {t : Text} (h : k < t.byteLength) : ∃ c, charAt? k t = some c := by
  induction t generalizing k with
  | nil => simp at h
  | cons c t ih =>
    rw [byteLength_cons] at h
    rw [charAt?]
    split
    · exact ⟨c, rfl⟩
    · exact ih (by omega)

/-! ## What words cover -/

/-- The first of some words along a text, and what the others stand in. -/
theorem exists_of_along_cons {offset : Nat} {t : Text} {token : Token} {rest : List Token}
    (h : tokenStrand.Along offset t (token :: rest)) :
    ∃ gap post, t = gap ++ (token.text ++ post) ∧ offset + gap.byteLength = token.start ∧
      token.start + token.text.byteLength = token.stop ∧ token.start < token.stop ∧
      IsWord gap token.text post ∧ tokenStrand.Along token.stop post rest ∧
      ∀ other ∈ rest, token.stop ≤ other.start := by
  obtain ⟨gap, post, rfl, hstart, hstop, hword, hrest⟩ := h
  have hstop : token.start + token.text.byteLength = token.stop := hstop
  have hne := mt (byteLength_eq_zero_iff token.text).1 hword.ne_nil
  exact ⟨gap, post, List.append_assoc .., hstart, hstop, by omega, hword, hrest,
    fun other ho => (hrest.bounds other ho).1⟩

theorem lt_of_along {offset : Nat} {t : Text} {tokens : List Token} {token : Token}
    (h : tokenStrand.Along offset t tokens) (hmem : token ∈ tokens) : token.start < token.stop := by
  induction tokens generalizing offset t with
  | nil => cases hmem
  | cons first rest ih =>
    obtain ⟨-, post, -, -, -, hlt, -, hrest, -⟩ := exists_of_along_cons h
    rcases List.mem_cons.1 hmem with rfl | hmem
    · exact hlt
    · exact ih hrest hmem

/-- Words along a text cover the bytes that belong to no blank. -/
theorem covered_iff_of_along {offset : Nat} {t : Text} {tokens : List Token}
    (h : tokenStrand.Along offset t tokens) (k : Nat) :
    (∃ token ∈ tokens, token.start ≤ offset + k ∧ offset + k < token.stop) ↔
      ∃ c, charAt? k t = some c ∧ c ≠ ' ' := by
  induction tokens generalizing offset t k with
  | nil =>
    have hblank : ∀ c ∈ t, c = ' ' := h
    refine iff_of_false (by simp) ?_
    rintro ⟨c, hc, hne⟩
    exact hne (hblank c (mem_of_charAt? hc))
  | cons token rest ih =>
    obtain ⟨gap, post, rfl, hstart, hstop, -, hword, hrest, hlater⟩ := exists_of_along_cons h
    rcases Nat.lt_or_ge k gap.byteLength with hk | hk
    · -- in the gap there is neither a word nor anything but blanks
      rw [charAt?_append_of_lt _ hk]
      refine iff_of_false ?_ ?_
      · rintro ⟨other, ho, hle, -⟩
        rcases List.mem_cons.1 ho with rfl | ho
        · omega
        · have := hlater other ho
          omega
      · rintro ⟨c, hc, hne⟩
        exact hne (hword.gap c (mem_of_charAt? hc))
    · rw [charAt?_append_of_le _ hk]
      rcases Nat.lt_or_ge (k - gap.byteLength) token.text.byteLength with hk' | hk'
      · -- in the word no character is a blank
        rw [charAt?_append_of_lt _ hk']
        obtain ⟨c, hc⟩ := exists_charAt? hk'
        refine iff_of_true ⟨token, List.mem_cons_self, by omega, by omega⟩ ⟨c, hc, ?_⟩
        rintro rfl
        exact hword.blank (mem_of_charAt? hc)
      · have hoffset : token.stop + (k - gap.byteLength - token.text.byteLength) = offset + k := by
          omega
        rw [charAt?_append_of_le _ hk', ← ih hrest, hoffset, List.exists_mem_cons_iff]
        exact or_iff_right (by omega)

/-- A word that stands at the very start of what follows begins it. -/
theorem head?_of_along {offset : Nat} {t : Text} {tokens : List Token} {token : Token}
    (h : tokenStrand.Along offset t tokens) (hmem : token ∈ tokens) (hstart : token.start = offset) :
    ∃ c, t.head? = some c ∧ token.text.head? = some c ∧ c ≠ ' ' := by
  cases tokens with
  | nil => cases hmem
  | cons first rest =>
    obtain ⟨gap, post, rfl, hgap, -, hlt, hword, -, hlater⟩ := exists_of_along_cons h
    rcases List.mem_cons.1 hmem with rfl | hmem
    · obtain rfl := (byteLength_eq_zero_iff gap).1 (by omega)
      obtain ⟨c, w, hw⟩ := List.exists_cons_of_ne_nil hword.ne_nil
      rw [hw]
      exact ⟨c, rfl, rfl, fun hc => hword.blank (by simp [hw, hc])⟩
    · have := hlater token hmem
      omega

/-- Where one word ends another one starts only with a capital. -/
theorem capital_of_touch {offset : Nat} {t : Text} {tokens : List Token} {a b : Token}
    (h : tokenStrand.Along offset t tokens) (ha : a ∈ tokens) (hb : b ∈ tokens)
    (htouch : a.stop = b.start) : ∃ c, b.text.head? = some c ∧ isUppercase c = true := by
  induction tokens generalizing offset t with
  | nil => cases ha
  | cons token rest ih =>
    obtain ⟨gap, post, rfl, -, -, hlt, hword, hrest, hlater⟩ := exists_of_along_cons h
    rcases List.mem_cons.1 ha with rfl | harest
    · rcases List.mem_cons.1 hb with rfl | hbrest
      · omega
      · obtain ⟨c, hpost, hc, hne⟩ := head?_of_along hrest hbrest htouch.symm
        exact ⟨c, hc, (hword.next c hpost).resolve_left hne⟩
    · rcases List.mem_cons.1 hb with rfl | hbrest
      · -- the second word would come before the first one
        have hbefore := hlater a harest
        have hcovers := lt_of_along hrest harest
        omega
      · exact ih hrest harest hbrest

/-! ## The partition -/

/-- The words of a text share out what is not blanked of it. -/
structure Partitions (t blanked : Text) (tokens : List Token) : Prop where
  /-- A word covers something, and is what the text holds there. -/
  slice : ∀ token ∈ tokens,
    token.start < token.stop ∧ slice? token.start token.stop t = some token.text
  /-- The words are in order and apart. -/
  apart : tokens.Pairwise fun a b => a.stop ≤ b.start
  /-- A byte is in a word exactly if it is not a blank once the text is blanked. -/
  covered : ∀ k, (∃ token ∈ tokens, token.start ≤ k ∧ k < token.stop) ↔
    ∃ c, charAt? k blanked = some c ∧ c ≠ ' '
  /-- No character of a word but the first is a capital. -/
  small : ∀ token ∈ tokens, ∀ c ∈ token.text.tail, isUppercase c = false
  /-- A word that another one touches from the left starts with a capital. -/
  capital : ∀ a ∈ tokens, ∀ b ∈ tokens, a.stop = b.start →
    ∃ c, b.text.head? = some c ∧ isUppercase c = true

/-- **The words of a text partition what is left when all matches of the forms are blanked.** -/
theorem partitions_wordTokens (t : Text) :
    Partitions t (blankMatches nonWordForms t) t.wordTokens := by
  have halong := along_wordTokens t
  rw [← blankNonWords_eq_blankMatches]
  constructor
  case slice =>
    intro token htoken
    exact ⟨lt_of_along halong htoken, (wordToken_slice htoken).2⟩
  case apart => exact halong.pairwise
  case covered =>
    intro k
    have hcovered := covered_iff_of_along halong k
    rwa [Nat.zero_add] at hcovered
  case small =>
    intro token htoken
    obtain ⟨gap, post, hword⟩ := halong.exists_fits token htoken
    exact hword.small
  case capital => exact fun a ha b hb => capital_of_touch halong ha hb

-- an octal escape that starts with a zero is read as an escape of one letter
example : (wordTokens "isn't\\0123 getID".toList).map (fun token => (token.start, token.stop))
    = [(0, 5), (7, 10), (11, 14), (14, 15), (15, 16)] := by
  decide +kernel

end CodeProse.Text
