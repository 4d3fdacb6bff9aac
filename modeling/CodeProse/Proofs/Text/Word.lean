/-
# Where the words of a text stand

What is no word is blanked byte by byte, so all that is left stands where it stood before
(`Blanked.slice`). The words of a text stand in the blanked text one behind the other, with blanks
or a capital to part them (`along_wordTokens`), so each of them is also a slice of the text itself
(`wordToken_slice`). Blanks separate what comes before them from what comes after
(`tokensFrom_append_blank`), and the words between two blanks are the parts that capitals cut
(`map_text_tokensFrom`).
-/
import CodeProse.Proofs.Text.Strand
import CodeProse.Text.Word
import Mathlib.Data.List.SplitBy

namespace CodeProse.Text

open Unicode

/-! ## Blanking -/

/-- A text, and the text with some of its characters blanked, each by as many blanks as it has
bytes. -/
inductive Blanked : Text → Text → Prop
  | nil : Blanked [] []
  | keep {t b : Text} (c : Char) : Blanked t b → Blanked (c :: t) (c :: b)
  | blank {t b : Text} (c : Char) :
      Blanked t b → Blanked (c :: t) (List.replicate c.utf8Size ' ' ++ b)

/-- Blanks the next `pending` characters and then, wherever `length` finds something at the start of
the rest, as many characters as it says. -/
def blankBy (length : Text → Nat) (pending : Nat) : Text → Text
  | [] => []
  | c :: t =>
    match pending, length (c :: t) with
    | n + 1, _ => List.replicate c.utf8Size ' ' ++ blankBy length n t
    | 0, n + 1 => List.replicate c.utf8Size ' ' ++ blankBy length n t
    | 0, 0 => c :: blankBy length 0 t

theorem blankFrom_eq_blankBy (pending : Nat) (t : Text) :
    blankFrom pending t = blankBy nonWordLength pending t := by
  induction t generalizing pending with
  | nil => rfl
  | cons c t ih =>
    cases pending with
    | succ n => exact congrArg (List.replicate c.utf8Size ' ' ++ ·) (ih n)
    | zero =>
      unfold blankFrom blankBy
      cases nonWordLength (c :: t) with
      | zero => exact congrArg (c :: ·) (ih 0)
      | succ n => exact congrArg (List.replicate c.utf8Size ' ' ++ ·) (ih n)

theorem blanked_blankBy (length : Text → Nat) (pending : Nat) (t : Text) :
    Blanked t (blankBy length pending t) := by
  induction t generalizing pending with
  | nil => exact .nil
  | cons c t ih =>
    cases pending with
    | succ n => exact .blank c (ih n)
    | zero =>
      unfold blankBy
      split
      · exact .blank c (ih _)
      · exact .blank c (ih _)
      · exact .keep c (ih 0)

/-- A character that is no blank stands in the text where it stands in the blanked text. -/
theorem Blanked.exists_split {t left right : Text} {c : Char} (h : Blanked t (left ++ c :: right))
    (hc : c ≠ ' ') :
    ∃ left' right', t = left' ++ c :: right' ∧ byteLength left' = byteLength left ∧
      Blanked right' right := by
  generalize hb : left ++ c :: right = b at h
  induction h generalizing left with
  | nil => simp at hb
  | @keep t b d hrest ih =>
    cases left with
    | nil =>
      obtain ⟨rfl, rfl⟩ := List.cons.inj hb
      exact ⟨[], t, rfl, rfl, hrest⟩
    | cons e left =>
      obtain ⟨rfl, hlater⟩ := List.cons.inj hb
      obtain ⟨left', right', rfl, hbytes, hright⟩ := ih hlater
      exact ⟨e :: left', right', rfl, by simp [hbytes], hright⟩
  | @blank t b d hrest ih =>
    -- the blanks of one character all stand in front of what is no blank
    have hlead : ∃ m, left = List.replicate d.utf8Size ' ' ++ m ∧ b = m ++ c :: right := by
      rcases List.append_eq_append_iff.1 hb with ⟨m, hblanks, hm⟩ | ⟨m, hleft, hm⟩
      · cases m with
        | nil => exact ⟨[], by simpa using hblanks.symm, by simpa using hm.symm⟩
        | cons e m =>
          obtain ⟨rfl, -⟩ := List.cons.inj hm
          have hmem : c ∈ List.replicate d.utf8Size ' ' := by simp [hblanks]
          exact absurd (List.eq_of_mem_replicate hmem) hc
      · exact ⟨m, hleft, hm⟩
    obtain ⟨m, rfl, rfl⟩ := hlead
    obtain ⟨left', right', rfl, hbytes, hright⟩ := ih rfl
    refine ⟨d :: left', right', rfl, ?_, hright⟩
    rw [byteLength_cons, byteLength_append, hbytes, byteLength_replicate_blank]

/-- What a blanked text begins with, up to its first blank, the text begins with as well. -/
theorem Blanked.exists_append {t w right : Text} (h : Blanked t (w ++ right)) (hw : ' ' ∉ w) :
    ∃ right', t = w ++ right' := by
  induction w generalizing t with
  | nil => exact ⟨t, rfl⟩
  | cons c w ih =>
    have hc : c ≠ ' ' := fun hc => hw (by simp [hc])
    have hfirst : Blanked t ([] ++ c :: (w ++ right)) := h
    obtain ⟨lead, rest, rfl, hlead, hrest⟩ := hfirst.exists_split hc
    obtain rfl := (byteLength_eq_zero_iff _).1 hlead
    obtain ⟨right', rfl⟩ := ih hrest fun hmem => hw (List.mem_cons_of_mem c hmem)
    exact ⟨right', rfl⟩

/-- A stretch of a blanked text without blanks stands there in the text as well. -/
theorem Blanked.slice {t b w : Text} {start stop : Nat} (h : Blanked t b)
    (hslice : slice? start stop b = some w) (hne : w ≠ []) (hw : ' ' ∉ w) :
    slice? start stop t = some w := by
  obtain ⟨left, right, rfl, hstart, hstop⟩ := (slice?_eq_some_iff _ _ _ _).1 hslice
  obtain ⟨c, w, rfl⟩ := List.exists_cons_of_ne_nil hne
  rw [List.append_assoc] at h
  have hc : c ≠ ' ' := fun hc => hw (by simp [hc])
  obtain ⟨left', rest, rfl, hbytes, hrest⟩ := h.exists_split hc
  obtain ⟨right', rfl⟩ := hrest.exists_append fun hmem => hw (List.mem_cons_of_mem c hmem)
  refine (slice?_eq_some_iff _ _ _ _).2 ⟨left', right', by simp, ?_, hstop⟩
  rw [hbytes, hstart]

/-! ## Words in their text -/

/-- A word between a gap and what follows it: the gap is blanks, and a blank or a capital ends the
word, of which only the first character may be a capital. -/
structure IsWord (gap w post : Text) : Prop where
  gap : ∀ c ∈ gap, c = ' '
  ne_nil : w ≠ []
  blank : ' ' ∉ w
  small : ∀ c ∈ w.tail, isUppercase c = false
  next : ∀ c ∈ post.head?, c = ' ' ∨ isUppercase c = true

/-- Words stand between blanks, or one right behind the other. -/
def tokenStrand : Strand Token where
  place token := ⟨token.text, token.start, token.stop⟩
  fits gap token post := IsWord gap token.text post
  ends t := ∀ c ∈ t, c = ' '

/-- A token that is closed stands in front of what follows. -/
theorem along_closeToken {start : Nat} {reversed post : Text} {rest : List Token}
    (hblank : ' ' ∉ reversed) (hopen : ∀ d ∈ reversed.dropLast, isUppercase d = false)
    (hnext : ∀ c ∈ post.head?, c = ' ' ∨ isUppercase c = true)
    (hrest : tokenStrand.Along (start + reversed.byteLength) post rest) :
    tokenStrand.Along start (reversed.reverse ++ post) (closeToken start reversed ++ rest) := by
  rw [closeToken]
  split
  case isTrue hempty =>
    obtain rfl := List.isEmpty_iff.1 hempty
    exact hrest
  case isFalse hne =>
    refine ⟨[], post, rfl, rfl, ?_, ⟨by simp, ?_, ?_, ?_, hnext⟩, hrest⟩
    · show start + byteLength reversed.reverse = start + reversed.byteLength
      rw [byteLength_reverse]
    · show reversed.reverse ≠ []
      simpa using hne
    · show ' ' ∉ reversed.reverse
      simpa using hblank
    · show ∀ c ∈ reversed.reverse.tail, isUppercase c = false
      simpa using hopen

/-- An open word, of which only the first character may be a capital, stays so when it grows by a
character that is no capital. -/
theorem small_of_grown {c : Char} {reversed : Text} (hc : isUppercase c = false)
    (hne : reversed ≠ []) (hopen : ∀ d ∈ reversed.dropLast, isUppercase d = false) :
    ∀ d ∈ (c :: reversed).dropLast, isUppercase d = false := by
  rw [List.dropLast_cons_of_ne_nil hne]
  intro d hd
  rcases List.mem_cons.1 hd with rfl | hd
  · exact hc
  · exact hopen d hd

theorem along_tokensFrom {start : Nat} {reversed t : Text} (hblank : ' ' ∉ reversed)
    (hopen : ∀ d ∈ reversed.dropLast, isUppercase d = false) :
    tokenStrand.Along start (reversed.reverse ++ t)
      (tokensFrom (start + reversed.byteLength) start reversed t) := by
  induction t generalizing start reversed with
  | nil =>
    have hends : tokenStrand.Along (start + reversed.byteLength) [] [] := by
      intro c hc
      cases hc
    have hclosed := along_closeToken hblank hopen (by simp) hends
    rwa [List.append_nil (closeToken ..)] at hclosed
  | cons c t ih =>
    rw [tokensFrom]
    split
    case isTrue hc =>
      refine along_closeToken hblank hopen (by simp [hc]) ?_
      have hlead : ∀ u : Text, (∀ d ∈ u, d = ' ') → ∀ d ∈ [c] ++ u, d = ' ' := by
        intro u hu d hd
        rcases List.mem_cons.1 hd with rfl | hd
        · exact hc
        · exact hu d hd
      exact Strand.Along.append_left [c] hlead
        (fun gap _ _ hfits => { hfits with gap := hlead gap hfits.gap })
        (@ih _ [] (by simp) (by simp))
    case isFalse hc =>
      have hfresh : ∀ start, tokenStrand.Along start (c :: t)
          (tokensFrom (start + c.utf8Size) start [c] t) := fun start =>
        @ih start [c] (by simpa using Ne.symm hc) (by simp)
      split
      case isTrue hcapital => exact along_closeToken hblank hopen (by simp [hcapital]) (hfresh _)
      case isFalse hsmall =>
        split
        case isTrue hempty =>
          obtain rfl := List.isEmpty_iff.1 hempty
          exact hfresh start
        case isFalse hne =>
          have hgrown := @ih start (c :: reversed) (by simpa using ⟨Ne.symm hc, hblank⟩)
            (small_of_grown (by simpa using hsmall) (by simpa using hne) hopen)
          simpa [Nat.add_assoc, Nat.add_comm, Nat.add_left_comm] using hgrown

/-- **The words of a text stand in the blanked text one behind the other.** -/
theorem along_wordTokens (t : Text) : tokenStrand.Along 0 (blankNonWords t) t.wordTokens :=
  @along_tokensFrom 0 [] (blankNonWords t) (by simp) (by simp)

/-- A word of a text is what stands between its offsets, and it is not empty. -/
theorem wordToken_slice {t : Text} {token : Token} (h : token ∈ t.wordTokens) :
    token.text ≠ [] ∧ slice? token.start token.stop t = some token.text := by
  obtain ⟨gap, post, -, hne, hblank, -, -⟩ := (along_wordTokens t).exists_fits token h
  have hslice : slice? token.start token.stop (blankNonWords t) = some token.text :=
    @Strand.Along.slice _ tokenStrand [] _ _ (along_wordTokens t) token h
  rw [blankNonWords, blankFrom_eq_blankBy] at hslice
  exact ⟨hne, (blanked_blankBy nonWordLength 0 t).slice hslice hne hblank⟩

/-! ## Words between blanks -/

/-- Blanks separate words: what follows a blank is cut as if nothing stood before it. -/
theorem tokensFrom_append_blank (offset start : Nat) (reversed w t : Text) :
    tokensFrom offset start reversed (w ++ ' ' :: t)
      = tokensFrom offset start reversed w
        ++ tokensFrom (offset + w.byteLength + 1) (offset + w.byteLength + 1) [] t := by
  induction w generalizing offset start reversed with
  | nil =>
    show tokensFrom offset start reversed (' ' :: t)
      = closeToken start reversed ++ tokensFrom (offset + 1) (offset + 1) [] t
    rw [tokensFrom, if_pos rfl, show ' '.utf8Size = 1 from rfl]
  | cons c w ih =>
    have hoffset : offset + byteLength (c :: w) = offset + c.utf8Size + byteLength w := by
      rw [byteLength_cons, Nat.add_assoc]
    show tokensFrom offset start reversed (c :: (w ++ ' ' :: t)) = _
    rw [tokensFrom, tokensFrom, hoffset]
    split
    · rw [ih, List.append_assoc]
    · split
      · rw [ih, List.append_assoc]
      · split
        · rw [ih]
        · rw [ih]

/-- The parts of a word: it is cut before every capital. -/
def capitalParts (w : Text) : List Text :=
  w.splitBy fun _ c => !isUppercase c

/-- A word without a capital behind its first character is one part. -/
theorem capitalParts_of_tail {w : Text} (hne : w ≠ []) (hw : ∀ d ∈ w.tail, isUppercase d = false) :
    capitalParts w = [w] := by
  refine List.splitBy_of_isChain hne ?_
  induction w with
  | nil => exact List.isChain_nil
  | cons c w ih =>
    cases w with
    | nil => exact List.isChain_singleton c
    | cons d w =>
      refine List.isChain_cons_cons.2 ⟨?_, ih (List.cons_ne_nil d w) fun e he => ?_⟩
      · simpa using hw d List.mem_cons_self
      · exact hw e (List.mem_cons_of_mem d he)

/-- A capital starts a new part. -/
theorem capitalParts_append_cons {c : Char} (hc : isUppercase c = true) (v w : Text) :
    capitalParts (v ++ c :: w) = capitalParts v ++ capitalParts (c :: w) := by
  refine List.splitBy_append fun x _ y hy => ?_
  obtain rfl := Option.some.inj hy
  simp [hc]

example : capitalParts "getHTTPServer".toList
    = ["get", "H", "T", "T", "P", "Server"].map String.toList := by
  decide +kernel

/-- The characters of an open word, of which only the first may be a capital, are one part. -/
theorem map_text_closeToken {start : Nat} {reversed : Text}
    (hopen : ∀ d ∈ reversed.dropLast, isUppercase d = false) :
    (closeToken start reversed).map (·.text) = capitalParts reversed.reverse := by
  rw [closeToken]
  split
  case isTrue hempty =>
    obtain rfl := List.isEmpty_iff.1 hempty
    rfl
  case isFalse hne =>
    rw [capitalParts_of_tail (by simpa using hne) (by simpa using hopen)]
    rfl

/-- **Between blanks, words are cut before capitals only.**  The characters of an open word, of
which only the first may be a capital, come in front of those of the text. -/
theorem map_text_tokensFrom {offset start : Nat} {reversed w : Text} (hw : ' ' ∉ w)
    (hopen : ∀ d ∈ reversed.dropLast, isUppercase d = false) :
    (tokensFrom offset start reversed w).map (·.text) = capitalParts (reversed.reverse ++ w) := by
  induction w generalizing offset start reversed with
  | nil => rw [tokensFrom, map_text_closeToken hopen, List.append_nil]
  | cons c w ih =>
    have hc : c ≠ ' ' := fun hc => hw (by simp [hc])
    have hw : ' ' ∉ w := fun hmem => hw (List.mem_cons_of_mem c hmem)
    have hnew : ∀ offset start,
        (tokensFrom offset start [c] w).map (·.text) = capitalParts (c :: w) :=
      fun offset start => @ih offset start [c] hw (by simp)
    rw [tokensFrom, if_neg hc]
    split
    case isTrue hcapital =>
      rw [List.map_append, map_text_closeToken hopen, hnew, capitalParts_append_cons hcapital]
    case isFalse hsmall =>
      split
      case isTrue hempty =>
        obtain rfl := List.isEmpty_iff.1 hempty
        exact hnew _ _
      case isFalse hne =>
        have hgrown := small_of_grown (by simpa using hsmall) (by simpa using hne) hopen
        rw [ih hw hgrown, List.reverse_cons, List.append_assoc]
        rfl

end CodeProse.Text
