/-
# Collapsed texts

Collapsing keeps the characters of a text that are not white space, in their order
(`visible_collapse`), and leaves of the white space single blanks between words
(`isCollapsed_collapse`). A text that is like that already is kept (`collapse_of_isCollapsed`).
-/
import CodeProse.Text.Blank

namespace CodeProse.Text

open Unicode (isWhitespace)

/-! ## Visible characters -/

/-- The characters of a text that are not white space. -/
def visible (t : Text) : Text :=
  t.filter fun c => !isWhitespace c

@[simp] theorem visible_nil : visible [] = [] := rfl

@[simp] theorem visible_append (a b : Text) : visible (a ++ b) = visible a ++ visible b :=
  List.filter_append ..

theorem visible_cons_of_isWhitespace {c : Char} (t : Text) (h : isWhitespace c = true) :
    visible (c :: t) = visible t := by
  simp [visible, h]

theorem visible_cons_of_not_isWhitespace {c : Char} (t : Text) (h : isWhitespace c = false) :
    visible (c :: t) = c :: visible t := by
  simp [visible, h]

@[simp] theorem isWhitespace_blank : isWhitespace ' ' = true := by decide

/-! ## Words -/

theorem words_cons_of_isWhitespace {c : Char} (t : Text) (h : isWhitespace c = true) :
    words (c :: t) = words t := by
  rw [words.eq_def]
  simp only [h, if_true]

theorem words_cons_ne_nil {c : Char} (t : Text) (h : isWhitespace c = false) :
    words (c :: t) ≠ [] := by
  rw [words.eq_def]
  simp only [h, Bool.false_eq_true, if_false]
  split
  · simp
  · split
    · simp
    · split <;> simp

/-- The words of a text that starts with a visible character: the first one starts with it, and ends
with it if white space or nothing follows. -/
theorem words_cons_of_not_isWhitespace {c : Char} (t : Text) (h : isWhitespace c = false) :
    (words (c :: t) = [c] :: words t ∧ t.head?.all isWhitespace = true) ∨
      ∃ w ws, words t = w :: ws ∧ words (c :: t) = (c :: w) :: ws := by
  rw [words.eq_def]
  simp only [h, Bool.false_eq_true, if_false]
  cases t with
  | nil => exact .inl ⟨rfl, rfl⟩
  | cons d t =>
    cases hd : isWhitespace d with
    | true => exact .inl ⟨by simp [hd], by simp [hd]⟩
    | false =>
      obtain ⟨w, ws, hw⟩ := List.exists_cons_of_ne_nil (words_cons_ne_nil t hd)
      exact .inr ⟨w, ws, hw, by simp [hd, hw]⟩

/-- The words hold the visible characters, in order. -/
theorem flatten_words (t : Text) : (words t).flatten = visible t := by
  induction t with
  | nil => rfl
  | cons c t ih =>
    cases hc : isWhitespace c with
    | true => rw [words_cons_of_isWhitespace t hc, visible_cons_of_isWhitespace t hc, ih]
    | false =>
      rw [visible_cons_of_not_isWhitespace t hc, ← ih]
      rcases words_cons_of_not_isWhitespace t hc with ⟨h, -⟩ | ⟨w, ws, hw, h⟩
      · simp [h]
      · simp [h, hw]

/-- A word is not empty, and all its characters are visible. -/
theorem mem_words {t w : Text} (h : w ∈ words t) : w ≠ [] ∧ ∀ c ∈ w, isWhitespace c = false := by
  induction t generalizing w with
  | nil => simp [words] at h
  | cons c t ih =>
    cases hc : isWhitespace c with
    | true =>
      rw [words_cons_of_isWhitespace t hc] at h
      exact ih h
    | false =>
      rcases words_cons_of_not_isWhitespace t hc with ⟨h', -⟩ | ⟨v, ws, hw, h'⟩
      · rw [h'] at h
        rcases List.mem_cons.1 h with rfl | h
        · simp [hc]
        · exact ih h
      · rw [h'] at h
        rcases List.mem_cons.1 h with rfl | h
        · obtain ⟨-, hv⟩ := ih (hw ▸ List.mem_cons_self)
          exact ⟨by simp, by simpa [hc] using hv⟩
        · exact ih (hw ▸ List.mem_cons_of_mem v h)

/-- **Words do not reach across white space.**  All that is known of the words of a longer text
follows from this. -/
theorem words_append_cons {c : Char} (hc : isWhitespace c = true) (a b : Text) :
    words (a ++ c :: b) = words a ++ words b := by
  induction a with
  | nil => simpa [words] using words_cons_of_isWhitespace b hc
  | cons d a ih =>
    rw [List.cons_append]
    cases hd : isWhitespace d with
    | true => rw [words_cons_of_isWhitespace _ hd, words_cons_of_isWhitespace a hd, ih]
    | false =>
      cases a with
      | nil =>
        have hlast : words [d] = [[d]] := by simp [words, hd]
        rw [hlast, words.eq_def]
        simp [hd, hc, words_cons_of_isWhitespace b hc]
      | cons e a =>
        cases he : isWhitespace e with
        | true =>
          rw [words.eq_def, words.eq_def (d :: e :: a)]
          simp only [List.cons_append, hd, he, Bool.false_eq_true, if_false, if_true] at ih ⊢
          rw [ih]
        | false =>
          obtain ⟨w, ws, hw⟩ := List.exists_cons_of_ne_nil (words_cons_ne_nil a he)
          rw [words.eq_def, words.eq_def (d :: e :: a)]
          simp only [List.cons_append, hd, he, Bool.false_eq_true, if_false] at ih ⊢
          rw [ih, hw]
          rfl

/-- Whether a text is empty or begins with white space, so that it goes on with no word. -/
def startsBlank (t : Text) : Bool :=
  t.head?.all isWhitespace

theorem startsBlank_append {a : Text} (b : Text) (h : a ≠ []) :
    startsBlank (a ++ b) = startsBlank a := by
  obtain ⟨c, a, rfl⟩ := List.exists_cons_of_ne_nil h
  rfl

/-- The words of two texts of which the second goes on with no word of the first. -/
theorem words_append {a b : Text} (h : startsBlank b = true) :
    words (a ++ b) = words a ++ words b := by
  cases b with
  | nil => simp [words]
  | cons c b =>
    have hc : isWhitespace c = true := by simpa [startsBlank] using h
    rw [words_append_cons hc, words_cons_of_isWhitespace b hc]

/-- White space has no words. -/
theorem words_of_blank {t : Text} (h : ∀ c ∈ t, isWhitespace c = true) : words t = [] := by
  induction t with
  | nil => rfl
  | cons c t ih =>
    rw [words_cons_of_isWhitespace t (h c List.mem_cons_self)]
    exact ih fun d hd => h d (List.mem_cons_of_mem c hd)

/-- White space in front has no words. -/
theorem words_blank_append {a : Text} (b : Text) (h : ∀ c ∈ a, isWhitespace c = true) :
    words (a ++ b) = words b := by
  induction a with
  | nil => rfl
  | cons c a ih =>
    rw [List.cons_append, words_cons_of_isWhitespace _ (h c List.mem_cons_self)]
    exact ih fun d hd => h d (List.mem_cons_of_mem c hd)

/-- Visible characters in a row are one word. -/
theorem words_of_visible {w : Text} (hne : w ≠ []) (h : ∀ c ∈ w, isWhitespace c = false) :
    words w = [w] := by
  induction w with
  | nil => exact absurd rfl hne
  | cons c w ih =>
    have hc : isWhitespace c = false := h c List.mem_cons_self
    cases w with
    | nil => simp [words, hc]
    | cons d w =>
      have hd : isWhitespace d = false := h d (by simp)
      have hrest : words (d :: w) = [d :: w] :=
        ih (by simp) fun x hx => h x (List.mem_cons_of_mem c hx)
      rw [words.eq_def]
      simp [hc, hd, hrest]

/-- Words that are joined with blanks are read back. -/
theorem words_join {ws : List Text}
    (h : ∀ w ∈ ws, w ≠ [] ∧ ∀ c ∈ w, isWhitespace c = false) : words (join [' '] ws) = ws := by
  induction ws with
  | nil => rfl
  | cons w ws ih =>
    obtain ⟨hne, hw⟩ := h w List.mem_cons_self
    cases ws with
    | nil => exact words_of_visible hne hw
    | cons v ws =>
      have hjoin : join [' '] (w :: v :: ws) = w ++ ' ' :: join [' '] (v :: ws) := by simp [join]
      rw [hjoin, words_append_cons (by decide), words_of_visible hne hw,
        ih fun x hx => h x (List.mem_cons_of_mem w hx)]
      rfl

/-! ## Joining -/

theorem join_cons (sep w : Text) {ws : List Text} (h : ws ≠ []) :
    join sep (w :: ws) = w ++ sep ++ join sep ws := by
  obtain ⟨v, vs, rfl⟩ := List.exists_cons_of_ne_nil h
  rfl

theorem join_append (sep : Text) {a b : List Text} (ha : a ≠ []) (hb : b ≠ []) :
    join sep (a ++ b) = join sep a ++ sep ++ join sep b := by
  induction a with
  | nil => exact absurd rfl ha
  | cons w a ih =>
    cases a with
    | nil => exact join_cons sep w hb
    | cons v a =>
      rw [List.cons_append, join_cons sep w (by simp), ih (List.cons_ne_nil v a),
        join_cons sep w (List.cons_ne_nil v a)]
      simp only [List.append_assoc]

/-- Rows of words that are joined, and then joined with one another, are all the words joined. -/
theorem join_map_join (sep : Text) {rows : List (List Text)} (h : [] ∉ rows) :
    join sep (rows.map (join sep)) = join sep rows.flatten := by
  induction rows with
  | nil => rfl
  | cons row rows ih =>
    rw [List.mem_cons, not_or] at h
    cases rows with
    | nil => simp [join]
    | cons next rows =>
      have hnext : next ≠ [] := fun hnil => h.2 (hnil ▸ List.mem_cons_self)
      have hflat : (next :: rows).flatten ≠ [] := by simp [hnext]
      rw [List.map_cons, join_cons _ _ (by simp), ih h.2, ← join_append sep (Ne.symm h.1) hflat,
        ← List.flatten_cons]

/-! ## Collapsing -/

/-- Collapsing keeps the words. -/
theorem words_collapse (t : Text) : words (collapse t) = words t :=
  words_join fun _ hw => mem_words hw

/-- Collapsing a second time changes nothing. -/
theorem collapse_collapse (t : Text) : collapse (collapse t) = collapse t := by
  rw [collapse, words_collapse, ← collapse]

/-- Texts with the same words are the same once their white space is collapsed. -/
theorem collapse_eq_of_words_eq {a b : Text} (h : words a = words b) : collapse a = collapse b := by
  rw [collapse, h, ← collapse]

/-- Joining words with blanks adds no visible character. -/
theorem visible_join_blank (ws : List Text) : visible (join [' '] ws) = visible ws.flatten := by
  induction ws with
  | nil => rfl
  | cons w ws ih =>
    cases ws with
    | nil => simp [join]
    | cons v ws =>
      rw [join, visible_append, visible_append, ih, List.flatten_cons, visible_append]
      simp [visible]
      intro h; cases h

/-- Collapsing keeps the visible characters. -/
theorem visible_collapse (t : Text) : visible (collapse t) = visible t := by
  rw [collapse, visible_join_blank, flatten_words]
  simp [visible]

/-- A text whose white space is single blanks between visible characters. -/
structure IsCollapsed (t : Text) : Prop where
  /-- No white space leads. -/
  head : ∀ c, t.head? = some c → isWhitespace c = false
  /-- No white space trails. -/
  last : ∀ c, t.getLast? = some c → isWhitespace c = false
  /-- No white space is doubled. -/
  single : ∀ a b, [a, b] <:+: t → isWhitespace a = false ∨ isWhitespace b = false
  /-- All white space is blanks. -/
  blank : ∀ c ∈ t, isWhitespace c = true → c = ' '

theorem isCollapsed_of_visible {w : Text} (h : ∀ c ∈ w, isWhitespace c = false) :
    IsCollapsed w where
  head c hc := h c (List.mem_of_head? hc)
  last c hc := h c (List.mem_of_getLast? hc)
  single a b hab := .inl (h a (hab.subset (by simp)))
  blank c hc hw := by simp [h c hc] at hw

/-- A word, a blank and a collapsed text make a collapsed text. -/
theorem IsCollapsed.word_append {w t : Text} (hw : ∀ c ∈ w, isWhitespace c = false) (hne : w ≠ [])
    (ht : IsCollapsed t) (htne : t ≠ []) : IsCollapsed (w ++ ' ' :: t) where
  head c hc := by
    obtain ⟨d, w, rfl⟩ := List.exists_cons_of_ne_nil hne
    exact hw c (List.mem_of_head? hc)
  last c hc := by
    have hlast : (w ++ ' ' :: t).getLast? = t.getLast? := by
      rw [List.getLast?_append, List.getLast?_cons_of_ne_nil htne,
        List.getLast?_eq_some_getLast htne]
      rfl
    exact ht.last c (hlast ▸ hc)
  single a b hab := by
    clear hne
    induction w with
    | nil =>
      rcases List.infix_cons_iff.1 hab with ⟨r, hr⟩ | hab
      · obtain ⟨d, t, rfl⟩ := List.exists_cons_of_ne_nil htne
        simp only [List.cons_append, List.nil_append, List.cons.injEq] at hr
        exact .inr (ht.head b (by simp [hr.2.1]))
      · exact ht.single a b hab
    | cons c w ih =>
      rcases List.infix_cons_iff.1 hab with ⟨r, hr⟩ | hab
      · simp only [List.cons_append, List.cons.injEq] at hr
        exact .inl (hw a (by simp [hr.1]))
      · exact ih (fun x hx => hw x (List.mem_cons_of_mem c hx)) hab
  blank c hc hws := by
    rcases List.mem_append.1 hc with hc | hc
    · simp [hw c hc] at hws
    · rcases List.mem_cons.1 hc with rfl | hc
      · rfl
      · exact ht.blank c hc hws

theorem join_ne_nil {sep w : Text} (ws : List Text) (h : w ≠ []) : join sep (w :: ws) ≠ [] := by
  cases ws <;> simp [join, h]

/-- Joining words with blanks gives a collapsed text. -/
theorem isCollapsed_join {ws : List Text}
    (h : ∀ w ∈ ws, w ≠ [] ∧ ∀ c ∈ w, isWhitespace c = false) : IsCollapsed (join [' '] ws) := by
  induction ws with
  | nil => exact isCollapsed_of_visible (by simp [join])
  | cons w ws ih =>
    obtain ⟨hne, hw⟩ := h w List.mem_cons_self
    cases ws with
    | nil => exact isCollapsed_of_visible hw
    | cons v ws =>
      have hv : v ≠ [] := (h v (by simp)).1
      have hrest : IsCollapsed (join [' '] (v :: ws)) :=
        ih fun x hx => h x (List.mem_cons_of_mem w hx)
      have hjoin : join [' '] (w :: v :: ws) = w ++ ' ' :: join [' '] (v :: ws) := by simp [join]
      rw [hjoin]
      exact hrest.word_append hw hne (join_ne_nil ws hv)

/-- A collapsed text has no white space but single blanks between visible characters. -/
theorem isCollapsed_collapse (t : Text) : IsCollapsed (collapse t) :=
  isCollapsed_join fun _ hw => mem_words hw

/-- A stretch of a collapsed text is collapsed, unless there is white space at its ends. -/
theorem IsCollapsed.of_stretch {t w : Text} (h : IsCollapsed t) (hw : w <:+: t)
    (hhead : ∀ c ∈ w.head?, isWhitespace c = false)
    (hlast : ∀ c ∈ w.getLast?, isWhitespace c = false) : IsCollapsed w where
  head := hhead
  last := hlast
  single a b hab := h.single a b (hab.trans hw)
  blank c hc := h.blank c (hw.subset hc)

/-- Collapsing keeps a visible character in front of another one. -/
theorem collapse_cons_cons {c d : Char} (t : Text) (hc : isWhitespace c = false)
    (hd : isWhitespace d = false) : collapse (c :: d :: t) = c :: collapse (d :: t) := by
  rcases words_cons_of_not_isWhitespace (d :: t) hc with ⟨-, hblank⟩ | ⟨w, ws, hw, hwords⟩
  · rw [show isWhitespace d = true from hblank] at hd
    cases hd
  · rw [collapse, collapse, hwords, hw]
    cases ws <;> rfl

/-- Collapsing keeps a blank between two visible characters. -/
theorem collapse_cons_blank {c d : Char} (t : Text) (hc : isWhitespace c = false)
    (hd : isWhitespace d = false) : collapse (c :: ' ' :: d :: t) = c :: ' ' :: collapse (d :: t) := by
  have hword : words [c] = [[c]] := words_of_visible (List.cons_ne_nil c []) (by simpa using hc)
  have hwords : words (c :: ' ' :: d :: t) = [c] :: words (d :: t) := by
    have h := words_append_cons isWhitespace_blank [c] (d :: t)
    rwa [hword] at h
  rw [collapse, hwords, join_cons _ _ (words_cons_ne_nil t hd)]
  rfl

/-- A collapsed text has nothing to collapse. -/
theorem collapse_of_isCollapsed {t : Text} (h : IsCollapsed t) : collapse t = t := by
  match t with
  | [] => rfl
  | [c] =>
    have hc : isWhitespace c = false := h.head c rfl
    rw [collapse, words_of_visible (List.cons_ne_nil c []) (by simpa using hc)]
    rfl
  | [c, d] =>
    have hd : isWhitespace d = false := h.last d rfl
    have htail : IsCollapsed [d] :=
      h.of_stretch ⟨[c], [], rfl⟩ (by simpa using hd) (by simpa using hd)
    rw [collapse_cons_cons [] (h.head c rfl) hd, collapse_of_isCollapsed htail]
  | c :: d :: e :: rest =>
    have hc : isWhitespace c = false := h.head c rfl
    cases hd : isWhitespace d with
    | false =>
      have htail : IsCollapsed (d :: e :: rest) :=
        h.of_stretch ⟨[c], [], by simp⟩ (by simpa using hd) h.last
      rw [collapse_cons_cons _ hc hd, collapse_of_isCollapsed htail]
    | true =>
      -- white space here is a blank, with no more of it behind
      obtain rfl : d = ' ' := h.blank d (by simp) hd
      have he : isWhitespace e = false :=
        (h.single ' ' e ⟨[c], rest, rfl⟩).resolve_left (by simp)
      have htail : IsCollapsed (e :: rest) :=
        h.of_stretch ⟨[c, ' '], [], by simp⟩ (by simpa using he) h.last
      rw [collapse_cons_blank rest hc he, collapse_of_isCollapsed htail]

end CodeProse.Text
