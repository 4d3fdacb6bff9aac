/-
# Spacing of corrected texts

Reconciling the issues of a well spaced text gives a well spaced text, if every replacement fits in
anywhere (`Text.WellSpaced`, `Text.FitsIn`, `Correction.wellSpaced_corrected`).

The argument is about neighbours. White space stands next to neither white space nor punctuation on
its right (`Text.Parts`), in the text as given and in each replacement. A draft keeps this through
every edit (`Draft.Tidy`): a replacement brings no white space to its ends, and a deletion meets a
blank on its left only with something visible on its right that is no punctuation, for else closing
the gap takes a blank away. White space at the ends of a draft may stay until the end; collapsing
removes it, and in a text of parted neighbours it puts no blank in front of punctuation.
-/
import Mathlib.Data.List.Chain
import Mathlib.Data.List.Permutation
import CodeProse.Proofs.Widening

namespace CodeProse

open Unicode (isWhitespace)
open Draft (hugsLeft)

namespace Text

/-! ## Spacing -/

/-- Punctuation of the text stands directly behind no character that is `space`. -/
def Hugs (space : Char → Bool) (t : Text) : Prop :=
  t.IsChain fun a b => space a = true → hugsLeft b = false

instance (space : Char → Bool) (t : Text) : Decidable (t.Hugs space) :=
  inferInstanceAs (Decidable (List.IsChain _ t))

/-- A text whose white space is single blanks between visible characters, none of them directly
before punctuation. -/
structure WellSpaced (t : Text) : Prop where
  collapsed : IsCollapsed t
  hugs : t.Hugs (· == ' ')

/-- A text that can go in anywhere: white space of it stands singly and at neither end, it does not
begin with punctuation, and no punctuation of it comes after a `space`. -/
structure FitsIn (space : Char → Bool) (r : Text) : Prop where
  head : ∀ c ∈ r.head?, isWhitespace c = false ∧ hugsLeft c = false
  last : ∀ c ∈ r.getLast?, isWhitespace c = false
  single : r.IsChain fun a b => isWhitespace a = true → isWhitespace b = false
  hugs : r.Hugs space

/-- White space has something visible on its right that is no punctuation. -/
def Parts (a b : Char) : Prop :=
  isWhitespace a = true → isWhitespace b = false ∧ hugsLeft b = false

/-- What holds between all neighbours of a text holds between any two. -/
theorem rel_of_pair {R : Char → Char → Prop} {t : Text} {a b : Char} (h : t.IsChain R)
    (hab : [a, b] <:+: t) : R a b := by
  have hpair := List.IsChain.infix h hab
  exact List.isChain_pair.1 hpair

theorem WellSpaced.parts {t : Text} (h : t.WellSpaced) : t.IsChain Parts := by
  refine (List.isChain_isInfix t).imp fun a b hab ha => ?_
  have hblank : a = ' ' := h.collapsed.blank a (hab.subset (by simp)) ha
  have hvisible : isWhitespace b = false := by simpa [ha] using h.collapsed.single a b hab
  exact ⟨hvisible, rel_of_pair h.hugs hab (by simp [hblank])⟩

theorem FitsIn.parts {r : Text} (h : r.FitsIn isWhitespace) : r.IsChain Parts :=
  (List.isChain_isInfix r).imp fun _ _ hab ha =>
    ⟨rel_of_pair h.single hab ha, rel_of_pair h.hugs hab ha⟩

/-! ## Collapsing a text of parted neighbours -/

/-- The words of a text of parted neighbours do not begin with punctuation, but for one that the
text itself begins with. -/
theorem head_words {t : Text} (h : t.IsChain Parts) :
    (∀ w ∈ (words t).tail, w.head?.any hugsLeft = false) ∧
      (startsBlank t = true → ∀ w ∈ words t, w.head?.any hugsLeft = false) := by
  induction t with
  | nil => simp [words]
  | cons c t ih =>
    obtain ⟨hnext, ht⟩ := List.isChain_cons.1 h
    obtain ⟨htail, hall⟩ := ih ht
    cases hc : isWhitespace c with
    | true =>
      -- what follows white space begins with a word, and with no punctuation
      have hwords : ∀ w ∈ words t, w.head?.any hugsLeft = false := by
        cases t with
        | nil => simp [words]
        | cons d t =>
          obtain ⟨hd, hplain⟩ := hnext d rfl hc
          intro w hw
          rcases words_cons_of_not_isWhitespace t hd with ⟨h', -⟩ | ⟨v, ws, -, h'⟩
          all_goals
            rw [h'] at hw htail
            rcases List.mem_cons.1 hw with rfl | hw
            · simpa using hplain
            · exact htail w hw
      rw [words_cons_of_isWhitespace t hc]
      exact ⟨htail, fun _ => hwords⟩
    | false =>
      refine ⟨?_, fun hstart => by simp [startsBlank, hc] at hstart⟩
      rcases words_cons_of_not_isWhitespace t hc with ⟨h', hblank⟩ | ⟨v, ws, hw, h'⟩
      · rw [h']
        exact hall hblank
      · rw [hw] at htail
        rw [h']
        exact htail

/-- Joining words with blanks puts a blank in front of each but the first one. -/
theorem hugs_join {ws : List Text} (hws : ∀ w ∈ ws, w ≠ [] ∧ ∀ c ∈ w, isWhitespace c = false)
    (htail : ∀ w ∈ ws.tail, w.head?.any hugsLeft = false) : (join [' '] ws).Hugs (· == ' ') := by
  have hword : ∀ w ∈ ws, w.Hugs (· == ' ') := fun w hw =>
    (List.isChain_isInfix w).imp fun a b hab ha => by
      have hvisible := (hws w hw).2 a (hab.subset (by simp))
      obtain rfl : a = ' ' := by simpa using ha
      simp at hvisible
  induction ws with
  | nil => exact .nil
  | cons w ws ih =>
    cases ws with
    | nil => exact hword w List.mem_cons_self
    | cons v ws =>
      have hrest : (join [' '] (v :: ws)).Hugs (· == ' ') :=
        ih (fun x hx => hws x (List.mem_cons_of_mem w hx))
          (fun x hx => htail x (List.mem_of_mem_tail hx))
          (fun x hx => hword x (List.mem_cons_of_mem w hx))
      have hjoin : join [' '] (w :: v :: ws) = w ++ ' ' :: join [' '] (v :: ws) := by simp [join]
      rw [hjoin]
      refine List.IsChain.append (hword w List.mem_cons_self) (.cons hrest ?_) ?_
      · intro y hy _
        obtain ⟨d, v, rfl⟩ := List.exists_cons_of_ne_nil (hws v (by simp)).1
        have hhead : (join [' '] ((d :: v) :: ws)).head? = some d := by cases ws <;> rfl
        obtain rfl : d = y := Option.some.inj (hhead ▸ hy)
        simpa using htail (d :: v) (by simp)
      · intro x hx y _ hblank
        have hvisible := (hws w List.mem_cons_self).2 x (List.mem_of_getLast? hx)
        obtain rfl : x = ' ' := by simpa using hblank
        simp at hvisible

/-- A text of parted neighbours is well spaced once it is collapsed. -/
theorem wellSpaced_collapse {t : Text} (h : t.IsChain Parts) : (collapse t).WellSpaced :=
  ⟨isCollapsed_collapse t, hugs_join (fun _ hw => mem_words hw) (head_words h).1⟩

end Text

open Text (Parts WellSpaced FitsIn)

namespace Draft

/-! ## Drafts -/

/-- Neighbours of the draft are parted, and white space that a deletion may still meet is blanks. -/
structure Tidy (d : Draft) : Prop where
  parts : d.text.IsChain Parts
  before : ∀ c ∈ d.before, isWhitespace c = true → c = ' '
  after : ∀ c ∈ d.after.head?, isWhitespace c = true → c = ' '

theorem tidy_ofText {t : Text} (h : t.WellSpaced) : (ofText t).Tidy where
  parts := by simpa using h.parts
  before := h.collapsed.blank
  after := by simp

section Edit

variable {d : Draft} {left gone right : Text}

/-- What is left of a tidy draft around a range. -/
theorem Tidy.around (h : d.Tidy) (hb : d.before = left ++ gone ++ right) :
    left.IsChain Parts ∧ (right ++ d.after).IsChain Parts ∧
      (∀ c ∈ left, isWhitespace c = true → c = ' ') ∧
      ∀ c ∈ (right ++ d.after).head?, isWhitespace c = true → c = ' ' := by
  have htext : (left ++ (gone ++ (right ++ d.after))).IsChain Parts := by
    rw [← List.append_assoc, ← text_of_split hb]
    exact h.parts
  refine ⟨htext.left_of_append, htext.right_of_append.right_of_append,
    fun c hc => h.before c (by simp [hb, hc]), ?_⟩
  cases right with
  | nil => exact h.after
  | cons e right =>
    intro c hc
    obtain rfl : e = c := Option.some.inj hc
    exact h.before e (by simp [hb])

/-- A replacement keeps a draft tidy. -/
theorem Tidy.replace {new : Text} (h : d.Tidy) (hb : d.before = left ++ gone ++ right)
    (hne : new ≠ []) (hnew : new.FitsIn isWhitespace) : Tidy ⟨left, new ++ right ++ d.after⟩ := by
  obtain ⟨hleft, hright, hblank, -⟩ := h.around hb
  obtain ⟨c, new, rfl⟩ := List.exists_cons_of_ne_nil hne
  have hc := hnew.head c rfl
  refine ⟨?_, hblank, ?_⟩
  · have hback : (c :: new ++ (right ++ d.after)).IsChain Parts := by
      refine hnew.parts.append hright fun x hx y _ hspace => ?_
      rw [hnew.last x hx] at hspace
      cases hspace
    rw [text, List.append_assoc]
    refine hleft.append hback fun x _ y hy _ => ?_
    obtain rfl : c = y := Option.some.inj hy
    exact hc
  · intro e he hspace
    obtain rfl : c = e := Option.some.inj he
    rw [hc.1] at hspace
    cases hspace

/-- Where closing a gap takes nothing and a blank stands on the left, neither a blank nor punctuation
stands on the right. -/
theorem closeGap_eq_self (h : closeGap left right = (left, right))
    (hleft : left.getLast? = some ' ') :
    right.head? ≠ some ' ' ∧ right.head?.any hugsLeft = false := by
  unfold closeGap at h
  split at h
  case isTrue hblank =>
    have hdrop : right.drop 1 = right := (Prod.mk.inj h).2
    cases right with
    | nil => simp at hblank
    | cons c right => exact absurd hdrop (by simp)
  case isFalse hblank =>
    split at h
    case isTrue =>
      have hdrop : left.dropLast = left := (Prod.mk.inj h).1
      obtain ⟨left, rfl⟩ := List.getLast?_eq_some_iff.1 hleft
      exact absurd hdrop (by simp)
    case isFalse hpunct => simpa [hleft] using And.intro hblank hpunct

/-- A deletion keeps a draft tidy. -/
theorem Tidy.delete (h : d.Tidy) (hb : d.before = left ++ gone ++ right) :
    Tidy ⟨(closeGap left (right ++ d.after)).1, (closeGap left (right ++ d.after)).2⟩ := by
  obtain ⟨hleft, hright, hblank, hhead⟩ := h.around hb
  generalize right ++ d.after = right at hright hhead ⊢
  rcases closeGap_cases left right with hq | ⟨right', rfl, hq, -⟩ | ⟨left', rfl, -, hq⟩
  · -- nothing goes: white space on the left is a blank, so that the right is visible
    simp only [hq]
    refine ⟨hleft.append hright fun x hx y hy hspace => ?_, hblank, hhead⟩
    obtain rfl : x = ' ' := hblank x (List.mem_of_getLast? hx) hspace
    obtain ⟨hnot, hplain⟩ := closeGap_eq_self hq hx
    rw [Option.mem_def.1 hy] at hnot hplain
    refine ⟨?_, by simpa using hplain⟩
    cases hy' : isWhitespace y with
    | false => rfl
    | true => exact absurd (by rw [hhead y hy hy']) hnot
  · -- the blank on the right goes, and what follows it is visible and no punctuation
    simp only [hq]
    obtain ⟨hnext, hright'⟩ := List.isChain_cons.1 hright
    refine ⟨hleft.append hright' fun x _ y hy _ => hnext y hy Text.isWhitespace_blank, hblank, ?_⟩
    intro c hc hspace
    rw [(hnext c hc Text.isWhitespace_blank).1] at hspace
    cases hspace
  · -- the blank on the left goes, and what precedes it is visible
    simp only [hq]
    refine ⟨hleft.left_of_append.append hright fun x hx y _ hspace => ?_,
      fun c hc => hblank c (List.mem_append_left _ hc), hhead⟩
    have hpart : Parts x ' ' :=
      (List.isChain_append.1 hleft).2.2 x hx ' ' rfl
    exact absurd (hpart hspace).1 (by simp)

end Edit

end Draft

namespace Correction

/-! ## Edits -/

variable {d : Draft} {e : Edit}

/-- An edit keeps a draft tidy. -/
theorem tidy_make? {d' : Draft} (hd : d.Tidy) (htext : e.text = [] ∨ e.text.FitsIn isWhitespace)
    (h : make? d e = some d') : d'.Tidy := by
  obtain ⟨left, gone, right, hb, -, -, -, ⟨-, rfl⟩ | ⟨hne, rfl⟩⟩ := make?_cases h
  · exact hd.delete hb
  · exact hd.replace hb hne (htext.resolve_left hne)

/-- A run of edits keeps a draft tidy. -/
theorem tidy_applyAll {edits : List Edit} (hd : d.Tidy)
    (htext : ∀ e ∈ edits, e.text = [] ∨ e.text.FitsIn isWhitespace) :
    (applyAll d edits).1.Tidy := by
  induction edits generalizing d with
  | nil => exact hd
  | cons e rest ih =>
    have hrest := fun x hx => htext x (List.mem_cons_of_mem e hx)
    cases h : make? d e with
    | none =>
      rw [applyAll_cons_of_none _ h]
      exact ih hd hrest
    | some d' =>
      rw [applyAll_cons_of_some _ h]
      exact ih (tidy_make? hd (htext e List.mem_cons_self) h) hrest

/-- **Reconciliation keeps a text well spaced**, if each replacement is empty or fits in anywhere. -/
theorem wellSpaced_corrected {given c : Text} {issues : List Issue} (hgiven : given.WellSpaced)
    (hissues : ∀ i ∈ issues, ∀ r, i.replacement = some r → r = [] ∨ r.FitsIn isWhitespace)
    (hc : (reconcile given issues).corrected = some c) : c.WellSpaced := by
  have htext : ∀ e ∈ orderedEdits issues, e.text = [] ∨ e.text.FitsIn isWhitespace := by
    intro e he
    obtain ⟨k, i, hi, hr, -⟩ := (mem_editsFrom_iff _ _ _).1 ((mem_orderedEdits_iff _ _).1 he)
    exact hissues i (List.mem_of_getElem? hi) e.text hr
  rw [corrected_eq_collapse hc]
  exact Text.wellSpaced_collapse (tidy_applyAll (Draft.tidy_ofText hgiven) htext).parts

/-- Deletions of the filler words in front of "log in" and behind it, and a text in its place. -/
def fillersAround (text : Text) : List Issue :=
  [weakWordAt 0 4, weakWordAt 5 11, (weakWordAt 12 18).replaceWith text, weakWordAt 19 25,
    weakWordAt 26 31]

/-- A text at the start and one before a full stop lose all their filler words, and the blanks around
them. -/
theorem wellSpaced_corrected_fillers :
    WellSpaced "Just simply log in really truly.".toList ∧
      (∀ i ∈ fillersAround "sign\tin, now".toList, ∀ r, i.replacement = some r →
        r = [] ∨ r.FitsIn isWhitespace) ∧
      (reconcile "Just simply log in really truly.".toList
        (fillersAround "sign\tin, now".toList)).corrected = some "sign in, now.".toList ∧
      WellSpaced "sign in, now.".toList := by
  have hgiven : WellSpaced "Just simply log in really truly.".toList := by
    refine ⟨?_, by decide +kernel⟩
    have hsame : Text.collapse "Just simply log in really truly.".toList
        = "Just simply log in really truly.".toList := by decide +kernel
    exact hsame ▸ Text.isCollapsed_collapse _
  have hfits : FitsIn isWhitespace "sign\tin, now".toList := by
    refine ⟨fun c hc => ?_, fun c hc => ?_, by decide +kernel, by decide +kernel⟩
    · obtain rfl : 's' = c := Option.some.inj hc
      decide
    · obtain rfl : 'w' = c := Option.some.inj hc
      decide
  have hissues : ∀ i ∈ fillersAround "sign\tin, now".toList, ∀ r, i.replacement = some r →
      r = [] ∨ r.FitsIn isWhitespace := by
    intro i hi r hr
    simp only [fillersAround, List.mem_cons, List.not_mem_nil, or_false] at hi
    rcases hi with rfl | rfl | rfl | rfl | rfl
    case inr.inr.inl => exact .inr (Option.some.inj hr ▸ hfits)
    all_goals exact .inl (Option.some.inj hr).symm
  have hordered : orderedEdits (fillersAround "sign\tin, now".toList)
      = [⟨4, 26, 31, []⟩, ⟨3, 19, 25, []⟩, ⟨2, 12, 18, "sign\tin, now".toList⟩, ⟨1, 5, 11, []⟩,
        ⟨0, 0, 4, []⟩] := by cbv
  have hcorrected : (reconcile "Just simply log in really truly.".toList
      (fillersAround "sign\tin, now".toList)).corrected = some "sign in, now.".toList := by
    rw [reconcile_corrected, madeFor, hordered]
    decide +kernel
  exact ⟨hgiven, hissues, hcorrected, wellSpaced_corrected hgiven hissues hcorrected⟩

/-- It is not enough that no blank stands before punctuation in a replacement.  A line break there
becomes a blank. -/
theorem not_wellSpaced_corrected_line_break :
    WellSpaced "one two".toList ∧ FitsIn (· == ' ') "two\n, three".toList ∧
      (reconcile "one two".toList [(weakWordAt 4 7).replaceWith "two\n, three".toList]).corrected
        = some "one two , three".toList ∧
      ¬ WellSpaced "one two , three".toList := by
  have hsame : Text.collapse "one two".toList = "one two".toList := by decide +kernel
  have hcollapsed : Text.IsCollapsed "one two".toList := hsame ▸ Text.isCollapsed_collapse _
  refine ⟨⟨hcollapsed, by decide +kernel⟩,
    ⟨fun c hc => ?_, fun c hc => ?_, by decide +kernel, by decide +kernel⟩, ?_, ?_⟩
  · obtain rfl : 't' = c := Option.some.inj hc
    decide
  · obtain rfl : 'e' = c := Option.some.inj hc
    decide
  · have hordered : orderedEdits [(weakWordAt 4 7).replaceWith "two\n, three".toList]
        = [⟨0, 4, 7, "two\n, three".toList⟩] := by cbv
    rw [reconcile_corrected, madeFor, hordered]
    decide +kernel
  · intro h
    exact absurd h.hugs (by decide +kernel)

end Correction

end CodeProse
