/-
# Phrases in a text with phrases exchanged

The style rules exchange phrases for others. When all that they exchange in a text is exchanged at
once, new neighbours meet, and a phrase that the rules report might come up that was not there
before. The catalogs are such that only three can (`formable`): the words of every other phrase stay
apart, as no replacement ends or begins with them (`isSafe_of_mem`).

Texts are cut into atoms for this, of which a phrase is one or three. What is around an exchanged
phrase has no word at its borders, so that a phrase across one of them would have a word of the
replacement at its end; no replacement has such a word there, or a whole phrase in it
(`window_cases`). By induction over a row of exchanges, a phrase that is flagged in the new text
stands in the old one, clear of all exchanges (`standsClear_of_flaggedIn`). Collapsing the new text
brings up no phrase either (`FlaggedIn.of_beads_eq`).
-/
import CodeProse.Proofs.Style.Terminology
import CodeProse.Proofs.Substitution
import CodeProse.Proofs.Text.Atom
import Mathlib.Data.List.Infix

namespace CodeProse.Style

open Text (atoms beads joins isPlainAtom flatten_atoms atoms_append atoms_eq_append atoms_eq_iff
  exists_of_beads_eq prefix_of_spaced_eq)
open Unicode

/-! ## Phrases as atoms -/

/-- Whether a text begins and ends with a character of a word. -/
def isSolid (t : Text) : Bool :=
  t.head?.any isAsciiWordChar && t.getLast?.any isAsciiWordChar

theorem ne_nil_of_any_head? {t : Text} {p : Char → Bool} (h : t.head?.any p = true) : t ≠ [] := by
  rintro rfl
  cases h

theorem ne_nil_of_any_getLast? {t : Text} {p : Char → Bool} (h : t.getLast?.any p = true) :
    t ≠ [] := by
  rintro rfl
  cases h

/-- Case does not matter to the ends of a text. -/
theorem any_isAsciiWordChar_of_same {a b : Text} (h : a.map Char.toLower = b.map Char.toLower) :
    a.head?.any isAsciiWordChar = b.head?.any isAsciiWordChar ∧
      a.getLast?.any isAsciiWordChar = b.getLast?.any isAsciiWordChar := by
  have hend : ∀ o : Option Char, (o.map Char.toLower).any isAsciiWordChar
      = o.any isAsciiWordChar := by
    intro o
    cases o <;> simp
  constructor
  · rw [← hend a.head?, ← hend b.head?, ← List.head?_map, ← List.head?_map, h]
  · rw [← hend a.getLast?, ← hend b.getLast?, ← List.getLast?_map, ← List.getLast?_map, h]

variable {phrase left matched right : Text}

/-- What is written for a phrase has as many bytes. -/
theorem OccursBetween.byteLength_eq (h : OccursBetween phrase left matched right) :
    matched.byteLength = phrase.byteLength := by
  rw [← Text.byteLength_map_toLower, (eqIgnoreAsciiCase_iff _ _).1 h.same,
    Text.byteLength_map_toLower]

/-- A phrase that begins and ends with words has none of their characters around it. -/
theorem OccursBetween.ends (h : OccursBetween phrase left matched right)
    (hsolid : isSolid phrase = true) :
    matched.head?.any isAsciiWordChar = true ∧ matched.getLast?.any isAsciiWordChar = true ∧
      left.getLast?.any isAsciiWordChar = false ∧ right.head?.any isAsciiWordChar = false := by
  obtain ⟨hhead, hlast⟩ := any_isAsciiWordChar_of_same ((eqIgnoreAsciiCase_iff _ _).1 h.same)
  rw [isSolid, Bool.and_eq_true] at hsolid
  rw [hsolid.1] at hhead
  rw [hsolid.2] at hlast
  have hne := ne_nil_of_any_head? hhead
  have hfront := h.front
  have hback := h.back
  obtain ⟨c, rest, rfl⟩ := List.exists_cons_of_ne_nil hne
  rw [isEdge, List.cons_append, List.head?_cons] at hfront
  rw [isEdge, List.getLast?_append_of_ne_nil _ hne] at hback
  rw [List.head?_cons] at hhead
  rw [hhead] at hfront
  rw [hlast] at hback
  refine ⟨hhead, hlast, ?_, ?_⟩
  · simpa using hfront
  · simpa using hback

/-- The atoms around a phrase, and its own. -/
theorem OccursBetween.atoms_eq (h : OccursBetween phrase left matched right)
    (hsolid : isSolid phrase = true) :
    atoms (left ++ matched ++ right) = atoms left ++ (atoms phrase ++ atoms right) := by
  obtain ⟨-, -, hleft, hright⟩ := h.ends hsolid
  have hsame : atoms matched = atoms phrase := (atoms_eq_iff _ _).2
    ((eqIgnoreAsciiCase_iff _ _).1 h.same)
  rw [List.append_assoc, atoms_append (by simp [joins, hleft]),
    atoms_append (by simp [joins, hright]), hsame]

/-- Where the atoms of a phrase stand, the phrase does. -/
theorem exists_occursBetween {t : Text} {front back : List Text} (hsolid : isSolid phrase = true)
    (h : atoms t = front ++ (atoms phrase ++ back)) :
    ∃ left matched right, t = left ++ matched ++ right ∧ atoms left = front ∧
      atoms right = back ∧ OccursBetween phrase left matched right := by
  obtain ⟨left, rest, rfl, hfront, hleft, hrest⟩ := atoms_eq_append h
  obtain ⟨matched, right, rfl, hback, hmatched, hright⟩ := atoms_eq_append hrest
  have hsame := (atoms_eq_iff _ _).1 hmatched
  obtain ⟨hhead, hlast⟩ := any_isAsciiWordChar_of_same hsame
  rw [isSolid, Bool.and_eq_true] at hsolid
  rw [hsolid.1] at hhead
  rw [hsolid.2] at hlast
  have hne := ne_nil_of_any_head? hhead
  have hedge : (matched ++ right).head?.any isAsciiWordChar = true := by
    obtain ⟨c, rest, rfl⟩ := List.exists_cons_of_ne_nil hne
    exact hhead
  refine ⟨left, matched, right, (List.append_assoc ..).symm, hleft, hright,
    (eqIgnoreAsciiCase_iff _ _).2 hsame, ?_, ?_⟩
  · rw [joins, hedge, Bool.and_true] at hfront
    rw [isEdge, hfront, hedge]
    rfl
  · rw [joins, hlast, Bool.true_and] at hback
    rw [isEdge, List.getLast?_append_of_ne_nil _ hne, hlast, hback]
    rfl

/-! ## Flagged phrases -/

/-- The entries of the catalogs that put one phrase in the place of another. -/
def substitutionEntries : List Substitution :=
  terminology ++ contractions ++ genderNeutral

/-- With what follows it, a phrase makes up the preferred one. -/
def Completes (e : Substitution) (back : List Text) : Prop :=
  e.preferred <+: e.phrase ++ back.flatten

/-- Somewhere among atoms a phrase stands that what follows does not complete. -/
def FlaggedIn (e : Substitution) (row : List Text) : Prop :=
  ∃ front back, row = front ++ (atoms e.phrase ++ back) ∧ ¬ Completes e back

/-- Phrases begin and end with words, and are in lower case with what is preferred to them. -/
theorem substitutionEntries_lower : ∀ e ∈ substitutionEntries, isSolid e.phrase = true ∧
    e.phrase.map Char.toLower = e.phrase ∧ e.preferred.map Char.toLower = e.preferred := by
  decide +kernel

/-- A text says the preferred phrase where it completes the other one. -/
theorem saysAt_iff_completes {e : Substitution} (he : e ∈ substitutionEntries)
    (h : OccursBetween e.phrase left matched right) :
    SaysAt e.preferred (left ++ matched ++ right) left.byteLength ↔ Completes e (atoms right) := by
  obtain ⟨-, hphrase, hpreferred⟩ := substitutionEntries_lower e he
  have hsame := (eqIgnoreAsciiCase_iff _ _).1 h.same
  have hrest : e.phrase ++ (atoms right).flatten = (matched ++ right).map Char.toLower := by
    rw [flatten_atoms, List.map_append, hsame, hphrase]
  rw [Completes, hrest]
  constructor
  · rintro ⟨left', said, right', ht, hlength, hsaid⟩
    rw [List.append_assoc, List.append_assoc] at ht
    obtain ⟨-, hsplit⟩ := Text.append_inj ht hlength.symm
    have hsaid := (eqIgnoreAsciiCase_iff _ _).1 hsaid
    rw [hpreferred] at hsaid
    rw [hsplit, List.map_append, hsaid]
    exact List.prefix_append _ _
  · rintro ⟨more, hmore⟩
    obtain ⟨said, right', hsplit, hsaid, -⟩ := List.map_eq_append_iff.1 hmore.symm
    refine ⟨left, said, right', ?_, rfl, ?_⟩
    · rw [List.append_assoc, List.append_assoc, hsplit]
    · rw [eqIgnoreAsciiCase_iff, hsaid, hpreferred]

/-- **The rules flag a phrase where it occurs and the preferred one is not said.** -/
theorem flaggedIn_atoms_iff {e : Substitution} (he : e ∈ substitutionEntries) (t : Text) :
    FlaggedIn e (atoms t) ↔ ∃ start matched, OccursAt e.phrase t start matched ∧
      ¬ SaysAt e.preferred t start := by
  have hsolid := (substitutionEntries_lower e he).1
  constructor
  · rintro ⟨front, back, hrow, hcompletes⟩
    obtain ⟨left, matched, right, rfl, -, rfl, hoccurs⟩ := exists_occursBetween hsolid hrow
    refine ⟨left.byteLength, matched, ⟨left, right, rfl, rfl, hoccurs⟩, ?_⟩
    rwa [saysAt_iff_completes he hoccurs]
  · rintro ⟨start, matched, ⟨left, right, rfl, rfl, hoccurs⟩, hsaid⟩
    refine ⟨atoms left, atoms right, hoccurs.atoms_eq hsolid, ?_⟩
    rwa [← saysAt_iff_completes he hoccurs]

/-! ## What is exchanged -/

/-- All phrases that the rules exchange, each with what comes in its place. -/
def exchanges : List (Text × Text) :=
  (weakWords ++ prohibited).filterMap (fun e => e.replacement.map (e.phrase, ·))
    ++ substitutionEntries.map fun e => (e.phrase, e.preferred)

/-- The phrases that may come up where others were exchanged. -/
def formable : List Text :=
  ["web page".toList, "they're".toList, "they’re".toList]

/-- Whether a phrase is one that cannot come up. -/
def Substitution.isStable (e : Substitution) : Bool :=
  !e.isShortening && !formable.contains e.phrase

/-- Whether an atom is a word. -/
def isWordAtom (a : Text) : Bool :=
  a.head?.any isAsciiWordChar

/-- Whether a phrase can come up neither inside a replacement nor at one of its ends. It is one word,
or two with a character between them, the first of which does not end the replacement while the
second does not begin it; and in the replacement it stands only where it is completed. -/
def isSafe (e : Substitution) (replacement : List Text) : Bool :=
  (match atoms e.phrase with
  | [a] => isWordAtom a
  | [a, b, c] => isWordAtom a && !isWordAtom b && isWordAtom c && replacement.getLast? != some a
      && replacement.head? != some c
  | _ => false)
    && replacement.tails.all fun row =>
      !(atoms e.phrase).isPrefixOf row || e.preferred.isPrefixOf row.flatten

/-- **No phrase but the three formable ones can come up at a replacement.** -/
theorem isSafe_of_mem : ∀ e ∈ substitutionEntries, e.isStable = true → ∀ p ∈ exchanges,
    isSafe e (atoms p.2) = true := by
  -- the kernel would take the characters off each written word again for every pair
  simp only [exchanges, substitutionEntries, terminology, contractions, straightContractions,
    genderNeutral, weakWords, prohibited, substitutions, List.map_cons, List.map_nil,
    String.reduceToList]
  decide +kernel

/-- What is exchanged is in lower case and begins and ends with words, and a capital changes nothing
but the case of what comes in its place. -/
theorem isSolid_of_mem_exchanges : ∀ p ∈ exchanges, isSolid p.1 = true ∧
    p.1.map Char.toLower = p.1 ∧
      p.2.head?.all (fun c => (upperChar c).map Char.toLower == [c.toLower]) = true := by
  decide +kernel

/-- Only the word "address" completes a phrase, and nothing that is exchanged begins this word or
begins with it. -/
theorem completing : (∀ e ∈ substitutionEntries, e.isShortening = false →
      (e.preferred = e.phrase ++ " address".toList ∨
        ¬ e.preferred <+: e.phrase ∧ ¬ e.phrase <+: e.preferred)) ∧
    ∀ p ∈ exchanges, ¬ p.1 <+: "address".toList ∧ ¬ "address".toList <+: p.1 := by
  decide +kernel

/-! ## Where a phrase can stand -/

/-- A part of two lists in a row is in the first one, in the second one, or across the border. -/
theorem append_cases {α : Type} {p q front part back : List α}
    (h : p ++ q = front ++ (part ++ back)) :
    (∃ d, p = front ++ (part ++ d) ∧ back = d ++ q) ∨ (∃ a, q = a ++ (part ++ back)) ∨
      ∃ c d, c ≠ [] ∧ d ≠ [] ∧ part = c ++ d ∧ p = front ++ c ∧ q = d ++ back := by
  rcases List.append_eq_append_iff.1 h with ⟨a, -, hq⟩ | ⟨c, rfl, hpart⟩
  · exact .inr (.inl ⟨a, hq⟩)
  · rcases List.append_eq_append_iff.1 hpart with ⟨d, rfl, rfl⟩ | ⟨d, rfl, rfl⟩
    · exact .inl ⟨d, rfl, rfl⟩
    · by_cases hc : c = []
      · subst hc
        exact .inr (.inl ⟨[], rfl⟩)
      · by_cases hd : d = []
        · subst hd
          exact .inl ⟨[], by simp, rfl⟩
        · exact .inr (.inr ⟨c, d, hc, hd, rfl, rfl, rfl⟩)

/-- What a phrase has where it reaches across a border: behind the border its other word and before
it a character that is in no word, or before the border its first word. -/
theorem border_of_isSafe {e : Substitution} {replacement c d : List Text}
    (h : isSafe e replacement = true) (hc : c ≠ []) (hd : d ≠ [])
    (hphrase : atoms e.phrase = c ++ d) :
    (∃ a, c.getLast? = some a ∧ isWordAtom a = true ∧ replacement.getLast? ≠ some a) ∨
      ∃ b z, c.getLast? = some b ∧ d.head? = some z ∧ isWordAtom b = false ∧
        isWordAtom z = true ∧ replacement.head? ≠ some z := by
  rw [isSafe, Bool.and_eq_true] at h
  have hshape := h.1
  split at hshape
  case h_1 a ha =>
    rw [ha] at hphrase
    have hlength := congrArg List.length hphrase
    have := List.length_pos_of_ne_nil hc
    have := List.length_pos_of_ne_nil hd
    simp only [List.length_append, List.length_singleton] at hlength
    omega
  case h_2 a b z habz =>
    simp only [Bool.and_eq_true, Bool.not_eq_true', bne_iff_ne] at hshape
    obtain ⟨⟨⟨⟨ha, hb⟩, hz⟩, hlast⟩, hhead⟩ := hshape
    rw [habz] at hphrase
    match c, hc with
    | [a'], _ =>
      obtain ⟨rfl, -⟩ := List.cons.inj hphrase
      exact .inl ⟨a, rfl, ha, hlast⟩
    | [a', b'], _ =>
      obtain ⟨-, hrest⟩ := List.cons.inj hphrase
      obtain ⟨rfl, rfl⟩ := List.cons.inj hrest
      exact .inr ⟨b, z, rfl, rfl, hb, hz, hhead⟩
    | a' :: b' :: z' :: c, _ =>
      have hlength := congrArg List.length hphrase
      have := List.length_pos_of_ne_nil hd
      simp only [List.length_append, List.length_cons, List.length_nil] at hlength
      omega
  case h_3 => cases hshape

/-- A phrase within a safe replacement is completed there. -/
theorem completes_of_isSafe {e : Substitution} (he : e ∈ substitutionEntries)
    {replacement a d : List Text} (h : isSafe e replacement = true)
    (hr : replacement = a ++ (atoms e.phrase ++ d)) (more : List Text) :
    Completes e (d ++ more) := by
  rw [isSafe, Bool.and_eq_true, List.all_eq_true] at h
  have hrow := h.2 (atoms e.phrase ++ d) ((List.mem_tails _ _).2 ⟨a, hr.symm⟩)
  have hbegins : (atoms e.phrase).isPrefixOf (atoms e.phrase ++ d) = true := by
    rw [List.isPrefixOf_iff_prefix]
    exact List.prefix_append _ _
  rw [hbegins, Bool.not_true, Bool.false_or, List.isPrefixOf_iff_prefix, List.flatten_append,
    flatten_atoms, (substitutionEntries_lower e he).2.1] at hrow
  rw [Completes, List.flatten_append, ← List.append_assoc]
  exact hrow.trans (List.prefix_append _ _)

/-- **A phrase around a replacement.**  Where what is around a safe replacement does not begin or
end with a word at it, a phrase stands before the replacement, or behind it, or it is completed. -/
theorem window_cases {e : Substitution} (he : e ∈ substitutionEntries)
    {before replacement after front back : List Text} (hsafe : isSafe e replacement = true)
    (hbefore : before.getLast?.any isWordAtom = false) (hafter : after.head?.any isWordAtom = false)
    (h : before ++ (replacement ++ after) = front ++ (atoms e.phrase ++ back)) :
    (∃ d, before = front ++ (atoms e.phrase ++ d) ∧ back = d ++ (replacement ++ after)) ∨
      (∃ front', after = front' ++ (atoms e.phrase ++ back)) ∨ Completes e back := by
  -- the phrase reaches across no border of the replacement, as that would take one of its words
  have hword : ∀ {o : Option Text} {a : Text}, o.any isWordAtom = false → o = some a →
      isWordAtom a = true → False := by
    rintro o a ho rfl ha
    rw [Option.any_some, ha] at ho
    cases ho
  rcases append_cases h with hin | ⟨a, hlater⟩ | ⟨c, d, hc, hd, hphrase, rfl, hq⟩
  · exact .inl hin
  · rcases append_cases hlater with ⟨d, hr, rfl⟩ | ⟨a', hin⟩ | ⟨c, d, hc, hd, hphrase, hr, rfl⟩
    · exact .inr (.inr (completes_of_isSafe he hsafe hr after))
    · exact .inr (.inl ⟨a', hin⟩)
    · exfalso
      rcases border_of_isSafe hsafe hc hd hphrase with
        ⟨x, hx, -, hlast⟩ | ⟨b, z, -, hz, -, hzword, -⟩
      · rw [hr, List.getLast?_append_of_ne_nil _ hc] at hlast
        exact hlast hx
      · rw [List.head?_append_of_ne_nil _ hd] at hafter
        exact hword hafter hz hzword
  · exfalso
    rw [List.getLast?_append_of_ne_nil _ hc] at hbefore
    rcases border_of_isSafe hsafe hc hd hphrase with
      ⟨x, hx, hxword, -⟩ | ⟨b, z, -, hz, -, hzword, hhead⟩
    · exact hword hbefore hx hxword
    · have hfirst : (replacement ++ after).head? = some z := by
        rw [hq, List.head?_append_of_ne_nil _ hd, hz]
      cases replacement with
      | nil => exact hword hafter hfirst hzword
      | cons r replacement => exact hhead hfirst


/-! ## One exchange -/

/-- A fix that exchanges a phrase where it occurs in a text. -/
def IsExchange (given : Text) (f : Fix) : Prop :=
  ∃ p ∈ exchanges, ∃ matched, OccursAt p.1 given f.start matched ∧
    f.stop = f.start + matched.byteLength ∧ f.text = matchCase matched p.2

theorem any_head?_atoms (t : Text) :
    (atoms t).head?.any isWordAtom = t.head?.any isAsciiWordChar := by
  cases hrow : atoms t with
  | nil => rw [(Text.atoms_eq_nil_iff t).1 hrow]; rfl
  | cons a rest =>
    rw [List.head?_cons, Option.any_some, isWordAtom, Text.head?_of_atoms_eq_cons hrow]
    cases t <;> simp

theorem any_getLast?_atoms {t : Text} (h : t.getLast?.any isAsciiWordChar = false) :
    (atoms t).getLast?.any isWordAtom = false := by
  rcases List.eq_nil_or_concat t with rfl | ⟨t, c, rfl⟩
  · rfl
  · have hc : isAsciiWordChar c = false := by simpa using h
    have hlast : (atoms t ++ atoms [c]).getLast? = some [c.toLower] := by
      rw [show atoms [c] = [[c.toLower]] from rfl]
      simp
    rw [List.concat_eq_append, atoms_append (by simp [joins, hc]), hlast]
    simp [isWordAtom, hc]

/-- What comes in the place of a phrase has the same atoms with a capital. -/
theorem atoms_matchCase {p : Text × Text} (hp : p ∈ exchanges) (matched : Text) :
    atoms (matchCase matched p.2) = atoms p.2 := by
  obtain ⟨-, -, hupper⟩ := isSolid_of_mem_exchanges p hp
  rw [atoms_eq_iff, matchCase.eq_def]
  split
  case isFalse => rfl
  case isTrue =>
    cases hr : p.2 with
    | nil => rfl
    | cons c r =>
      rw [hr] at hupper
      have hc : (upperChar c).map Char.toLower = [c.toLower] := by simpa using hupper
      rw [List.map_append, hc]
      rfl

/-- The atoms around what a fix exchanges. -/
theorem IsExchange.around {f : Fix} {lead left gone right : Text}
    (h : IsExchange (lead ++ (left ++ gone ++ right)) f)
    (hstart : lead.byteLength + left.byteLength = f.start)
    (hstop : f.start + gone.byteLength = f.stop) :
    ∃ p ∈ exchanges, atoms gone = atoms p.1 ∧ atoms f.text = atoms p.2 ∧
      gone.head?.any isAsciiWordChar = true ∧ gone.getLast?.any isAsciiWordChar = true ∧
      left.getLast?.any isAsciiWordChar = false ∧ right.head?.any isAsciiWordChar = false := by
  obtain ⟨p, hp, matched, ⟨left', right', ht, hstart', hoccurs⟩, hstop', htext⟩ := h
  rw [← List.append_assoc, ← List.append_assoc, List.append_assoc, List.append_assoc left'] at ht
  obtain ⟨rfl, hrest⟩ := Text.append_inj ht (by rw [Text.byteLength_append]; omega)
  obtain ⟨rfl, rfl⟩ := Text.append_inj hrest (by omega)
  obtain ⟨hhead, hlast, hbefore, hafter⟩ := hoccurs.ends (isSolid_of_mem_exchanges p hp).1
  refine ⟨p, hp, ?_, ?_, hhead, hlast, ?_, hafter⟩
  · exact (atoms_eq_iff _ _).2 ((eqIgnoreAsciiCase_iff _ _).1 hoccurs.same)
  · rw [htext, atoms_matchCase hp]
  · by_cases hnil : left = []
    · rw [hnil]
      rfl
    · rwa [List.getLast?_append_of_ne_nil _ hnil] at hbefore

theorem eq_blank_of_prefix {u : Text} (h : u <+: " address".toList) (hne : u ≠ [])
    (hlast : u.getLast?.any isAsciiWordChar = false) : u = [' '] := by
  have hall : ∀ n < 9, (" address".toList.take n).getLast?.any isAsciiWordChar = false →
      " address".toList.take n = [] ∨ " address".toList.take n = [' '] := by
    decide +kernel
  have hlength : u.length < 9 := Nat.lt_succ_of_le h.length_le
  have htake := List.prefix_iff_eq_take.1 h
  rw [htake] at hlast
  rcases hall u.length hlength hlast with hnil | hblank
  · rw [← htake] at hnil
    exact absurd hnil hne
  · rwa [← htake] at hblank

/-- **What completes a phrase is not exchanged.**  A phrase in front of an exchange that is
completed with what is exchanged is completed without it. -/
theorem completes_of_exchange {e : Substitution} (he : e ∈ substitutionEntries)
    (hlong : e.isShortening = false) {p : Text × Text} (hp : p ∈ exchanges) {left : Text}
    {front d : List Text} (hatoms : atoms left = front ++ (atoms e.phrase ++ d))
    (hleft : left.getLast?.any isAsciiWordChar = false) {row : List Text} (more : List Text)
    (h : Completes e (d ++ (atoms p.1 ++ row))) : Completes e (d ++ more) := by
  obtain ⟨lead, middle, rfl, -, -, hmiddle⟩ := atoms_eq_append hatoms
  obtain ⟨matched, b, rfl, -, hmatched, rfl⟩ := atoms_eq_append hmiddle
  obtain ⟨hsolid, hphrase, -⟩ := substitutionEntries_lower e he
  have hb : b ≠ [] := by
    rintro rfl
    have hlast := (any_isAsciiWordChar_of_same ((atoms_eq_iff _ _).1 hmatched)).2
    rw [isSolid, Bool.and_eq_true] at hsolid
    rw [hsolid.2] at hlast
    have hne := ne_nil_of_any_getLast? hlast
    rw [List.append_nil, List.getLast?_append_of_ne_nil _ hne, hlast] at hleft
    cases hleft
  rw [List.getLast?_append_of_ne_nil _ (by simp [hb]), List.getLast?_append_of_ne_nil _ hb] at hleft
  rw [Completes, List.flatten_append, List.flatten_append, flatten_atoms, flatten_atoms,
    (isSolid_of_mem_exchanges p hp).2.1] at h
  rw [Completes, List.flatten_append, flatten_atoms]
  rcases completing.1 e he hlong with haddress | ⟨hlonger, hshorter⟩
  · rw [haddress, List.prefix_append_right_inj] at h ⊢
    rcases List.prefix_or_prefix_of_prefix h (List.prefix_append _ _) with hin | hshort
    · exact hin.trans (List.prefix_append _ _)
    · -- only the blank is in front of the exchange, so what is exchanged begins the word
      exfalso
      have hblank : b.map Char.toLower = [' '] := by
        refine eq_blank_of_prefix hshort (by simp [hb]) ?_
        rw [List.getLast?_map]
        cases hlast : b.getLast? with
        | none => rfl
        | some c =>
          rw [hlast] at hleft
          simpa using hleft
      rw [hblank, show " address".toList = ' ' :: "address".toList from rfl,
        List.singleton_append, List.cons_prefix_cons] at h
      obtain ⟨hbegins, hbegun⟩ := completing.2 p hp
      exact (List.prefix_or_prefix_of_prefix h.2 (List.prefix_append _ _)).elim hbegun hbegins
  · exfalso
    exact (List.prefix_or_prefix_of_prefix h (List.prefix_append _ _)).elim hlonger hshorter

/-! ## All exchanges at once -/

/-- A row of exchanges leaves no word at the start of a text that had none there. -/
theorem any_head?_of_substituteFrom {fixes : List Fix} {lead t s : Text}
    (h : substituteFrom lead.byteLength fixes t = some s)
    (hexchange : ∀ f ∈ fixes, IsExchange (lead ++ t) f)
    (hhead : t.head?.any isAsciiWordChar = false) : s.head?.any isAsciiWordChar = false := by
  cases fixes with
  | nil => rwa [← Option.some.inj h]
  | cons f rest =>
    obtain ⟨left, gone, right, later, rfl, hstart, hstop, -, rfl⟩ :=
      (substituteFrom_cons_eq_some_iff _ _ _ _ _).1 h
    obtain ⟨p, -, -, -, hgone, -⟩ := (hexchange f List.mem_cons_self).around hstart hstop
    by_cases hnil : left = []
    · -- the exchanged phrase would be the word at the start
      exfalso
      have hne := ne_nil_of_any_head? hgone
      rw [hnil, List.nil_append, List.head?_append_of_ne_nil _ hne, hgone] at hhead
      cases hhead
    · rw [List.append_assoc, List.head?_append_of_ne_nil _ hnil] at hhead ⊢
      exact hhead

/-- Among the atoms of a text a phrase stands that what follows does not complete, and no fix meets
it; the text begins at `offset`. -/
def StandsClear (e : Substitution) (offset : Nat) (t : Text) (fixes : List Fix) : Prop :=
  ∃ front back, atoms t = front ++ (atoms e.phrase ++ back) ∧ ¬ Completes e back ∧
    ∀ f ∈ fixes, offset + Text.byteLength (front ++ atoms e.phrase).flatten ≤ f.start ∨
      f.stop ≤ offset + Text.byteLength front.flatten

theorem byteLength_flatten_atoms (t : Text) :
    Text.byteLength (atoms t).flatten = t.byteLength := by
  rw [flatten_atoms, Text.byteLength_map_toLower]

/-- **A flagged phrase in a text with phrases exchanged stands there in the old text, clear of all
exchanges,** if it cannot come up at one of the replacements. -/
theorem standsClear_of_flaggedIn {e : Substitution} (he : e ∈ substitutionEntries)
    (hlong : e.isShortening = false) {fixes : List Fix} {lead t s : Text}
    (h : substituteFrom lead.byteLength fixes t = some s)
    (hexchange : ∀ f ∈ fixes, IsExchange (lead ++ t) f)
    (hsafe : ∀ f ∈ fixes, isSafe e (atoms f.text) = true) (hflagged : FlaggedIn e (atoms s)) :
    StandsClear e lead.byteLength t fixes := by
  -- by induction on the fixes: the phrase is in front of the first one, or among the others
  induction fixes generalizing lead t s with
  | nil =>
    obtain ⟨front, back, hrow, hcompletes⟩ := hflagged
    rw [← Option.some.inj h] at hrow
    exact ⟨front, back, hrow, hcompletes, by simp⟩
  | cons f rest ih =>
    obtain ⟨front, back, hrow, hcompletes⟩ := hflagged
    have hfits := (fits_of_substituteFrom h).2
    obtain ⟨left, gone, right, later, rfl, hstart, hstop, hlater, rfl⟩ :=
      (substituteFrom_cons_eq_some_iff _ _ _ _ _).1 h
    obtain ⟨p, hp, hgone, htext, hhead, hlast, hleft, hright⟩ :=
      (hexchange f List.mem_cons_self).around hstart hstop
    have hnext : f.stop = (lead ++ left ++ gone).byteLength := by
      simp only [Text.byteLength_append]
      omega
    have hwhole : lead ++ (left ++ gone ++ right) = lead ++ left ++ gone ++ right := by simp
    rw [hnext] at hlater
    have hothers : ∀ g ∈ rest, IsExchange (lead ++ left ++ gone ++ right) g := fun g hg =>
      hwhole ▸ hexchange g (List.mem_cons_of_mem f hg)
    have hafter := any_head?_of_substituteFrom hlater hothers hright
    have hold : atoms (left ++ gone ++ right) = atoms left ++ (atoms p.1 ++ atoms right) := by
      rw [List.append_assoc, atoms_append (by simp [joins, hleft]),
        atoms_append (by simp [joins, hright]), hgone]
    have hnew : atoms (left ++ f.text ++ later) = atoms left ++ (atoms p.2 ++ atoms later) := by
      rw [List.append_assoc, atoms_append (by simp [joins, hleft]),
        atoms_append (by simp [joins, hafter]), htext]
    rw [hnew] at hrow
    rcases window_cases he (htext ▸ hsafe f List.mem_cons_self) (any_getLast?_atoms hleft)
      (by rw [any_head?_atoms, hafter]) hrow with ⟨d, hin, rfl⟩ | ⟨front', hin⟩ | hin
    · -- in front of the first exchange
      refine ⟨front, d ++ (atoms p.1 ++ atoms right), by rw [hold, hin]; simp, ?_, ?_⟩
      · exact fun hdone => hcompletes (completes_of_exchange he hlong hp hin hleft _ hdone)
      · have hfront : lead.byteLength + Text.byteLength (front ++ atoms e.phrase).flatten
            ≤ f.start := by
          have hlength := byteLength_flatten_atoms left
          rw [hin, ← List.append_assoc, List.flatten_append, Text.byteLength_append] at hlength
          omega
        intro g hg
        rcases List.mem_cons.1 hg with rfl | hg
        · exact .inl hfront
        · have hprecedes := (List.pairwise_cons.1 hfits).1 g hg
          rw [Fix.precedes] at hprecedes
          exact .inl (by omega)
    · -- among the other exchanges
      obtain ⟨front'', back', hrow', hcompletes', hclear⟩ :=
        ih hlater hothers (fun g hg => hsafe g (List.mem_cons_of_mem f hg))
          ⟨front', back, hin, hcompletes⟩
      have hlength : Text.byteLength (atoms left ++ (atoms p.1 ++ front'')).flatten
          = left.byteLength + gone.byteLength + Text.byteLength front''.flatten := by
        rw [List.flatten_append, List.flatten_append, Text.byteLength_append,
          Text.byteLength_append, byteLength_flatten_atoms, ← hgone, byteLength_flatten_atoms]
        omega
      refine ⟨atoms left ++ (atoms p.1 ++ front''), back', by rw [hold, hrow']; simp,
        hcompletes', ?_⟩
      intro g hg
      rw [List.flatten_append, Text.byteLength_append, hlength]
      rcases List.mem_cons.1 hg with rfl | hg
      · exact .inr (by omega)
      · have := hclear g hg
        rw [List.flatten_append, Text.byteLength_append] at this
        simp only [Text.byteLength_append] at this
        omega
    · exact absurd hin hcompletes


/-! ## Collapsed texts -/

/-- No white space is in a phrase but in those that can come up. -/
theorem isPlainAtom_of_mem : ∀ e ∈ substitutionEntries, e.isStable = true →
    ∀ a ∈ atoms e.phrase, isPlainAtom a = true := by
  decide +kernel

/-- **A flagged phrase in a collapsed text is flagged in every text with the same beads,** if it has
no white space. -/
theorem FlaggedIn.of_beads_eq {e : Substitution} (he : e ∈ substitutionEntries)
    (hlong : e.isShortening = false) (hplain : ∀ a ∈ atoms e.phrase, isPlainAtom a = true)
    {c s : Text} (hc : Text.IsCollapsed c) (hbeads : beads c = beads s)
    (h : FlaggedIn e (atoms c)) : FlaggedIn e (atoms s) := by
  obtain ⟨front, back, hrow, hcompletes⟩ := h
  have hne : atoms e.phrase ≠ [] := by
    rw [ne_eq, Text.atoms_eq_nil_iff]
    have hsolid := (substitutionEntries_lower e he).1
    rw [isSolid, Bool.and_eq_true] at hsolid
    exact ne_nil_of_any_head? hsolid.1
  obtain ⟨front', back', hrow', hspaced⟩ := exists_of_beads_eq hbeads hplain hne hrow
  refine ⟨front', back', hrow', fun hdone => hcompletes ?_⟩
  obtain ⟨lead, middle, rfl, -, -, hmiddle⟩ := atoms_eq_append hrow
  obtain ⟨matched, right, rfl, -, -, rfl⟩ := atoms_eq_append hmiddle
  obtain ⟨lead', middle', rfl, -, -, hmiddle'⟩ := atoms_eq_append hrow'
  obtain ⟨matched', right', rfl, -, -, rfl⟩ := atoms_eq_append hmiddle'
  rw [Completes, flatten_atoms] at hdone ⊢
  rcases completing.1 e he hlong with haddress | ⟨hlonger, hshorter⟩
  · -- the completing word is a bead behind a blank, so it is in the collapsed text too
    rw [haddress, List.prefix_append_right_inj] at hdone ⊢
    have hword : "address".toList.all isAsciiWordChar = true := by decide +kernel
    refine @prefix_of_spaced_eq "address".toList _ _ (by simp) (List.all_eq_true.1 hword) ?_ ?_
      hspaced hdone
    · intro x y hxy
      refine hc.single x y (hxy.trans ⟨lead ++ matched, [], ?_⟩)
      rw [List.append_nil, List.append_assoc]
    · intro x hx
      exact hc.blank x (by simp [hx])
  · exfalso
    exact (List.prefix_or_prefix_of_prefix hdone (List.prefix_append _ _)).elim hlonger hshorter

end CodeProse.Style
