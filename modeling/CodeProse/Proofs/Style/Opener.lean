/-
# Where sentences open with "so" and "there is"

An opener stands at the start of a clause: only white space is in front of it, or a mark that ends a
clause and white space behind that (`OpensClause`). The search for openers goes through a text once,
and what one of them has used up is in no other. An opener has no mark in its words, so where it
uses up nothing else, all openers are found. "So" uses up one character more. If this is the mark
that another "so" needs, then that one is passed over, and just then (`mem_openersFrom_iff`): of
"So. So it is." only the first "so" is found. All openers of a text are found just if no "so"
directly follows another one (`flagsAllOpeners_iff`).
-/
import CodeProse.Proofs.Style.Phrase
import CodeProse.Proofs.Text.Atom

namespace CodeProse.Style

open Unicode

/-! ## Folded characters -/

/-- What a map on code points finds is the value of one of its entries. -/
theorem exists_mem_of_find? {α : Type} {map : CodePointMap α} {n : Nat} {v : α}
    (h : map.find? n = some v) : ∃ e ∈ map.starts.toList, e.2 = v := by
  unfold CodePointMap.find? at h
  simp only at h
  split at h
  case isTrue => cases h
  case isFalse =>
    obtain ⟨e, he, rfl⟩ := Option.map_eq_some_iff.1 h
    exact ⟨e, List.mem_of_getElem? (by rwa [Array.getElem?_toList]), rfl⟩

/-- The code points of white space. -/
def blankCodes : List Nat :=
  List.range' 0x09 5 ++ [0x20, 0x85, 0xA0, 0x1680] ++ List.range' 0x2000 11
    ++ [0x2028, 0x2029, 0x202F, 0x205F, 0x3000]

theorem toNat_mem_blankCodes {c : Char} (h : isWhitespace c = true) : c.toNat ∈ blankCodes := by
  simp only [isWhitespace] at h
  simp only [blankCodes, List.mem_append, List.mem_range'_1, List.mem_cons, List.not_mem_nil,
    or_false]
  split at h
  · simp only [Bool.or_eq_true, Bool.and_eq_true, beq_iff_eq, decide_eq_true_eq] at h
    omega
  · simp only [Bool.or_eq_true, Bool.and_eq_true, beq_iff_eq, decide_eq_true_eq] at h
    omega

/-- The characters of a text that is written out. -/
theorem toList_eq_of_ofList {s : String} {l : List Char} (h : s = String.ofList l) :
    s.toList = l := by
  rw [h, String.toList_ofList]

/-- No entry of the tables of case moves white space. -/
theorem blankCodes_caseless : (∀ n ∈ blankCodes, foldExceptions.lookup n = none) ∧
    ∀ e ∈ lowerTable.starts.toList, ∀ n ∈ blankCodes, e.2.image? n = none := by
  -- the kernel would take the characters off the table by their bytes, one by one
  unfold lowerTable readShifts tableWords
  rw [toList_eq_of_ofList rfl]
  decide +kernel

/-- White space has no other case. -/
theorem foldChar_of_isWhitespace {c : Char} (h : isWhitespace c = true) : foldChar c = c := by
  rw [foldChar]
  split
  case isTrue =>
    exact Text.toLower_of_not_isAsciiWordChar (Text.not_isAsciiWordChar_of_isWhitespace h)
  case isFalse =>
    have hcode := toNat_mem_blankCodes h
    have hshifted : shifted? lowerTable c.toNat = none := by
      rw [shifted?]
      cases hfind : lowerTable.find? c.toNat with
      | none => rfl
      | some s =>
        obtain ⟨e, he, rfl⟩ := exists_mem_of_find? hfind
        exact blankCodes_caseless.2 e he _ hcode
    rw [blankCodes_caseless.1 _ hcode, hshifted]
    rfl

/-- A mark that ends a clause has no other case. -/
theorem foldChar_of_opensClause {c : Char} (h : opensClause c = true) : foldChar c = c := by
  simp only [opensClause, Bool.or_eq_true, beq_iff_eq] at h
  rcases h with ((rfl | rfl) | rfl) | rfl <;> decide

theorem not_isWhitespace_of_opensClause {c : Char} (h : opensClause c = true) :
    isWhitespace c = false := by
  simp only [opensClause, Bool.or_eq_true, beq_iff_eq] at h
  rcases h with ((rfl | rfl) | rfl) | rfl <;> decide

/-- Whether a character is neither white space nor a mark that ends a clause. -/
def isInner (c : Char) : Bool :=
  !isWhitespace c && !opensClause c

/-- A word without white space and such marks has none in another case either. -/
theorem isInner_of_map_foldChar {written word : Text} (h : written.map foldChar = word)
    (hword : word.all isInner = true) :
    ∀ c ∈ written, isWhitespace c = false ∧ opensClause c = false := by
  intro c hc
  have hfolded : isWhitespace (foldChar c) = false ∧ opensClause (foldChar c) = false := by
    simpa [isInner] using List.all_eq_true.1 hword _ (h ▸ List.mem_map_of_mem hc)
  constructor
  · rw [Bool.eq_false_iff]
    intro hblank
    rw [foldChar_of_isWhitespace hblank] at hfolded
    rw [hfolded.1] at hblank
    cases hblank
  · rw [Bool.eq_false_iff]
    intro hmark
    rw [foldChar_of_opensClause hmark] at hfolded
    rw [hfolded.2] at hmark
    cases hmark

/-! ## What an opener recognises -/

/-- "So", in any case, with a character behind it that is in no word. -/
def IsSo (words right : Text) : Prop :=
  words.map foldChar = "so".toList ∧ ∃ c rest, right = c :: rest ∧ isWordChar c = false

/-- "Is" or "are", in any case. -/
def IsVerb (word : Text) : Prop :=
  word.map foldChar = "is".toList ∨ word.map foldChar = "are".toList

/-- "There is" or "there are", in any case, with no character of a word behind it. -/
def IsThereIs (words right : Text) : Prop :=
  ∃ there gap verb, words = there ++ gap ++ verb ∧ there.map foldChar = "there".toList ∧
    gap ≠ [] ∧ (∀ c ∈ gap, isWhitespace c = true) ∧ IsVerb verb ∧
    right.head?.any isWordChar = false

/-- An opener recognises the passages of a kind at the start of a text, and uses up `more` characters
behind them. They begin with a visible character, and no mark that ends a clause is in them. -/
structure Opener.Recognises (opener : Opener) (isOpener : Text → Text → Prop) (more : Nat) :
    Prop where
  eq_some_iff : ∀ t words used, opener t = some (words, used) ↔
    used = more ∧ ∃ right, t = words ++ right ∧ isOpener words right
  visible : ∀ words right, isOpener words right →
    ∃ c rest, words = c :: rest ∧ isWhitespace c = false
  markless : ∀ words right, isOpener words right → ∀ c ∈ words, opensClause c = false

/-- A word is read off a text that begins with it, in any case. -/
theorem takeFolded?_eq_some_iff (word t m rest : Text) :
    takeFolded? word t = some (m, rest) ↔ t = m ++ rest ∧ m.map foldChar = word := by
  rw [take_eq_some_iff (f := id) (g := foldChar) (fun _ => rfl) (fun _ _ => rfl)
    (fun _ _ _ _ => rfl), List.map_id]

theorem recognises_soOpener : soOpener.Recognises IsSo 1 where
  eq_some_iff t words used := by
    rw [soOpener]
    constructor
    · intro h
      split at h
      case h_1 word c rest htake =>
        obtain ⟨rfl, hfold⟩ := (takeFolded?_eq_some_iff _ _ _ _).1 htake
        split at h
        case isTrue => cases h
        case isFalse hc =>
          obtain ⟨rfl, rfl⟩ := Prod.mk.inj (Option.some.inj h)
          exact ⟨rfl, c :: rest, rfl, hfold, c, rest, rfl, by simpa using hc⟩
      case h_2 => cases h
    · rintro ⟨rfl, right, rfl, hfold, c, rest, rfl, hc⟩
      rw [show ['s', 'o'] = "so".toList from rfl, (takeFolded?_eq_some_iff _ _ _ _).2 ⟨rfl, hfold⟩]
      simp [hc]
  visible words right h := by
    obtain ⟨c, rest, rfl⟩ := List.exists_cons_of_ne_nil (l := words) (by
      rintro rfl
      cases h.1)
    exact ⟨c, rest, rfl, (isInner_of_map_foldChar h.1 (by decide) c List.mem_cons_self).1⟩
  markless words right h c hc :=
    (isInner_of_map_foldChar h.1 (by decide) c hc).2

/-- A verb at the start of a text that ends where a word does, read behind `lead`. -/
def verbAfter? (lead rest verb : Text) : Option (Text × Nat) :=
  match takeFolded? verb rest with
  | some (word, after) => if after.head?.any isWordChar then none else some (lead ++ word, 0)
  | none => none

theorem thereIsOpener_eq (t : Text) :
    thereIsOpener t = match takeFolded? "there".toList t with
      | none => none
      | some (there, rest) =>
        if (rest.takeWhile isWhitespace).isEmpty then none
        else
          let lead := there ++ rest.takeWhile isWhitespace
          (verbAfter? lead (rest.dropWhile isWhitespace) ['i', 's']).orElse fun _ =>
            verbAfter? lead (rest.dropWhile isWhitespace) ['a', 'r', 'e'] :=
  rfl

theorem verbAfter?_eq_some_iff (lead rest verb words : Text) (used : Nat) :
    verbAfter? lead rest verb = some (words, used) ↔
      used = 0 ∧ ∃ word after, words = lead ++ word ∧ rest = word ++ after ∧
        word.map foldChar = verb ∧ after.head?.any isWordChar = false := by
  rw [verbAfter?]
  constructor
  · intro h
    split at h
    case h_1 word after htake =>
      obtain ⟨rfl, hfold⟩ := (takeFolded?_eq_some_iff _ _ _ _).1 htake
      split at h
      case isTrue => cases h
      case isFalse hafter =>
        obtain ⟨rfl, rfl⟩ := Prod.mk.inj (Option.some.inj h)
        exact ⟨rfl, word, after, rfl, rfl, hfold, Bool.eq_false_iff.2 hafter⟩
    case h_2 => cases h
  · rintro ⟨rfl, word, after, rfl, rfl, hfold, hafter⟩
    rw [(takeFolded?_eq_some_iff _ _ _ _).2 ⟨rfl, hfold⟩]
    simp [hafter]

theorem orElse_eq_some_iff {α : Type} (a : Option α) (f : Unit → Option α) (x : α) :
    a.orElse f = some x ↔ a = some x ∨ a = none ∧ f () = some x := by
  cases a with
  | none =>
    constructor
    · exact fun h => .inr ⟨rfl, h⟩
    · rintro (h | ⟨-, h⟩)
      · cases h
      · exact h
  | some y =>
    constructor
    · exact .inl
    · rintro (h | ⟨h, -⟩)
      · exact h
      · cases h

theorem IsVerb.isInner {word : Text} (h : IsVerb word) :
    ∀ c ∈ word, isWhitespace c = false ∧ opensClause c = false := by
  rcases h with h | h
  · exact isInner_of_map_foldChar h (by decide)
  · exact isInner_of_map_foldChar h (by decide)

theorem IsVerb.ne_nil {word : Text} (h : IsVerb word) : word ≠ [] := by
  rintro rfl
  rcases h with h | h
  · cases h
  · cases h

theorem verbsAfter_eq_some_iff (lead rest words : Text) (used : Nat) :
    ((verbAfter? lead rest ['i', 's']).orElse fun _ => verbAfter? lead rest ['a', 'r', 'e'])
        = some (words, used) ↔
      used = 0 ∧ ∃ word after, words = lead ++ word ∧ rest = word ++ after ∧ IsVerb word ∧
        after.head?.any isWordChar = false := by
  rw [orElse_eq_some_iff, verbAfter?_eq_some_iff, verbAfter?_eq_some_iff]
  constructor
  · rintro (⟨rfl, word, after, hwords, hrest, hverb, hafter⟩ |
      ⟨-, rfl, word, after, hwords, hrest, hverb, hafter⟩)
    · exact ⟨rfl, word, after, hwords, hrest, .inl hverb, hafter⟩
    · exact ⟨rfl, word, after, hwords, hrest, .inr hverb, hafter⟩
  · rintro ⟨rfl, word, after, rfl, rfl, hverb | hverb, hafter⟩
    · exact .inl ⟨rfl, word, after, rfl, rfl, hverb, hafter⟩
    · -- a word that begins with "a" is not read as "is"
      refine .inr ⟨?_, rfl, word, after, rfl, rfl, hverb, hafter⟩
      obtain ⟨v, vs, rfl, hv, -⟩ := List.map_eq_cons_iff.1 hverb
      have hv : foldChar v = 'a' := hv
      simp [verbAfter?, takeFolded?, hv]

theorem recognises_thereIsOpener : thereIsOpener.Recognises IsThereIs 0 where
  eq_some_iff t words used := by
    rw [thereIsOpener_eq]
    constructor
    · intro h
      split at h
      case h_1 => cases h
      case h_2 there rest htake =>
        obtain ⟨rfl, hthere⟩ := (takeFolded?_eq_some_iff _ _ _ _).1 htake
        split at h
        case isTrue => cases h
        case isFalse hgap =>
          obtain ⟨rfl, word, after, rfl, hrest, hverb, hafter⟩ :=
            (verbsAfter_eq_some_iff _ _ _ _).1 h
          refine ⟨rfl, after, ?_, there, rest.takeWhile isWhitespace, word, rfl, hthere,
            mt List.isEmpty_iff.2 hgap, List.all_eq_true.1 List.all_takeWhile, hverb, hafter⟩
          rw [List.append_assoc, List.append_assoc, ← hrest, List.takeWhile_append_dropWhile]
    · rintro ⟨rfl, right, rfl, there, gap, verb, rfl, hthere, hne, hgap, hverb, hright⟩
      have htake : takeFolded? "there".toList (there ++ gap ++ verb ++ right)
          = some (there, gap ++ (verb ++ right)) :=
        (takeFolded?_eq_some_iff _ _ _ _).2 ⟨by simp, hthere⟩
      obtain ⟨htakes, hdrops⟩ : (gap ++ (verb ++ right)).takeWhile isWhitespace = gap ∧
          (gap ++ (verb ++ right)).dropWhile isWhitespace = verb ++ right := by
        obtain ⟨v, vs, rfl⟩ := List.exists_cons_of_ne_nil hverb.ne_nil
        have hv := (hverb.isInner v List.mem_cons_self).1
        rw [List.takeWhile_append_of_pos hgap, List.dropWhile_append_of_pos hgap, List.cons_append,
          List.takeWhile_cons_of_neg (by simp [hv]), List.dropWhile_cons_of_neg (by simp [hv]),
          List.append_nil]
        exact ⟨rfl, rfl⟩
      rw [htake]
      simp only [htakes, hdrops]
      rw [if_neg (mt List.isEmpty_iff.1 hne)]
      exact (verbsAfter_eq_some_iff _ _ _ _).2 ⟨rfl, verb, right, rfl, rfl, hverb, hright⟩
  visible words right h := by
    obtain ⟨there, gap, verb, rfl, hthere, -⟩ := h
    obtain ⟨c, rest, rfl, -⟩ := List.map_eq_cons_iff.1 hthere
    exact ⟨c, _, rfl, (isInner_of_map_foldChar hthere (by decide) c List.mem_cons_self).1⟩
  markless words right h c hc := by
    obtain ⟨there, gap, verb, rfl, hthere, -, hgap, hverb, -⟩ := h
    rw [List.mem_append, List.mem_append] at hc
    rcases hc with (hc | hc) | hc
    · exact (isInner_of_map_foldChar hthere (by decide) c hc).2
    · rw [Bool.eq_false_iff]
      intro hmark
      have := hgap c hc
      rw [not_isWhitespace_of_opensClause hmark] at this
      cases this
    · exact (hverb.isInner c hc).2

/-! ## Where clauses start -/

/-- A mark that ends a clause, and white space. -/
def IsBreak (b : Text) : Prop :=
  ∃ mark blank, b = mark :: blank ∧ opensClause mark = true ∧ blank ≠ [] ∧
    ∀ c ∈ blank, isWhitespace c = true

/-- A text ends in a mark that ends a clause, at the given place, and white space behind it. -/
def BreaksAt (left : Text) (place : Nat) : Prop :=
  ∃ before b, left = before ++ b ∧ before.byteLength = place ∧ IsBreak b

/-- What follows a text is the start of a clause: there is only white space in front of it, or a mark
that ends a clause and white space. -/
def OpensClause (left : Text) : Prop :=
  (∀ c ∈ left, isWhitespace c = true) ∨ ∃ place, BreaksAt left place

/-- No break is in the white space of another one. -/
theorem IsBreak.eq_of_suffix {b b' : Text} (h : IsBreak b) (h' : IsBreak b') (hs : b' <:+ b) :
    b' = b := by
  obtain ⟨mark, blank, rfl, -, -, hblank⟩ := h
  obtain ⟨mark', blank', rfl, hmark', -, -⟩ := h'
  rcases List.suffix_cons_iff.1 hs with heq | hs
  · exact heq
  · have hwhite := hblank mark' (hs.subset List.mem_cons_self)
    rw [not_isWhitespace_of_opensClause hmark'] at hwhite
    cases hwhite

/-- A text ends in one break only. -/
theorem breaksAt_append_iff {a b : Text} (hb : IsBreak b) (place : Nat) :
    BreaksAt (a ++ b) place ↔ a.byteLength = place := by
  constructor
  · rintro ⟨a', b', hsplit, rfl, hb'⟩
    have heq : b = b' := by
      rcases List.suffix_or_suffix_of_suffix ⟨a, rfl⟩ ⟨a', hsplit.symm⟩ with hs | hs
      · exact hb'.eq_of_suffix hb hs
      · exact (hb.eq_of_suffix hb' hs).symm
    rw [heq] at hsplit
    rw [List.append_cancel_right hsplit]
  · rintro rfl
    exact ⟨a, b, rfl, rfl, hb⟩

theorem not_breaksAt_of_blank {left : Text} (h : ∀ c ∈ left, isWhitespace c = true) (place : Nat) :
    ¬ BreaksAt left place := by
  rintro ⟨before, b, rfl, -, mark, blank, rfl, hmark, -⟩
  have hwhite := h mark (by simp)
  rw [not_isWhitespace_of_opensClause hmark] at hwhite
  cases hwhite

/-! ## One opener -/

variable {opener : Opener} {isOpener : Text → Text → Prop} {more : Nat}

/-- What an opener is read behind: white space at the start of everything, or a break. -/
def Leads (atStart : Bool) (lead : Text) : Prop :=
  atStart = true ∧ (∀ c ∈ lead, isWhitespace c = true) ∨ IsBreak lead

/-- Behind its first character a lead is white space. -/
theorem Leads.tail {atStart : Bool} {lead : Text} (h : Leads atStart lead) :
    ∀ c ∈ lead.tail, isWhitespace c = true := by
  rcases h with ⟨-, hblank⟩ | ⟨mark, blank, rfl, -, -, hblank⟩
  · exact fun c hc => hblank c (List.mem_of_mem_tail hc)
  · exact hblank

theorem openerAfterBlank?_eq_some_iff (h : opener.Recognises isOpener more)
    (lead t lead' words : Text) (used : Nat) :
    openerAfterBlank? opener lead t = some (lead', words, used) ↔
      used = lead'.length + words.length + more ∧ ∃ blank right, lead' = lead ++ blank ∧
        (∀ c ∈ blank, isWhitespace c = true) ∧ t = blank ++ (words ++ right) ∧
        isOpener words right := by
  rw [openerAfterBlank?, Option.map_eq_some_iff]
  constructor
  · rintro ⟨⟨words', used'⟩, hopener, hr⟩
    simp only [Prod.mk.injEq] at hr
    obtain ⟨rfl, rfl, rfl⟩ := hr
    obtain ⟨rfl, right, hright, hwords⟩ := (h.eq_some_iff _ _ _).1 hopener
    refine ⟨by rw [List.length_append], t.takeWhile isWhitespace, right, rfl,
      List.all_eq_true.1 List.all_takeWhile, ?_, hwords⟩
    rw [← hright, List.takeWhile_append_dropWhile]
  · rintro ⟨rfl, blank, right, rfl, hblank, rfl, hwords⟩
    obtain ⟨c, rest, rfl, hc⟩ := h.visible _ _ hwords
    have htake : (blank ++ (c :: rest ++ right)).takeWhile isWhitespace = blank := by
      rw [List.takeWhile_append_of_pos hblank, List.cons_append,
        List.takeWhile_cons_of_neg (by simp [hc]), List.append_nil]
    have hdrop : (blank ++ (c :: rest ++ right)).dropWhile isWhitespace = c :: rest ++ right := by
      rw [List.dropWhile_append_of_pos hblank, List.cons_append,
        List.dropWhile_cons_of_neg (by simp [hc])]
    refine ⟨(c :: rest, more), ?_, ?_⟩
    · rw [hdrop]
      exact (h.eq_some_iff _ _ _).2 ⟨rfl, right, rfl, hwords⟩
    · simp only [htake, List.length_append]

/-- Nothing is read at a mark that ends a clause. -/
theorem openerAfterBlank?_eq_none (h : opener.Recognises isOpener more) {mark : Char}
    (hmark : opensClause mark = true) (lead rest : Text) :
    openerAfterBlank? opener lead (mark :: rest) = none := by
  rw [Option.eq_none_iff_forall_ne_some]
  rintro ⟨lead', words, used⟩ hopener
  obtain ⟨-, blank, right, -, hblank, hsplit, hwords⟩ :=
    (openerAfterBlank?_eq_some_iff h _ _ _ _ _).1 hopener
  cases blank with
  | nil =>
    obtain ⟨c, words, rfl, -⟩ := h.visible _ _ hwords
    have hplain := h.markless _ _ hwords c List.mem_cons_self
    rw [← (List.cons.inj hsplit).1, hmark] at hplain
    cases hplain
  | cons c blank =>
    have hwhite := hblank c List.mem_cons_self
    rw [← (List.cons.inj hsplit).1, not_isWhitespace_of_opensClause hmark] at hwhite
    cases hwhite

/-- **An opener is read at the start of a text,** behind what it may be read behind. -/
theorem openerAt?_eq_some_iff (h : opener.Recognises isOpener more) (atStart : Bool)
    (t lead words : Text) (used : Nat) :
    openerAt? opener atStart t = some (lead, words, used) ↔
      used = lead.length + words.length + more ∧ Leads atStart lead ∧
        ∃ right, t = lead ++ (words ++ right) ∧ isOpener words right := by
  unfold openerAt?
  rw [orElse_eq_some_iff]
  constructor
  · rintro (hhere | ⟨-, hbreak⟩)
    · split at hhere
      case isTrue hstart =>
        obtain ⟨rfl, blank, right, rfl, hblank, rfl, hwords⟩ :=
          (openerAfterBlank?_eq_some_iff h _ _ _ _ _).1 hhere
        exact ⟨rfl, .inl ⟨hstart, hblank⟩, right, rfl, hwords⟩
      case isFalse => cases hhere
    · split at hbreak
      case h_1 c d rest =>
        split at hbreak
        case isTrue hcd =>
          obtain ⟨rfl, blank, right, rfl, hblank, ht, hwords⟩ :=
            (openerAfterBlank?_eq_some_iff h _ _ _ _ _).1 hbreak
          rw [Bool.and_eq_true] at hcd
          refine ⟨rfl, .inr ⟨c, blank, rfl, hcd.1, ?_, hblank⟩, right, by rw [ht]; rfl, hwords⟩
          rintro rfl
          obtain ⟨v, vs, rfl, hv⟩ := h.visible _ _ hwords
          rw [(List.cons.inj ht).1] at hcd
          rw [hv] at hcd
          cases hcd.2
        case isFalse => cases hbreak
      case h_2 => cases hbreak
  · rintro ⟨rfl, ⟨hstart, hblank⟩ | ⟨mark, blank, rfl, hmark, hne, hblank⟩, right, rfl, hwords⟩
    · left
      rw [if_pos hstart]
      exact (openerAfterBlank?_eq_some_iff h _ _ _ _ _).2
        ⟨rfl, lead, right, rfl, hblank, rfl, hwords⟩
    · right
      constructor
      · split
        · exact openerAfterBlank?_eq_none h hmark _ _
        · rfl
      · obtain ⟨d, blank, rfl⟩ := List.exists_cons_of_ne_nil hne
        have hd := hblank d List.mem_cons_self
        simp only [List.cons_append, hmark, hd, Bool.and_self, if_true]
        exact (openerAfterBlank?_eq_some_iff h _ _ _ _ _).2
          ⟨rfl, d :: blank, right, rfl, hblank, rfl, hwords⟩

/-! ## The search for openers -/

variable {comment : String} {pre t : Text} {r : Remark}

/-- In what is left of a text behind `pre`, an opener has its lead behind `a`. -/
def FoundBehind (isOpener : Text → Text → Prop) (comment : String) (pre a t : Text) (r : Remark) :
    Prop :=
  ∃ lead words right, t = a ++ (lead ++ (words ++ right)) ∧
    Leads ((pre ++ a).byteLength == 0) lead ∧ isOpener words right ∧
    r = .quoting (pre ++ a ++ lead).byteLength words words comment

/-- No remark of a list ends where a lead begins, if openers use up anything behind their words. -/
def IsFree (more : Nat) (remarks : List Remark) (place : Nat) : Prop :=
  more = 0 ∨ ∀ r ∈ remarks, r.start + r.length ≠ place

theorem foundBehind_nil_iff (h : opener.Recognises isOpener more) :
    FoundBehind isOpener comment pre [] t r ↔ ∃ lead words used,
      openerAt? opener (pre.byteLength == 0) t = some (lead, words, used) ∧
        r = .quoting (pre.byteLength + lead.byteLength) words words comment := by
  simp only [FoundBehind, List.append_nil, List.nil_append, openerAt?_eq_some_iff h,
    Text.byteLength_append]
  constructor
  · rintro ⟨lead, words, right, ht, hlead, hwords, rfl⟩
    exact ⟨lead, words, _, ⟨rfl, hlead, right, ht, hwords⟩, rfl⟩
  · rintro ⟨lead, words, used, ⟨-, hlead, right, ht, hwords⟩, rfl⟩
    exact ⟨lead, words, right, ht, hlead, hwords, rfl⟩

theorem foundBehind_cons_iff {a : Text} {c d : Char} :
    FoundBehind isOpener comment pre (c :: a) (d :: t) r ↔
      c = d ∧ FoundBehind isOpener comment (pre ++ [c]) a t r := by
  simp only [FoundBehind, List.cons_append, List.cons.injEq, List.append_assoc, List.nil_append]
  constructor
  · rintro ⟨lead, words, right, ⟨rfl, ht⟩, hfound⟩
    exact ⟨rfl, lead, words, right, ht, hfound⟩
  · rintro ⟨rfl, lead, words, right, ht, hfound⟩
    exact ⟨lead, words, right, ⟨rfl, ht⟩, hfound⟩

/-- A found opener has a word, behind what its lead begins behind. -/
theorem FoundBehind.bounds (h : opener.Recognises isOpener more) {a : Text}
    (hfound : FoundBehind isOpener comment pre a t r) :
    (pre ++ a).byteLength ≤ r.start ∧ 0 < r.length := by
  obtain ⟨lead, words, right, -, -, hwords, rfl⟩ := hfound
  obtain ⟨c, words, rfl, -⟩ := h.visible _ _ hwords
  have := c.utf8Size_pos
  simp only [Remark.quoting, Text.byteLength_append, Text.byteLength_cons]
  omega

/-- Behind the first character of what is read there is no mark that ends a clause. -/
theorem not_opensClause_of_mem_tail (h : opener.Recognises isOpener more) {atStart : Bool}
    {lead words right : Text} (hlead : Leads atStart lead) (hwords : isOpener words right) :
    ∀ c ∈ (lead ++ words).tail, opensClause c = false := by
  intro c hc
  have hmarkless := h.markless _ _ hwords c
  cases lead with
  | nil => exact hmarkless (List.mem_of_mem_tail hc)
  | cons l lead =>
    rcases List.mem_append.1 hc with hc | hc
    · rw [Bool.eq_false_iff]
      intro hmark
      have hwhite := hlead.tail c hc
      rw [not_isWhitespace_of_opensClause hmark] at hwhite
      cases hwhite
    · exact hmarkless hc

/-- The lead of an opener begins behind the words of another one that is read at the start. -/
theorem FoundBehind.prefix (h : opener.Recognises isOpener more) {lead words a : Text} {used : Nat}
    (hopener : openerAt? opener (pre.byteLength == 0) t = some (lead, words, used)) (ha : a ≠ [])
    (hfound : FoundBehind isOpener comment pre a t r) : lead ++ words <+: a := by
  obtain ⟨-, hlead, right, rfl, hwords⟩ := (openerAt?_eq_some_iff h _ _ _ _ _).1 hopener
  obtain ⟨lead', words', right', hsplit, hlead', -⟩ := hfound
  obtain ⟨mark, blank, rfl, hmark, -⟩ : IsBreak lead' := by
    refine hlead'.resolve_left fun hstart => ha ?_
    have hzero := (Text.byteLength_eq_zero_iff _).1 (beq_iff_eq.1 hstart.1)
    exact (List.append_eq_nil_iff.1 hzero).2
  rw [← List.append_assoc] at hsplit
  rcases List.append_eq_append_iff.1 hsplit with ⟨x, rfl, -⟩ | ⟨x, hx, hrest⟩
  · exact List.prefix_append _ _
  · cases x with
    | nil => exact ⟨[], by rw [List.append_nil, hx, List.append_nil]⟩
    | cons m x =>
      -- the mark of the later lead would be in what is read first
      exfalso
      obtain rfl : mark = m := (List.cons.inj hrest).1
      obtain ⟨b, a, rfl⟩ := List.exists_cons_of_ne_nil ha
      have hnone := not_opensClause_of_mem_tail h hlead hwords mark (by rw [hx]; simp)
      rw [hmark] at hnone
      cases hnone

/-- What is found behind a character is found in the whole, if nothing is found at its start or that
is used up. -/
theorem exists_foundBehind_cons_iff {P : Text → Prop} {c : Char} {skip : Nat}
    (hfirst : skip = 0 → ¬ FoundBehind isOpener comment pre [] (c :: t) r) :
    (∃ a, FoundBehind isOpener comment pre a (c :: t) r ∧ skip ≤ a.length ∧ P (pre ++ a)) ↔
      ∃ a, FoundBehind isOpener comment (pre ++ [c]) a t r ∧ skip - 1 ≤ a.length ∧
        P (pre ++ [c] ++ a) := by
  constructor
  · rintro ⟨a, hfound, hskip, ha⟩
    cases a with
    | nil => exact absurd hfound (hfirst (Nat.le_zero.1 hskip))
    | cons d a =>
      obtain ⟨rfl, hlater⟩ := foundBehind_cons_iff.1 hfound
      refine ⟨a, hlater, ?_, by simpa using ha⟩
      rw [List.length_cons] at hskip
      omega
  · rintro ⟨a, hfound, hskip, ha⟩
    refine ⟨c :: a, foundBehind_cons_iff.2 ⟨rfl, hfound⟩, ?_, by simpa using ha⟩
    rw [List.length_cons]
    omega

theorem used_ne_zero (h : opener.Recognises isOpener more) {atStart : Bool} {lead words : Text}
    {used : Nat} (hopener : openerAt? opener atStart t = some (lead, words, used)) : used ≠ 0 := by
  obtain ⟨rfl, -, right, -, hwords⟩ := (openerAt?_eq_some_iff h _ _ _ _ _).1 hopener
  obtain ⟨v, vs, rfl, -⟩ := h.visible _ _ hwords
  simp

/-- What is found first uses up the opener whose lead begins right behind it, and no other one. -/
theorem isFree_cons_iff (h : opener.Recognises isOpener more) (hmore : more ≤ 1)
    {lead words a : Text} {used : Nat}
    (hopener : openerAt? opener (pre.byteLength == 0) t = some (lead, words, used)) (ha : a ≠ [])
    (hfound : FoundBehind isOpener comment pre a t r) (remarks : List Remark) :
    IsFree more (.quoting (pre.byteLength + lead.byteLength) words words comment :: remarks)
        (pre ++ a).byteLength ↔
      used ≤ a.length ∧ IsFree more remarks (pre ++ a).byteLength := by
  obtain ⟨x, rfl⟩ := hfound.prefix h hopener ha
  obtain ⟨rfl, -, -⟩ := (openerAt?_eq_some_iff h _ _ _ _ _).1 hopener
  have hbytes : (Text.byteLength x = 0) ↔ x.length = 0 := by
    rw [Text.byteLength_eq_zero_iff, List.length_eq_zero_iff]
  simp only [IsFree, Remark.quoting, List.forall_mem_cons, Text.byteLength_append,
    List.length_append]
  rcases Nat.le_one_iff_eq_zero_or_eq_one.1 hmore with rfl | rfl
  · simp
  · simp only [Nat.one_ne_zero, false_or]
    refine and_congr_left' ?_
    omega

theorem openersFrom_of_used (opener : Opener) (comment : String) (pre : Text) (n : Nat) (c : Char)
    (t : Text) : openersFrom opener comment pre.byteLength (n + 1) (c :: t)
      = openersFrom opener comment (pre ++ [c]).byteLength n t := by
  rw [openersFrom, Text.byteLength_append, Text.byteLength_cons, Text.byteLength_nil,
    Nat.add_zero]

theorem openersFrom_of_none {c : Char}
    (hopener : openerAt? opener (pre.byteLength == 0) (c :: t) = none) :
    openersFrom opener comment pre.byteLength 0 (c :: t)
      = openersFrom opener comment (pre ++ [c]).byteLength 0 t := by
  rw [openersFrom, hopener, Text.byteLength_append, Text.byteLength_cons, Text.byteLength_nil,
    Nat.add_zero]

theorem openersFrom_of_some {c : Char} {lead words : Text} {used : Nat}
    (hopener : openerAt? opener (pre.byteLength == 0) (c :: t) = some (lead, words, used)) :
    openersFrom opener comment pre.byteLength 0 (c :: t)
      = .quoting (pre.byteLength + lead.byteLength) words words comment
        :: openersFrom opener comment (pre ++ [c]).byteLength (used - 1) t := by
  rw [openersFrom, hopener, Text.byteLength_append, Text.byteLength_cons, Text.byteLength_nil,
    Nat.add_zero]

/-- Where an opener is read at the start, it is found with those behind it that are free of it. -/
theorem mem_cons_iff_of_openerAt? (h : opener.Recognises isOpener more) (hmore : more ≤ 1)
    {lead words : Text} {used : Nat}
    (hopener : openerAt? opener (pre.byteLength == 0) t = some (lead, words, used))
    {later : List Remark} (hlater : ∀ r, r ∈ later ↔ ∃ a,
      FoundBehind isOpener comment pre a t r ∧ used ≤ a.length ∧
        IsFree more later (pre ++ a).byteLength) (r : Remark) :
    r ∈ .quoting (pre.byteLength + lead.byteLength) words words comment :: later ↔
      ∃ a, FoundBehind isOpener comment pre a t r ∧
        IsFree more (.quoting (pre.byteLength + lead.byteLength) words words comment :: later)
          (pre ++ a).byteLength := by
  have hhere : FoundBehind isOpener comment pre [] t
      (.quoting (pre.byteLength + lead.byteLength) words words comment) :=
    (foundBehind_nil_iff h).2 ⟨lead, words, used, hopener, rfl⟩
  rw [List.mem_cons]
  constructor
  · rintro (rfl | hr)
    · refine ⟨[], hhere, .inr fun r' hr' => ?_⟩
      obtain ⟨a, hfound⟩ : ∃ a, FoundBehind isOpener comment pre a t r' := by
        rcases List.mem_cons.1 hr' with rfl | hr'
        · exact ⟨[], hhere⟩
        · obtain ⟨a, hfound, -⟩ := (hlater r').1 hr'
          exact ⟨a, hfound⟩
      have hbounds := hfound.bounds h
      rw [Text.byteLength_append] at hbounds
      rw [List.append_nil]
      omega
    · obtain ⟨a, hfound, hskip, hfree⟩ := (hlater r).1 hr
      have ha : a ≠ [] := by
        rintro rfl
        exact (used_ne_zero h hopener) (Nat.le_zero.1 hskip)
      exact ⟨a, hfound, (isFree_cons_iff h hmore hopener ha hfound _).2 ⟨hskip, hfree⟩⟩
  · rintro ⟨a, hfound, hfree⟩
    by_cases ha : a = []
    · subst ha
      obtain ⟨lead', words', used', hsame, rfl⟩ := (foundBehind_nil_iff h).1 hfound
      rw [hopener] at hsame
      cases hsame
      exact .inl rfl
    · exact .inr ((hlater r).2
        ⟨a, hfound, (isFree_cons_iff h hmore hopener ha hfound _).1 hfree⟩)

/-- **What the search finds.**  A remark is on an opener whose lead has not been used up, neither
before the search gets to the text nor by an opener that it finds. -/
theorem mem_openersFrom_iff (h : opener.Recognises isOpener more) (hmore : more ≤ 1)
    (comment : String) (pre t : Text) (skip : Nat) (r : Remark) :
    r ∈ openersFrom opener comment pre.byteLength skip t ↔
      ∃ a, FoundBehind isOpener comment pre a t r ∧ skip ≤ a.length ∧
        IsFree more (openersFrom opener comment pre.byteLength skip t) (pre ++ a).byteLength := by
  -- by induction on what is left: an opener is at its start, or behind its first character
  induction t generalizing pre skip r with
  | nil =>
    refine iff_of_false (by simp [openersFrom]) ?_
    rintro ⟨a, ⟨lead, words, right, hnil, -, hwords, -⟩, -⟩
    obtain ⟨c, rest, rfl, -⟩ := h.visible _ _ hwords
    simp at hnil
  | cons c t ih =>
    cases skip with
    | succ n =>
      rw [openersFrom_of_used, ih, exists_foundBehind_cons_iff
        (P := fun a => IsFree more _ a.byteLength) (by simp)]
      rfl
    | zero =>
      cases hopener : openerAt? opener (pre.byteLength == 0) (c :: t) with
      | none =>
        rw [openersFrom_of_none hopener, ih, exists_foundBehind_cons_iff
          (P := fun a => IsFree more _ a.byteLength)]
        rintro - hfound
        obtain ⟨lead, words, used, hsome, -⟩ := (foundBehind_nil_iff h).1 hfound
        rw [hopener] at hsome
        cases hsome
      | some found =>
        obtain ⟨lead, words, used⟩ := found
        simp only [openersFrom_of_some hopener, Nat.zero_le, true_and]
        refine mem_cons_iff_of_openerAt? h hmore hopener (fun r => ?_) r
        rw [ih, exists_foundBehind_cons_iff (P := fun a => IsFree more _ a.byteLength)
          fun hzero => absurd hzero (used_ne_zero h hopener)]

/-- Openers are found in the order of the text. -/
theorem pairwise_openersFrom (h : opener.Recognises isOpener more) (hmore : more ≤ 1)
    (comment : String) (pre t : Text) (skip : Nat) :
    (openersFrom opener comment pre.byteLength skip t).Pairwise fun a b => a.start < b.start := by
  induction t generalizing pre skip with
  | nil => exact .nil
  | cons c t ih =>
    cases skip with
    | succ n =>
      rw [openersFrom_of_used]
      exact ih _ _
    | zero =>
      cases hopener : openerAt? opener (pre.byteLength == 0) (c :: t) with
      | none =>
        rw [openersFrom_of_none hopener]
        exact ih _ _
      | some found =>
        obtain ⟨lead, words, used⟩ := found
        rw [openersFrom_of_some hopener]
        refine List.pairwise_cons.2 ⟨fun r hr => ?_, ih _ _⟩
        obtain ⟨a, hfound, -⟩ := (mem_openersFrom_iff h hmore _ _ _ _ _).1 hr
        have hlater := foundBehind_cons_iff.2 ⟨rfl, hfound⟩
        obtain ⟨x, hx⟩ := hlater.prefix h hopener (List.cons_ne_nil _ _)
        have hstart := (hlater.bounds h).1
        obtain ⟨-, -, right, -, hwords⟩ := (openerAt?_eq_some_iff h _ _ _ _ _).1 hopener
        obtain ⟨v, vs, rfl, -⟩ := h.visible _ _ hwords
        have := v.utf8Size_pos
        rw [← hx] at hstart
        simp only [Text.byteLength_append, Text.byteLength_cons] at hstart
        simp only [Remark.quoting]
        omega

/-! ## All openers of a text -/

/-- An opener stands in a text at the start of a clause. -/
structure Opens (isOpener : Text → Text → Prop) (t left words right : Text) : Prop where
  split : t = left ++ words ++ right
  clause : OpensClause left
  words : isOpener words right

/-- The search through a whole text finds the openers in front of which there is no break that has
been used up by one that it finds. -/
theorem mem_openers_iff (h : opener.Recognises isOpener more) (hmore : more ≤ 1)
    (comment : String) (t : Text) (r : Remark) :
    r ∈ openersFrom opener comment 0 0 t ↔ ∃ left words right, Opens isOpener t left words right ∧
      r = .quoting left.byteLength words words comment ∧
        (more = 0 ∨ ∀ p ∈ openersFrom opener comment 0 0 t,
          ¬ BreaksAt left (p.start + p.length)) := by
  have hmem : ∀ r, r ∈ openersFrom opener comment 0 0 t ↔ ∃ a,
      FoundBehind isOpener comment [] a t r ∧ 0 ≤ a.length ∧
        IsFree more (openersFrom opener comment 0 0 t) a.byteLength :=
    fun r => mem_openersFrom_iff h hmore comment [] t 0 r
  rw [hmem]
  constructor
  · rintro ⟨a, ⟨lead, words, right, rfl, hlead, hwords, rfl⟩, -, hfree⟩
    refine ⟨a ++ lead, words, right, ⟨by simp, ?_, hwords⟩, rfl, ?_⟩
    · rcases hlead with ⟨hstart, hblank⟩ | hbreak
      · have ha : a = [] := (Text.byteLength_eq_zero_iff _).1 (beq_iff_eq.1 hstart)
        rw [ha]
        exact .inl hblank
      · exact .inr ⟨_, (breaksAt_append_iff hbreak _).2 rfl⟩
    · refine hfree.imp_right fun hfree p hp hbreaks => ?_
      rcases hlead with ⟨hstart, hblank⟩ | hbreak
      · have ha : a = [] := (Text.byteLength_eq_zero_iff _).1 (beq_iff_eq.1 hstart)
        rw [ha] at hbreaks
        exact not_breaksAt_of_blank hblank _ hbreaks
      · exact hfree p hp ((breaksAt_append_iff hbreak _).1 hbreaks).symm
  · rintro ⟨left, words, right, ⟨rfl, hblank | ⟨place, before, b, rfl, rfl, hbreak⟩, hwords⟩, rfl,
      hfree⟩
    · refine ⟨[], ⟨left, words, right, by simp, .inl ⟨rfl, hblank⟩, hwords, rfl⟩, Nat.zero_le _,
        .inr fun p hp => ?_⟩
      obtain ⟨a, hfound, -⟩ := (hmem p).1 hp
      have hpos := (hfound.bounds h).2
      rw [Text.byteLength_nil]
      omega
    · refine ⟨before, ⟨b, words, right, by simp, .inr hbreak, hwords, rfl⟩, Nat.zero_le _, ?_⟩
      refine hfree.imp_right fun hfree p hp hends => hfree p hp ?_
      exact (breaksAt_append_iff hbreak _).2 hends.symm

/-- Where one "so" ends at the mark in front of the next, every other one is found. -/
example : (soRemarks "So. So. So it is.".toList).map (·.start) = [0, 8] := by
  decide +kernel

/-- Where one family of remarks is asked for, they are in the order in which they are found. -/
theorem mergeSort_eq_of_pairwise {remarks : List Remark}
    (h : remarks.Pairwise fun a b => a.start < b.start) :
    remarks.mergeSort Remark.earlierFirst = remarks := by
  refine List.mergeSort_of_pairwise (h.imp fun {a b} hlt => ?_)
  simp [Remark.earlierFirst, hlt]

theorem analyze_so (t : Text) : analyze t { so := true } = soRemarks t := by
  have hordered := pairwise_openersFrom recognises_soOpener (Nat.le_refl 1) "adds no meaning" [] t 0
  simpa [analyze, soRemarks] using mergeSort_eq_of_pairwise hordered

theorem analyze_thereIs (t : Text) : analyze t { thereIs := true } = thereIsRemarks t := by
  have hordered :=
    pairwise_openersFrom recognises_thereIsOpener (Nat.zero_le 1) "is unnecessary verbiage" [] t 0
  simpa [analyze, thereIsRemarks] using mergeSort_eq_of_pairwise hordered

/-- Remarks are on the openers of a text, on each of them once and in their order. -/
structure FlagsOpeners (isOpener : Text → Text → Prop) (comment : String) (t : Text)
    (remarks : List Remark) : Prop where
  mem_iff : ∀ r, r ∈ remarks ↔ ∃ left words right, Opens isOpener t left words right ∧
    r = .quoting left.byteLength words words comment
  ordered : remarks.Pairwise fun a b => a.start < b.start

/-- Remarks are on those openers of a text in front of which no other one with a remark ends at the
mark that they follow. -/
structure FlagsApart (isOpener : Text → Text → Prop) (comment : String) (t : Text)
    (remarks : List Remark) : Prop where
  mem_iff : ∀ r, r ∈ remarks ↔ ∃ left words right, Opens isOpener t left words right ∧
    r = .quoting left.byteLength words words comment ∧
      ∀ p ∈ remarks, ¬ BreaksAt left (p.start + p.length)
  ordered : remarks.Pairwise fun a b => a.start < b.start

/-- All openers of a text are flagged, "so" and "there is" each where they are asked for. -/
def FlagsAllOpeners (t : Text) : Prop :=
  FlagsOpeners IsSo "adds no meaning" t (analyze t { so := true }) ∧
    FlagsOpeners IsThereIs "is unnecessary verbiage" t (analyze t { thereIs := true })

/-- Of two openers "so" in a text one ends at the mark that the other one follows. -/
def IsCrowded (t : Text) : Prop :=
  ∃ left words right left' words' right', Opens IsSo t left words right ∧
    Opens IsSo t left' words' right' ∧ BreaksAt left' (left ++ words).byteLength

/-- Remarks in the order of the text are determined by which they are. -/
theorem eq_of_start_lt {a b : List Remark} (ha : a.Pairwise fun r p => r.start < p.start)
    (hb : b.Pairwise fun r p => r.start < p.start) (hmem : ∀ r, r ∈ a ↔ r ∈ b) : a = b := by
  have hnodup : ∀ {c : List Remark}, (c.Pairwise fun r p => r.start < p.start) → c.Nodup :=
    fun hc => hc.imp fun hlt heq => by
      rw [heq] at hlt
      exact Nat.lt_irrefl _ hlt
  refine List.Perm.eq_of_pairwise ?_ ha hb
    ((List.perm_ext_iff_of_nodup (hnodup ha) (hnodup hb)).2 hmem)
  intro r p _ _ hlt hgt
  omega

theorem FlagsOpeners.unique {remarks remarks' : List Remark}
    (h : FlagsOpeners isOpener comment t remarks) (h' : FlagsOpeners isOpener comment t remarks') :
    remarks = remarks' :=
  eq_of_start_lt h.ordered h'.ordered fun r => (h.mem_iff r).trans (h'.mem_iff r).symm

/-- A break lies in front of the clause that it opens. -/
theorem BreaksAt.lt {left : Text} {place : Nat} (h : BreaksAt left place) :
    place < left.byteLength := by
  obtain ⟨before, b, rfl, rfl, mark, blank, rfl, -⟩ := h
  have := mark.utf8Size_pos
  rw [Text.byteLength_append, Text.byteLength_cons]
  omega

/-- A flagged opener is flagged by other remarks, if none of those in front of it are new. -/
theorem FlagsApart.mem_of_agree {remarks remarks' : List Remark}
    (h : FlagsApart isOpener comment t remarks) (h' : FlagsApart isOpener comment t remarks')
    (hr : r ∈ remarks) (hagree : ∀ p ∈ remarks', p.start < r.start → p ∈ remarks) :
    r ∈ remarks' := by
  obtain ⟨left, words, right, hopens, rfl, hfree⟩ := (h.mem_iff r).1 hr
  refine (h'.mem_iff _).2 ⟨left, words, right, hopens, rfl, fun p hp hbreaks => ?_⟩
  refine hfree p (hagree p hp ?_) hbreaks
  have hlt := hbreaks.lt
  show p.start < left.byteLength
  omega

/-- Which openers are flagged apart is determined, from the start of the text on. -/
theorem FlagsApart.unique {remarks remarks' : List Remark}
    (h : FlagsApart isOpener comment t remarks) (h' : FlagsApart isOpener comment t remarks') :
    remarks = remarks' := by
  refine eq_of_start_lt h.ordered h'.ordered fun r => ?_
  induction hstart : r.start using Nat.strongRecOn generalizing r with
  | _ n ih =>
    subst hstart
    constructor
    · exact fun hr => h.mem_of_agree h' hr fun p hp hlt => (ih _ hlt p rfl).2 hp
    · exact fun hr => h'.mem_of_agree h hr fun p hp hlt => (ih _ hlt p rfl).1 hp

theorem flagsOpeners_analyze (t : Text) :
    FlagsOpeners IsThereIs "is unnecessary verbiage" t (analyze t { thereIs := true }) := by
  rw [analyze_thereIs]
  refine ⟨fun r => ?_, pairwise_openersFrom recognises_thereIsOpener (Nat.zero_le 1) _ [] t 0⟩
  rw [thereIsRemarks, mem_openers_iff recognises_thereIsOpener (Nat.zero_le 1)]
  simp only [true_or, and_true]

theorem flagsApart_analyze (t : Text) :
    FlagsApart IsSo "adds no meaning" t (analyze t { so := true }) := by
  rw [analyze_so]
  refine ⟨fun r => ?_, pairwise_openersFrom recognises_soOpener (Nat.le_refl 1) _ [] t 0⟩
  rw [soRemarks, mem_openers_iff recognises_soOpener (Nat.le_refl 1)]
  simp only [Nat.one_ne_zero, false_or]

/-- Where openers are flagged apart, they are all flagged just if no two of them stand so close. -/
theorem FlagsApart.flagsOpeners_iff {remarks : List Remark}
    (h : FlagsApart isOpener comment t remarks) :
    FlagsOpeners isOpener comment t remarks ↔
      ∀ left words right left' words' right', Opens isOpener t left words right →
        Opens isOpener t left' words' right' → ¬ BreaksAt left' (left ++ words).byteLength := by
  constructor
  · intro hall left words right left' words' right' hopens hopens' hbreaks
    have hfirst := (hall.mem_iff _).2 ⟨left, words, right, hopens, rfl⟩
    have hnext := (hall.mem_iff _).2 ⟨left', words', right', hopens', rfl⟩
    obtain ⟨left'', words'', right'', hopens'', hsame, hfree⟩ := (h.mem_iff _).1 hnext
    have hsplit := hopens'.split.symm.trans hopens''.split
    rw [List.append_assoc, List.append_assoc] at hsplit
    obtain ⟨rfl, -⟩ := Text.append_inj hsplit (congrArg Remark.start hsame)
    rw [Text.byteLength_append] at hbreaks
    exact hfree _ hfirst hbreaks
  · refine fun hapart => ⟨fun r => ?_, h.ordered⟩
    rw [h.mem_iff]
    refine exists_congr fun left' => exists_congr fun words' => exists_congr fun right' =>
      and_congr_right fun hopens' => and_iff_left fun p hp hbreaks => ?_
    obtain ⟨left, words, right, hopens, rfl, -⟩ := (h.mem_iff p).1 hp
    refine hapart left words right left' words' right' hopens hopens' ?_
    rwa [Text.byteLength_append]

/-- **Which openers are flagged.**  "There is" is flagged wherever it opens a clause. "So" is too,
but not right behind another "so" that is flagged; so all openers are flagged just if no "so"
directly follows another one. -/
theorem flagsAllOpeners_iff (t : Text) :
    (∀ remarks, FlagsOpeners IsThereIs "is unnecessary verbiage" t remarks ↔
        remarks = analyze t { thereIs := true }) ∧
      (∀ remarks, FlagsApart IsSo "adds no meaning" t remarks ↔
        remarks = analyze t { so := true }) ∧
      (FlagsAllOpeners t ↔ ¬ IsCrowded t) := by
  have hthere := flagsOpeners_analyze t
  have hso := flagsApart_analyze t
  refine ⟨fun remarks => ?_, fun remarks => ?_, ?_⟩
  · exact ⟨fun h => h.unique hthere, fun h => h ▸ hthere⟩
  · exact ⟨fun h => h.unique hso, fun h => h ▸ hso⟩
  · rw [FlagsAllOpeners, and_iff_left hthere, hso.flagsOpeners_iff]
    simp only [IsCrowded, not_exists, not_and]

/-- Of two sentences "so" that follow one another, only the first is flagged. -/
theorem not_flagsAllOpeners_of_stop : ¬ FlagsAllOpeners "So. So it is.".toList := by
  rintro ⟨hso, -⟩
  have hfound : analyze "So. So it is.".toList { so := true }
      = [.quoting 0 "So".toList "So".toList "adds no meaning"] := by
    rw [analyze_so]
    decide +kernel
  have hmissed : Remark.quoting 4 "So".toList "So".toList "adds no meaning"
      ∈ analyze "So. So it is.".toList { so := true } := by
    refine (hso.mem_iff _).2 ⟨"So. ".toList, "So".toList, " it is.".toList, ⟨rfl, ?_, ?_⟩, rfl⟩
    · exact .inr ⟨2, "So".toList, ". ".toList, rfl, rfl, '.', [' '], rfl, rfl, by simp, by simp⟩
    · exact ⟨by decide, ' ', "it is.".toList, rfl, by decide⟩
  rw [hfound] at hmissed
  revert hmissed
  decide +kernel

end CodeProse.Style
