/-
# Editing in place stays in bounds

A run of turns over a string comes to its end without a fault, all its turns stay in bounds, and it
does what the run of edits over a draft does (`exists_run_eq`).

A draft is a string with a floor: the untouched part ends at the floor (`State.ofDraft`). The string
begins with the untouched part, and so does the text as given, so a range below the floor fits the
one exactly if it fits the other. One turn of a loop follows one step over drafts (`FollowsStep`),
for fixes as for the edits of issues, and by induction over its items the loop follows the whole run.
-/
import CodeProse.Proofs.InPlace
import CodeProse.Proofs.SentenceCorrections

namespace CodeProse.InPlace

/-! ## Slices and sums -/

theorem add_eq {a b : Nat} (h : a + b < 2 ^ 64) : add a b = .ok (a + b) :=
  if_pos h

theorem sub_eq {a b : Nat} (h : b ≤ a) : sub a b = .ok (a - b) :=
  if_pos h

theorem slice_eq {t m : Text} {start stop : Nat} (h : Text.slice? start stop t = some m) :
    slice t start stop = .ok m := by
  rw [slice, h]

section Split

variable {t left gone right : Text} {start stop : Nat}

theorem slice_front (ht : t = left ++ gone ++ right) (hstart : left.byteLength = start) :
    slice t 0 start = .ok left :=
  slice_eq ((Text.slice?_eq_some_iff _ _ _ _).2 ⟨[], gone ++ right, by simp [ht], rfl, by omega⟩)

theorem slice_back (ht : t = left ++ gone ++ right) (hstart : left.byteLength = start)
    (hstop : start + gone.byteLength = stop) : slice t stop t.byteLength = .ok right := by
  refine slice_eq ((Text.slice?_eq_some_iff _ _ _ _).2 ⟨left ++ gone, [], by simp [ht], ?_, ?_⟩)
  · rw [Text.byteLength_append]
    omega
  · simp only [ht, Text.byteLength_append]
    omega

theorem slice_middle (ht : t = left ++ gone ++ right) (hstart : left.byteLength = start)
    (hstop : start + gone.byteLength = stop) : Text.slice? start stop t = some gone :=
  (Text.slice?_eq_some_iff _ _ _ _).2 ⟨left, right, ht, hstart, hstop⟩

/-- A range that fits a text can be replaced. -/
theorem replaceRange_eq (ht : t = left ++ gone ++ right) (hstart : left.byteLength = start)
    (hstop : start + gone.byteLength = stop) (new : Text) :
    replaceRange t start stop new = .ok (left ++ new ++ right) := by
  rw [replaceRange, slice_eq (slice_middle ht hstart hstop), slice_front ht hstart,
    slice_back ht hstart hstop]
  rfl

/-- The range of a deletion is found without a fault. -/
theorem deletionRange_eq (ht : t = left ++ gone ++ right) (hstart : left.byteLength = start)
    (hstop : start + gone.byteLength = stop) (hsmall : stop + 1 < 2 ^ 64) :
    deletionRange t start stop = .ok (CodeProse.deletionRange t start stop) := by
  have hzero : (start == 0) = left.isEmpty := by
    rw [← hstart, Bool.eq_iff_iff, beq_iff_eq, Text.byteLength_eq_zero_iff, List.isEmpty_iff]
  rw [CodeProse.deletionRange_eq ht hstart hstop, deletionRange, slice_front ht hstart,
    slice_back ht hstart hstop, Draft.closeGap]
  simp only [ok_bind, hzero]
  split
  case isTrue hblank =>
    -- one of two blanks goes, the one behind the range
    obtain ⟨right', rfl⟩ : ∃ right', right = ' ' :: right' := by
      simp only [Bool.and_eq_true, beq_iff_eq] at hblank
      exact List.head?_eq_some_iff.1 hblank.1
    rw [add_eq hsmall]
    simp [hstart, show ' '.utf8Size = 1 from rfl]
  case isFalse =>
    split
    case isTrue hpunct =>
      -- the blank in front of punctuation goes
      simp only [Bool.and_eq_true, beq_iff_eq] at hpunct
      obtain ⟨left', rfl⟩ := List.getLast?_eq_some_iff.1 hpunct.1
      have hone : Text.byteLength left' + 1 = start := by
        rw [← hstart, Text.byteLength_append]
        rfl
      rw [sub_eq (by omega)]
      simp only [ok_bind, pure_eq_ok, List.dropLast_concat, Nat.sub_self, Nat.add_zero]
      rw [show start - (start - Text.byteLength left') = start - 1 by omega]
    case isFalse => simp [hstart]

end Split

/-! ## States and drafts -/

/-- The string that a draft stands for, with the floor where its untouched part ends. -/
def State.ofDraft (d : Draft) : State :=
  ⟨d.text, d.before.byteLength⟩

theorem ofText_eq_ofDraft (t : Text) : State.ofText t = .ofDraft (.ofText t) := by
  simp [State.ofText, State.ofDraft]

/-- A turn stays in bounds: the string that it finds agrees with the given text down to the floor,
the floor is a boundary of both, and the range that it replaces fits the string. -/
structure Turn.InBounds {α : Type} (given : Text) (turn : Turn α) : Prop where
  /-- The floor lies within both texts. -/
  floor_le : turn.state.floor ≤ given.byteLength ∧ turn.state.floor ≤ turn.state.text.byteLength
  /-- It lies between characters of both. -/
  boundary : Text.isBoundary turn.state.floor given = true ∧
    Text.isBoundary turn.state.floor turn.state.text = true
  /-- What comes before it is the same in both. -/
  agrees : Text.slice? 0 turn.state.floor turn.state.text
    = Text.slice? 0 turn.state.floor given
  /-- What is replaced lies within the string, between characters. -/
  replaced : ∀ r, turn.replaced = some r → r.1 ≤ r.2 ∧ r.2 ≤ turn.state.text.byteLength ∧
    Text.isBoundary r.1 turn.state.text = true ∧ Text.isBoundary r.2 turn.state.text = true

theorem before_prefix_text (d : Draft) : d.before <+: d.text :=
  ⟨d.after, rfl⟩

theorem slice?_zero_of_prefix {u t : Text} (h : u <+: t) :
    Text.slice? 0 u.byteLength t = some u := by
  obtain ⟨more, rfl⟩ := h
  exact (Text.slice?_eq_some_iff _ _ _ _).2 ⟨[], more, rfl, rfl, Nat.zero_add _⟩

/-- The state of a draft of a text is in bounds. -/
theorem inBounds_ofDraft {α : Type} {given : Text} {d : Draft} (hbegins : d.before <+: given)
    {replaced : Option (Nat × Nat)} (item : α)
    (hrange : ∀ r, replaced = some r → (Text.slice? r.1 r.2 d.text).isSome = true) :
    Turn.InBounds given ⟨item, .ofDraft d, replaced⟩ := by
  have hgiven := slice?_zero_of_prefix hbegins
  have htext := slice?_zero_of_prefix (before_prefix_text d)
  constructor
  case floor_le => exact ⟨(Text.le_of_slice?_eq_some hgiven).2, (Text.le_of_slice?_eq_some htext).2⟩
  case boundary => exact ⟨(Text.isBoundary_of_slice? hgiven).2, (Text.isBoundary_of_slice? htext).2⟩
  case agrees => exact htext.trans hgiven.symm
  case replaced =>
    intro r hr
    obtain ⟨hle, hstart, hstop⟩ := (Text.isSome_slice?_iff _ _ _).1 (hrange r hr)
    exact ⟨hle, Text.le_of_isBoundary hstop, hstart, hstop⟩

/-- Below the end of the beginning of a text, both have the same boundaries. -/
theorem isBoundary_of_begins {u t : Text} (h : u <+: t) {n : Nat} (hle : n ≤ u.byteLength) :
    Text.isBoundary n t = Text.isBoundary n u := by
  obtain ⟨more, rfl⟩ := h
  rw [Bool.eq_iff_iff]
  constructor
  · intro hcut
    obtain ⟨⟨a, q⟩, hcut⟩ := Option.isSome_iff_exists.1 hcut
    obtain ⟨hsplit, rfl⟩ := (Text.cutAt?_eq_some_iff _ _ _ _).1 hcut
    obtain ⟨m, rfl, -⟩ := Text.append_split_of_le hsplit.symm hle
    exact Option.isSome_iff_exists.2 ⟨_, Text.cutAt?_append a m⟩
  · intro hcut
    obtain ⟨⟨a, m⟩, hcut⟩ := Option.isSome_iff_exists.1 hcut
    obtain ⟨rfl, rfl⟩ := (Text.cutAt?_eq_some_iff _ _ _ _).1 hcut
    rw [Text.isBoundary, List.append_assoc, Text.cutAt?_append]
    rfl

/-- Whether a range lies in the beginning of a text can be seen from the text, and from where its
beginning ends. -/
theorem slice?_prefix_eq_none_iff {u t : Text} (h : u <+: t) (start stop : Nat) :
    Text.slice? start stop u = none ↔
      stop < start ∨ u.byteLength < stop ∨ Text.isBoundary start t = false ∨
        Text.isBoundary stop t = false := by
  have hsome := Text.isSome_slice?_iff start stop u
  rw [← Option.not_isSome_iff_eq_none, hsome]
  constructor
  · intro hnot
    by_cases hle : start ≤ stop ∧ stop ≤ u.byteLength
    · rw [isBoundary_of_begins h (Nat.le_trans hle.1 hle.2), isBoundary_of_begins h hle.2]
      cases hstart : Text.isBoundary start u with
      | false => exact .inr (.inr (.inl rfl))
      | true => exact .inr (.inr (.inr (by simpa [hle.1, hstart] using hnot)))
    · omega
  · rintro hwhy ⟨hle, hstart, hstop⟩
    have hend := Text.le_of_isBoundary hstop
    rw [isBoundary_of_begins h (Nat.le_trans hle hend), isBoundary_of_begins h hend, hstart,
      hstop] at hwhy
    simp at hwhy
    omega

/-! ## One turn -/

/-- Replacing a range of the string of a draft ends its untouched part where the range starts. -/
theorem replace_ofDraft {d : Draft} {left gone right : Text} {start stop : Nat}
    (ht : d.text = left ++ gone ++ right) (hstart : left.byteLength = start)
    (hstop : start + gone.byteLength = stop) (new : Text) :
    (State.ofDraft d).replace (start, stop) new = .ok (.ofDraft ⟨left, new ++ right⟩) := by
  rw [State.replace, State.ofDraft, replaceRange_eq ht hstart hstop]
  simp [State.ofDraft, Draft.text, hstart]

/-- A turn of a loop does to the string of a draft what a step does to the draft: nothing if there
is no next draft, and otherwise it replaces a range that fits. -/
def FollowsStep {α : Type} (range : State → α → Except Fault (Option (Nat × Nat))) (new : α → Text)
    (step : Draft → α → Option Draft) (d : Draft) (item : α) : Prop :=
  match step d item with
  | none => range (.ofDraft d) item = .ok none
  | some d' => d'.before <+: d.before ∧
    ∃ r, range (.ofDraft d) item = .ok (some r) ∧ (Text.slice? r.1 r.2 d.text).isSome = true ∧
      (State.ofDraft d).replace r (new item) = .ok (.ofDraft d')

/-- The step of a loop over fixes. -/
def fixStep (d : Draft) (f : Fix) : Option Draft :=
  d.replace? f.start f.stop f.text

theorem followsStep_fix (d : Draft) (f : Fix) : FollowsStep fixRange (·.text) fixStep d f := by
  have hguard := slice?_prefix_eq_none_iff (before_prefix_text d) f.start f.stop
  rw [FollowsStep, fixStep, fixRange]
  cases hd : d.replace? f.start f.stop f.text with
  | none => exact if_pos (hguard.1 ((Draft.replace?_eq_none_iff _ _ _ _).1 hd))
  | some d' =>
    obtain ⟨left, gone, right, hb, hl, hg, rfl⟩ := (Draft.replace?_eq_some_iff _ _ _ _ _).1 hd
    have hslice : Text.slice? f.start f.stop d.before = some gone := slice_middle hb hl hg
    have ht := Draft.text_of_split hb
    refine ⟨⟨gone ++ right, by simp [hb]⟩, (f.start, f.stop), ?_, ?_, ?_⟩
    · refine if_neg fun hwhy => ?_
      rw [hguard.2 hwhy] at hslice
      cases hslice
    · rw [slice_middle ht hl hg]
      rfl
    · rw [replace_ofDraft ht hl hg, List.append_assoc]

/-- The range that a deletion takes of the string of a draft, and what it leaves, are those of the
draft. -/
theorem delete_ofDraft {d : Draft} {left gone right : Text} {start stop : Nat}
    (ht : d.text = left ++ gone ++ right) (hstart : left.byteLength = start)
    (hstop : start + gone.byteLength = stop) (hsmall : stop + 1 < 2 ^ 64) :
    (Draft.closeGap left right).1 <+: left ∧
      ∃ r, deletionRange d.text start stop = .ok r ∧
        (Text.slice? r.1 r.2 d.text).isSome = true ∧
        (State.ofDraft d).replace r []
          = .ok (.ofDraft ⟨(Draft.closeGap left right).1, (Draft.closeGap left right).2⟩) := by
  rw [deletionRange_eq ht hstart hstop hsmall]
  rcases deletionRange_cases ht hstart hstop with
    ⟨hrange, hq⟩ | ⟨right', rfl, hrange, hq, -⟩ | ⟨left', rfl, hrange, hq, -⟩
  · rw [hrange, hq]
    refine ⟨List.prefix_refl _, _, rfl, ?_, replace_ofDraft ht hstart hstop []⟩
    rw [slice_middle ht hstart hstop]
    rfl
  · -- the blank behind the range goes with it
    have ht' : d.text = left ++ (gone ++ [' ']) ++ right' := by simp [ht]
    have hstop' : start + (gone ++ [' ']).byteLength = stop + 1 := by
      rw [Text.byteLength_append, ← Nat.add_assoc, hstop]
      rfl
    rw [hrange, hq]
    refine ⟨List.prefix_refl _, _, rfl, ?_, replace_ofDraft ht' hstart hstop' []⟩
    rw [slice_middle ht' hstart hstop']
    rfl
  · -- the blank in front of the range goes with it
    have ht' : d.text = left' ++ (' ' :: gone) ++ right := by simp [ht]
    have hstop' : left'.byteLength + Text.byteLength (' ' :: gone) = stop := by
      rw [← hstop, ← hstart, Text.byteLength_append, Nat.add_assoc]
      rfl
    rw [hrange, hq]
    refine ⟨List.prefix_append _ _, _, rfl, ?_, replace_ofDraft ht' rfl hstop' []⟩
    rw [slice_middle ht' rfl hstop']
    rfl

theorem followsStep_edit {given : Text} {d : Draft} {e : Correction.Edit}
    (hbegins : d.before <+: given) (hsmall : e.stop < 2 ^ 63) :
    FollowsStep (editRange given) (·.text) Correction.make? d e := by
  have hguard := slice?_prefix_eq_none_iff hbegins e.start e.stop
  rw [FollowsStep, editRange]
  cases hd : Correction.make? d e with
  | none =>
    refine if_pos ?_
    rcases (Correction.make?_eq_none_iff d e).1 hd with hle | hslice
    · exact .inl hle
    · exact (hguard.1 hslice).imp_left Nat.le_of_lt
  | some d' =>
    have hfits : ¬ (e.stop ≤ e.start ∨ Text.slice? e.start e.stop d.before = none) := by
      rw [← Correction.make?_eq_none_iff, hd]
      simp
    obtain ⟨hlt, hslice⟩ := not_or.1 hfits
    rw [hguard] at hslice
    rw [if_neg fun hwhy => hwhy.elim hlt fun hwhy => hslice (.inr hwhy)]
    obtain ⟨left, gone, right, hb, hl, hg, -, hmade⟩ := Correction.make?_cases hd
    have ht := Draft.text_of_split hb
    rcases hmade with ⟨htext, rfl⟩ | ⟨htext, rfl⟩
    · obtain ⟨hleft, r, hrange, hr, hreplace⟩ := delete_ofDraft ht hl hg (by omega)
      rw [htext, List.isEmpty_nil, if_pos rfl]
      refine ⟨hleft.trans ⟨gone ++ right, by simp [hb]⟩, r, ?_, hr, hreplace⟩
      show (some · ) <$> deletionRange d.text e.start e.stop = _
      rw [hrange]
      rfl
    · rw [if_neg (mt List.isEmpty_iff.1 htext)]
      refine ⟨⟨gone ++ right, by simp [hb]⟩, (e.start, e.stop), rfl, ?_, ?_⟩
      · rw [slice_middle ht hl hg]
        rfl
      · rw [replace_ofDraft ht hl hg, List.append_assoc]

/-! ## The loop -/

/-- Goes through a row of items, of which each may lead to a new draft, and collects those that do.
-/
def goThrough {α : Type} (step : Draft → α → Option Draft) : Draft → List α → Draft × List α
  | d, [] => (d, [])
  | d, item :: rest =>
    match step d item with
    | some d' => ((goThrough step d' rest).1, item :: (goThrough step d' rest).2)
    | none => goThrough step d rest

theorem applyAll_eq_goThrough (d : Draft) (edits : List Correction.Edit) :
    Correction.applyAll d edits
      = ((goThrough Correction.make? d edits).1,
        (goThrough Correction.make? d edits).2.map (·.place)) := by
  induction edits generalizing d with
  | nil => rfl
  | cons e rest ih =>
    rw [Correction.applyAll, goThrough]
    cases Correction.make? d e with
    | none => exact ih d
    | some d' => simp only [ih d', List.map_cons]

theorem applyEach_eq_goThrough (d : Draft) (fixes : List Fix) :
    applyEach d fixes = ((goThrough fixStep d fixes).1, (goThrough fixStep d fixes).2.length) := by
  induction fixes generalizing d with
  | nil => rfl
  | cons f rest ih =>
    rw [applyEach, goThrough, fixStep]
    cases d.replace? f.start f.stop f.text with
    | none => exact ih d
    | some d' => simp only [ih d', List.length_cons]

/-- **A loop whose turns follow steps over drafts has no fault and stays in bounds**, and comes to
what the steps come to. -/
theorem exists_run_eq {α : Type} {given : Text}
    {range : State → α → Except Fault (Option (Nat × Nat))} {new : α → Text}
    {step : Draft → α → Option Draft} {d : Draft} {items : List α} (hbegins : d.before <+: given)
    (hstep : ∀ d : Draft, d.before <+: given → ∀ item ∈ items, FollowsStep range new step d item) :
    ∃ turns, run range new (.ofDraft d) items = .ok (turns, .ofDraft (goThrough step d items).1) ∧
      used turns = (goThrough step d items).2 ∧ ∀ turn ∈ turns, turn.InBounds given := by
  -- by induction on the items; the untouched part stays a beginning of the given text
  induction items generalizing d with
  | nil => exact ⟨[], rfl, rfl, by simp⟩
  | cons item rest ih =>
    have hfollows := hstep d hbegins item List.mem_cons_self
    have hrest := fun d hd item hitem => hstep d hd item (List.mem_cons_of_mem _ hitem)
    rw [FollowsStep] at hfollows
    rw [run, goThrough]
    cases hd : step d item with
    | none =>
      rw [hd] at hfollows
      obtain ⟨turns, hrun, hused, hbounds⟩ := ih hbegins hrest
      refine ⟨⟨item, .ofDraft d, none⟩ :: turns, ?_, ?_, ?_⟩
      · simp only [hfollows, ok_bind, pure_eq_ok, hrun]
      · simpa [used] using hused
      · intro turn hturn
        rcases List.mem_cons.1 hturn with rfl | hturn
        · exact inBounds_ofDraft hbegins item (by simp)
        · exact hbounds turn hturn
    | some d' =>
      rw [hd] at hfollows
      obtain ⟨hbefore, r, hrange, hr, hreplace⟩ := hfollows
      obtain ⟨turns, hrun, hused, hbounds⟩ := ih (hbefore.trans hbegins) hrest
      refine ⟨⟨item, .ofDraft d, some r⟩ :: turns, ?_, ?_, ?_⟩
      · simp only [hrange, ok_bind, pure_eq_ok, hreplace, hrun]
      · simpa [used] using hused
      · intro turn hturn
        rcases List.mem_cons.1 hturn with rfl | hturn
        · exact inBounds_ofDraft hbegins item fun r' hr' => Option.some.inj hr' ▸ hr
        · exact hbounds turn hturn

end CodeProse.InPlace
