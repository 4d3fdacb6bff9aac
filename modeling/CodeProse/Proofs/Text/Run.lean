/-
# Where the runs of a class of characters stand

The maximal runs of a class of characters stand in their text one behind the other, each with its
gap in front of it and with a character of another class, or nothing, behind it (`along_runs`). So
two runs that follow each other stand in the text with just the gap of the second one between them
(`slice_of_adjacent`). No maximal run is left out: two of them with no character of the class
between them are two runs that follow each other (`isRun_of_adjacent`, `exists_adjacent`).
-/
import CodeProse.Proofs.Text.Strand
import CodeProse.Text.Run

namespace CodeProse.Text

variable {p : Char → Bool}

/-- The runs of the characters that satisfy `p`: between them there are only others. -/
def runStrand (p : Char → Bool) : Strand Run where
  place r := ⟨r.text, r.start, r.stop⟩
  fits gap r post := r.gap = gap ∧ (∀ c ∈ gap, p c = false) ∧ r.text ≠ [] ∧
    (∀ c ∈ r.text, p c = true) ∧ ∀ c ∈ post.head?, p c = false
  ends t := ∀ c ∈ t, p c = false

/-- A run that is closed stands behind its gap. -/
theorem along_closeRun {start : Nat} {gap reversed post : Text} {rest : List Run}
    (hgap : ∀ c ∈ gap, p c = false) (hrun : ∀ c ∈ reversed, p c = true) (hne : reversed ≠ [])
    (hpost : ∀ c ∈ post.head?, p c = false)
    (hrest : (runStrand p).Along (start + gap.byteLength + reversed.byteLength) post rest) :
    (runStrand p).Along start (gap.reverse ++ reversed.reverse ++ post)
      (closeRun (start + gap.byteLength + reversed.byteLength) gap reversed ++ rest) := by
  rw [closeRun, if_neg (by simpa using hne)]
  refine ⟨gap.reverse, post, rfl, ?_, ?_, ⟨rfl, by simpa using hgap, ?_, ?_, hpost⟩, hrest⟩
  · show start + byteLength gap.reverse
      = start + gap.byteLength + reversed.byteLength - reversed.byteLength
    rw [byteLength_reverse, Nat.add_sub_cancel]
  · show start + gap.byteLength + reversed.byteLength - reversed.byteLength
      + byteLength reversed.reverse = start + gap.byteLength + reversed.byteLength
    rw [byteLength_reverse, Nat.add_sub_cancel]
  · show reversed.reverse ≠ []
    simpa using hne
  · show ∀ c ∈ reversed.reverse, p c = true
    simpa using hrun

/-- The runs of the rest of a text, after an open gap and an open run, stand in the text that begins
with the two. -/
theorem along_runsFrom {start : Nat} {gap reversed t : Text} (hgap : ∀ c ∈ gap, p c = false)
    (hrun : ∀ c ∈ reversed, p c = true) :
    (runStrand p).Along start (gap.reverse ++ reversed.reverse ++ t)
      (runsFrom p (start + gap.byteLength + reversed.byteLength) gap reversed t) := by
  induction t generalizing start gap reversed with
  | nil =>
    rw [runsFrom]
    by_cases hne : reversed = []
    · subst hne
      show ∀ c ∈ gap.reverse ++ [] ++ [], p c = false
      simpa using hgap
    · have hends : (runStrand p).Along (start + gap.byteLength + reversed.byteLength) [] [] := by
        intro c hc
        cases hc
      have hclosed := along_closeRun hgap hrun hne (by simp) hends
      rwa [List.append_nil (closeRun ..)] at hclosed
  | cons c t ih =>
    rw [runsFrom]
    split
    case isTrue hc =>
      -- the open run grows
      have hgrown := @ih start gap (c :: reversed) hgap (by simpa using ⟨hc, hrun⟩)
      simpa [Nat.add_assoc, Nat.add_comm, Nat.add_left_comm] using hgrown
    case isFalse hc =>
      have hc : p c = false := by simpa using hc
      split
      case isTrue hempty =>
        -- no run is open, and the gap grows
        obtain rfl := List.isEmpty_iff.1 hempty
        have hgrown := @ih start (c :: gap) [] (by simpa using ⟨hc, hgap⟩) hrun
        simpa [Nat.add_assoc, Nat.add_comm, Nat.add_left_comm] using hgrown
      case isFalse hne =>
        refine along_closeRun hgap hrun (by simpa using hne) (by simpa using hc) ?_
        have hnext := @ih (start + gap.byteLength + reversed.byteLength) [c] []
          (by simpa using hc) (by simp)
        simpa [Nat.add_assoc] using hnext

/-- **The runs of a text stand in it one behind the other.** -/
theorem along_runs (p : Char → Bool) (t : Text) : (runStrand p).Along 0 t (t.runs p) :=
  @along_runsFrom p 0 [] [] t (by simp) (by simp)

/-- Two runs that follow each other stand in the text with the gap of the second between them. -/
theorem slice_of_adjacent {t : Text} {a b : Run} (hab : [a, b] <:+: t.runs p) :
    slice? a.start b.stop t = some (a.text ++ b.gap ++ b.text) := by
  have halong : (runStrand p).Along (byteLength []) t (t.runs p) := along_runs p t
  obtain ⟨front, back, hruns⟩ := hab
  rw [← hruns, List.append_assoc] at halong
  obtain ⟨pre, rest, hsplit, gap, post, rfl, hstart, hstop, -, hnext⟩ := halong.of_append
  obtain ⟨gap', post', rfl, hstart', hstop', ⟨hgap, -⟩, -⟩ := hnext
  simp only [runStrand] at hstart hstop hstart' hstop'
  refine (slice?_eq_some_iff _ _ _ _).2 ⟨pre ++ gap, post', ?_, ?_, ?_⟩
  · show t = _
    rw [← List.nil_append t, hsplit, hgap]
    simp [runStrand]
  · rw [byteLength_append, hstart]
  · simp only [byteLength_append, hgap]
    omega

/-- A run is not empty. -/
theorem text_ne_nil_of_mem_runs {t : Text} {r : Run} (hr : r ∈ t.runs p) : r.text ≠ [] := by
  obtain ⟨gap, post, -, -, hne, -⟩ := (along_runs p t).exists_fits r hr
  exact hne

/-! ## All maximal runs -/

/-- What stands between two parts of a text is a maximal run of the characters that satisfy `p`. -/
structure IsRun (p : Char → Bool) (left word right : Text) : Prop where
  ne_nil : word ≠ []
  all : ∀ c ∈ word, p c = true
  before : ∀ c, left.getLast? = some c → p c = false
  after : ∀ c, right.head? = some c → p c = false

/-- A text does not go on with the run that another one ends with. -/
def StartsAfresh (p : Char → Bool) (left right : Text) : Prop :=
  ∀ c d, left.getLast? = some c → right.head? = some d → p c = false ∨ p d = false

/-- The first of some runs along a text is a maximal run, and the others are along what follows. -/
theorem isRun_of_along {left t : Text} {r : Run} {rest : List Run}
    (h : (runStrand p).Along left.byteLength t (r :: rest)) (hfresh : StartsAfresh p left t) :
    ∃ post, t = r.gap ++ r.text ++ post ∧ (left ++ r.gap).byteLength = r.start ∧
      (left ++ r.gap ++ r.text).byteLength = r.stop ∧ (∀ c ∈ r.gap, p c = false) ∧
      IsRun p (left ++ r.gap) r.text post ∧
      (runStrand p).Along (left ++ r.gap ++ r.text).byteLength post rest := by
  obtain ⟨gap, post, hsplit, hstart, hstop, ⟨rfl, hgap, hne, hall, hpost⟩, hrest⟩ := h
  simp only [runStrand] at hsplit hstart hstop
  have hrest : (runStrand p).Along r.stop post rest := hrest
  have hends : (left ++ r.gap ++ r.text).byteLength = r.stop := by
    simp only [byteLength_append]
    omega
  refine ⟨post, hsplit, by rw [byteLength_append, hstart], hends, hgap, ⟨hne, hall, ?_, ?_⟩, ?_⟩
  · intro c hc
    obtain ⟨d, word, hword⟩ := List.exists_cons_of_ne_nil hne
    have hd := hall d (by simp [hword])
    rcases List.eq_nil_or_concat r.gap with hnil | ⟨gap, e, hconcat⟩
    · -- without a gap the text itself starts with the run
      rw [hnil, List.append_nil] at hc
      have hhead : t.head? = some d := by simp [hsplit, hnil, hword]
      refine (hfresh c d hc hhead).resolve_right ?_
      simp [hd]
    · rw [hconcat, List.concat_eq_append, ← List.append_assoc, List.getLast?_concat] at hc
      exact hgap c (by simp [hconcat, Option.some.inj hc])
  · intro c hc
    exact hpost c hc
  · rwa [hends]

/-- Behind some of the runs along a text, the others stand along the rest of it. -/
theorem exists_of_along_append {left t : Text} {front back : List Run}
    (h : (runStrand p).Along left.byteLength t (front ++ back)) (hfresh : StartsAfresh p left t) :
    ∃ left' t', left ++ t = left' ++ t' ∧ (runStrand p).Along left'.byteLength t' back ∧
      StartsAfresh p left' t' := by
  induction front generalizing left t with
  | nil => exact ⟨left, t, rfl, h, hfresh⟩
  | cons r front ih =>
    obtain ⟨post, rfl, -, -, -, hrun, hrest⟩ := isRun_of_along h hfresh
    have hnext : StartsAfresh p (left ++ r.gap ++ r.text) post := by
      intro c d _ hd
      exact .inr (hrun.after d hd)
    obtain ⟨left', t', hsplit, halong, hfresh'⟩ := ih hrest hnext
    exact ⟨left', t', by rw [← hsplit]; simp, halong, hfresh'⟩

/-- A maximal run of a text is among the runs along it, and what follows it has the later ones. -/
theorem exists_run_of_along {pre t left word right : Text} {runs : List Run}
    (h : (runStrand p).Along pre.byteLength t runs) (ht : t = left ++ word ++ right)
    (hword : IsRun p left word right) :
    ∃ front r back, runs = front ++ r :: back ∧ r.text = word ∧
      r.start = (pre ++ left).byteLength ∧ r.stop = (pre ++ left ++ word).byteLength ∧
      (runStrand p).Along r.stop right back := by
  obtain ⟨c, w, hw⟩ := List.exists_cons_of_ne_nil hword.ne_nil
  have hc := hword.all c (by simp [hw])
  -- by induction on the runs: the maximal run is the first of them, or lies behind it
  induction runs generalizing pre t left with
  | nil =>
    have hnone := h c (by simp [ht, hw])
    rw [hc] at hnone
    cases hnone
  | cons r rest ih =>
    obtain ⟨gap, post, hsplit, hstart, hstop, ⟨-, hgap, hne, hall, hpost⟩, hrest⟩ := h
    simp only [runStrand] at hsplit hstart hstop hne hall
    have hrest : (runStrand p).Along r.stop post rest := hrest
    have hends : (pre ++ gap ++ r.text).byteLength = r.stop := by
      simp only [byteLength_append]
      omega
    obtain ⟨x, rfl, hx⟩ : ∃ x, left = gap ++ x ∧ r.text ++ post = x ++ (word ++ right) := by
      rw [hsplit, List.append_assoc, List.append_assoc] at ht
      rcases List.append_eq_append_iff.1 ht with ⟨x, hleft, hx⟩ | ⟨x, hleft, hx⟩
      · exact ⟨x, hleft, hx⟩
      · cases x with
        | nil => exact ⟨[], by simpa using hleft.symm, by simpa using hx.symm⟩
        | cons d x =>
          -- the run would begin with a character of the gap
          have hd := hgap d (by simp [hleft])
          rw [hw, List.cons_append, List.cons_append] at hx
          rw [← (List.cons.inj hx).1, hc] at hd
          cases hd
    rcases List.eq_nil_or_concat x with rfl | ⟨y, d, hconcat⟩
    · rw [List.nil_append] at hx
      obtain ⟨hsame, rfl⟩ := append_inj_of_head hx hall hword.all hpost hword.after
      rw [hsame] at hends
      refine ⟨[], r, rest, rfl, hsame, ?_, ?_, hrest⟩
      · rw [List.append_nil, byteLength_append, hstart]
      · rw [← hends, List.append_nil, List.append_assoc pre]
    · rw [List.concat_eq_append] at hconcat
      have hd : p d = false := hword.before d (by simp [hconcat])
      rcases List.append_eq_append_iff.1 hx with ⟨z, rfl, hz⟩ | ⟨z, hz, -⟩
      · rw [← hends] at hrest
        have hlater : IsRun p z word right := by
          refine ⟨hword.ne_nil, hword.all, ?_, hword.after⟩
          intro e he
          apply hword.before
          rw [List.getLast?_append, List.getLast?_append, he]
          rfl
        obtain ⟨front, r', back, hruns, htext, hplace, hplace', halong⟩ :=
          ih hrest (by rw [hz, List.append_assoc]) hlater
        refine ⟨r :: front, r', back, by rw [hruns]; rfl, htext, ?_, ?_, halong⟩
        · rw [hplace]
          simp
        · rw [hplace']
          simp
      · -- the character in front of the run would be in the run before it
        have := hall d (by simp [hz, hconcat])
        rw [hd] at this
        cases this

/-- A run of a text is a maximal run that stands between its offsets. -/
theorem isRun_of_mem_runs {t : Text} {r : Run} (hr : r ∈ t.runs p) :
    ∃ left right, t = left ++ r.text ++ right ∧ left.byteLength = r.start ∧
      (left ++ r.text).byteLength = r.stop ∧ IsRun p left r.text right := by
  obtain ⟨front, back, hruns⟩ := List.append_of_mem hr
  have halong : (runStrand p).Along (byteLength []) t (front ++ r :: back) :=
    hruns ▸ along_runs p t
  obtain ⟨left, t', hsplit, hrest, hfresh⟩ := exists_of_along_append halong (by simp [StartsAfresh])
  obtain ⟨post, rfl, hstart, hstop, -, hrun, -⟩ := isRun_of_along hrest hfresh
  exact ⟨left ++ r.gap, post, by rw [← List.nil_append t, hsplit]; simp, hstart, hstop, hrun⟩

/-- The runs of a text are in order. -/
theorem pairwise_runs (p : Char → Bool) (t : Text) :
    (t.runs p).Pairwise fun a b => a.start < b.start := by
  refine (along_runs p t).pairwise.imp_of_mem ?_
  intro a b ha _ hle
  obtain ⟨left, right, -, hstart, hstop, hrun⟩ := isRun_of_mem_runs ha
  have hpos := mt (byteLength_eq_zero_iff a.text).1 hrun.ne_nil
  have hle : a.stop ≤ b.start := hle
  rw [byteLength_append] at hstop
  omega

/-- Runs that follow each other are maximal runs, with none of their characters between them. -/
theorem isRun_of_adjacent {t : Text} {a b : Run} (hab : [a, b] <:+: t.runs p) :
    ∃ left right, t = left ++ a.text ++ b.gap ++ b.text ++ right ∧ left.byteLength = a.start ∧
      IsRun p left a.text (b.gap ++ b.text ++ right) ∧
      IsRun p (left ++ a.text ++ b.gap) b.text right := by
  obtain ⟨front, back, hruns⟩ := hab
  have halong : (runStrand p).Along (byteLength []) t (front ++ (a :: b :: back)) := by
    have halong := along_runs p t
    rwa [← hruns, List.append_assoc] at halong
  obtain ⟨left, t', hsplit, hrest, hfresh⟩ := exists_of_along_append halong (by simp [StartsAfresh])
  obtain ⟨post, rfl, hstart, -, -, ha, hrest⟩ := isRun_of_along hrest hfresh
  obtain ⟨post', rfl, -, -, -, hb, -⟩ := isRun_of_along hrest fun _ d _ hd => .inr (ha.after d hd)
  exact ⟨left ++ a.gap, post', by rw [← List.nil_append t, hsplit]; simp, hstart, ha, hb⟩

/-- Maximal runs with none of their characters between them follow each other. -/
theorem exists_adjacent {t left word gap next right : Text}
    (ht : t = left ++ word ++ gap ++ next ++ right)
    (hword : IsRun p left word (gap ++ next ++ right))
    (hnext : IsRun p (left ++ word ++ gap) next right) (hgap : ∀ c ∈ gap, p c = false) :
    ∃ a b, [a, b] <:+: t.runs p ∧ a.text = word ∧ b.gap = gap ∧ b.text = next ∧
      a.start = left.byteLength ∧ a.stop = (left ++ word).byteLength ∧
      b.start = (left ++ word ++ gap).byteLength := by
  have halong : (runStrand p).Along (byteLength []) t (t.runs p) := along_runs p t
  have hsplit : t = left ++ word ++ (gap ++ next ++ right) := by rw [ht]; simp
  obtain ⟨front, a, back, hruns, htext, hstart, hstop, hback⟩ :=
    exists_run_of_along halong hsplit hword
  cases back with
  | nil =>
    obtain ⟨c, w, hw⟩ := List.exists_cons_of_ne_nil hnext.ne_nil
    have hnone := hback c (by simp [hw])
    rw [hnext.all c (by simp [hw])] at hnone
    cases hnone
  | cons b back =>
    obtain ⟨gap', post, hrest, hplace, -, ⟨rfl, hgap', hne, hall, hpost⟩, -⟩ := hback
    simp only [runStrand] at hrest hplace hne hall
    have hhead : ∀ {u v : Text}, u ≠ [] → (∀ c ∈ u, p c = true) →
        ∀ x, (u ++ v).head? = some x → (!p x) = false := by
      intro u v hu hall x hx
      obtain ⟨d, u, rfl⟩ := List.exists_cons_of_ne_nil hu
      rw [← Option.some.inj hx]
      simpa using hall d (by simp)
    rw [List.append_assoc, List.append_assoc] at hrest
    obtain ⟨rfl, hwords⟩ := append_inj_of_head (p := fun c => !p c) hrest
      (by simpa using hgap) (by simpa using hgap') (hhead hnext.ne_nil hnext.all) (hhead hne hall)
    obtain ⟨rfl, -⟩ := append_inj_of_head hwords hnext.all hall hnext.after hpost
    refine ⟨a, b, ⟨front, back, by rw [hruns]; simp⟩, htext, rfl, rfl, hstart, hstop, ?_⟩
    rw [← hplace, hstop, List.nil_append, byteLength_append _ b.gap]

end CodeProse.Text
