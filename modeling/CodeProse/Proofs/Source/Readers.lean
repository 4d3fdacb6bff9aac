/-
# What the readers of the scanner read

Each reader of the scanner takes a text up to its closing delimiter. The lemmas below say how the
text splits there, and that what a reader reads does not depend on what follows the delimiter.

A template is read in turns: a literal fragment, then a substitution (`fragmentBody`,
`substitutionBody`). The cases of `template_cases` say so.
-/
import CodeProse.Proofs.Text.Search
import CodeProse.Source.Scan

namespace CodeProse.Source

open Text (dropStart?_eq_some_iff)

/-! ## Where a comment ends -/

/-- A comment does not end at a character of its text. -/
theorem dropStart?_close_cons {c : Char} {new : Text} (more : Text)
    (h : ¬ ['*', '/'] <:+: c :: new) (hmore : more.head? ≠ some '/') :
    Text.dropStart? ['*', '/'] (c :: (new ++ more)) = none := by
  rw [Option.eq_none_iff_forall_ne_some]
  intro r hr
  obtain ⟨rfl, htail⟩ := List.cons.inj ((dropStart?_eq_some_iff _ _ _).1 hr)
  cases new with
  | nil =>
    rw [List.nil_append] at htail
    rw [htail] at hmore
    exact hmore rfl
  | cons d new =>
    obtain ⟨rfl, -⟩ := List.cons.inj htail
    exact h ⟨[], new, rfl⟩

theorem not_infix_of_cons {c : Char} {new : Text} (h : ¬ ['*', '/'] <:+: c :: new) :
    ¬ ['*', '/'] <:+: new :=
  fun hin => h (hin.trans (List.suffix_cons c new).isInfix)

/-- A comment ends where its text does, if its text does not end it before. -/
theorem splitFirst?_of_not_infix {new : Text} (rest : Text) (h : ¬ ['*', '/'] <:+: new) :
    Text.splitFirst? ['*', '/'] (new ++ '*' :: '/' :: rest) = some (new, rest) := by
  induction new with
  | nil => simp [Text.splitFirst?, Text.dropStart?]
  | cons c new ih =>
    rw [List.cons_append, Text.splitFirst?, dropStart?_close_cons _ h (by simp)]
    simp [ih (not_infix_of_cons h)]

/-- A comment that nothing closes does not end. -/
theorem splitFirst?_eq_none {new : Text} (h : ¬ ['*', '/'] <:+: new) :
    Text.splitFirst? ['*', '/'] new = none := by
  induction new with
  | nil => rfl
  | cons c new ih =>
    have hstart := dropStart?_close_cons [] h (by simp)
    rw [List.append_nil] at hstart
    rw [Text.splitFirst?, hstart]
    simp [ih (not_infix_of_cons h)]

/-! ## Strings -/

theorem stringBody_escape (quote d : Char) (t : Text) :
    stringBody quote ('\\' :: d :: t)
      = ('\\' :: d :: (stringBody quote t).1, (stringBody quote t).2) := by
  simp [stringBody]

theorem stringBody_stop {quote c : Char} (t : Text) (hc : c ≠ '\\') (h : c = quote ∨ c = '\n') :
    stringBody quote (c :: t) = ([], true) := by
  rw [stringBody.eq_def]
  simp [hc, h]

theorem stringBody_char {quote c : Char} (t : Text) (hc : c ≠ '\\')
    (h : ¬ (c = quote ∨ c = '\n')) :
    stringBody quote (c :: t) = (c :: (stringBody quote t).1, (stringBody quote t).2) := by
  rw [stringBody.eq_def]
  simp [hc, h]

/-- The body of a string is followed by the character that closes it, or it is all there is. -/
theorem stringBody_cases (quote : Char) (t : Text) :
    (∃ body close rest, t = body ++ close :: rest ∧ (close = quote ∨ close = '\n') ∧
        stringBody quote t = (body, true)) ∨
      stringBody quote t = (t, false) := by
  fun_induction stringBody quote t with
  | case1 => exact .inr rfl
  | case2 => exact .inr rfl
  | case3 d t r ih =>
    rcases ih with ⟨body, close, rest, ht, hclose, hr⟩ | hr
    · refine .inl ⟨'\\' :: d :: body, close, rest, ?_, hclose, ?_⟩
      · rw [ht, List.cons_append, List.cons_append]
      · rw [show r = (body, true) from hr]
    · exact .inr (by rw [show r = (t, false) from hr])
  | case4 c t hc hquote => exact .inl ⟨[], c, t, rfl, by simpa using hquote, rfl⟩
  | case5 c t hc hquote r ih =>
    rcases ih with ⟨body, close, rest, ht, hclose, hr⟩ | hr
    · refine .inl ⟨c :: body, close, rest, ?_, hclose, ?_⟩
      · rw [ht, List.cons_append]
      · rw [show r = (body, true) from hr]
    · exact .inr (by rw [show r = (t, false) from hr])

/-- What closes a string hides nothing. -/
theorem ne_backslash_of_closes {quote x : Char} (hquote : quote = '"' ∨ quote = '\'')
    (hx : x = quote ∨ x = '\n') : x ≠ '\\' := by
  rcases hx with rfl | rfl
  · rcases hquote with rfl | rfl <;> decide
  · decide

/-- What a string reads up to its closing character does not depend on what follows that. -/
theorem stringBody_of_reads {quote x : Char} {new rest : Text} (rest' : Text)
    (hx : x = quote ∨ x = '\n') (hne : x ≠ '\\')
    (h : (stringBody quote (new ++ x :: rest)).1 = new) :
    stringBody quote (new ++ x :: rest') = (new, true) := by
  -- by induction on the length, as an escape takes two characters at once
  induction hn : new.length using Nat.strongRecOn generalizing new with
  | ind n ih =>
    cases new with
    | nil => exact stringBody_stop rest' hne hx
    | cons c new =>
      by_cases hc : c = '\\'
      · subst hc
        cases new with
        | nil => simp [stringBody_escape] at h
        | cons d new =>
          simp only [List.cons_append, stringBody_escape] at h ⊢
          have hless : new.length < n := by
            rw [← hn, List.length_cons, List.length_cons]
            omega
          rw [ih new.length hless (by simpa using h) rfl]
      · by_cases hstop : c = quote ∨ c = '\n'
        · rw [List.cons_append, stringBody_stop _ hc hstop] at h
          cases h
        · rw [List.cons_append, stringBody_char _ hc hstop] at h ⊢
          rw [ih new.length (by simp [← hn]) (by simpa using h) rfl]

/-- A string that reads to the end of its text is not closed. -/
theorem stringBody_of_reads_end {quote : Char} {new : Text} (h : (stringBody quote new).1 = new) :
    stringBody quote new = (new, false) := by
  rcases stringBody_cases quote new with ⟨body, close, rest, hnew, -, hr⟩ | hr
  · rw [hr] at h
    obtain rfl : body = new := h
    exact absurd (List.append_right_eq_self.1 hnew.symm) (List.cons_ne_nil close rest)
  · exact hr

/-! ## Templates -/

/-- The literal fragment at the start of a text inside a template, and what follows it: the closing
backtick, the opening of a substitution, or nothing. -/
def fragmentBody : Text → Text × Text
  | [] => ([], [])
  | c :: t =>
    if c = '`' then ([], c :: t)
    else
      match t with
      | [] => ([c], [])
      | e :: t' =>
        if c = '\\' then
          let r := fragmentBody t'
          (c :: e :: r.1, r.2)
        else if c = '$' ∧ e = '{' then ([], c :: e :: t')
        else
          let r := fragmentBody (e :: t')
          (c :: r.1, r.2)

/-- What is skipped of a substitution with `depth` more open braces than one, its last brace
included, and what follows it. -/
def substitutionBody (depth : Nat) : Text → Text × Text
  | [] => ([], [])
  | c :: t =>
    if c = '}' ∧ depth = 0 then ([c], t)
    else
      let r := substitutionBody
        (if c = '{' then depth + 1 else if c = '}' then depth - 1 else depth) t
      (c :: r.1, r.2)

theorem fragmentBody_append (t : Text) : (fragmentBody t).1 ++ (fragmentBody t).2 = t := by
  fun_induction fragmentBody t with
  | case1 => rfl
  | case2 => rfl
  | case3 => rfl
  | case4 e t r h ih => simp [r, ih]
  | case5 => rfl
  | case6 c h e t h₁ h₂ r ih => simp [r, ih]

theorem substitutionBody_append (depth : Nat) (t : Text) :
    (substitutionBody depth t).1 ++ (substitutionBody depth t).2 = t := by
  fun_induction substitutionBody depth t with
  | case1 => rfl
  | case2 => rfl
  | case3 depth c t h r ih => simpa [r] using ih

/-- A literal fragment is closed by a backtick, by the opening of a substitution, or by the end of
the text. -/
theorem fragmentBody_cases (t : Text) :
    (fragmentBody t).2 = [] ∨ (∃ r, (fragmentBody t).2 = '`' :: r) ∨
      ∃ r, (fragmentBody t).2 = '$' :: '{' :: r := by
  fun_induction fragmentBody t with
  | case1 => exact .inl rfl
  | case2 => exact .inr (.inl ⟨_, rfl⟩)
  | case3 => exact .inl rfl
  | case4 e t r h ih => exact ih
  | case5 c h e t h₁ h₂ => exact .inr (.inr ⟨t, by rw [h₂.1, h₂.2]⟩)
  | case6 c h e t h₁ h₂ r ih => exact ih

theorem fragmentBody_escape (e : Char) (t : Text) :
    fragmentBody ('\\' :: e :: t) = ('\\' :: e :: (fragmentBody t).1, (fragmentBody t).2) := by
  simp [fragmentBody]

theorem fragmentBody_char {c : Char} {t : Text} (hc : c ≠ '`' ∧ c ≠ '\\')
    (h : ¬ (c = '$' ∧ t.head? = some '{')) :
    fragmentBody (c :: t) = (c :: (fragmentBody t).1, (fragmentBody t).2) := by
  cases t with
  | nil => simp [fragmentBody, hc]
  | cons e t =>
    have he : ¬ (c = '$' ∧ e = '{') := fun he => h ⟨he.1, by simp [he.2]⟩
    simp [fragmentBody, hc, he]

/-- A text that closes a literal fragment: with the closing backtick, or with a substitution. -/
def ClosesFragment (t : Text) : Prop :=
  (∃ r, t = '`' :: r) ∨ ∃ r, t = '$' :: '{' :: r

theorem ClosesFragment.fragmentBody_eq {t : Text} (h : ClosesFragment t) :
    fragmentBody t = ([], t) := by
  rcases h with ⟨r, rfl⟩ | ⟨r, rfl⟩
  · rw [fragmentBody.eq_def]
    simp
  · simp [fragmentBody]

theorem ClosesFragment.head?_ne {t : Text} (h : ClosesFragment t) : t.head? ≠ some '{' := by
  rcases h with ⟨r, rfl⟩ | ⟨r, rfl⟩ <;> simp

/-- What a literal fragment reads up to its end does not depend on what closes it. -/
theorem fragmentBody_of_reads {new close : Text} {close' : Text} (hclose : ClosesFragment close)
    (hclose' : ClosesFragment close') (h : (fragmentBody (new ++ close)).1 = new) :
    fragmentBody (new ++ close') = (new, close') := by
  -- by induction on the length, as an escape takes two characters at once
  induction hn : new.length using Nat.strongRecOn generalizing new with
  | ind n ih =>
    cases new with
    | nil => exact hclose'.fragmentBody_eq
    | cons c new =>
      by_cases hescape : c = '\\'
      · subst hescape
        cases new with
        | nil =>
          rcases hclose with ⟨r, rfl⟩ | ⟨r, rfl⟩ <;> simp [fragmentBody_escape] at h
        | cons e new =>
          simp only [List.cons_append, fragmentBody_escape] at h ⊢
          have hless : new.length < n := by
            rw [← hn, List.length_cons, List.length_cons]
            omega
          rw [ih new.length hless (by simpa using h) rfl]
      · by_cases htick : c = '`'
        · subst htick
          rw [List.cons_append, fragmentBody.eq_def] at h
          simp at h
        · -- at the end of the fragment, a dollar sign stands for itself
          have hhead : ∀ z : Text, ClosesFragment z →
              ((new ++ z).head? = some '{' ↔ new.head? = some '{') := by
            intro z hz
            cases new with
            | nil => simpa using hz.head?_ne
            | cons d new => simp
          by_cases hopen : c = '$' ∧ new.head? = some '{'
          · obtain ⟨rfl, hd⟩ := hopen
            obtain ⟨new, rfl⟩ := List.head?_eq_some_iff.1 hd
            simp [fragmentBody] at h
          · rw [List.cons_append, fragmentBody_char ⟨htick, hescape⟩
              (by rw [hhead _ hclose]; exact hopen)] at h
            rw [List.cons_append, fragmentBody_char ⟨htick, hescape⟩
              (by rw [hhead _ hclose']; exact hopen)]
            rw [ih new.length (by simp [← hn]) (by simpa using h) rfl]

/-- What is skipped of a substitution does not depend on what follows it. -/
theorem substitutionBody_append_of (depth : Nat) (t more : Text)
    (h : (substitutionBody depth t).2 = [] → more = []) :
    substitutionBody depth ((substitutionBody depth t).1 ++ more)
      = ((substitutionBody depth t).1, more) := by
  fun_induction substitutionBody depth t with
  | case1 => simp [h rfl, substitutionBody]
  | case2 depth c t hc => simp [substitutionBody, hc]
  | case3 depth c t hc r ih =>
    have := ih h
    rw [List.cons_append, substitutionBody, if_neg hc, this]

/-- The nodes of the literal fragments of a template. -/
def fragmentNodes (fragments : List (Nat × Text)) : List Node :=
  fragments.flatMap fun f =>
    Node.ifAny ⟨.template, f.2, f.1, f.1 + Text.byteLength f.2, f.1, false⟩

/-- A template of which only a literal fragment is left up to the end of the text. -/
theorem templateFrom_of_end {t : Text} (start offset : Nat) (reversed : Text)
    (h : (fragmentBody t).2 = []) :
    templateFrom 0 start offset reversed t
      = ⟨[(start, reversed.reverse ++ t)], t.length, false⟩ := by
  fun_induction fragmentBody t generalizing offset reversed with
  | case1 => simp [templateFrom]
  | case2 => cases h
  | case3 c hc => simp [templateFrom, hc]
  | case4 e t r hc ih => simp [templateFrom, ih _ _ h, TemplateScan.after]
  | case5 => cases h
  | case6 c hc e t h₁ h₂ r ih => simp [templateFrom, hc, h₁, h₂, ih _ _ h, TemplateScan.after]

/-- A template of which only a literal fragment is left up to its closing backtick. -/
theorem templateFrom_of_backtick {t rest : Text} (start offset : Nat) (reversed : Text)
    (h : (fragmentBody t).2 = '`' :: rest) :
    templateFrom 0 start offset reversed t
      = ⟨[(start, reversed.reverse ++ (fragmentBody t).1)], (fragmentBody t).1.length + 1,
        true⟩ := by
  fun_induction fragmentBody t generalizing offset reversed with
  | case1 => cases h
  | case2 => simp [templateFrom.eq_def]
  | case3 => cases h
  | case4 e t r hc ih => simp [templateFrom, ih _ _ h, TemplateScan.after, r]
  | case5 c hc e t h₁ h₂ => simp [h₂] at h
  | case6 c hc e t h₁ h₂ r ih => simp [templateFrom, hc, h₁, h₂, ih _ _ h, TemplateScan.after, r]

/-- A template of which a literal fragment comes before a substitution. -/
theorem templateFrom_of_substitution {t rest : Text} (start offset : Nat) (reversed : Text)
    (h : (fragmentBody t).2 = '$' :: '{' :: rest) :
    templateFrom 0 start offset reversed t
      = ((templateFrom 1 start (offset + (fragmentBody t).1.byteLength + 2) [] rest).after
          ((fragmentBody t).1.length + 2)).withFragment start
            ((fragmentBody t).1.reverse ++ reversed) := by
  fun_induction fragmentBody t generalizing offset reversed with
  | case1 => cases h
  | case2 => cases h
  | case3 => cases h
  | case4 e t r hc ih =>
    simp [templateFrom, ih _ _ h, TemplateScan.after, TemplateScan.withFragment, r, Nat.add_assoc]
  | case5 c hc e t h₁ h₂ =>
    obtain ⟨rfl, rfl⟩ := h₂
    obtain rfl : t = rest := by simpa using h
    simp only [templateFrom, List.length_nil, Nat.zero_add]
    rfl
  | case6 c hc e t h₁ h₂ r ih =>
    simp [templateFrom, hc, h₁, h₂, ih _ _ h, TemplateScan.after, TemplateScan.withFragment, r,
      Nat.add_assoc]

/-- In a substitution nothing is read up to the brace that closes it. -/
theorem templateFrom_succ (depth start offset : Nat) (reversed t : Text) :
    let s := substitutionBody depth t
    let n := offset + s.1.byteLength
    (templateFrom (depth + 1) start offset reversed t).taken
        = s.1.length + (templateFrom 0 n n [] s.2).taken ∧
      (templateFrom (depth + 1) start offset reversed t).closed
        = (templateFrom 0 n n [] s.2).closed ∧
      fragmentNodes (templateFrom (depth + 1) start offset reversed t).fragments
        = fragmentNodes (templateFrom 0 n n [] s.2).fragments := by
  fun_induction substitutionBody depth t generalizing start offset reversed with
  | case1 => simp [templateFrom, fragmentNodes, Node.ifAny]
  | case2 depth c t h =>
    obtain ⟨rfl, rfl⟩ := h
    simp [templateFrom, TemplateScan.after, Nat.add_comm]
  | case3 depth c t h r ih =>
    -- the scan counts one brace more than the body, the one that opens the substitution
    have hdepth : (if c = '{' then depth + 2 else if c = '}' then depth else depth + 1)
        = (if c = '{' then depth + 1 else if c = '}' then depth - 1 else depth) + 1 := by
      by_cases hopen : c = '{'
      · simp [hopen]
      · by_cases hclose : c = '}'
        · have : depth ≠ 0 := fun h0 => h ⟨hclose, h0⟩
          simp only [if_neg hopen, if_pos hclose]
          omega
        · simp only [if_neg hopen, if_neg hclose]
    have hoffset : offset + Text.byteLength (c :: r.1) = offset + c.utf8Size + r.1.byteLength := by
      rw [Text.byteLength_cons, Nat.add_assoc]
    obtain ⟨htaken, hclosed, hnodes⟩ := ih (offset + c.utf8Size) (offset + c.utf8Size) []
    rw [templateFrom]
    simp only [TemplateScan.after]
    rw [hdepth, htaken, hclosed, hnodes, hoffset]
    refine ⟨?_, rfl, rfl⟩
    simp only [r, List.length_cons]
    omega

/-- The node of a literal fragment, if it holds any text. -/
def fragmentNode (start : Nat) (value : Text) : List Node :=
  Node.ifAny ⟨.template, value, start, start + Text.byteLength value, start, false⟩

/-- A template begins with a literal fragment, up to the end of the text, to the closing backtick,
or to a substitution. -/
theorem template_cases (t : Text) :
    fragmentBody t = (t, []) ∨
      (∃ b rest, t = (b ++ ['`']) ++ rest ∧ fragmentBody (b ++ ['`'] ++ rest) = (b, '`' :: rest)) ∨
      ∃ b skipped tail, t = (b ++ '$' :: '{' :: skipped) ++ tail ∧
        fragmentBody (b ++ '$' :: '{' :: skipped ++ tail) = (b, '$' :: '{' :: (skipped ++ tail)) ∧
        substitutionBody 0 (skipped ++ tail) = (skipped, tail) := by
  have ht := fragmentBody_append t
  obtain ⟨b, r, hbody⟩ : ∃ b r, fragmentBody t = (b, r) := ⟨_, _, rfl⟩
  have hcases := fragmentBody_cases t
  rw [hbody] at ht hcases
  subst ht
  rcases hcases with rfl | ⟨rest, rfl⟩ | ⟨rest, rfl⟩
  · refine .inl ?_
    simp only [List.append_nil] at hbody ⊢
    exact hbody
  · refine .inr (.inl ⟨b, rest, by simp, ?_⟩)
    simpa using hbody
  · obtain ⟨skipped, tail, hskip⟩ : ∃ skipped tail, substitutionBody 0 rest = (skipped, tail) :=
      ⟨_, _, rfl⟩
    have hrest := substitutionBody_append 0 rest
    rw [hskip] at hrest
    subst hrest
    refine .inr (.inr ⟨b, skipped, tail, by simp, ?_, hskip⟩)
    simpa using hbody

/-- A template that is one literal fragment up to the end of the text. -/
theorem templateScan_of_end {b : Text} (start : Nat) (h : fragmentBody b = (b, [])) :
    (templateScan start b).taken = b.length ∧ (templateScan start b).closed = false ∧
      fragmentNodes (templateScan start b).fragments = fragmentNode start b := by
  rw [templateScan, templateFrom_of_end start start [] (congrArg Prod.snd h)]
  exact ⟨rfl, rfl, by simp [fragmentNodes, fragmentNode]⟩

/-- A template that is one literal fragment up to its closing backtick. -/
theorem templateScan_of_backtick {b rest : Text} (start : Nat)
    (h : fragmentBody (b ++ ['`'] ++ rest) = (b, '`' :: rest)) :
    (templateScan start (b ++ ['`'] ++ rest)).taken = (b ++ ['`']).length ∧
      (templateScan start (b ++ ['`'] ++ rest)).closed = true ∧
      fragmentNodes (templateScan start (b ++ ['`'] ++ rest)).fragments = fragmentNode start b := by
  rw [templateScan, templateFrom_of_backtick start start [] (congrArg Prod.snd h), h]
  exact ⟨by simp, rfl, by simp [fragmentNodes, fragmentNode]⟩

/-- A template whose first literal fragment comes before a substitution is that fragment, the
substitution and the template behind it. -/
theorem templateScan_of_substitution {b skipped tail : Text} (start : Nat)
    (h : fragmentBody (b ++ '$' :: '{' :: skipped ++ tail) = (b, '$' :: '{' :: (skipped ++ tail)))
    (hskip : substitutionBody 0 (skipped ++ tail) = (skipped, tail)) :
    let lead := b ++ '$' :: '{' :: skipped
    let later := templateScan (start + lead.byteLength) tail
    (templateScan start (lead ++ tail)).taken = lead.length + later.taken ∧
      (templateScan start (lead ++ tail)).closed = later.closed ∧
      fragmentNodes (templateScan start (lead ++ tail)).fragments
        = fragmentNode start b ++ fragmentNodes later.fragments := by
  obtain ⟨htaken, hclosed, hnodes⟩ :=
    templateFrom_succ 0 start (start + b.byteLength + 2) [] (skipped ++ tail)
  have hoffset : start + b.byteLength + 2 + skipped.byteLength
      = start + (b ++ '$' :: '{' :: skipped).byteLength := by
    have : '$'.utf8Size + '{'.utf8Size = 2 := rfl
    simp only [Text.byteLength_append, Text.byteLength_cons]
    omega
  rw [hskip, hoffset] at htaken hclosed hnodes
  simp only
  rw [templateScan, templateFrom_of_substitution start start [] (congrArg Prod.snd h), h]
  simp only [TemplateScan.after, TemplateScan.withFragment, htaken, hclosed]
  refine ⟨?_, rfl, ?_⟩
  · rw [templateScan, List.length_append, List.length_cons, List.length_cons]
    omega
  · rw [templateScan, ← hnodes]
    simp [fragmentNodes, fragmentNode]

end CodeProse.Source
