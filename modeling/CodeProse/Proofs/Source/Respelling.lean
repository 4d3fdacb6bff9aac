/-
# Scanning a file with new texts in its nodes

If each new text can be read back from between the delimiters of its node, the scan of the new file
mirrors that of the old one: step by step it takes what has become of the characters taken before
(`mirrors_step`), and by induction over the scan it finds the old nodes with their new texts
(`nodesFrom_eq_settle`).
-/
import CodeProse.Proofs.Source.Settling

namespace CodeProse.Source

open Text (takeWhile_append_of_head)

/-! ## Nodes that settle one by one -/

/-- Where the only node of a piece of a file settles, if it is there at all. -/
theorem ifAny_eq_settle {content : Text} {offset offset' : Nat} {n n' : Node} {new : Text}
    {us : List (Node × Text)} (hus : us = [] ∧ new = [] ∨ us = [(n, new)])
    (hempty : new = [] → n'.value = [])
    (hn' : n'.ifAny = (renew content n new (offset' + (n.start - offset))).ifAny) :
    n'.ifAny = settle content offset offset' us := by
  rcases hus with ⟨rfl, hnew⟩ | rfl
  · rw [Node.ifAny, hempty hnew]
    rfl
  · rw [settle, settle, List.append_nil, hn']

/-- Only strings can be text between tags. -/
theorem isChildText_of_kind {content : Text} {n : Node} (h : n.kind ≠ .string) :
    isChildText content n = false := by
  simp [isChildText, h]

/-! ## Templates -/

/-- The first literal fragment `b` of a template, before `close`, has a new text, which is read
back. -/
theorem fragment_new {content pre b close rest used : Text} {us : List (Node × Text)}
    (hsplit : content = pre ++ (b ++ rest)) (hb : fragmentBody (b ++ rest) = (b, rest))
    (hus : us.map (·.1) = fragmentNode pre.byteLength b)
    (htaken : substituteFrom pre.byteLength (us.map region) (b ++ close) = some used)
    (hstands : ∀ u ∈ us, StandsIn content u) :
    ∃ new, used = new ++ close ∧ (fragmentBody (new ++ rest)).1 = new ∧
      ∀ start', fragmentNode start' new = settle content pre.byteLength start' us := by
  rw [fragmentNode, Node.ifAny] at hus
  split at hus
  case isTrue hempty =>
    obtain rfl := List.map_eq_nil_iff.1 hus
    obtain rfl : b = [] := List.isEmpty_iff.1 hempty
    exact ⟨[], (Option.some.inj htaken).symm, congrArg Prod.fst hb, fun _ => rfl⟩
  case isFalse =>
    obtain ⟨⟨_, new⟩, rfl, rfl⟩ := List.map_eq_singleton_iff.1 hus
    have hused := @substituteFrom_singleton pre.byteLength (region (_, new)) [] b close used rfl rfl
      htaken
    rw [List.nil_append] at hused
    refine ⟨new, hused, ?_, fun start' => ?_⟩
    · exact hstands _ List.mem_cons_self pre [] rest (by rw [hsplit]; simp) rfl rfl
    · refine ifAny_eq_settle (.inr rfl) id ?_
      rw [renew_of_delimited _ _ (isChildText_of_kind (by simp))]
      simp [Node.contentStop]

/-- A template scan from `start'` mirrors the one of `t` from `start`: it takes `used`, which has
become of the characters taken there, is closed or open as that is, and finds the fragments where
they settle. -/
structure MirrorsTemplate (content : Text) (start : Nat) (t : Text) (us : List (Node × Text))
    (start' : Nat) (used rest' : Text) : Prop where
  taken : (templateScan start' (used ++ rest')).taken = used.length
  closed : (templateScan start' (used ++ rest')).closed = (templateScan start t).closed
  nodes : fragmentNodes (templateScan start' (used ++ rest')).fragments
    = settle content start start' us

/-- A template that nothing closes is mirrored by such a template. -/
theorem mirrorsTemplate_of_end {content pre t used : Text} {us : List (Node × Text)}
    (hsplit : content = pre ++ t) (hend : fragmentBody t = (t, []))
    (hus : us.map (·.1) = fragmentNodes (templateScan pre.byteLength t).fragments)
    (htaken : substituteFrom pre.byteLength (us.map region) t = some used)
    (hstands : ∀ u ∈ us, StandsIn content u) (start' : Nat) :
    MirrorsTemplate content pre.byteLength t us start' used [] := by
  obtain ⟨-, hclosed, hnodes⟩ := templateScan_of_end pre.byteLength hend
  rw [← List.append_nil t] at hsplit htaken
  obtain ⟨new, rfl, hreads, hsettle⟩ :=
    fragment_new hsplit (by simpa using hend) (hus.trans hnodes) htaken hstands
  have hend' : fragmentBody new = (new, []) := by
    rw [List.append_nil] at hreads
    have hnew := fragmentBody_append new
    rw [hreads] at hnew
    exact Prod.ext hreads (List.append_right_eq_self.1 hnew)
  obtain ⟨htake', hclosed', hnodes'⟩ := templateScan_of_end start' hend'
  rw [List.append_nil]
  constructor
  case taken => rw [List.append_nil, htake']
  case closed => rw [List.append_nil, hclosed', hclosed]
  case nodes => rw [List.append_nil, hnodes', hsettle]

/-- A template without substitutions is mirrored by such a template. -/
theorem mirrorsTemplate_of_backtick {content pre b rest used : Text} {us : List (Node × Text)}
    (hsplit : content = pre ++ (b ++ ['`'] ++ rest))
    (hend : fragmentBody (b ++ ['`'] ++ rest) = (b, '`' :: rest))
    (hus : us.map (·.1)
      = fragmentNodes (templateScan pre.byteLength (b ++ ['`'] ++ rest)).fragments)
    (htaken : substituteFrom pre.byteLength (us.map region) (b ++ ['`']) = some used)
    (hstands : ∀ u ∈ us, StandsIn content u) (start' : Nat) (rest' : Text) :
    MirrorsTemplate content pre.byteLength (b ++ ['`'] ++ rest) us start' used rest' := by
  obtain ⟨-, hclosed, hnodes⟩ := templateScan_of_backtick pre.byteLength hend
  obtain ⟨new, rfl, hreads, hsettle⟩ := fragment_new
    (show content = pre ++ (b ++ '`' :: rest) by rw [hsplit]; simp)
    (show fragmentBody (b ++ '`' :: rest) = _ by simpa using hend) (hus.trans hnodes) htaken hstands
  have hend' := fragmentBody_of_reads (.inl ⟨rest, rfl⟩)
    (show ClosesFragment ('`' :: rest') from .inl ⟨rest', rfl⟩) hreads
  obtain ⟨htake', hclosed', hnodes'⟩ := templateScan_of_backtick start'
    (show fragmentBody (new ++ ['`'] ++ rest') = _ by simpa using hend')
  exact ⟨htake', hclosed'.trans hclosed.symm, hnodes'.trans (hsettle start')⟩

/-- A template with a substitution is mirrored if its first fragment is read back and the template
behind the substitution is mirrored. -/
theorem mirrorsTemplate_of_substitution {content b skipped tail new used rest' : Text}
    {us₁ us₂ : List (Node × Text)} {start start' : Nat}
    (hend : fragmentBody (b ++ '$' :: '{' :: skipped ++ tail)
      = (b, '$' :: '{' :: (skipped ++ tail)))
    (hskip : substitutionBody 0 (skipped ++ tail) = (skipped, tail))
    (hend' : fragmentBody (new ++ '$' :: '{' :: skipped ++ (used ++ rest'))
      = (new, '$' :: '{' :: (skipped ++ (used ++ rest'))))
    (hskip' : substitutionBody 0 (skipped ++ (used ++ rest')) = (skipped, used ++ rest'))
    (hsettle : settle content start start' (us₁ ++ us₂) = fragmentNode start' new
      ++ settle content (start + (b ++ '$' :: '{' :: skipped).byteLength)
        (start' + (new ++ '$' :: '{' :: skipped).byteLength) us₂)
    (hlater : MirrorsTemplate content (start + (b ++ '$' :: '{' :: skipped).byteLength) tail us₂
      (start' + (new ++ '$' :: '{' :: skipped).byteLength) used rest') :
    MirrorsTemplate content start (b ++ '$' :: '{' :: skipped ++ tail) (us₁ ++ us₂) start'
      (new ++ '$' :: '{' :: skipped ++ used) rest' := by
  obtain ⟨-, hclosed, -⟩ := templateScan_of_substitution start hend hskip
  obtain ⟨htake', hclosed', hnodes'⟩ := templateScan_of_substitution start' hend' hskip'
  constructor
  case taken => rw [List.append_assoc, htake', hlater.taken, ← List.length_append]
  case closed => rw [List.append_assoc, hclosed', hlater.closed, hclosed]
  case nodes => rw [List.append_assoc, hnodes', hlater.nodes, hsettle]

/-- With new texts in its literal fragments, a template takes what has become of its characters. -/
theorem template_new {content pre t used rest' : Text} {us : List (Node × Text)}
    (hsplit : content = pre ++ t)
    (hus : us.map (·.1) = fragmentNodes (templateScan pre.byteLength t).fragments)
    (htaken : substituteFrom pre.byteLength (us.map region)
      (t.take (templateScan pre.byteLength t).taken) = some used)
    (hstands : ∀ u ∈ us, StandsIn content u)
    (hrest : t.drop (templateScan pre.byteLength t).taken = [] → rest' = []) (start' : Nat) :
    MirrorsTemplate content pre.byteLength t us start' used rest' := by
  -- by induction on the length, as what follows a substitution is a template of its own
  induction hn : t.length using Nat.strongRecOn generalizing pre t used us start' with
  | ind n ih =>
    rcases template_cases t with hend | ⟨b, rest, rfl, hend⟩ | ⟨b, skipped, tail, rfl, hend, hskip⟩
    · obtain ⟨htake, -, -⟩ := templateScan_of_end pre.byteLength hend
      rw [htake, List.drop_length] at hrest
      rw [htake, List.take_length] at htaken
      obtain rfl := hrest rfl
      exact mirrorsTemplate_of_end hsplit hend hus htaken hstands start'
    · obtain ⟨htake, -, -⟩ := templateScan_of_backtick pre.byteLength hend
      rw [htake, List.take_left] at htaken
      exact mirrorsTemplate_of_backtick hsplit hend hus htaken hstands start' rest'
    · obtain ⟨htake, hclosed, hnodes⟩ := templateScan_of_substitution pre.byteLength hend hskip
      rw [htake, List.take_length_add_append] at htaken
      rw [htake, List.drop_length_add_append] at hrest
      obtain ⟨us₁, us₂, rfl, hus₁, hus₂⟩ := List.map_eq_append_iff.1 (hus.trans hnodes)
      have hlaid₁ := @laid_fragmentNode pre.byteLength b ['$', '{'] skipped tail
        (by simpa using congrArg Prod.fst hend) (.inr (.inl rfl))
      have hlaid₂ := laid_template (pre.byteLength + (b ++ '$' :: '{' :: skipped).byteLength) tail
      rw [← hus₁] at hlaid₁
      rw [← hus₂] at hlaid₂
      obtain ⟨used₁, used₂, rfl, htaken₁, htaken₂, hsettle⟩ :=
        @substituted_append content _ _ _ _ _ _ _ _ (by simpa using hlaid₁) hlaid₂ htaken
      obtain ⟨new, rfl, hreads, hfirst⟩ := fragment_new
        (show content = pre ++ (b ++ '$' :: '{' :: (skipped ++ tail)) by rw [hsplit]; simp)
        (show fragmentBody (b ++ '$' :: '{' :: (skipped ++ tail)) = _ by simpa using hend) hus₁
        htaken₁ fun u hu => hstands u (List.mem_append_left _ hu)
      have hend' := fragmentBody_of_reads (.inr ⟨_, rfl⟩)
        (show ClosesFragment ('$' :: '{' :: (skipped ++ (used₂ ++ rest'))) from .inr ⟨_, rfl⟩)
        hreads
      -- a substitution that is left open reaches to the end of both files
      have hskip' : substitutionBody 0 (skipped ++ (used₂ ++ rest'))
          = (skipped, used₂ ++ rest') := by
        have hafter := substitutionBody_append_of 0 (skipped ++ tail) (used₂ ++ rest')
        rw [hskip] at hafter
        refine hafter ?_
        rintro rfl
        obtain rfl : us₂ = [] := List.map_eq_nil_iff.1 hus₂
        rw [List.take_nil] at htaken₂
        rw [hrest List.drop_nil, ← Option.some.inj htaken₂]
        rfl
      refine mirrorsTemplate_of_substitution hend hskip (by simpa using hend') hskip'
        (by rw [hsettle, hfirst]) ?_
      rw [← Text.byteLength_append] at hus₂ htaken₂ hrest ⊢
      refine ih tail.length ?_ (hsplit.trans (List.append_assoc ..).symm) hus₂ htaken₂
        (fun u hu => hstands u (List.mem_append_right _ hu)) hrest _ rfl
      rw [← hn, List.length_append, List.length_append, List.length_cons]
      omega

/-! ## One step -/

/-- The characters `c :: t` of a file from `offset` on with new texts in the nodes that a step finds
there: `used` has become of the characters that the step takes, and `rest'` of the others. -/
structure Edited (content : Text) (offset : Nat) (c : Char) (t : Text) (s : Step)
    (us : List (Node × Text)) (used rest' : Text) : Prop where
  split : ∃ pre, content = pre ++ c :: t ∧ pre.byteLength = offset
  nodes : us.map (·.1) = s.nodes
  taken : substituteFrom offset (us.map region) (c :: t.take s.extra) = some used
  stands : ∀ u ∈ us, StandsIn content u
  rest_nil : t.drop s.extra = [] → rest' = []
  /-- Between tags, the rest may start with text that is new or gone; elsewhere its start stays. -/
  rest_head : (s.frames.head? = some .children →
    ∀ d, (t.drop s.extra).head? = some d → endsChildText d = true) →
    rest'.head? = (t.drop s.extra).head?

/-- A step on the new file from `offset'` on mirrors a step on the old one from `offset` on: it
leads to the same state, takes what has become of the characters taken there and finds the nodes
where they settle. -/
structure Mirrors (content : Text) (offset : Nat) (f : Nat → Char → Text → Step) (s : Step)
    (us : List (Node × Text)) (offset' : Nat) (c : Char) (t' rest' : Text) : Prop where
  frames : (f offset' c (t' ++ rest')).frames = s.frames
  memory : (f offset' c (t' ++ rest')).memory = s.memory
  rest : (t' ++ rest').drop (f offset' c (t' ++ rest')).extra = rest'
  nodes : (f offset' c (t' ++ rest')).nodes = settle content offset offset' us

section Steps

variable {content : Text} {offset : Nat} {c : Char} {t : Text} {us : List (Node × Text)}
  {used rest' : Text} {hasElements : Bool} {frames : List Frame} {m : Memory}

/-- A delimited node that holds text has a new text, which is read back; one that holds none is not
there, and its text stays empty. -/
theorem Edited.of_ifAny {s : Step} {n : Node} {opening closing : Text}
    (h : Edited content offset c t s us used rest') (hnodes : s.nodes = n.ifAny)
    (htake : c :: t.take s.extra = opening ++ n.value ++ closing) (hstart : n.start = offset)
    (hcontent : n.start + opening.byteLength = n.contentStart)
    (hempty : n.value = [] → ReadsBack n opening [] (closing ++ t.drop s.extra)) :
    ∃ new, used = opening ++ new ++ closing ∧ (us = [] ∧ new = [] ∨ us = [(n, new)]) ∧
      ReadsBack n opening new (closing ++ t.drop s.extra) := by
  have hus := h.nodes
  have htaken := h.taken
  rw [hnodes, Node.ifAny] at hus
  rw [htake] at htaken
  split at hus
  case isTrue hvalue =>
    obtain rfl := List.map_eq_nil_iff.1 hus
    rw [List.isEmpty_iff] at hvalue
    rw [hvalue] at htaken
    exact ⟨[], (Option.some.inj htaken).symm, .inl ⟨rfl, rfl⟩, hempty hvalue⟩
  case isFalse =>
    obtain ⟨⟨_, new⟩, rfl, rfl⟩ := List.map_eq_singleton_iff.1 hus
    rw [← hstart] at htaken
    refine ⟨new, substituteFrom_singleton hcontent rfl htaken, .inr rfl, ?_⟩
    obtain ⟨pre, hsplit, hpre⟩ := h.split
    refine h.stands _ List.mem_cons_self pre opening (closing ++ t.drop s.extra) ?_
      (hpre.trans hstart.symm) hcontent
    have hall : c :: t = (c :: t.take s.extra) ++ t.drop s.extra := by
      rw [List.cons_append, List.take_append_drop]
    rw [hsplit, hall, htake]
    simp

/-- A step is mirrored by one that leads to the same state, leaves over what has become of the rest
and finds the nodes where they settle. -/
theorem Mirrors.of_eq {f : Nat → Char → Text → Step} {s s' : Step} {offset' : Nat} {t' : Text}
    (hf : f offset' c (t' ++ rest') = s') (hframes : s'.frames = s.frames)
    (hmemory : s'.memory = s.memory) (hrest : (t' ++ rest').drop s'.extra = rest')
    (hnodes : s'.nodes = settle content offset offset' us) :
    Mirrors content offset f s us offset' c t' rest' := by
  subst hf
  exact ⟨hframes, hmemory, hrest, hnodes⟩

theorem codeStep_lineComment (o : Nat) (t : Text) :
    codeStep hasElements frames m o '/' ('/' :: t) = lineComment frames m o t := by
  simp [codeStep]

theorem codeStep_blockComment (o : Nat) (t : Text) :
    codeStep hasElements frames m o '/' ('*' :: t) = blockComment frames m o t := by
  simp [codeStep]

theorem codeStep_quote {quote : Char} (hquote : quote = '"' ∨ quote = '\'') (o : Nat) (t : Text) :
    codeStep hasElements frames m o quote t = stringLiteral frames m o quote t := by
  rcases hquote with rfl | rfl <;> simp [codeStep]

theorem codeStep_backtick (o : Nat) (t : Text) :
    codeStep hasElements frames m o '`' t = template frames m o t := by
  simp [codeStep]

/-- What follows the characters that are read ends the reading. -/
theorem head?_drop_takeWhile {p : Char → Bool} {t : Text} {d : Char}
    (h : (t.drop (t.takeWhile p).length).head? = some d) : p d = false := by
  rw [drop_length_takeWhile] at h
  have hnot := List.head?_dropWhile_not p t
  rw [h] at hnot
  simpa using hnot

/-- Where a comment settles. -/
theorem settled_comment {content : Text} (offset' : Nat) (value new : Text) (closing : Nat) :
    (⟨.comment, new, offset', offset' + 2 + new.byteLength + closing, offset' + 2,
        false⟩ : Node).ifAny
      = (renew content ⟨.comment, value, offset, offset + 2 + value.byteLength + closing,
          offset + 2, false⟩ new (offset' + (offset - offset))).ifAny := by
  rw [renew_of_delimited _ _ (isChildText_of_kind (by simp))]
  simp [Node.contentStop]

theorem mirrors_lineComment (offset' : Nat)
    (h : Edited content offset '/' ('/' :: t) (lineComment frames m offset t) us used rest')
    (hframes : frames.head? ≠ some .children) :
    ∃ t', used = '/' :: t' ∧ Mirrors content offset (codeStep hasElements frames m)
      (lineComment frames m offset t) us offset' '/' t' rest' := by
  have hdrop : ('/' :: t).drop (lineComment frames m offset t).extra
      = t.drop (t.takeWhile (· != '\n')).length := by
    simp only [lineComment]
    rw [Nat.add_comm, List.drop_succ_cons]
  obtain ⟨new, rfl, hnew, hreads⟩ := @Edited.of_ifAny _ _ _ _ _ _ _ _ _ ['/', '/'] [] h rfl
    (by rw [take_lineComment]; simp) rfl rfl (fun _ => by simp [ReadsBack])
  have hbody : (new ++ rest').takeWhile (· != '\n') = new := by
    refine takeWhile_append_of_head (fun d hd => ?_) fun d hd => ?_
    · simp only [bne_iff_ne, ne_eq]
      rintro rfl
      exact absurd hd (by simpa [ReadsBack] using hreads)
    · rw [h.rest_head fun hc => absurd hc hframes, hdrop] at hd
      exact @head?_drop_takeWhile (· != '\n') _ _ hd
  refine ⟨'/' :: new, by simp, .of_eq (codeStep_lineComment offset' (new ++ rest')) rfl rfl ?_ ?_⟩
  · simp only [lineComment, hbody]
    rw [Nat.add_comm, List.cons_append, List.drop_succ_cons, List.drop_left]
  · simp only [lineComment, hbody]
    exact ifAny_eq_settle hnew id (settled_comment offset' _ new 0)

theorem blockComment_state (o : Nat) (t : Text) :
    (blockComment frames m o t).frames = frames ∧ (blockComment frames m o t).memory = m := by
  rw [blockComment]
  split <;> exact ⟨rfl, rfl⟩

theorem blockComment_of_closed {body : Text} (o : Nat) (rest : Text) (h : ¬ ['*', '/'] <:+: body) :
    blockComment frames m o (body ++ '*' :: '/' :: rest)
      = ⟨Node.ifAny ⟨.comment, body, o, o + 2 + body.byteLength + 2, o + 2, false⟩, frames, m,
        1 + body.length + 2⟩ := by
  rw [blockComment, splitFirst?_of_not_infix rest h]

theorem blockComment_of_open {body : Text} (o : Nat) (h : ¬ ['*', '/'] <:+: body) :
    blockComment frames m o body
      = ⟨Node.ifAny ⟨.comment, body, o, o + 2 + body.byteLength, o + 2, false⟩, frames, m,
        1 + body.length⟩ := by
  rw [blockComment, splitFirst?_eq_none h]

theorem mirrors_blockComment (offset' : Nat)
    (h : Edited content offset '/' ('*' :: t) (blockComment frames m offset t) us used rest') :
    ∃ t', used = '/' :: t' ∧ Mirrors content offset (codeStep hasElements frames m)
      (blockComment frames m offset t) us offset' '/' t' rest' := by
  obtain ⟨hframes, hmemory⟩ := @blockComment_state frames m offset t
  rcases take_blockComment frames m offset t with
    ⟨body, rest, ht, -, htake, hdrop, hnodes⟩ | ⟨-, htake, hdrop, hnodes⟩
  · obtain ⟨new, rfl, hnew, hreads⟩ := @Edited.of_ifAny _ _ _ _ _ _ _ _ _ ['/', '*'] ['*', '/'] h
      hnodes (by rw [htake]; simp) rfl rfl (fun _ => by simp [ReadsBack])
    have hclosed := @blockComment_of_closed frames m new offset' rest'
      (by simpa [ReadsBack] using hreads)
    have hstep := (@codeStep_blockComment hasElements _ _ offset' _).trans hclosed
    rw [show new ++ '*' :: '/' :: rest' = new ++ ['*', '/'] ++ rest' by simp] at hstep
    refine ⟨'*' :: (new ++ ['*', '/']), by simp, .of_eq hstep hframes.symm hmemory.symm ?_ ?_⟩
    · refine List.drop_left' ?_
      simp only [List.length_cons, List.length_append, List.length_nil]
      omega
    · exact ifAny_eq_settle hnew id (settled_comment offset' _ new 2)
  · obtain ⟨new, rfl, hnew, hreads⟩ := @Edited.of_ifAny _ _ _ _ _ _ _ _ _ ['/', '*'] [] h hnodes
      (by rw [htake]; simp) rfl rfl (fun _ => by simp [ReadsBack])
    obtain rfl := h.rest_nil hdrop
    have hstep := (@codeStep_blockComment hasElements _ _ offset' new).trans
      (@blockComment_of_open frames m new offset' (by simpa [ReadsBack] using hreads))
    rw [← List.append_nil ('*' :: new)] at hstep
    refine ⟨'*' :: new, by simp, .of_eq hstep hframes.symm hmemory.symm ?_ ?_⟩
    · exact List.drop_left' (Nat.add_comm new.length 1)
    · exact ifAny_eq_settle hnew id (settled_comment offset' _ new 0)

/-- Where a string settles. -/
theorem settled_string {quote : Char} (hquote : quote = '"' ∨ quote = '\'')
    (hsplit : ∃ pre, content = pre ++ quote :: t ∧ pre.byteLength = offset) (offset' : Nat)
    (value new : Text) (closing : Nat) (isModule : Bool) :
    (⟨.string, new, offset', offset' + 1 + new.byteLength + closing, offset' + 1,
        isModule⟩ : Node).ifAny
      = (renew content ⟨.string, value, offset, offset + 1 + value.byteLength + closing, offset + 1,
          isModule⟩ new (offset' + (offset - offset))).ifAny := by
  have hsize : quote.utf8Size = 1 := by rcases hquote with rfl | rfl <;> rfl
  obtain ⟨pre, hcontent, hpre⟩ := hsplit
  rw [renew_of_delimited]
  · congr 1
    simp only [Node.mk.injEq, true_and, and_true, Nat.sub_self, Nat.add_zero, Node.contentStop]
    omega
  · rw [isChildText, @openingOf_eq content pre [quote] t _ (by rw [hcontent]; simp) hpre
      (by simp [hsize])]
    simp [quoteOf?, hquote]

/-- A string is mirrored by a string, be it in code or in a tag. -/
theorem mirrors_stringLiteral {f : Nat → Char → Text → Step} {quote : Char}
    (hquote : quote = '"' ∨ quote = '\'')
    (hf : ∀ o x, f o quote x = stringLiteral frames m o quote x) (offset' : Nat)
    (h : Edited content offset quote t (stringLiteral frames m offset quote t) us used rest') :
    ∃ t', used = quote :: t' ∧
      Mirrors content offset f (stringLiteral frames m offset quote t) us offset' quote t'
        rest' := by
  have hsize : quote.utf8Size = 1 := by rcases hquote with rfl | rfl <;> rfl
  have hopen : quoteOf? [quote] = some quote := by simp [quoteOf?, hquote]
  rcases take_stringLiteral frames m offset quote t with
    ⟨body, close, rest, rfl, hclose, hr, htake, hdrop⟩ | ⟨hr, htake, hdrop⟩
  · obtain ⟨new, rfl, hnew, hreads⟩ := @Edited.of_ifAny _ _ _ _ _ _ _ _
      ⟨.string, body, offset, offset + 1 + body.byteLength + 1, offset + 1, m.expectsModule⟩
      [quote] [close] h (by simp only [stringLiteral, hr, ↓reduceIte]) (by rw [htake]; simp) rfl
      (by simp [hsize]) fun hempty => by
        obtain rfl : body = [] := hempty
        simp only [ReadsBack, hopen, hdrop]
        exact congrArg Prod.fst hr
    simp only [ReadsBack, hopen, hdrop] at hreads
    have hr' := stringBody_of_reads rest' hclose (ne_backslash_of_closes hquote hclose) hreads
    rw [show new ++ close :: rest' = new ++ [close] ++ rest' by simp] at hr'
    refine ⟨new ++ [close], by simp, .of_eq (hf _ _) rfl rfl ?_ ?_⟩
    · simp only [stringLiteral, hr', ↓reduceIte]
      exact List.drop_left' List.length_append
    · simp only [stringLiteral, hr', ↓reduceIte]
      exact ifAny_eq_settle hnew id (settled_string hquote h.split offset' body new 1 _)
  · obtain ⟨new, rfl, hnew, hreads⟩ := @Edited.of_ifAny _ _ _ _ _ _ _ _
      ⟨.string, t, offset, offset + 1 + t.byteLength, offset + 1, m.expectsModule⟩ [quote] [] h
      (by simp only [stringLiteral, hr]; rfl) (by rw [htake]; simp) rfl (by simp [hsize])
      fun hempty => by
        obtain rfl : t = [] := hempty
        simp [ReadsBack, hopen, hr, hdrop]
    simp only [ReadsBack, hopen, hdrop, List.append_nil] at hreads
    have hr' : stringBody quote (new ++ []) = (new, false) := by
      rw [List.append_nil]
      exact stringBody_of_reads_end hreads
    obtain rfl := h.rest_nil hdrop
    refine ⟨new, by simp, .of_eq (hf _ _) rfl rfl ?_ ?_⟩
    · simp only [stringLiteral, hr']
      simp
    · simp only [stringLiteral, hr']
      exact ifAny_eq_settle hnew id (settled_string hquote h.split offset' t new 0 _)

/-- A template is mirrored by a template. -/
theorem mirrors_template (offset' : Nat)
    (h : Edited content offset '`' t (template frames m offset t) us used rest') :
    ∃ t', used = '`' :: t' ∧ Mirrors content offset (codeStep hasElements frames m)
      (template frames m offset t) us offset' '`' t' rest' := by
  obtain ⟨pre, hsplit, hpre⟩ := h.split
  have hus : us.map (·.1) = fragmentNodes (templateScan (offset + 1) t).fragments := h.nodes
  have hlaid := laid_template (offset + 1) t
  rw [← hus] at hlaid
  obtain ⟨_, t', rfl, hs₁, ht', hsettle⟩ := @substituted_append content offset ['`'] _ [] _ _ [] us
    trivial hlaid h.taken
  obtain rfl := Option.some.inj hs₁
  have hstart : offset + 1 = (pre ++ ['`']).byteLength := by
    rw [Text.byteLength_append, hpre]
    rfl
  obtain ⟨htake, hclosed, hnodes⟩ := @template_new content (pre ++ ['`']) t t' rest' us
    (by simp [hsplit]) (hstart ▸ hus) (hstart ▸ ht') h.stands (hstart ▸ h.rest_nil) (offset' + 1)
  rw [← hstart] at hclosed hnodes
  refine ⟨t', rfl, ?_⟩
  have hstep := @codeStep_backtick hasElements frames m offset' (t' ++ rest')
  constructor
  case frames => rw [hstep]; rfl
  case memory =>
    rw [hstep]
    simp only [template, hclosed]
  case rest =>
    rw [hstep]
    simp only [template, htake]
    rw [List.drop_left]
  case nodes =>
    rw [hstep]
    exact hnodes.trans (hsettle offset').symm

theorem head?_take_append {t rest' : Text} {k : Nat} (h : rest'.head? = (t.drop k).head?) :
    (t.take k ++ rest').head? = t.head? := by
  cases k with
  | zero => simpa using h
  | succ k =>
    cases t with
    | nil => simpa using h
    | cons d t => rfl

/-- A step that finds no node takes the same characters in the new file. -/
theorem Edited.of_nodes_eq_nil {s : Step} (h : Edited content offset c t s us used rest')
    (hnodes : s.nodes = []) : us = [] ∧ used = c :: t.take s.extra := by
  obtain rfl := List.map_eq_nil_iff.1 (h.nodes.trans hnodes)
  exact ⟨rfl, (Option.some.inj h.taken).symm⟩

/-- What follows the characters that a step takes is left over, even if the file ends among them. -/
theorem Edited.drop_extra {s : Step} (h : Edited content offset c t s us used rest') :
    (t.take s.extra ++ rest').drop s.extra = rest' := by
  rcases Nat.le_total s.extra t.length with hle | hge
  · rw [List.drop_append_of_le_length (by rw [List.length_take]; omega), List.drop_take]
    simp
  · rw [h.rest_nil (List.drop_eq_nil_of_le hge), List.append_nil, List.take_of_length_le hge,
      List.drop_eq_nil_of_le hge]

/-- A step that finds no node is mirrored by an equal step. -/
theorem Edited.mirrors_of_eq {f : Nat → Char → Text → Step} {s : Step} {offset' : Nat}
    (h : Edited content offset c t s us used rest') (hnodes : s.nodes = [])
    (hf : f offset' c (t.take s.extra ++ rest') = s) :
    ∃ t', used = c :: t' ∧ Mirrors content offset f s us offset' c t' rest' := by
  obtain ⟨rfl, hused⟩ := h.of_nodes_eq_nil hnodes
  refine ⟨t.take s.extra, hused, by rw [hf], by rw [hf], ?_, ?_⟩
  · rw [hf]
    exact h.drop_extra
  · rw [hf, hnodes]
    rfl

/-- A character that starts no comment, string or template. -/
theorem codeStep_plain {o : Nat} {t : Text}
    (hslash : c = '/' → t.head? ≠ some '/' ∧ t.head? ≠ some '*')
    (hquote : ¬ (c = '"' ∨ c = '\'')) (htick : c ≠ '`') :
    codeStep hasElements frames m o c t
      = if startsWord c then word frames o c t
        else if c.isDigit then
          ⟨[], frames, { m with last := some '0' }, (t.takeWhile continuesNumber).length⟩
        else if c = '<' ∧ opensTag hasElements m t then openTag frames m
        else if c = '}' ∧ frames.head? = some (.container 0) then
          ⟨[], frames.drop 1, { m with last := some '}' }, 0⟩
        else codeChar frames m c := by
  rw [codeStep, if_neg fun h => (hslash h.1).1 h.2, if_neg fun h => (hslash h.1).2 h.2,
    if_neg hquote, if_neg htick]

/-- A word goes on in the new file where it went on in the old one. -/
theorem mirrors_word {f : Nat → Char → Text → Step} (offset' : Nat)
    (h : Edited content offset c t (word frames offset c t) us used rest')
    (hhead : rest'.head? = (t.drop (word frames offset c t).extra).head?)
    (hf : f offset' c (t.take (word frames offset c t).extra ++ rest')
      = word frames offset' c (t.take (word frames offset c t).extra ++ rest')) :
    ∃ t', used = c :: t' ∧
      Mirrors content offset f (word frames offset c t) us offset' c t' rest' := by
  have hextra : (word frames offset c t).extra = (t.takeWhile continuesWord).length := by
    simp [word]
  have htake : t.take (word frames offset c t).extra = t.takeWhile continuesWord := by
    rw [hextra, take_length_takeWhile]
  have hdrop := h.drop_extra
  rw [htake] at hf hdrop
  have hbody : (t.takeWhile continuesWord ++ rest').takeWhile continuesWord
      = t.takeWhile continuesWord := by
    refine takeWhile_append_of_head (List.all_eq_true.1 List.all_takeWhile) fun d hd => ?_
    rw [hhead, hextra] at hd
    exact head?_drop_takeWhile hd
  have hstep : f offset' c (t.takeWhile continuesWord ++ rest') = word frames offset' c t := by
    rw [hf, word, word, hbody]
  have hrest : (t.takeWhile continuesWord ++ rest').drop (word frames offset' c t).extra = rest' :=
    hdrop
  -- a keyword is no node, and an identifier is one that keeps its text
  by_cases hkeyword : keywords.contains (c :: t.takeWhile continuesWord)
  · obtain ⟨rfl, hused⟩ := h.of_nodes_eq_nil (by rw [word, if_pos hkeyword])
    rw [htake] at hused
    refine ⟨_, hused, by rw [hstep]; rfl, by rw [hstep]; rfl, by rw [hstep]; exact hrest, ?_⟩
    rw [hstep, word, if_pos hkeyword]
    rfl
  · obtain ⟨new, hused, hus, hreads⟩ := @Edited.of_ifAny _ _ _ _ _ _ _ _
      ⟨.identifier, c :: t.takeWhile continuesWord, offset,
        offset + Text.byteLength (c :: t.takeWhile continuesWord), offset, false⟩ [] [] h
      (by rw [word, if_neg hkeyword]; rfl) (by simp [htake]) rfl rfl (fun hempty => by cases hempty)
    obtain rfl : new = c :: t.takeWhile continuesWord := hreads
    rcases hus with ⟨-, hempty⟩ | rfl
    · cases hempty
    · refine ⟨t.takeWhile continuesWord, by simpa using hused, by rw [hstep]; rfl,
        by rw [hstep]; rfl, by rw [hstep]; exact hrest, ?_⟩
      rw [hstep, word, if_neg hkeyword, settle, settle,
        renew_of_delimited _ _ (isChildText_of_kind (by simp))]
      simp [Node.ifAny, Node.contentStop]

theorem countBrace_head? (c : Char) (frames : List Frame) :
    (countBrace c frames).head? = some .children ↔ frames.head? = some .children := by
  rw [countBrace.eq_def]
  split
  · split
    · simp
    · split <;> simp
  · exact Iff.rfl

theorem codeChar_frames_head? (c : Char) (frames : List Frame) (m : Memory) :
    (codeChar frames m c).frames.head? = some .children ↔ frames.head? = some .children := by
  rw [codeChar]
  split
  · exact Iff.rfl
  · exact countBrace_head? c frames

/-- A character in code that starts no comment, string or template is mirrored by itself. -/
theorem mirrors_plain (offset' : Nat) (hframes : frames.head? ≠ some .children)
    (hslash : c = '/' → t.head? ≠ some '/' ∧ t.head? ≠ some '*')
    (hquote : ¬ (c = '"' ∨ c = '\'')) (htick : c ≠ '`')
    (h : Edited content offset c t (codeStep hasElements frames m offset c t) us used rest') :
    ∃ t', used = c :: t' ∧ Mirrors content offset (codeStep hasElements frames m)
      (codeStep hasElements frames m offset c t) us offset' c t' rest' := by
  -- the rest starts as before unless a brace has led back between tags
  have hplain : ∀ k : Nat, rest'.head? = (t.drop k).head? →
      c = '/' → (t.take k ++ rest').head? ≠ some '/' ∧ (t.take k ++ rest').head? ≠ some '*' :=
    fun k hk => by rw [head?_take_append hk]; exact hslash
  rw [codeStep_plain hslash hquote htick] at h ⊢
  by_cases hword : startsWord c = true
  · rw [if_pos hword] at h ⊢
    have hhead := h.rest_head fun hc => absurd hc hframes
    refine mirrors_word offset' h hhead ?_
    rw [codeStep_plain (hplain _ hhead) hquote htick, if_pos hword]
  rw [if_neg hword] at h ⊢
  by_cases hdigit : c.isDigit = true
  · rw [if_pos hdigit] at h ⊢
    have hhead := h.rest_head fun hc => absurd hc hframes
    refine h.mirrors_of_eq rfl ?_
    rw [codeStep_plain (hplain _ hhead) hquote htick, if_neg hword, if_pos hdigit]
    simp only [take_length_takeWhile] at hhead ⊢
    rw [takeWhile_append_of_head (List.all_eq_true.1 List.all_takeWhile)]
    intro d hd
    rw [hhead] at hd
    exact head?_drop_takeWhile hd
  rw [if_neg hdigit] at h ⊢
  by_cases htag : c = '<' ∧ opensTag hasElements m t = true
  · rw [if_pos htag] at h ⊢
    have hhead := h.rest_head fun hc => by cases hc
    refine h.mirrors_of_eq rfl ?_
    have hopens := htag.2
    rw [codeStep_plain (hplain _ hhead) hquote htick, if_neg hword, if_neg hdigit, if_pos]
    refine ⟨htag.1, ?_⟩
    rw [opensTag, head?_take_append hhead]
    exact hopens
  rw [if_neg htag] at h ⊢
  by_cases hclose : c = '}' ∧ frames.head? = some (.container 0)
  · rw [if_pos hclose] at h ⊢
    refine h.mirrors_of_eq rfl ?_
    obtain ⟨rfl, hcontainer⟩ := hclose
    rw [codeStep_plain (by simp) hquote htick, if_neg hword, if_neg hdigit, if_neg (by simp),
      if_pos ⟨rfl, hcontainer⟩]
  rw [if_neg hclose] at h ⊢
  have hhead := h.rest_head fun hc =>
    absurd ((codeChar_frames_head? c frames m).1 hc) hframes
  refine h.mirrors_of_eq (by rw [codeChar]; split <;> rfl) ?_
  rw [codeStep_plain (hplain _ hhead) hquote htick, if_neg hword, if_neg hdigit, if_neg,
    if_neg hclose]
  rintro ⟨rfl, hopens⟩
  rw [opensTag, head?_take_append hhead] at hopens
  exact htag ⟨rfl, hopens⟩

/-- A step in code is mirrored by a step in code. -/
theorem mirrors_codeStep (offset' : Nat) (hframes : frames.head? ≠ some .children)
    (h : Edited content offset c t (codeStep hasElements frames m offset c t) us used rest') :
    ∃ t', used = c :: t' ∧ Mirrors content offset (codeStep hasElements frames m)
      (codeStep hasElements frames m offset c t) us offset' c t' rest' := by
  by_cases hline : c = '/' ∧ t.head? = some '/'
  · obtain ⟨rfl, ht⟩ := hline
    obtain ⟨t, rfl⟩ := List.head?_eq_some_iff.1 ht
    rw [codeStep_lineComment] at h ⊢
    exact mirrors_lineComment offset' h hframes
  by_cases hblock : c = '/' ∧ t.head? = some '*'
  · obtain ⟨rfl, ht⟩ := hblock
    obtain ⟨t, rfl⟩ := List.head?_eq_some_iff.1 ht
    rw [codeStep_blockComment] at h ⊢
    exact mirrors_blockComment offset' h
  by_cases hquote : c = '"' ∨ c = '\''
  · rw [codeStep_quote hquote] at h ⊢
    exact mirrors_stringLiteral hquote (codeStep_quote hquote) offset' h
  by_cases htick : c = '`'
  · subst htick
    rw [codeStep_backtick] at h ⊢
    exact mirrors_template offset' h
  exact mirrors_plain offset' hframes
    (fun hc => ⟨fun ht => hline ⟨hc, ht⟩, fun ht => hblock ⟨hc, ht⟩⟩) hquote htick h

/-- A step in a tag is mirrored by a step in a tag. -/
theorem mirrors_tagStep (offset' : Nat) (hframes : frames.head? ≠ some .children)
    (h : Edited content offset c t (tagStep frames m offset c t) us used rest') :
    ∃ t', used = c :: t' ∧
      Mirrors content offset (tagStep frames m) (tagStep frames m offset c t) us offset' c t'
        rest' := by
  by_cases hquote : c = '"' ∨ c = '\''
  · have hstring : ∀ o x, tagStep frames m o c x = stringLiteral frames m o c x :=
      fun o x => if_pos hquote
    rw [hstring] at h ⊢
    exact mirrors_stringLiteral hquote hstring offset' h
  simp only [tagStep, if_neg hquote] at h ⊢
  by_cases hopen : c = '{'
  · rw [if_pos hopen] at h ⊢
    exact h.mirrors_of_eq rfl (by rw [tagStep, if_neg hquote, if_pos hopen])
  rw [if_neg hopen] at h ⊢
  by_cases hclose : c = '/' ∧ t.head? = some '>'
  · rw [if_pos hclose] at h ⊢
    refine h.mirrors_of_eq rfl ?_
    obtain ⟨hc, hhead⟩ := hclose
    obtain ⟨t, rfl⟩ := List.head?_eq_some_iff.1 hhead
    rw [tagStep, if_neg hquote, if_neg hopen, if_pos ⟨hc, rfl⟩]
  rw [if_neg hclose] at h ⊢
  by_cases hend : c = '>'
  · rw [if_pos hend] at h ⊢
    refine h.mirrors_of_eq rfl ?_
    rw [tagStep, if_neg hquote, if_neg hopen, if_neg (by simp [hend]), if_pos hend]
  rw [if_neg hend] at h ⊢
  have hhead := h.rest_head fun hc => absurd hc hframes
  refine h.mirrors_of_eq rfl ?_
  rw [tagStep, if_neg hquote, if_neg hopen, if_neg, if_neg hend]
  rw [head?_take_append hhead]
  exact hclose

/-- A string that has only blanks for an opening delimiter is text between tags. -/
theorem isChildText_of_blank {content pre lead rest : Text} {n : Node}
    (hcontent : content = pre ++ lead ++ rest) (hstart : pre.byteLength = n.start)
    (hlead : n.start + lead.byteLength = n.contentStart)
    (hblank : ∀ c ∈ lead, Unicode.isWhitespace c = true) (hkind : n.kind = .string) :
    isChildText content n = true := by
  rw [isChildText, @openingOf_eq content pre lead rest n hcontent hstart hlead,
    quoteOf?_of_whitespace hblank, hkind]
  rfl

/-- Text between tags that ends where its file goes on is one step. -/
theorem childStep_append {c : Char} {t rest : Text}
    (hinside : ∀ d ∈ c :: t, endsChildText d = false)
    (hend : ∀ d, rest.head? = some d → endsChildText d = true) (o : Nat) :
    childStep frames m o c (t ++ rest)
      = ⟨Node.ifAny ⟨.string, Text.trim (c :: t), o, o + Text.byteLength (c :: t),
          o + (Text.byteLength (c :: t) - Text.byteLength (Text.trimStart (c :: t))), false⟩,
        frames, m, t.length⟩ := by
  have hbody : (t ++ rest).takeWhile (!endsChildText ·) = t := by
    refine takeWhile_append_of_head (fun d hd => ?_) fun d hd => ?_
    · simpa using hinside d (List.mem_cons_of_mem c hd)
    · simpa using hend d hd
  have hstep := childStep_text frames m (hinside c List.mem_cons_self) o (t ++ rest)
  rw [hbody] at hstep
  exact hstep

/-- Where text between tags settles. -/
theorem settled_childText {content lead value trail new : Text} {n : Node} (offset' : Nat)
    (hlead : ∀ c ∈ lead, Unicode.isWhitespace c = true)
    (htrail : ∀ c ∈ trail, Unicode.isWhitespace c = true)
    (hn : n = ⟨.string, value, offset, offset + (lead ++ value ++ trail).byteLength,
      offset + lead.byteLength, false⟩) (htext : isChildText content n = true) :
    let text := lead ++ new ++ trail
    (⟨.string, text.trim, offset', offset' + text.byteLength,
        offset' + (text.byteLength - text.trimStart.byteLength), false⟩ : Node).ifAny
      = (renew content n new (offset' + (n.start - offset))).ifAny := by
  intro text
  have htrim : text.trim = new.trim := Text.trim_append_of_blank new hlead htrail
  by_cases hblank : new.trim = []
  · simp [Node.ifAny, renew, htext, htrim, hblank]
  · have hstart : text.trimStart = new.trimStart ++ trail :=
      Text.trimStart_append_of_blank hlead hblank
    have hle := Text.byteLength_trimStart_le new
    congr 1
    rw [renew, htext, htrim, hstart, hn]
    simp only [↓reduceIte, Node.mk.injEq, true_and, and_true, Node.contentStop,
      Text.byteLength_append, text]
    omega

/-- Text between tags is mirrored by text between tags, unless nothing is left of it. -/
theorem mirrors_childText (offset' : Nat) (hc : endsChildText c = false)
    (h : Edited content offset c t (childStep frames m offset c t) us used rest') :
    (∃ c' t', used = c' :: t' ∧
        Mirrors content offset (childStep frames m) (childStep frames m offset c t) us offset' c' t'
          rest') ∨
      used = [] ∧ (childStep frames m offset c t).frames = frames ∧
        (childStep frames m offset c t).memory = m ∧ settle content offset offset' us = [] := by
  obtain ⟨text, htext⟩ : ∃ text : Text, c :: t.takeWhile (!endsChildText ·) = text := ⟨_, rfl⟩
  have hstep := childStep_text frames m hc offset t
  have hinside := endsChildText_of_mem hc t
  rw [htext] at hstep hinside
  simp only at hstep
  obtain ⟨lead, trail, hsplit, hlead, hleadBlank, htrailBlank⟩ := Text.trim_split text
  obtain ⟨n, hn⟩ : ∃ n : Node, n = ⟨.string, text.trim, offset, offset + text.byteLength,
    offset + (text.byteLength - text.trimStart.byteLength), false⟩ := ⟨_, rfl⟩
  rw [← hn] at hstep
  rw [hstep] at h ⊢
  have htext' : isChildText content n = true := by
    obtain ⟨pre, hpre, hoffset⟩ := h.split
    have hread : c :: t = lead ++ (text.trim ++ trail ++ t.dropWhile (!endsChildText ·)) := by
      rw [← List.append_assoc, ← List.append_assoc, ← hsplit, ← htext, List.cons_append,
        List.takeWhile_append_dropWhile]
    exact @isChildText_of_blank content pre lead _ n
      (by rw [hpre, hread, ← List.append_assoc]) (by rw [hn]; exact hoffset) (by rw [hn, hlead])
      hleadBlank (by rw [hn])
  have htake : c :: t.take (t.takeWhile (!endsChildText ·)).length = lead ++ n.value ++ trail := by
    rw [take_length_takeWhile, htext, hn]
    exact hsplit
  obtain ⟨new, rfl, hus, hreads⟩ := h.of_ifAny rfl htake (by rw [hn]) (by rw [hn, hlead])
    fun _ => by simp [ReadsBack, hn, quoteOf?_of_whitespace hleadBlank]
  simp only [ReadsBack, hn, quoteOf?_of_whitespace hleadBlank] at hreads
  have hinsideNew : ∀ d ∈ lead ++ new ++ trail, endsChildText d = false := by
    intro d hd
    rcases List.mem_append.1 hd with hd | hd
    · rcases List.mem_append.1 hd with hd | hd
      · exact hinside d (by rw [hsplit]; simp [hd])
      · exact hreads d hd
    · exact hinside d (by rw [hsplit]; simp [hd])
  have hend : ∀ d, rest'.head? = some d → endsChildText d = true := by
    have hold : ∀ d, (t.drop (t.takeWhile (!endsChildText ·)).length).head? = some d →
        endsChildText d = true := fun d hd => by simpa using head?_drop_takeWhile hd
    intro d hd
    rw [h.rest_head fun _ => hold] at hd
    exact hold d hd
  -- a new text of nothing may leave no character to take a step at
  cases hused : lead ++ new ++ trail with
  | nil =>
    refine .inr ⟨rfl, rfl, rfl, ?_⟩
    obtain ⟨-, hnew⟩ := List.append_eq_nil_iff.1 (List.append_eq_nil_iff.1 hused).1
    rcases hus with ⟨rfl, -⟩ | rfl
    · rfl
    · simp [settle, renew, hnew, Node.ifAny, Text.trim_of_blank]
  | cons c' t' =>
    rw [hused] at hinsideNew
    refine .inl ⟨c', t', rfl, .of_eq (childStep_append hinsideNew hend offset') rfl rfl ?_ ?_⟩
    · exact List.drop_left
    · rw [← hused]
      refine ifAny_eq_settle hus (fun hnew => ?_)
        (settled_childText offset' hleadBlank htrailBlank (by rw [hn, hlead, ← hsplit]) htext')
      rw [hnew]
      exact Text.trim_append_of_blank [] hleadBlank htrailBlank

/-- A closing tag reaches as far in the new file. -/
theorem mirrors_closingTag (offset' : Nat) (ht : t.head? = some '/')
    (h : Edited content offset '<' t
      (closeElement frames m ((t.takeWhile (· != '>')).length + 1)) us used rest') :
    ∃ t', used = '<' :: t' ∧ Mirrors content offset (childStep frames m)
      (closeElement frames m ((t.takeWhile (· != '>')).length + 1)) us offset' '<' t' rest' := by
  have hstep : ∀ x : Text, x.head? = some '/' → childStep frames m offset' '<' x
      = closeElement frames m ((x.takeWhile (· != '>')).length + 1) := by
    intro x hx
    rw [childStep, if_neg (by decide), if_pos rfl, if_pos hx]
  refine h.mirrors_of_eq rfl ?_
  simp only [closeElement]
  have hhead : (t.take ((t.takeWhile (· != '>')).length + 1) ++ rest').head? = some '/' := by
    cases t with
    | nil => cases ht
    | cons d t => exact ht
  rw [hstep _ hhead, closeElement]
  -- the tag ends at its bracket, or where the file does
  have hsplit : t.takeWhile (· != '>') ++ t.dropWhile (· != '>') = t :=
    List.takeWhile_append_dropWhile
  have htake := congrArg (List.take ((t.takeWhile (· != '>')).length + 1)) hsplit
  rw [List.take_length_add_append] at htake
  rw [← htake, List.append_assoc, takeWhile_append_of_head (List.all_eq_true.1 List.all_takeWhile)]
  intro d hd
  cases hdrop : t.dropWhile (· != '>') with
  | nil =>
    rw [hdrop, List.append_nil] at hsplit
    have hend : t.length ≤ (t.takeWhile (· != '>')).length + 1 := by
      rw [hsplit]
      omega
    rw [hdrop, h.rest_nil (List.drop_eq_nil_of_le hend)] at hd
    cases hd
  | cons e r =>
    rw [hdrop] at hd
    obtain rfl : e = d := Option.some.inj hd
    have hnot := List.head?_dropWhile_not (· != '>') t
    rw [hdrop] at hnot
    simpa using hnot

/-- What ends text between tags is mirrored. -/
theorem mirrors_childStep (offset' : Nat) (hc : endsChildText c = true)
    (h : Edited content offset c t (childStep frames m offset c t) us used rest') :
    ∃ t', used = c :: t' ∧
      Mirrors content offset (childStep frames m) (childStep frames m offset c t) us offset' c t'
        rest' := by
  rcases (show c = '<' ∨ c = '{' by simpa [endsChildText] using hc) with rfl | rfl
  · by_cases ht : t.head? = some '/'
    · have hstep : childStep frames m offset '<' t
          = closeElement frames m ((t.takeWhile (· != '>')).length + 1) := by
        rw [childStep, if_neg (by decide), if_pos rfl, if_pos ht]
      rw [hstep] at h ⊢
      exact mirrors_closingTag offset' ht h
    · have hstep : ∀ o (x : Text), x.head? ≠ some '/' →
          childStep frames m o '<' x = openTag frames m := by
        intro o x hx
        rw [childStep, if_neg (by decide), if_pos rfl, if_neg hx]
      rw [hstep offset t ht] at h ⊢
      have hhead := h.rest_head fun hc => by cases hc
      refine h.mirrors_of_eq rfl (hstep offset' _ ?_)
      rw [head?_take_append hhead]
      exact ht
  · exact h.mirrors_of_eq rfl rfl

theorem step_of_children (hframes : frames.head? = some .children) :
    step hasElements frames m = childStep frames m := by
  funext o x y
  rw [step, hframes]

/-- A step that takes text between tags is mirrored, unless nothing is left of the text. -/
theorem mirrors_step_text (offset' : Nat) (hframes : frames.head? = some .children)
    (hc : endsChildText c = false)
    (h : Edited content offset c t (step hasElements frames m offset c t) us used rest') :
    (∃ c' t', used = c' :: t' ∧ Mirrors content offset (step hasElements frames m)
        (step hasElements frames m offset c t) us offset' c' t' rest') ∨
      used = [] ∧ (step hasElements frames m offset c t).frames = frames ∧
        (step hasElements frames m offset c t).memory = m ∧
        settle content offset offset' us = [] := by
  rw [step_of_children hframes] at h ⊢
  exact mirrors_childText offset' hc h

/-- A step that takes no text between tags is mirrored. -/
theorem mirrors_step (offset' : Nat) (hc : frames.head? = some .children → endsChildText c = true)
    (h : Edited content offset c t (step hasElements frames m offset c t) us used rest') :
    ∃ t', used = c :: t' ∧ Mirrors content offset (step hasElements frames m)
      (step hasElements frames m offset c t) us offset' c t' rest' := by
  match hframes : frames.head? with
  | some .tag =>
    have hstep : step hasElements frames m = tagStep frames m := by
      funext o x y
      rw [step, hframes]
    rw [hstep] at h ⊢
    exact mirrors_tagStep offset' (by simp [hframes]) h
  | some .children =>
    rw [step_of_children hframes] at h ⊢
    exact mirrors_childStep offset' (hc hframes) h
  | some (.container _) | none =>
    have hstep : step hasElements frames m = codeStep hasElements frames m := by
      funext o x y
      rw [step, hframes]
    rw [hstep] at h ⊢
    exact mirrors_codeStep offset' (by simp [hframes]) h

end Steps

/-! ## The scan -/

/-- A scan that starts with a mirrored step goes on from the state of the old one. -/
theorem Mirrors.nodesFrom_eq {content : Text} {offset offset' : Nat} {c : Char} {t' rest' : Text}
    {us : List (Node × Text)} {hasElements : Bool} {frames : List Frame} {m : Memory} {s : Step}
    (h : Mirrors content offset (step hasElements frames m) s us offset' c t' rest') :
    nodesFrom hasElements frames m offset' (c :: t' ++ rest')
      = settle content offset offset' us
        ++ nodesFrom hasElements s.frames s.memory (offset' + Text.byteLength (c :: t')) rest' := by
  have htake : (t' ++ rest').take (step hasElements frames m offset' c (t' ++ rest')).extra
      = t' := by
    have hall := List.take_append_drop
      (step hasElements frames m offset' c (t' ++ rest')).extra (t' ++ rest')
    rw [h.rest] at hall
    exact List.append_cancel_right hall
  rw [List.cons_append, nodesFrom, h.frames, h.memory, h.rest, h.nodes, htake,
    Text.byteLength_cons, Nat.add_assoc]

/-- **With new texts that are read back, a scan finds the old nodes again, each where it settles.**
-/
theorem nodesFrom_eq_settle {content pre t s : Text} {us : List (Node × Text)} (hasElements : Bool)
    (frames : List Frame) (m : Memory) (offset : Nat) (hsplit : content = pre ++ t)
    (hpre : pre.byteLength = offset) (hus : us.map (·.1) = nodesFrom hasElements frames m offset t)
    (hs : substituteFrom offset (us.map region) t = some s)
    (hstands : ∀ u ∈ us, StandsIn content u) :
    (∀ offset', nodesFrom hasElements frames m offset' s = settle content offset offset' us) ∧
      (t = [] → s = []) ∧
      ((frames.head? = some .children → ∀ d, t.head? = some d → endsChildText d = true) →
        s.head? = t.head?) := by
  -- each step needs to know of the rest that it ends where it did and how it starts
  fun_induction nodesFrom hasElements frames m offset t generalizing pre us s with
  | case1 =>
    obtain rfl := List.map_eq_nil_iff.1 hus
    obtain rfl := Option.some.inj hs
    refine ⟨fun offset' => ?_, fun _ => rfl, fun _ => rfl⟩
    rw [nodesFrom]
    rfl
  | case2 frames m offset c t st =>
    rename_i ih
    obtain ⟨us₁, us₂, rfl, hus₁, hus₂⟩ := List.map_eq_append_iff.1 hus
    have hbytes : offset + c.utf8Size + Text.byteLength (t.take st.extra)
        = offset + Text.byteLength (c :: t.take st.extra) := by
      rw [Text.byteLength_cons, Nat.add_assoc]
    have htext : (c :: t.take st.extra) ++ t.drop st.extra = c :: t := by
      rw [List.cons_append, List.take_append_drop]
    rw [hbytes] at hus₂ ih
    rw [← htext] at hs
    have hlaid₁ : Laid offset (c :: t.take st.extra) (t.drop st.extra) st.nodes :=
      laid_step hasElements frames m offset c t
    have hlaid₂ := laid_nodesFrom hasElements st.frames st.memory
      (offset + Text.byteLength (c :: t.take st.extra)) (t.drop st.extra)
    rw [← hus₁] at hlaid₁
    rw [← hus₂] at hlaid₂
    obtain ⟨used, rest', rfl, hused, hrest, hsettle⟩ :=
      @substituted_append content _ _ _ _ _ _ _ _ hlaid₁ hlaid₂ hs
    obtain ⟨hlater, hnil, hhead⟩ := ih
      (show content = (pre ++ c :: t.take st.extra) ++ t.drop st.extra by
        rw [hsplit, ← htext, List.append_assoc])
      (by rw [Text.byteLength_append, hpre]) hus₂ hrest
      fun u hu => hstands u (List.mem_append_right _ hu)
    have hedited : Edited content offset c t st us₁ used rest' :=
      ⟨⟨pre, hsplit, hpre⟩, hus₁, hused, fun u hu => hstands u (List.mem_append_left _ hu), hnil,
        hhead⟩
    by_cases hc : frames.head? = some .children → endsChildText c = true
    · refine ⟨fun offset' => ?_, fun hempty => absurd hempty (List.cons_ne_nil c t), fun _ => ?_⟩
      · obtain ⟨t', rfl, hm⟩ := mirrors_step offset' hc hedited
        rw [hm.nodesFrom_eq, hlater, hsettle]
      · obtain ⟨t', rfl, -⟩ := mirrors_step 0 hc hedited
        rfl
    · -- text between tags may start with another character now, or be gone
      obtain ⟨hframes, hends⟩ := Classical.not_imp.1 hc
      refine ⟨fun offset' => ?_, fun hempty => absurd hempty (List.cons_ne_nil c t),
        fun h => absurd (h hframes c rfl) hends⟩
      rcases mirrors_step_text offset' hframes (by simpa using hends) hedited with
        ⟨c', t', rfl, hm⟩ | ⟨rfl, hf, hm, hgone⟩
      · rw [hm.nodesFrom_eq, hlater, hsettle]
      · rw [hf, hm] at hlater
        rw [List.nil_append, hlater, hsettle, hgone]
        rfl

end CodeProse.Source
