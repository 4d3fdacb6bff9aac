/-
# New texts in the nodes of a file

New texts are put in the place of the texts of the nodes of a file. `settle` says which nodes the
new file should have, and where: the old ones with their new texts, less those that have become
empty.

Where a scan of the new file finds these nodes, each new text is read back from between the
delimiters of its node (`standsIn_of_settle`).
-/
import CodeProse.Proofs.Source.Layout
import CodeProse.Proofs.Substitution

namespace CodeProse.Source

/-! ## New texts -/

/-- The new text of a node in place of its text. -/
def region (u : Node × Text) : Fix :=
  ⟨u.1.contentStart, u.1.contentStop, u.2⟩

/-- The first delimiter of a node of a file. -/
def openingOf (content : Text) (n : Node) : Text :=
  (Text.slice? n.start n.contentStart content).getD []

/-- Whether a node of a file is text between tags. -/
def isChildText (content : Text) (n : Node) : Bool :=
  n.kind == .string && (quoteOf? (openingOf content n)).isNone

/-- A new text is read back where the node stands in a file. -/
def StandsIn (content : Text) (u : Node × Text) : Prop :=
  ∀ lead opening rest, content = lead ++ opening ++ u.1.value ++ rest →
    lead.byteLength = u.1.start → u.1.start + opening.byteLength = u.1.contentStart →
    ReadsBack u.1 opening u.2 rest

theorem openingOf_eq {content lead opening rest : Text} {n : Node}
    (hsplit : content = lead ++ opening ++ rest) (hstart : lead.byteLength = n.start)
    (hcontent : n.start + opening.byteLength = n.contentStart) : openingOf content n = opening := by
  have hslice : Text.slice? n.start n.contentStart content = some opening :=
    (Text.slice?_eq_some_iff _ _ _ _).2 ⟨lead, rest, hsplit, hstart, hcontent⟩
  rw [openingOf, hslice]
  rfl

theorem standsIn_iff {content lead opening rest : Text} {u : Node × Text}
    (hsplit : content = lead ++ opening ++ u.1.value ++ rest) (hstart : lead.byteLength = u.1.start)
    (hcontent : u.1.start + opening.byteLength = u.1.contentStart) :
    StandsIn content u ↔ ReadsBack u.1 opening u.2 rest := by
  constructor
  · intro h
    exact h lead opening rest hsplit hstart hcontent
  · intro h lead' opening' rest' hsplit' hstart' hcontent'
    rw [hsplit, List.append_assoc, List.append_assoc, List.append_assoc, List.append_assoc]
      at hsplit'
    obtain ⟨rfl, hvalue⟩ := Text.append_inj hsplit' (by omega)
    obtain ⟨rfl, hrest⟩ := Text.append_inj hvalue (by omega)
    obtain rfl : rest = rest' := List.append_cancel_left hrest
    exact h

/-- The old text of a laid node stands in the file. -/
theorem Laid.standsIn {pre t : Text} {ns : List Node} (h : Laid pre.byteLength t [] ns) :
    ∀ n ∈ ns, StandsIn (pre ++ t) (n, n.value) := by
  induction ns generalizing pre t with
  | nil => intro n hn; cases hn
  | cons n ns ih =>
    obtain ⟨gap, opening, closing, post, rfl, hstart, hcontent, hdelimits, hrest⟩ := h
    intro n' hn'
    rcases List.mem_cons.1 hn' with rfl | hn'
    · refine (@standsIn_iff _ (pre ++ gap) opening (closing ++ post) _ (by simp) ?_ hcontent).2 ?_
      · rw [Text.byteLength_append, hstart]
      · simpa using hdelimits.reads
    · have hpre : n.contentStop + closing.byteLength
          = (pre ++ gap ++ opening ++ n.value ++ closing).byteLength := by
        simp only [Text.byteLength_append, Node.contentStop]
        omega
      rw [hpre] at hrest
      have hstands := ih hrest n' hn'
      rwa [show pre ++ (gap ++ opening ++ n.value ++ closing ++ post)
        = pre ++ gap ++ opening ++ n.value ++ closing ++ post by simp]

/-! ## Reading does not depend on what follows -/

theorem quote_of_quoteOf? {opening : Text} {quote : Char} (h : quoteOf? opening = some quote) :
    quote = '"' ∨ quote = '\'' := by
  match opening with
  | [c] =>
    rw [quoteOf?] at h
    split at h
    case isTrue hc =>
      obtain rfl := Option.some.inj h
      exact hc
    case isFalse => cases h

/-- What is read back before a closing delimiter is read back whatever follows the delimiter. -/
theorem readsBack_congr {n : Node} {opening closing rest rest' : Text} (new : Text)
    (hcloses : Closes n opening closing rest) (hend : rest = [] → rest' = []) :
    ReadsBack n opening new (closing ++ rest') ↔ ReadsBack n opening new (closing ++ rest) := by
  unfold ReadsBack
  unfold Closes at hcloses
  cases hkind : n.kind with
  | comment => simp only
  | identifier => simp only
  | string =>
    rw [hkind] at hcloses
    simp only at hcloses ⊢
    cases hquote : quoteOf? opening with
    | none => simp only
    | some quote =>
      have hx : ∀ x : Char, x = quote ∨ x = '\n' → ∀ r r' : Text,
          (stringBody quote (new ++ x :: r)).1 = new →
          (stringBody quote (new ++ x :: r')).1 = new := by
        intro x hx r r' h
        rw [stringBody_of_reads r' hx (ne_backslash_of_closes (quote_of_quoteOf? hquote) hx) h]
      simp only
      rcases hcloses quote hquote with rfl | rfl | ⟨rfl, hrest⟩
      · exact ⟨hx quote (.inl rfl) _ _, hx quote (.inl rfl) _ _⟩
      · exact ⟨hx _ (.inr rfl) _ _, hx _ (.inr rfl) _ _⟩
      · rw [hend hrest, hrest]
  | template =>
    rw [hkind] at hcloses
    simp only at hcloses ⊢
    have hx : ∀ r r' : Text, ClosesFragment r → ClosesFragment r' →
        (fragmentBody (new ++ r)).1 = new → (fragmentBody (new ++ r')).1 = new := by
      intro r r' hr hr' h
      rw [fragmentBody_of_reads hr hr' h]
    rcases hcloses with rfl | rfl | ⟨rfl, hrest⟩
    · have htick : ∀ r : Text, ClosesFragment (['`'] ++ r) := fun r => .inl ⟨r, rfl⟩
      exact ⟨hx _ _ (htick _) (htick _), hx _ _ (htick _) (htick _)⟩
    · have hopen : ∀ r : Text, ClosesFragment (['$', '{'] ++ r) := fun r => .inr ⟨r, rfl⟩
      exact ⟨hx _ _ (hopen _) (hopen _), hx _ _ (hopen _) (hopen _)⟩
    · rw [hend hrest, hrest]

/-! ## The nodes of the new file -/

/-- A node with a new text, from `start` on. Text between tags is trimmed. -/
def renew (content : Text) (n : Node) (new : Text) (start : Nat) : Node :=
  let value := if isChildText content n then new.trim else new
  let lead := if isChildText content n then new.byteLength - new.trimStart.byteLength else 0
  let contentStart := start + (n.contentStart - n.start)
  ⟨n.kind, value, start, contentStart + new.byteLength + (n.stop - n.contentStop),
    contentStart + lead, n.isModuleSpecifier⟩

/-- The nodes that take the places of nodes of a file when these have new texts. The places count
from `old` in the file and from `new` in the new one. -/
def settle (content : Text) (old new : Nat) : List (Node × Text) → List Node
  | [] => []
  | u :: us =>
    let start := new + (u.1.start - old)
    (renew content u.1 u.2 start).ifAny ++ settle content u.1.contentStop
      (start + (u.1.contentStart - u.1.start) + u.2.byteLength) us

variable {content : Text}

/-- The places may as well count from later on. -/
theorem settle_add {old : Nat} (new k : Nat) {us : List (Node × Text)}
    (h : ∀ u ∈ us, old + k ≤ u.1.start) :
    settle content (old + k) (new + k) us = settle content old new us := by
  cases us with
  | nil => rfl
  | cons u us =>
    have hstart : new + k + (u.1.start - (old + k)) = new + (u.1.start - old) := by
      have := h u List.mem_cons_self
      omega
    rw [settle, settle, hstart]

/-- The first of some laid nodes, and what has become of it. -/
theorem laid_cons_substituted {old : Nat} {t after s : Text} {u : Node × Text}
    {us : List (Node × Text)} (hlaid : Laid old t after ((u :: us).map (·.1)))
    (hs : substituteFrom old ((u :: us).map region) t = some s) :
    ∃ gap opening closing post later, t = gap ++ opening ++ u.1.value ++ closing ++ post ∧
      s = gap ++ opening ++ u.2 ++ closing ++ later ∧ old + gap.byteLength = u.1.start ∧
      u.1.start + opening.byteLength = u.1.contentStart ∧
      Delimits u.1 opening closing (post ++ after) ∧
      Laid (u.1.contentStop + closing.byteLength) post after (us.map (·.1)) ∧
      substituteFrom (u.1.contentStop + closing.byteLength) (us.map region) post = some later := by
  rw [List.map_cons] at hlaid
  obtain ⟨gap, opening, closing, post, rfl, hstart, hcontent, hdelimits, hrest⟩ := hlaid
  rw [List.map_cons, List.append_assoc _ closing] at hs
  obtain ⟨rest, rfl, hright⟩ := substituteFrom_cons_eq_some
    (show old + (gap ++ opening).byteLength = (region u).start by
      rw [Text.byteLength_append, region]
      simp only
      omega) rfl hs
  -- the closing delimiter comes before the other texts
  obtain ⟨used, later, rfl, hused, hlater⟩ := @substituteFrom_append _ [] _ closing post _ hright
    (by simp) fun f hf => by
      obtain ⟨w, hw, rfl⟩ := List.mem_map.1 hf
      have hbounds := hrest.bounds w.1 (List.mem_map_of_mem hw)
      simp only [region]
      omega
  obtain rfl := Option.some.inj hused
  exact ⟨gap, opening, closing, post, later, rfl, by simp [region], hstart, hcontent, hdelimits,
    hrest, hlater⟩

/-- Where the nodes settle in a text that is put together from two, each with its own nodes. -/
theorem settle_append {old : Nat} {t after s : Text} {us₁ us₂ : List (Node × Text)} (new : Nat)
    (hlaid : Laid old t after (us₁.map (·.1))) (hs : substituteFrom old (us₁.map region) t = some s)
    (hlater : ∀ u ∈ us₂, old + t.byteLength ≤ u.1.start) :
    settle content old new (us₁ ++ us₂)
      = settle content old new us₁
        ++ settle content (old + t.byteLength) (new + s.byteLength) us₂ := by
  induction us₁ generalizing old new t s with
  | nil =>
    obtain rfl := Option.some.inj hs
    exact (settle_add new t.byteLength hlater).symm
  | cons u us ih =>
    obtain ⟨gap, opening, closing, post, later, rfl, rfl, hstart, hcontent, -, hrest, hpost⟩ :=
      laid_cons_substituted hlaid hs
    -- the later nodes of both rows come behind the closing delimiter of the first
    have hafter : ∀ w ∈ us ++ us₂, u.1.contentStop + closing.byteLength ≤ w.1.start := by
      intro w hw
      rcases List.mem_append.1 hw with hw | hw
      · exact (hrest.bounds w.1 (List.mem_map_of_mem hw)).1
      · have := hlater w hw
        simp only [Text.byteLength_append, Node.contentStop] at this ⊢
        omega
    have hold : old + (gap ++ opening ++ u.1.value ++ closing ++ post).byteLength
        = u.1.contentStop + closing.byteLength + post.byteLength := by
      simp only [Text.byteLength_append, Node.contentStop]
      omega
    rw [List.cons_append, settle, settle, List.append_assoc,
      ← settle_add _ closing.byteLength hafter,
      ih _ hrest hpost (by rw [← hold]; exact hlater), ← hold,
      settle_add _ closing.byteLength fun w hw => hafter w (List.mem_append_left _ hw)]
    have hnew : new + (u.1.start - old) + (u.1.contentStart - u.1.start) + u.2.byteLength
        + closing.byteLength + later.byteLength
        = new + (gap ++ opening ++ u.2 ++ closing ++ later).byteLength := by
      simp only [Text.byteLength_append]
      omega
    rw [hnew]

/-- New texts that go into two pieces of a file go into each on its own, and the nodes of the second
piece settle behind what has become of the first. -/
theorem substituted_append {old : Nat} {t₁ t₂ after₁ after₂ s : Text} {us₁ us₂ : List (Node × Text)}
    (h₁ : Laid old t₁ after₁ (us₁.map (·.1)))
    (h₂ : Laid (old + t₁.byteLength) t₂ after₂ (us₂.map (·.1)))
    (hs : substituteFrom old ((us₁ ++ us₂).map region) (t₁ ++ t₂) = some s) :
    ∃ s₁ s₂, s = s₁ ++ s₂ ∧ substituteFrom old (us₁.map region) t₁ = some s₁ ∧
      substituteFrom (old + t₁.byteLength) (us₂.map region) t₂ = some s₂ ∧
      ∀ new, settle content old new (us₁ ++ us₂) = settle content old new us₁
        ++ settle content (old + t₁.byteLength) (new + s₁.byteLength) us₂ := by
  rw [List.map_append] at hs
  obtain ⟨s₁, s₂, rfl, hs₁, hs₂⟩ := substituteFrom_append hs
    (fun f hf => by
      obtain ⟨u, hu, rfl⟩ := List.mem_map.1 hf
      exact (h₁.bounds u.1 (List.mem_map_of_mem hu)).2.2)
    (fun f hf => by
      obtain ⟨u, hu, rfl⟩ := List.mem_map.1 hf
      have hbounds := h₂.bounds u.1 (List.mem_map_of_mem hu)
      simp only [region]
      omega)
  exact ⟨s₁, s₂, rfl, hs₁, hs₂, fun new => settle_append new h₁ hs₁ fun u hu =>
    (h₂.bounds u.1 (List.mem_map_of_mem hu)).1⟩

/-! ## Nodes that settle are read back -/

theorem Laid.eq_nil {offset : Nat} {after : Text} {ns : List Node} (h : Laid offset [] after ns) :
    ns = [] := by
  cases ns with
  | nil => rfl
  | cons n ns =>
    obtain ⟨gap, opening, closing, post, ht, -, -, hdelimits, -⟩ := h
    exact absurd (by simp_all) hdelimits.value

/-- A node in the file, and its new text in the new file. -/
theorem exists_split_of_mem {old : Nat} {t s : Text} {us : List (Node × Text)} (new : Nat)
    (hlaid : Laid old t [] (us.map (·.1))) (hs : substituteFrom old (us.map region) t = some s)
    {u : Node × Text} (hu : u ∈ us) :
    ∃ lead opening closing rest lead' rest', t = lead ++ opening ++ u.1.value ++ closing ++ rest ∧
      s = lead' ++ opening ++ u.2 ++ closing ++ rest' ∧ old + lead.byteLength = u.1.start ∧
      u.1.start + opening.byteLength = u.1.contentStart ∧ Delimits u.1 opening closing rest ∧
      (rest = [] → rest' = []) ∧
      (renew content u.1 u.2 (new + lead'.byteLength)).ifAny ⊆ settle content old new us := by
  induction us generalizing old new t s with
  | nil => cases hu
  | cons w us ih =>
    obtain ⟨gap, opening, closing, post, later, rfl, rfl, hstart, hcontent, hdelimits, hrest,
      hpost⟩ := laid_cons_substituted hlaid hs
    rcases List.mem_cons.1 hu with rfl | hu
    · refine ⟨gap, opening, closing, post, gap, later, rfl, rfl, hstart, hcontent,
        by simpa using hdelimits, ?_, ?_⟩
      · rintro rfl
        obtain rfl := List.map_eq_nil_iff.1 hrest.eq_nil
        exact (Option.some.inj hpost).symm
      · rw [settle, show u.1.start - old = gap.byteLength by omega]
        exact List.subset_append_left _ _
    · have hafter : ∀ v ∈ us, w.1.contentStop + closing.byteLength ≤ v.1.start :=
        fun v hv => (hrest.bounds v.1 (List.mem_map_of_mem hv)).1
      obtain ⟨lead, opening', closing', rest, lead', rest', rfl, rfl, hstart', hcontent',
        hdelimits', hend, hmem⟩ := ih (new + (w.1.start - old) + (w.1.contentStart - w.1.start)
          + w.2.byteLength + closing.byteLength) hrest hpost hu
      refine ⟨gap ++ opening ++ w.1.value ++ closing ++ lead, opening', closing', rest,
        gap ++ opening ++ w.2 ++ closing ++ lead', rest', by simp, by simp, ?_, hcontent',
        hdelimits', hend, ?_⟩
      · simp only [Text.byteLength_append, Node.contentStop] at hstart' ⊢
        omega
      · rw [settle_add _ _ hafter] at hmem
        rw [settle]
        have hplace : new + (w.1.start - old) + (w.1.contentStart - w.1.start) + w.2.byteLength
            + closing.byteLength + lead'.byteLength
            = new + (gap ++ opening ++ w.2 ++ closing ++ lead').byteLength := by
          simp only [Text.byteLength_append]
          omega
        rw [hplace] at hmem
        exact List.Subset.trans hmem (List.subset_append_right _ _)

/-- The empty text is read back. -/
theorem readsBack_nil {n : Node} {opening closing rest : Text}
    (hcloses : Closes n opening closing rest) (hkind : n.kind ≠ .identifier) :
    ReadsBack n opening [] (closing ++ rest) := by
  unfold ReadsBack
  unfold Closes at hcloses
  cases hn : n.kind with
  | comment => simp
  | identifier => exact absurd hn hkind
  | string =>
    rw [hn] at hcloses
    simp only at hcloses ⊢
    cases hquote : quoteOf? opening with
    | none => simp
    | some quote =>
      have hne : quote ≠ '\\' := by
        rcases quote_of_quoteOf? hquote with rfl | rfl <;> decide
      simp only [List.nil_append]
      rcases hcloses quote hquote with rfl | rfl | ⟨rfl, rfl⟩
      · exact congrArg Prod.fst (stringBody_stop rest hne (.inl rfl))
      · exact congrArg Prod.fst (stringBody_stop rest (by decide) (.inr rfl))
      · rfl
  | template =>
    rw [hn] at hcloses
    simp only at hcloses
    rcases hcloses with rfl | rfl | ⟨rfl, rfl⟩
    · exact congrArg Prod.fst (ClosesFragment.fragmentBody_eq (.inl ⟨rest, rfl⟩))
    · exact congrArg Prod.fst (ClosesFragment.fragmentBody_eq (.inr ⟨rest, rfl⟩))
    · rfl

/-- What is read back depends on the kind of the node alone, unless that is an identifier. -/
theorem readsBack_iff_of_kind {n n' : Node} (opening text rest : Text) (h : n'.kind = n.kind)
    (hkind : n.kind ≠ .identifier) :
    ReadsBack n' opening text rest ↔ ReadsBack n opening text rest := by
  unfold ReadsBack
  rw [h]
  cases hn : n.kind with
  | identifier => exact absurd hn hkind
  | comment => rfl
  | string => rfl
  | template => rfl

theorem renew_of_delimited {n : Node} (new : Text) (start : Nat)
    (h : isChildText content n = false) :
    renew content n new start
      = ⟨n.kind, new, start,
          start + (n.contentStart - n.start) + new.byteLength + (n.stop - n.contentStop),
          start + (n.contentStart - n.start), n.isModuleSpecifier⟩ := by
  simp [renew, h]

/-- **Where the old nodes are found again with their new texts, each new text is read back.**  Here
`s` is the new file, and its nodes are those that settle in it. -/
theorem standsIn_of_settle {s : Text} {us : List (Node × Text)}
    (hlaid : Laid 0 content [] (us.map (·.1)))
    (hs : substituteFrom 0 (us.map region) content = some s)
    (hsettle : Laid 0 s [] (settle content 0 0 us)) {u : Node × Text} (hu : u ∈ us)
    (hidentifier : u.1.kind = .identifier → u.2 = u.1.value)
    (htext : isChildText content u.1 = false) : StandsIn content u := by
  obtain ⟨lead, opening, closing, rest, lead', rest', hsplit, hsplit', hstart, hcontent, hdelimits,
    hend, hmem⟩ := @exists_split_of_mem content _ _ _ _ 0 hlaid hs u hu
  refine (standsIn_iff (hsplit.trans (List.append_assoc ..)) (by omega) hcontent).2 ?_
  by_cases hkind : u.1.kind = .identifier
  · rw [ReadsBack, hkind]
    exact hidentifier hkind
  -- an empty text leaves no node to be found, but nothing can go wrong with it
  by_cases hnew : u.2 = []
  · rw [hnew]
    exact readsBack_nil hdelimits.closes hkind
  obtain ⟨n', hn'⟩ : ∃ n', n' = renew content u.1 u.2 (0 + lead'.byteLength) := ⟨_, rfl⟩
  rw [← hn', Node.ifAny] at hmem
  rw [renew_of_delimited _ _ htext] at hn'
  have hvalue : n'.value = u.2 := by rw [hn']
  rw [hvalue, if_neg (by simpa using hnew)] at hmem
  have hstands := @Laid.standsIn [] s _ hsettle n' (hmem List.mem_cons_self)
  rw [hvalue, List.nil_append] at hstands
  have hreads := (@standsIn_iff s lead' opening (closing ++ rest') (n', u.2)
    (by rw [hvalue, hsplit', List.append_assoc]) (by rw [hn']; simp)
    (by rw [hn']; simp only; omega)).1 hstands
  rw [← readsBack_congr u.2 hdelimits.closes hend]
  exact (readsBack_iff_of_kind _ _ _ (by rw [hn']) hkind).1 hreads

end CodeProse.Source
