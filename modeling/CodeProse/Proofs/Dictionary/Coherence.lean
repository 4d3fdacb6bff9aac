/-
# Threads that share a cache agree with its loader

What threads that share a cache can rely on, however their sections fall between one another and
whatever the loader does (`Coherent`). All of it rests on what one section can do (`Section`). A call
that gets a dictionary comes to its answer in one section, in which it does what
`DictionaryCache.get` does, and leaves the cache alone until then; so a run of such calls for one
language loads it until a load succeeds, and not after that.
-/
import CodeProse.Proofs.Dictionary.Sharing

namespace CodeProse.DictionaryCache

variable {load : Loader} {request : Request} {phase : Phase} {cache : DictionaryCache}
  {language : Text} {Thread : Type}

/-! ## The sections of a call -/

theorem get_of_active {d : Dictionary} (h : cache.active = some (language, d)) :
    cache.get load language = (.ok d, cache) := by
  unfold get
  rw [h]
  exact if_pos rfl

theorem get_of_not_active (h : cache.language? ≠ some language) :
    cache.get load language = cache.reload load language := by
  unfold get
  unfold language? at h
  cases hactive : cache.active with
  | none => rfl
  | some entry =>
    rw [hactive] at h
    exact if_neg fun hsame => h (by simp [hsame])

theorem exists_active (h : cache.language? = some language) :
    ∃ d, cache.active = some (language, d) := by
  obtain ⟨⟨_, d⟩, hactive, rfl⟩ := Option.map_eq_some_iff.1 h
  exact ⟨d, hactive⟩

/-- A dictionary is loaded just if its language is not active. -/
theorem loads_get (load : Loader) (language : Text) (cache : DictionaryCache) :
    (cache.get load language).2.loads
      = if cache.language? = some language then cache.loads else language :: cache.loads := by
  split
  case isTrue h =>
    obtain ⟨d, hactive⟩ := exists_active h
    rw [get_of_active hactive]
  case isFalse h =>
    rw [get_of_not_active h, reload]
    cases load cache.loads language <;> rfl

theorem advance_looking_of_active {d : Dictionary}
    (h : cache.active = some (request.language, d)) :
    advance load request .looking cache = (.returned (.ok d), cache) := by
  unfold advance
  simp [h]

theorem advance_looking_of_not_active (h : cache.language? ≠ some request.language) :
    advance load request .looking cache = (.loading, cache) := by
  unfold advance
  unfold language? at h
  cases hactive : cache.active with
  | none => rfl
  | some entry =>
    rw [hactive] at h
    exact if_neg fun hsame => h (by simp [hsame])

/-- The section in which a dictionary is loaded to be got is all that `get` does. -/
theorem advance_loading_of_get (h : request.isReload = false) :
    advance load request .loading cache
      = (.returned (cache.get load request.language).1, (cache.get load request.language).2) := by
  unfold advance
  simp [h]

/-- What one section of a call does. -/
inductive Section (load : Loader) (request : Request) (cache : DictionaryCache) :
    Phase → Phase × DictionaryCache → Prop
  /-- The language is active. -/
  | hit {phase : Phase} {d : Dictionary} (hactive : cache.active = some (request.language, d)) :
      Section load request cache phase (.returned (.ok d), cache)
  | miss (hother : cache.language? ≠ some request.language) :
      Section load request cache .looking (.loading, cache)
  /-- A dictionary is loaded and stored at once. -/
  | get {d : Dictionary} (hget : request.isReload = false)
      (hother : cache.language? ≠ some request.language)
      (hload : load cache.loads request.language = .ok d) :
      Section load request cache .loading
        (.returned (.ok d), ⟨some (request.language, d), request.language :: cache.loads⟩)
  /-- A dictionary is loaded, and others may come before it is stored. -/
  | reload {d : Dictionary} (hreload : request.isReload = true)
      (hload : load cache.loads request.language = .ok d) :
      Section load request cache .loading
        (.storing d, { cache with loads := request.language :: cache.loads })
  | fail {e : CheckError} (hload : load cache.loads request.language = .error e) :
      Section load request cache .loading
        (.returned (.error e), { cache with loads := request.language :: cache.loads })
  | store {d : Dictionary} :
      Section load request cache (.storing d)
        (.returned (.ok d), { cache with active := some (request.language, d) })
  | rest {answer : Answer} :
      Section load request cache (.returned answer) (.returned answer, cache)

theorem section_advance (load : Loader) (request : Request) (phase : Phase)
    (cache : DictionaryCache) :
    Section load request cache phase (advance load request phase cache) := by
  cases phase with
  | looking =>
    by_cases hactive : cache.language? = some request.language
    · obtain ⟨d, hactive⟩ := exists_active hactive
      rw [advance_looking_of_active hactive]
      exact .hit hactive
    · rw [advance_looking_of_not_active hactive]
      exact .miss hactive
  | loading =>
    cases hreload : request.isReload with
    | true =>
      unfold advance
      cases hload : load cache.loads request.language with
      | error e => simpa [hreload, hload] using Section.fail hload
      | ok d => simpa [hreload, hload] using Section.reload hreload hload
    | false =>
      rw [advance_loading_of_get hreload]
      by_cases hactive : cache.language? = some request.language
      · obtain ⟨d, hactive⟩ := exists_active hactive
        rw [get_of_active hactive]
        exact .hit hactive
      · rw [get_of_not_active hactive]
        unfold DictionaryCache.reload
        cases hload : load cache.loads request.language with
        | error e => exact .fail hload
        | ok d => exact .get hreload hactive hload
  | storing d => exact .store
  | returned answer => exact .rest

/-- A request that is alone with the cache is answered in at most two sections. -/
theorem advance_advance (load : Loader) (request : Request) (cache : DictionaryCache) :
    let first := advance load request request.firstPhase cache
    advance load request first.1 first.2
      = (.returned (request.alone load cache).1, (request.alone load cache).2) := by
  unfold Request.firstPhase Request.alone
  cases hreload : request.isReload with
  | true =>
    unfold reload
    cases hload : load cache.loads request.language with
    | error e => simp [advance, hreload, hload]
    | ok d => simp [advance, hreload, hload]
  | false =>
    by_cases hactive : cache.language? = some request.language
    · obtain ⟨d, hactive⟩ := exists_active hactive
      simp [advance, hactive, get_of_active hactive]
    · simp [advance_looking_of_not_active hactive, advance_loading_of_get hreload]

/-! ## What the loader did -/

theorem Loaded.mono {loads later : List Text} {answer : Answer}
    (h : Loaded load loads language answer) (hlater : loads <:+ later) :
    Loaded load later language answer := by
  obtain ⟨before, hbefore, hanswer⟩ := h
  exact ⟨before, hbefore.trans hlater, hanswer⟩

/-- The last load is one of the loads. -/
theorem Loaded.head {loads : List Text} {answer : Answer} (h : load loads language = answer) :
    Loaded load (language :: loads) language answer :=
  ⟨loads, List.suffix_refl _, h⟩

theorem loads_suffix_advance (load : Loader) (request : Request) (phase : Phase)
    (cache : DictionaryCache) :
    cache.loads <:+ (advance load request phase cache).2.loads := by
  have hsection := section_advance load request phase cache
  generalize advance load request phase cache = next at hsection ⊢
  cases hsection with
  | hit | miss | store | rest => exact List.suffix_refl _
  | get | reload | fail => exact List.suffix_cons _ _

/-- A section that changes the active dictionary is one in which its call returns what it stored. -/
theorem active_advance (load : Loader) (request : Request) (phase : Phase)
    (cache : DictionaryCache) :
    (advance load request phase cache).2.active = cache.active ∨
      ∃ d, (advance load request phase cache).1 = .returned (.ok d) ∧
        (advance load request phase cache).2.active = some (request.language, d) := by
  have hsection := section_advance load request phase cache
  generalize advance load request phase cache = next at hsection ⊢
  cases hsection with
  | hit | miss | reload | fail | rest => exact .inl rfl
  | @get d | @store d => exact .inr ⟨d, rfl, rfl⟩

/-! ## What holds at all times -/

/-- What is known of a call from how far it has come. -/
structure Fits (load : Loader) (loads : List Text) (request : Request) (phase : Phase) : Prop where
  looks : phase = .looking → request.isReload = false
  stores : ∀ d, phase = .storing d → request.isReload = true
  loaded : ∀ answer, phase.found? = some answer → Loaded load loads request.language answer

theorem Fits.mono {loads later : List Text} (h : Fits load loads request phase)
    (hlater : loads <:+ later) : Fits load later request phase where
  looks := h.looks
  stores := h.stores
  loaded := by
    intro answer hfound
    exact (h.loaded answer hfound).mono hlater

theorem fits_firstPhase (load : Loader) (loads : List Text) (request : Request) :
    Fits load loads request request.firstPhase := by
  unfold Request.firstPhase
  cases hreload : request.isReload with
  | true =>
    constructor
    case looks =>
      intro hlooks
      cases hlooks
    case stores =>
      intro d hstores
      cases hstores
    case loaded =>
      intro answer hfound
      cases hfound
  | false =>
    constructor
    case looks =>
      intro _
      exact hreload
    case stores =>
      intro d hstores
      cases hstores
    case loaded =>
      intro answer hfound
      cases hfound

/-- Whether the active dictionary was loaded for its language. -/
def ActiveLoaded (load : Loader) (cache : DictionaryCache) : Prop :=
  ∀ language d, cache.active = some (language, d) → Loaded load cache.loads language (.ok d)

theorem Fits.advance (h : Fits load cache.loads request phase) (hactive : ActiveLoaded load cache) :
    Fits load (advance load request phase cache).2.loads request
      (advance load request phase cache).1 := by
  have hsection := section_advance load request phase cache
  generalize DictionaryCache.advance load request phase cache = next at hsection ⊢
  constructor
  case looks =>
    intro hlooks
    cases hsection <;> cases hlooks
  case stores =>
    intro d hstores
    cases hsection <;> cases hstores
    case reload hreload _ => exact hreload
  case loaded =>
    intro answer hfound
    cases hsection <;> cases hfound
    case hit d hd => exact hactive _ d hd
    case get hload => exact .head hload
    case reload hload => exact .head hload
    case fail hload => exact .head hload
    case store d => exact h.loaded (.ok d) rfl
    case rest => exact h.loaded answer rfl

theorem ActiveLoaded.advance (h : ActiveLoaded load cache)
    (hfits : Fits load cache.loads request phase) :
    ActiveLoaded load (advance load request phase cache).2 := by
  intro language d hd
  rcases active_advance load request phase cache with hsame | ⟨d', hreturned, hstored⟩
  · rw [hsame] at hd
    exact (h language d hd).mono (loads_suffix_advance load request phase cache)
  · rw [hstored] at hd
    obtain ⟨rfl, rfl⟩ := Prod.mk.inj (Option.some.inj hd)
    apply (hfits.advance h).loaded
    rw [hreturned]
    rfl

/-- The active dictionary, and all that calls have come by, was loaded for its language. -/
structure Sound (load : Loader) (s : Sharing Thread) : Prop where
  active : ActiveLoaded load s.cache
  fits : ∀ c ∈ s.calls, Fits load s.cache.loads c.request c.phase

variable {mayAdvance : Request → Prop} {s t : Sharing Thread} {n : Nat} {c : Call Thread}

theorem Sound.step (h : Sound load s) (hstep : Step load mayAdvance s t) : Sound load t := by
  cases hstep with
  | call thread request hfree =>
    refine ⟨h.active, ?_⟩
    intro c hc
    rcases List.mem_append.1 hc with hc | hc
    · exact h.fits c hc
    · obtain rfl := List.mem_singleton.1 hc
      exact fits_firstPhase load s.cache.loads request
  | @advance n c hc hopen hmay =>
    have hfits := h.fits c (List.mem_of_getElem? hc)
    refine ⟨h.active.advance hfits, ?_⟩
    intro c' hc'
    rcases List.mem_or_eq_of_mem_set hc' with hc' | rfl
    · exact (h.fits c' hc').mono (loads_suffix_advance load c.request c.phase s.cache)
    · exact hfits.advance h.active

theorem Sound.runs (h : Sound load s) (hruns : Runs load mayAdvance s t) : Sound load t := by
  induction hruns with
  | refl => exact h
  | tail _ hstep ih => exact ih.step hstep

theorem sound_of_reachable (h : Reachable load s) : Sound load s := by
  have hnew : Sound load ({} : Sharing Thread) := by
    constructor
    case active =>
      intro language d hd
      cases hd
    case fits =>
      intro c hc
      cases hc
  exact hnew.runs h

/-! ## Calls that fail -/

theorem getElem?_advanced (load : Loader) (hc : s.calls[n]? = some c) :
    (s.advanced load n c).calls[n]?
      = some { c with phase := (advance load c.request c.phase s.cache).1 } := by
  obtain ⟨hn, -⟩ := List.getElem?_eq_some_iff.1 hc
  exact List.getElem?_set_self hn

/-- A call that has returned stays as it is. -/
theorem getElem?_of_runs {answer : Answer} (hc : s.calls[n]? = some c)
    (hreturned : c.phase = .returned answer) (hruns : Runs load mayAdvance s t) :
    t.calls[n]? = some c := by
  induction hruns with
  | refl => exact hc
  | @tail t u _ hstep ih =>
    cases hstep with
    | call thread request hfree =>
      rw [List.getElem?_append_left (List.getElem?_eq_some_iff.1 ih).1]
      exact ih
    | @advance n' c' hc' hopen hmay =>
      by_cases hsame : n' = n
      · subst hsame
        obtain rfl := Option.some.inj (ih.symm.trans hc')
        exact absurd hreturned (hopen answer)
      · show (t.calls.set n' _)[n]? = some c
        rw [List.getElem?_set_ne hsame]
        exact ih

/-! ## Calls that get a dictionary -/

/-- A call that gets a dictionary does in the section in which it returns what `get` does, and
nothing in the section before. -/
theorem advance_of_gets (hfits : Fits load cache.loads request phase)
    (hopen : ∀ answer, phase ≠ .returned answer) (hgets : request.Gets language) :
    advance load request phase cache
        = (.returned (cache.get load language).1, (cache.get load language).2)
      ∨ phase = .looking ∧ advance load request phase cache = (.loading, cache) := by
  obtain ⟨hget, rfl⟩ := hgets
  cases phase with
  | looking =>
    by_cases hactive : cache.language? = some request.language
    · obtain ⟨d, hactive⟩ := exists_active hactive
      refine .inl ?_
      rw [advance_looking_of_active hactive, get_of_active hactive]
    · exact .inr ⟨rfl, advance_looking_of_not_active hactive⟩
  | loading => exact .inl (advance_loading_of_get hget)
  | storing d =>
    rw [hfits.stores d rfl] at hget
    cases hget
  | returned answer => exact absurd rfl (hopen answer)

/-- What a cache comes to while nothing is done with it but to get the dictionary of one language. -/
structure LoadsOnce (load : Loader) (language : Text) (before cache : DictionaryCache) : Prop where
  loads : ∃ k, cache.loads = List.replicate k language ++ before.loads
  /-- After a load that succeeds the language is active. -/
  successes : successes load cache.loads = successes load before.loads ∨
    successes load cache.loads = successes load before.loads + 1 ∧
      cache.language? = some language
  /-- Nothing is loaded if the language is active from the start. -/
  kept : before.language? = some language → cache = before

theorem LoadsOnce.get {before : DictionaryCache} (h : LoadsOnce load language before cache) :
    LoadsOnce load language before (cache.get load language).2 := by
  by_cases hactive : cache.language? = some language
  · obtain ⟨d, hactive⟩ := exists_active hactive
    rw [get_of_active hactive]
    exact h
  · rw [get_of_not_active hactive]
    obtain ⟨k, hk⟩ := h.loads
    have hnone : DictionaryCache.successes load cache.loads
        = DictionaryCache.successes load before.loads := by
      rcases h.successes with hnone | ⟨-, hone⟩
      · exact hnone
      · exact absurd hone hactive
    have hkept : before.language? ≠ some language := by
      intro hbefore
      rw [h.kept hbefore] at hactive
      exact hactive hbefore
    unfold reload
    cases hload : load cache.loads language with
    | error e =>
      refine ⟨⟨k + 1, ?_⟩, .inl ?_, fun hbefore => absurd hbefore hkept⟩
      · show language :: cache.loads = _
        rw [hk, List.replicate_succ, List.cons_append]
      · show (if (load cache.loads language).isOk then 1 else 0) + _ = _
        rw [hload, hnone]
        exact Nat.zero_add _
    | ok d =>
      refine ⟨⟨k + 1, ?_⟩, .inr ⟨?_, rfl⟩, fun hbefore => absurd hbefore hkept⟩
      · show language :: cache.loads = _
        rw [hk, List.replicate_succ, List.cons_append]
      · show (if (load cache.loads language).isOk then 1 else 0) + _ = _
        rw [hload, hnone]
        exact Nat.add_comm 1 _

theorem loadsOnce_of_runs (h : Sound load s) (hruns : Runs load (Request.Gets language) s t) :
    LoadsOnce load language s.cache t.cache := by
  induction hruns with
  | refl => exact ⟨⟨0, rfl⟩, .inl rfl, fun _ => rfl⟩
  | @tail t u hruns hstep ih =>
    cases hstep with
    | call => exact ih
    | @advance n c hc hopen hgets =>
      have hfits := (h.runs hruns).fits c (List.mem_of_getElem? hc)
      rcases advance_of_gets hfits hopen hgets with hget | ⟨-, hlook⟩
      · show LoadsOnce load language s.cache (advance load c.request c.phase t.cache).2
        rw [hget]
        exact ih.get
      · show LoadsOnce load language s.cache (advance load c.request c.phase t.cache).2
        rw [hlook]
        exact ih

/-! ## Coherence -/

/-- What threads that share a cache can rely on, at some time. -/
structure Coherent (load : Loader) (s : Sharing Thread) : Prop where
  /-- The active dictionary is one that the loader returned for its language. -/
  active_loaded : ∀ language d, s.cache.active = some (language, d) →
    Loaded load s.cache.loads language (.ok d)
  /-- Calls return a dictionary that the loader returned for their language, or the error that it
  failed with. -/
  returned_loaded : ∀ c ∈ s.calls, ∀ answer, c.phase = .returned answer →
    Loaded load s.cache.loads c.request.language answer
  /-- If a call comes to fail in the end, its next section leaves the active dictionary as it is, and
  its language. -/
  failing_keeps : ∀ (n : Nat) (c : Call Thread), s.calls[n]? = some c → c.IsOpen →
    ∀ t, Runs load (fun _ => True) (s.advanced load n c) t →
      ∀ (c' : Call Thread) (e : CheckError), t.calls[n]? = some c' →
        c'.phase = .returned (.error e) → (s.advanced load n c).cache.active = s.cache.active
  /-- The next section of a call that gets a dictionary leaves the cache alone, and the call is
  undecided, or it is all that `get` does: it calls the loader just if the language is not active. -/
  decides : ∀ (n : Nat) (c : Call Thread) (language : Text), s.calls[n]? = some c → c.IsOpen →
    c.request.Gets language →
      (s.advanced load n c).calls[n]? = some { c with phase := .loading } ∧
          (s.advanced load n c).cache = s.cache ∨
        (∃ answer, (s.advanced load n c).calls[n]? = some { c with phase := .returned answer } ∧
          s.cache.get load language = (answer, (s.advanced load n c).cache)) ∧
        (s.advanced load n c).cache.loads
          = if s.cache.language? = some language then s.cache.loads
            else language :: s.cache.loads
  /-- While only calls come on that get the dictionary of one language, it is loaded with success at
  most once, no matter how often loads fail before that, and not at all if it is active already. -/
  loads_once : ∀ language t, Runs load (Request.Gets language) s t →
    (∃ k, t.cache.loads = List.replicate k language ++ s.cache.loads) ∧
      successes load t.cache.loads ≤ successes load s.cache.loads + 1 ∧
      (s.cache.language? = some language → t.cache = s.cache)
  /-- A call returns after two sections at most, whatever others make of the cache in between. -/
  returns : ∀ c ∈ s.calls, ∀ between : DictionaryCache, ∃ answer,
    (advance load c.request (advance load c.request c.phase s.cache).1 between).1
      = .returned answer

/-- Two sections are enough for every call. -/
theorem exists_returned (hfits : Fits load cache.loads request phase) (between : DictionaryCache) :
    ∃ answer, (advance load request (advance load request phase cache).1 between).1
      = .returned answer := by
  have hsection := section_advance load request phase cache
  generalize advance load request phase cache = next at hsection ⊢
  cases hsection with
  | hit | get | reload | fail | store | rest => exact ⟨_, rfl⟩
  | miss =>
    refine ⟨(between.get load request.language).1, ?_⟩
    show (advance load request .loading between).1 = _
    rw [advance_loading_of_get (hfits.looks rfl)]

/-- **Threads that share a cache agree with its loader**, in whatever order their sections fall and
whatever the loader returns or fails with. -/
theorem coherent_of_reachable (load : Loader) (s : Sharing Thread) (h : Reachable load s) :
    Coherent load s := by
  have hsound := sound_of_reachable h
  constructor
  case active_loaded => exact hsound.active
  case returned_loaded =>
    intro c hc answer hreturned
    apply (hsound.fits c hc).loaded
    rw [hreturned]
    rfl
  case failing_keeps =>
    intro n c hc hopen t hruns c' e hc' hfailed
    rcases active_advance load c.request c.phase s.cache with hsame | ⟨d, hreturned, -⟩
    · exact hsame
    · -- the call has returned a dictionary by then, and does not come to fail any more
      have hstays := getElem?_of_runs (getElem?_advanced load hc) hreturned hruns
      rw [hc'] at hstays
      obtain rfl := Option.some.inj hstays
      cases hreturned.symm.trans hfailed
  case decides =>
    intro n c language hc hopen hgets
    have hn := getElem?_advanced load hc
    have hfits := hsound.fits c (List.mem_of_getElem? hc)
    rcases advance_of_gets hfits hopen hgets with hget | ⟨-, hlook⟩
    · have hcache : (s.advanced load n c).cache = (s.cache.get load language).2 := by
        show (advance load c.request c.phase s.cache).2 = _
        rw [hget]
      refine .inr ⟨⟨(s.cache.get load language).1, ?_, ?_⟩, ?_⟩
      · rw [hn, hget]
      · rw [hcache]
      · rw [hcache, loads_get]
    · refine .inl ⟨?_, ?_⟩
      · rw [hn, hlook]
      · show (advance load c.request c.phase s.cache).2 = _
        rw [hlook]
  case loads_once =>
    intro language t hruns
    have honce := loadsOnce_of_runs hsound hruns
    refine ⟨honce.loads, ?_, honce.kept⟩
    rcases honce.successes with hnone | ⟨hone, -⟩
    · omega
    · omega
  case returns =>
    intro c hc between
    exact exists_returned (hsound.fits c hc) between

/-- Two threads ask for a dictionary at the same time, and both find that it is not active. The first
to come on fails to load it, and the second loads it. A checker is then set up for a language that
has none, and the dictionary stays active. -/
theorem coherent_of_race :
    let british := "en_GB".toList
    let d := Dictionary.ofWords ["colour".toList]
    let load : Loader := fun before language =>
      if before = [] ∨ language ≠ british then .error (.dictionary language) else .ok d
    let latin : Settings := { language := "la".toList }
    ∃ s : Sharing Bool, Coherent load s ∧
      s.calls = [⟨true, .get british, .returned (.error (.dictionary british))⟩,
        ⟨false, .get british, .returned (.ok d)⟩,
        ⟨true, .start latin, .returned (.error (.dictionary latin.language))⟩] ∧
      s.cache.active = some (british, d) := by
  intro british d load latin
  have h₀ : Reachable load ({} : Sharing Bool) := .refl
  have h₁ := h₀.tail (.call true (.get british) (by simp))
  have h₂ := h₁.tail (.call false (.get british) (by simp))
  have h₃ := h₂.tail (.advance (n := 0) rfl (by intro _ h; cases h) trivial)
  have h₄ := h₃.tail (.advance (n := 1) rfl (by intro _ h; cases h) trivial)
  have h₅ := h₄.tail (.advance (n := 0) rfl (by intro _ h; cases h) trivial)
  have h₆ := h₅.tail (.advance (n := 1) rfl (by intro _ h; cases h) trivial)
  have hidle : ∀ c ∈ [(⟨true, .get british, .returned (.error (.dictionary british))⟩ : Call Bool),
      ⟨false, .get british, .returned (.ok d)⟩], c.thread = true →
        ∃ answer, c.phase = .returned answer := by
    intro c hc hthread
    rcases List.mem_cons.1 hc with rfl | hc
    · exact ⟨_, rfl⟩
    · obtain rfl := List.mem_singleton.1 hc
      cases hthread
  have h₇ := h₆.tail (.call true (.start latin) hidle)
  have h₈ := h₇.tail (.advance (n := 2) rfl (by intro _ h; cases h) trivial)
  have h₉ := h₈.tail (.advance (n := 2) rfl (by intro _ h; cases h) trivial)
  exact ⟨_, coherent_of_reachable load _ h₉, rfl, rfl⟩

end CodeProse.DictionaryCache
