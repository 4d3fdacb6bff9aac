/-
# What a check comes to does not depend on what was checked before

Units are checked over one cache, which holds one dictionary and takes on another whenever a unit in
another language comes up. If what the loader returns for a language depends on nothing but the
language, then what comes of a unit depends on nothing but the unit and its settings: a cache is
always faithful to the loader (`Faithful`), so that what it answers is what the loader would.
-/
import CodeProse.CommandLine.Run
import CodeProse.Proofs.Dictionary.Coherence

namespace CodeProse.Checker

open DictionaryCache

/-! ## Units in turn -/

/-- A unit, and the settings that it is checked by. -/
structure Job where
  settings : Settings
  text : Text
  kind : UnitKind

/-- Checks a unit over a cache. -/
def Job.check (load : Loader) (service : Option GrammarService) (job : Job)
    (cache : DictionaryCache) : UnitOutcome × DictionaryCache :=
  checkUnit load service job.settings job.text job.kind cache

/-- What comes of a unit that is the only one. -/
def Job.alone (load : Loader) (service : Option GrammarService) (job : Job) : UnitOutcome :=
  (job.check load service {}).1

/-- What comes of a unit that the cache gives this answer. -/
def Job.outcome (service : Option GrammarService) (job : Job) (answer : Answer) : UnitOutcome :=
  if skips job.settings job.text job.kind then ⟨[], .ok (reconcile job.text [])⟩
  else
    match answer with
    | .ok d => checkWith d service job.settings job.text job.kind
    | .error e => ⟨[], .error e⟩

/-- Checks units one after the other over one cache. -/
def checkJobs (load : Loader) (service : Option GrammarService) :
    List Job → DictionaryCache → List UnitOutcome × DictionaryCache
  | [], cache => ([], cache)
  | job :: rest, cache =>
    let first := job.check load service cache
    let later := checkJobs load service rest first.2
    (first.1 :: later.1, later.2)

/-! ## Caches that are faithful to a loader -/

/-- Whether the active dictionary is the one that the loader returns for its language. -/
def Faithful (load : Text → Answer) (cache : DictionaryCache) : Prop :=
  ∀ language d, cache.active = some (language, d) → load language = .ok d

variable {load : Text → Answer} {cache : DictionaryCache}

theorem faithful_empty (load : Text → Answer) : Faithful load {} := by
  intro language d hd
  cases hd

theorem eq_of_loaded {loads : List Text} {language : Text} {answer : Answer}
    (h : Loaded (fun _ => load) loads language answer) : load language = answer := by
  obtain ⟨_, -, hanswer⟩ := h
  exact hanswer

theorem faithful_of_reachable {Thread : Type} {s : Sharing Thread}
    (h : Reachable (fun _ => load) s) : Faithful load s.cache := by
  intro language d hd
  exact eq_of_loaded ((sound_of_reachable h).active language d hd)

/-- A faithful cache answers as the loader does, and stays faithful. -/
theorem Faithful.get (h : Faithful load cache) (language : Text) :
    (cache.get (fun _ => load) language).1 = load language ∧
      Faithful load (cache.get (fun _ => load) language).2 := by
  by_cases hactive : cache.language? = some language
  · obtain ⟨d, hactive⟩ := exists_active hactive
    rw [get_of_active hactive, h language d hactive]
    exact ⟨rfl, h⟩
  · rw [get_of_not_active hactive]
    unfold reload
    cases hload : load language with
    | error e =>
      simp only [hload, true_and]
      exact h
    | ok d =>
      simp only [hload, true_and]
      intro language' d' hd
      obtain ⟨rfl, rfl⟩ := Prod.mk.inj (Option.some.inj hd)
      exact hload

/-! ## Independence -/

variable (service : Option GrammarService)

/-- All that a check asks of the cache is the dictionary of its language. -/
theorem check_eq (load : Loader) (job : Job) (cache : DictionaryCache) :
    job.check load service cache
      = (job.outcome service (cache.get load job.settings.language).1,
        if skips job.settings job.text job.kind then cache
        else (cache.get load job.settings.language).2) := by
  unfold Job.check checkUnit Job.outcome
  cases hskips : skips job.settings job.text job.kind with
  | true => rfl
  | false =>
    cases hget : cache.get load job.settings.language with
    | mk answer after => cases answer <;> rfl

theorem Faithful.check (h : Faithful load cache) (job : Job) :
    (job.check (fun _ => load) service cache).1
        = job.outcome service (load job.settings.language) ∧
      Faithful load (job.check (fun _ => load) service cache).2 := by
  obtain ⟨hanswer, hafter⟩ := h.get job.settings.language
  rw [check_eq, hanswer]
  refine ⟨rfl, ?_⟩
  show Faithful load (if skips job.settings job.text job.kind then cache else _)
  split
  case isTrue => exact h
  case isFalse => exact hafter

theorem alone_eq (load : Text → Answer) (job : Job) :
    job.alone (fun _ => load) service = job.outcome service (load job.settings.language) :=
  ((faithful_empty load).check service job).1

theorem Faithful.checkJobs (h : Faithful load cache) (jobs : List Job) :
    (checkJobs (fun _ => load) service jobs cache).1
      = jobs.map (·.alone (fun _ => load) service) := by
  induction jobs generalizing cache with
  | nil => rfl
  | cons job rest ih =>
    obtain ⟨hfirst, hafter⟩ := h.check service job
    rw [Checker.checkJobs, List.map_cons, ih hafter, hfirst, alone_eq]

/-- **What a check comes to does not depend on what was checked before.** Whatever threads have done
with a cache, units that are checked over it one after the other come to what each of them comes to
alone; and so does a unit whose dictionary was got while others were at the cache. -/
theorem checkJobs_of_reachable {Thread : Type} (load : Text → Answer)
    (service : Option GrammarService) (s : Sharing Thread) (h : Reachable (fun _ => load) s) :
    (∀ jobs : List Job, (Checker.checkJobs (fun _ => load) service jobs s.cache).1
      = jobs.map (·.alone (fun _ => load) service)) ∧
    ∀ c ∈ s.calls, ∀ answer, c.phase = .returned answer →
      ∀ job : Job, c.request.Gets job.settings.language →
        job.outcome service answer = job.alone (fun _ => load) service := by
  constructor
  · intro jobs
    exact (faithful_of_reachable h).checkJobs service jobs
  · intro c hc answer hreturned job hgets
    have hloaded := ((sound_of_reachable h).fits c hc).loaded answer (by rw [hreturned]; rfl)
    rw [alone_eq, ← eq_of_loaded hloaded, hgets.2]

/-- A unit in German has no dictionary, and the units before and after it come to the same, over a
cache that an English dictionary was reloaded into. -/
theorem checkJobs_of_reload :
    let english := "en_US".toList
    let load : Text → Answer := fun language =>
      if language = english then .ok (Dictionary.ofWords ["word".toList])
      else .error (.dictionary language)
    let first : Job := ⟨{ language := english, skipWords := [] }, "wird".toList, .identifier⟩
    let second : Job := ⟨{ language := "de_DE".toList, skipWords := [] }, "wird".toList, .identifier⟩
    ∃ s : Sharing Unit, s.cache.language? = some english ∧
      (Checker.checkJobs (fun _ => load) none [first, second, first] s.cache).1
        = [first, second, first].map (·.alone (fun _ => load) none) ∧
      (second.alone (fun _ => load) none).result = .error (.dictionary "de_DE".toList) := by
  intro english load first second
  have h₀ : Reachable (fun _ => load) ({} : Sharing Unit) := .refl
  have h₁ := h₀.tail (.call () (.reload english) (by simp))
  have h₂ := h₁.tail (.advance (n := 0) rfl (by intro _ h; cases h) trivial)
  have h₃ := h₂.tail (.advance (n := 0) rfl (by intro _ h; cases h) trivial)
  refine ⟨_, ?_, (checkJobs_of_reachable load none _ h₃).1 [first, second, first], ?_⟩
  · rfl
  · rfl

/-! ## Files in turn -/

variable {service} {cache' : DictionaryCache}

/-- All faithful caches are alike to the nodes of a file. -/
theorem Faithful.checkNodes (h : Faithful load cache) (h' : Faithful load cache') (s : Settings)
    (nodes : List Source.Node) :
    (checkNodes (fun _ => load) service s nodes cache).1
        = (checkNodes (fun _ => load) service s nodes cache').1 ∧
      Faithful load (checkNodes (fun _ => load) service s nodes cache).2 := by
  induction nodes generalizing cache cache' with
  | nil => exact ⟨rfl, h⟩
  | cons node rest ih =>
    obtain ⟨hfirst, hafter⟩ := h.check service ⟨s, node.value, node.kind⟩
    obtain ⟨hfirst', hafter'⟩ := h'.check service ⟨s, node.value, node.kind⟩
    obtain ⟨hrest, hlast⟩ := ih hafter hafter'
    unfold Job.check at hfirst hfirst' hrest hlast
    refine ⟨?_, hlast⟩
    simp only [Checker.checkNodes]
    rw [hfirst, hfirst', hrest]

theorem Faithful.checkSource (h : Faithful load cache) (h' : Faithful load cache') (s : Settings)
    (path content : Text) :
    (checkSource (fun _ => load) service s path content cache).1
        = (checkSource (fun _ => load) service s path content cache').1 ∧
      Faithful load (checkSource (fun _ => load) service s path content cache).2 := by
  unfold Checker.checkSource
  cases Source.nodesOfFile? path content with
  | none => exact ⟨rfl, h⟩
  | some nodes => exact h.checkNodes h' s _

/-- Files that are checked one after the other have the reports that each of them has alone, so they
may be checked in any order. -/
theorem Faithful.checkFiles (h : Faithful load cache) (s : Settings) (files : List (Text × Text)) :
    CommandLine.checkFiles (fun _ => load) service s files cache
      = files.map fun f => ⟨f.1, f.2, (Checker.checkSource (fun _ => load) service s f.1 f.2 {}).1.2⟩ := by
  induction files generalizing cache with
  | nil => rfl
  | cons f rest ih =>
    obtain ⟨path, content⟩ := f
    obtain ⟨hfirst, hafter⟩ := h.checkSource (faithful_empty load) s path content
    rw [List.map_cons, ← ih hafter, ← hfirst]
    rfl

end CodeProse.Checker
