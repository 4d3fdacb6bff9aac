/-
# Where options come from

An option has the value that the uppermost layer sets, of those that set it at all
(`Options.get_foldl_withLayer`). The layers are the file that the user names, alone, or else the
file of the user and over it that of the project (`Options.load_named_eq_ok_iff`,
`Options.load_eq_ok_iff`). The arguments of a command are one more layer, which turns sentences and
debugging on but never off, and they add to the lists of what is skipped
(`CommandLine.Arguments.apply_eq`).
-/
import CodeProse.CommandLine.Arguments
import CodeProse.Options.Load
import CodeProse.Proofs.Fault
import CodeProse.Proofs.Options.Key

namespace CodeProse

/-! ## Layers over layers -/

/-- The last value that layers set under a key, if one of them does. -/
def lastSet? (layers : List OptionLayer) (k : OptionKey) : Option k.Value :=
  layers.reverse.findSome? fun layer => layer.get? k

theorem lastSet?_singleton (layer : OptionLayer) (k : OptionKey) :
    lastSet? [layer] k = layer.get? k := by
  rw [lastSet?, List.reverse_singleton, List.findSome?_singleton]

/-- What is set above counts before what is set below. -/
theorem lastSet?_append (lower upper : List OptionLayer) (k : OptionKey) :
    lastSet? (lower ++ upper) k = (lastSet? upper k).or (lastSet? lower k) := by
  rw [lastSet?, List.reverse_append, List.findSome?_append]
  rfl

/-- **The last value counts.** An option that no layer sets keeps its value. -/
theorem Options.get_foldl_withLayer (o : Options) (layers : List OptionLayer) (k : OptionKey) :
    (layers.foldl Options.withLayer o).get k = (lastSet? layers k).getD (o.get k) := by
  induction layers generalizing o with
  | nil => rfl
  | cons layer layers ih =>
    rw [List.foldl_cons, ih, get_withLayer, ← List.singleton_append, lastSet?_append,
      lastSet?_singleton, Option.getD_or]

/-- A file that sets what is the default counts like any other. -/
example : ([{ comments := some false }, { comments := some true }].foldl
    Options.withLayer {}).comments = true := by
  rfl

/-- One layer that has the values of two is the upper one over the lower one. -/
theorem OptionLayer.eq_onto_iff (lower upper merged : OptionLayer) :
    merged = upper.onto lower ↔ ∀ k, merged.get? k = (upper.get? k).or (lower.get? k) := by
  constructor
  · rintro rfl k
    exact get?_onto upper lower k
  · intro h
    refine ext_get? fun k => ?_
    rw [h k, get?_onto]

/-! ## Files -/

namespace OptionLayer

/-- There is text at a path, and the layer is read from it. -/
def HeldBy (read : Text → Readable) (path : Text) (layer : OptionLayer) : Prop :=
  ∃ t, read path = .text t ∧ read? t = some layer

/-- The same for a file that need not be there: where it is missing it sets nothing. -/
def HeldIfThere (read : Text → Readable) (path : Text) (layer : OptionLayer) : Prop :=
  read path = .missing ∧ layer = {} ∨ HeldBy read path layer

variable {read : Text → Readable} {path : Text} {layer : OptionLayer}

theorem load_eq_ok_iff : load read path = .ok layer ↔ HeldBy read path layer := by
  unfold load HeldBy
  split
  case h_1 t ht =>
    split
    case h_1 layer' hlayer' => simp [ht, hlayer']
    case h_2 hnone => simp [ht, hnone]
  case h_2 hnot =>
    constructor
    · intro h
      cases h
    · rintro ⟨t, ht, -⟩
      exact absurd ht (hnot t)

theorem loadIfThere_eq_ok_iff :
    loadIfThere read path = .ok layer ↔ HeldIfThere read path layer := by
  unfold loadIfThere HeldIfThere
  split
  case h_1 hmissing => simp [HeldBy, hmissing, eq_comm]
  case h_2 hthere => rw [load_eq_ok_iff, or_iff_right fun h => hthere h.1]

end OptionLayer

namespace Options

variable {read : Text → Readable} {user : UserPaths} {o : Options}

/-- **A file that is named stands alone.** It must be there. -/
theorem load_named_eq_ok_iff {path : Text} :
    load read user (some path) = .ok o ↔
      ∃ layer, OptionLayer.HeldBy read path layer ∧ o = [layer].foldl withLayer {} := by
  unfold load
  refine bind_eq_ok_iff.trans (exists_congr fun layer => ?_)
  refine and_congr OptionLayer.load_eq_ok_iff ?_
  exact ⟨fun h => (Except.ok.inj h).symm, fun h => by rw [h]; rfl⟩

/-- **Without one the file of the project lies over that of the user.** -/
theorem load_eq_ok_iff :
    load read user none = .ok o ↔
      ∃ ofUser ofProject, OptionLayer.HeldIfThere read user.configuration ofUser ∧
        OptionLayer.HeldIfThere read localConfiguration ofProject ∧
          o = [ofUser, ofProject].foldl withLayer {} := by
  unfold load
  refine bind_eq_ok_iff.trans (exists_congr fun ofUser => ?_)
  rw [OptionLayer.loadIfThere_eq_ok_iff, bind_eq_ok_iff, ← exists_and_left]
  refine exists_congr fun ofProject => and_congr_right fun _ => ?_
  refine and_congr OptionLayer.loadIfThere_eq_ok_iff ?_
  exact ⟨fun h => (Except.ok.inj h).symm, fun h => by rw [h]; rfl⟩

end Options

/-! ## Arguments -/

namespace CommandLine.Arguments

/-- What arguments set, as a layer: settings that are given, and switches that are on. -/
def layer (a : Arguments) : OptionLayer where
  language := a.language
  dictionaryDir := a.dictionaryDir
  grammarUrl := a.grammarUrl
  minLength := a.minLength
  sentences := if a.sentences then some true else none
  debug := if a.debug then some true else none

/-- **Arguments are a layer,** apart from what they add. -/
theorem apply_eq (a : Arguments) (o : Options) :
    a.apply o =
      { o.withLayer a.layer with
        skipWords := o.skipWords ++ a.skipWords
        skipIfMatch := o.skipIfMatch ++ a.skipIfMatch
        skipWordIfMatch := o.skipWordIfMatch ++ a.skipWordIfMatch } := by
  have hswitch : ∀ on before : Bool,
      (on || before) = (if on = true then some true else none).getD before := by
    decide
  unfold apply
  rw [hswitch, hswitch]
  rfl

/-- Whether arguments add to what an option has, so that nothing of it is dropped. -/
def addsTo : OptionKey → Bool
  | .skipWords | .skipIfMatch | .skipWordIfMatch => true
  | _ => false

/-- What arguments do not add to, they set as a layer does. -/
theorem get_apply (a : Arguments) (o : Options) {k : OptionKey} (hk : addsTo k = false) :
    (a.apply o).get k = (a.layer.get? k).getD (o.get k) := by
  rw [← Options.get_withLayer, apply_eq]
  cases k with
  | skipWords => cases hk
  | skipIfMatch => cases hk
  | skipWordIfMatch => cases hk
  | _ => rfl

end CommandLine.Arguments

/-! ## All layers -/

open OptionLayer CommandLine.Arguments in
/-- **Options are overridden key by key.** Every option has a key. Two layers come to one that sets
what either sets, and of any number of layers the last value counts. A layer sets what is written in
its file. Loaded options have the file that is named over the defaults, or else that of the project
over that of the user; arguments are a layer over these, but for what they turn on or add. -/
structure OverriddenByKey (read : Text → Readable) (user : UserPaths)
    (a : CommandLine.Arguments) (o : Options) : Prop where
  keys : ∀ o' : Options, o' = o ↔ ∀ k, o'.get k = o.get k
  merged : ∀ lower upper merged : OptionLayer,
    merged = upper.onto lower ↔ ∀ k, merged.get? k = (upper.get? k).or (lower.get? k)
  composes : ∀ lower upper, (o.withLayer lower).withLayer upper = o.withLayer (upper.onto lower)
  last : ∀ layers k, (layers.foldl Options.withLayer o).get k = (lastSet? layers k).getD (o.get k)
  file : ∀ t layer, read? t = some layer ↔
    ∃ entries, Toml.read? t = some entries ∧ ∀ k, layer.IsSetBy entries k
  named : ∀ path, Options.load read user (some path) = .ok o ↔
    ∃ layer, HeldBy read path layer ∧ o = [layer].foldl Options.withLayer {}
  unnamed : Options.load read user none = .ok o ↔
    ∃ ofUser ofProject, HeldIfThere read user.configuration ofUser ∧
      HeldIfThere read localConfiguration ofProject ∧
        o = [ofUser, ofProject].foldl Options.withLayer {}
  arguments : ∀ layers k, addsTo k = false →
    (a.apply (layers.foldl Options.withLayer o)).get k =
      (lastSet? (layers ++ [a.layer]) k).getD (o.get k)
  sentences : (a.apply o).sentences = true ↔ a.sentences = true ∨ o.sentences = true
  debug : (a.apply o).debug = true ↔ a.debug = true ∨ o.debug = true
  skipWords : (a.apply o).skipWords = o.skipWords ++ a.skipWords
  skipIfMatch : (a.apply o).skipIfMatch = o.skipIfMatch ++ a.skipIfMatch
  skipWordIfMatch : (a.apply o).skipWordIfMatch = o.skipWordIfMatch ++ a.skipWordIfMatch

/-- However options come about, they are overridden key by key. -/
theorem overriddenByKey (read : Text → Readable) (user : UserPaths) (a : CommandLine.Arguments)
    (o : Options) : OverriddenByKey read user a o where
  keys _ := ⟨fun h _ => h ▸ rfl, Options.ext_get⟩
  merged := OptionLayer.eq_onto_iff
  composes := o.withLayer_withLayer
  last := o.get_foldl_withLayer
  file := OptionLayer.read?_eq_some_iff
  named _ := Options.load_named_eq_ok_iff
  unnamed := Options.load_eq_ok_iff
  arguments layers k hk := by
    rw [CommandLine.Arguments.get_apply a _ hk, o.get_foldl_withLayer, lastSet?_append,
      lastSet?_singleton, Option.getD_or]
  sentences := Bool.or_eq_true_iff
  debug := Bool.or_eq_true_iff
  skipWords := rfl
  skipIfMatch := rfl
  skipWordIfMatch := rfl

end CodeProse
