/-
# Catalogs of words and phrases

The words that the style rules look for, each with what may be put in its place.
-/
import CodeProse.Text.Offset

namespace CodeProse.Style

/-- A phrase and the phrase that is preferred to it. -/
structure Substitution where
  phrase : Text
  preferred : Text
  deriving DecidableEq, Repr, Inhabited

/-- A phrase that should go, with a hint for the writer and what a machine may put in its place. -/
structure Discouraged where
  phrase : Text
  hint : Text
  replacement : Option Text
  deriving DecidableEq, Repr, Inhabited

/-- Reads a list of pairs as substitutions. -/
def substitutions (pairs : List (String × String)) : List Substitution :=
  pairs.map fun p => ⟨p.1.toList, p.2.toList⟩

/-- What is proposed for every weak word. -/
def weakWordHint : Text :=
  "Consider removing or replacing with more specific language".toList

/-- Weak words. Those that carry no meaning can be deleted; two have a synonym; the others need a
writer. -/
def weakWords : List Discouraged :=
  [("quite", some ""),
    ("very", some ""),
    ("really", some ""),
    ("just", some ""),
    ("simply", some ""),
    ("basically", some ""),
    ("actually", some ""),
    ("literally", some ""),
    ("obviously", some ""),
    ("clearly", some ""),
    ("of course", some ""),
    ("certainly", some ""),
    ("probably", none),
    ("maybe", none),
    ("perhaps", none),
    ("might", none),
    ("could", none),
    ("should", none),
    ("would", none),
    ("seem", none),
    ("appear", none),
    ("tend to", some "usually"),
    ("in order to", some "to")].map fun p => ⟨p.1.toList, weakWordHint, p.2.map String.toList⟩

/-- Terms and the preferred terms. -/
def terminology : List Substitution := substitutions
  [("login", "sign in"),
    ("logout", "sign out"),
    ("username", "user name"),
    ("email", "email address"),
    ("setup", "set up"),
    ("backup", "back up"),
    ("popup", "pop-up"),
    ("dropdown", "drop-down"),
    ("checkbox", "check box"),
    ("website", "web site"),
    ("web page", "webpage"),
    ("click on", "click"),
    ("press on", "press"),
    ("right-click on", "right-click"),
    ("double-click on", "double-click")]

/-- Contractions and their full forms, with a straight apostrophe. -/
def straightContractions : List Substitution := substitutions
  [("don't", "do not"),
    ("won't", "will not"),
    ("can't", "cannot"),
    ("shouldn't", "should not"),
    ("wouldn't", "would not"),
    ("couldn't", "could not"),
    ("didn't", "did not"),
    ("doesn't", "does not"),
    ("hasn't", "has not"),
    ("haven't", "have not"),
    ("isn't", "is not"),
    ("aren't", "are not"),
    ("wasn't", "was not"),
    ("weren't", "were not"),
    ("you're", "you are"),
    ("they're", "they are"),
    ("we're", "we are"),
    ("it's", "it is"),
    ("that's", "that is"),
    ("here's", "here is"),
    ("there's", "there is"),
    ("what's", "what is"),
    ("who's", "who is"),
    ("how's", "how is")]

/-- The contraction with typographic in place of straight apostrophes. -/
def Substitution.curl (s : Substitution) : Substitution :=
  { s with phrase := s.phrase.map fun c => if c = '\'' then '’' else c }

/-- Contractions, each with either apostrophe. -/
def contractions : List Substitution :=
  straightContractions.flatMap fun s => [s, s.curl]

/-- Words that documentation should not use. -/
def prohibited : List Discouraged :=
  [("simply", "Remove or be more specific", some ""),
    ("just", "Remove or be more specific", some ""),
    ("easy", "straightforward", some "straightforward"),
    ("obviously", "Remove", some ""),
    ("of course", "Remove", some ""),
    ("clearly", "Remove", some ""),
    ("please note", "Remove", some ""),
    ("please be aware", "Remove", some ""),
    ("it should be noted", "Remove", some ""),
    ("kill", "stop, end, or close", some "stop"),
    ("hang", "stop responding", some "stop responding"),
    ("execute", "run", some "run"),
    ("abort", "cancel", some "cancel"),
    ("terminate", "end", some "end")].map fun p => ⟨p.1.toList, p.2.1.toList, p.2.2.map String.toList⟩

/-- Gendered words and their neutral forms. -/
def genderNeutral : List Substitution := substitutions
  [("he/she", "they"),
    ("his/her", "their"),
    ("him/her", "them"),
    ("himself/herself", "themselves"),
    ("guys", "everyone"),
    ("manpower", "workforce"),
    ("man-hours", "person-hours"),
    ("mankind", "humanity")]

/-- Irregular past participles. -/
def irregularParticiples : List Text :=
  [
    "awoken", "been", "born", "beat", "become", "begun", "bent", "bet", "bid", "bidden", "bound",
    "bitten", "bled", "blown", "broken", "bred", "brought", "broadcast", "built", "burnt",
    "burst", "bought", "cast", "caught", "chosen", "clung", "come", "cost", "crept", "cut",
    "dealt", "dug", "done", "drawn", "dreamt", "driven", "drunk", "eaten", "fallen", "fed",
    "felt", "fought", "found", "fled", "flung", "flown", "forbidden", "forecast", "foreseen",
    "forgotten", "forgiven", "forsaken", "frozen", "gotten", "given", "gone", "ground", "grown",
    "hung", "heard", "hidden", "hit", "held", "hurt", "kept", "knelt", "known", "laid", "led",
    "leapt", "learnt", "left", "lent", "let", "lain", "lost", "made", "meant", "met", "mistaken",
    "mown", "overcome", "overdone", "overtaken", "overthrown", "paid", "proven", "put", "quit",
    "read", "rid", "ridden", "rung", "risen", "run", "said", "seen", "sought", "sold", "sent",
    "set", "sewn", "shaken", "shorn", "shed", "shone", "shot", "shown", "shrunk", "shut", "sung",
    "sunk", "sat", "slept", "slain", "slid", "slung", "slit", "sown", "spoken", "sped", "spent",
    "spilt", "spun", "spit", "split", "spread", "sprung", "stood", "stolen", "stuck", "stung",
    "struck", "strung", "striven", "sworn", "swept", "swollen", "swum", "swung", "taken",
    "taught", "torn", "told", "thought", "thrown", "thrust", "trodden", "understood", "upheld",
    "upset", "woken", "worn", "woven", "wed", "wept", "wound", "won", "withheld", "withstood",
    "wrung", "written"
  ].map String.toList

/-- Forms of the verb that the passive voice is built with. -/
def passiveAuxiliaries : List Text :=
  ["am", "are", "were", "being", "is", "been", "was", "be"].map String.toList

/-- Words that weaken a statement. -/
def weaselWords : List Text :=
  [
    "many", "various", "very", "fairly", "several", "extremely", "exceedingly", "quite",
    "remarkably", "few", "surprisingly", "mostly", "largely", "huge", "tiny", "is a number",
    "are a number", "excellent", "interestingly", "significantly", "substantially", "clearly",
    "vast", "relatively", "completely"
  ].map String.toList

/-- Adverbs that weaken a verb. -/
def adverbs : List Text :=
  [
    "absolutely", "accidentally", "additionally", "allegedly", "alternatively", "angrily",
    "anxiously", "approximately", "awkwardly", "badly", "barely", "beautifully", "blindly",
    "boldly", "bravely", "briefly", "brightly", "briskly", "broadly", "busily", "calmly",
    "carefully", "carelessly", "certainly", "cheerfully", "cleverly", "closely", "commonly",
    "correctly", "deeply", "definitely", "deliberately", "easily", "effectively", "entirely",
    "equally", "especially", "essentially", "eventually", "exactly", "extremely", "fairly",
    "finally", "firmly", "frankly", "freely", "frequently", "fully", "generally", "gently",
    "greatly", "happily", "hardly", "heavily", "highly", "honestly", "hopefully", "immediately",
    "incredibly", "initially", "instantly", "largely", "literally", "loosely", "merely",
    "mostly", "nearly", "necessarily", "normally", "obviously", "occasionally", "only",
    "partially", "particularly", "perfectly", "possibly", "practically", "precisely",
    "presumably", "previously", "primarily", "probably", "properly", "quickly", "quietly",
    "rapidly", "rarely", "readily", "really", "reasonably", "recently", "relatively",
    "seemingly", "seriously", "significantly", "simply", "slightly", "slowly", "strongly",
    "successfully", "suddenly", "surely", "totally", "truly", "typically", "ultimately",
    "unfortunately", "usually", "utterly", "virtually", "widely"
  ].map String.toList

/-- Phrases for which there is a shorter one. -/
def wordyPhrases : List Text :=
  [
    "a number of", "accede to", "accelerate", "accentuate", "accompany", "accomplish",
    "accorded", "accordingly", "accrue", "acquiesce", "acquire", "additional", "adjacent to",
    "adjustment", "admissible", "advantageous", "adversely impact", "advise", "aforementioned",
    "aggregate", "all of", "alleviate", "allocate", "along the lines of", "already existing",
    "ameliorate", "anticipate", "apparent", "appreciable", "as a means of", "as of yet", "as to",
    "as yet", "ascertain", "assist", "at the present time", "at this time", "attain",
    "attributable to", "by means of", "commence", "consequently", "demonstrate",
    "due to the fact that", "during the course of", "endeavor", "facilitate",
    "for the purpose of", "has the ability to", "in a timely manner", "in order to",
    "in the event that", "in the near future", "is able to", "it is", "methodology",
    "notwithstanding", "numerous", "prior to", "subsequently", "sufficient",
    "take into consideration", "there are", "there is", "utilize", "whether or not",
    "with regard to", "with the exception of"
  ].map String.toList

end CodeProse.Style
