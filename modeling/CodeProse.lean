import CodeProse.CommandLine.Run
import CodeProse.Grammar.Bridge
import CodeProse.Main
import CodeProse.Proofs.Draft
import CodeProse.Proofs.Substitution
import CodeProse.Proofs.Text.Collapse
import CodeProse.Proofs.EditOrder
import CodeProse.Proofs.Reconciliation
import CodeProse.Proofs.Widening
import CodeProse.Proofs.Source.Layout
import CodeProse.Proofs.FileFixes
import CodeProse.Proofs.Source.Respelling
import CodeProse.Proofs.Source.Settling
import CodeProse.Proofs.Source.RoundTrip
import CodeProse.Proofs.CodeSafety
import CodeProse.Proofs.Text.Sentence
import CodeProse.Proofs.SentenceCorrections
import CodeProse.Proofs.Style.Phrase
import CodeProse.Proofs.Style.Terminology
import CodeProse.Proofs.Text.Run
import CodeProse.Proofs.Text.Word
import CodeProse.Proofs.Style.Remark
import CodeProse.Proofs.Text.Atom
import CodeProse.Proofs.Style.Exchange
import CodeProse.Proofs.Idempotence
import CodeProse.Proofs.Style.Report
import CodeProse.Proofs.Beads
import CodeProse.Proofs.GrammarChecks
import CodeProse.Proofs.ReportPlaces
import CodeProse.Proofs.Suppression
import CodeProse.Proofs.Grammar.Bridge
import CodeProse.Proofs.Grammar.Delivery
import CodeProse.Proofs.Dictionary.Sharing
import CodeProse.Proofs.Dictionary.Coherence
import CodeProse.Proofs.History
import CodeProse.Proofs.Leniency
import CodeProse.Proofs.RepeatedCorrection
import CodeProse.Proofs.Source.ModuleNames
import CodeProse.Proofs.Source.Substitutions
import CodeProse.Proofs.Source.Descent
import CodeProse.Proofs.Source.Descent.Readers
import CodeProse.Proofs.Source.Descent.Run
import CodeProse.Proofs.FixSelection
import CodeProse.Proofs.InPlace
import CodeProse.Proofs.InPlace.Run
import CodeProse.Proofs.InPlace.Safety
import CodeProse.Proofs.Spacing
import CodeProse.Proofs.Text.Partition
import CodeProse.Proofs.Text.Seam
import CodeProse.Proofs.Locality
import CodeProse.Proofs.Text.SentenceSplit
import CodeProse.Proofs.Grammar.Range
import CodeProse.Proofs.Grammar.KnownWord
import CodeProse.Proofs.Style.Search
import CodeProse.Proofs.SingleRule
import CodeProse.Proofs.Style.Opener
import CodeProse.Proofs.Text.Search
import CodeProse.Proofs.Style.Repetition
import CodeProse.Proofs.Template
import CodeProse.Proofs.Unicode.Clusters
import CodeProse.Proofs.Position
import CodeProse.Proofs.Options.Key
import CodeProse.Proofs.Options.Stack
import CodeProse.Proofs.FileSystem
import CodeProse.Proofs.Text.SentenceWords
import CodeProse.Proofs.Source.Files
