import Resolution.Clause.Cleaning
import Resolution.Clause.Cursor
import Resolution.Clause.Grammar
import Resolution.ClauseSet.Objects
import Resolution.DerivationGraph.Reader
import Resolution.KnowledgeBase.Content
import Resolution.KnowledgeBase.Reports
import Resolution.Main
import Resolution.Proofs.ClauseGrammar
import Resolution.Proofs.CleaningRule
import Resolution.Proofs.ClosedPairs
import Resolution.Proofs.CommonResolvent
import Resolution.Proofs.Contradictions
import Resolution.Proofs.DerivationGraphs
import Resolution.Proofs.Diagnostics
import Resolution.Proofs.Endings
import Resolution.Proofs.Entailment
import Resolution.Proofs.Exports
import Resolution.Proofs.FileLines
import Resolution.Proofs.FirstContradiction
import Resolution.Proofs.GraphTexts
import Resolution.Proofs.Histories
import Resolution.Proofs.Horn
import Resolution.Proofs.JsonDocuments
import Resolution.Proofs.LeastClosure
import Resolution.Proofs.Listings
import Resolution.Proofs.MaximalMunch
import Resolution.Proofs.Monotonicity
import Resolution.Proofs.NamedParents
import Resolution.Proofs.PairOrder
import Resolution.Proofs.ParentOrder
import Resolution.Proofs.PlainLoop
import Resolution.Proofs.Provenance
import Resolution.Proofs.QuotedNames
import Resolution.Proofs.Redundancy
import Resolution.Proofs.RejectedLines
import Resolution.Proofs.Renaming
import Resolution.Proofs.Representatives
import Resolution.Proofs.Resumption
import Resolution.Proofs.RoundLimits
import Resolution.Proofs.SavedSets
import Resolution.Proofs.Soundness
import Resolution.Proofs.Tokens
import Resolution.Renaming
import Resolution.Session
import Resolution.Token.Matching
