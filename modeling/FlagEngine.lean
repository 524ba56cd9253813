import FlagEngine.Condition.Evaluation
import FlagEngine.Log
import FlagEngine.Memory
import FlagEngine.Proofs.Session
import FlagEngine.Settings.Intake
import FlagEngine.Version
import FlagEngine.Proofs.Stickiness
import FlagEngine.Proofs.Repetition
import FlagEngine.Proofs.Faults
import FlagEngine.Proofs.Agreement
import FlagEngine.Proofs.Tracking
import FlagEngine.Proofs.Exclusion
import FlagEngine.Proofs.Absence
import FlagEngine.Proofs.DoublePlace
import FlagEngine.Proofs.Equality
import FlagEngine.Proofs.Spelling
import FlagEngine.Proofs.UselessStore
import FlagEngine.Proofs.Resolution
import FlagEngine.Proofs.Ramp
import FlagEngine.Proofs.DoubleQuotient
import FlagEngine.Proofs.Recomputation
import FlagEngine.Proofs.Traps
import FlagEngine.Proofs.Loading
import FlagEngine.Proofs.Answers
import FlagEngine.Proofs.Meaning
import FlagEngine.Proofs.Rearrangement
import FlagEngine.Proofs.KeyOrder
import FlagEngine.Proofs.References
import FlagEngine.Proofs.Commutation
import FlagEngine.Proofs.Recording
import FlagEngine.Proofs.Silence
import FlagEngine.Proofs.Switches
import FlagEngine.Proofs.InvalidRules
import FlagEngine.Proofs.ByteField
import FlagEngine.Proofs.BlockCipher
import FlagEngine.Proofs.Encodings
import FlagEngine.Proofs.Sealing
import FlagEngine.Proofs.LongIntegers
import FlagEngine.Proofs.JsonValues
import FlagEngine.Proofs.SealedCatalog
import FlagEngine.Proofs.LoadFailures
import FlagEngine.Proofs.Shares
import FlagEngine.Proofs.VersionOrder
import FlagEngine.Proofs.Precedence
import FlagEngine.Proofs.NumericVersion
import FlagEngine.Proofs.NamespaceFilter
import FlagEngine.Proofs.Depth
import FlagEngine.Proofs.Shapeless
import FlagEngine.Proofs.Roots
import FlagEngine.Proofs.ExactValue
import FlagEngine.Proofs.Coherence
import FlagEngine.Proofs.Escaping
import FlagEngine.Proofs.Override
import FlagEngine.Proofs.Overlay
import FlagEngine.Proofs.UnknownFields
import FlagEngine.Proofs.LogLevels
import FlagEngine.Proofs.HashPermutation
import FlagEngine.Proofs.PointsBelowOne
