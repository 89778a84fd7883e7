import OfbBench.AeadMain
import OfbBench.TlsMain
import OfbBench.Runner
import OfbBench.Proofs.Runner
import OfbBench.Proofs.Calibration
import OfbBench.Proofs.Protocol
import OfbBench.Proofs.LifeCycle
import OfbBench.Proofs.Rows
import OfbBench.Lib.Ledger
import OfbBench.OpensslTls
import OfbBench.Proofs.Transfer
import OfbBench.Proofs.Resources
import OfbBench.OpensslAead
import OfbBench.Proofs.Fixture
import OfbBench.Lib.Dict
import OfbBench.Lib.Except
import OfbBench.Summary
import OfbBench.Proofs.JsonLines
import OfbBench.Proofs.Matrix
import OfbBench.Proofs.Permutation
import OfbBench.Proofs.Doublings
import OfbBench.Proofs.Delivery
import OfbBench.Proofs.Handshake
import OfbBench.Proofs.OneShot
import OfbBench.Proofs.Numerals
import OfbBench.Lib.Regex
import OfbBench.Lib.Python
import OfbBench.Profiles
import OfbBench.Proofs.ProfileNames
import OfbBench.Proofs.ProfileOrder
import OfbBench.Proofs.ProfileCounters
import OfbBench.Lib.Markdown
import OfbBench.Proofs.Tables
import OfbBench.Lib.Link
import OfbBench.Timer
import OfbBench.Proofs.Timer
import OfbBench.Proofs.StatNames
import OfbBench.Lib.Outline
import OfbBench.Proofs.ProfileReport
import OfbBench.Lib.Refine
import OfbBench.Program
import OfbBench.Proofs.Linked
import OfbBench.Lib.Custody
import OfbBench.Proofs.Contexts
import OfbBench.Proofs.Sessions
import OfbBench.Proofs.Executables
import OfbBench.Lib.Calls
import OfbBench.Load
import OfbBench.Proofs.Load
import OfbBench.Proofs.Output
import OfbBench.Proofs.Pipeline
import OfbBench.Lib.Timed
import OfbBench.Proofs.Faultless
import OfbBench.Proofs.Completion
import OfbBench.Proofs.TlsCompletion
