import DataBinding.Machine
import DataBinding.Script.Survey
import DataBinding.Proofs.Freshness.Invariant
import DataBinding.Proofs.Notification.Setting
import DataBinding.Proofs.Document.Parsing
import DataBinding.Proofs.Disposal.Final
import DataBinding.Proofs.Compiling.Current
import DataBinding.Proofs.Document.Evolving
import DataBinding.Proofs.Client.Growing
import DataBinding.Proofs.Disposal.Inverse
import DataBinding.Proofs.Compiling.Unshown
import DataBinding.Proofs.Compiling.Ending
import DataBinding.Proofs.Client.Effects
import DataBinding.Proofs.Evaluation.Exclusive
import DataBinding.Proofs.Notification.Reports
import DataBinding.Proofs.Freshness.Attaching
import DataBinding.Proofs.Client.Forest
import DataBinding.Proofs.Rendering.Matching
import DataBinding.Proofs.Compiling.Finding
import DataBinding.Proofs.Resolution.Exact
import DataBinding.Proofs.Document.Appending
import DataBinding.Proofs.Markup.Staying
import DataBinding.Proofs.Store.Closure
import DataBinding.Proofs.Resolution.Assigning
import DataBinding.Proofs.Markup.OnePass
import DataBinding.Proofs.Resolution.Canonical
import DataBinding.Proofs.Evaluation.Reconciling
import DataBinding.Proofs.Store.OrderedMap
import DataBinding.Proofs.Rendering.Skipping
