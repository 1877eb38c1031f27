import QuditSim.Amplitude
import QuditSim.Argument
import QuditSim.Arithmetic
import QuditSim.Circuit.Basic
import QuditSim.Circuit.Build
import QuditSim.Circuit.Cursor
import QuditSim.Circuit.Index
import QuditSim.Circuit.Operand
import QuditSim.Circuit.Step
import QuditSim.Circuit.Summary
import QuditSim.Circuit.Tally
import QuditSim.Decimal.Binary
import QuditSim.Decimal.Layout
import QuditSim.Demo.Ghz
import QuditSim.Demo.Teleportation
import QuditSim.Device
import QuditSim.Digest.Sha256
import QuditSim.Digits
import QuditSim.Engine.Basic
import QuditSim.Engine.Execution
import QuditSim.Engine.Layout
import QuditSim.Engine.Settings
import QuditSim.Engine.Typed
import QuditSim.Exchange.Channel
import QuditSim.Exchange.Checking
import QuditSim.Exchange.Circuit
import QuditSim.Exchange.Device
import QuditSim.Exchange.Display
import QuditSim.Exchange.Engine
import QuditSim.Exchange.Kernel
import QuditSim.Exchange.Layout
import QuditSim.Exchange.Library
import QuditSim.Exchange.Logging
import QuditSim.Exchange.Reading
import QuditSim.Exchange.Step
import QuditSim.Exchange.Tensor
import QuditSim.Extent
import QuditSim.Failure
import QuditSim.Gate.Library
import QuditSim.Gate.Standard
import QuditSim.Gate.Unitary
import QuditSim.Json.Basic
import QuditSim.Json.Parser
import QuditSim.Json.Printer
import QuditSim.Logging.Event
import QuditSim.Logging.Level
import QuditSim.Logging.Registry
import QuditSim.Logging.Template
import QuditSim.Main
import QuditSim.Noise.Channel
import QuditSim.Noise.Model
import QuditSim.Number
import QuditSim.Proofs.Chance
import QuditSim.Proofs.Circuit.Acceptance
import QuditSim.Proofs.Circuit.Atomic
import QuditSim.Proofs.Circuit.Checks
import QuditSim.Proofs.Circuit.Counts
import QuditSim.Proofs.Circuit.Fidelity
import QuditSim.Proofs.Circuit.Log
import QuditSim.Proofs.Circuit.Mirrored
import QuditSim.Proofs.Circuit.Planned
import QuditSim.Proofs.Circuit.Replay
import QuditSim.Proofs.Circuit.Walking
import QuditSim.Proofs.Circuit.WellFormed
import QuditSim.Proofs.Digits
import QuditSim.Proofs.Drawing
import QuditSim.Proofs.Engine.Action
import QuditSim.Proofs.Engine.Acts
import QuditSim.Proofs.Engine.Addition
import QuditSim.Proofs.Engine.Advance
import QuditSim.Proofs.Engine.Alike
import QuditSim.Proofs.Engine.Deferral
import QuditSim.Proofs.Engine.Effect
import QuditSim.Proofs.Engine.Embedding
import QuditSim.Proofs.Engine.Ends
import QuditSim.Proofs.Engine.Failing
import QuditSim.Proofs.Engine.FullRegister
import QuditSim.Proofs.Engine.IdleNoise
import QuditSim.Proofs.Engine.Isometry
import QuditSim.Proofs.Engine.Layout
import QuditSim.Proofs.Engine.Noise
import QuditSim.Proofs.Engine.NoiseRecord
import QuditSim.Proofs.Engine.Outcomes
import QuditSim.Proofs.Engine.Overrides
import QuditSim.Proofs.Engine.Probability
import QuditSim.Proofs.Engine.Reachable
import QuditSim.Proofs.Engine.Refinement
import QuditSim.Proofs.Engine.Restart
import QuditSim.Proofs.Engine.Retirement
import QuditSim.Proofs.Engine.Stages
import QuditSim.Proofs.Engine.Targets
import QuditSim.Proofs.Engine.Twins
import QuditSim.Proofs.Engine.Usage
import QuditSim.Proofs.Engine.Validity
import QuditSim.Proofs.Engine.Weights
import QuditSim.Proofs.Exact
import QuditSim.Proofs.Extended
import QuditSim.Proofs.Fallible
import QuditSim.Proofs.Gate.Lookup
import QuditSim.Proofs.Gate.Naming
import QuditSim.Proofs.Gate.Relations
import QuditSim.Proofs.Gate.Weyl
import QuditSim.Proofs.Logging.Configuration
import QuditSim.Proofs.Measurement.Joint
import QuditSim.Proofs.Measurement.Readout
import QuditSim.Proofs.Measurement.Sequential
import QuditSim.Proofs.Noise.Creation
import QuditSim.Proofs.Noise.Idle
import QuditSim.Proofs.Noise.Mixture
import QuditSim.Proofs.Noise.Preservation
import QuditSim.Proofs.Noise.Twirl
import QuditSim.Proofs.Noise.Unravelling
import QuditSim.Proofs.NotANumber
import QuditSim.Proofs.Numbers
import QuditSim.Proofs.Operand.Content
import QuditSim.Proofs.Operand.Table
import QuditSim.Proofs.Operand.Zeros
import QuditSim.Proofs.Placing
import QuditSim.Proofs.Report.Agreement
import QuditSim.Proofs.Report.Calls
import QuditSim.Proofs.Report.Documented
import QuditSim.Proofs.Report.Faithful
import QuditSim.Proofs.Report.Layout
import QuditSim.Proofs.Report.Malformed
import QuditSim.Proofs.Report.Names
import QuditSim.Proofs.Report.Operands
import QuditSim.Proofs.Report.RoundTrip
import QuditSim.Proofs.Report.Written
import QuditSim.Proofs.State.Applied
import QuditSim.Proofs.State.Axes
import QuditSim.Proofs.State.Branches
import QuditSim.Proofs.State.Composition
import QuditSim.Proofs.State.Controlled
import QuditSim.Proofs.State.Counting
import QuditSim.Proofs.State.Endless
import QuditSim.Proofs.State.Kernels
import QuditSim.Proofs.State.Measure
import QuditSim.Proofs.State.Shift
import QuditSim.Proofs.Tensor.Entries
import QuditSim.Proofs.Tensor.Shape
import QuditSim.Proofs.Workbench.Cursors
import QuditSim.Proofs.Workbench.Orderly
import QuditSim.Report.Circuit
import QuditSim.Report.Document
import QuditSim.Report.Matrix
import QuditSim.Report.Rebuild
import QuditSim.Report.Validation
import QuditSim.Scalar
import QuditSim.State.Apply
import QuditSim.State.Basic
import QuditSim.State.Checking
import QuditSim.State.Fault
import QuditSim.State.Measure
import QuditSim.State.Sampling
import QuditSim.State.Typed
import QuditSim.Tensor.Basic
import QuditSim.Tensor.Nested
import QuditSim.Tensor.Precision
import QuditSim.Tensor.Typed
import QuditSim.Text.Case
import QuditSim.Text.CaseContext
import QuditSim.Text.Hexadecimal
import QuditSim.Text.Integer
import QuditSim.Text.Listing
import QuditSim.Text.Printable
import QuditSim.Text.Quoted
import QuditSim.Text.Surrogate
import QuditSim.Workbench.Basic
import QuditSim.Workbench.Circuits
import QuditSim.Workbench.Cursors
import QuditSim.Workbench.Engines
