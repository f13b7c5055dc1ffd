import Dream64.Vm.ExpressionOrder
import Dream64.Vm.CallForms
import Dream64.World.Deferred
import Dream64.Vm.SpawnedBody
import Dream64.Vm.FieldCache
import Dream64.Preprocess.CachedProjects
import Dream64.ObjectTree.Orders
import Dream64.Compiler.History
import Dream64.Bytecode.ControlSafety
import Dream64.Bytecode.WordcodeDispatch
import Dream64.Vm.ReadyWorldAtomic
import Dream64.Value.HeapRuns
import Dream64.Ipc.StartupRuns
import Dream64.Dmf.PaneRuns
import Dream64.Vm.DynamicCallRuns
import Dream64.Compiler.PagedSections
import Dream64.Ipc.ResourceRuns
import Dream64.Lifecycle.ArtifactEnvelope
import Dream64.Lifecycle.DrainRuns
import Dream64.Vm.TypeIntervals
import Dream64.Preprocess.MappedFiles
import Dream64.Vm.NamedArguments
import Dream64.Vm.ListOperatorForms
import Dream64.Vm.EquivalenceRuns
import Dream64.Vm.LosslessSplitting
import Dream64.Vm.TextPositions
import Dream64.Vm.RegexReplacingRuns
import Dream64.Vm.FaithfulInterpolation
import Dream64.Vm.NumericDispatchRuns
import Dream64.Vm.RuinScan
import Dream64.Vm.TypesOf
import Dream64.Vm.TgmPlanner
import Dream64.Vm.CodeBounds
import Dream64.Vm.TextSafety
