import InfiniShell.Ssh.MemorySync
import InfiniShell.Ssh.TreeSync
import InfiniShell.Terminal.DisplayedAnswers
import InfiniShell.Terminal.GridRuns
import InfiniShell.Editor.Fragments
import InfiniShell.LocalCli.BridgeRuns
import InfiniShell.LocalCli.Dispatch
import InfiniShell.AgentRuntime.ToolLeaseLife
import InfiniShell.RemoteServer.DiffStateAnswers
import InfiniShell.RemoteServer.ImageStoreLife
import InfiniShell.RuntimeHost.EventsHandedOver
import InfiniShell.RemoteServer.TextDispatch
import InfiniShell.SumTree.FilterCursor
import InfiniShell.SumTree.Edit
import InfiniShell.Editor.Convergence
import InfiniShell.Ssh.TreeRepair
import InfiniShell.Compaction.Prune
import InfiniShell.Compaction.TailBudget
import InfiniShell.Ssh.ConfigFirstWins
import InfiniShell.Terminal.EditedScreen
import InfiniShell.Terminal.EndMarkedRuns
import InfiniShell.Scrollback.StartOrder
import InfiniShell.Scrollback.GraphemeVisits
import InfiniShell.RepoMetadata.BuildWaiters
import InfiniShell.AgentProviders.ResultBounds
import InfiniShell.DiffValidation.V4aPlaces
import InfiniShell.DiffValidation.SearchReplaceDeltas
import InfiniShell.RichText.SelectionMerging
import InfiniShell.Scrollback.RowOccupancy
import InfiniShell.AgentProviders.ReplayWindow
import InfiniShell.Terminal.AnsiCUnquoting
import InfiniShell.Editor.AnchorMoves
import InfiniShell.LocalCli.GrokInputRuns
import InfiniShell.Scrollback.OffsetPoints
