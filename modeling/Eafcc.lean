import Eafcc.Library.Nom
import Eafcc.Library.Utf8
import Eafcc.Library.Pool
import Eafcc.Library.Heap
import Eafcc.Parser.Rule
import Eafcc.Parser.Unescape
import Eafcc.Parser.Grammar
import Eafcc.Parser.Lexical
import Eafcc.Parser.Exact
import Eafcc.Parser.RoundTrip
import Eafcc.Error
import Eafcc.Model.Object
import Eafcc.CfgCenter.CfgIndex
import Eafcc.CfgCenter.Querier
import Eafcc.CfgCenter.Overlay
import Eafcc.Storage.Tree
import Eafcc.Storage.Walk
import Eafcc.Storage.Filesystem
import Eafcc.CfgCenter.Loading
import Eafcc.CfgCenter.Determinism
import Eafcc.CfgCenter.Center
import Eafcc.CfgCenter.Deadlock
import Eafcc.CfgCenter.UpdateHistory
import Eafcc.CfgCenter.Sequential
import Eafcc.CfgCenter.Events
import Eafcc.CfgCenter.Handles
import Eafcc.CfgCenter.Callbacks
import Eafcc.Go.Clients
import Eafcc.Go.NullResult
import Eafcc.CfgCenter.NotifyLevels
import Eafcc.Ffi
import Eafcc.Whoami
import Eafcc.Ffi.Memory
import Eafcc.Ffi.Session
import Eafcc.Go.Cache
import Eafcc.Go.HasherPool
import Eafcc.Storage.Git
import Eafcc.CfgCenter.AllLinked
import Eafcc.CfgCenter.GitWatcher
import Eafcc.CfgCenter.StartUp
import Eafcc.CfgCenter.Panics
import Eafcc.CfgCenter.Explain
import Eafcc.CfgCenter.Comparator
import Eafcc.CfgCenter.References
import Eafcc.Storage.GitRemote
import Eafcc.Parser.Escapes
import Eafcc.Parser.Evaluation
import Eafcc.Storage.Simulation
import Eafcc.Storage.Versioned
import Eafcc.Storage.Recording
import Eafcc.Storage.DefaultWalk
import Eafcc.CfgCenter.NamespacePrefix
import Eafcc.CfgCenter.LoadAlike
import Eafcc.CfgCenter.Checkouts
import Eafcc.CfgCenter.Isolation
import Eafcc.CfgCenter.Poison
import Eafcc.CfgCenter.PoisonProgress
import Eafcc.Go.Memory
import Eafcc.CfgCenter.ShippedBackends
import Eafcc.Ffi.LastError
import Eafcc.CfgCenter.Rollout
import Eafcc.CfgCenter.Files
import Eafcc.CfgCenter.Service
import Eafcc.CfgCenter.Convergence
import Eafcc.Go.Registry
import Eafcc.CfgCenter.Views
import Eafcc.Ffi.Handles
import Eafcc.Ffi.Handles
