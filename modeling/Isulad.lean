import Isulad.CleanPath
import Isulad.Cmd.Commander
import Isulad.Cmd.Isula.Base.Create
import Isulad.Cmd.Isula.Information.Inspect
import Isulad.Cpputils.Url
import Isulad.Cutils.Utils
import Isulad.Cutils.UtilsConvert
import Isulad.Cutils.UtilsRegex
import Isulad.Cutils.UtilsString
import Isulad.ErrorMessage
import Isulad.Filters
import Isulad.Framework.BoundedFifo
import Isulad.Framework.CString
import Isulad.Framework.Calendar
import Isulad.Framework.ColouredTree
import Isulad.Framework.Comparator
import Isulad.Framework.EraseFixup
import Isulad.Framework.Fallible
import Isulad.Framework.Fresh
import Isulad.Framework.Getopt
import Isulad.Framework.HostFs
import Isulad.Framework.InsertFixup
import Isulad.Framework.Json
import Isulad.Framework.JsonGen
import Isulad.Framework.LexicalPath
import Isulad.Framework.Loop
import Isulad.Framework.PartialMap
import Isulad.Framework.Printf
import Isulad.Framework.RbMap
import Isulad.Framework.Regex
import Isulad.Framework.SearchTree
import Isulad.Framework.Sed
import Isulad.Framework.Simulation
import Isulad.Http.Parser
import Isulad.Http.RestCommon
import Isulad.Image.Embedded.Lim
import Isulad.Image.Oci.ConfigMerge
import Isulad.Image.Oci.ImagesStore
import Isulad.Image.Oci.ListImages
import Isulad.Json.CriCheckpoint
import Isulad.Map.RbTree.Compare
import Isulad.Map.RbTree.Erase
import Isulad.Map.RbTree.EraseFixup
import Isulad.Map.RbTree.Heap
import Isulad.Map.RbTree.Insert
import Isulad.Map.RbTree.InsertFixup
import Isulad.Map.RbTree.Iterator
import Isulad.Map.RbTree.Realise
import Isulad.Map.RbTree.Refinement
import Isulad.Map.RbTree.Rotation
import Isulad.Map.RbTree.Search
import Isulad.Map.RbTree.Splice
import Isulad.Path
import Isulad.Services.Cri.CheckpointHandler
import Isulad.Services.Cri.CriContainer
import Isulad.Services.Execution.Events.Collector
import Isulad.Services.Execution.Events.Handler
import Isulad.Services.Execution.Execute.Copy
import Isulad.Services.Execution.Execute.ExecProcessSpec
import Isulad.Services.Execution.Execute.Execution
import Isulad.Services.Execution.Execute.ExecutionExtend
import Isulad.Services.Execution.Execute.ExecutionNetwork
import Isulad.Services.Execution.Execute.ExecutionStream
import Isulad.Services.Execution.Execute.List
import Isulad.Services.Execution.Manager.ContainersStore
import Isulad.Services.Execution.Manager.ContainersStoreGet
import Isulad.Services.Execution.Manager.HealthCheck
import Isulad.Services.Execution.Manager.HealthProbe
import Isulad.Services.Execution.Manager.RestartManager
import Isulad.Services.Execution.Spec.Relabel
import Isulad.Services.Execution.Spec.SelinuxLabel
import Isulad.Services.Execution.Spec.SpecsExtend
import Isulad.Services.Execution.Spec.SpecsExtendUser
import Isulad.Services.Execution.Spec.SpecsMount
import Isulad.Services.Execution.Spec.SpecsSecurity
import Isulad.Services.Execution.Spec.Verify
import Isulad.Shim.Terminal
import Isulad.Tar.Transform
import Isulad.TypesDef
import Isulad.Websocket.WsServer
