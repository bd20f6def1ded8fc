import Agl.Can.Closed
import Agl.Can.Echo
import Agl.Can.Flow
import Agl.Can.FrameFacts
import Agl.Can.Inbuf
import Agl.Can.LastSlot
import Agl.Can.Stats
import Agl.Can.Drain
import Agl.Can.RxStats
import Agl.Can.Teardown
import Agl.Can.TxRing
import Agl.Can.Busoff
import Agl.Can.Napi
import Agl.Can.Ctrl
import Agl.Can.ControllerFacts
import Agl.Setup.AssemblyFacts
import Agl.Setup.ManifestDecodes
import Agl.Setup.GenconfigFacts
import Agl.Setup.SearchFacts
import Agl.Simulator.Bus
import Agl.Simulator.Cruise
import Agl.Simulator.Speeds
import Agl.Video.Attribution
import Agl.Video.BuffersFacts
import Agl.Video.CapsFacts
import Agl.Video.CapsHeapFacts
import Agl.Video.WireFacts
import Agl.Video.StreamOff
import Agl.Video.EncControlsFacts
import Agl.Video.CmdFacts
import Agl.Video.Controls
import Agl.Video.Dequeue
import Agl.Video.EnumFmt
import Agl.Video.Exclusive
import Agl.Video.Removal
import Agl.Video.FrameRate
import Agl.Video.Ids
import Agl.Video.OpenFacts
import Agl.Video.Payload
import Agl.Video.Planes
import Agl.Video.Release
import Agl.Video.ResourceFacts
import Agl.Video.Selection
import Agl.Video.SgList
import Agl.Video.Space
import Agl.Video.Streaming
import Agl.Video.Submit
import Agl.Video.TransitionFacts
import Agl.Video.TryFmt
