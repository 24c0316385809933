import RiscosBuilder.Agent.Grammar
import RiscosBuilder.Agent.Live
import RiscosBuilder.Agent.PushComplete
import RiscosBuilder.Agent.SafeName
import RiscosBuilder.Agent.TransferLines
import RiscosBuilder.Board.Dma
import RiscosBuilder.Board.FrameCounter
import RiscosBuilder.Build.AnswerFile
import RiscosBuilder.Build.Conversation
import RiscosBuilder.Build.KeySequence
import RiscosBuilder.Build.ParallelDownload
import RiscosBuilder.Build.ProfileAgreement
import RiscosBuilder.Build.Push
import RiscosBuilder.Build.ReadBack
import RiscosBuilder.Build.ReleaseGate
import RiscosBuilder.Build.ScreenDump
import RiscosBuilder.Build.ShortDownload
import RiscosBuilder.Build.WaitBounded
import RiscosBuilder.Build.WaitForGuest
import RiscosBuilder.Build.WaitVmDown
import RiscosBuilder.Build.ZipImage
import RiscosBuilder.FileCore.ContentSearch
import RiscosBuilder.FileCore.Opening
import RiscosBuilder.FileCore.PatchCommand
import RiscosBuilder.FileCore.PatchedStore
import RiscosBuilder.FileCore.Scaffold
import RiscosBuilder.FileCore.StaleBlocks
import RiscosBuilder.Usb.Delivery
import RiscosBuilder.Usb.PacketAccount
import RiscosBuilder.Usb.Station
import RiscosBuilder.Usb.TransmitBounds
import RiscosBuilder.Vchiq.RefusedOnce
import RiscosBuilder.Vchiq.RejectedHandover
import RiscosBuilder.Vchiq.Served
