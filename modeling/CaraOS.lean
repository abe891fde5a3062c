import CaraOS.Carafs.ReplayBound
import CaraOS.Carafs.LeafRoom
import CaraOS.Croi.HandleCounts
import CaraOS.Croi.RoundRobin
import CaraOS.Croi.SemaphoreRun
import CaraOS.Croi.SpscRing
import CaraOS.Libc.MallocRun
import CaraOS.Shell.CommandLine
import CaraOS.Mm.ElfImage
import CaraOS.Mm.PageMap
import CaraOS.Mm.PhysMap
import CaraOS.Dos.Resolve
import CaraOS.Gpt.Table
import CaraOS.Croi.ConsoleInput
import CaraOS.Nvme.Queue
import CaraOS.Xhci.EventRing
import CaraOS.Xhci.TransferRing
import CaraOS.Leargas.Pressed
import CaraOS.Leargas.Focus
import CaraOS.Leargas.Content
import CaraOS.Leargas.Pointer
import CaraOS.DeviceTree.ParentCells
import CaraOS.IffParse.Scan
import CaraOS.Dath.Line
import CaraOS.Leargas.MenuPick
import CaraOS.GadTools.Attrs
import CaraOS.Libc.Sort
import CaraOS.Libc.Strtol
import CaraOS.Carafs.Checksum
import CaraOS.Croi.ExecLists
import CaraOS.Carafs.LogRoundTrip
import CaraOS.Carafs.PublicCalls
