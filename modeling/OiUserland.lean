import OiUserland.Pkcs11.LockDiscipline
import OiUserland.Pkcs11.KeyIdentity
import OiUserland.Pkcs11.FreeListRuns
import OiUserland.Dtlogin.Logins
import OiUserland.Dtlogin.Identity
import OiUserland.Libusb.Overruns
import OiUserland.Libusb.Reference
import OiUserland.Libusb.NodeRuns
import OiUserland.Libusb.OpenChecks
import OiUserland.Libusb.Blocks
import OiUserland.Wrapper.RoutingRuns
import OiUserland.EntityMib.TrapRuns
import OiUserland.CmapCompact.ReadBack
import OiUserland.Fetch.NeedSig
import OiUserland.EntityMib.MappingCalls
import OiUserland.EntityMib.LowestParentRuns
import OiUserland.Pkcs11.CipherSlots
import OiUserland.Libusb.SharedEp0
import OiUserland.Fetch.Resume
import OiUserland.TransOvl.Caches
import OiUserland.TransOvl.SelectPair
import OiUserland.Interactive.PidSets
import OiUserland.Interactive.Requests
import OiUserland.Interactive.ProcessInfo
import OiUserland.HealthMonitor.KmemErrors
import OiUserland.HealthMonitor.NameCache
import OiUserland.HealthMonitor.DiskTraps
import OiUserland.Fetch.HashNames
import OiUserland.Fetch.DownloadPaths
import OiUserland.Bass.Updates
import OiUserland.Bass.ComponentPaths
import OiUserland.EntityMib.Allocation
import OiUserland.EntityMib.CycleCheck
import OiUserland.EntityMib.ChildLists
import OiUserland.EntityMib.TableWalkRuns
import OiUserland.EntityMib.PlacementRuns
import OiUserland.Pkcs11.DsaEncoding
import OiUserland.Pkcs11.RsaSign
import OiUserland.Pkcs11.KeyShutdown
import OiUserland.Pkcs11.KeySearch
import OiUserland.Pkcs11.TokenInfo
import OiUserland.Libusb.Strings
import OiUserland.Libusb.ExtraScans
import OiUserland.Libusb.ItemFormats
import OiUserland.Pkcs11.PinCopies
import OiUserland.Wrapper.PluginEntries
import OiUserland.Libusb.FindDevices
import OiUserland.Wrapper.HandleRuns
import OiUserland.Pkcs11.PersistentFlag
import OiUserland.CmapCompact.CellSearch
import OiUserland.HealthMonitor.RefreshGuards
import OiUserland.Pkglint.Links
import OiUserland.Pkglint.Merge
import OiUserland.Incorporator.Incorporations
import OiUserland.Mangler.Cddl
import OiUserland.Mangler.RunPaths
import OiUserland.Bass.ComponentUpdates
import OiUserland.HealthMonitor.DeviceNames
import OiUserland.HealthMonitor.DiskCursors
import OiUserland.HealthMonitor.DeviceStrings
import OiUserland.SunProcesses.ProcessTable
import OiUserland.SunProcesses.DeviceTable
import OiUserland.Mkcookie.Authority
import OiUserland.Dga.Colormaps
import OiUserland.Dga.WindowLists
import OiUserland.Dga.GrabRuns
import OiUserland.Xmu.VisualGammas
import OiUserland.Xmu.ColormapEquivalence
import OiUserland.Xinerama.FrameBuffers
import OiUserland.Lib.Cycles
