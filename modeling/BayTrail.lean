import BayTrail.Nvram.Healthy
import BayTrail.Nvram.Recount
import BayTrail.Nvram.QueryInfo
import BayTrail.Nvram.Arbitrary
import BayTrail.Nvram.Collection
import BayTrail.BootScript.Position
import BayTrail.Flash.Protocol
import BayTrail.SecureBoot.Authenticode
import BayTrail.SecureBoot.Policy
import BayTrail.SecureBoot.TimeBased
import BayTrail.SecureBoot.Filtered
import BayTrail.Pci.Phases
import BayTrail.Pci.Checks
import BayTrail.Pci.Probe
import BayTrail.Pci.Save
import BayTrail.Acpi.Atomic
import BayTrail.Usb.Run
import BayTrail.Usb.RingQueue
import BayTrail.SmiFlash.Smi
import BayTrail.NvFlash.Hybrid
import BayTrail.NvFlash.Bounce
import BayTrail.Nvram.Monotonic
import BayTrail.Nvram.Polarity
import BayTrail.Pci.Published
import BayTrail.DevicePath.Algebra
import BayTrail.DevicePath.Unprotected
import BayTrail.Bds.Untrusted
import BayTrail.Compat.Sequence
import BayTrail.Dbe.Ordered
import BayTrail.Usb.Unread
import BayTrail.Cmos.Defaults
import BayTrail.Recovery.Tried
import BayTrail.Usb.PoolRun
import BayTrail.Usb.DescriptorWalk
import BayTrail.SecureFlash.Safe
import BayTrail.Terminal.Keys
import BayTrail.Recovery.Patterns
import BayTrail.SecureBoot.LookupExact
import BayTrail.Bds.Sorted
import BayTrail.Usb.Keyboard
import BayTrail.Terminal.Notified
import BayTrail.Smbios.Confined
import BayTrail.Usb.SlotRings
import BayTrail.Gcd.Runs
import BayTrail.Smm.PageRuns
import BayTrail.Dxe.Dispatching
import BayTrail.Crypto.Message
