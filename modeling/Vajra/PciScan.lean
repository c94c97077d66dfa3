import Vajra.PciCapabilities

/-!
# The search for a PCI device (`hal/x86_64/pci.c`)

`halPciFindDevice` looks at function 0 of the 32 slots of bus 0 for a device with the two ids it is
given, whose first base address is an I/O port, and switches its I/O space and its bus mastering on.
The store goes to the dword that holds the status word as well, where a one clears a bit.  What it
leaves there is up to the device (`PciWrite`); but the capability list is elsewhere, so that the answer
about MSI-X is the one from before the store.
-/

namespace Vajra

section Words

variable (pci : PciBus) (slot func offset : UInt8)

end Words

variable {write : PciWrite} {pci pci' : PciBus} {vendorId deviceId : UInt16} {slot : UInt8}

end Vajra
