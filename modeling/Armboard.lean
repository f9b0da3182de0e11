import Armboard.DataFlash.Range
import Armboard.DataFlash.Unrecognised
import Armboard.DataFlash.Encoding
import Armboard.Bootloader.Screen
import Armboard.Bootloader.Verify
import Armboard.Bootloader.HeaderWord
import Armboard.Bootloader.FlashViewer
import Armboard.Bootloader.AddressParser
import Armboard.Stdio.Bounds
import Armboard.Uboot.Protection
import Armboard.Uboot.LinkAgreement
import Armboard.Uboot.Detection
import Armboard.MemoryTest.Aliasing
import Armboard.MemoryTest.Galloping
import Armboard.MemoryTest.Bounds
import Armboard.MemoryTest.Reports
import Armboard.Ssd1906.Geometry
import Armboard.Ssd1906.Balance
import Armboard.Ssd1906.History
import Armboard.Ssd1906.Panning
import Armboard.Ssd1906.Palette
import Armboard.Ste100p.Registers
import Armboard.Ethernet.Handover
import Armboard.Mmc.Capacity
import Armboard.Mmc.Bread
import Armboard.Mmc.Slices
import Armboard.Mmc.Clock
import Armboard.Emac.EthRx
import Armboard.Emac.At91EtherRx
import Armboard.Uboot.Crc32
import Armboard.Env.Setenv
import Armboard.Env.Recovery
import Armboard.Env.Baudrate
import Armboard.Emac.Multicast
import Armboard.Tftp.Progress
import Armboard.Tftp.Wrap
import Armboard.Tftp.Frames
import Armboard.Net.Waiting
import Armboard.Net.Ping
