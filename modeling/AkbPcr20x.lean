import AkbPcr20x.Addressing
import AkbPcr20x.Agreement
import AkbPcr20x.Approximation
import AkbPcr20x.Basic
import AkbPcr20x.BitField
import AkbPcr20x.Clients
import AkbPcr20x.Command
import AkbPcr20x.CountedLock
import AkbPcr20x.Decoder
import AkbPcr20x.Diagnostics
import AkbPcr20x.Doorbell
import AkbPcr20x.Download
import AkbPcr20x.Eeprom
import AkbPcr20x.EndToEnd
import AkbPcr20x.Endpoint
import AkbPcr20x.FirmwareImage
import AkbPcr20x.Frontend
import AkbPcr20x.I2cBus
import AkbPcr20x.I2cCall
import AkbPcr20x.I2cEngine
import AkbPcr20x.I2cFrames
import AkbPcr20x.I2cOutcome
import AkbPcr20x.I2cReceive
import AkbPcr20x.I2cXfer
import AkbPcr20x.Interpreter
import AkbPcr20x.Issue
import AkbPcr20x.Latest
import AkbPcr20x.Link
import AkbPcr20x.Main
import AkbPcr20x.MainLoop
import AkbPcr20x.Memory
import AkbPcr20x.Mxl5007t
import AkbPcr20x.Ownership
import AkbPcr20x.PacketBounds
import AkbPcr20x.Packing
import AkbPcr20x.Pairing
import AkbPcr20x.Pointers
import AkbPcr20x.Ports
import AkbPcr20x.RegisterRead
import AkbPcr20x.SatelliteAccuracy
import AkbPcr20x.SatelliteControl
import AkbPcr20x.SatelliteInstances
import AkbPcr20x.SatelliteTuning
import AkbPcr20x.SharedBuffer
import AkbPcr20x.Streaming
import AkbPcr20x.Stv6110x
import AkbPcr20x.TerrestrialChip
import AkbPcr20x.TerrestrialGate
import AkbPcr20x.TerrestrialGuard
import AkbPcr20x.TerrestrialTuning
import AkbPcr20x.Transducer
import AkbPcr20x.Transition
import AkbPcr20x.Truncation
import AkbPcr20x.TsBus
import AkbPcr20x.TsBusWire
import AkbPcr20x.TunerInstances
import AkbPcr20x.XferGrammar
