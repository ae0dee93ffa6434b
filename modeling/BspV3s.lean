import BspV3s.Lib.Program
import BspV3s.Lib.Runs
import BspV3s.Lib.Counter
import BspV3s.Lib.ByteMemory
import BspV3s.Lib.Cache
import BspV3s.Lib.Bits
import BspV3s.Lib.Division
import BspV3s.Lib.Sections
import BspV3s.Lib.Search
import BspV3s.Lib.Packing
import BspV3s.Lib.Calendar
import BspV3s.Lib.WordMemory
import BspV3s.Lib.Arm
import BspV3s.Cpu.Context
import BspV3s.Cpu.VectorIrq
import BspV3s.Cpu.Schedule
import BspV3s.Gic.Distributor
import BspV3s.Gic.Groups
import BspV3s.Gic.Dispatch
import BspV3s.Timer.Delay
import BspV3s.Pwm.Control
import BspV3s.Pwm.Period
import BspV3s.Wdt.Interval
import BspV3s.Lib.Registers
import BspV3s.Gpio.Registers
import BspV3s.Gpio.Updates
import BspV3s.I2c.Lines
import BspV3s.Lib.Budget
import BspV3s.Lib.CString
import BspV3s.Lcd.Slots
import BspV3s.Lcd.Geometry
import BspV3s.Cpu.Mmu
import BspV3s.Rtc.Driver
import BspV3s.Rtc.Codec
import BspV3s.Rtc.RoundTrip
import BspV3s.Rtc.Ticks
import BspV3s.Rtc.Calls
import BspV3s.Rtc.Control
import BspV3s.Mmc.Host
import BspV3s.Mmc.SendCmd
import BspV3s.Mmc.Request
import BspV3s.Mmc.Stop
import BspV3s.Mmc.Clock
import BspV3s.Mmc.ModClk
import BspV3s.Mmc.Monitor
import BspV3s.Emac.Layout
import BspV3s.Emac.Driver
import BspV3s.Emac.Machine
import BspV3s.Emac.Receive
import BspV3s.Emac.ReceiveCall
import BspV3s.Emac.Transmit
import BspV3s.Emac.TransmitCall
import BspV3s.Emac.Init
import BspV3s.Emac.ReceiveRuns
import BspV3s.Emac.TransmitRuns
import BspV3s.Emac.Separation
import BspV3s.Emac.Coherence
import BspV3s.Emac.Rearm
import BspV3s.Emac.Link
import BspV3s.Emac.Agreement
import BspV3s.Lcd.Buffers
import BspV3s.Emac.Payload
import BspV3s.Emac.Restart
import BspV3s.Emac.RestartRuns
import BspV3s.Mmc.Transfer
import BspV3s.Lib.Mealy
import BspV3s.Spi.Controller
import BspV3s.Spi.Transfer
import BspV3s.Spi.Speed
import BspV3s.Uart.Divisor
import BspV3s.Lcd.Pll
import BspV3s.Lcd.PixelClock
import BspV3s.Gpio.PinName
import BspV3s.Lcd.Options
import BspV3s.Lcd.OptionReads
import BspV3s.Lib.Ring
import BspV3s.Mii.Registry
import BspV3s.Mii.Bus
import BspV3s.Mii.Mdio
import BspV3s.Phy.Driver
import BspV3s.Phy.Clause22
import BspV3s.Phy.Config
import BspV3s.Phy.Agreement
import BspV3s.Lib.Hierarchy
import BspV3s.Lib.Sweep
import BspV3s.Cpu.SetWay
import BspV3s.Lib.LongDivision
import BspV3s.Pwm.Div64
import BspV3s.Lcd.Render
import BspV3s.Lcd.Timings
import BspV3s.Lib.BitScan
import BspV3s.Phy.Discovery
import BspV3s.Phy.BringUp
import BspV3s.Lcd.Edid
