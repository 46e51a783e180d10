import PureUsb.Arm.Absolute
import PureUsb.Arm.Divmod
import PureUsb.Arm.Divsi3
import PureUsb.Arm.LongDivision
import PureUsb.Arm.Machine
import PureUsb.Arm.Modsi3
import PureUsb.Arm.Reaches
import PureUsb.Arm.Shift
import PureUsb.Arm.Udivsi3
import PureUsb.Arm.Umodsi3
import PureUsb.BufferBounds
import PureUsb.Bytes
import PureUsb.Contract
import PureUsb.ControlRead
import PureUsb.Div64
import PureUsb.Division
import PureUsb.Ehci.Agent
import PureUsb.Ehci.Basic
import PureUsb.Ehci.BringUp
import PureUsb.Ehci.Bus
import PureUsb.Ehci.Exclusive
import PureUsb.Ehci.Impl.Async
import PureUsb.Ehci.Impl.Init
import PureUsb.Ehci.Impl.Root
import PureUsb.Ehci.Lemmas.Agent
import PureUsb.Ehci.Lemmas.Basic
import PureUsb.Ehci.Lemmas.Bus
import PureUsb.Ehci.Lemmas.Chain
import PureUsb.Ehci.Lemmas.Completion
import PureUsb.Ehci.Lemmas.Effects
import PureUsb.Ehci.Lemmas.Ports
import PureUsb.Ehci.Lemmas.Prepare
import PureUsb.Ehci.Lemmas.Root
import PureUsb.Ehci.Lemmas.Schedule
import PureUsb.Ehci.Lemmas.Token
import PureUsb.Ehci.Lemmas.Transfer
import PureUsb.Ehci.Pages
import PureUsb.Ehci.PortReset
import PureUsb.Ehci.QueueHead
import PureUsb.Ehci.RegisterLog
import PureUsb.Ehci.RootHub
import PureUsb.Ehci.RootPorts
import PureUsb.Ehci.RootReply
import PureUsb.Ehci.Schedule
import PureUsb.Ehci.Stages
import PureUsb.Ehci.Toggle
import PureUsb.Ehci.Told
import PureUsb.Ehci.Transfer
import PureUsb.Enumeration
import PureUsb.Fields
import PureUsb.Hcd
import PureUsb.HubDescriptors
import PureUsb.Main.Addressing
import PureUsb.Main.Basic
import PureUsb.Main.Lemmas.Addressing
import PureUsb.Main.Lemmas.BusScan
import PureUsb.Main.Lemmas.Enumerate
import PureUsb.Main.Lemmas.Invariant
import PureUsb.Main.Lemmas.Listening
import PureUsb.Main.Lemmas.Transfer
import PureUsb.Main.Listening
import PureUsb.Main.Routing
import PureUsb.MaxPacket
import PureUsb.Memory
import PureUsb.MessageResult
import PureUsb.Numeral
import PureUsb.PacketSizes
import PureUsb.PortResetTries
import PureUsb.PortTree
import PureUsb.Prog.Basic
import PureUsb.Prog.Follow
import PureUsb.Prog.History
import PureUsb.Prog.Loop
import PureUsb.Prog.Noted
import PureUsb.Prog.Only
import PureUsb.Prog.Rel
import PureUsb.Prog.Sim
import PureUsb.Prog.Stateful
import PureUsb.Prog.Trace
import PureUsb.QueueHeads
import PureUsb.Reinit
import PureUsb.Ring
import PureUsb.StackContents
import PureUsb.Strings
import PureUsb.Toggles
import PureUsb.Tube
import PureUsb.Uart.Basic
import PureUsb.Uart.Output
import PureUsb.Usb.Basic
import PureUsb.Usb.ChangeNotes
import PureUsb.Usb.ConfigBounds
import PureUsb.Usb.ConfigDecode
import PureUsb.Usb.ConfigLoop
import PureUsb.Usb.Configuration
import PureUsb.Usb.Configured
import PureUsb.Usb.Connection
import PureUsb.Usb.Contract
import PureUsb.Usb.Defs
import PureUsb.Usb.Descriptors
import PureUsb.Usb.Device
import PureUsb.Usb.DeviceRanges
import PureUsb.Usb.DeviceTable
import PureUsb.Usb.HubBounds
import PureUsb.Usb.Impl.Config
import PureUsb.Usb.Impl.Control
import PureUsb.Usb.Impl.Hub
import PureUsb.Usb.Impl.Scan
import PureUsb.Usb.Impl.Strings
import PureUsb.Usb.Lemmas.Alloc
import PureUsb.Usb.Lemmas.Children
import PureUsb.Usb.Lemmas.Configuration
import PureUsb.Usb.Lemmas.Control
import PureUsb.Usb.Lemmas.Frame
import PureUsb.Usb.Lemmas.Pipe
import PureUsb.Usb.Lemmas.Requests
import PureUsb.Usb.Lemmas.Scan
import PureUsb.Usb.Lemmas.Strict
import PureUsb.Usb.Lemmas.Table
import PureUsb.Usb.Lemmas.Trace
import PureUsb.Usb.Lemmas.Walk
import PureUsb.Usb.Received
import PureUsb.Usb.ScanAnswers
import PureUsb.Usb.ScanNotes
import PureUsb.Usb.ScanResult
import PureUsb.Usb.ScanSlots
import PureUsb.Usb.Walk
import PureUsb.Vsprintf.Digits
import PureUsb.Vsprintf.Directive
import PureUsb.Vsprintf.Format
import PureUsb.Vsprintf.Impl.Ctype
import PureUsb.Vsprintf.Impl.Format
import PureUsb.Vsprintf.Impl.Number
import PureUsb.Vsprintf.Impl.Strtoul
import PureUsb.Vsprintf.Layout
import PureUsb.Vsprintf.ReadBack
import PureUsb.Word
