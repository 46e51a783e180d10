import PureUsb.Bytes

/-!
This module contains the constants of `usb_defs.h` and `usb.h`.
-/

abbrev usbMaxDevice : Nat := 32
abbrev usbMaxinterfaces : Nat := 8
abbrev usbMaxendpoints : Nat := 16
abbrev usbMaxchildren : Nat := 8
abbrev usbCntlTimeout : Nat := 100
abbrev usbBufsiz : Nat := 512

/-!
### Requests
-/

abbrev usbTypeClass : Byte := 0x20

abbrev usbRecipDevice : Byte := 0x00
abbrev usbRecipInterface : Byte := 0x01
abbrev usbRecipEndpoint : Byte := 0x02
abbrev usbRecipOther : Byte := 0x03

abbrev usbDirOut : Byte := 0x00
abbrev usbDirIn : Byte := 0x80

abbrev usbRtHub : Byte := usbTypeClass ||| usbRecipDevice
abbrev usbRtPort : Byte := usbTypeClass ||| usbRecipOther

abbrev usbReqGetStatus : Byte := 0x00
abbrev usbReqClearFeature : Byte := 0x01
abbrev usbReqSetFeature : Byte := 0x03
abbrev usbReqSetAddress : Byte := 0x05
abbrev usbReqGetDescriptor : Byte := 0x06
abbrev usbReqSetConfiguration : Byte := 0x09
abbrev usbReqSetInterface : Byte := 0x0b

abbrev usbDtDevice : Byte := 0x01
abbrev usbDtConfig : Byte := 0x02
abbrev usbDtString : Byte := 0x03
abbrev usbDtInterface : Byte := 0x04
abbrev usbDtEndpoint : Byte := 0x05
abbrev usbDtHub : Byte := usbTypeClass ||| 0x09

abbrev usbClassHub : Byte := 9

/-!
### Pipes and transfer status
-/

abbrev usbSpeedFull : Int := 0
abbrev usbSpeedLow : Int := 1
abbrev usbSpeedHigh : Int := 2

abbrev packetSize8 : Int := 0
abbrev packetSize16 : Int := 1
abbrev packetSize32 : Int := 2
abbrev packetSize64 : Int := 3

abbrev pipeControl : BitVec 32 := 2
abbrev pipeBulk : BitVec 32 := 3

abbrev usbStStalled : BitVec 32 := 0x2
abbrev usbStBufErr : BitVec 32 := 0x4
abbrev usbStBabbleDet : BitVec 32 := 0x8
abbrev usbStCrcErr : BitVec 32 := 0x20
abbrev usbStNotProc : BitVec 32 := 0x80000000

/-!
### Hub ports
-/

abbrev usbPortFeatEnable : BitVec 16 := 1
abbrev usbPortFeatSuspend : BitVec 16 := 2
abbrev usbPortFeatOverCurrent : BitVec 16 := 3
abbrev usbPortFeatReset : BitVec 16 := 4
abbrev usbPortFeatPower : BitVec 16 := 8
abbrev usbPortFeatCConnection : BitVec 16 := 16
abbrev usbPortFeatCEnable : BitVec 16 := 17
abbrev usbPortFeatCOverCurrent : BitVec 16 := 19
abbrev usbPortFeatCReset : BitVec 16 := 20

abbrev usbPortStatConnection : BitVec 16 := 0x0001
abbrev usbPortStatEnable : BitVec 16 := 0x0002
abbrev usbPortStatSuspend : BitVec 16 := 0x0004
abbrev usbPortStatOvercurrent : BitVec 16 := 0x0008
abbrev usbPortStatReset : BitVec 16 := 0x0010
abbrev usbPortStatPower : BitVec 16 := 0x0100
abbrev usbPortStatLowSpeed : BitVec 16 := 0x0200
abbrev usbPortStatHighSpeed : BitVec 16 := 0x0400

abbrev usbPortStatCConnection : BitVec 16 := 0x0001
abbrev usbPortStatCEnable : BitVec 16 := 0x0002
abbrev usbPortStatCOvercurrent : BitVec 16 := 0x0008
abbrev usbPortStatCReset : BitVec 16 := 0x0010
