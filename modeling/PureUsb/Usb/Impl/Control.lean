import PureUsb.Usb.Basic

/-!
This module contains the pipe macros of `usb.h` and the control transfers of `usb.c`.
-/

/-!
### Pipes
-/

def createPipe (d : UsbDevice) (endpoint : BitVec 32) : BitVec 32 :=
  (BitVec.ofInt 32 d.devnum <<< 8) ||| (endpoint <<< 15) ||| (BitVec.ofInt 32 d.speed <<< 26) |||
    BitVec.ofInt 32 d.maxpacketsize

def defaultPipe (d : UsbDevice) : BitVec 32 :=
  BitVec.ofInt 32 d.speed <<< 26

def usbSndctrlpipe (d : UsbDevice) (endpoint : BitVec 32) : BitVec 32 :=
  (pipeControl <<< 30) ||| createPipe d endpoint

def usbRcvctrlpipe (d : UsbDevice) (endpoint : BitVec 32) : BitVec 32 :=
  (pipeControl <<< 30) ||| createPipe d endpoint ||| usbDirIn.setWidth 32

def usbSndbulkpipe (d : UsbDevice) (endpoint : BitVec 32) : BitVec 32 :=
  (pipeBulk <<< 30) ||| createPipe d endpoint

def usbRcvbulkpipe (d : UsbDevice) (endpoint : BitVec 32) : BitVec 32 :=
  (pipeBulk <<< 30) ||| createPipe d endpoint ||| usbDirIn.setWidth 32

def usbSnddefctrl (d : UsbDevice) : BitVec 32 :=
  (pipeControl <<< 30) ||| defaultPipe d

def usbPipein (pipe : BitVec 32) : BitVec 32 := (pipe >>> 7) &&& 1

def usbPipeout (pipe : BitVec 32) : Fin 2 := Fin.ofNat 2 (((pipe >>> 7) &&& 1) ^^^ 1).toNat

def usbPipedevice (pipe : BitVec 32) : BitVec 32 := (pipe >>> 8) &&& 0x7f

def usbPipeendpoint (pipe : BitVec 32) : BitVec 32 := (pipe >>> 15) &&& 0xf

def usbPipespeed (pipe : BitVec 32) : BitVec 32 := (pipe >>> 26) &&& 3

def usbPipetype (pipe : BitVec 32) : BitVec 32 := (pipe >>> 30) &&& 3

def usbGettoggle (d : UsbDevice) (ep : BitVec 32) (out : Fin 2) : BitVec 32 :=
  (d.toggle out >>> ep) &&& 1

def usbSettoggle (d : UsbDevice) (ep : BitVec 32) (out : Fin 2) (bit : BitVec 32) : UsbDevice :=
  { d with toggle :=
      Function.update d.toggle out ((d.toggle out &&& ~~~(1#32 <<< ep)) ||| (bit <<< ep)) }

def usbEndpointRunning (d : UsbDevice) (ep : BitVec 32) (out : Fin 2) : UsbDevice :=
  { d with halted := Function.update d.halted out (d.halted out &&& ~~~(1#32 <<< ep)) }

def usbMaxpacket (d : UsbDevice) (pipe : BitVec 32) : Int :=
  let ep : Fin 16 := Fin.ofNat 16 ((pipe >>> 15) &&& 0xf).toNat
  if pipe &&& usbDirIn.setWidth 32 = 0 then
    d.epmaxpacketout ep
  else
    d.epmaxpacketin ep

/-!
### Control transfers
-/

def usbInit : UsbM Int := do
  modify fun u =>
    { u with
      usbDev := fun _ => { UsbDevice.zero with devnum := -1 }
      running := 0
      gDevIndex := 0
      asynchAllowed := 1
      usbStarted := 1 }
  return 0

def usbStop : UsbM Int := do
  modify fun u =>
    if u.usbStarted ≠ 0 then { u with asynchAllowed := 1, usbStarted := 0 } else u
  return 0

def usbDisableAsynch (disable : Int) : UsbM Unit :=
  modify fun u => { u with asynchAllowed := if disable = 0 then 1 else 0 }

/-- Hand a transfer to the host controller driver, which may change the device structure. -/
def submit (dev : Fin 32) (pipe : BitVec 32) (data : Buffer) (length : Nat)
    (setup : Option DevRequest) : UsbM (Int × List Byte) := do
  let u ← get
  let r : Submitted ← Stateful.ask (HcdOp.submit ⟨u.usbDev, dev, pipe, data, length, setup⟩)
  modifyDev dev fun _ => r.dev
  return (r.ret, r.data)

/--
`usb_control_msg`. The second component are the bytes that were stored at `data`. The loop that
waits for `USB_ST_NOT_PROC` to go away is left out, nobody writes `dev->status` meanwhile.
-/
def usbControlMsg (dev : Fin 32) (pipe : BitVec 32) (request requesttype : Byte)
    (value index : BitVec 16) (data : Buffer) (size : BitVec 16) (timeout : Nat)
    : UsbM (Int × List Byte) := do
  let u ← get
  if timeout = 0 ∧ u.asynchAllowed = 0 then
    return (-1, [])
  else
    let setup : DevRequest := ⟨requesttype, request, value, index, size⟩
    modify fun u => { u with setupPacket := setup }
    modifyDev dev fun d => { d with status := usbStNotProc }
    let (ret, bytes) ← submit dev pipe data size.toNat (some setup)
    if ret < 0 then
      return (ret, bytes)
    else if timeout = 0 then
      return (size.toNat, bytes)
    else
      let d ← getDev dev
      if d.status ≠ 0 then
        return (-1, bytes)
      else
        return (d.actLen, bytes)

/--
`usb_bulk_msg`. The second component is what it stores in `*actual_length`, if it does. The loop
that waits for `USB_ST_NOT_PROC` to go away is left out here as well.
-/
def usbBulkMsg (dev : Fin 32) (pipe : BitVec 32) (data : Buffer) (len : Int)
    : UsbM (Int × Option Int) := do
  if len < 0 then
    return (-1, none)
  else
    modifyDev dev fun d => { d with status := usbStNotProc }
    let (ret, _) ← submit dev pipe data len.toNat none
    if ret < 0 then
      return (ret, none)
    else
      let d ← getDev dev
      if d.status = 0 then
        return (-1, some d.actLen)
      else
        return (0, some d.actLen)

def usbClearHalt (dev : Fin 32) (pipe : BitVec 32) : UsbM Int := do
  let d ← getDev dev
  let endp := (usbPipeendpoint pipe ||| (usbPipein pipe <<< 7)).setWidth 16
  let (result, _) ← usbControlMsg dev (usbSndctrlpipe d 0) usbReqClearFeature usbRecipEndpoint 0
    endp .null 0 (usbCntlTimeout * 3)
  if result < 0 then
    return result
  else
    modifyDev dev fun d => usbEndpointRunning d (usbPipeendpoint pipe) (usbPipeout pipe)
    modifyDev dev fun d => usbSettoggle d (usbPipeendpoint pipe) (usbPipeout pipe) 0
    return 0

def usbGetDescriptor (dev : Fin 32) (type index : Byte) (buf : Buffer) (size : Nat)
    : UsbM (Int × List Byte) := do
  let d ← getDev dev
  usbControlMsg dev (usbRcvctrlpipe d 0) usbReqGetDescriptor usbDirIn
    ((type.setWidth 16 <<< 8) + index.setWidth 16) 0 buf (BitVec.ofNat 16 size) usbCntlTimeout

/--
`usb_get_configuration_no`, with what it leaves in `buffer`.
-/
def usbGetConfigurationNo (dev : Fin 32) (buffer : Bytes 512) (cfgno : Byte)
    : UsbM (Int × Bytes 512) := do
  let (result, bytes) ← usbGetDescriptor dev usbDtConfig cfgno .tmpbuf 9
  let buffer := buffer.write 0 bytes
  if result < 9 then
    return (-1, buffer)
  else
    let tmp := le16 (buffer 2) (buffer 3)
    if tmp > usbBufsiz then
      return (-1, buffer)
    else
      let (result, bytes) ← usbGetDescriptor dev usbDtConfig cfgno .tmpbuf tmp
      return (result, buffer.write 0 bytes)

def usbSetAddress (dev : Fin 32) : UsbM Int := do
  let d ← getDev dev
  let (res, _) ← usbControlMsg dev (usbSnddefctrl d) usbReqSetAddress 0 (BitVec.ofInt 16 d.devnum) 0
    .null 0 usbCntlTimeout
  return res

def usbSetConfiguration (dev : Fin 32) (configuration : Byte) : UsbM Int := do
  let d ← getDev dev
  let (ret, _) ← usbControlMsg dev (usbSndctrlpipe d 0) usbReqSetConfiguration 0
    (configuration.setWidth 16) 0 .null 0 usbCntlTimeout
  if ret < 0 then
    return -1
  else if ret > 0 then
    return -1
  else
    modifyDev dev fun d => { d with toggle := fun _ => 0 }
    return 0

/-!
### Hub requests
-/

def usbGetHubDescriptor (dev : Fin 32) (size : Nat) : UsbM (Int × List Byte) := do
  let d ← getDev dev
  usbControlMsg dev (usbRcvctrlpipe d 0) usbReqGetDescriptor (usbDirIn ||| usbRtHub)
    (usbDtHub.setWidth 16 <<< 8) 0 .buffer (BitVec.ofNat 16 size) usbCntlTimeout

def usbClearPortFeature (dev : Fin 32) (port : Int) (feature : BitVec 16) : UsbM Int := do
  let d ← getDev dev
  let (ret, _) ← usbControlMsg dev (usbSndctrlpipe d 0) usbReqClearFeature usbRtPort feature
    (BitVec.ofInt 16 port) .null 0 usbCntlTimeout
  return ret

def usbSetPortFeature (dev : Fin 32) (port : Int) (feature : BitVec 16) : UsbM Int := do
  let d ← getDev dev
  let (ret, _) ← usbControlMsg dev (usbSndctrlpipe d 0) usbReqSetFeature usbRtPort feature
    (BitVec.ofInt 16 port) .null 0 usbCntlTimeout
  return ret

def usbGetHubStatus (dev : Fin 32) : UsbM (Int × List Byte) := do
  let d ← getDev dev
  usbControlMsg dev (usbRcvctrlpipe d 0) usbReqGetStatus (usbDirIn ||| usbRtHub) 0 0 .buffer 4
    usbCntlTimeout

def usbGetPortStatus (dev : Fin 32) (port : Int) : UsbM (Int × List Byte) := do
  let d ← getDev dev
  usbControlMsg dev (usbRcvctrlpipe d 0) usbReqGetStatus (usbDirIn ||| usbRtPort) 0
    (BitVec.ofInt 16 port) .portsts 4 usbCntlTimeout
