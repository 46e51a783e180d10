import PureUsb.Prog.Only
import PureUsb.Usb.Impl.Hub

/-!
This module contains the walk over the functions of `usb.c` for what they request: no function asks for more bytes
than the object that `data` points to takes, and most neither assign an address nor reset a port.
-/

open Stateful

/-- The transfer is not longer than the object that it reads or writes. -/
def HcdOp.FitsBuffer (o : HcdOp) : Prop :=
  match o with
  | .submit x => x.length ≤ x.buffer.size
  | _ => True

abbrev FitsBuffers {α : Type} (m : UsbM α) : Prop := Only HcdOp.FitsBuffer (fun _ => True) m

def DevRequest.address? (setup : DevRequest) : Option Nat :=
  if setup.requesttype = 0 ∧ setup.request = usbReqSetAddress then some setup.value.toNat else none

def DevRequest.resetPort? (setup : DevRequest) : Option Nat :=
  if setup.requesttype = usbRtPort ∧ setup.request = usbReqSetFeature ∧ setup.value = usbPortFeatReset then
    some setup.index.toNat
  else
    none

/-- The request neither assigns an address nor resets a port. -/
structure DevRequest.Harmless (setup : DevRequest) : Prop where
  address : setup.address? = none
  resetPort : setup.resetPort? = none

def HcdOp.Harmless (o : HcdOp) : Prop :=
  match o with
  | .submit x => ∀ setup ∈ x.setup, setup.Harmless
  | _ => True

abbrev IsHarmless {α : Type} (m : UsbM α) : Prop := Only HcdOp.Harmless (fun _ => True) m

/-- A transfer fits its buffer, and `K` is true of its request. -/
def HcdOp.Sends (K : DevRequest → Prop) (o : HcdOp) : Prop :=
  match o with
  | .submit x => x.length ≤ x.buffer.size ∧ ∀ setup ∈ x.setup, K setup
  | _ => True

/-- All transfers of a function fit their buffers, and `K` is true of their requests. -/
abbrev Sends {α : Type} (K : DevRequest → Prop) (m : UsbM α) : Prop := Only (HcdOp.Sends K) (fun _ => True) m

namespace DevRequest.Harmless

variable {requesttype request : Byte} {value index length : BitVec 16}

theorem of_request (h : request ≠ usbReqSetAddress) (h' : request ≠ usbReqSetFeature)
    : Harmless ⟨requesttype, request, value, index, length⟩ :=
  ⟨if_neg fun hf => h hf.2, if_neg fun hf => h' hf.2.1⟩

theorem of_feature (h : value ≠ usbPortFeatReset)
    : Harmless ⟨requesttype, usbReqSetFeature, value, index, length⟩ :=
  ⟨if_neg fun hf => absurd (show usbReqSetFeature = usbReqSetAddress from hf.2) (by decide),
   if_neg fun hf => h hf.2.2⟩

end DevRequest.Harmless

namespace Sends

section

variable {α : Type} {K : DevRequest → Prop} {m : UsbM α}

theorem fitsBuffers (h : Sends K m) : FitsBuffers m := by
  apply Only.mono h
  . intro o ho
    cases o with
    | submit x => exact ho.1
    | _ => trivial
  . exact fun _ => id

theorem isHarmless (h : Sends DevRequest.Harmless m) : IsHarmless m := by
  apply Only.mono h
  . intro o ho
    cases o with
    | submit x => exact ho.2
    | _ => trivial
  . exact fun _ => id

theorem any (h : Sends K m) : Sends (fun _ => True) m := by
  apply Only.mono h
  . intro o ho
    cases o with
    | submit x => exact ⟨ho.1, fun _ _ => trivial⟩
    | _ => trivial
  . exact fun _ => id

theorem getDev (dev : Fin 32) : Sends K (getDev dev) := by
  apply Only.bind Only.get
  intro u
  apply Only.pure

theorem modifyDev (dev : Fin 32) (f : UsbDevice → UsbDevice) : Sends K (modifyDev dev f) := by
  apply Only.modify

theorem stack (n : Nat) : Sends K (Stateful.ask (HcdOp.stack n)) := Only.ask trivial

theorem ofExcept {α : Type} (x : Except Stop α) : Sends K (Stateful.ofExcept x : UsbM α) :=
  Only.ofExcept fun _ _ => trivial

theorem deref (p : DevPtr) : Sends K (deref p) := by
  cases p with
  | dev k => apply Only.pure
  | null => exact Only.stop trivial
  | wild a => exact Only.stop trivial

/-!
### Control transfers
-/

theorem submit {dev : Fin 32} {pipe : BitVec 32} {data : Buffer} {length : Nat}
    {setup : Option DevRequest} (h : length ≤ data.size) (hK : ∀ request ∈ setup, K request)
    : Sends K (submit dev pipe data length setup) := by
  apply Only.bind Only.get
  intro u
  apply Only.bind
  . apply Only.ask
    exact ⟨h, hK⟩
  . intro r
    apply Only.bind (modifyDev _ _)
    intro _
    apply Only.pure

theorem usbControlMsg {dev : Fin 32} {pipe : BitVec 32} {request requesttype : Byte}
    {value index size : BitVec 16} {data : Buffer} {timeout : Nat} (h : size.toNat ≤ data.size)
    (hK : K ⟨requesttype, request, value, index, size⟩)
    : Sends K (usbControlMsg dev pipe request requesttype value index data size timeout) := by
  apply Only.bind Only.get
  intro u
  apply Only.ite (fun _ => Only.pure _)
  intro _
  apply Only.bind (Only.modify _)
  intro _
  apply Only.bind (modifyDev _ _)
  intro _
  apply Only.bind (submit h fun _ hs => Option.mem_some.mp hs ▸ hK)
  intro r
  apply Only.ite (fun _ => Only.pure _)
  intro _
  apply Only.ite (fun _ => Only.pure _)
  intro _
  apply Only.bind (getDev _)
  intro d
  exact Only.ite (fun _ => Only.pure _) fun _ => Only.pure _

end

/-!
### Functions that neither assign an address nor reset a port
-/

section

variable {dev : Fin 32} {size : Nat}

theorem byte_le (b : Byte) : b.toNat ≤ usbBufsiz := by
  have : b.toNat < 256 := b.isLt
  exact Nat.le_trans (Nat.le_of_lt this) (by decide)

theorem toNat_ofNat_le {size n : Nat} (h : size ≤ n) : (BitVec.ofNat 16 size).toNat ≤ n := by
  rw [BitVec.toNat_ofNat]
  exact Nat.le_trans (Nat.mod_le _ _) h

theorem usbGetDescriptor {type index : Byte} {buf : Buffer} (h : size ≤ buf.size)
    : Sends DevRequest.Harmless (usbGetDescriptor dev type index buf size) := by
  apply Only.bind (getDev _)
  intro d
  exact usbControlMsg (toNat_ofNat_le h) (.of_request (by decide) (by decide))

theorem usbGetConfigurationNo (buffer : Bytes 512) (cfgno : Byte)
    : Sends DevRequest.Harmless (usbGetConfigurationNo dev buffer cfgno) := by
  apply Only.bind (usbGetDescriptor (by decide))
  intro r
  apply Only.ite (fun _ => Only.pure _)
  intro _
  apply Only.ite (fun _ => Only.pure _)
  intro htmp
  -- the length that the device announced was compared with `USB_BUFSIZ`
  apply Only.bind (usbGetDescriptor (Nat.le_of_not_lt htmp))
  intro r
  apply Only.pure

theorem usbSetConfiguration (configuration : Byte)
    : Sends DevRequest.Harmless (usbSetConfiguration dev configuration) := by
  apply Only.bind (getDev _)
  intro d
  apply Only.bind (usbControlMsg (by decide) (.of_request (by decide) (by decide)))
  intro r
  apply Only.ite (fun _ => Only.pure _)
  intro _
  apply Only.ite (fun _ => Only.pure _)
  intro _
  apply Only.bind (modifyDev _ _)
  intro _
  apply Only.pure

theorem usbGetStringTries {langid : BitVec 16} {index : Byte} (h : size ≤ usbBufsiz) (tries : Nat)
    (buf : Bytes 512)
    : Sends DevRequest.Harmless (usbGetStringTries dev langid index size buf tries) := by
  induction tries generalizing buf with
  | zero =>
    apply Only.bind (getDev _)
    intro d
    apply Only.bind (usbControlMsg (toNat_ofNat_le h) (.of_request (by decide) (by decide)))
    intro r
    exact Only.ite (fun _ => Only.pure _) fun _ => Only.pure _
  | succ tries ih =>
    apply Only.bind (getDev _)
    intro d
    apply Only.bind (usbControlMsg (toNat_ofNat_le h) (.of_request (by decide) (by decide)))
    intro r
    exact Only.ite (fun _ => Only.pure _) fun _ => ih _

theorem usbGetString {langid : BitVec 16} {index : Byte} (h : size ≤ usbBufsiz) (buf : Bytes 512)
    : Sends DevRequest.Harmless (usbGetString dev langid index buf size) :=
  usbGetStringTries h 2 buf

theorem readString (langid : BitVec 16) (index : Byte) (buf : Bytes 512)
    : Sends DevRequest.Harmless (readString dev langid index buf) := by
  apply Only.bind (usbGetString (by decide) buf)
  rintro ⟨rc, buf⟩
  apply Only.ite
  . intro _
    apply Only.bind (usbGetString (by decide) buf)
    rintro ⟨rc, buf⟩
    -- the length of the last attempt is a byte
    exact Only.ite (fun _ => usbGetString (byte_le _) buf) fun _ => Only.pure _
  . intro _
    apply Only.pure

theorem usbStringSub (langid : BitVec 16) (index : Byte) (buf : Bytes 512)
    : Sends DevRequest.Harmless (usbStringSub dev langid index buf) := by
  apply Only.bind (readString _ _ _)
  intro r
  apply Only.ite
  . intro _
    apply Only.bind (ofExcept _)
    intro r
    apply Only.pure
  . intro _
    apply Only.pure

theorem readLangid (tbuf : Bytes 512) : Sends DevRequest.Harmless (readLangid dev tbuf) := by
  apply Only.bind (getDev _)
  intro d
  apply Only.ite
  . intro _
    apply Only.bind (usbStringSub _ _ _)
    intro r
    apply Only.ite (fun _ => Only.pure _)
    intro _
    apply Only.ite (fun _ => Only.pure _)
    intro _
    apply Only.bind (modifyDev _ _)
    intro _
    apply Only.pure
  . intro _
    apply Only.pure

theorem usbString (index : Int) (buf : Bytes size) : Sends DevRequest.Harmless (usbString dev index buf) := by
  apply Only.ite (fun _ => Only.pure _)
  intro _
  apply Only.bind (stack _)
  intro tbuf
  apply Only.bind (readLangid _)
  intro r
  apply Only.ite
  . intro _
    apply Only.bind (getDev _)
    intro d
    apply Only.bind (usbStringSub _ _ _)
    intro r
    apply Only.ite (fun _ => Only.pure _)
    intro _
    apply Only.bind (ofExcept _)
    intro chars
    apply Only.pure
  . intro _
    apply Only.pure

theorem scanString (index : UsbDevice → Byte) (get : UsbDevice → Bytes 32)
    (set : UsbDevice → Bytes 32 → UsbDevice)
    : Sends DevRequest.Harmless (scanString dev index get set) := by
  apply Only.bind (getDev _)
  intro d
  apply Only.ite
  . intro _
    apply Only.bind (usbString _ _)
    intro r
    apply modifyDev
  . intro _
    apply Only.pure

theorem scanStrings : Sends DevRequest.Harmless (scanStrings dev) := by
  apply Only.bind (modifyDev _ _)
  intro _
  apply Only.bind (scanString _ _ _)
  intro _
  apply Only.bind (scanString _ _ _)
  intro _
  apply scanString

theorem usbParseConfig (buffer : Bytes 512) (cfgno : Int)
    : Sends DevRequest.Harmless (usbParseConfig dev buffer cfgno) := by
  apply Only.bind (Only.ask trivial)
  intro _
  apply Only.bind (modifyDev _ _)
  intro _
  apply Only.bind Only.get
  intro u
  apply Only.bind (ofExcept _)
  intro r
  apply Only.bind (Only.set _)
  intro _
  apply Only.pure

theorem usbSetMaxpacket : Sends DevRequest.Harmless (usbSetMaxpacket dev) := by
  apply Only.bind Only.get
  intro u
  apply Only.bind (ofExcept _)
  intro eps
  apply Only.bind (modifyDev _ _)
  intro _
  apply Only.pure

theorem scanConfiguration (tmpbuf : Bytes 512) : Sends DevRequest.Harmless (scanConfiguration dev tmpbuf) := by
  apply Only.bind (usbGetConfigurationNo _ _)
  intro r
  apply Only.bind (usbParseConfig _ _)
  intro _
  apply Only.bind usbSetMaxpacket
  intro _
  apply Only.bind (getDev _)
  intro d
  apply Only.bind (usbSetConfiguration _)
  intro err
  apply Only.ite (fun _ => Only.pure _)
  intro _
  apply Only.bind scanStrings
  intro _
  apply Only.pure

theorem usbGetHubDescriptor (h : size ≤ usbBufsiz)
    : Sends DevRequest.Harmless (usbGetHubDescriptor dev size) := by
  apply Only.bind (getDev _)
  intro d
  exact usbControlMsg (toNat_ofNat_le h) (.of_request (by decide) (by decide))

theorem usbClearPortFeature (port : Int) (feature : BitVec 16)
    : Sends DevRequest.Harmless (usbClearPortFeature dev port feature) := by
  apply Only.bind (getDev _)
  intro d
  apply Only.bind (usbControlMsg (by decide) (.of_request (by decide) (by decide)))
  intro r
  apply Only.pure

theorem usbSetPortFeature {K : DevRequest → Prop} (port : Int) (feature : BitVec 16)
    (hK : K ⟨usbRtPort, usbReqSetFeature, feature, BitVec.ofInt 16 port, 0⟩)
    : Sends K (usbSetPortFeature dev port feature) := by
  apply Only.bind (getDev _)
  intro d
  apply Only.bind (usbControlMsg (by decide) hK)
  intro r
  apply Only.pure

theorem usbGetHubStatus : Sends DevRequest.Harmless (usbGetHubStatus dev) := by
  apply Only.bind (getDev _)
  intro d
  exact usbControlMsg (by decide) (.of_request (by decide) (by decide))

theorem usbGetPortStatus (port : Int) : Sends DevRequest.Harmless (usbGetPortStatus dev port) := by
  apply Only.bind (getDev _)
  intro d
  exact usbControlMsg (by decide) (.of_request (by decide) (by decide))

theorem powerOnPorts (n i : Nat) : Sends DevRequest.Harmless (powerOnPorts dev n i) := by
  induction n generalizing i with
  | zero => apply Only.pure
  | succ n ih =>
    apply Only.bind (usbSetPortFeature _ _ (.of_feature (by decide)))
    intro _
    apply ih

theorem usbHubPowerOn : Sends DevRequest.Harmless (usbHubPowerOn dev) := by
  apply Only.bind (getDev _)
  intro d
  apply powerOnPorts

theorem hasChild (port : Int) : Sends DevRequest.Harmless (hasChild dev port) := by
  apply Only.bind (getDev _)
  intro d
  split
  . apply Only.pure
  . exact Only.stop trivial

theorem portIsStale (port : Int) (portstatus : BitVec 16)
    : Sends DevRequest.Harmless (portIsStale dev port portstatus) :=
  Only.ite (fun _ => Only.pure _) fun _ => hasChild _

theorem storeHubDescriptor (buffer : Bytes 512) : Sends DevRequest.Harmless (storeHubDescriptor dev buffer) := by
  apply Only.bind (Only.ask trivial)
  intro _
  apply Only.bind Only.get
  intro u
  apply Only.bind (ofExcept _)
  intro usbDev
  apply Only.bind (Only.set _)
  intro _
  apply modifyDev

theorem usbHubInit : Sends DevRequest.Harmless (usbHubInit dev) := by
  apply Only.bind (stack _)
  intro buffer
  apply Only.bind (usbGetHubDescriptor (by decide))
  intro r
  apply Only.ite (fun _ => Only.pure _)
  intro _
  -- the length of the second read is a byte
  apply Only.bind (usbGetHubDescriptor (byte_le _))
  intro r
  apply Only.ite (fun _ => Only.pure _)
  intro _
  apply Only.bind (storeHubDescriptor _)
  intro _
  apply Only.bind usbGetHubStatus
  intro r
  apply Only.ite (fun _ => Only.pure _)
  intro _
  apply Only.bind usbHubPowerOn
  intro _
  apply Only.pure

theorem hubScanClear (i : Int) (cond : Prop) [Decidable cond] (feature : BitVec 16)
    : Sends DevRequest.Harmless (hubScanClear dev i cond feature) := by
  apply Only.ite
  . intro _
    apply Only.bind (usbClearPortFeature _ _)
    intro ret
    apply Only.pure
  . intro _
    apply Only.pure

theorem hubScanOverCurrent (i : Int) (portchange : BitVec 16)
    : Sends DevRequest.Harmless (hubScanOverCurrent dev i portchange) := by
  apply Only.ite
  . intro _
    apply Only.bind (usbClearPortFeature _ _)
    intro ret
    apply Only.ite (fun _ => Only.pure _)
    intro _
    apply Only.bind usbHubPowerOn
    intro _
    apply Only.pure
  . intro _
    apply Only.pure

end

/-!
### The others
-/

section

variable {dev : Fin 32}

theorem usbSetAddress : Sends (fun _ => True) (usbSetAddress dev) := by
  apply Only.bind (getDev _)
  intro d
  apply Only.bind (usbControlMsg (by decide) trivial)
  intro r
  apply Only.pure

theorem hubPortResetTries (port : Int) (tries : Nat) (portsts : Bytes 4)
    : Sends (fun _ => True) (hubPortResetTries dev port portsts tries) := by
  induction tries generalizing portsts with
  | zero => apply Only.pure
  | succ tries ih =>
    apply Only.bind (usbSetPortFeature _ _ trivial)
    intro _
    apply Only.bind (usbGetPortStatus _).any
    intro r
    apply Only.ite (fun _ => Only.pure _)
    intro _
    apply Only.ite (fun _ => Only.pure _)
    intro _
    exact Only.ite (fun _ => Only.pure _) fun _ => ih _

theorem hubPortReset (port : Int) : Sends (fun _ => True) (hubPortReset dev port) := by
  apply Only.bind (stack _)
  intro portsts
  apply Only.bind (hubPortResetTries _ _ _)
  rintro (_ | status)
  . apply Only.pure
  . apply Only.bind (usbClearPortFeature _ _).any
    intro _
    apply Only.pure

theorem usbAllocNewDevice (parent : Option (Fin 32)) (port : Nat)
    : Sends (fun _ => True) (usbAllocNewDevice parent port) := by
  apply Only.bind Only.get
  intro u
  apply Only.ite (fun _ => Only.pure _)
  intro _
  split
  . split
    . apply Only.bind (modifyDev _ _)
      intro _
      cases parent with
      | some p =>
        apply Only.bind (modifyDev _ _)
        intro _
        apply Only.bind (modifyDev _ _)
        intro _
        apply Only.bind (Only.modify _)
        intro _
        apply Only.pure
      | none =>
        apply Only.bind (modifyDev _ _)
        intro _
        apply Only.bind (Only.modify _)
        intro _
        apply Only.pure
    . exact Only.stop trivial
  . apply Only.pure

theorem resetParentPort : Sends (fun _ => True) (resetParentPort dev) := by
  apply Only.bind (getDev _)
  intro d
  apply Only.ite (fun _ => Only.pure _)
  intro _
  apply Only.bind (deref _)
  intro p
  apply Only.bind (getDev _)
  intro parent
  apply Only.bind (ofExcept _)
  rintro (_ | port)
  . apply Only.pure
  . apply Only.bind (hubPortReset _)
    intro r
    exact Only.ite (fun _ => Only.pure _) fun _ => Only.pure _

theorem scanDefault (tmpbuf : Bytes 512) : Sends (fun _ => True) (scanDefault dev tmpbuf) := by
  apply Only.bind (modifyDev _ _)
  intro _
  apply Only.bind (usbGetDescriptor (by decide)).any
  intro r
  apply Only.ite (fun _ => Only.pure _)
  intro _
  apply Only.bind (modifyDev _ _)
  intro _
  apply Only.bind resetParentPort
  intro err
  apply Only.ite (fun _ => Only.pure _)
  intro _
  apply Only.bind (modifyDev _ _)
  intro _
  apply Only.pure

theorem usbScanDevice : Sends (fun _ => True) (usbScanDevice dev) := by
  apply Only.bind (stack _)
  intro tmpbuf
  apply Only.bind (getDev _)
  intro d
  apply Only.bind (modifyDev _ _)
  intro _
  apply Only.bind (scanDefault _)
  intro r
  apply Only.ite (fun _ => Only.pure _)
  intro _
  apply Only.bind (modifyDev _ _)
  intro _
  apply Only.bind usbSetAddress
  intro err
  apply Only.ite (fun _ => Only.pure _)
  intro _
  apply Only.bind (usbGetDescriptor (Nat.le_refl 18)).any
  intro r
  apply Only.bind (modifyDev _ _)
  intro _
  exact Only.ite (fun _ => Only.pure _) fun _ => (scanConfiguration _).any

theorem usbIsHub (ifnum : Nat) : Sends (fun _ => True) (usbIsHub dev ifnum) := by
  apply Only.bind Only.get
  intro u
  apply Only.bind (ofExcept _)
  intro cls
  apply Only.bind (ofExcept _)
  intro subClass
  apply Only.bind (ofExcept _)
  intro bNumEndpoints
  apply Only.bind (ofExcept _)
  intro ep
  apply Only.ite (fun _ => Only.pure _)
  intro _
  apply Only.ite (fun _ => Only.pure _)
  intro _
  apply Only.ite (fun _ => Only.pure _)
  intro _
  apply Only.ite (fun _ => Only.pure _)
  intro _
  exact Only.ite (fun _ => Only.pure _) fun _ => Only.pure _

theorem usbScanRoothub : Sends (fun _ => True) usbScanRoothub := by
  apply Only.bind (usbAllocNewDevice _ _)
  rintro (_ | root)
  . apply Only.pure
  . apply Only.bind usbScanDevice
    intro ret
    apply Only.ite (fun _ => Only.pure _)
    intro _
    apply Only.bind (usbIsHub _)
    intro hub
    exact Only.ite (fun _ => Only.pure _) fun _ => Only.pure _

theorem enumeratePort (port : Int) (portstatus : BitVec 16)
    : Sends (fun _ => True) (enumeratePort dev port portstatus) := by
  apply Only.bind (usbAllocNewDevice _ _)
  rintro (_ | usb)
  . apply Only.pure
  . apply Only.bind (modifyDev _ _)
    intro _
    apply Only.bind usbScanDevice
    intro ret
    exact Only.ite (fun _ => Only.pure _) fun _ => Only.pure _

theorem usbHubPortConnectChange (port : Int) : Sends (fun _ => True) (usbHubPortConnectChange dev port) := by
  apply Only.bind (stack _)
  intro portsts
  apply Only.bind (usbGetPortStatus _).any
  intro r
  apply Only.ite (fun _ => Only.pure _)
  intro _
  apply Only.bind (usbClearPortFeature _ _).any
  intro _
  apply Only.bind (portIsStale _ _).any
  intro stale
  apply Only.ite (fun _ => Only.pure _)
  intro _
  apply Only.bind (hubPortReset _)
  rintro ⟨ret, _ | portstatus⟩
  . apply Only.pure
  . apply enumeratePort

theorem hubScanConnection (i : Int) (portchange : BitVec 16)
    : Sends (fun _ => True) (hubScanConnection dev i portchange) :=
  Only.ite (fun _ => usbHubPortConnectChange _) fun _ => Only.pure _

theorem hubScanEnable (i : Int) (portstatus portchange : BitVec 16) (new : Option (Fin 32))
    : Sends (fun _ => True) (hubScanEnable dev i portstatus portchange new) := by
  apply Only.ite
  . intro _
    apply Only.bind (usbClearPortFeature _ _).any
    intro _
    apply Only.ite
    . intro _
      apply Only.bind (hasChild _).any
      intro child
      exact Only.ite (fun _ => usbHubPortConnectChange _) fun _ => Only.pure _
    . intro _
      apply Only.pure
  . intro _
    apply Only.pure

theorem usbHubScan (i : Int) : Sends (fun _ => True) (usbHubScan dev i) := by
  apply Only.bind (stack _)
  intro portsts
  apply Only.bind (usbGetPortStatus _).any
  intro r
  apply Only.ite (fun _ => Only.pure _)
  intro _
  apply Only.bind (hubScanConnection _ _)
  intro r
  apply Only.ite (fun _ => Only.pure _)
  intro _
  apply Only.bind (hubScanEnable _ _ _ _)
  intro r
  apply Only.ite (fun _ => Only.pure _)
  intro _
  apply Only.bind (hubScanClear _ _ _).any
  intro known
  apply Only.ite (fun _ => Only.pure _)
  intro _
  apply Only.bind (hubScanOverCurrent _ _).any
  intro known
  apply Only.ite (fun _ => Only.pure _)
  intro _
  apply Only.bind (hubScanClear _ _ _).any
  intro known
  exact Only.ite (fun _ => Only.pure _) fun _ => Only.pure _

end

end Sends
