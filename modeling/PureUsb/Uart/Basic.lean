import PureUsb.Prog.Basic
import PureUsb.Vsprintf.Impl.Ctype

/-!
This module contains the driver of the serial line, and the device behind it.
-/

namespace Uart

/-!
### The driver
-/

/-- The registers that the driver writes, under the names that they have without the divisor latch. -/
inductive Reg where
  | thr
  | ier
  | fcr
  | lcr
  | mcr
  deriving DecidableEq

inductive Op where
  | readLsr
  | write (r : Reg) (b : Byte)

abbrev Ans (o : Op) : Type :=
  match o with
  | .readLsr => Byte
  | .write _ _ => Unit

/-- A wait that does not end. -/
inductive Stop where
  | waits

abbrev UartM (α : Type) := Prog Op Ans Stop α

abbrev lcrval : Byte := 0x03
abbrev lcrBkse : Byte := 0x80
abbrev mcrval : Byte := 0x03
abbrev fcrFifoEn : Byte := 0x01
abbrev fcrTxsr : Byte := 0x04
abbrev fcrval : Byte := 0x07
abbrev lsrThre : Byte := 0x20

def serialOut (b : Byte) (r : Reg) : UartM Unit := Prog.ask (Op.write r b)

def readLsr : UartM Byte := Prog.ask Op.readLsr

/-- `baud_divisor` for the clock `clk`, with `CONFIG_BAUDRATE` 38400. -/
def baudDivisor (clk : Nat) : Nat := (clk + 38400 * (16 / 2)) / (16 * 38400)

/-- `serial_init`. With the divisor latch, `dll` is `thr` and `dlm` is `ier`. -/
def serialInit (clk : Nat) : UartM Unit := do
  serialOut 0x00 .ier
  serialOut (lcrBkse ||| lcrval) .lcr
  serialOut 0 .thr
  serialOut 0 .ier
  serialOut lcrval .lcr
  serialOut mcrval .mcr
  serialOut fcrval .fcr
  serialOut (lcrBkse ||| lcrval) .lcr
  serialOut (BitVec.ofNat 8 (baudDivisor clk)) .thr
  serialOut (BitVec.ofNat 8 (baudDivisor clk / 2 ^ 8)) .ier
  serialOut lcrval .lcr

/-- The loop of `_serial_putc`, which looks at the line status until there is room. -/
def waitThre (tries : Nat) : UartM Unit :=
  match tries with
  | 0 => .stop .waits
  | tries + 1 => do
    let lsr ← readLsr
    if lsr &&& lsrThre = 0 then
      waitThre tries
    else
      return ()

/-- `_serial_putc` -/
def putcRaw (tries : Nat) (c : Byte) : UartM Unit := do
  waitThre tries
  serialOut c .thr

def serialPutc (tries : Nat) (c : Byte) : UartM Unit := do
  if c = chr '\n' then
    putcRaw tries (chr '\r')
  putcRaw tries c

/-- `serial_puts`, for the text `s` up to its terminator. -/
def serialPuts (tries : Nat) (s : List Byte) : UartM Unit :=
  match s with
  | [] => return ()
  | c :: s => do
    serialPutc tries c
    serialPuts tries s

/-!
### The device
-/

/-- What the driver has set up. -/
structure Config where
  ier : Byte
  fcr : Byte
  lcr : Byte
  mcr : Byte
  dll : Byte
  dlm : Byte

/-- The divisor latch stands in place of two of the registers. -/
def Config.latched (c : Config) : Prop := c.lcr &&& lcrBkse ≠ 0

instance (c : Config) : Decidable c.latched := inferInstanceAs (Decidable (_ ≠ _))

def Config.write (c : Config) (r : Reg) (b : Byte) : Config :=
  match r with
  | .thr => if c.latched then { c with dll := b } else c
  | .ier => if c.latched then { c with dlm := b } else { c with ier := b }
  | .fcr => { c with fcr := b }
  | .lcr => { c with lcr := b }
  | .mcr => { c with mcr := b }

/-- The characters that have left, those that the device still holds, and those that it has lost. -/
structure Line where
  sent : List Byte
  held : List Byte
  lost : List Byte

/-- What was given to the device and not lost. -/
def Line.out (l : Line) : List Byte := l.sent ++ l.held

/-- How many characters the device can hold. -/
def Config.room (c : Config) : Nat := if c.fcr &&& fcrFifoEn ≠ 0 then 16 else 1

def Line.write (c : Config) (l : Line) (r : Reg) (b : Byte) : Line :=
  match r with
  | .thr =>
    if c.latched then l
    else if l.held.length < c.room then { l with held := l.held ++ [b] }
    else { l with lost := l.lost ++ [b] }
  | .fcr => if b &&& fcrTxsr ≠ 0 then { l with held := [], lost := l.lost ++ l.held } else l
  | _ => l

structure State where
  config : Config
  line : Line

/-- Some of the characters leave. -/
def Moves (u v : State) : Prop :=
  ∃ k, v = { u with line := { u.line with sent := u.line.sent ++ u.line.held.take k, held := u.line.held.drop k } }

def Effect (o : Op) (u : State) (x : Ans o) (v : State) : Prop :=
  match o with
  | .readLsr => v = u ∧ (BitVec.and x lsrThre ≠ 0 ↔ u.line.held = [])
  | .write r b => v = ⟨u.config.write r b, u.line.write u.config r b⟩

/-- The device, which sends what it holds at its own pace. -/
def uartWorld : World Op Ans Stop State := World.interleaved Moves Effect

end Uart
