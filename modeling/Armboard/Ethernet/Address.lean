import Armboard.Machine

/-! # The Ethernet address in U-Boot and in Linux

`misc_init_r` of the board reads the address from a string and `eth_init` programs
it; the Linux driver looks for it in the four pairs of address registers. A string
is the list of its characters, with a NUL behind the last one.
-/

namespace Armboard.Ethernet

/-! ## Numbers in strings -/

/-- `*cp`. -/
def deref (cp : List Byte) : Byte := cp.headD 0

def isdigit (c : Byte) : Bool := decide (0x30 ≤ c) && decide (c ≤ 0x39)
def islower (c : Byte) : Bool := decide (0x61 ≤ c) && decide (c ≤ 0x7A)
def toupper (c : Byte) : Byte := if islower c then c - 0x20 else c

def isxdigit (c : Byte) : Bool :=
  isdigit c || decide (0x41 ≤ c) && decide (c ≤ 0x46) || decide (0x61 ≤ c) && decide (c ≤ 0x66)

/-- The `value` of a digit in `simple_strtoul`. -/
def digitValue (c : Byte) : Word :=
  if isdigit c then c.setWidth 32 - 0x30
  else (if islower c then toupper c else c).setWidth 32 - 0x41 + 10

/-- The loop of `simple_strtoul`. -/
def strtoulDigits (base : Word) : Word → List Byte → Word × List Byte
  | result, [] => (result, [])
  | result, c :: cp =>
    if isxdigit c && decide (digitValue c < base) then
      strtoulDigits base (result * base + digitValue c) cp
    else (result, c :: cp)

/-- The leading zero, or `0x`, and the base it stands for. -/
def strtoulPrefix (cp : List Byte) (base : Word) : List Byte × Word :=
  if deref cp = 0x30 then
    if deref cp.tail = 0x78 ∧ isxdigit (deref cp.tail.tail) then (cp.tail.tail, 16)
    else (cp.tail, if base = 0 then 8 else base)
  else (cp, base)

/-- `simple_strtoul`: the number, and the string behind it. -/
def simpleStrtoul (cp : List Byte) (base : Word) : Word × List Byte :=
  let p := strtoulPrefix cp base
  strtoulDigits (if p.2 = 0 then 10 else p.2) 0 p.1

/-! ## U-Boot -/

structure Emac where
  sa1l : Word
  sa1h : Word
  sa2l : Word
  sa2h : Word
  sa3l : Word
  sa3h : Word
  sa4l : Word
  sa4h : Word
  deriving DecidableEq

def byteAt (addr : List Byte) (i : ℕ) : Word := (addr.getD i 0).setWidth 32

/-- The low and the high word of an address. -/
def packLow (addr : List Byte) : Word :=
  byteAt addr 3 <<< 24 ||| byteAt addr 2 <<< 16 ||| byteAt addr 1 <<< 8 ||| byteAt addr 0

def packHigh (addr : List Byte) : Word := byteAt addr 5 <<< 8 ||| byteAt addr 4

def ethInit (enetaddr : List Byte) (e : Emac) : Emac :=
  { e with sa2l := packLow enetaddr, sa2h := packHigh enetaddr }

/-- The loop of `misc_init_r` over the bytes of the address. -/
def readAddress : ℕ → List Byte → List Byte
  | 0, _ => []
  | n + 1, tmp =>
    let r := simpleStrtoul tmp 16
    r.1.setWidth 8 :: readAddress n (if deref r.2 ≠ 0 then r.2.tail else r.2)

structure Board where
  emac : Emac
  output : List Output

/-- `misc_init_r`, given the variable `ethaddr` of the environment. -/
def miscInitR (ethaddr : Option (List Byte)) (b : Board) : Board :=
  match ethaddr with
  | none =>
    { b with output := .printf "MAC address not set, networking is not operational\n" [] :: b.output }
  | some tmp =>
    let enetaddr := readAddress 6 tmp
    { emac := ethInit enetaddr b.emac
      output := .printf "Using MAC address %02X:%02X:%02X:%02X:%02X:%02X\n"
        ((List.range 6).map fun i => .word (byteAt enetaddr i)) :: b.output }

/-! ## Linux -/

structure NetDevice where
  devAddr : List Byte
  output : List Output

/-- `is_valid_ether_addr`: neither a multicast address nor zero. -/
def isValidEtherAddr (addr : List Byte) : Bool :=
  decide (addr.getD 0 0 &&& 0x01 = 0) && addr.any fun b => decide (b ≠ 0)

/-- The bytes that `unpack_mac_address` takes from a pair of registers. -/
def unpackBytes (csb337 : Bool) (hi lo : Word) : List Byte :=
  if csb337 then
    [((hi &&& 0xff00) >>> 8).setWidth 8, (hi &&& 0xff).setWidth 8,
      ((lo &&& 0xff000000) >>> 24).setWidth 8, ((lo &&& 0xff0000) >>> 16).setWidth 8,
      ((lo &&& 0xff00) >>> 8).setWidth 8, (lo &&& 0xff).setWidth 8]
  else
    [(lo &&& 0xff).setWidth 8, ((lo &&& 0xff00) >>> 8).setWidth 8,
      ((lo &&& 0xff0000) >>> 16).setWidth 8, ((lo &&& 0xff000000) >>> 24).setWidth 8,
      (hi &&& 0xff).setWidth 8, ((hi &&& 0xff00) >>> 8).setWidth 8]

def unpackMacAddress (csb337 : Bool) (dev : NetDevice) (hi lo : Word) : NetDevice × Bool :=
  let addr := unpackBytes csb337 hi lo
  if isValidEtherAddr addr then ({ dev with devAddr := addr }, true) else (dev, false)

/-- `get_mac_address`: the first pair of registers with a valid address. -/
def getMacAddress (csb337 : Bool) (e : Emac) (dev : NetDevice) : NetDevice :=
  let r := unpackMacAddress csb337 dev e.sa1h e.sa1l
  if r.2 then r.1
  else
    let r := unpackMacAddress csb337 r.1 e.sa2h e.sa2l
    if r.2 then r.1
    else
      let r := unpackMacAddress csb337 r.1 e.sa3h e.sa3l
      if r.2 then r.1
      else
        let r := unpackMacAddress csb337 r.1 e.sa4h e.sa4l
        if r.2 then r.1
        else { r.1 with
          output := .printf "at91_ether: Your bootloader did not configure a MAC address.\n" [] ::
            r.1.output }

def updateMacAddress (dev : NetDevice) (e : Emac) : Emac :=
  { e with
    sa1l := packLow dev.devAddr
    sa1h := packHigh dev.devAddr
    sa2l := 0
    sa2h := 0 }

end Armboard.Ethernet
