import Armboard.Mmc.Controller

/-! # The card registers

The CID and the CSD as `mmc_cmd` delivers them, four words with the most significant
one first, and the structures the driver takes from them. For the other structure
version `mmc_parse_csd` leaves some fields as they are.
-/

namespace Armboard.Mmc
open Exec

/-- `unsigned long resp[4]` with the memory around it. -/
def respArray (resp : List Word) (around : ℤ → Word) (i : ℤ) : Word :=
  if 0 ≤ i ∧ i < 4 then resp.getD i.toNat 0 else around i

def unstuffBits (resp : ℤ → Word) (start size : ℕ) : Word :=
  let mask : Word := (if size < 32 then (1 : Word) <<< size else 0) - 1
  let off : ℤ := 3 - (start / 32 : ℕ)
  let shft := start % 32
  let res := resp off >>> shft
  let res := if size + shft > 32 then res ||| resp (off - 1) <<< ((32 - shft) % 32) else res
  res &&& mask

/-! ## CID -/

structure Cid where
  psn : Word
  oid : BitVec 16
  mid : Byte
  prv : Byte
  mdt : Byte
  pnm : List Byte
  deriving DecidableEq

def mmcParseCid (resp : List Word) : Cid where
  mid := (resp.getD 0 0 >>> 24).setWidth 8
  oid := (resp.getD 0 0 >>> 8 &&& 0xffff).setWidth 16
  pnm := [(resp.getD 0 0).setWidth 8, (resp.getD 1 0 >>> 24).setWidth 8,
    (resp.getD 1 0 >>> 16).setWidth 8, (resp.getD 1 0 >>> 8).setWidth 8, (resp.getD 1 0).setWidth 8,
    (resp.getD 2 0 >>> 24).setWidth 8, 0]
  prv := (resp.getD 2 0 >>> 16).setWidth 8
  psn := resp.getD 2 0 <<< 16 ||| resp.getD 3 0 >>> 16
  mdt := (resp.getD 3 0 >>> 8).setWidth 8

def sdParseCid (resp : List Word) : Cid where
  mid := (resp.getD 0 0 >>> 24).setWidth 8
  oid := (resp.getD 0 0 >>> 8 &&& 0xffff).setWidth 16
  pnm := [(resp.getD 0 0).setWidth 8, (resp.getD 1 0 >>> 24).setWidth 8,
    (resp.getD 1 0 >>> 16).setWidth 8, (resp.getD 1 0 >>> 8).setWidth 8, (resp.getD 1 0).setWidth 8,
    0, 0]
  prv := (resp.getD 2 0 >>> 24).setWidth 8
  psn := resp.getD 2 0 <<< 8 ||| resp.getD 3 0 >>> 24
  mdt := (resp.getD 3 0 >>> 8 &&& 0x0fff).setWidth 8

def cString (bytes : List Byte) : String :=
  String.ofList ((bytes.takeWhile (· ≠ 0)).map fun b => Char.ofNat b.toNat)

/-- A small integer that `printf` is given. -/
def Arg.ofBits {n : ℕ} (b : BitVec n) : Arg := .word (b.setWidth 32)

def mmcDumpCid (cid : Cid) : Driver Unit := do
  printf "Manufacturer ID:       %02lX\n" [Arg.ofBits cid.mid]
  printf "OEM/Application ID:    %04lX\n" [Arg.ofBits cid.oid]
  printf "Product name:          %s\n" [.text (cString cid.pnm)]
  printf "Product Revision:      %lu.%lu\n" [Arg.ofBits (cid.prv >>> 4), Arg.ofBits (cid.prv &&& 0x0f)]
  printf "Product Serial Number: %lu\n" [.word cid.psn]
  printf "Manufacturing Date:    %02lu/%02lu\n"
    [Arg.ofBits (cid.mdt >>> 4), Arg.ofBits (cid.mdt &&& 0x0f)]

/-! ## CSD -/

structure Csd where
  csdStructure : Byte
  specVers : Byte
  taac : Byte
  nsac : Byte
  tranSpeed : Byte
  ccc : BitVec 16
  readBlLen : Byte
  readBlPartial : Byte
  writeBlkMisalign : Byte
  readBlkMisalign : Byte
  dsrImp : Byte
  cSize : Word
  vddRCurrMin : Byte
  vddRCurrMax : Byte
  vddWCurrMin : Byte
  vddWCurrMax : Byte
  cSizeMult : Byte
  sectorSize : Byte
  wpGrpSize : Byte
  wpGrpEnable : Byte
  defaultEcc : Byte
  r2wFactor : Byte
  writeBlLen : Byte
  writeBlPartial : Byte
  copy : Byte
  permWriteProtect : Byte
  tmpWriteProtect : Byte
  fileFormat : Byte
  fileFormatGrp : Byte
  ecc : Byte
  crc : Byte
  deriving DecidableEq

/-- `mmc_parse_csd`; `csd` is what the structure holds before. -/
def mmcParseCsd (csd : Csd) (resp : ℤ → Word) : Csd :=
  let csd := { csd with
    csdStructure := (unstuffBits resp 126 2).setWidth 8
    specVers := (unstuffBits resp 122 4).setWidth 8
    taac := (unstuffBits resp 112 8).setWidth 8
    nsac := (unstuffBits resp 104 8).setWidth 8
    tranSpeed := (unstuffBits resp 96 8).setWidth 8
    ccc := (unstuffBits resp 84 12).setWidth 16
    readBlLen := (unstuffBits resp 80 4).setWidth 8
    readBlPartial := (unstuffBits resp 79 1).setWidth 8
    writeBlkMisalign := (unstuffBits resp 78 1).setWidth 8
    readBlkMisalign := (unstuffBits resp 77 1).setWidth 8
    dsrImp := (unstuffBits resp 76 1).setWidth 8 }
  let csd :=
    if csd.csdStructure = 0 then { csd with
      cSize := unstuffBits resp 62 12
      vddRCurrMin := (unstuffBits resp 59 3).setWidth 8
      vddRCurrMax := (unstuffBits resp 56 3).setWidth 8
      vddWCurrMin := (unstuffBits resp 53 3).setWidth 8
      vddWCurrMax := (unstuffBits resp 50 3).setWidth 8
      cSizeMult := (unstuffBits resp 47 3).setWidth 8 }
    else { csd with cSize := unstuffBits resp 48 22 }
  { csd with
    sectorSize := (unstuffBits resp 39 7).setWidth 8
    wpGrpSize := (unstuffBits resp 32 7).setWidth 8
    wpGrpEnable := (unstuffBits resp 31 1).setWidth 8
    defaultEcc := (unstuffBits resp 29 2).setWidth 8
    r2wFactor := (unstuffBits resp 26 3).setWidth 8
    writeBlLen := (unstuffBits resp 22 4).setWidth 8
    writeBlPartial := (unstuffBits resp 21 1).setWidth 8
    fileFormatGrp := (unstuffBits resp 15 1).setWidth 8
    copy := (unstuffBits resp 14 1).setWidth 8
    permWriteProtect := (unstuffBits resp 13 1).setWidth 8
    tmpWriteProtect := (unstuffBits resp 12 1).setWidth 8
    fileFormat := (unstuffBits resp 10 2).setWidth 8
    ecc := (unstuffBits resp 8 2).setWidth 8
    crc := (unstuffBits resp 1 7).setWidth 8 }

def puts (s : String) : Driver Unit := printf s []

def mmcDumpCsd (csd : Csd) : Driver Unit := do
  printf "CSD structure version:   1.%u\n" [Arg.ofBits csd.csdStructure]
  printf "MMC System Spec version: %u\n" [Arg.ofBits csd.specVers]
  printf "Card command classes:    %03x\n" [Arg.ofBits csd.ccc]
  printf "Read block length:       %u\n" [.word ((1 : Word) <<< csd.readBlLen.toNat)]
  puts (if csd.readBlPartial ≠ 0 then "Supports partial reads\n"
    else "Does not support partial reads\n")
  printf "Write block length:      %u\n" [.word ((1 : Word) <<< csd.writeBlLen.toNat)]
  puts (if csd.writeBlPartial ≠ 0 then "Supports partial writes\n"
    else "Does not support partial writes\n")
  (if csd.wpGrpEnable ≠ 0 then
    printf "Supports group WP:      %u\n" [.word (csd.wpGrpSize.setWidth 32 + 1)]
  else puts "Does not support group WP\n")
  printf "Card capacity:\t\t%u MB\n" [.word (
    if csd.csdStructure = 0 then
      (csd.cSize + 1) * ((1 : Word) <<< (csd.cSizeMult.toNat + 2)) *
        ((1 : Word) <<< csd.readBlLen.toNat) / (1024 * 1024)
    else csd.cSize / 2)]
  printf "File format:            %u/%u\n" [Arg.ofBits csd.fileFormatGrp, Arg.ofBits csd.fileFormat]
  puts "Write protection:        "
  (if csd.permWriteProtect ≠ 0 then puts " permanent" else pure ())
  (if csd.tmpWriteProtect ≠ 0 then puts " temporary" else pure ())
  puts "\n"

end Armboard.Mmc
