import Armboard.Exec.Wp
import Armboard.Machine

/-! # The MCI controller

`atmel_mci.c` of U-Boot, from the registers to `mmc_acmd`. What the status, response
and data registers will read comes from outside. Every command is recorded with the
status words that are read until the next one, and a run that waits for a status
that never comes is blocked.
-/

namespace Armboard.Mmc
open Exec

/-! ## Status flags -/

abbrev cmdrdy : Word := 1 <<< 0
abbrev rxrdy : Word := 1 <<< 1
abbrev blke : Word := 1 <<< 3
abbrev rinde : Word := 1 <<< 16
abbrev rdire : Word := 1 <<< 17
abbrev rcrce : Word := 1 <<< 18
abbrev rende : Word := 1 <<< 19
abbrev rtoe : Word := 1 <<< 20
abbrev dcrce : Word := 1 <<< 21
abbrev dtoe : Word := 1 <<< 22
abbrev ovre : Word := 1 <<< 30

abbrev errorFlags : Word := dtoe ||| rdire ||| rende ||| rinde ||| rtoe

/-! ## Command flags -/

abbrev respNoCrc : Word := 1
abbrev r1 : Word := 1 <<< 6
abbrev r2 : Word := 2 <<< 6
abbrev r3 : Word := r1 ||| respNoCrc
abbrev r6 : Word := r1
abbrev r7 : Word := r3
abbrev nid : Word := 0
abbrev ncr : Word := 1 <<< 12
abbrev trcmdStart : Word := 1 <<< 16
abbrev trdirRead : Word := 1 <<< 18
abbrev trtypBlock : Word := 0
abbrev initCmd : Word := 1 <<< 8
abbrev openDrain : Word := 1 <<< 11

abbrev goIdleState : Word := 0
abbrev sendOpCond : Word := 1
abbrev allSendCid : Word := 2
abbrev setRelativeAddr : Word := 3
abbrev sdSendRelativeAddr : Word := 3
abbrev selectCard : Word := 7
abbrev sdSendIfCond : Word := 8
abbrev sendCsd : Word := 9
abbrev sendStatus : Word := 13
abbrev setBlocklen : Word := 16
abbrev readSingleBlock : Word := 17
abbrev sdSendOpCond : Word := 41
abbrev appCmd : Word := 55

abbrev r1IllegalCommand : Word := 1 <<< 22
abbrev r1AppCmd : Word := 1 <<< 5

abbrev eio : ℤ := 5
abbrev enodev : ℤ := 19
abbrev etimedout : ℤ := 110

/-! ## State -/

inductive Place where
  | command
  | data
  | completion
  deriving DecidableEq

/-- A command, the status words read after it, newest first, and the response to it if it
succeeded. -/
structure Exchange where
  cmd : Word
  arg : Word
  flags : Word
  polls : List (Place × Word)
  response : Option (List Word)
  deriving DecidableEq

/-- Registers the driver writes, besides the two of a command. -/
inductive Reg where
  | cr
  | mr
  | dtor
  | idr
  deriving DecidableEq

/-- The fields of `mmc_blkdev` the driver sets. Formatted strings stay as they stand. -/
structure BlockDev where
  ifType : Word
  partType : Byte
  blksz : Word
  lba : Word
  vendor : String × List Arg
  product : List Byte
  revision : String × List Arg
  deriving DecidableEq

/-- What the registers will read, what was done, and the globals of the driver. -/
structure Mci where
  status : List Word
  rspr : List Word
  rdr : List Word
  exchanges : List Exchange
  writes : List (Reg × Word)
  output : List Output
  rca : Word
  cardIsSd : Word
  cardIsSdhc : Word
  blkdev : BlockDev
  buffer : ℕ → Word

abbrev Driver := EStateM Halt Mci

def printf (format : String) (args : List Arg) : Driver Unit :=
  modify fun s => { s with output := .printf format args :: s.output }

def writel (reg : Reg) (value : Word) : Driver Unit :=
  modify fun s => { s with writes := (reg, value) :: s.writes }

def modifyExchange (f : Exchange → Exchange) (s : Mci) : Mci :=
  { s with exchanges := match s.exchanges with
    | [] => []
    | e :: es => f e :: es }

/-! ## Registers -/

/-- `mmci_readl(SR)`. -/
def readStatus (place : Place) : Driver Word := do
  let s ← get
  match s.status with
  | [] => throw .blocked
  | w :: ws => do
    set (modifyExchange (fun e => { e with polls := (place, w) :: e.polls }) { s with status := ws })
    pure w

/-- `mmci_readl(RSPR)`, a number of times. -/
def readResponse : ℕ → Driver (List Word)
  | 0 => pure []
  | n + 1 => do
    let s ← get
    set { s with rspr := s.rspr.tail }
    let ws ← readResponse n
    pure (s.rspr.headD 0 :: ws)

/-- `mmci_readl(RDR)`. -/
def readData : Driver Word := do
  let s ← get
  set { s with rdr := s.rdr.tail }
  pure (s.rdr.headD 0)

/-- Read the status until one of the bits is set. There is nothing to read more often than words
will come. -/
def waitFor (place : Place) (bits : Word) : ℕ → Driver Word
  | 0 => throw .blocked
  | n + 1 => do
    let status ← readStatus place
    if status &&& bits ≠ 0 then pure status else waitFor place bits n

def waitStatus (place : Place) (bits : Word) : Driver Word := do
  let s ← get
  waitFor place bits s.status.length

/-! ## Commands -/

/-- The writes to ARGR and CMDR. -/
def startCommand (cmd arg flags : Word) : Driver Unit :=
  modify fun s => { s with exchanges := ⟨cmd, arg, flags, [], none⟩ :: s.exchanges }

/-- `mmc_cmd`; the response is empty if there is none. The local `error_flags`, which has RCRCE for
the commands with a checked response, is not used by the source. -/
def mmcCmd (cmd arg flags : Word) : Driver (ℤ × List Word) := do
  let flags := flags &&& ~~~0x3F
  let responseWords := if flags >>> 6 &&& 3 = 1 then 1 else if flags >>> 6 &&& 3 = 2 then 4 else 0
  startCommand cmd arg flags
  let status ← waitStatus .command cmdrdy
  if status &&& errorFlags ≠ 0 then do
    printf "mmc: command %lu failed (status: 0x%08lx)\n" [.word cmd, .word status]
    pure (-eio, [])
  else do
    let response ← readResponse responseWords
    modify (modifyExchange fun e => { e with response := some response })
    pure (0, response)

def mmcAcmd (cmd arg flags : Word) : Driver (ℤ × List Word) := do
  let a ← mmcCmd appCmd 0 (r1 ||| ncr ||| (flags &&& openDrain))
  if a.1 ≠ 0 then pure (a.1, [])
  else if a.2.getD 0 0 &&& (r1IllegalCommand ||| r1AppCmd) ≠ r1AppCmd then pure (-enodev, [])
  else mmcCmd cmd arg flags

end Armboard.Mmc
