import Armboard.Env.Getenv
import Armboard.Exec.Wp
import Armboard.Storage.Row
import Armboard.Uboot.Crc32

/-! # Changing the environment

`_do_setenv` works on the copy in memory: it finds and removes an old definition by
moving the rest down, and appends the new one if it fits. Some names have a meaning
beyond the environment. Pointers into the environment are offsets, and every access is
checked against its size. What `console_assign` answers is a parameter; `at_null` is
the string at address 0, which the baud rate is read from when it is deleted. Setting
up the serial port has no effect that the model can see.
-/

namespace Armboard.Env
open Exec Ethernet Storage Uboot

/-- The environment in memory and what else the command changes. -/
structure Globals where
  data : ℕ → Byte
  crc : Word
  baudrate : Word
  enetaddr : List Byte
  ipAddr : Word
  loadAddr : Word
  bootFile : List Byte
  assigned : List (ℕ × List Byte)
  input : List Byte
  output : List Output

abbrev Command (α : Type) := EStateM Fault Globals α

def ofExcept {α : Type} : Except Fault α → Command α
  | .ok a => pure a
  | .error e => throw e

def envCrcUpdate : Command Unit := modify fun s => { s with crc := crc32 0 (cells s.data 0 envSize) }

def argText (s : List Byte) : Arg := .text (String.ofList (s.map fun c => Char.ofNat c.toNat))

def say (format : String) (args : List Arg) : Command Unit :=
  modify fun s => { s with output := .printf format args :: s.output }

/-! ## Walking through the data -/

/-- `for (nxt=env; *nxt; ++nxt)`, `left` bytes before the end of the environment. -/
def skipEntry (data : ℕ → Byte) : ℕ → ℕ → Except Fault ℕ
  | 0, _ => .error .overrun
  | left + 1, nxt => if data nxt = 0 then .ok nxt else skipEntry data left (nxt + 1)

structure Found where
  oldval : Option ℕ
  env : ℕ
  nxt : ℕ

def findEntry (data : ℕ → Byte) (name : List Byte) : ℕ → ℕ → ℕ → Except Fault Found
  | 0, _, _ => .error .stuck
  | fuel + 1, env, nxt =>
    if envSize ≤ env then .error .overrun
    else if data env = 0 then .ok ⟨none, env, nxt⟩
    else
      match skipEntry data (envSize - env) env with
      | .error e => .error e
      | .ok nxt =>
        match envmatch data name env with
        | .error e => .error e
        | .ok (some v) => .ok ⟨some v, env, nxt⟩
        | .ok none => findEntry data name fuel (nxt + 1) nxt

def putByte (data : ℕ → Byte) (i : ℕ) (b : Byte) : Except Fault (ℕ → Byte) :=
  if i < envSize then .ok (Function.update data i b) else .error .overrun

/-- The loop that moves the entries behind a deleted one down, and the last place it stored to. -/
def moveDown : ℕ → (ℕ → Byte) → ℕ → ℕ → Except Fault ((ℕ → Byte) × ℕ)
  | 0, _, _, _ => .error .overrun
  | left + 1, data, env, nxt =>
    let data := Function.update data env (data nxt)
    if left = 0 then .error .overrun
    else if data env = 0 ∧ data (nxt + 1) = 0 then .ok (data, env)
    else moveDown left data (env + 1) (nxt + 1)

/-- Delete the entry from `env` up to its terminator at `nxt`. -/
def deleteEntry (data : ℕ → Byte) (env nxt : ℕ) : Except Fault (ℕ → Byte) :=
  if envSize ≤ nxt + 1 then .error .overrun
  else if data (nxt + 1) = 0 then
    if 0 < env then putByte data (env - 1 + 1) 0
    else
      match putByte data env 0 with
      | .error e => .error e
      | .ok data => putByte data (env + 1) 0
  else
    match moveDown (envSize - (nxt + 1)) data env (nxt + 1) with
    | .error e => .error e
    | .ok (data, env) => putByte data (env + 1) 0

/-- The loop that looks for the end of the list, `left` bytes before the last byte. -/
def findEnd (data : ℕ → Byte) : ℕ → ℕ → Except Fault ℕ
  | 0, _ => .error .overrun
  | left + 1, env => if data env = 0 ∧ data (env + 1) = 0 then .ok env else findEnd data left (env + 1)

def appendPlace (data : ℕ → Byte) : Except Fault ℕ :=
  match findEnd data (envSize - 1) 0 with
  | .error e => .error e
  | .ok env => .ok (if 0 < env then env + 1 else env)

/-- Copy a string with its terminator, and the place of the terminator. -/
def copyString : List Byte → (ℕ → Byte) → ℕ → Except Fault ((ℕ → Byte) × ℕ)
  | [], data, env =>
    match putByte data env 0 with
    | .error e => .error e
    | .ok data => .ok (data, env)
  | c :: s, data, env =>
    match putByte data env c with
    | .error e => .error e
    | .ok data => copyString s data (env + 1)

/-- Append the values, the first behind `=` and the others behind a blank. -/
def copyValues : Byte → List (List Byte) → (ℕ → Byte) → ℕ → Except Fault ((ℕ → Byte) × ℕ)
  | _, [], data, env => .ok (data, env)
  | sep, val :: vals, data, env =>
    match putByte data env sep with
    | .error e => .error e
    | .ok data =>
      match copyString val data (env + 1) with
      | .error e => .error e
      | .ok (data, env) => copyValues 0x20 vals data env

/-- `name=value value ...` at `env`, with the terminator of the list. -/
def copyDefinition (name : List Byte) (vals : List (List Byte)) (data : ℕ → Byte) (env : ℕ) :
    Except Fault (ℕ → Byte) :=
  match copyString name data env with
  | .error e => .error e
  | .ok (data, env) =>
    match copyValues 0x3D vals data env with
    | .error e => .error e
    | .ok (data, env) => putByte data (env + 1) 0

/-- `len` of the new definition. -/
def definitionLength (name : List Byte) (vals : List (List Byte)) : ℕ :=
  name.length + 2 + (vals.map fun v => v.length + 1).sum

/-! ## Names with a meaning -/

def ascii (s : String) : List Byte := s.toList.map fun c => BitVec.ofNat 8 c.toNat

/-- `stdin`, `stdout` and `stderr`. -/
def consoleOf (name : List Byte) : Option ℕ :=
  if name = ascii "stdin" then some 0
  else if name = ascii "stdout" then some 1
  else if name = ascii "stderr" then some 2
  else none

def baudrateTable : List Word := [115200, 19200, 38400, 57600, 9600]

def afterEnter : List Byte → Option (List Byte)
  | [] => none
  | c :: input => if c = 0x0D then some input else afterEnter input

def waitEnter : Command Unit := do
  let s ← get
  match afterEnter s.input with
  | none => throw .blocked
  | some input => set { s with input := input }

/-- The value of `baudrate` must be supported; `true` when the command goes on. -/
def switchBaudrate (atNull : List Byte) (vals : List (List Byte)) : Command Bool := do
  let baudrate := (simpleStrtoul (vals.headD atNull) 10).1
  if baudrate ∈ baudrateTable then do
    say "## Switch baudrate to %d bps and press ENTER ...\n" [.word baudrate]
    modify fun s => { s with baudrate := baudrate }
    waitEnter
    pure true
  else do
    say "## Baudrate %d bps not supported\n" [.word baudrate]
    pure false

/-- What is checked before an existing definition is replaced; `true` when the command goes on. -/
def mayReplace (consoleAssign : ℕ → List Byte → Word) (atNull name : List Byte)
    (vals : List (List Byte)) : Command Bool := do
  let console ← match consoleOf name with
    | none => pure true
    | some console =>
      match vals with
      | [] => do
        say "Can't delete \"%s\"\n" [argText name]
        pure false
      | val :: _ => do
        modify fun s => { s with assigned := (console, val) :: s.assigned }
        pure (!(consoleAssign console val).slt 0)
  if console then
    if name = ascii "baudrate" then switchBaudrate atNull vals else pure true
  else pure false

/-- The loop over the four numbers of `ipaddr`. -/
def readIp : ℕ → Word → List Byte → Word
  | 0, addr, _ => addr
  | n + 1, addr, s =>
    let r := simpleStrtoul s 10
    readIp n ((addr <<< 8) ||| (r.1 &&& 0xFF)) (if deref r.2 ≠ 0 then r.2.tail else r.2)

def htonl (w : Word) : Word :=
  (w <<< 24) ||| ((w &&& 0xFF00) <<< 8) ||| ((w >>> 8) &&& 0xFF00) ||| (w >>> 24)

/-- The loop of `copy_filename`, with `size` decremented before each test. -/
def copyFilenameLoop : ℕ → List Byte → List Byte
  | 0, _ => []
  | 1, _ => []
  | _ + 2, [] => []
  | size + 2, c :: src => if c ≠ 0x22 then c :: copyFilenameLoop (size + 1) src else []

def copyFilename (src : List Byte) (size : ℕ) : List Byte :=
  if deref src = 0x22 then copyFilenameLoop (size - 1) src.tail else copyFilenameLoop size src

/-- The variables that are kept elsewhere as well. -/
def updateSpecial (name val : List Byte) : Command Unit :=
  if name = ascii "ethaddr" then modify fun s => { s with enetaddr := readAddress 6 val }
  else if name = ascii "ipaddr" then modify fun s => { s with ipAddr := htonl (readIp 4 0 val) }
  else if name = ascii "loadaddr" then
    modify fun s => { s with loadAddr := (simpleStrtoul val 16).1 }
  else if name = ascii "bootfile" then
    modify fun s => { s with bootFile := copyFilename val 128 }
  else pure ()

/-! ## The command -/

/-- Append the new definition, or only take note of the deletion. -/
def define (name : List Byte) (vals : List (List Byte)) : Command Word :=
  match vals with
  | [] => do
    envCrcUpdate
    pure 0
  | val :: _ => do
    let s ← get
    let env ← ofExcept (appendPlace s.data)
    if envSize - env < definitionLength name vals then do
      say "## Error: environment overflow, \"%s\" deleted\n" [argText name]
      pure 1
    else do
      let data ← ofExcept (copyDefinition name vals s.data env)
      modify fun s => { s with data := data }
      envCrcUpdate
      updateSpecial name val
      pure 0

/-- `_do_setenv` with the arguments behind the command's name. -/
def doSetenv (consoleAssign : ℕ → List Byte → Word) (atNull name : List Byte)
    (vals : List (List Byte)) : Command Word := do
  if 0x3D ∈ name then do
    say "## Error: illegal character '=' in variable name \"%s\"\n" [argText name]
    pure 1
  else do
    let s ← get
    let found ← ofExcept (findEntry s.data name (envSize + 1) 0 0)
    match found.oldval with
    | none => define name vals
    | some _ => do
      let good ← mayReplace consoleAssign atNull name vals
      if good then do
        let s ← get
        let data ← ofExcept (deleteEntry s.data found.env found.nxt)
        modify fun s => { s with data := data }
        define name vals
      else pure 1

end Armboard.Env
