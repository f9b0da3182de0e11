import Armboard.Ethernet.Address

/-! # Looking up environment variables

`cmd_nvedit.c` reads the environment through `env_get_char`, which before relocation
fetches single bytes from the DataFlash and afterwards reads the copy in memory, so
the lookup takes it as an argument. A name is the list of its characters; `envmatch`
runs past both terminators when an entry without `=` equals the name.
-/

namespace Armboard.Env

abbrev cfgEnvSize : ℕ := 0x1000

/-- `ENV_SIZE`: the environment without its check. -/
abbrev envSize : ℕ := 0xffc

theorem envSize_add_header : envSize + 4 = cfgEnvSize := rfl

/-- How a command goes wrong: it leaves the environment's bytes, a bounded loop is not done, or the
input it waits for never comes. -/
inductive Fault where
  | overrun
  | stuck
  | blocked
  deriving DecidableEq

/-- `envmatch`: the index of the value when the names match. -/
def envmatch (envGetChar : ℕ → Byte) : List Byte → ℕ → Except Fault (Option ℕ)
  | [], i2 =>
    if envGetChar i2 = 0 then .error .overrun
    else if envGetChar i2 = 0x3D then .ok (some (i2 + 1))
    else .ok none
  | c :: s1, i2 =>
    if c = envGetChar i2 then
      if c = 0x3D then .ok (some (i2 + 1)) else envmatch envGetChar s1 (i2 + 1)
    else .ok none

/-- The inner loop of `getenv`, `left` steps before the bound at which it gives up. -/
def entryEnd (envGetChar : ℕ → Byte) : ℕ → ℕ → Option ℕ
  | 0, nxt => if envGetChar nxt = 0 then some nxt else none
  | left + 1, nxt => if envGetChar nxt = 0 then some nxt else entryEnd envGetChar left (nxt + 1)

/-- The outer loop of `getenv`, from entry to entry. -/
def getenvFrom (envGetChar : ℕ → Byte) (name : List Byte) : ℕ → ℕ → Except Fault (Option ℕ)
  | 0, _ => .error .stuck
  | fuel + 1, i =>
    if envGetChar i = 0 then .ok none
    else
      match entryEnd envGetChar (cfgEnvSize - i) i with
      | none => .ok none
      | some nxt =>
        match envmatch envGetChar name i with
        | .error e => .error e
        | .ok (some val) => .ok (some val)
        | .ok none => getenvFrom envGetChar name fuel (nxt + 1)

/-- `getenv`: the index of the value, or nothing. After relocation `env_get_addr` makes an index its
address in memory. Each pass starts behind the one before, and none starts more than one byte behind
the bound. -/
def getenv (envGetChar : ℕ → Byte) (name : List Byte) : Except Fault (Option ℕ) :=
  getenvFrom envGetChar name (cfgEnvSize + 3) 0

/-- The copy loop of `getenv_r`, `left` bytes before the end of the buffer: how often `n` was counted
up, and the bytes stored. -/
def copyOut (envGetChar : ℕ → Byte) : ℕ → ℕ → ℕ → List Byte → ℕ × List Byte
  | 0, n, _, buf => (n + 1, buf)
  | left + 1, n, val, buf =>
    if envGetChar val ≠ 0 then
      copyOut envGetChar left (n + 1) (val + 1) (buf ++ [envGetChar val])
    else (n + 1, buf ++ [0])

/-- `getenv_r`: the value it returns, and what it stored from the start of the buffer on. -/
def getenvR (envGetChar : ℕ → Byte) (name : List Byte) (len : ℕ) :
    Except Fault (Option (ℕ × List Byte)) :=
  match getenv envGetChar name with
  | .error e => .error e
  | .ok none => .ok none
  | .ok (some val) =>
    let r := copyOut envGetChar len 0 val []
    .ok (some (r.1, if len = r.1 then r.2 ++ [0] else r.2))

end Armboard.Env
