import Armboard.Exec.Ledger
import Armboard.Ssd1906.Driver

/-! # Probing and removing the framebuffer device

`ssd1906fb_probe` and `ssd1906fb_remove` as users of the kernel's resources. What
the kernel and the hardware answer is an argument of each call, and so is what a
freed `fb_info` holds when it is read again.
-/

namespace Armboard.Ssd1906
open Exec

/-! ## The kernel -/

/-- What the driver acquires and releases; allocations and mappings are numbered. -/
inductive Resource where
  | memRegion (resource : Fin 2)
  | mapping (id : ℕ)
  | fbInfo (id : ℕ)
  | cmap (id : ℕ)
  | registered (id : ℕ)
  deriving DecidableEq

/-- The pointers in a `fb_info`: `par->regs`, `screen_base` and the colour map. -/
structure Pointers where
  regs : Option ℕ
  screenBase : Option ℕ
  cmap : Bool

/-- What a driver finds when it is called. -/
structure Kernel where
  ledger : Ledger Resource
  drvdata : Option ℕ
  infos : ℕ → Pointers
  next : ℕ

abbrev Kernelspace := EStateM Halt Kernel

abbrev ioresourceMem : Word := 0x00000200
abbrev chipRev : Byte := 0x1E

abbrev ebusy : ℤ := 16
abbrev enodev : ℤ := 19
abbrev enomem : ℤ := 12

/-- What happens in the fallible steps of one probe. -/
structure Outcome where
  numResources : ℕ
  flags : Fin 2 → Word
  /-- No other driver holds the memory region. -/
  free : Fin 2 → Bool
  allocates : Bool
  mapsRegs : Bool
  mapsScreen : Bool
  revision : Byte
  allocatesCmap : Bool
  registers : Bool

def acquire (r : Resource) : Kernelspace Unit :=
  modify fun k => { k with ledger := k.ledger.acquire r }

def release (r : Resource) : Kernelspace Unit :=
  modify fun k => { k with ledger := k.ledger.release r }

def releaseOpt (f : ℕ → Resource) : Option ℕ → Kernelspace Unit
  | none => pure ()
  | some id => release (f id)

/-- `request_mem_region` for a resource of the device. -/
def requestMemRegion (resource : Fin 2) (free : Bool) : Kernelspace Bool := do
  let k ← get
  if free = true ∧ .memRegion resource ∉ k.ledger.held then do
    acquire (.memRegion resource)
    pure true
  else pure false

/-- `framebuffer_alloc`: cleared memory, or none. -/
def framebufferAlloc (succeeds : Bool) : Kernelspace (Option ℕ) := do
  let k ← get
  if succeeds then do
    acquire (.fbInfo k.next)
    modify fun k => { k with
      infos := Function.update k.infos k.next ⟨none, none, false⟩
      next := k.next + 1 }
    pure (some k.next)
  else pure none

/-- `ioremap_nocache`: a mapping of its own, or none. -/
def ioremapNocache (succeeds : Bool) : Kernelspace (Option ℕ) := do
  let k ← get
  if succeeds then do
    acquire (.mapping k.next)
    modify fun k => { k with next := k.next + 1 }
    pure (some k.next)
  else pure none

def modifyPointers (info : ℕ) (f : Pointers → Pointers) : Kernelspace Unit :=
  modify fun k => { k with infos := Function.update k.infos info (f (k.infos info)) }

/-- `fb_alloc_cmap`, whose failure nobody looks at. -/
def fbAllocCmap (succeeds : Bool) (info : ℕ) : Kernelspace Unit :=
  if succeeds then do
    acquire (.cmap info)
    modifyPointers info fun p => { p with cmap := true }
  else pure ()

/-- `fb_dealloc_cmap`, which does nothing for a colour map that is not there. -/
def fbDeallocCmap (info : ℕ) : Kernelspace Unit := do
  let k ← get
  if (k.infos info).cmap then do
    release (.cmap info)
    modifyPointers info fun p => { p with cmap := false }
  else pure ()

/-- `framebuffer_release`; from now on others use the memory. -/
def framebufferRelease (info : ℕ) (freed : Pointers) : Kernelspace Unit := do
  release (.fbInfo info)
  modifyPointers info fun _ => freed

/-! ## The driver -/

/-- The part of `ssd1906fb_remove` that a stored `fb_info` leads to. -/
def removeInfo (info : ℕ) (freed : Pointers) : Kernelspace Unit := do
  let k ← get
  releaseOpt .mapping (k.infos info).regs
  fbDeallocCmap info
  releaseOpt .mapping (k.infos info).screenBase
  framebufferRelease info freed

def remove (freed : Pointers) : Kernelspace Unit := do
  let k ← get
  k.drvdata.forM fun info => removeInfo info freed
  release (.memRegion 0)
  release (.memRegion 1)

abbrev memRegions : List Resource := [.memRegion 0, .memRegion 1]

def fail (freed : Pointers) (errno : ℤ) : Kernelspace ℤ := do
  remove freed
  pure (-errno)

def mapRegs (succeeds : Bool) (info : ℕ) : Kernelspace (Option ℕ) := do
  let regs ← ioremapNocache succeeds
  modifyPointers info fun p => { p with regs := regs }
  pure regs

def mapScreen (succeeds : Bool) (info : ℕ) : Kernelspace (Option ℕ) := do
  let screenBase ← ioremapNocache succeeds
  modifyPointers info fun p => { p with screenBase := screenBase }
  pure screenBase

/-- `ssd1906fb_probe` from the mapping of the registers on. -/
def bringUp (o : Outcome) (freed : Pointers) (info : ℕ) : Kernelspace ℤ := do
  let regs ← mapRegs o.mapsRegs info
  if regs = none then fail freed enomem
  else do
    let screenBase ← mapScreen o.mapsScreen info
    if screenBase = none then fail freed enomem
    else if o.revision >>> 2 ≠ chipRev then fail freed enodev
    else do
      fbAllocCmap o.allocatesCmap info
      if o.registers then do
        acquire (.registered info)
        pure 0
      else fail freed einval

/-- `ssd1906fb_probe` from the allocation of the `fb_info` on. -/
def allocate (o : Outcome) (freed : Pointers) : Kernelspace ℤ := do
  let info ← framebufferAlloc o.allocates
  match info with
  | none => fail freed enomem
  | some info => do
    modify fun k => { k with drvdata := some info }
    bringUp o freed info

def probe (o : Outcome) (freed : Pointers) : Kernelspace ℤ := do
  if o.numResources ≠ 2 then fail freed enodev
  else if o.flags 0 ≠ ioresourceMem ∨ o.flags 1 ≠ ioresourceMem then fail freed enodev
  else do
    let got ← requestMemRegion 0 (o.free 0)
    if got then do
      let got ← requestMemRegion 1 (o.free 1)
      if got then allocate o freed else fail freed ebusy
    else fail freed ebusy

end Armboard.Ssd1906
