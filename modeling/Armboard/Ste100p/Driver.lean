import Armboard.Exec.Wp
import Armboard.Machine
import Mathlib.Logic.Function.Basic

/-! # The STE100P driver of Linux

`ste100p.c`. The macros for the bits of a register have no parentheses, so that `~`
in front of one complements the 1 before it is shifted. The registers are plain
storage; what the writes on the management bus return comes from outside.
-/

namespace Armboard.Ste100p
open Exec

/-! ## Registers -/

abbrev xcrReg : ℕ := 0x00
abbrev anaReg : ℕ := 0x04
abbrev xcsiisReg : ℕ := 0x11
abbrev xieReg : ℕ := 0x12

abbrev xcrSpeed : Word := 1 <<< 13
abbrev xcrAn : Word := 1 <<< 12
abbrev xcrPwrdn : Word := 1 <<< 11
abbrev xcrIsolate : Word := 1 <<< 10
abbrev xcrRstrtAn : Word := 1 <<< 9
abbrev xcrFullDup : Word := 1 <<< 8

/-- `~MII_STE100P_XCR_AN`, `~MII_STE100P_XCR_PWRDN` and `~MII_STE100P_XCR_ISOLATE`. -/
abbrev notXcrAn : Word := (~~~(1 : Word)) <<< 12
abbrev notXcrPwrdn : Word := (~~~(1 : Word)) <<< 11
abbrev notXcrIsolate : Word := (~~~(1 : Word)) <<< 10

/-- `MII_STE100P_XIE_ALL`, the one macro with parentheses. -/
abbrev xieAll : Word := 1 <<< 6 ||| 1 <<< 5 ||| 1 <<< 4 ||| 1 <<< 3 ||| 1 <<< 2 ||| 1 <<< 1 ||| 1

abbrev anaNxtpg : Word := 1 <<< 15
abbrev anaFc : Word := 1 <<< 10
abbrev anaTxf : Word := 1 <<< 8
abbrev anaTxh : Word := 1 <<< 7
abbrev ana10f : Word := 1 <<< 6
abbrev ana10h : Word := 1 <<< 5
abbrev anaSf : Word := 0x0000

/-- The registers, and what the next writes return: an error writes nothing. -/
structure Phy where
  regs : ℕ → BitVec 16
  results : List ℤ

abbrev Driver := EStateM Halt Phy

def phyRead (regnum : ℕ) : Driver Word := do
  let s ← get
  pure ((s.regs regnum).setWidth 32)

def phyWrite (regnum : ℕ) (val : Word) : Driver ℤ := do
  let s ← get
  let err := s.results.headD 0
  if err < 0 then set { s with results := s.results.tail }
  else set { s with
    regs := Function.update s.regs regnum (val.setWidth 16)
    results := s.results.tail }
  pure err

/-! ## Operations -/

def configIntr (enabled : Bool) : Driver ℤ := do
  let temp ← phyRead xieReg
  if enabled then phyWrite xieReg (temp ||| xieAll)
  else do
    let _ ← phyRead xcsiisReg
    phyWrite xieReg (temp &&& ~~~xieAll)

/-- `ste100p_config_aneg` up to its call of `genphy_config_aneg`. -/
def configAneg : Driver ℤ := do
  let temp ← phyRead xcrReg
  let err ← phyWrite xcrReg (temp ||| xcrIsolate)
  let temp ← phyRead xcrReg
  if err < 0 then pure err
  else do
    let err ← phyWrite anaReg (anaNxtpg ||| anaTxf ||| anaTxh ||| ana10f ||| ana10h ||| anaSf)
    if err < 0 then pure err
    else do
      let err ← phyWrite xcrReg (temp ||| xcrSpeed ||| xcrAn ||| xcrFullDup)
      if err < 0 then pure err
      else do
        let err ← phyWrite xcrReg ((temp ||| xcrAn ||| xcrRstrtAn) &&& notXcrIsolate)
        let _ ← phyRead xcrReg
        if err < 0 then pure err else pure 0

/-- `ste100p_config_init`. What the first write returns is lost. -/
def configInit : Driver ℤ := do
  let tempXcr ← phyRead xcrReg
  let _ ← phyWrite xcrReg ((tempXcr ||| xcrIsolate) &&& notXcrAn)
  let tempXcr ← phyRead xcrReg
  let err ← phyWrite xcrReg (tempXcr &&& notXcrIsolate)
  let _ ← phyRead xcrReg
  if err < 0 then pure err
  else do
    let temp ← phyRead anaReg
    let err ← phyWrite anaReg (temp ||| anaFc ||| anaTxf ||| anaTxh ||| ana10f ||| ana10h)
    if err < 0 then pure err
    else do
      let err ← phyWrite xcrReg ((tempXcr ||| xcrAn ||| xcrRstrtAn) &&& notXcrIsolate)
      let _ ← phyRead xcrReg
      if err < 0 then pure err else pure 0

def suspend : Driver ℤ := do
  let temp ← phyRead xcrReg
  let temp ← phyWrite xcrReg (temp ||| xcrPwrdn)
  let _ ← phyRead xcrReg
  pure temp

/-- `ste100p_resume`, whose `temp` is used before it is set. -/
def resume (temp : Word) : Driver ℤ := do
  let temp ← phyWrite xcrReg (temp &&& notXcrPwrdn)
  let _ ← phyRead xcrReg
  pure temp

end Armboard.Ste100p
