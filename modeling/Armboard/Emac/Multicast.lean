import Armboard.Machine
import Mathlib.Tactic

/-! # The receive filter of the Linux driver

The EMAC matches a destination through a table of 64 bits. Its index has six bits, each
the exclusive or of every sixth bit of the address. `at91ether_set_rx_mode` fills the
table from the list of the device, or with ones or zeros, whatever it held before.
-/

namespace Armboard.Emac

/-! ## The source -/

abbrev emacCaf : Word := 0x10
abbrev emacMti : Word := 0x40
abbrev iffPromisc : Word := 0x100
abbrev iffAllmulti : Word := 0x200

def hashBitValue (bitnr : ℕ) (addr : List Byte) : Word :=
  if (addr.getD (bitnr / 8) 0).setWidth 32 &&& ((1 : Word) <<< (bitnr % 8)) ≠ 0 then 1 else 0

def hashGetIndex (addr : List Byte) : Word :=
  (List.range 6).foldl (fun index j =>
    let bitval := (List.range 8).foldl (fun bitval i => bitval ^^^ hashBitValue (i * 6 + j) addr) 0
    index ||| (bitval <<< j)) 0

structure Filter where
  hsl : Word
  hsh : Word
  cfg : Word

/-- What the driver looks at in `struct net_device`. -/
structure NetDevice where
  flags : Word
  mcCount : ℕ
  mcList : List (List Byte)

/-- One turn of the loop of `at91ether_sethashtable`. -/
def setFilterBit (mcFilter : ℕ → Word) (addr : List Byte) : ℕ → Word :=
  let bitnr := hashGetIndex addr
  let i := (bitnr >>> 5).toNat
  Function.update mcFilter i (mcFilter i ||| ((1 : Word) <<< (bitnr &&& 31).toNat))

/-- `at91ether_sethashtable`: the loop ends with the list or with the count. -/
def sethashtable (dev : NetDevice) (f : Filter) : Filter :=
  let mcFilter := (dev.mcList.take dev.mcCount).foldl setFilterBit fun _ => 0
  { f with hsl := mcFilter 0, hsh := mcFilter 1 }

/-- `cfg` after the first choice of `at91ether_set_rx_mode`. -/
def promiscMode (flags cfg : Word) : Word :=
  if flags &&& iffPromisc ≠ 0 then cfg ||| emacCaf
  else if flags &&& ~~~iffPromisc ≠ 0 then cfg &&& ~~~emacCaf
  else cfg

def setRxMode (dev : NetDevice) (f : Filter) : Filter :=
  let cfg := promiscMode dev.flags f.cfg
  if dev.flags &&& iffAllmulti ≠ 0 then ⟨-1, -1, cfg ||| emacMti⟩
  else if 0 < dev.mcCount then { sethashtable dev f with cfg := cfg ||| emacMti }
  else if dev.flags &&& ~~~iffAllmulti ≠ 0 then ⟨0, 0, cfg &&& ~~~emacMti⟩
  else { f with cfg := cfg }

/-! ## The EMAC -/

/-- Bit `n` of a destination, the first bit on the wire first. -/
def daBit (da : List Byte) (n : ℕ) : Bool := (da.getD (n / 8) 0).getLsbD (n % 8)

/-- Bit `j` of the index: every sixth bit of the destination. -/
def hashIndexBit (da : List Byte) (j : ℕ) : Bool :=
  (List.range 8).foldl (fun b i => b ^^ daBit da (j + 6 * i)) false

def hashIndex (da : List Byte) : ℕ :=
  ((List.range 6).map fun j => if hashIndexBit da j then 2 ^ j else 0).sum

def Filter.table (f : Filter) (n : ℕ) : Bool :=
  if n < 32 then f.hsl.getLsbD n else f.hsh.getLsbD (n - 32)

/-- Whether the EMAC takes a frame. `station` tells what it takes for its station addresses and the
broadcast address. -/
def Filter.takes (f : Filter) (station : List Byte → Bool) (da : List Byte) : Bool :=
  f.cfg.getLsbD 4 || station da ||
    (f.table (hashIndex da) && if daBit da 0 then f.cfg.getLsbD 6 else f.cfg.getLsbD 7)

/-! ## The index -/

theorem hashBitValue_eq (n : ℕ) (addr : List Byte) :
    hashBitValue n addr = if daBit addr n then 1 else 0 := by
  have hbit : ∀ (b : Byte) (k : Fin 8),
      b.setWidth 32 &&& ((1 : Word) <<< k.val) ≠ 0 ↔ b.getLsbD k.val = true := by
    decide +kernel
  have h := hbit (addr.getD (n / 8) 0) ⟨n % 8, Nat.mod_lt _ (by decide)⟩
  rw [hashBitValue, daBit]
  by_cases hb : (addr.getD (n / 8) 0).getLsbD (n % 8) = true
  · rw [if_pos (h.mpr hb), if_pos hb]
  · rw [if_neg (fun hc => hb (h.mp hc)), if_neg hb]

/-- A loop over bits held in words. -/
theorem foldl_xor_bits (f : ℕ → Bool) (l : List ℕ) (b : Bool) :
    l.foldl (fun v i => v ^^^ if f i then (1 : Word) else 0) (if b then 1 else 0) =
      if l.foldl (fun v i => v ^^ f i) b then 1 else 0 := by
  induction l generalizing b with
  | nil => rfl
  | cons i l ih =>
    have hstep : ((if b then (1 : Word) else 0) ^^^ if f i then (1 : Word) else 0) =
        if b ^^ f i then 1 else 0 := by
      cases b <;> cases f i <;> rfl
    rw [List.foldl_cons, List.foldl_cons, hstep, ih]

theorem bitval_eq (addr : List Byte) (j : ℕ) :
    (List.range 8).foldl (fun bitval i => bitval ^^^ hashBitValue (i * 6 + j) addr) 0 =
      if hashIndexBit addr j then 1 else 0 := by
  have hword : (fun (v : Word) i => v ^^^ hashBitValue (i * 6 + j) addr) =
      fun v i => v ^^^ if daBit addr (j + 6 * i) then (1 : Word) else 0 := by
    ext v i
    rw [hashBitValue_eq, Nat.mul_comm, Nat.add_comm]
  have hfold := foldl_xor_bits (fun i => daBit addr (j + 6 * i)) (List.range 8) false
  rw [hword, hashIndexBit, ← hfold]
  rfl

theorem hashGetIndex_toNat (addr : List Byte) : (hashGetIndex addr).toNat = hashIndex addr := by
  simp only [hashGetIndex, bitval_eq, hashIndex]
  generalize hashIndexBit addr = b
  simp only [List.range, List.range.loop, List.foldl, List.map, List.sum_cons, List.sum_nil]
  cases b 0 <;> cases b 1 <;> cases b 2 <;> cases b 3 <;> cases b 4 <;> cases b 5 <;> rfl

theorem hashIndex_lt (da : List Byte) : hashIndex da < 64 := by
  simp only [hashIndex]
  generalize hashIndexBit da = b
  simp only [List.range, List.range.loop, List.map, List.sum_cons, List.sum_nil]
  cases b 0 <;> cases b 1 <;> cases b 2 <;> cases b 3 <;> cases b 4 <;> cases b 5 <;> decide

/-! ## The table -/

theorem setFilterBit_getLsbD (m : ℕ → Word) (addr : List Byte) (n : ℕ) :
    (setFilterBit m addr (n / 32)).getLsbD (n % 32) =
      ((m (n / 32)).getLsbD (n % 32) || decide (hashIndex addr = n)) := by
  have hlt := hashIndex_lt addr
  have hi : (hashGetIndex addr >>> 5).toNat = hashIndex addr / 32 := by
    rw [BitVec.toNat_ushiftRight, hashGetIndex_toNat, Nat.shiftRight_eq_div_pow]
  have hb : (hashGetIndex addr &&& 31).toNat = hashIndex addr % 32 := by
    rw [BitVec.toNat_and, hashGetIndex_toNat]
    exact Nat.and_two_pow_sub_one_eq_mod _ 5
  simp only [setFilterBit, hi, hb, Function.update_apply]
  by_cases hw : n / 32 = hashIndex addr / 32
  · rw [if_pos hw, ← hw, BitVec.getLsbD_or]
    refine congrArg ((m (n / 32)).getLsbD (n % 32) || ·) ?_
    simp only [BitVec.getLsbD_shiftLeft]
    have : n % 32 < 32 := Nat.mod_lt _ (by decide)
    by_cases he : hashIndex addr = n
    · simp [he, this]
    · have : n % 32 ≠ hashIndex addr % 32 := by omega
      simp [he]
      omega
  · have he : hashIndex addr ≠ n := fun he => hw (by rw [he])
    simp [hw, he]

theorem setFilterBits_getLsbD (l : List (List Byte)) (m : ℕ → Word) (n : ℕ) :
    (l.foldl setFilterBit m (n / 32)).getLsbD (n % 32) =
      ((m (n / 32)).getLsbD (n % 32) || l.any fun a => decide (hashIndex a = n)) := by
  induction l generalizing m with
  | nil => simp
  | cons a l ih =>
    rw [List.foldl_cons, ih, setFilterBit_getLsbD m a n, List.any_cons, Bool.or_assoc]

theorem Filter.table_eq (f : Filter) (m : ℕ → Word) (hl : f.hsl = m 0) (hh : f.hsh = m 1) (n : ℕ)
    (hn : n < 64) : f.table n = (m (n / 32)).getLsbD (n % 32) := by
  rw [Filter.table, hl, hh]
  by_cases h : n < 32
  · rw [if_pos h, Nat.div_eq_of_lt h, Nat.mod_eq_of_lt h]
  · have hd : n / 32 = 1 := by omega
    have hm : n % 32 = n - 32 := by omega
    rw [if_neg h, hd, hm]

theorem sethashtable_table (dev : NetDevice) (f : Filter) (da : List Byte) :
    (sethashtable dev f).table (hashIndex da) =
      (dev.mcList.take dev.mcCount).any fun a => decide (hashIndex a = hashIndex da) := by
  have hbits := setFilterBits_getLsbD (dev.mcList.take dev.mcCount) (fun _ => 0) (hashIndex da)
  rw [Filter.table_eq (sethashtable dev f) _ rfl rfl _ (hashIndex_lt da), hbits]
  simp

/-! ## What the device asks for -/

/-- The device asks for all groups or lists an address of the same index. -/
def NetDevice.hashed (dev : NetDevice) (da : List Byte) : Bool :=
  decide (dev.flags &&& iffAllmulti ≠ 0) ||
    (dev.mcList.take dev.mcCount).any fun a => decide (hashIndex a = hashIndex da)

theorem flags_other {flags bit : Word} (h : flags ≠ 0) (hbit : flags &&& bit = 0) :
    flags &&& ~~~bit ≠ 0 := by
  intro hn
  apply h
  ext i hi
  have h1 := congrArg (fun w => BitVec.getLsbD w i) hbit
  have h2 := congrArg (fun w => BitVec.getLsbD w i) hn
  simp [hi] at h1 h2
  simp
  grind

theorem setBit_getLsbD (cfg : Word) (k n : ℕ) (hk : k < 32) :
    (cfg ||| BitVec.twoPow 32 k).getLsbD n = if n = k then true else cfg.getLsbD n := by
  rw [BitVec.getLsbD_or, BitVec.getLsbD_twoPow]
  by_cases h : n = k
  · simp [h, hk]
  · simp [h, Ne.symm h]

theorem clearBit_getLsbD (cfg : Word) (k n : ℕ) (hk : k < 32) :
    (cfg &&& ~~~(BitVec.twoPow 32 k)).getLsbD n = if n = k then false else cfg.getLsbD n := by
  rw [BitVec.getLsbD_and, BitVec.getLsbD_not, BitVec.getLsbD_twoPow]
  by_cases h : n = k
  · simp [h, hk]
  · by_cases hn : n < 32
    · simp [h, Ne.symm h, hn]
    · simp [h, BitVec.getLsbD_of_ge cfg n (by omega)]

/-- The bit of the promiscuous mode follows the flags, no other bit moves. -/
theorem promiscMode_getLsbD (flags cfg : Word) (h : flags ≠ 0) (n : ℕ) :
    (promiscMode flags cfg).getLsbD n =
      if n = 4 then decide (flags &&& iffPromisc ≠ 0) else cfg.getLsbD n := by
  have hcaf : emacCaf = BitVec.twoPow 32 4 := by rfl
  rw [promiscMode, hcaf]
  by_cases hp : flags &&& iffPromisc = 0
  · rw [if_neg (not_not.mpr hp), if_pos (flags_other h hp), clearBit_getLsbD _ _ _ (by decide),
      decide_eq_false (not_not.mpr hp)]
  · rw [if_pos hp, setBit_getLsbD _ _ _ (by decide), decide_eq_true hp]

/-- The choices of `at91ether_set_rx_mode` for the table and its bit. -/
theorem setRxMode_takes (dev : NetDevice) (f : Filter) (h : dev.flags ≠ 0)
    (station : List Byte → Bool) (da : List Byte) :
    (setRxMode dev f).takes station da =
      (decide (dev.flags &&& iffPromisc ≠ 0) || station da ||
        (dev.hashed da && (daBit da 0 || f.cfg.getLsbD 7))) := by
  have hmti : emacMti = BitVec.twoPow 32 6 := by rfl
  have hcfg := promiscMode_getLsbD dev.flags f.cfg h
  simp only [setRxMode, hmti]
  by_cases ha : dev.flags &&& iffAllmulti = 0
  · rw [if_neg (not_not.mpr ha)]
    by_cases hc : 0 < dev.mcCount
    · have ht : ({ sethashtable dev f with
            cfg := promiscMode dev.flags f.cfg ||| BitVec.twoPow 32 6 } : Filter).table
          (hashIndex da) = dev.hashed da := by
        have hany := sethashtable_table dev f da
        rw [NetDevice.hashed, decide_eq_false (not_not.mpr ha), Bool.false_or, ← hany]
        rfl
      rw [if_pos hc, Filter.takes, ht]
      simp only [setBit_getLsbD _ 6 _ (by decide), hcfg]
      cases daBit da 0 <;> simp
    · have hz : dev.mcCount = 0 := by omega
      rw [if_neg hc, if_pos (flags_other h ha)]
      simp only [Filter.takes, clearBit_getLsbD _ 6 _ (by decide), hcfg, NetDevice.hashed, hz,
        decide_eq_false (not_not.mpr ha)]
      simp [Filter.table]
  · have hn := hashIndex_lt da
    have ht : (Filter.mk (-1) (-1) (promiscMode dev.flags f.cfg ||| BitVec.twoPow 32 6)).table
        (hashIndex da) = true := by
      have hones : (-1 : Word) = BitVec.allOnes 32 := by rfl
      rw [Filter.table, hones]
      by_cases h32 : hashIndex da < 32
      · rw [if_pos h32, BitVec.getLsbD_allOnes]
        exact decide_eq_true h32
      · rw [if_neg h32, BitVec.getLsbD_allOnes]
        exact decide_eq_true (by omega)
    rw [if_pos ha, Filter.takes, ht]
    simp only [setBit_getLsbD _ 6 _ (by decide), hcfg, NetDevice.hashed, decide_eq_true ha]
    cases daBit da 0 <;> simp

theorem setRxMode_uni (dev : NetDevice) (f : Filter) :
    (setRxMode dev f).cfg.getLsbD 7 = f.cfg.getLsbD 7 := by
  have hmti : emacMti = BitVec.twoPow 32 6 := by rfl
  have hcaf : emacCaf = BitVec.twoPow 32 4 := by rfl
  have hset := fun cfg k => setBit_getLsbD cfg k 7
  have hclear := fun cfg k => clearBit_getLsbD cfg k 7
  have hcfg : (promiscMode dev.flags f.cfg).getLsbD 7 = f.cfg.getLsbD 7 := by
    rw [promiscMode, hcaf]
    split
    · exact hset _ 4 (by decide)
    · split
      · exact hclear _ 4 (by decide)
      · rfl
  simp only [setRxMode, hmti]
  split
  · rw [hset _ 6 (by decide), if_neg (by decide), hcfg]
  · split
    · rw [hset _ 6 (by decide), if_neg (by decide), hcfg]
    · split
      · rw [hclear _ 6 (by decide), if_neg (by decide), hcfg]
      · exact hcfg

/-- The filter through all calls of `set_multicast_list`. -/
def setRxModes (devs : List NetDevice) (f : Filter) : Filter :=
  devs.foldl (fun f dev => setRxMode dev f) f

theorem setRxModes_uni (devs : List NetDevice) (f : Filter) :
    (setRxModes devs f).cfg.getLsbD 7 = f.cfg.getLsbD 7 := by
  induction devs generalizing f with
  | nil => rfl
  | cons dev devs ih =>
    have hstep := ih (setRxMode dev f)
    rw [setRxMode_uni] at hstep
    exact hstep

/-- Whatever was asked for before, the EMAC takes what the device asks for now: everything, its
stations, or the groups with the index of a listed one. -/
theorem setRxModes_takes (devs : List NetDevice) (dev : NetDevice) (f : Filter)
    (h : dev.flags ≠ 0) (station : List Byte → Bool) (da : List Byte) :
    (setRxModes (devs ++ [dev]) f).takes station da = true ↔
      dev.flags &&& iffPromisc ≠ 0 ∨ station da = true ∨
        (daBit da 0 = true ∨ f.cfg.getLsbD 7 = true) ∧
          (dev.flags &&& iffAllmulti ≠ 0 ∨
            ∃ a ∈ dev.mcList.take dev.mcCount, hashIndex a = hashIndex da) := by
  have hlast : setRxModes (devs ++ [dev]) f = setRxMode dev (setRxModes devs f) :=
    List.foldl_append
  rw [hlast, setRxMode_takes dev _ h, setRxModes_uni, NetDevice.hashed]
  simp only [Bool.or_eq_true, Bool.and_eq_true, decide_eq_true_eq, List.any_eq_true, or_assoc]
  exact or_congr_right (or_congr_right and_comm)

/-- One group listed, after the promiscuous mode. -/
theorem setRxModes_takes_group :
    let dev : NetDevice := ⟨0x1003, 1, [[1, 0, 0x5e, 0, 0, 1]]⟩
    let f := setRxModes ([⟨0x1103, 0, []⟩] ++ [dev]) ⟨0, 0, 3⟩
    (f.takes (fun _ => false) [1, 0, 0x5e, 0, 0, 1] = true ↔ True) ∧
      (f.takes (fun _ => false) [1, 0, 0x5e, 0, 0, 2] = true ↔ False) := by
  have hgroup := setRxModes_takes [⟨0x1103, 0, []⟩] ⟨0x1003, 1, [[1, 0, 0x5e, 0, 0, 1]]⟩ ⟨0, 0, 3⟩
    (by decide) (fun _ => false)
  constructor
  · rw [hgroup]
    decide
  · rw [hgroup]
    decide

end Armboard.Emac
