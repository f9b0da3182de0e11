import Armboard.Ethernet.Address
import Mathlib.Tactic

/-! # The address survives the hand-over

The string is read field by field, each field up to the separator. The packing of
U-Boot and the unpacking of Linux are inverse to each other, and an address that is
valid stops the search.
-/

namespace Armboard.Ethernet

/-! ## Addresses as text -/

/-- One or two hexadecimal digits. -/
structure Field where
  digits : List Byte
  size : digits.length = 1 ∨ digits.length = 2
  hex : ∀ c ∈ digits, isxdigit c = true

def hexDigit (c : Byte) : ℕ :=
  if c.toNat < 0x3A then c.toNat - 0x30 else if c.toNat < 0x47 then c.toNat - 0x37 else c.toNat - 0x57

def Field.byte (f : Field) : Byte :=
  BitVec.ofNat 8 (f.digits.foldl (fun n c => n * 16 + hexDigit c) 0)

structure Address where
  fields : List Field
  six : fields.length = 6

def Address.bytes (a : Address) : List Byte := a.fields.map Field.byte

def text : List Field → List Byte
  | [] => []
  | [f] => f.digits
  | f :: fs => f.digits ++ 0x3A :: text fs

def Address.text (a : Address) : List Byte := Ethernet.text a.fields

/-! ## Reading a field -/

theorem digitValue_hex : ∀ c : Byte, isxdigit c = true →
    digitValue c = BitVec.ofNat 32 (hexDigit c) ∧ digitValue c < 16 := by
  decide

theorem isxdigit_zero_x : isxdigit 0 = false ∧ isxdigit 0x78 = false ∧ isxdigit 0x3A = false := by
  decide

theorem strtoulDigits_append (ds : List Byte) (hds : ∀ c ∈ ds, isxdigit c = true) (rest : List Byte)
    (hrest : isxdigit (deref rest) = false) (n : ℕ) :
    strtoulDigits 16 (BitVec.ofNat 32 n) (ds ++ rest) =
      (BitVec.ofNat 32 (ds.foldl (fun n c => n * 16 + hexDigit c) n), rest) := by
  induction ds generalizing n with
  | nil =>
    cases rest with
    | nil => rfl
    | cons c rest =>
      have hc : isxdigit c = false := hrest
      simp [strtoulDigits, hc]
  | cons c ds ih =>
    have hc := hds c List.mem_cons_self
    have hv := digitValue_hex c hc
    have hnext : BitVec.ofNat 32 n * 16 + digitValue c = BitVec.ofNat 32 (n * 16 + hexDigit c) := by
      rw [hv.1, BitVec.ofNat_add, BitVec.ofNat_mul]
      rfl
    rw [List.cons_append, strtoulDigits, hc, decide_eq_true hv.2, Bool.and_self, if_pos rfl, hnext,
      List.foldl_cons]
    exact ih (fun c' hc' => hds c' (List.mem_cons_of_mem c hc')) _

theorem Field.ne_nil (f : Field) : f.digits ≠ [] := by
  intro hnil
  have hsize := f.size
  rw [hnil] at hsize
  simp at hsize

/-- Behind a leading zero there is no `x`. -/
theorem strtoulPrefix_digits (c : Byte) (ds rest : List Byte) (hds : ∀ d ∈ ds, isxdigit d = true)
    (hx : deref rest ≠ 0x78) :
    strtoulPrefix (c :: (ds ++ rest)) 16 =
      (if c = 0x30 then ds ++ rest else c :: (ds ++ rest), 16) := by
  have hnox : deref (ds ++ rest) ≠ 0x78 := by
    cases ds with
    | nil => exact hx
    | cons d ds =>
      intro hd
      have hdx := hds d List.mem_cons_self
      rw [show d = 0x78 from hd, isxdigit_zero_x.2.1] at hdx
      cases hdx
  rw [strtoulPrefix]
  split
  · rename_i hc
    have hc' : c = 0x30 := hc
    rw [if_neg (fun h => hnox h.1), if_pos hc']
    rfl
  · rename_i hc
    have hc' : c ≠ 0x30 := hc
    rw [if_neg hc']

/-- A field is read as the byte it denotes. -/
theorem simpleStrtoul_field (f : Field) (rest : List Byte) (hrest : isxdigit (deref rest) = false)
    (hx : deref rest ≠ 0x78) :
    simpleStrtoul (f.digits ++ rest) 16 =
      (BitVec.ofNat 32 (f.digits.foldl (fun n c => n * 16 + hexDigit c) 0), rest) := by
  have hhex := f.hex
  cases hd : f.digits with
  | nil => exact absurd hd f.ne_nil
  | cons c ds =>
    rw [hd] at hhex
    have hds : ∀ d ∈ ds, isxdigit d = true := fun d hm => hhex d (List.mem_cons_of_mem c hm)
    rw [simpleStrtoul, List.cons_append, strtoulPrefix_digits c ds rest hds hx]
    simp only
    split
    · rename_i hfalse
      cases hfalse
    split
    · -- the zero that was skipped counts for nothing
      rename_i hc
      rw [hc, List.foldl_cons]
      exact strtoulDigits_append ds hds rest hrest 0
    · exact strtoulDigits_append (c :: ds) hhex rest hrest 0

/-! ## Reading the address -/

theorem readAddress_text (fs : List Field) :
    readAddress fs.length (text fs) = fs.map Field.byte := by
  have hbyte : ∀ f : Field, (BitVec.ofNat 32 (f.digits.foldl (fun n c => n * 16 + hexDigit c) 0)).setWidth 8 =
      f.byte := by
    intro f
    apply BitVec.eq_of_toNat_eq
    simp [Field.byte]
  induction fs with
  | nil => rfl
  | cons f fs ih =>
    cases fs with
    | nil =>
      have hfield := simpleStrtoul_field f [] isxdigit_zero_x.1 (by decide)
      rw [List.append_nil] at hfield
      simp only [List.length_cons, List.length_nil, readAddress, text, hfield, hbyte, List.map_cons,
        List.map_nil]
    | cons g gs =>
      have hcolon : deref (0x3A :: text (g :: gs)) = 0x3A := rfl
      have hfield := simpleStrtoul_field f (0x3A :: text (g :: gs)) isxdigit_zero_x.2.2
        (by rw [hcolon]; decide)
      have hskip : deref (0x3A :: text (g :: gs)) ≠ 0 := by
        rw [hcolon]
        decide
      have htext : text (f :: g :: gs) = f.digits ++ 0x3A :: text (g :: gs) := rfl
      rw [List.length_cons, readAddress, htext, hfield, hbyte, if_pos hskip, List.tail_cons, ih]
      rfl

/-! ## Packing and unpacking -/

theorem packLow_bytes (b₀ b₁ b₂ b₃ : Byte) {w : Word}
    (hw : w = b₃.setWidth 32 <<< 24 ||| b₂.setWidth 32 <<< 16 ||| b₁.setWidth 32 <<< 8 |||
      b₀.setWidth 32) :
    (w &&& 0xff).setWidth 8 = b₀ ∧ ((w &&& 0xff00) >>> 8).setWidth 8 = b₁ ∧
      ((w &&& 0xff0000) >>> 16).setWidth 8 = b₂ ∧ ((w &&& 0xff000000) >>> 24).setWidth 8 = b₃ := by
  subst hw
  refine ⟨?_, ?_, ?_, ?_⟩ <;> ext i hi <;> interval_cases i <;> simp

theorem packHigh_bytes (b₄ b₅ : Byte) {w : Word} (hw : w = b₅.setWidth 32 <<< 8 ||| b₄.setWidth 32) :
    (w &&& 0xff).setWidth 8 = b₄ ∧ ((w &&& 0xff00) >>> 8).setWidth 8 = b₅ := by
  subst hw
  refine ⟨?_, ?_⟩ <;> ext i hi <;> interval_cases i <;> simp

theorem unpack_pack {l : List Byte} (h : l.length = 6) :
    unpackBytes false (packHigh l) (packLow l) = l := by
  match l, h with
  | [b₀, b₁, b₂, b₃, b₄, b₅], _ =>
    have hlow := packLow_bytes b₀ b₁ b₂ b₃ (w := packLow [b₀, b₁, b₂, b₃, b₄, b₅]) rfl
    have hhigh := packHigh_bytes b₄ b₅ (w := packHigh [b₀, b₁, b₂, b₃, b₄, b₅]) rfl
    rw [unpackBytes, hlow.1, hlow.2.1, hlow.2.2.1, hlow.2.2.2, hhigh.1, hhigh.2]
    rfl

/-! ## The hand-over -/

theorem getMacAddress_second (e : Emac) (dev : NetDevice) {addr : List Byte}
    (hfirst : isValidEtherAddr (unpackBytes false e.sa1h e.sa1l) = false)
    (hsecond : unpackBytes false e.sa2h e.sa2l = addr) (hvalid : isValidEtherAddr addr = true) :
    (getMacAddress false e dev).devAddr = addr := by
  simp [getMacAddress, unpackMacAddress, hfirst, hsecond, hvalid]

theorem getMacAddress_first (e : Emac) (dev : NetDevice) {addr : List Byte}
    (hfirst : unpackBytes false e.sa1h e.sa1l = addr) (hvalid : isValidEtherAddr addr = true) :
    (getMacAddress false e dev).devAddr = addr := by
  simp [getMacAddress, unpackMacAddress, hfirst, hvalid]

theorem Address.bytes_length (a : Address) : a.bytes.length = 6 := by
  rw [Address.bytes, List.length_map, a.six]

theorem readAddress_six (a : Address) : readAddress 6 a.text = a.bytes := by
  rw [← a.six]
  exact readAddress_text a.fields

/-- The board reads a valid address from its environment and Linux finds it, also after it has moved
the address to the first pair of registers. -/
theorem getMacAddress_miscInitR (a : Address) (b : Board) (dev : NetDevice)
    (hvalid : isValidEtherAddr a.bytes = true)
    (hfirst : isValidEtherAddr (unpackBytes false b.emac.sa1h b.emac.sa1l) = false) :
    let e := (miscInitR (some a.text) b).emac
    let dev' := getMacAddress false e dev
    dev'.devAddr = a.bytes ∧
      ∀ again, (getMacAddress false (updateMacAddress dev' e) again).devAddr = a.bytes := by
  intro e dev'
  have he : e = ethInit a.bytes b.emac := by
    simp only [e, miscInitR, readAddress_six]
  have hpack := unpack_pack a.bytes_length
  have hdev : dev'.devAddr = a.bytes := by
    apply getMacAddress_second e dev _ _ hvalid
    · rw [he]
      exact hfirst
    · rw [he]
      exact hpack
  constructor
  · exact hdev
  · intro again
    apply getMacAddress_first _ again _ hvalid
    rw [updateMacAddress, hdev]
    exact hpack

/-- `08:0:3E:26:0a:5B`. -/
def exampleAddress : Address where
  fields := [⟨[0x30, 0x38], by decide, by decide⟩, ⟨[0x30], by decide, by decide⟩,
    ⟨[0x33, 0x45], by decide, by decide⟩, ⟨[0x32, 0x36], by decide, by decide⟩,
    ⟨[0x30, 0x61], by decide, by decide⟩, ⟨[0x35, 0x42], by decide, by decide⟩]
  six := rfl

theorem getMacAddress_miscInitR_example :
    let e := (miscInitR (some exampleAddress.text) ⟨⟨0, 0, 0, 0, 0, 0, 0, 0⟩, []⟩).emac
    let dev' := getMacAddress false e ⟨[], []⟩
    dev'.devAddr = [0x08, 0x00, 0x3E, 0x26, 0x0A, 0x5B] ∧
      ∀ again, (getMacAddress false (updateMacAddress dev' e) again).devAddr =
        [0x08, 0x00, 0x3E, 0x26, 0x0A, 0x5B] :=
  getMacAddress_miscInitR exampleAddress ⟨⟨0, 0, 0, 0, 0, 0, 0, 0⟩, []⟩ ⟨[], []⟩ (by decide) (by decide)

end Armboard.Ethernet
