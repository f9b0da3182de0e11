import Armboard.Tftp.Turns

/-! # A transfer brings the file

The server goes on only behind an acknowledgement, and the client acknowledges only what
it has stored. So everything before the packet a transfer has come to is stored, whatever
the network did on the way, and the short block at the end completes the file.
-/

namespace Armboard.Tftp
open Env Exec Net Storage

variable {file : List Byte} {port : Word} {c₀ : Client} {transfers : Word → Option (Transfer file)}
  {t : Transfer file} {c : Client}

structure Inv (port : Word) (c₀ : Client) (w : World file) : Prop where
  session : Session port c₀ w.transfers w.client
  placed : Placed w.transfers
  running : w.outcome = .running → w.client.netState = .netloopContinue
  loaded : ∀ size, w.outcome = .loaded size →
    w.client.netState = .netloopSuccess ∧ w.client.netBootFileXferSize = size

theorem splitBootFile_eq (c : Client) : ∃ ip name bootFile, splitBootFile c =
    { c with serverIP := ip, filename := name, bootFile := bootFile } := by
  rw [splitBootFile]
  split
  · exact ⟨_, _, c.bootFile, rfl⟩
  · split
    · exact ⟨_, _, c.bootFile, rfl⟩
    · exact ⟨_, _, _, rfl⟩

theorem inv_start (timer : Word) (c : Client) :
    Inv (1024 + timer % 3072) c (start timer c : World file) := by
  obtain ⟨ip, name, bootFile, hsplit⟩ :=
    splitBootFile_eq { c with sent := [], netState := .netloopContinue }
  have hclient : (start timer c : World file).client = tftpStart timer { c with sent := [] } := rfl
  simp only [tftpStart, hsplit] at hclient
  constructor
  · rw [hclient]
    refine Waiting.session ⟨rfl, rfl, rfl, (fun _ _ ht => nomatch ht), List.cons_ne_nil _ _, ?_⟩
      ⟨rfl, rfl, fun i _ _ => rfl, Nat.zero_le _⟩ rfl
    intro d hd
    rw [List.mem_singleton.mp hd]
    exact ⟨rfl, rfl⟩
  · intro p t ht
    cases ht
  · intro _
    rw [hclient]
    rfl
  · intro size hs
    cases hs

/-- What the server does is no loss to the client. -/
theorem Session.serverStep {transfers' : Word → Option (Transfer file)}
    (h : Session port c₀ transfers c)
    (hwaiting : Waiting port transfers c → Waiting port transfers' c)
    (hengaged : ∀ t, Engaged port transfers t c → ∃ t, Engaged port transfers' t c) :
    Session port c₀ transfers' c where
  toBounded := h.toBounded
  success := h.success
  active hc hp := by
    cases h.active hc hp with
    | inl hw => exact .inl (hwaiting hw)
    | inr he =>
      obtain ⟨t, he⟩ := he
      exact .inr (hengaged t he)

theorem Session.request (h : Session port c₀ transfers c) {p : Word} (hp : transfers p = none)
    (answer : Answer file) {d : Datagram} (hd : d ∈ c.sent) :
    Session port c₀ (Function.update transfers p (some ⟨answer, d.sport, answer.first⟩)) c := by
  refine h.serverStep ?_ ?_
  · intro hw
    refine ⟨hw.state, hw.blkSize, hw.block, ?_, hw.asked, hw.sent⟩
    intro q t ht
    by_cases hq : q = p
    · rw [hq, Function.update_self] at ht
      cases ht
      exact ⟨(hw.sent d hd).1, rfl⟩
    · rw [Function.update_of_ne hq] at ht
      exact hw.first q t ht
  · intro t he
    have hne : c.serverPort ≠ p := by
      intro heq
      have hsome := he.transfer
      rw [heq, hp] at hsome
      cases hsome
    refine ⟨t, ⟨?_, he.client, he.blkSize, he.before, he.sent⟩, he.state, he.block, he.opened, he.data⟩
    rw [Function.update_of_ne hne]
    exact he.transfer

theorem ackPacket_not_request (k : ℕ) : (ackPacket k).take 2 ≠ htons 1 := by
  rw [show (ackPacket k).take 2 = htons 4 from rfl]
  decide

theorem ackPacket_injective {j k : ℕ} (hj : j < 0x10000) (hk : k < 0x10000)
    (h : ackPacket j = ackPacket k) : j = k := by
  have hnum := congrArg (fun l => ntohs (l.drop 2)) h
  have hread : ∀ k < 0x10000, ntohs ((ackPacket k).drop 2) = BitVec.ofNat 32 k := by
    intro k hk
    have hofNat := ntohs_ofNat hk []
    rw [List.append_nil] at hofNat
    exact hofNat
  simp only [hread j hj, hread k hk] at hnum
  have hnat := congrArg BitVec.toNat hnum
  rw [BitVec.toNat_ofNat, BitVec.toNat_ofNat, Nat.mod_eq_of_lt (by omega),
    Nat.mod_eq_of_lt (by omega)] at hnat
  exact hnat

theorem Session.acknowledge (h : Session port c₀ transfers c) {d : Datagram} (hd : d ∈ c.sent)
    (ht : transfers d.dport = some t) (hack : d.payload = ackPacket t.pos)
    (hpos : t.pos < t.answer.last) :
    Session port c₀ (Function.update transfers d.dport (some { t with pos := t.pos + 1 })) c := by
  refine h.serverStep ?_ ?_
  · intro hw
    have hrequest := (hw.sent d hd).2
    rw [hack] at hrequest
    exact absurd hrequest (ackPacket_not_request _)
  · intro t' he
    cases (he.sent d hd).2 with
    | inl hr =>
      rw [hack] at hr
      exact absurd hr (ackPacket_not_request _)
    | inr ha =>
      obtain ⟨hp, k, hk, hpayload, hstored⟩ := ha
      have htt : some t' = some t := by
        rw [← he.transfer, ← hp]
        exact ht
      cases htt
      have hlast := t.answer.blocks_lt
      have hkpos : k = t.pos := ackPacket_injective hk
        (by rw [Answer.last] at hpos; omega) (hpayload.symm.trans hack)
      refine ⟨{ t with pos := t.pos + 1 }, ⟨?_, he.client, he.blkSize, ?_, he.sent⟩, he.state, he.block,
        fun h0 => absurd h0 (Nat.succ_ne_zero _), he.data⟩
      · rw [hp, Function.update_self]
      · intro j hj
        by_cases hjk : j = k
        · rw [hjk]
          exact hstored
        · exact he.before j (by have hj' : j < t.pos + 1 := hj; omega)

theorem Inv.step {w w' : World file} (h : Inv port c₀ w) (e : Event file) (hs : step e w w') :
    Inv port c₀ w' := by
  cases e with
  | turn turn =>
    obtain ⟨hrun, ha, rfl⟩ := hs
    have houtcome := netLoopTurn_outcome turn w.client
    refine ⟨h.session.netLoopTurn h.placed (h.running hrun) turn ha, h.placed, ?_, ?_⟩
    · intro hr
      cases houtcome with
      | inl hf => exact Outcome.noConfusion (hf.symm.trans hr)
      | inr ho => exact outcome_running (ho.symm.trans hr)
    · intro size hl
      cases houtcome with
      | inl hf => exact Outcome.noConfusion (hf.symm.trans hl)
      | inr ho => exact outcome_loaded (ho.symm.trans hl)
  | request d p answer =>
    obtain ⟨hd, _, hp, rfl⟩ := hs
    exact ⟨h.session.request hp answer hd,
      h.placed.update ⟨le_rfl, answer.first_le_last⟩, h.running, h.loaded⟩
  | acknowledge d =>
    obtain ⟨hd, t, ht, hack, hpos, rfl⟩ := hs
    have hplaced := h.placed d.dport t ht
    exact ⟨h.session.acknowledge hd ht hack hpos,
      h.placed.update ⟨hplaced.1.trans (Nat.le_succ _), hpos⟩, h.running, h.loaded⟩

theorem inv_run {es : List (Event file)} {timer : Word} {w : World file}
    (hrun : Run step es (start timer c) w) : Inv (1024 + timer % 3072) c w :=
  hrun.keeps (fun e _ _ _ h hs => h.step e hs) (inv_start timer c)

end Armboard.Tftp
