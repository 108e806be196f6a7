/-
Tunnels. The MPLS interface group of a port carries labelled packets to it. Its key holds the port, and a hash of the
device is laid over all but the lowest eight bits of it; where the hash has a bit, the bit of the port does not show.

- `tunnels_apart_iff`: two ports have tunnels under different keys if and only if they differ in a bit that shows. If
  they do, neither is taken for the other when it is asked for; if not, the second one is never asked for once the first
  one is there. A device keeps the tunnels of all ports apart only if all of its bits show.
- `tunnels_under_one_key`: the ports 7 and 519 of a device share a key, and an objective that is carried to the second
  one is installed without a tunnel.
-/
import FlowGroups.Proofs.Numbering
import FlowGroups.Proofs.Resubmission

namespace FlowGroups

/-! ## Bits that show -/

namespace DeviceId

/-- does a bit of a port, counted from the lowest one, show in the key of its tunnel? -/
def Shows (device : DeviceId) (i : Nat) : Prop :=
  i < 8 ∨ (Hash.ofParts [device.octets]).toNat.testBit (i - 8) = false

instance (device : DeviceId) (i : Nat) : Decidable (device.Shows i) := inferInstanceAs (Decidable (_ ∨ _))

/-- do two ports differ in a bit that shows? -/
def TellsApart (device : DeviceId) (p q : PortNumber) : Prop :=
  ∃ i < 24, device.Shows i ∧ p.val.toNat.testBit i ≠ q.val.toNat.testBit i

instance (device : DeviceId) (p q : PortNumber) : Decidable (device.TellsApart p q) :=
  inferInstanceAs (Decidable (∃ i < 24, _ ∧ _))

end DeviceId

/-- numbers agree below a bit if and only if they agree in each bit below it -/
theorem mod_two_pow_eq_iff {x y n : Nat} : x % 2 ^ n = y % 2 ^ n ↔ ∀ i < n, x.testBit i = y.testBit i := by
  constructor
  · intro h i hi
    have hbit := congrArg (Nat.testBit · i) h
    simpa [Nat.testBit_mod_two_pow, hi] using hbit
  · intro h
    apply Nat.eq_of_testBit_eq
    intro i
    rw [Nat.testBit_mod_two_pow, Nat.testBit_mod_two_pow]
    by_cases hi : i < n
    · rw [h i hi]
    · simp [hi]

/-- a hash moved up by eight bits and laid over a port, bit by bit -/
theorem testBit_overlaid (hash : UInt32) (port : PortNumber) {i : Nat} (hi : i < 24) :
    (hash <<< 8 ||| port.val.toUInt32).toNat.testBit i =
      (decide (8 ≤ i) && hash.toNat.testBit (i - 8) || port.val.toNat.testBit i) := by
  have hword : i < 32 := hi.trans (by decide)
  have hshift : (hash <<< 8).toNat = hash.toNat <<< 8 % 2 ^ 32 := UInt32.toNat_shiftLeft _ _
  rw [UInt32.toNat_or, Nat.testBit_or, hshift, Nat.testBit_mod_two_pow, Nat.testBit_shiftLeft, UInt64.toNat_toUInt32,
    Nat.testBit_mod_two_pow]
  simp [hword]

namespace GroupId

theorem mplsInterface_inj {p q : PortNumber} :
    mplsInterface p = mplsInterface q ↔ ∀ i < 24, p.val.toNat.testBit i = q.val.toNat.testBit i := by
  have hcut : ∀ port : PortNumber, port.val.toUInt32.toNat % 2 ^ 24 = port.val.toNat % 2 ^ 24 := by
    intro port
    rw [UInt64.toNat_toUInt32]
    omega
  rw [mplsInterface, mplsInterface, mk.injEq, UInt32.and_comm p.val.toUInt32, UInt32.and_comm q.val.toUInt32,
    Word.field_inj (i := 24) (m := 144) (by decide) (by decide), hcut, hcut, mod_two_pow_eq_iff]

end GroupId

namespace Key

/-- **Keys of tunnels are the same if and only if the ports agree in all bits that show.** -/
theorem mplsInterface_inj {device : DeviceId} {p q : PortNumber} :
    mplsInterface device p = mplsInterface device q ↔ ¬device.TellsApart p q := by
  have hbits : mplsInterface device p = mplsInterface device q ↔
      ∀ i < 24, device.Shows i → p.val.toNat.testBit i = q.val.toNat.testBit i := by
    rw [mplsInterface, mplsInterface, ofWord_inj, Word.field_inj (i := 24) (m := 144) (by decide) (by decide),
      mod_two_pow_eq_iff]
    refine forall₂_congr fun i hi => ?_
    rw [testBit_overlaid _ _ hi, testBit_overlaid _ _ hi, DeviceId.Shows]
    by_cases hlow : i < 8
    · simp [hlow, Nat.not_le.2 hlow]
    · cases (Hash.ofParts [device.octets]).toNat.testBit (i - 8) <;> simp [hlow, Nat.not_lt.1 hlow]
  rw [hbits]
  simp only [DeviceId.TellsApart, not_exists, not_and, not_not]

end Key

/-- all tunnels of a device are told apart only if every bit of a port shows -/
theorem DeviceId.tellsApart_iff_shows {device : DeviceId} :
    (∀ p q : PortNumber, p.val.toNat < 2 ^ 24 → q.val.toNat < 2 ^ 24 →
      GroupId.mplsInterface p ≠ GroupId.mplsInterface q → device.TellsApart p q) ↔ ∀ i < 24, device.Shows i := by
  constructor
  · intro h i hi
    -- the port that has this bit only, against the port 0
    have hpow : 2 ^ i < 2 ^ 24 := Nat.pow_lt_pow_right (by decide) hi
    have hport : (UInt64.ofNat (2 ^ i)).toNat = 2 ^ i := UInt64.toNat_ofNat_of_lt (hpow.trans (by decide))
    have hids : GroupId.mplsInterface ⟨0⟩ ≠ GroupId.mplsInterface ⟨UInt64.ofNat (2 ^ i)⟩ := by
      intro hid
      have hbit := GroupId.mplsInterface_inj.1 hid i hi
      simp [hport] at hbit
    obtain ⟨j, -, hshows, hbit⟩ := h ⟨0⟩ ⟨UInt64.ofNat (2 ^ i)⟩ (by decide) (hport.trans_lt hpow) hids
    have hij : i = j := by simpa [hport, Nat.testBit_two_pow] using hbit
    exact hij ▸ hshows
  · intro h p q _ _ hid
    rw [ne_eq, GroupId.mplsInterface_inj] at hid
    push Not at hid
    obtain ⟨i, hi, hbit⟩ := hid
    exact ⟨i, hi, h i hi, hbit⟩

/-! ## Tunnels that are asked for -/

namespace Controller

/-- is the request left out, since the group is on its way or there already? -/
def Skips (c : Controller) (d : Descriptor) : Prop := (c.submit d).1.switch.ops = c.switch.ops

instance (c : Controller) (d : Descriptor) : Decidable (c.Skips d) := inferInstanceAs (Decidable (_ = _))

/-- the controller, with a group on its device -/
def having (c : Controller) (e : Descriptor) : Controller :=
  { c with switch := { c.switch with installed := c.switch.installed.insert (c.device, e.key) e } }

theorem skips_iff {c : Controller} {d : Descriptor} : c.Skips d ↔ d.key ∈ c.requested ∨ c.Stands d.key := by
  constructor
  · intro h
    rcases c.submit_cases d with ⟨hr, -⟩ | ⟨hs, -⟩ | he
    · exact .inl hr
    · exact .inr hs
    · rw [Skips, he] at h
      simp [asked, Switch.ops_addGroup] at h
  · rintro (hr | hs)
    · simp [Skips, submit, hr]
    · rw [stands_iff] at hs
      rw [Skips, submit]
      split_ifs <;> rfl

theorem skips_having_iff {c : Controller} {d e : Descriptor} : (c.having e).Skips d ↔ c.Skips d ∨ d.key = e.key := by
  have hstands : (c.having e).Stands d.key ↔ c.Stands d.key ∨ d.key = e.key := by
    refine Switch.stands_insert.trans (or_congr_right ?_)
    exact Prod.mk_right_inj
  rw [skips_iff, skips_iff, hstands, or_assoc]
  rfl

end Controller

/-- **Which tunnels are told apart.** Two ports have tunnels under different keys if and only if they differ in one of
the lowest eight bits, or in one of the next sixteen that the hash of the device leaves free. A request for the tunnel
of one port is left out because the tunnel of the other one is there if and only if they do not. So a device keeps apart
the tunnels of all ports that have different ids if and only if all of these bits show. -/
theorem tunnels_apart_iff (device : DeviceId) :
    (∀ p q : PortNumber, Key.mplsInterface device p ≠ Key.mplsInterface device q ↔ device.TellsApart p q) ∧
      (∀ (c : Controller) (d e : Descriptor) (p q : PortNumber), d.key = Key.mplsInterface device p →
        e.key = Key.mplsInterface device q → ((c.having e).Skips d ↔ c.Skips d ∨ ¬device.TellsApart p q)) ∧
      ((∀ p q : PortNumber, p.val.toNat < 2 ^ 24 → q.val.toNat < 2 ^ 24 →
          GroupId.mplsInterface p ≠ GroupId.mplsInterface q →
          Key.mplsInterface device p ≠ Key.mplsInterface device q) ↔ ∀ i < 24, device.Shows i) := by
  have hkeys : ∀ p q : PortNumber, Key.mplsInterface device p ≠ Key.mplsInterface device q ↔ device.TellsApart p q :=
    fun p q => by rw [ne_eq, Key.mplsInterface_inj, not_not]
  refine ⟨hkeys, ?_, ?_⟩
  · intro c d e p q hd he
    rw [Controller.skips_having_iff, hd, he, Key.mplsInterface_inj]
  · rw [← DeviceId.tellsApart_iff_shows]
    simp only [hkeys]

/-- the tunnel to port 8 is asked for, although the one to port 7 is there -/
theorem near_tunnels_apart :
    let d := { Sample.tunnel with key := Key.mplsInterface Sample.device ⟨8⟩, id := GroupId.mplsInterface ⟨8⟩ }
    d.key ≠ Sample.tunnel.key ∧ ¬(Sample.start.controller.having Sample.tunnel).Skips d := by
  intro d
  obtain ⟨hkeys, hskips, -⟩ := tunnels_apart_iff Sample.device
  have htell : Sample.device.TellsApart ⟨8⟩ ⟨7⟩ := ⟨0, by decide, .inl (by decide), by decide⟩
  refine ⟨(hkeys ⟨8⟩ ⟨7⟩).2 htell, ?_⟩
  rw [hskips Sample.start.controller d Sample.tunnel ⟨8⟩ ⟨7⟩ rfl rfl, not_or, not_not]
  exact ⟨by decide +kernel, htell⟩

namespace Sample

/-- one bucket that pushes a label on the way to port 519, of which the bits above the lowest eight do not show -/
def distant : Objective :=
  ⟨5, .hashed, [⟨[.pushMpls, .setMplsLabel ⟨100⟩, .setEthDst dst, .setVlanId ⟨10⟩, .output ⟨519⟩]⟩], ⟨"sample"⟩, none⟩

def distantPlan : Plan := ((Planner.mk device 1).build distant).1.toOption.get rfl

/-- every group that is asked for is confirmed; nobody asks for a tunnel -/
def distantInstalled : List Move :=
  [.handle (.request 0 (.install 1 distant distantPlan)), .work] ++ confirmed (Key.l2Interface device ⟨10⟩ ⟨519⟩) ++
    [.work, .work, .work, .work] ++ confirmedInTurn [Key.mplsL3Vpn 5 2, Key.l3Ecmp 5]

end Sample

/-- **Two tunnels under one key.** The ports 7 and 519 have tunnels with different ids under one key. The tunnel to port
7 is there when an objective is submitted that is carried to port 519. It is answered with success and nothing is
pending, but its tunnel is not on the device: the VPN group of its bucket points to a group that nobody asked for. -/
theorem tunnels_under_one_key :
    let m := Sample.start.run (Sample.labelledInstalled ++ Sample.distantInstalled)
    ((7 : UInt64).toNat < 2 ^ 24 ∧ (519 : UInt64).toNat < 2 ^ 24 ∧
        GroupId.mplsInterface ⟨7⟩ ≠ GroupId.mplsInterface ⟨519⟩ ∧
        Key.mplsInterface Sample.device ⟨7⟩ = Key.mplsInterface Sample.device ⟨519⟩) ∧
      Allowed (fun m move => move.Admissible Sample.device m) Sample.start
        (Sample.labelledInstalled ++ Sample.distantInstalled) ∧
      m.Idle ∧ m.controller.tracker.pendingKeys = [] ∧
      m.controller.replies = [⟨0, .installed (GroupId.l3Ecmp 4)⟩, ⟨1, .installed (GroupId.l3Ecmp 5)⟩] ∧
      (m.controller.group? (Key.mplsL3Vpn 5 2)).map (·.buckets) =
        some [⟨vpnTreatment ⟨100⟩ (GroupId.mplsInterface ⟨519⟩)⟩] ∧
      GroupId.mplsInterface ⟨519⟩ ∉ m.controller.switch.installedGroups.map (·.id) ∧
      m.controller.switch.requestedKeys = [] := by
  intro m
  have hlabelled : (Request.install 0 Sample.labelled (Sample.labelledPlan 1)).Planned Sample.device := ⟨0, rfl⟩
  have hdistant : (Request.install 1 Sample.distant Sample.distantPlan).Planned Sample.device := ⟨1, rfl⟩
  refine ⟨⟨by decide, by decide, by decide, by decide +kernel⟩, allowed_append.2 ⟨?_, ?_⟩, by decide +kernel,
    by decide +kernel, by decide +kernel, by decide +kernel, by decide +kernel, by decide +kernel⟩
  · exact ⟨⟨hlabelled, List.not_mem_nil⟩, allowed_admissible (by decide +kernel) _⟩
  · exact ⟨⟨hdistant, by decide +kernel⟩, allowed_admissible (by decide +kernel) _⟩

end FlowGroups
