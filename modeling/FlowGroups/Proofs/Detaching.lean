/-
Which bucket is removed when one is to go that leads to a port. The chains of the record are searched from the front for
one whose last group outputs to the port. The search ends there, even if the second group of this chain is missing; a
chain whose last group is missing is passed over.

- `first_chain_decides`: the first chain that leads to the port is detached if its second group is on the device, and
  otherwise the request is refused and nothing changes.
- `later_chain_not_tried`: the first chain of two waits for its second group, and so the other one is not detached.
-/
import FlowGroups.Proofs.Membership
import FlowGroups.Proofs.Deletion

namespace FlowGroups

/-! ## The search -/

namespace Controller

/-- the last group of a chain is on the device, and its first bucket outputs to a port -/
def Leads (c : Controller) (port : PortNumber) (chain : List Key) : Prop :=
  ∃ last d b, chain.getLast? = some last ∧ c.group? last = some d ∧ d.buckets.head? = some b ∧
    b.treatment.outputPort? = some port

/-- the group that the bucket for a chain points to, if it is on the device -/
def second? (c : Controller) (chain : List Key) : Option Descriptor := chain[1]?.bind c.group?

/-- chains cut at the first one that leads to a port -/
structure FirstLeads (c : Controller) (port : PortNumber) (chains before : List (List Key)) (chain : List Key)
    (after : List (List Key)) : Prop where
  split : chains = before ++ chain :: after
  passed : ∀ earlier ∈ before, ¬c.Leads port earlier
  leads : c.Leads port chain

variable {c : Controller} {port : PortNumber} {chains before after : List (List Key)} {chain : List Key}

theorem leads_iff : c.Leads port chain ↔ c.exitPort? chain = some port := by
  simp only [Leads, exitPort?, Option.bind_eq_bind, Option.bind_eq_some_iff]
  constructor
  · rintro ⟨last, d, b, hlast, hd, hb, hport⟩
    exact ⟨last, hlast, d, hd, b, hb, hport⟩
  · rintro ⟨last, hlast, d, hd, b, hb, hport⟩
    exact ⟨last, d, b, hlast, hd, hb, hport⟩

instance (c : Controller) (port : PortNumber) (chain : List Key) : Decidable (c.Leads port chain) :=
  decidable_of_iff _ leads_iff.symm

theorem Leads.ne_nil (h : c.Leads port chain) : chain ≠ [] := by
  rintro rfl
  obtain ⟨last, d, b, hlast, -⟩ := h
  cases hlast

theorem findChain?_of_leads (h : c.Leads port chain) :
    c.findChain? port (chain :: chains) = (c.second? chain).map fun d => (0, d.id) := by
  rw [findChain?, if_pos (leads_iff.1 h), second?]
  split
  · rename_i d hd
    rw [hd, Option.map_some]
  · rename_i hnone
    rw [hnone, Option.map_none]

theorem findChain?_of_not_leads (h : ¬c.Leads port chain) :
    c.findChain? port (chain :: chains) = (c.findChain? port chains).map fun (i, id) => (i + 1, id) := by
  rw [findChain?, if_neg fun hexit => h (leads_iff.2 hexit)]

/-- the first chain that leads to the port decides -/
theorem FirstLeads.findChain? (h : c.FirstLeads port chains before chain after) :
    c.findChain? port chains = (c.second? chain).map fun d => (before.length, d.id) := by
  obtain ⟨rfl, hpassed, hleads⟩ := h
  induction before with
  | nil => exact findChain?_of_leads hleads
  | cons earlier before ih =>
    have hrest := ih fun b hb => hpassed b (List.mem_cons_of_mem earlier hb)
    rw [List.cons_append, findChain?_of_not_leads (hpassed earlier List.mem_cons_self), hrest, Option.map_map]
    rfl

theorem findChain?_of_none (h : ∀ chain ∈ chains, ¬c.Leads port chain) : c.findChain? port chains = none := by
  induction chains with
  | nil => rfl
  | cons chain chains ih =>
    rw [findChain?_of_not_leads (h chain List.mem_cons_self),
      ih fun b hb => h b (List.mem_cons_of_mem chain hb), Option.map_none]

/-- where some chain leads to the port, one is the first -/
theorem exists_first_leads (h : ∃ chain ∈ chains, c.Leads port chain) :
    ∃ before chain after, c.FirstLeads port chains before chain after := by
  obtain ⟨chain, hchain, hleads⟩ := h
  obtain ⟨first, hfind⟩ : ∃ first, chains.find? (fun chain => c.Leads port chain) = some first :=
    Option.isSome_iff_exists.1 (List.find?_isSome.2 ⟨chain, hchain, decide_eq_true hleads⟩)
  obtain ⟨hfirst, before, after, hsplit, hpassed⟩ := List.find?_eq_some_iff_append.1 hfind
  exact ⟨before, first, after, hsplit, fun b hb => by simpa using hpassed b hb, of_decide_eq_true hfirst⟩

/-! ## The answer -/

/-- one chain is detached: its bucket is removed from the group on top, and the record has it no more -/
structure Detaches (c d : Controller) (ticket : Ticket) (o : Objective) (record : Record)
    (before after : List (List Key)) (top : Key) (pointed : GroupId) : Prop where
  replies : d.replies = c.replies ++ [⟨ticket, .installed (((c.group? top).map (·.id)).getD (GroupId.l3Ecmp o.id))⟩]
  switch : d.switch = c.switch.removeBuckets c.device top [Bucket.toGroup pointed]
  ops : d.switch.ops = c.switch.ops ++ [.removeBuckets top [Bucket.toGroup pointed]]
  record : d.store.get o.id = .ok (some { record with chains := before ++ after })
  others : ∀ n, n ≠ o.id → d.store.get n = c.store.get n
  rest : d = { c with switch := d.switch, store := d.store, replies := d.replies }

variable {ticket : Ticket} {o : Objective} {record : Record} {pointed : Descriptor}

theorem FirstLeads.detaches (hsound : c.store.Sound) (hs : c.store.get o.id = .ok (some record))
    (h : c.FirstLeads port record.chains before chain after) (hpointed : c.second? chain = some pointed)
    (ticket : Ticket) : ∃ top, chain.head? = some top ∧
      c.Detaches (c.removeBucket ticket o port) ticket o record before after top pointed.id := by
  obtain ⟨top, rest, rfl⟩ := List.exists_cons_of_ne_nil h.leads.ne_nil
  have hfound : c.findChain? port record.chains = some (before.length, pointed.id) := by
    rw [h.findChain?, hpointed, Option.map_some]
  have htop : record.chains[before.length]?.bind List.head? = some top := by
    rw [h.split, List.getElem?_append_right (Nat.le_refl _), Nat.sub_self]
    rfl
  have herase : record.chains.eraseIdx before.length = before ++ after := by
    rw [h.split, List.eraseIdx_append_of_length_le (Nat.le_refl _), Nat.sub_self, List.eraseIdx_zero, List.tail_cons]
  obtain ⟨hid, hfits⟩ := hsound.of_get hs
  have hleft : Record.Fits { record with chains := before ++ after } := herase ▸ hfits.eraseIdx before.length
  refine ⟨top, rfl, ?_⟩
  rw [removeBucket_eq hs hfound htop, herase]
  refine ⟨rfl, rfl, ?_, ?_, fun n hn => ?_, rfl⟩
  · rw [Switch.removeBuckets, Switch.ops_editBuckets]
    rfl
  · exact (Store.get_put hleft _ _).trans (if_pos hid.symm)
  · exact (Store.get_put hleft _ _).trans (if_neg fun he => hn (he.trans hid))

/-- where nothing is found, the request is refused -/
theorem removeBucket_of_not_found (hsound : c.store.Sound)
    (h : ∀ record, c.store.get o.id = .ok (some record) → c.findChain? port record.chains = none) :
    c.removeBucket ticket o port = c.fail ticket .missing := by
  rcases hsound o.id with hs | ⟨record, hs, -⟩
  · simp only [removeBucket, hs]
  · simp only [removeBucket, hs, h record hs]

/-- the success is one for the first chain that leads to the port -/
theorem replies_removeBucket_iff (hsound : c.store.Sound) :
    (∃ id, (c.removeBucket ticket o port).replies = c.replies ++ [⟨ticket, .installed id⟩]) ↔
      ∃ record before chain after pointed, c.store.get o.id = .ok (some record) ∧
        c.FirstLeads port record.chains before chain after ∧ c.second? chain = some pointed := by
  constructor
  · rintro ⟨id, hreplies⟩
    by_contra hnone
    simp only [not_exists, not_and] at hnone
    have hrefused : c.removeBucket ticket o port = c.fail ticket .missing := by
      refine removeBucket_of_not_found hsound fun record hs => ?_
      by_cases hsome : ∃ chain ∈ record.chains, c.Leads port chain
      · obtain ⟨before, chain, after, hfirst⟩ := exists_first_leads hsome
        rw [hfirst.findChain?, Option.map_eq_none_iff, Option.eq_none_iff_forall_ne_some]
        exact fun pointed => hnone record before chain after pointed hs hfirst
      · exact findChain?_of_none fun chain hchain hleads => hsome ⟨chain, hchain, hleads⟩
    rw [hrefused] at hreplies
    cases List.singleton_inj.1 (List.append_cancel_left hreplies)
  · rintro ⟨record, before, chain, after, pointed, hs, hfirst, hpointed⟩
    obtain ⟨top, -, hdetaches⟩ := hfirst.detaches hsound hs hpointed ticket
    exact ⟨_, hdetaches.replies⟩

end Controller

/-- all that is ever stored over a sound store can be read back -/
theorem Moment.sound_run {device : DeviceId} {delay : Nat} {switch : Switch} {store : Store} {metrics : Metrics}
    {moves : List Move} (hstore : store.Sound)
    (h : Allowed (fun m move => move.Admissible device m) (.start device delay switch store metrics) moves) :
    ((Moment.start device delay switch store metrics).run moves).controller.store.Sound := by
  have hp : ∀ q ∈ ((Moment.start device delay switch store metrics).run moves).accepted, q.Planned device :=
    Moment.planned_run h
  have hstart : Booked [] store (Moment.start device delay switch store metrics).accepted []
      (Moment.start device delay switch store metrics).controller := booked_start device delay switch store metrics
  exact Chronicle.sound (hstart.chronicle_run hp fun _ hr => hr) hp hstore

/-- **The first chain that leads to the port decides.** A request to remove the bucket for a port reaches a controller
between two handlers, whatever it was asked before and whatever the switch did. If the second group of the first chain
that leads to the port is on the device, the answer is a success: the switch is asked once, to remove the bucket that
points to this group from the first group of the chain, and the record loses this chain. If the second group is missing,
or if the objective has no record or no chain that leads to the port, the group chain is reported missing, and nothing
else changes. So the request succeeds if and only if some chain leads to the port and has its second group on the
device, unless the first chain that leads to the port is one without. -/
theorem first_chain_decides {device : DeviceId} {delay : Nat} {switch : Switch} {store : Store} {metrics : Metrics}
    {moves : List Move} (hstore : store.Sound)
    (h : Allowed (fun m move => move.Admissible device m) (.start device delay switch store metrics) moves) (now : Nat)
    (ticket : Ticket) (o : Objective) (port : PortNumber) :
    let m := (Moment.start device delay switch store metrics).run moves
    let c := m.controller
    let d := (m.step (.handle (.request now (.removeBucket ticket o port)))).controller
    m.Idle →
      (∀ record before chain after, c.store.get o.id = .ok (some record) →
        c.FirstLeads port record.chains before chain after →
          (∀ pointed, c.second? chain = some pointed →
            ∃ top, chain.head? = some top ∧ c.Detaches d ticket o record before after top pointed.id) ∧
          (c.second? chain = none → d = c.fail ticket .missing)) ∧
      ((∀ record, c.store.get o.id = .ok (some record) → ∀ chain ∈ record.chains, ¬c.Leads port chain) →
        d = c.fail ticket .missing) ∧
      ((∃ id, d.replies = c.replies ++ [⟨ticket, .installed id⟩]) ↔
        ∃ record, c.store.get o.id = .ok (some record) ∧
          (∃ chain ∈ record.chains, c.Leads port chain ∧ (c.second? chain).isSome) ∧
          ¬∃ before chain after, c.FirstLeads port record.chains before chain after ∧ c.second? chain = none) := by
  intro m c d hidle
  have hsound : c.store.Sound := Moment.sound_run hstore h
  have hd : d = c.removeBucket ticket o port := by
    simp only [d, Moment.step, if_pos hidle]
    rfl
  rw [hd]
  refine ⟨fun record before chain after hs hfirst => ⟨fun pointed hpointed => ?_, fun hnone => ?_⟩, fun hnone => ?_, ?_⟩
  · exact hfirst.detaches hsound hs hpointed ticket
  · refine Controller.removeBucket_of_not_found hsound fun stored hstored => ?_
    cases hs.symm.trans hstored
    rw [hfirst.findChain?, hnone, Option.map_none]
  · exact Controller.removeBucket_of_not_found hsound fun record hs => Controller.findChain?_of_none (hnone record hs)
  · rw [Controller.replies_removeBucket_iff hsound]
    constructor
    · rintro ⟨record, before, chain, after, pointed, hs, hfirst, hpointed⟩
      have hmem : chain ∈ record.chains := hfirst.split ▸ List.mem_append_right before List.mem_cons_self
      refine ⟨record, hs, ⟨chain, hmem, hfirst.leads, by rw [hpointed]; rfl⟩, ?_⟩
      rintro ⟨before', chain', after', hfirst', hnone⟩
      have hsame := hfirst.findChain?.symm.trans hfirst'.findChain?
      rw [hpointed, hnone] at hsame
      cases hsame
    · rintro ⟨record, hs, ⟨chain, hchain, hleads, -⟩, hopen⟩
      obtain ⟨before, first, after, hfirst⟩ := Controller.exists_first_leads ⟨chain, hchain, hleads⟩
      cases hpointed : c.second? first with
      | none => exact absurd ⟨before, first, after, hfirst, hpointed⟩ hopen
      | some pointed => exact ⟨record, before, first, after, pointed, hs, hfirst, hpointed⟩

namespace Sample

/-- a bucket through port 8 is added to the installed objective, and its groups are confirmed -/
def farInstalled : List Move := hashedInstalled ++ (.handle (.request 0 (.addBucket farAddition)) :: farConfirmed)

end Sample

/-- the chain through port 7 is passed over, and the one through port 8 is detached -/
theorem far_bucket_detached :
    let c := (Sample.start.run Sample.farInstalled).controller
    let d := ((Sample.start.run Sample.farInstalled).step
      (.handle (.request 0 (.removeBucket 2 Sample.far ⟨8⟩)))).controller
    ∃ record before chain, c.store.get 4 = .ok (some record) ∧ record.chains = before ++ [chain] ∧ before.length = 1 ∧
      c.Detaches d 2 Sample.far record before [] (Key.l3Ecmp 4) Sample.farOuter.id := by
  intro c d
  let record := (Sample.hashedPlan ⟨10⟩).record.append Sample.farAddition.plan.record
  let near := [Key.l3Ecmp 4, (Sample.outer ⟨10⟩).key, (Sample.inner ⟨10⟩).key]
  let chain := [Key.l3Ecmp 4, Sample.farOuter.key, Sample.farInner.key]
  have hadd : (Request.addBucket Sample.farAddition).Planned Sample.device := ⟨0, rfl⟩
  have h : Allowed (fun m move => move.Admissible Sample.device m) Sample.start Sample.farInstalled :=
    allowed_append.2 ⟨Sample.admissible_hashedInstalled, ⟨hadd, by decide +kernel⟩,
      allowed_admissible (by decide +kernel) _⟩
  have hidle : (Sample.start.run Sample.farInstalled).Idle := by decide +kernel
  have hrecord : c.store.get Sample.far.id = .ok (some record) := by decide +kernel
  have hfirst : c.FirstLeads ⟨8⟩ record.chains [near] chain [] := ⟨rfl, by decide +kernel, by decide +kernel⟩
  have hpointed : c.second? chain = some Sample.farOuter := by decide +kernel
  simp only [c, d] at hrecord hfirst hpointed ⊢
  unfold Sample.start at h hidle hrecord hfirst hpointed ⊢
  obtain ⟨hall, -, -⟩ := first_chain_decides Store.sound_empty h 0 2 Sample.far ⟨8⟩ hidle
  obtain ⟨top, htop, hdetaches⟩ := (hall record [near] chain [] hrecord hfirst).1 Sample.farOuter hpointed
  cases htop
  exact ⟨record, [near], chain, hrecord, rfl, rfl, hdetaches⟩

/-! ## A chain that is not tried -/

namespace Sample

/-- another way through port 8: the next hop is different, and the interface group the same -/
def detour : Objective :=
  ⟨4, .hashed, [⟨[.setEthDst dst', .setVlanId ⟨10⟩, .output ⟨8⟩]⟩], ⟨"sample"⟩, none⟩

def detourOuter : Descriptor :=
  detour.descriptor device .indirect [⟨⟨[.setEthDst dst', .setVlanId ⟨10⟩, .group farInner.id]⟩⟩]
    (Key.l3Unicast device .zero dst' ⟨8⟩) (GroupId.l3Unicast .zero dst' ⟨8⟩)

def detourAddition : Addition :=
  ⟨1, detour, detour.planEcmp device
    [⟨farInner, [.after detourOuter [farInner.key] false], detourOuter, [detourOuter.key, farInner.key]⟩] true⟩

/-- of the first bucket through port 8 only the interface group is confirmed; the second one is complete -/
def detoured : List Move :=
  hashedInstalled ++
    (.handle (.request 0 (.addBucket detourAddition)) :: .work :: confirmed farInner.key ++ [.work, .work]) ++
    (.handle (.request 0 (.addBucket { farAddition with ticket := 2 })) ::
      List.replicate 4 .work ++ confirmed farOuter.key ++ [.work, .work])

end Sample

/-- **A later chain is not tried.** Two buckets through port 8 are added, and both requests are answered with success.
The L3 unicast group of the first one is not confirmed yet, and all groups of the second one are. A request to remove
the bucket for port 8 is answered with a missing group chain, and nothing changes. -/
theorem later_chain_not_tried :
    let m := Sample.start.run Sample.detoured
    let c := m.controller
    let d := (m.step (.handle (.request 0 (.removeBucket 3 Sample.far ⟨8⟩)))).controller
    Allowed (fun m move => move.Admissible Sample.device m) Sample.start
        (Sample.detoured ++ [.handle (.request 0 (.removeBucket 3 Sample.far ⟨8⟩))]) ∧ m.Idle ∧
      (∃ record, c.store.get 4 = .ok (some record) ∧
        ∃ chain ∈ record.chains, c.Leads ⟨8⟩ chain ∧ (c.second? chain).isSome) ∧
      d.replies = c.replies ++ [⟨3, .failed .missing⟩] ∧ d.store = c.store ∧ d.switch = c.switch := by
  intro m c d
  let added : Addition := { Sample.farAddition with ticket := 2 }
  let record := ((Sample.hashedPlan ⟨10⟩).record.append Sample.detourAddition.plan.record).append added.plan.record
  have hdetour : (Request.addBucket Sample.detourAddition).Planned Sample.device := ⟨0, rfl⟩
  have hadd : (Request.addBucket added).Planned Sample.device := ⟨0, rfl⟩
  have hremove : (Request.removeBucket 3 Sample.far ⟨8⟩).Planned Sample.device := rfl
  have h : Allowed (fun m move => move.Admissible Sample.device m) Sample.start Sample.detoured :=
    allowed_append.2 ⟨allowed_append.2 ⟨Sample.admissible_hashedInstalled, ⟨hdetour, by decide +kernel⟩,
      allowed_admissible (by decide +kernel) _⟩, ⟨hadd, by decide +kernel⟩, allowed_admissible (by decide +kernel) _⟩
  refine ⟨allowed_append.2 ⟨h, ⟨hremove, by decide +kernel⟩, trivial⟩, by decide +kernel,
    ⟨record, by decide +kernel, [Key.l3Ecmp 4, Sample.farOuter.key, Sample.farInner.key], by decide +kernel,
      by decide +kernel, by decide +kernel⟩, by decide +kernel, by decide +kernel, by decide +kernel⟩

end FlowGroups
