/-
Objectives that share no group with others are served as if they were alone. A run in which every request belongs to
the share or does not is compared with the run of the share's moves only (`Share.prune`): one move keeps the two side by
side (`Moment.Mirrors.step`), and so does a run (`Moment.Mirrors.run`).

- `Mirrors.opening`: what a stimulus changes at once, it changes in the part just if it concerns the share.
- `others_do_not_interfere`: answers, records, groups and what is still on its way are those of the shorter run, but for
  the numbers of elements and objectives.
-/
import FlowGroups.Proofs.Shares

namespace FlowGroups

namespace Controller

variable {share : Share} {mine : Ticket → Bool} {c d : Controller} {k : Key} {b : Bool}

namespace Mirrors

/-! ## Requests -/

theorem withdraw (h : c.Mirrors share mine d) (hp : c.Parks share mine) (n : UInt32) :
    (c.withdraw n).Mirrors share mine (if share.objectives n then d.withdraw n else d) := by
  have hunpark := h.unpark n
  unfold Controller.withdraw
  cases ha : c.deferred.get? n with
  | none =>
    cases hn : share.objectives n with
    | true =>
      rw [if_pos rfl, ← h.parked hn, ha]
      exact h
    | false => exact h
  | some a =>
    obtain ⟨-, hlies⟩ := hp n a ha
    cases hn : share.objectives n with
    | true =>
      rw [hn] at hunpark hlies
      rw [if_pos rfl, ← h.parked hn, ha]
      exact hunpark.answer hlies.ticket _
    | false =>
      rw [hn] at hunpark hlies
      exact hunpark.answer hlies.ticket _

theorem giveUp (h : c.Mirrors share mine d) (hc : c.tracker.Consistent) (hs : c.tracker.Split share.keys)
    (hr : ∀ k r, c.tracker.Registered k r → r.Lies share mine (share.keys k)) (hp : c.Parks share mine) (n : UInt32) :
    (c.giveUp n).Mirrors share mine (if share.objectives n then d.giveUp n else d) := by
  obtain ⟨f, g, ht⟩ := h.tracker
  have hkeys : ∀ k r, c.tracker.Registered k r → r.objective.id = n → share.keys k = share.objectives n := by
    rintro k r hreg rfl
    exact (hr k r hreg).objective.symm
  have hlies : ∀ r ∈ (c.tracker.takeObjective n).2, r.Lies share mine (share.objectives r.objective.id) := by
    intro r hmem
    obtain ⟨-, k, hreg⟩ := Tracker.registered_of_taken hmem
    rw [(hr k r hreg).objective]
    exact hr k r hreg
  have hside : ∀ r ∈ (c.tracker.takeObjective n).2, share.objectives r.objective.id = share.objectives n :=
    fun r hmem => by rw [(Tracker.registered_of_taken hmem).1]
  have htaken := ht.takeObjective hc hs hkeys
  cases hn : share.objectives n with
  | true =>
    rw [hn] at htaken hside
    obtain ⟨hmirrors, hsame⟩ := htaken
    have hstart : { c with tracker := (c.tracker.takeObjective n).1 }.Mirrors share mine
        { d with tracker := (d.tracker.takeObjective n).1 } := { h with tracker := ⟨f, g, hmirrors⟩ }
    have hend := hstart.abandon hp hlies
    rw [List.filter_eq_self.2 hside, hsame] at hend
    rw [if_pos rfl, Controller.giveUp, Controller.giveUp, hsame]
    split_ifs
    · exact hstart
    · exact { hend with }
  | false =>
    rw [hn] at htaken hside
    have hstart : { c with tracker := (c.tracker.takeObjective n).1 }.Mirrors share mine d :=
      { h with tracker := ⟨f, g, htaken⟩ }
    have hend := hstart.abandon hp hlies
    rw [List.filter_eq_nil_iff.2 fun r hmem => by simp [hside r hmem]] at hend
    rw [if_neg Bool.false_ne_true, Controller.giveUp]
    split_ifs
    · exact hstart
    · exact { hend with }

theorem deleteStored (h : c.Mirrors share mine d) (hstored : c.store.Sound ∧ share.Stores c.store) {ticket : Ticket}
    {o : Objective} (ht : mine ticket = share.objectives o.id) :
    (c.deleteStored ticket o).Mirrors share mine (if share.objectives o.id then d.deleteStored ticket o else d) := by
  unfold Controller.deleteStored
  rcases hstored.1 o.id with hnone | ⟨existing, hsome, -⟩
  · have hfail := h.answer ht (.failed .missing)
    rw [hnone]
    cases ho : share.objectives o.id with
    | true =>
      rw [ho] at hfail
      rw [if_pos rfl, ← h.store o.id ho, hnone]
      exact hfail
    | false =>
      rw [ho] at hfail
      exact hfail
  · have hkeys := hstored.2 o.id existing hsome
    have hremove := h.store.remove o.id
    have hreplies := (h.answer ht .removed).replies
    have hrequested : (c.requested.filter fun k => k ∉ existing.distinctKeys).filter share.keys =
        if share.objectives o.id then d.requested.filter fun k => k ∉ existing.distinctKeys else d.requested :=
      h.unmark fun k hk => hkeys k (not_not.1 (of_decide_eq_false hk))
    rw [hsome]
    simp only [foldl_removeGroup]
    cases ho : share.objectives o.id with
    | true =>
      rw [ho] at hremove hreplies hrequested
      have hswitch : (c.switch.removeGroups c.device existing.distinctKeys).Agrees share.keys
          (d.switch.removeGroups d.device existing.distinctKeys) := by
        rw [h.device]
        exact h.switch.removeGroups _ _
      rw [if_pos rfl, ← h.store o.id ho, hsome]
      exact { h with requested := hrequested, switch := hswitch, store := hremove, replies := hreplies }
    | false =>
      rw [ho] at hkeys hremove hreplies hrequested
      have hswitch := (Switch.Agrees.removeGroups_other c.device hkeys).trans h.switch
      exact { h with requested := hrequested, switch := hswitch, store := hremove, replies := hreplies }

theorem remove (h : c.Mirrors share mine d) (hc : c.tracker.Consistent) (hs : c.tracker.Split share.keys)
    (hr : ∀ k r, c.tracker.Registered k r → r.Lies share mine (share.keys k)) (hp : c.Parks share mine)
    (hstored : c.store.Sound ∧ share.Stores c.store) {ticket : Ticket} {o : Objective}
    (ht : mine ticket = share.objectives o.id) :
    (c.remove ticket o).Mirrors share mine (if share.objectives o.id then d.remove ticket o else d) := by
  obtain ⟨-, -, htracker, hdeferred⟩ := c.withdraw_spares o.id
  have hwithdraw := h.withdraw hp o.id
  have hgiveUp := hwithdraw.giveUp (htracker ▸ hc) (htracker ▸ hs) (htracker ▸ hr)
    (fun n a ha => hp n a (hdeferred n a ha).2) o.id
  have hstore : ((c.withdraw o.id).giveUp o.id).store = c.store := (store_giveUp _ _).trans (store_withdraw c o.id)
  have hdelete := hgiveUp.deleteStored (hstore ▸ hstored) ht
  rw [remove_eq]
  cases ho : share.objectives o.id with
  | true =>
    rw [ho] at hdelete
    rw [if_pos rfl, remove_eq]
    exact hdelete
  | false =>
    rw [ho] at hdelete
    exact hdelete

theorem install (h : c.Mirrors share mine d) (hc : c.tracker.Consistent) (ht : c.tracker.Timed) {p : Plan}
    (hp : p.Lies share.keys b) (hd : ∀ e ∈ p.elements, e.waitOn.Nodup) (now : Nat) (ticket : Ticket) (o : Objective) :
    Tracks share mine (c.opening (.request now (.install ticket o p)))
      (if b then d.opening (.request now (.install ticket o p)) else (d, [])) := by
  obtain ⟨f, g, htracker⟩ := h.tracker
  have hwait : ∀ e ∈ p.elements, ∀ k ∈ e.waitOn, share.keys k = share.keys p.topKey := fun e he k hk => by
    rw [hp.top, hp.elements e he k (List.mem_cons_of_mem _ hk)]
  have hpart := Share.part_plan hp (p.elements.filter fun e => e.waitOn = []) fun e => List.mem_of_mem_filter
  rw [opening_install, opening_install, Tracker.ready_registerAll, Tracker.ready_registerAll]
  cases b with
  | true =>
    have hregistered := htracker.registerObjective_mine ht hp.top ⟨ticket, o, p.record, p.topId⟩ now
    exact ⟨{ h with tracker := ⟨f, g, (hregistered.registerAll_mine hp.top hwait).1⟩ }, hpart⟩
  | false =>
    have hregistered := htracker.registerObjective_other ht hp.top ⟨ticket, o, p.record, p.topId⟩ now
    obtain ⟨f', hmirrors⟩ := hregistered.registerAll_other (hc.congr rfl rfl rfl) hp.top hd hwait
    exact ⟨{ h with tracker := ⟨f', _, hmirrors⟩ }, hpart⟩

/-- a bucket for an objective that is not stored -/
theorem keepBucket (h : c.Mirrors share mine d)
    (hr : ∀ k r, c.tracker.Registered k r → r.Lies share mine (share.keys k)) {a : Addition}
    (ha : a.Lies share mine b) (hnone : c.store.get a.objective.id = .ok none)
    (hnone' : b = true → d.store.get a.objective.id = .ok none) :
    (c.addBucket a).Mirrors share mine (if b then d.addBucket a else d) := by
  have hfail := fun e => h.answer ha.ticket (.failed e)
  have hinsert := Registry.restrict_insert (p := share.objectives) (r := c.deferred) a.objective.id a
  rw [ha.objective, h.deferred] at hinsert
  cases b with
  | true =>
    obtain ⟨f, g, ht⟩ := h.tracker
    have hkeys : ∀ k r, c.tracker.Registered k r → r.objective.id = a.objective.id → share.keys k = true :=
      fun k r hreg hn => by rw [← (hr k r hreg).objective, hn, ha.objective]
    have hsame : c.deferred.contains a.objective.id = d.deferred.contains a.objective.id := by
      rw [Registry.contains_eq_isSome, Registry.contains_eq_isSome, h.parked ha.objective]
    simp only [Controller.addBucket, hnone, hnone' rfl, ht.hasObjective hkeys, hsame]
    split_ifs
    · exact hfail _
    · exact { h with deferred := hinsert }
    · exact hfail _
  | false =>
    rw [if_neg Bool.false_ne_true]
    simp only [Controller.addBucket, hnone]
    split_ifs
    · exact hfail _
    · exact { h with deferred := hinsert }
    · exact hfail _

theorem addBucket (h : c.Mirrors share mine d) (hc : c.tracker.Consistent)
    (hr : ∀ k r, c.tracker.Registered k r → r.Lies share mine (share.keys k)) (hsound : c.store.Sound) {a : Addition}
    (ha : a.Lies share mine b) (now : Nat) :
    Tracks share mine (c.opening (.request now (.addBucket a)))
      (if b then d.opening (.request now (.addBucket a)) else (d, [])) := by
  have hstore : b = true → d.store.get a.objective.id = c.store.get a.objective.id := fun hb =>
    (h.store _ (ha.objective.trans hb)).symm
  rcases hsound a.objective.id with hnone | ⟨existing, hsome, hown, hfits⟩
  · have hkept := h.keepBucket hr ha hnone fun hb => (hstore hb).trans hnone
    rw [opening_addBucket fun existing => by simp [hnone]]
    cases b with
    | true =>
      rw [if_pos rfl, opening_addBucket fun existing => by simp [hstore rfl, hnone]]
      exact ⟨hkept, rfl⟩
    | false => exact ⟨hkept, rfl⟩
  · have hextend := h.extend hc ha hown hfits
    cases b with
    | true =>
      simp only [opening, hstore rfl, hsome, if_true]
      exact hextend
    | false =>
      simp only [opening, hsome]
      exact hextend

theorem findChain? (h : c.Mirrors share mine d) (port : PortNumber) {chains : List (List Key)}
    (hk : ∀ chain ∈ chains, ∀ k ∈ chain, share.keys k = true) :
    c.findChain? port chains = d.findChain? port chains := by
  induction chains with
  | nil => rfl
  | cons chain chains ih =>
    have hmine := hk chain List.mem_cons_self
    have hexit : c.exitPort? chain = d.exitPort? chain := by
      unfold exitPort?
      cases hlast : chain.getLast? with
      | none => rfl
      | some last =>
        have hgroup := h.group? (hmine last (List.mem_of_getLast? hlast))
        simp only [Option.bind_eq_bind, Option.bind_some, hgroup]
    have hpointed : chain[1]?.bind c.group? = chain[1]?.bind d.group? := by
      cases hsecond : chain[1]? with
      | none => rfl
      | some second => exact h.group? (hmine second (List.mem_of_getElem? hsecond))
    have hrest := ih fun chain' hmem => hk chain' (List.mem_cons_of_mem chain hmem)
    simp only [Controller.findChain?, hexit, hpointed, hrest]

theorem removeBucket_mine (h : c.Mirrors share mine d) (hstored : c.store.Sound ∧ share.Stores c.store)
    {ticket : Ticket} {o : Objective} (ht : mine ticket = true) (ho : share.objectives o.id = true)
    (port : PortNumber) : (c.removeBucket ticket o port).Mirrors share mine (d.removeBucket ticket o port) := by
  have hmissing := h.answer ht (.failed .missing)
  unfold Controller.removeBucket
  rw [← h.store o.id ho]
  rcases hstored.1 o.id with hnone | ⟨existing, hsome, hown, hfits⟩
  · rw [hnone]
    exact hmissing
  · have hkeys : ∀ chain ∈ existing.chains, ∀ k ∈ chain, share.keys k = true := fun chain hchain k hk =>
      (hstored.2.of_chain hsome hchain hk).trans ho
    rw [hsome]
    simp only [← h.findChain? port hkeys]
    split
    · exact hmissing
    · split
      · exact hmissing
      · rename_i i pointed _ _ top hhead
        have htop : share.keys top = true := (hstored.2.of_head hsome hhead).trans ho
        have hobjective : share.objectives existing.objective = true := by rw [hown, ho]
        rw [h.group? htop, h.device]
        exact { h with
          device := rfl
          switch := h.switch.removeBuckets d.device htop _
          store := h.store.put (hfits.eraseIdx i) hobjective
          replies := (h.answer ht _).replies }

theorem removeBucket_other (h : c.Mirrors share mine d) (hstored : c.store.Sound ∧ share.Stores c.store)
    {ticket : Ticket} {o : Objective} (ht : mine ticket = false) (ho : share.objectives o.id = false)
    (port : PortNumber) : (c.removeBucket ticket o port).Mirrors share mine d := by
  have hmissing := h.answer ht (.failed .missing)
  unfold Controller.removeBucket
  rcases hstored.1 o.id with hnone | ⟨existing, hsome, hown, hfits⟩
  · rw [hnone]
    exact hmissing
  · rw [hsome]
    simp only
    split
    · exact hmissing
    · split
      · exact hmissing
      · rename_i i pointed _ _ top hhead
        have htop : share.keys top = false := (hstored.2.of_head hsome hhead).trans ho
        have hobjective : share.objectives existing.objective = false := by rw [hown, ho]
        exact { h with
          switch := (Switch.Agrees.removeBuckets_other c.device htop _).trans h.switch
          store := h.store.put (hfits.eraseIdx i) hobjective
          replies := (h.answer ht (.installed _)).replies }

end Mirrors
end Controller

/-- a stimulus concerns a share if its objective or its key belongs to it; a sweep and the time concern everybody -/
def Stimulus.concerns (share : Share) : Stimulus → Bool
  | .request _ r => share.objectives r.objective.id
  | .event e => share.keys e.key
  | .sweep => true
  | .expire _ => true

namespace Controller.Mirrors

variable {share : Share} {mine : Ticket → Bool} {c d : Controller} {device : DeviceId} {acc : List Request}

theorem sweep (h : c.Mirrors share mine d) : Tracks share mine (c.opening .sweep) (d.opening .sweep) := by
  obtain ⟨f, g, ht⟩ := h.tracker
  refine ⟨h, ?_⟩
  have hfound : (c.tracker.pendingKeys.filter fun k => (c.group? k).isSome).filter share.keys =
      d.tracker.pendingKeys.filter fun k => (d.group? k).isSome := by
    have hgroup : ∀ k ∈ c.tracker.pendingKeys.filter share.keys, (c.group? k).isSome = (d.group? k).isSome :=
      fun k hk => by rw [h.group? (List.mem_filter.1 hk).2]
    calc (c.tracker.pendingKeys.filter fun k => (c.group? k).isSome).filter share.keys
        = (c.tracker.pendingKeys.filter share.keys).filter fun k => (c.group? k).isSome := by
          simp only [List.filter_filter, Bool.and_comm]
      _ = (c.tracker.pendingKeys.filter share.keys).filter fun k => (d.group? k).isSome := List.filter_congr hgroup
      _ = d.tracker.pendingKeys.filter fun k => (d.group? k).isSome := by rw [ht.pendingKeys]
  simp only [opening, ← hfound]
  exact List.filter_map

theorem request (h : c.Mirrors share mine d) (hf : c.Fair share mine) (hd : share.Divides device mine acc) {r : Request}
    (hr : r ∈ acc) (now : Nat) :
    Tracks share mine (c.opening (.request now r))
      (if share.objectives r.objective.id then d.opening (.request now r) else (d, [])) := by
  cases r with
  | install ticket o p =>
    have hlies : p.Lies share.keys (share.objectives o.id) := hd.splits _ hr p rfl
    exact h.install hf.consistent hf.timed hlies ((hd.planned _ hr).wellFormed rfl).distinct now ticket o
  | addBucket a => exact h.addBucket hf.consistent hf.registered hf.stored.1 (hd.addition hr) now
  | removeBucket ticket o port =>
    have ht : mine ticket = share.objectives o.id := hd.tickets _ hr
    change Tracks share mine _ (if share.objectives o.id then _ else _)
    split_ifs with ho
    · exact ⟨h.removeBucket_mine hf.stored (ht.trans ho) ho port, rfl⟩
    · rw [Bool.not_eq_true] at ho
      exact ⟨h.removeBucket_other hf.stored (ht.trans ho) ho port, rfl⟩
  | remove ticket o =>
    have ht : mine ticket = share.objectives o.id := hd.tickets _ hr
    have hremove := h.remove hf.consistent hf.split hf.registered hf.parks hf.stored ht
    change Tracks share mine _ (if share.objectives o.id then _ else _)
    split_ifs at hremove ⊢ <;> exact ⟨hremove, rfl⟩

/-- **What a stimulus changes at once**, it changes in the part just if it concerns the share. -/
theorem opening (h : c.Mirrors share mine d) (hf : c.Fair share mine) (hd : share.Divides device mine acc)
    {s : Stimulus} (hs : ∀ r, s.request? = some r → r ∈ acc) :
    Tracks share mine (c.opening s) (if s.concerns share then d.opening s else (d, [])) := by
  cases s with
  | request now r => exact h.request hf hd (hs r rfl) now
  | event e =>
    obtain ⟨kind, k⟩ := e
    have hrelease := h.release k
    have hconcerns : (Stimulus.event ⟨kind, k⟩).concerns share = share.keys k := rfl
    rw [hconcerns]
    cases hk : share.keys k with
    | true =>
      rw [hk] at hrelease
      cases kind with
      | added => exact ⟨h, by simp [Controller.opening, Share.part, Work.key, hk]⟩
      | error => exact ⟨h, rfl⟩
      | removed => exact ⟨hrelease, rfl⟩
    | false =>
      rw [hk] at hrelease
      cases kind with
      | added => exact ⟨h, by simp [Controller.opening, Share.part, Work.key, hk]⟩
      | error => exact ⟨h, rfl⟩
      | removed => exact ⟨hrelease, rfl⟩
  | sweep => exact h.sweep
  | expire now => exact ⟨h.expire hf.consistent hf.timed hf.split hf.registered hf.parks now, rfl⟩

end Controller.Mirrors

/-! ## What is known along a run -/

namespace Share

variable {share : Share} {device : DeviceId} {mine : Ticket → Bool} {acc : List Request}

/-- elements come with their plans, which belong to the share or do not -/
theorem lasting_split (share : Share) : Lasting share.Splits (Tracker.Split share.keys) where
  register t r p hr hp h := by
    have hlies := hr p hp
    intro w hw k hk
    rcases Tracker.of_mem_waiting_registerAll t p.topKey p.elements w hw with hw | ⟨hmem, howner⟩
    · exact h w hw k hk
    · rw [howner, hlies.top]
      exact hlies.elements _ hmem k hk
  install _ _ _ _ _ _ h := h
  advance t k ids _ h := by
    intro v hv
    obtain ⟨w, hw, rfl, -⟩ := Tracker.mem_waiting_advance hv
    have hsame : (Tracker.countDown ids w).element = w.element ∧ (Tracker.countDown ids w).owner = w.owner := by
      unfold Tracker.countDown
      split <;> exact ⟨rfl, rfl⟩
    rw [hsame.1, hsame.2]
    exact h w hw
  discharge _ _ h := h
  expire _ now h :=
    Tracker.expire_keeps (P := Tracker.Split share.keys)
      (fun _ _ hs => hs.mono fun _ hw => (Tracker.mem_waiting_purge.1 hw).1) (fun _ _ hs => hs) h now
  take _ n h := h.mono fun _ hw => (Tracker.waiting_takeObjective hw).1

/-- what is written belongs to the share or does not, as the request does that is answered -/
theorem Divides.hereditary (hd : share.Divides device mine acc) :
    Hereditary acc fun n r => ∀ k ∈ r.distinctKeys, share.keys k = share.objectives n where
  installed ticket o p hr k hk := by
    have hlies : p.Lies share.keys (share.objectives o.id) := hd.splits _ hr p rfl
    exact hlies.record k hk
  extended a r hr hid hall k hk := by
    have hlies : a.plan.Lies share.keys (share.objectives a.objective.id) := hd.splits _ hr a.plan rfl
    simp only [Record.distinctKeys, Record.append, List.flatten_append, List.mem_eraseDups, List.mem_append] at hk
    rcases hk with hk | hk
    · exact hall k (List.mem_eraseDups.2 hk)
    · rw [hid]
      exact hlies.record k (List.mem_eraseDups.2 hk)
  shortened r i hall k hk := by
    obtain ⟨chain, hchain, hk⟩ := List.mem_flatten.1 (List.mem_eraseDups.1 hk)
    exact hall k (List.mem_eraseDups.2 (List.mem_flatten.2 ⟨chain, List.mem_of_mem_eraseIdx hchain, hk⟩))

/-- what is known all along a run in which every request belongs to the share or does not -/
structure Known (share : Share) (device : DeviceId) (m : Moment) : Prop where
  founded : Founded (fun _ => True) device m.accepted m.controller m.queue
  booked : ∃ initial, Booked [] initial m.accepted [] m.controller
  timed : m.controller.tracker.Timed
  split : m.controller.tracker.Split share.keys
  stored : m.controller.store.Sound ∧ share.Stores m.controller.store

variable {m : Moment}

theorem Known.step (h : share.Known device m) {move : Move} (ha : move.Admissible device m)
    (hd : share.Divides device mine (m.step move).accepted) : share.Known device (m.step move) where
  founded := h.founded.step_any ha
  booked := h.booked.imp fun _ hb => hb.step move
  timed := (Tracker.lasting_timed fun _ => True).step h.founded.deferred (fun _ _ => trivial) h.timed
  split := (lasting_split share).step h.founded.deferred hd.splits h.split
  stored := by
    obtain ⟨initial, hb⟩ := h.booked
    exact (Moment.chronicle_step h.founded.planned hb move).all hd.planned hd.hereditary h.stored

theorem Divides.mono {acc' : List Request} (h : share.Divides device mine acc) (hsub : ∀ r ∈ acc', r ∈ acc) :
    share.Divides device mine acc' :=
  ⟨fun r hr => h.planned r (hsub r hr), fun r hr => h.splits r (hsub r hr), fun r hr => h.tickets r (hsub r hr)⟩

theorem Known.fair (h : share.Known device m) (hd : share.Divides device mine m.accepted) :
    m.controller.Fair share mine where
  consistent := h.founded.consistent
  timed := h.timed
  split := h.split
  registered k r hr := by
    obtain ⟨initial, hb⟩ := h.booked
    exact hd.registrant (hb.registered k r hr)
  parks n a ha := by
    obtain ⟨initial, hb⟩ := h.booked
    obtain ⟨hmem, rfl⟩ := hb.deferred n a ha
    exact ⟨rfl, hd.addition hmem⟩
  stored := h.stored

theorem known_start (device : DeviceId) (delay : Nat) (switch : Switch) {store : Store} (metrics : Metrics)
    (h : store.Sound ∧ share.Stores store) : share.Known device (.start device delay switch store metrics) where
  founded := founded_start _ device delay switch store metrics
  booked := ⟨store, booked_start device delay switch store metrics⟩
  timed := Tracker.timed_fresh delay
  split := fun _ hw => absurd hw List.not_mem_nil
  stored := h

end Share

/-! ## Two runs -/

namespace Share

/-- is the next move one of the share's? -/
def takes (share : Share) (m : Moment) : Move → Bool
  | .work => m.queue.head?.all fun w => share.keys w.key
  -- a handler that cannot begin yet is nobody's
  | .handle s => decide m.Idle && s.concerns share
  | .switch sm => sm.concerns share.keys

/-- the moves of a run that are the share's -/
def prune (share : Share) : Moment → List Move → List Move
  | _, [] => []
  | m, move :: moves =>
    if share.takes m move then move :: share.prune (m.step move) moves else share.prune (m.step move) moves

end Share

/-- a moment beside one of a run with only the share's moves -/
structure Moment.Mirrors (share : Share) (mine : Ticket → Bool) (m n : Moment) : Prop where
  controller : m.controller.Mirrors share mine n.controller
  queue : share.part m.queue = n.queue
  accepted : m.accepted.filter (fun r => share.objectives r.objective.id) = n.accepted

namespace Moment.Mirrors

variable {share : Share} {mine : Ticket → Bool} {device : DeviceId} {m n : Moment}

theorem start (share : Share) (mine : Ticket → Bool) (device : DeviceId) (delay : Nat) (switch : Switch) (store : Store)
    (metrics : Metrics) :
    (Moment.start device delay switch store metrics).Mirrors share mine (.start device delay switch store metrics) where
  controller :=
    { device := rfl
      tracker := ⟨id, id, strictMono_id, strictMono_id, fun _ => rfl, fun _ => rfl, rfl⟩
      requested := rfl
      deferred := rfl
      switch := .refl _ _
      store := fun _ _ => rfl
      replies := rfl
      running := ⟨rfl, rfl⟩ }
  queue := rfl
  accepted := rfl

theorem work (h : m.Mirrors share mine n) (hf : m.controller.Fair share mine) :
    (m.step .work).Mirrors share mine (if share.takes m .work then n.step .work else n) := by
  have hqueue := h.queue
  rcases hm : m.queue with - | ⟨w, ws⟩
  · have hn : n.queue = [] := by rw [← hqueue, hm]; rfl
    have htakes : share.takes m .work = true := by simp [Share.takes, hm]
    rw [if_pos htakes, step_work_nil hm, step_work_nil hn]
    exact { h with controller := { h.controller with } }
  · obtain ⟨hprocess, hpart⟩ := h.controller.process hf.consistent hf.split hf.registered hf.parks w
    have htakes : share.takes m .work = share.keys w.key := by simp [Share.takes, hm]
    rw [htakes, step_work hm]
    cases hw : share.keys w.key with
    | true =>
      rw [hw] at hprocess hpart
      have hn : n.queue = w :: share.part ws := by
        rw [← hqueue, hm]
        exact List.filter_cons_of_pos hw
      rw [if_pos rfl, step_work hn]
      exact ⟨hprocess, by rw [Share.part_append, hpart]; rfl, h.accepted⟩
    | false =>
      rw [hw] at hprocess hpart
      have hn : n.queue = share.part ws := by
        rw [← hqueue, hm]
        exact List.filter_cons_of_neg (by simp [hw])
      -- an item of others leaves no work for the share
      refine ⟨hprocess, ?_, h.accepted⟩
      rw [if_neg Bool.false_ne_true, hn, Share.part_append, hpart]
      exact List.append_nil _

theorem idle (h : m.Mirrors share mine n) (hm : m.Idle) : n.Idle := by
  refine ⟨?_, h.controller.running.2⟩
  rw [← h.queue, hm.1]
  rfl

theorem handle (h : m.Mirrors share mine n) (hf : m.controller.Fair share mine) {s : Stimulus}
    (hd : share.Divides device mine (m.step (.handle s)).accepted) :
    (m.step (.handle s)).Mirrors share mine (if share.takes m (.handle s) then n.step (.handle s) else n) := by
  by_cases hm : m.Idle
  · have hn := h.idle hm
    simp only [step, if_pos hm, if_pos hn] at hd ⊢
    obtain ⟨hopening, hpart⟩ := h.controller.opening hf hd (s := s) fun r hr =>
      List.mem_append_right _ (Option.mem_toList.2 hr)
    have haccepted : (m.begin s).accepted.filter (fun r => share.objectives r.objective.id) =
        n.accepted ++ if s.concerns share then s.request?.toList else [] := by
      rw [← h.accepted]
      simp only [begin, List.filter_append]
      cases s with
      | request now r =>
        by_cases hr : share.objectives r.objective.id = true <;> simp [Stimulus.request?, Stimulus.concerns, hr]
      | _ => simp [Stimulus.request?]
    simp only [Share.takes, decide_eq_true hm, Bool.true_and]
    cases hs : s.concerns share with
    | true =>
      rw [hs] at hopening hpart haccepted
      exact ⟨hopening, hpart, haccepted⟩
    | false =>
      rw [hs] at hopening hpart haccepted
      exact ⟨hopening, hpart.trans hn.1.symm, haccepted.trans (List.append_nil _)⟩
  · simp only [step, Share.takes, if_neg hm, decide_eq_false hm, Bool.false_and]
    exact h

/-- **One move**, which the other run makes only if it is the share's. -/
theorem step (h : m.Mirrors share mine n) (hf : m.controller.Fair share mine) {move : Move}
    (hd : share.Divides device mine (m.step move).accepted) :
    (m.step move).Mirrors share mine (if share.takes m move then n.step move else n) := by
  cases move with
  | work => exact h.work hf
  | handle s => exact h.handle hf hd
  | switch sm =>
    have htakes : share.takes m (.switch sm) = sm.concerns share.keys := rfl
    rw [htakes]
    cases hs : sm.concerns share.keys with
    | true =>
      have hswitch := h.controller.switch.move hs
      exact { h with controller := { h.controller with switch := hswitch } }
    | false =>
      have hswitch := (Switch.Agrees.move_other hs).trans h.controller.switch
      exact { h with controller := { h.controller with switch := hswitch } }

/-- the other run may make the same move -/
theorem admissible (h : m.Mirrors share mine n) {move : Move} (ha : move.Admissible device m) :
    move.Admissible device n := by
  cases move with
  | handle s =>
    cases s with
    | request now r =>
      refine ⟨ha.1, fun hticket => ha.2 ?_⟩
      rw [← h.accepted] at hticket
      exact (List.filter_sublist.map Request.ticket).subset hticket
    | _ => trivial
  | _ => trivial

/-- **A run**, and the other one, which makes only the share's moves. -/
theorem run {moves : List Move} (h : m.Mirrors share mine n) (hk : share.Known device m)
    (ha : Allowed (fun m move => move.Admissible device m) m moves)
    (hd : share.Divides device mine (m.run moves).accepted) :
    (m.run moves).Mirrors share mine (n.run (share.prune m moves)) ∧
      Allowed (fun m move => move.Admissible device m) n (share.prune m moves) := by
  -- the longer run decides which moves are left out, so the induction is on its moves
  induction moves generalizing m n with
  | nil => exact ⟨h, trivial⟩
  | cons move moves ih =>
    have hstep : share.Divides device mine (m.step move).accepted := hd.mono fun r hr => accepted_run hr moves
    have hbefore : share.Divides device mine m.accepted := hstep.mono fun r hr => accepted_step hr move
    have hone := h.step (hk.fair hbefore) hstep
    obtain ⟨hrest, hallowed⟩ := ih hone (hk.step ha.1 hstep) ha.2 hd
    rw [Share.prune]
    split_ifs at hrest hallowed ⊢
    · exact ⟨hrest, h.admissible ha.1, hallowed⟩
    · exact ⟨hrest, hallowed⟩

end Moment.Mirrors

/-! ## Independence -/

/-- a ticket tells whether a request is among some of those accepted -/
theorem Moment.Distinct.ticket_iff {m : Moment} (h : m.Distinct) {q : Request → Bool} {r : Request}
    (hr : r ∈ m.accepted) : r.ticket ∈ (m.accepted.filter q).map Request.ticket ↔ q r = true := by
  rw [List.mem_map]
  constructor
  · rintro ⟨r', hr', hticket⟩
    obtain ⟨hmem, hq⟩ := List.mem_filter.1 hr'
    obtain rfl := List.inj_on_of_nodup_map h hmem hr hticket
    exact hq
  · exact fun hq => ⟨r, List.mem_filter.2 ⟨hr, hq⟩, rfl⟩

/-- what two moments have of a share is the same, but for the numbers of elements and objectives -/
structure Share.Same (share : Share) (m n : Moment) : Prop where
  accepted : m.accepted.filter (fun r => share.objectives r.objective.id) = n.accepted
  replies : m.controller.replies.filter (fun reply => reply.ticket ∈ n.accepted.map Request.ticket) =
    n.controller.replies
  records : ∀ id, share.objectives id = true → m.controller.store.get id = n.controller.store.get id
  groups : m.controller.switch.Agrees share.keys n.controller.switch
  tracker : ∃ f g, StrictMono f ∧ StrictMono g ∧
    m.controller.tracker.restrict share.keys = n.controller.tracker.rename f g
  requested : m.controller.requested.filter share.keys = n.controller.requested
  deferred : m.controller.deferred.restrict share.objectives = n.controller.deferred
  queue : share.part m.queue = n.queue

/-- **Independent objectives do not interfere.** Take any run in which each request that is accepted belongs to a share
with its objective and all keys of its plan, or with none of them, and likewise each record that was stored before.
Leave out the moves that are not the share's: the requests for other objectives, the work, confirmations and rejections
of other keys and the events about them. That is a run too, and it ends with the same answers to the share's requests,
the same records, the same groups on the switch, and the same entries of the tracker, but for the numbers in these. -/
theorem others_do_not_interfere {device : DeviceId} {delay : Nat} {switch : Switch} {store : Store} {metrics : Metrics}
    {moves : List Move} {share : Share}
    (h : Allowed (fun m move => move.Admissible device m) (.start device delay switch store metrics) moves)
    (hsplits : ∀ r ∈ ((Moment.start device delay switch store metrics).run moves).accepted, share.Splits r)
    (hstore : store.Sound ∧ share.Stores store) :
    let start := Moment.start device delay switch store metrics
    let kept := share.prune start moves
    Allowed (fun m move => move.Admissible device m) start kept ∧ share.Same (start.run moves) (start.run kept) := by
  intro start kept
  -- tickets are all different, so an answer is the share's just if its ticket is that of one of these requests
  let mine : Ticket → Bool := fun ticket =>
    ticket ∈ ((start.run moves).accepted.filter fun r => share.objectives r.objective.id).map Request.ticket
  have hknown : share.Known device start := Share.known_start device delay switch metrics hstore
  have hbooked : Booked [] store start.accepted [] start.controller := booked_start device delay switch store metrics
  obtain ⟨-, hdistinct⟩ := hbooked.run List.nodup_nil h
  have hplanned : ∀ r ∈ (start.run moves).accepted, r.Planned device :=
    h.keeps (P := fun m => ∀ r ∈ m.accepted, r.Planned device) (fun _ _ hmove hm => Moment.planned_step hm hmove)
      (by simp [Moment.start])
  have htickets : ∀ r ∈ (start.run moves).accepted, mine r.ticket = share.objectives r.objective.id := by
    intro r hr
    rw [Bool.eq_iff_iff, decide_eq_true_iff]
    exact hdistinct.ticket_iff hr
  have hd : share.Divides device mine (start.run moves).accepted := ⟨hplanned, hsplits, htickets⟩
  obtain ⟨hend, hallowed⟩ := (Moment.Mirrors.start share mine device delay switch store metrics).run hknown h hd
  obtain ⟨f, g, ht⟩ := hend.controller.tracker
  refine ⟨hallowed, hend.accepted, ?_, hend.controller.store, hend.controller.switch,
    ⟨f, g, ht.ids, ht.generations, ht.same⟩, hend.controller.requested, hend.controller.deferred, hend.queue⟩
  rw [← hend.accepted]
  exact hend.controller.replies

namespace Sample

/-- another objective comes first; then both wait, and a sweep finds a group of each -/
def interleaved : List Move :=
  [otherRequest, .work, .handle (.request 1000 request), .work, .switch (.confirm (inner ⟨10⟩).key),
    .switch (.confirm (inner ⟨20⟩).key), .handle .sweep, .work, .work, .work] ++ confirmed (outer ⟨10⟩).key ++ [.work]

/-- the objective of the sample with its two keys -/
def share : Share := ⟨fun n => n = 1, fun k => k ∈ plan.record.distinctKeys⟩

theorem admissible_interleaved : Allowed (fun m move => move.Admissible device m) start interleaved :=
  ⟨⟨⟨0, rfl⟩, List.not_mem_nil⟩, trivial, ⟨planned_request, by decide +kernel⟩, trivial,
    allowed_admissible (by decide +kernel) _⟩

theorem splits_interleaved : ∀ r ∈ (start.run interleaved).accepted, share.Splits r := by
  have haccepted : (start.run interleaved).accepted = [.install 2 other otherPlan, request] := by decide +kernel
  intro r hr
  rw [haccepted] at hr
  rcases List.mem_pair.1 hr with rfl | rfl
  · rintro p ⟨⟩
    exact ⟨by decide +kernel, by decide +kernel, by decide +kernel, by decide +kernel⟩
  · rintro p ⟨⟩
    exact ⟨by decide +kernel, by decide +kernel, by decide +kernel, by decide +kernel⟩

end Sample

/-- both objectives are installed, and the one of the sample as if it were alone, but for its generation -/
theorem sample_undisturbed :
    let m := Sample.start.run Sample.interleaved
    let n := Sample.start.run (Sample.share.prune Sample.start Sample.interleaved)
    m.accepted = [.install 2 Sample.other Sample.otherPlan, Sample.request] ∧ n.accepted = [Sample.request] ∧
      m.controller.replies.map Reply.ticket = [2, 0] ∧ n.controller.replies.map Reply.ticket = [0] ∧
      m.controller.tracker.nextGeneration = 2 ∧ n.controller.tracker.nextGeneration = 1 ∧ Sample.share.Same m n := by
  have hstore : Store.empty.Sound ∧ Sample.share.Stores .empty :=
    ⟨Store.sound_empty, fun n r hr => by rw [Store.get_empty] at hr; cases hr⟩
  have hsame := others_do_not_interfere Sample.admissible_interleaved Sample.splits_interleaved hstore
  exact ⟨by decide +kernel, by decide +kernel, by decide +kernel, by decide +kernel, by decide +kernel,
    by decide +kernel, hsame.2⟩

end FlowGroups
