/-
What the store owes to the answers given. Each answer goes with at most one write, and a write concerns the objective of
the request that is answered (`Posting`); so the record of an objective is what the answers about this objective made it,
and what every posting hands down to records (`Hereditary`) holds of all of them (`Chronicle.all`).

- `added_chain_kept`: a bucket that was added is in the record of its objective until an answer to a request to install
  the objective, to remove one of its buckets or to remove it altogether.
- `added_chain_lost`: an installation that began before the bucket was added writes the record anew when it ends.
-/
import Mathlib.Logic.Relation
import FlowGroups.Proofs.Records
import FlowGroups.Proofs.Soundness

namespace FlowGroups

/-! ## Answers and writes -/

/-- what is recorded for a request is the record of its own objective -/
theorem Request.Planned.record {device : DeviceId} {r : Request} (h : r.Planned device) {p : Plan}
    (hp : r.plan? = some p) : p.record.objective = r.objective.id ∧ p.record.Fits := by
  obtain ⟨adds, cs, crown, hcomposes⟩ := h.composes hp
  exact ⟨hcomposes.objective, hcomposes.short.fits⟩

/-- one more answer, and what was written with it -/
inductive Posting (acc : List Request) : List Reply × Store → List Reply × Store → Prop
  | installed {rs s} (ticket : Ticket) (o : Objective) (p : Plan) (id : GroupId) (hr : .install ticket o p ∈ acc) :
      Posting acc (rs, s) (rs ++ [⟨ticket, .installed id⟩], s.put p.record)
  | extended {rs s} (a : Addition) (existing : Record) (id : GroupId) (hr : .addBucket a ∈ acc)
      (hs : s.get a.objective.id = .ok (some existing)) :
      Posting acc (rs, s) (rs ++ [⟨a.ticket, .installed id⟩], s.put (existing.append a.plan.record))
  | shortened {rs s} (ticket : Ticket) (o : Objective) (port : PortNumber) (existing : Record) (i : Nat) (id : GroupId)
      (hr : .removeBucket ticket o port ∈ acc) (hs : s.get o.id = .ok (some existing)) :
      Posting acc (rs, s)
        (rs ++ [⟨ticket, .installed id⟩], s.put { existing with chains := existing.chains.eraseIdx i })
  | removed {rs s} (ticket : Ticket) (o : Objective) (hr : .remove ticket o ∈ acc) :
      Posting acc (rs, s) (rs ++ [⟨ticket, .removed⟩], (s.remove o.id).1)
  | failed {rs s} (ticket : Ticket) (e : ObjectiveError) : Posting acc (rs, s) (rs ++ [⟨ticket, .failed e⟩], s)

/-- what is written leaves the store sound -/
theorem Posting.sound {device : DeviceId} {acc : List Request} {x y : List Reply × Store} (h : Posting acc x y)
    (hp : ∀ q ∈ acc, q.Planned device) (hx : x.2.Sound) : y.2.Sound := by
  cases h with
  | installed ticket o p id hr => exact hx.put ((hp _ hr).record rfl).2
  | extended a existing id hr hs => exact hx.put ((hx.of_get hs).2.append ((hp _ hr).record rfl).2)
  | shortened ticket o port existing i id hr hs => exact hx.put ((hx.of_get hs).2.eraseIdx i)
  | removed ticket o hr => exact hx.remove o.id
  | failed ticket e => exact hx

theorem Posting.mono {acc acc' : List Request} {x y : List Reply × Store} (h : Posting acc x y)
    (hsub : ∀ r ∈ acc, r ∈ acc') : Posting acc' x y := by
  cases h with
  | installed ticket o p id hr => exact .installed ticket o p id (hsub _ hr)
  | extended a existing id hr hs => exact .extended a existing id (hsub _ hr) hs
  | shortened ticket o port existing i id hr hs => exact .shortened ticket o port existing i id (hsub _ hr) hs
  | removed ticket o hr => exact .removed ticket o (hsub _ hr)
  | failed ticket e => exact .failed ticket e

/-- some answers, one after the other -/
abbrev Chronicle (acc : List Request) : List Reply × Store → List Reply × Store → Prop :=
  Relation.ReflTransGen (Posting acc)

theorem Chronicle.mono {acc acc' : List Request} {x y : List Reply × Store} (h : Chronicle acc x y)
    (hsub : ∀ r ∈ acc, r ∈ acc') : Chronicle acc' x y := by
  induction h with
  | refl => exact .refl
  | tail _ hposting ih => exact ih.tail (hposting.mono hsub)

theorem Chronicle.sound {device : DeviceId} {acc : List Request} {x y : List Reply × Store} (h : Chronicle acc x y)
    (hp : ∀ q ∈ acc, q.Planned device) (hx : x.2.Sound) : y.2.Sound := by
  induction h with
  | refl => exact hx
  | tail _ hposting ih => exact hposting.sound hp ih

/-- is a property of records handed down by whatever is written on behalf of some requests? -/
structure Hereditary (acc : List Request) (P : UInt32 → Record → Prop) : Prop where
  installed : ∀ ticket o p, .install ticket o p ∈ acc → P o.id p.record
  extended : ∀ a r, .addBucket a ∈ acc → r.objective = a.objective.id → P r.objective r →
    P r.objective (r.append a.plan.record)
  shortened : ∀ (r : Record) i, P r.objective r → P r.objective { r with chains := r.chains.eraseIdx i }

section Hereditary

variable {P : UInt32 → Record → Prop} {device : DeviceId} {acc : List Request} {x y : List Reply × Store}

/-- **One posting.** All records have a property that is handed down. -/
theorem Posting.all (h : Posting acc x y) (hp : ∀ q ∈ acc, q.Planned device) (hP : Hereditary acc P)
    (hx : x.2.Sound ∧ x.2.All P) : y.2.Sound ∧ y.2.All P := by
  obtain ⟨hsound, hall⟩ := hx
  refine ⟨h.sound hp hsound, ?_⟩
  cases h with
  | installed ticket o p id hr =>
    obtain ⟨hid, hfits⟩ := (hp _ hr).record rfl
    apply hall.put hfits
    rw [hid]
    exact hP.installed ticket o p hr
  | extended a existing id hr hs =>
    obtain ⟨hid, hfits⟩ := hsound.of_get hs
    apply hall.put (hfits.append ((hp _ hr).record rfl).2)
    exact hP.extended a existing hr hid (hid ▸ hall _ existing hs)
  | shortened ticket o port existing i id hr hs =>
    obtain ⟨hid, hfits⟩ := hsound.of_get hs
    apply hall.put (hfits.eraseIdx i)
    exact hP.shortened existing i (hid ▸ hall _ existing hs)
  | removed ticket o hr => exact hall.remove o.id
  | failed ticket e => exact hall

theorem Chronicle.all (h : Chronicle acc x y) (hp : ∀ q ∈ acc, q.Planned device) (hP : Hereditary acc P)
    (hx : x.2.Sound ∧ x.2.All P) : y.2.Sound ∧ y.2.All P := by
  induction h with
  | refl => exact hx
  | tail _ hposting ih => exact hposting.all hp hP ih

end Hereditary

namespace Controller

/-- what was answered and what is stored -/
def books (c : Controller) : List Reply × Store := (c.replies, c.store)

variable {device : DeviceId} {base : List Reply} {initial : Store} {acc : List Request} {out : List Registrant}
  {c : Controller}

theorem posting_failed (acc : List Request) (c : Controller) (r : Registrant) : Posting acc c.books (c.failed r).books :=
  .failed r.ticket _

theorem chronicle_abandonOne (acc : List Request) (c : Controller) (r : Registrant) :
    Chronicle acc c.books (c.abandonOne r).books := by
  have hfailed : Chronicle acc c.books (c.failed r).books := .single (posting_failed acc c r)
  rcases c.abandonOne_cases r with ⟨a, -, he⟩ | ⟨-, he⟩
  · rw [he]
    exact hfailed.tail (.failed a.ticket _)
  · rw [he]
    exact hfailed

theorem chronicle_expire (acc : List Request) (c : Controller) (now : Nat) :
    Chronicle acc c.books (c.expire now).books :=
  expire_keeps (P := fun _ d => Chronicle acc c.books d.books)
    (fun r _ d hd => hd.trans (chronicle_abandonOne acc d r)) (fun _ hd => hd) .refl

theorem chronicle_withdraw (acc : List Request) (c : Controller) (n : UInt32) :
    Chronicle acc c.books (c.withdraw n).books := by
  unfold withdraw
  split
  · exact .single (.failed _ _)
  · exact .refl

theorem chronicle_giveUp (acc : List Request) (c : Controller) (n : UInt32) :
    Chronicle acc c.books (c.giveUp n).books :=
  giveUp_keeps (P := fun _ d => Chronicle acc c.books d.books)
    (fun r _ d hd => hd.trans (chronicle_abandonOne acc d r)) (fun _ hd => hd) .refl

theorem chronicle_remove (c : Controller) {ticket : Ticket} {o : Objective} (hr : .remove ticket o ∈ acc) :
    Chronicle acc c.books (c.remove ticket o).books := by
  have hbefore : Chronicle acc c.books ((c.withdraw o.id).giveUp o.id).books :=
    (chronicle_withdraw acc c o.id).trans (chronicle_giveUp acc _ o.id)
  rw [remove_eq]
  rcases ((c.withdraw o.id).giveUp o.id).deleteStored_cases ticket o with ⟨e, stop, he⟩ | ⟨existing, -, he⟩
  · rw [he]
    exact hbefore.tail (.failed ticket e)
  · rw [he]
    exact hbefore.tail (.removed ticket o hr)

/-- an objective is recorded, and then the bucket that waits for it is added to this very record -/
theorem chronicle_complete {k : Key} {r : Registrant} (hp : ∀ q ∈ acc, q.Planned device)
    (h : Booked base initial acc (r :: out) c) : Chronicle acc c.books (c.complete k r).1.books := by
  obtain ⟨j, p, hr, -, hrecord⟩ := h.outside r List.mem_cons_self
  obtain ⟨hid, hfits⟩ := (hp _ hr).record rfl
  rw [hrecord] at hid hfits
  have hrecorded : Posting acc c.books (c.recorded k r).books := by
    have hposting : Posting acc (c.replies, c.store) _ :=
      .installed r.ticket r.objective p (((c.group? k).map (·.id)).getD r.topId) hr
    rw [hrecord] at hposting
    exact hposting
  rcases c.complete_cases k r with ⟨a, ha, he⟩ | ⟨-, he⟩
  · obtain ⟨hmem, hn⟩ := h.deferred _ a ha
    have hget : (c.recorded k r).store.get a.objective.id = .ok (some r.record) := by
      rw [recorded, Store.get_put hfits, if_pos (hn.trans hid.symm)]
    rw [he, extend_eq]
    exact (Relation.ReflTransGen.single hrecorded).tail (.extended a r.record _ hmem hget)
  · rw [he]
    exact .single hrecorded

theorem chronicle_process (hp : ∀ q ∈ acc, q.Planned device) (h : Booked base initial acc [] c) (w : Work) :
    Chronicle acc c.books (c.process w).1.books := by
  have hdone := c.performs w
  generalize c.process w = x at hdone ⊢
  cases hdone with
  | awaited | found | ask | addBuckets => exact .refl
  | confirm k =>
    rcases c.confirm_cases k with ⟨ids, -, he⟩ | ⟨rs, -, hk, he⟩ | he
    · rw [he]
      exact .refl
    · rw [he]
      have htaken : Booked base initial acc rs.list { c.release k with tracker := c.tracker.discharge k } := by
        refine (h.congr rfl rfl rfl rfl : Booked base initial acc [] (c.release k)).taken_out ?_
          (Tracker.registrants_discharge hk)
        intro j r hr
        exact h.registered j r hr.of_discharge.2
      have hall := completeAll_keeps (k := k) (P := fun out d _ => Booked base initial acc out d ∧
        Chronicle acc c.books d.books) ?_ ⟨htaken, .refl⟩
      · exact hall.2
      · rintro r out d - ⟨hd, hc⟩
        exact ⟨hd.complete k, hc.trans (chronicle_complete hp hd)⟩
    · rw [he]
      exact .refl

theorem chronicle_opening (acc : List Request) (c : Controller) (s : Stimulus) :
    Chronicle (acc ++ s.request?.toList) c.books (c.opening s).1.books := by
  have hopens := c.opens s
  generalize c.opening s = x at hopens ⊢
  cases hopens with
  | extend now hs => exact .single (.extended _ _ _ List.mem_concat_self hs)
  | detach now ticket port hs i _ _ id => exact .single (.shortened ticket _ port _ i id List.mem_concat_self hs)
  | refuseBucket now hs e => exact .single (.failed _ e)
  | refuseDetach now ticket o port e => exact .single (.failed ticket e)
  | remove => exact chronicle_remove c List.mem_concat_self
  | expire now => exact chronicle_expire _ c now
  | install | defer | added | removed | error | sweep => exact .refl

end Controller

/-- **A step writes what it answers.** -/
theorem Moment.chronicle_step {device : DeviceId} {base : List Reply} {initial : Store} {m : Moment}
    (hp : ∀ q ∈ m.accepted, q.Planned device) (h : Booked base initial m.accepted [] m.controller) (move : Move) :
    Chronicle (m.step move).accepted m.controller.books (m.step move).controller.books := by
  cases move with
  | work =>
    simp only [step, work]
    split
    · exact .refl
    · exact Controller.chronicle_process hp h _
  | handle s =>
    rw [step]
    split_ifs
    · exact Controller.chronicle_opening m.accepted m.controller s
    · exact .refl
  | switch sm => exact .refl

/-- **A run writes what it answers**, said with the requests that are accepted in the end. -/
theorem Booked.chronicle_run {device : DeviceId} {base : List Reply} {initial : Store} {acc : List Request}
    (hp : ∀ q ∈ acc, q.Planned device) {moves : List Move} {m : Moment}
    (h : Booked base initial m.accepted [] m.controller) (hsub : ∀ r ∈ (m.run moves).accepted, r ∈ acc) :
    Chronicle acc m.controller.books (m.run moves).controller.books := by
  induction moves generalizing m with
  | nil => exact .refl
  | cons move moves ih =>
    have hstep : ∀ r ∈ (m.step move).accepted, r ∈ acc := fun r hr => hsub r (Moment.accepted_run hr moves)
    have hplanned : ∀ r ∈ m.accepted, r.Planned device := fun r hr => hp r (hstep r (Moment.accepted_step hr move))
    have hchronicle : Chronicle acc m.controller.books (m.step move).controller.books :=
      (Moment.chronicle_step hplanned h move).mono hstep
    exact hchronicle.trans (ih (h.step move) hsub)

/-! ## Chains that stay in a record -/

/-- the request writes the record of an objective anew, shortens it or removes it, if it succeeds -/
def Request.Rewrites (n : UInt32) : Request → Prop
  | .install _ o _ => o.id = n
  | .addBucket _ => False
  | .removeBucket _ o _ => o.id = n
  | .remove _ o => o.id = n

/-- a success for a request that rewrites the record of an objective -/
def Reply.Rewrites (acc : List Request) (n : UInt32) (reply : Reply) : Prop :=
  (∀ e, reply.outcome ≠ .failed e) ∧ ∃ r ∈ acc, r.ticket = reply.ticket ∧ r.Rewrites n

theorem Request.Rewrites.reply {acc : List Request} {n : UInt32} {r : Request} (h : r.Rewrites n) (hr : r ∈ acc)
    {outcome : Outcome} (ho : ∀ e, outcome ≠ .failed e) : Reply.Rewrites acc n ⟨r.ticket, outcome⟩ :=
  ⟨ho, r, hr, rfl, h⟩

/-- the record of an objective has the chains of a bucket that was added -/
def Store.Keeps (s : Store) (a : Addition) : Prop :=
  ∃ record, s.get a.objective.id = .ok (some record) ∧ ∀ chain ∈ a.plan.record.chains, chain ∈ record.chains

/-- a record that is put leaves the chains of all other objectives alone, and its own if it has them -/
theorem Store.Keeps.put {s : Store} {a : Addition} (h : s.Keeps a) {r : Record} (hr : r.Fits)
    (hown : a.objective.id = r.objective → ∀ chain ∈ a.plan.record.chains, chain ∈ r.chains) : (s.put r).Keeps a := by
  obtain ⟨record, hget, hchains⟩ := h
  rw [Keeps, Store.get_put hr]
  by_cases hn : a.objective.id = r.objective
  · exact ⟨r, if_pos hn, hown hn⟩
  · exact ⟨record, (if_neg hn).trans hget, hchains⟩

/-- every bucket that was added is in its record, if no success since then rewrote it -/
def Kept (acc : List Request) (books : List Reply × Store) : Prop :=
  ∀ a, .addBucket a ∈ acc → ∀ pre id post, books.1 = pre ++ ⟨a.ticket, .installed id⟩ :: post →
    (∀ reply ∈ post, ¬reply.Rewrites acc a.objective.id) → books.2.Keeps a

section Kept

variable {device : DeviceId} {acc : List Request} {rs : List Reply} {s s' : Store}

/-- one more posting: it keeps what it does not rewrite, and has the chain if it tells of one -/
theorem Kept.snoc (h : Kept acc (rs, s)) {reply : Reply}
    (hold : ∀ a, ¬reply.Rewrites acc a.objective.id → s.Keeps a → s'.Keeps a)
    (hnew : ∀ a id, .addBucket a ∈ acc → reply = ⟨a.ticket, .installed id⟩ → s'.Keeps a) :
    Kept acc (rs ++ [reply], s') := by
  intro a ha pre id post hsplit hpost
  rcases List.eq_nil_or_concat post with rfl | ⟨earlier, last, rfl⟩
  · obtain ⟨-, hreply⟩ := List.append_inj' hsplit rfl
    exact hnew a id ha (List.singleton_inj.1 hreply)
  · rw [List.concat_eq_append] at hsplit hpost
    rw [← List.cons_append, ← List.append_assoc] at hsplit
    obtain ⟨hbefore, hreply⟩ := List.append_inj' hsplit rfl
    obtain rfl := List.singleton_inj.1 hreply
    refine hold a (hpost _ (by simp)) (h a ha pre id earlier hbefore fun q hq => hpost q ?_)
    exact List.mem_append_left _ hq

/-- **One posting.** What is stored stays sound, and no bucket is lost. -/
theorem Posting.keeps {x y : List Reply × Store} (h : Posting acc x y) (hp : ∀ q ∈ acc, q.Planned device)
    (hd : (acc.map Request.ticket).Nodup) (hx : x.2.Sound ∧ Kept acc x) : y.2.Sound ∧ Kept acc y := by
  have hsame : ∀ q ∈ acc, ∀ r ∈ acc, q.ticket = r.ticket → q = r := fun q hq r hr =>
    List.inj_on_of_nodup_map hd hq hr
  obtain ⟨hsound, hkept⟩ := hx
  refine ⟨h.sound hp hsound, ?_⟩
  cases h with
  | installed ticket o p id hr =>
    obtain ⟨hid, hfits⟩ := (hp _ hr).record rfl
    refine hkept.snoc ?_ ?_
    · intro a hno ha
      have hrewrites : a.objective.id = p.record.objective → (Request.install ticket o p).Rewrites a.objective.id :=
        fun hn => (hn.trans hid).symm
      exact ha.put hfits fun hn => absurd ((hrewrites hn).reply hr (by simp)) hno
    · intro a id' ha he
      have ht : ticket = a.ticket := congrArg Reply.ticket he
      cases hsame _ hr _ ha ht
  | extended a existing id hr hs =>
    obtain ⟨hid, hfits⟩ := hsound.of_get hs
    have hall : (existing.append a.plan.record).Fits := hfits.append ((hp _ hr).record rfl).2
    refine hkept.snoc ?_ ?_
    · intro b _ hb
      refine hb.put hall fun hn chain hchain => List.mem_append_left _ ?_
      obtain ⟨record, hget, hchains⟩ := hb
      have hsameId : b.objective.id = a.objective.id := hn.trans hid
      rw [hsameId, hs] at hget
      cases hget
      exact hchains chain hchain
    · intro b id' hb he
      have ht : a.ticket = b.ticket := congrArg Reply.ticket he
      cases hsame _ hr _ hb ht
      refine ⟨existing.append a.plan.record, ?_, fun chain hchain => List.mem_append_right _ hchain⟩
      have hown : a.objective.id = (existing.append a.plan.record).objective := hid.symm
      rw [Store.get_put hall, if_pos hown]
  | shortened ticket o port existing i id hr hs =>
    obtain ⟨hid, hfits⟩ := hsound.of_get hs
    have hall := hfits.eraseIdx i
    refine hkept.snoc ?_ ?_
    · intro a hno ha
      have hrewrites : a.objective.id = existing.objective →
          (Request.removeBucket ticket o port).Rewrites a.objective.id := fun hn => (hn.trans hid).symm
      exact ha.put hall fun hn => absurd ((hrewrites hn).reply hr (by simp)) hno
    · intro a id' ha he
      have ht : ticket = a.ticket := congrArg Reply.ticket he
      cases hsame _ hr _ ha ht
  | removed ticket o hr =>
    refine hkept.snoc ?_ ?_
    · rintro a hno ⟨record, hget, hchains⟩
      have hrewrites : a.objective.id = o.id → (Request.remove ticket o).Rewrites a.objective.id := fun hn => hn.symm
      refine ⟨record, ?_, hchains⟩
      rw [Store.get_remove, if_neg fun hn => hno ((hrewrites hn).reply hr (by simp))]
      exact hget
    · intro a id ha he
      cases he
  | failed ticket e =>
    refine hkept.snoc (fun a _ ha => ha) ?_
    intro a id ha he
    cases he

theorem Chronicle.keeps {x y : List Reply × Store} (h : Chronicle acc x y) (hp : ∀ q ∈ acc, q.Planned device)
    (hd : (acc.map Request.ticket).Nodup) (hx : x.2.Sound ∧ Kept acc x) : y.2.Sound ∧ Kept acc y := by
  induction h with
  | refl => exact hx
  | tail _ hposting ih => exact hposting.keeps hp hd ih

end Kept

/-- what is kept along a run is said with the requests that are accepted in the end -/
theorem Booked.kept_run {device : DeviceId} {base : List Reply} {initial : Store} {acc : List Request}
    (hd : (acc.map Request.ticket).Nodup) (hp : ∀ q ∈ acc, q.Planned device) {moves : List Move} {m : Moment}
    (h : Booked base initial m.accepted [] m.controller) (hsub : ∀ r ∈ (m.run moves).accepted, r ∈ acc)
    (hm : m.controller.store.Sound ∧ Kept acc m.controller.books) :
    (m.run moves).controller.store.Sound ∧ Kept acc (m.run moves).controller.books :=
  (h.chronicle_run hp hsub).keeps hp hd hm

/-- **No bucket is lost but to an answer.** Whenever a request to add a bucket has been answered with success, the chain
that it added is in the record of its objective, as long as no success since then was for a request to install this
objective, to remove one of its buckets or to remove it. -/
theorem added_chain_kept {device : DeviceId} {delay : Nat} {switch : Switch} {store : Store} {metrics : Metrics}
    {moves : List Move} (hstore : store.Sound)
    (h : Allowed (fun m move => move.Admissible device m) (.start device delay switch store metrics) moves)
    {a : Addition} {id : GroupId} {pre post : List Reply} :
    let m := (Moment.start device delay switch store metrics).run moves
    .addBucket a ∈ m.accepted → m.controller.replies = pre ++ ⟨a.ticket, .installed id⟩ :: post →
      (∀ reply ∈ post, ¬reply.Rewrites m.accepted a.objective.id) →
      ∃ record, m.controller.store.get a.objective.id = .ok (some record) ∧
        ∀ chain ∈ a.plan.record.chains, chain ∈ record.chains := by
  intro m ha hreplies hpost
  have hstart : Booked [] store (Moment.start device delay switch store metrics).accepted []
      (Moment.start device delay switch store metrics).controller := booked_start device delay switch store metrics
  obtain ⟨-, hd⟩ := hstart.run List.nodup_nil h
  have hp : ∀ r ∈ m.accepted, r.Planned device :=
    h.keeps (P := fun m => ∀ r ∈ m.accepted, r.Planned device) (fun _ _ hmove hm => Moment.planned_step hm hmove)
      (by simp [Moment.start])
  have hnone : Kept m.accepted ((Moment.start device delay switch store metrics).controller.books) := by
    intro b _ pre' id' post' hsplit
    simp [Controller.books, Moment.start, Controller.start] at hsplit
  obtain ⟨-, hkept⟩ := hstart.kept_run hd hp (fun r hr => hr) ⟨hstore, hnone⟩
  exact hkept a ha pre id post hreplies hpost

namespace Sample

/-- one bucket, in a VLAN; the key of the L3 unicast group is the same for each -/
def hashed (vlan : VlanId) : Objective := ⟨4, .hashed, [bucket vlan], ⟨"sample"⟩, none⟩

def hashedPlan (vlan : VlanId) : Plan := (hashed vlan).planEcmp device [chain vlan] false

def addition (ticket : Ticket) (vlan : VlanId) : Addition :=
  ⟨ticket, hashed vlan, (hashed vlan).planEcmp device [chain vlan] true⟩

abbrev hashedRequest : Request := .install 0 (hashed ⟨10⟩) (hashedPlan ⟨10⟩)

/-- all three groups are asked for and confirmed, one after the other -/
def hashedConfirmed : List Move :=
  .work :: confirmed (inner ⟨10⟩).key ++ ([.work, .work] ++ confirmed (outer ⟨10⟩).key ++
    ([.work, .work] ++ confirmed (Key.l3Ecmp 4) ++ [.work]))

/-- the objective is installed -/
def hashedInstalled : List Move := .handle (.request 0 hashedRequest) :: hashedConfirmed

theorem admissible_hashedInstalled : Allowed (fun m move => move.Admissible device m) start hashedInstalled := by
  have hplanned : hashedRequest.Planned device := ⟨0, rfl⟩
  exact ⟨⟨hplanned, List.not_mem_nil⟩, allowed_admissible (by decide +kernel) _⟩

/-- two buckets are added -/
def extended : List Move :=
  [.handle (.request 0 (.addBucket (addition 1 ⟨20⟩))), .work, .handle (.request 0 (.addBucket (addition 2 ⟨30⟩)))]

end Sample

/-- the chain of one bucket is still there when another has been added -/
theorem chain_of_sample_kept :
    let a := Sample.addition 1 ⟨20⟩
    ∃ record, (Sample.start.run (Sample.hashedInstalled ++ Sample.extended)).controller.store.get a.objective.id =
        .ok (some record) ∧
      ∀ chain ∈ a.plan.record.chains, chain ∈ record.chains := by
  have hadded : ∀ ticket vlan, vlan = ⟨20⟩ ∨ vlan = ⟨30⟩ →
      (Request.addBucket (Sample.addition ticket vlan)).Planned Sample.device := by
    rintro ticket vlan (rfl | rfl) <;> exact ⟨0, rfl⟩
  have h : Allowed (fun m move => move.Admissible Sample.device m) Sample.start
      (Sample.hashedInstalled ++ Sample.extended) :=
    allowed_append.2 ⟨Sample.admissible_hashedInstalled, ⟨hadded 1 ⟨20⟩ (Or.inl rfl), by decide +kernel⟩, trivial,
      ⟨hadded 2 ⟨30⟩ (Or.inr rfl), by decide +kernel⟩, trivial⟩
  have hacc : (Sample.start.run (Sample.hashedInstalled ++ Sample.extended)).accepted =
      [Sample.hashedRequest, .addBucket (Sample.addition 1 ⟨20⟩), .addBucket (Sample.addition 2 ⟨30⟩)] := by
    decide +kernel
  have hreplies : (Sample.start.run (Sample.hashedInstalled ++ Sample.extended)).controller.replies =
      [⟨0, .installed (GroupId.l3Ecmp 4)⟩] ++ ⟨(Sample.addition 1 ⟨20⟩).ticket, .installed (GroupId.l3Ecmp 4)⟩ ::
        [⟨2, .installed (GroupId.l3Ecmp 4)⟩] := by
    decide +kernel
  have hpost : ∀ reply ∈ [(⟨2, .installed (GroupId.l3Ecmp 4)⟩ : Reply)],
      ¬reply.Rewrites (Sample.start.run (Sample.hashedInstalled ++ Sample.extended)).accepted
        (Sample.addition 1 ⟨20⟩).objective.id := by
    rintro reply hreply ⟨-, r, hr, ht, hrewrites⟩
    rw [List.mem_singleton.1 hreply] at ht
    rw [hacc] at hr
    simp only [List.mem_cons, List.not_mem_nil, or_false] at hr
    rcases hr with rfl | rfl | rfl
    · cases ht
    · exact hrewrites
    · exact hrewrites
  have hmem : .addBucket (Sample.addition 1 ⟨20⟩) ∈
      (Sample.start.run (Sample.hashedInstalled ++ Sample.extended)).accepted := by
    rw [hacc]
    simp
  unfold Sample.start at h hreplies hpost hmem ⊢
  exact added_chain_kept Store.sound_empty h hmem hreplies hpost

/-! ## A bucket that is lost -/

namespace Sample

/-- the objective is to be installed again, and its interface group is asked for; then a bucket is added -/
def raced : List Move :=
  [.handle (.request 0 (.install 1 (hashed ⟨20⟩) (hashedPlan ⟨20⟩))), .work,
    .handle (.request 0 (.addBucket (addition 2 ⟨30⟩))), .work]

/-- the interface group is confirmed, and all other groups of the second installation are there already -/
def overwritten : List Move := confirmed (inner ⟨20⟩).key ++ List.replicate 6 .work

end Sample

/-- **A bucket is lost to an older request.** A bucket is added while its objective waits to be installed once more, and
is answered with success; nothing is asked for after that, but the record that the installation writes has no such
chain. -/
theorem added_chain_lost :
    let m := Sample.start.run (Sample.hashedInstalled ++ Sample.raced)
    let n := m.run Sample.overwritten
    Allowed (fun m move => move.Admissible Sample.device m) Sample.start
        (Sample.hashedInstalled ++ Sample.raced ++ Sample.overwritten) ∧
      .addBucket (Sample.addition 2 ⟨30⟩) ∈ m.accepted ∧
      ⟨2, .installed (GroupId.l3Ecmp 4)⟩ ∈ m.controller.replies ∧
      (∀ move ∈ Sample.overwritten, move.request? = none) ∧
      n.controller.store.get 4 = .ok (some (Sample.hashedPlan ⟨20⟩).record) ∧
      ∃ chain ∈ (Sample.addition 2 ⟨30⟩).plan.record.chains, chain ∉ (Sample.hashedPlan ⟨20⟩).record.chains := by
  intro m n
  have hinstall : (Request.install 1 (Sample.hashed ⟨20⟩) (Sample.hashedPlan ⟨20⟩)).Planned Sample.device := ⟨0, rfl⟩
  have hadd : (Request.addBucket (Sample.addition 2 ⟨30⟩)).Planned Sample.device := ⟨0, rfl⟩
  have hnone : ∀ move ∈ Sample.overwritten, move.request? = none := by decide +kernel
  have hraced : Allowed (fun m move => move.Admissible Sample.device m) (Sample.start.run Sample.hashedInstalled)
      Sample.raced :=
    ⟨⟨hinstall, by decide +kernel⟩, trivial, ⟨hadd, by decide +kernel⟩, trivial, trivial⟩
  refine ⟨allowed_append.2 ⟨allowed_append.2 ⟨Sample.admissible_hashedInstalled, hraced⟩, allowed_admissible hnone _⟩,
    by decide +kernel, by decide +kernel, hnone, by decide +kernel, by decide +kernel⟩

end FlowGroups
