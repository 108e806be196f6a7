/-
Buckets that are put aside, and the objectives they wait for. A bucket is put aside only while its objective waits, and
every way a registrant leaves the tracker takes the bucket along: it is added when a registrant completes and fails when
one expires or is removed. No bucket is left behind without a registrant of its objective (`Controller.Covers`).

- `covered_run`: in every run, at every moment, the objective of a bucket that is put aside waits itself.
- `Addition.decided`: a move that completes, expires or removes the objective settles the bucket, any other leaves it.
- `parked_buckets_are_settled`: a bucket that was put aside is so still, or such a move has settled it since.
-/
import FlowGroups.Proofs.Deferral
import FlowGroups.Proofs.Timeouts

namespace FlowGroups

namespace Controller

/-! ## A registrant leaves -/

/-- a registrant is answered, and with it the bucket that is put aside for its objective -/
structure Finishes (outcome : Addition → Outcome) (r : Registrant) (c d : Controller) : Prop where
  objectives : d.tracker.objectives = c.tracker.objectives
  deferred : d.deferred = c.deferred.erase r.objective.id
  replies : ∀ reply ∈ c.replies, reply ∈ d.replies
  answered : ∀ a, c.deferred.get? r.objective.id = some a → ⟨a.ticket, outcome a⟩ ∈ d.replies

theorem finishes_complete (c : Controller) (k : Key) (r : Registrant) :
    Finishes (fun a => .installed a.plan.topId) r c (c.complete k r).1 := by
  rcases c.complete_cases k r with ⟨a, ha, he⟩ | ⟨hn, he⟩
  · rw [he, extend_eq]
    refine ⟨Tracker.objectives_registerAll _ _ _, rfl, fun reply h => ?_, fun b hb => ?_⟩
    · exact List.mem_append_left _ (List.mem_append_left _ h)
    · cases ha.symm.trans hb
      exact List.mem_concat_self
  · rw [he]
    refine ⟨rfl, (Registry.erase_eq_self hn).symm, fun reply h => List.mem_append_left _ h, fun b hb => ?_⟩
    cases hn.symm.trans hb

theorem finishes_abandonOne (c : Controller) (r : Registrant) :
    Finishes (fun _ => .failed .installationFailed) r c (c.abandonOne r) := by
  rcases c.abandonOne_cases r with ⟨a, ha, he⟩ | ⟨hn, he⟩
  · rw [he]
    refine ⟨rfl, rfl, fun reply h => ?_, fun b hb => ?_⟩
    · exact List.mem_append_left _ (List.mem_append_left _ h)
    · cases ha.symm.trans hb
      exact List.mem_concat_self
  · rw [he]
    refine ⟨rfl, (Registry.erase_eq_self hn).symm, fun reply h => List.mem_append_left _ h, fun b hb => ?_⟩
    cases hn.symm.trans hb

/-! ## Somebody waits for the objective -/

/-- buckets are put aside for objectives that have a registrant, in the tracker or among those just taken out -/
def Covers (c : Controller) (out : List Registrant) : Prop :=
  ∀ n a, c.deferred.get? n = some a → ∃ r ∈ out ++ c.tracker.registrants, r.objective.id = n

namespace Covers

variable {c d : Controller} {out : List Registrant}

theorem congr (h : c.Covers out) (hd : d.deferred = c.deferred) (ho : d.tracker.objectives = c.tracker.objectives) :
    d.Covers out := by
  unfold Covers Tracker.registrants at h ⊢
  rw [hd, ho]
  exact h

/-- the registrant that leaves was not the one for a bucket that stays -/
theorem finish {outcome : Addition → Outcome} {r : Registrant} (h : c.Covers (r :: out))
    (hf : Finishes outcome r c d) : d.Covers out := by
  intro n a ha
  rw [hf.deferred] at ha
  obtain ⟨hn, ha⟩ := Registry.of_get?_erase ha
  obtain ⟨s, hs, rfl⟩ := h n a ha
  refine ⟨s, ?_, rfl⟩
  rw [Tracker.registrants, hf.objectives]
  rcases List.mem_cons.1 hs with rfl | hs
  · exact absurd rfl hn
  · exact hs

theorem taken_out {t : Tracker} {rs : List Registrant} (h : c.Covers [])
    (hp : c.tracker.registrants.Perm (rs ++ t.registrants)) : ({ c with tracker := t } : Controller).Covers rs := by
  intro n a ha
  obtain ⟨r, hr, hn⟩ := h n a ha
  exact ⟨r, hp.subset hr, hn⟩

theorem confirm (h : c.Covers []) (k : Key) : (c.confirm k).1.Covers [] := by
  have hrel : (c.release k).Covers [] := h.congr rfl rfl
  rcases c.confirm_cases k with ⟨ids, -, he⟩ | ⟨rs, -, ho, he⟩ | he
  · rw [he]
    exact hrel.congr rfl rfl
  · rw [he]
    refine completeAll_keeps (P := fun out d _ => d.Covers out) (fun r _ d _ hd => ?_)
      (hrel.taken_out (Tracker.registrants_discharge ho))
    exact hd.finish (d.finishes_complete k r)
  · rw [he]
    exact hrel

theorem process (h : c.Covers []) (w : Work) : (c.process w).1.Covers [] := by
  have hdone := c.performs w
  generalize c.process w = x at hdone ⊢
  cases hdone with
  | awaited | found => exact h
  | ask | addBuckets => exact h.congr rfl rfl
  | confirm k => exact h.confirm k

theorem expire (h : c.Covers []) (now : Nat) : (c.expire now).Covers [] :=
  expire_keeps (P := fun out d => d.Covers out) (fun r _ d hd => hd.finish (d.finishes_abandonOne r))
    (fun _ hd => hd.congr rfl rfl) (h.taken_out (c.tracker.registrants_expire now))

theorem registered (h : c.Covers []) (now : Nat) (p : Plan) (r₀ : Registrant) :
    Controller.Covers { c with
      tracker := ((c.tracker.registerObjective p.topKey r₀ now).registerAll p.topKey p.elements).1 } [] := by
  intro n a ha
  obtain ⟨r, hr, hn⟩ := h n a ha
  refine ⟨r, ?_, hn⟩
  have hnew := c.tracker.registrants_registerObjective p.topKey r₀ now
  rw [Tracker.registrants, Tracker.objectives_registerAll]
  exact hnew.symm.subset (List.mem_cons_of_mem _ hr)

theorem withdraw (h : c.Covers []) (n : UInt32) : (c.withdraw n).Covers [] := by
  unfold Controller.withdraw
  split
  · exact fun m b hb => h m b (Registry.of_get?_erase hb).2
  · exact h

theorem giveUp (h : c.Covers []) (n : UInt32) : (c.giveUp n).Covers [] :=
  giveUp_keeps (P := fun out d => d.Covers out) (fun r _ d hd => hd.finish (d.finishes_abandonOne r))
    (fun _ hd => hd.congr rfl rfl) (h.taken_out (c.tracker.registrants_takeObjective n))

theorem remove (h : c.Covers []) (ticket : Ticket) (o : Objective) : (c.remove ticket o).Covers [] := by
  rw [remove_eq]
  rcases ((c.withdraw o.id).giveUp o.id).deleteStored_cases ticket o with ⟨e, stop, he⟩ | ⟨existing, -, he⟩ <;> rw [he]
  · exact ((h.withdraw o.id).giveUp o.id).congr rfl rfl
  · exact ((h.withdraw o.id).giveUp o.id).congr rfl rfl

theorem opening (h : c.Covers []) (s : Stimulus) : (c.opening s).1.Covers [] := by
  have hopens := c.opens s
  generalize c.opening s = x at hopens ⊢
  cases hopens with
  | install now ticket o p ht =>
    subst ht
    exact h.registered now p _
  | extend => exact h.congr rfl (Tracker.objectives_registerAll _ _ _)
  | @defer now a hs ho =>
    intro n b hb
    rw [Registry.get?_insert] at hb
    split_ifs at hb with hn
    · obtain ⟨k, r, hr, hid⟩ := Tracker.hasObjective_iff.1 ho
      exact ⟨r, Tracker.mem_registrants_iff.2 ⟨k, hr⟩, hid.trans hn.symm⟩
    · exact h n b hb
  | remove now ticket o => exact h.remove ticket o
  | expire now => exact h.expire now
  | refuseBucket | detach | refuseDetach | removed => exact h.congr rfl rfl
  | added | error | sweep => exact h

theorem hasObjective (h : c.Covers []) {n : UInt32} {a : Addition} (ha : c.deferred.get? n = some a) :
    c.tracker.hasObjective n = true := by
  obtain ⟨r, hr, hn⟩ := h n a ha
  obtain ⟨k, hk⟩ := Tracker.mem_registrants_iff.1 hr
  exact Tracker.hasObjective_iff.2 ⟨k, r, hk, hn⟩

end Covers

end Controller

theorem Moment.covers_step {m : Moment} (h : m.controller.Covers []) (move : Move) :
    (m.step move).controller.Covers [] := by
  cases move with
  | work =>
    simp only [step, work]
    split
    · exact h.congr rfl rfl
    · exact h.process _
  | handle s =>
    rw [step]
    split_ifs
    · exact h.opening s
    · exact h
  | switch sm => exact h.congr rfl rfl

theorem covered_run {m : Moment} (h : m.controller.Covers []) (moves : List Move) :
    (m.run moves).controller.Covers [] := by
  induction moves generalizing m with
  | nil => exact h
  | cons move moves ih => exact ih (m.covers_step h move)

/-! ## What becomes of a bucket -/

namespace Controller

/-- The registrants of `rs` leave, and `out` are those still to be dealt with. The bucket put aside for `n` stays as
long as none of objective `n` is done with, and is answered with the first one. -/
inductive Aside (rs : List Registrant) (n : UInt32) (a : Addition) (o : Outcome) (out : List Registrant)
    (c : Controller) : Prop
  | kept (h : c.deferred.get? n = some a) (hout : (∃ r ∈ rs, r.objective.id = n) ↔ ∃ r ∈ out, r.objective.id = n)
  | answered (hrs : ∃ r ∈ rs, r.objective.id = n) (h : c.deferred.get? n = none)
      (hreply : ⟨a.ticket, o⟩ ∈ c.replies)

namespace Aside

variable {rs out : List Registrant} {n : UInt32} {a : Addition} {c d : Controller}

theorem finish {outcome : Addition → Outcome} {r : Registrant} (h : Aside rs n a (outcome a) (r :: out) c)
    (hf : Finishes outcome r c d) : Aside rs n a (outcome a) out d := by
  cases h with
  | kept h hout =>
    rw [List.exists_mem_cons_iff] at hout
    by_cases hr : r.objective.id = n
    · refine .answered (hout.2 (Or.inl hr)) ?_ (hf.answered a (by rw [hr]; exact h))
      rw [hf.deferred, Registry.get?_erase, if_pos hr.symm]
    · refine .kept ?_ (hout.trans (or_iff_right hr))
      rw [hf.deferred, Registry.get?_erase, if_neg (Ne.symm hr)]
      exact h
  | answered hrs h hreply =>
    refine .answered hrs ?_ (hf.replies _ hreply)
    rw [hf.deferred]
    exact Registry.get?_erase_of_none h

theorem completeAll (h : c.deferred.get? n = some a) (k : Key) (rs : List Registrant) :
    Aside rs n a (.installed a.plan.topId) [] (c.completeAll k rs).1 :=
  completeAll_keeps (P := fun out d _ => Aside rs n a (.installed a.plan.topId) out d)
    (fun r _ d _ hd => hd.finish (d.finishes_complete k r)) (.kept h Iff.rfl)

theorem expire (h : c.deferred.get? n = some a) (now : Nat) :
    Aside ((c.tracker.expire now).2.flatMap Prod.snd) n a (.failed .installationFailed) [] (c.expire now) := by
  refine expire_keeps (P := Aside ((c.tracker.expire now).2.flatMap Prod.snd) n a (.failed .installationFailed))
    (fun r _ d hd => hd.finish (d.finishes_abandonOne r)) (fun d hd => ?_) (.kept h Iff.rfl)
  cases hd with
  | kept h hout => exact .kept h hout
  | answered hrs h hreply => exact .answered hrs h hreply

end Aside

/-- a request to remove an objective takes back the bucket put aside for it first, and no other -/
theorem aside_remove (c : Controller) (ticket : Ticket) (o : Objective) :
    (c.remove ticket o).deferred = c.deferred.erase o.id ∧
      ∀ a, c.deferred.get? o.id = some a → ⟨a.ticket, .failed .missing⟩ ∈ (c.remove ticket o).replies := by
  have hwithdraw : (c.withdraw o.id).deferred = c.deferred.erase o.id ∧
      ∀ a, c.deferred.get? o.id = some a → ⟨a.ticket, .failed .missing⟩ ∈ (c.withdraw o.id).replies := by
    unfold withdraw
    cases h : c.deferred.get? o.id with
    | none => exact ⟨(Registry.erase_eq_self h).symm, nofun⟩
    | some a =>
      refine ⟨rfl, ?_⟩
      rintro b hb
      cases hb
      exact List.mem_concat_self
  have hgiveUp : ((c.withdraw o.id).giveUp o.id).deferred = c.deferred.erase o.id ∧
      ∀ reply ∈ (c.withdraw o.id).replies, reply ∈ ((c.withdraw o.id).giveUp o.id).replies := by
    have hall := giveUp_keeps (c := c.withdraw o.id) (n := o.id)
      (P := fun out d => (∀ r ∈ out, r.objective.id = o.id) ∧ d.deferred = c.deferred.erase o.id ∧
        ∀ reply ∈ (c.withdraw o.id).replies, reply ∈ d.replies) ?_ (fun _ hd => hd)
      ⟨fun r hr => (Tracker.registered_of_taken hr).1, hwithdraw.1, fun _ hreply => hreply⟩
    · exact hall.2
    rintro r out d ⟨hout, hd, hreplies⟩
    have hf := d.finishes_abandonOne r
    refine ⟨fun s hs => hout s (List.mem_cons_of_mem r hs), ?_, fun reply hr => hf.replies reply (hreplies reply hr)⟩
    rw [hf.deferred, hd, hout r List.mem_cons_self]
    exact Registry.erase_eq_self (by rw [Registry.get?_erase, if_pos rfl])
  rw [remove_eq]
  rcases ((c.withdraw o.id).giveUp o.id).deleteStored_cases ticket o with ⟨e, stop, he⟩ | ⟨existing, -, he⟩ <;> rw [he]
  · exact ⟨hgiveUp.1, fun a ha => List.mem_append_left _ (hgiveUp.2 _ (hwithdraw.2 a ha))⟩
  · exact ⟨hgiveUp.1, fun a ha => List.mem_append_left _ (hgiveUp.2 _ (hwithdraw.2 a ha))⟩

/-- work leaves the buckets aside, unless it completes registrants -/
theorem aside_process (c : Controller) (w : Work) :
    ((c.process w).1.deferred = c.deferred ∧ ∀ k rs, w = .resolve k → (c.tracker.resolve k).2 ≠ .complete rs) ∨
      ∃ k rs, w = .resolve k ∧ (c.tracker.resolve k).2 = .complete rs ∧ ∀ n a, c.deferred.get? n = some a →
        Aside rs n a (.installed a.plan.topId) [] (c.process w).1 := by
  have hdone := c.performs w
  generalize c.process w = x at hdone ⊢
  cases hdone with
  | awaited hw | found hw | ask hw => exact Or.inl ⟨rfl, fun k _ hk => absurd hk (hw.ne_resolve k)⟩
  | addBuckets => exact Or.inl ⟨rfl, nofun⟩
  | confirm k =>
    rcases c.tracker.resolve_cases k with ⟨ids, hg, hr⟩ | ⟨rs, hg, ho, hr⟩ | ⟨hg, ho, hr⟩
    · refine Or.inl ⟨by rw [confirm_of_awaited hg]; rfl, ?_⟩
      rintro j rs hj
      cases hj
      simp [hr]
    · refine Or.inr ⟨k, rs.list, rfl, by rw [hr], fun n a ha => ?_⟩
      rw [confirm_of_registered hg ho]
      exact Aside.completeAll (c := { c.release k with tracker := c.tracker.discharge k }) ha k rs.list
    · refine Or.inl ⟨by rw [confirm_of_unknown hg ho]; rfl, ?_⟩
      rintro j rs hj
      cases hj
      simp [hr]

/-- no other handler takes a bucket back when it begins, and another bucket does not take its place -/
theorem aside_opening {c : Controller} {n : UInt32} {a : Addition} (h : c.deferred.get? n = some a) {s : Stimulus}
    (hexpire : ∀ now, s ≠ .expire now) (hremove : ∀ now ticket o, s ≠ .request now (.remove ticket o)) :
    (c.opening s).1.deferred.get? n = some a := by
  have hopens := c.opens s
  generalize c.opening s = x at hopens ⊢
  cases hopens with
  | defer now hs ho hn =>
    rw [Registry.get?_insert, if_neg]
    · exact h
    · rintro rfl
      cases hn.symm.trans h
  | remove now ticket o => exact absurd rfl (hremove now ticket o)
  | expire now => exact absurd rfl (hexpire now)
  | install | extend | refuseBucket | detach | refuseDetach | added | removed | error | sweep => exact h

end Controller

/-- how a move ends the wait of a bucket for objective `n`, and with which answer -/
inductive Addition.Settled (a : Addition) (n : UInt32) (m : Moment) : Move → Outcome → Prop
  /-- a key is resolved, and a registrant of the objective completes -/
  | completed {k : Key} {ws : List Work} {rs : List Registrant} (hq : m.queue = .resolve k :: ws)
      (hk : (m.controller.tracker.resolve k).2 = .complete rs) (hrs : ∃ r ∈ rs, r.objective.id = n) :
      a.Settled n m .work (.installed a.plan.topId)
  /-- the time of a registrant of the objective runs out -/
  | expired {now : Nat} (hi : m.Idle)
      (hrs : ∃ r ∈ (m.controller.tracker.expire now).2.flatMap Prod.snd, r.objective.id = n) :
      a.Settled n m (.handle (.expire now)) (.failed .installationFailed)
  /-- the objective is to be removed -/
  | removed {now : Nat} {ticket : Ticket} {o : Objective} (hi : m.Idle) (ho : o.id = n) :
      a.Settled n m (.handle (.request now (.remove ticket o))) (.failed .missing)

/-- the move settles the bucket and answers its request, or it does neither -/
def Addition.Decided (a : Addition) (n : UInt32) (m : Moment) (move : Move) : Prop :=
  (∃ o, a.Settled n m move o ∧ (m.step move).controller.deferred.get? n = none ∧
      ⟨a.ticket, o⟩ ∈ (m.step move).controller.replies) ∨
    ((∀ o, ¬a.Settled n m move o) ∧ (m.step move).controller.deferred.get? n = some a)

namespace Addition

variable {m : Moment} {n : UInt32} {a : Addition}

theorem decided_work (h : m.controller.deferred.get? n = some a) : a.Decided n m .work := by
  cases hq : m.queue with
  | nil =>
    refine Or.inr ⟨?_, by simpa [Moment.step, Moment.work, hq, Controller.updateGauges] using h⟩
    rintro o ⟨hq', -, -⟩
    cases hq.symm.trans hq'
  | cons w ws =>
    have hstep : (m.step .work).controller = (m.controller.process w).1 := by simp [Moment.step, Moment.work, hq]
    rw [Decided, hstep]
    rcases m.controller.aside_process w with ⟨hd, hw⟩ | ⟨k, rs, rfl, hk, haside⟩
    · refine Or.inr ⟨?_, by rw [hd]; exact h⟩
      rintro o ⟨hq', hk, -⟩
      cases hq.symm.trans hq'
      exact hw _ _ rfl hk
    · cases haside n a h with
      | kept h' hout =>
        refine Or.inr ⟨?_, h'⟩
        rintro o ⟨hq', hk', hrs⟩
        cases hq.symm.trans hq'
        cases hk.symm.trans hk'
        simpa using hout.1 hrs
      | answered hrs h' hreply => exact Or.inl ⟨_, .completed hq hk hrs, h', hreply⟩

theorem decided_expire (h : m.controller.deferred.get? n = some a) (hi : m.Idle) (now : Nat) :
    a.Decided n m (.handle (.expire now)) := by
  rw [Decided, Moment.step, if_pos hi]
  cases Controller.Aside.expire h now with
  | kept h' hout =>
    refine Or.inr ⟨?_, h'⟩
    rintro o (_ | ⟨-, hrs⟩)
    simpa using hout.1 hrs
  | answered hrs h' hreply => exact Or.inl ⟨_, .expired hi hrs, h', hreply⟩

theorem decided_remove (h : m.controller.deferred.get? n = some a) (hi : m.Idle) (now : Nat) (ticket : Ticket)
    (o : Objective) : a.Decided n m (.handle (.request now (.remove ticket o))) := by
  obtain ⟨hd, hreply⟩ := m.controller.aside_remove ticket o
  have hget : (m.controller.remove ticket o).deferred.get? n = if n = o.id then none else some a := by
    rw [hd, Registry.get?_erase, h]
  rw [Decided, Moment.step, if_pos hi]
  by_cases ho : n = o.id
  · rw [if_pos ho] at hget
    subst ho
    exact Or.inl ⟨_, .removed hi rfl, hget, hreply a h⟩
  · rw [if_neg ho] at hget
    refine Or.inr ⟨?_, hget⟩
    rintro outcome (_ | _ | ⟨-, ho'⟩)
    exact ho ho'.symm

/-- **Every move decides about a bucket that is put aside**, and settles it only in one of the three ways. -/
theorem decided (h : m.controller.deferred.get? n = some a) (move : Move) : a.Decided n m move := by
  cases move with
  | work => exact decided_work h
  | handle s =>
    by_cases hi : m.Idle
    · have hkeep : (∀ now, s ≠ .expire now) → (∀ now ticket o, s ≠ .request now (.remove ticket o)) →
          a.Decided n m (.handle s) := by
        intro hexpire hremove
        rw [Decided, Moment.step, if_pos hi]
        refine Or.inr ⟨?_, Controller.aside_opening h hexpire hremove⟩
        rintro o (_ | _ | _)
        · exact hexpire _ rfl
        · exact hremove _ _ _ rfl
      cases s with
      | request now r =>
        cases r with
        | remove ticket o => exact decided_remove h hi now ticket o
        | _ => exact hkeep (by simp) (by simp)
      | expire now => exact decided_expire h hi now
      | _ => exact hkeep (by simp) (by simp)
    · rw [Decided, Moment.step, if_neg hi]
      refine Or.inr ⟨?_, h⟩
      rintro o (_ | ⟨hi', -⟩ | ⟨hi', -⟩)
      · exact hi hi'
      · exact hi hi'
  | switch sm =>
    refine Or.inr ⟨?_, h⟩
    rintro o ⟨⟩

end Addition

/-! ## Along a run -/

/-- in any run a bucket stays aside, or some move settles it -/
theorem Moment.settled_since {m : Moment} {n : UInt32} {a : Addition} (h : m.controller.deferred.get? n = some a)
    (since : List Move) :
    (m.run since).controller.deferred.get? n = some a ∨
      ∃ l move k o, since = l ++ move :: k ∧ (m.run l).controller.deferred.get? n = some a ∧
        a.Settled n (m.run l) move o ∧ ⟨a.ticket, o⟩ ∈ (m.run (l ++ [move])).controller.replies := by
  induction since generalizing m with
  | nil => exact Or.inl h
  | cons move since ih =>
    rcases Addition.decided h move with ⟨o, hs, -, hreply⟩ | ⟨-, h'⟩
    · exact Or.inr ⟨[], move, since, o, rfl, h, hs, hreply⟩
    · refine (ih h').imp_right ?_
      rintro ⟨l, later, k, o, rfl, hl, hs, hreply⟩
      exact ⟨move :: l, later, k, o, rfl, hl, hs, hreply⟩

/-- **Buckets that are put aside are covered, and settled.** At every moment of every run the objective of a bucket that
is put aside waits itself, as a registrant in the tracker. The next move answers the request for the bucket if it
completes or expires a registrant of the objective or is a request to remove it, and otherwise leaves the bucket aside.
At any later moment the bucket is aside still, or there was such a move, and the request has had the answer that goes
with it and no other. -/
theorem parked_buckets_are_settled {device : DeviceId} {delay : Nat} {switch : Switch} {store : Store}
    {metrics : Metrics} {before since : List Move}
    (h : Allowed (fun m move => move.Admissible device m) (.start device delay switch store metrics)
      (before ++ since)) {n : UInt32} {a : Addition} :
    let m := (Moment.start device delay switch store metrics).run before
    m.controller.deferred.get? n = some a →
      (a.objective.id = n ∧ m.controller.tracker.hasObjective n = true) ∧ (∀ move, a.Decided n m move) ∧
        ((m.run since).controller.deferred.get? n = some a ∨
          ∃ l move k o, since = l ++ move :: k ∧ (m.run l).controller.deferred.get? n = some a ∧
            a.Settled n (m.run l) move o ∧ ⟨a.ticket, o⟩ ∈ (m.run since).controller.replies ∧
            (m.run since).Answered (.addBucket a)) := by
  intro m ha
  obtain ⟨hbefore, hsince⟩ := allowed_append.1 h
  obtain ⟨hm, hdm⟩ := booked_run hbefore
  obtain ⟨haccepted, hid⟩ := hm.deferred n a ha
  have hcovered : m.controller.Covers [] := covered_run (fun n a ha => by cases ha) before
  refine ⟨⟨hid, hcovered.hasObjective ha⟩, Addition.decided ha, ?_⟩
  rcases Moment.settled_since ha since with h' | ⟨l, move, k, o, rfl, hl, hs, hreply⟩
  · exact Or.inl h'
  have hsplit : l ++ move :: k = l ++ [move] ++ k := by rw [List.append_assoc, List.singleton_append]
  rw [hsplit] at hsince ⊢
  obtain ⟨hfirst, hlater⟩ := allowed_append.1 hsince
  obtain ⟨hsettled, hdl⟩ := hm.run hdm hfirst
  obtain ⟨hend, hdn⟩ := hm.run hdm hsince
  have hmem : ⟨a.ticket, o⟩ ∈ (m.run (l ++ [move] ++ k)).controller.replies := by
    rw [Moment.run_append]
    exact (hsettled.replies_grow hdl hlater).subset hreply
  have hpos : 0 < (m.run (l ++ [move] ++ k)).answers a.ticket := List.count_pos_iff.2 (List.mem_map_of_mem hmem)
  refine Or.inr ⟨l, move, k, o, hsplit.symm, hl, hs, hmem, ?_⟩
  rcases hend.stands hdn (Moment.accepted_run haccepted _) with hanswered | hwaits | haside
  · exact hanswered
  · exact absurd hwaits.1 hpos.ne'
  · exact absurd haside.1 hpos.ne'

/-- the sample's bucket is aside while its objective waits, and is settled once this is installed -/
theorem parked_sample_is_settled :
    let m := Sample.start.run Sample.parked
    let n := m.run [.handle (.event ⟨.added, Key.l3Ecmp 4⟩), .work]
    m.controller.deferred.get? 4 = some (Sample.addition 1 ⟨20⟩) ∧ m.controller.tracker.hasObjective 4 = true ∧
      n.controller.deferred.get? 4 = none ∧ n.Answered (.addBucket (Sample.addition 1 ⟨20⟩)) := by
  have hinstall : Sample.hashedRequest.Planned Sample.device := ⟨0, rfl⟩
  have hadd : (Request.addBucket (Sample.addition 1 ⟨20⟩)).Planned Sample.device := ⟨0, rfl⟩
  have h : Allowed (fun m move => move.Admissible Sample.device m) Sample.start
      (Sample.parked ++ [.handle (.event ⟨.added, Key.l3Ecmp 4⟩), .work]) :=
    ⟨⟨hinstall, List.not_mem_nil⟩, trivial, ⟨hadd, by decide +kernel⟩, allowed_admissible (by decide +kernel) _⟩
  have ha : (Sample.start.run Sample.parked).controller.deferred.get? 4 = some (Sample.addition 1 ⟨20⟩) := by
    decide +kernel
  have hnone : ((Sample.start.run Sample.parked).run
      [.handle (.event ⟨.added, Key.l3Ecmp 4⟩), .work]).controller.deferred.get? 4 = none := by
    decide +kernel
  unfold Sample.start at h ha hnone ⊢
  obtain ⟨⟨-, hwaits⟩, -, hsince⟩ := parked_buckets_are_settled h ha
  refine ⟨ha, hwaits, hnone, ?_⟩
  rcases hsince with haside | ⟨l, move, k, o, -, -, -, -, hanswered⟩
  · cases hnone.symm.trans haside
  · exact hanswered

end FlowGroups
