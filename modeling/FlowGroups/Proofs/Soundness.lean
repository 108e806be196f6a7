/-
What success means. Every group that a switch knows was asked for by an element whose own prerequisites stood, but this
need not be the element of the plan in question: groups are shared by key, and two elements that create one group may
wait for different groups (`Shortcut`).

- `installed_without_shortcuts`: when a request to install is answered with success, its top-level group stands; all
  groups of its chains stand unless some group on the way down was created by a shortcut past the one below it.
- `success_with_a_group_missing`: a plan with such a shortcut, answered with success before its last group stands.
-/
import FlowGroups.Proofs.Ledger
import FlowGroups.Proofs.Order

namespace FlowGroups

/-! ## Where groups come from -/

/-- the group is the first of its plan, or an element that creates it waits only for what `D` holds of -/
def Source (D : Key → Prop) (acc : List Request) (k : Key) : Prop :=
  (∃ d, AskedFirst acc d ∧ d.key = k) ∨ ∃ e, Asked acc e ∧ e.Creates k ∧ ∀ j ∈ e.waitOn, D j

theorem Source.mono {D E : Key → Prop} {acc : List Request} {k : Key} (h : Source D acc k) (hDE : ∀ j, D j → E j) :
    Source E acc k := by
  rcases h with hfirst | ⟨e, he, hc, hw⟩
  · exact Or.inl hfirst
  · exact Or.inr ⟨e, he, hc, fun j hj => hDE j (hw j hj)⟩

theorem Source.snoc {D : Key → Prop} {acc : List Request} {k : Key} (h : Source D acc k) (rs : List Request) :
    Source D (acc ++ rs) k := by
  rcases h with ⟨d, hd, hkey⟩ | ⟨e, he, hc, hw⟩
  · exact Or.inl ⟨d, hd.snoc rs, hkey⟩
  · exact Or.inr ⟨e, he.snoc rs, hc, hw⟩

/-- what a founded item of work asks for is on the device, and has a source -/
theorem Founded.source {D : Key → Prop} {device : DeviceId} {acc : List Request} {c : Controller} {queue : List Work}
    (hf : Founded D device acc c queue) {w : Work} (hw : w.Founded D acc) {d : Descriptor} (hd : Controller.Asks w d) :
    d.device = c.device ∧ Source D acc d.key := by
  refine ⟨(hf.home_of_asks hw hd).trans hf.home.symm, ?_⟩
  rcases hd with rfl | ⟨e, rfl, hb, rfl⟩
  · exact Or.inl ⟨d, hw, rfl⟩
  · exact Or.inr ⟨e, hw.1, ⟨hb, rfl⟩, hw.2⟩

/-- every group that is known was asked for with its own prerequisites standing -/
def Sourced (acc : List Request) (c : Controller) : Prop := ∀ k, c.Knows k → Source c.Stands acc k

theorem sourced_start (device : DeviceId) (delay : Nat) (isAutomatic : Bool) (store : Store) (metrics : Metrics) :
    Sourced [] (Controller.start device delay (.fresh isAutomatic) store metrics) := by
  rintro k (⟨d, hd⟩ | ⟨d, hd⟩) <;> cases hd

/-- no group becomes known, and none that stands falls -/
theorem Sourced.mono {acc : List Request} {c d : Controller} (h : Sourced acc c) (hk : ∀ k, d.Knows k → c.Knows k)
    (hs : ∀ k, c.Stands k → d.Stands k) : Sourced acc d := by
  intro k hd
  exact (h k (hk k hd)).mono hs

theorem Sourced.snoc {acc : List Request} {c : Controller} (h : Sourced acc c) (rs : List Request) :
    Sourced (acc ++ rs) c := by
  intro k hk
  exact (h k hk).snoc rs

theorem Sourced.step {device : DeviceId} {m : Moment} (h : Sourced m.accepted m.controller)
    (hf : Founded m.controller.Stands device m.accepted m.controller m.queue) {move : Move} (hr : ¬move.removes) :
    Sourced (m.step move).accepted (m.step move).controller := by
  cases move with
  | work =>
    simp only [Moment.step, Moment.work]
    split
    · exact h
    · rename_i w ws hq
      have hw := hf.work w (hq ▸ List.mem_cons_self)
      rcases m.controller.process_groups w with hs | ⟨d, hd, he⟩
      · exact h.mono (fun k => (hs.knows k).1) fun k => (hs.stands k).2
      · obtain ⟨hdevice, hsource⟩ := hf.source hw hd
        have hstands : ∀ j, m.controller.Stands j → (m.controller.asked d).Stands j := by
          intro j hj
          exact Controller.stands_asked hj
        rw [he]
        intro k hk
        rcases (Controller.knows_asked hdevice).1 hk with hk | rfl
        · exact (h k hk).mono hstands
        · exact hsource.mono hstands
  | handle s =>
    rw [Moment.step]
    split_ifs
    · have hs := Controller.same_opening (c := m.controller) hr
      exact (h.snoc s.request?.toList).mono (fun k => (hs.knows k).1) fun k => (hs.stands k).2
    · exact h
  | switch sm =>
    exact h.mono (fun k => Switch.knows_of_move) fun k => Switch.stands_move sm

/-! ## Who is answered with success -/

/-- success is for a request to install whose top-level group satisfies `D`, or for one that changes buckets -/
def Vouched (D : Key → Prop) (acc : List Request) (reply : Reply) : Prop :=
  ∀ id, reply.outcome = .installed id →
    (∃ o p, .install reply.ticket o p ∈ acc ∧ D p.topKey) ∨
      ∃ r ∈ acc, r.ticket = reply.ticket ∧ ∀ ticket o p, r ≠ .install ticket o p

theorem Vouched.mono {D E : Key → Prop} {acc acc' : List Request} {reply : Reply} (h : Vouched D acc reply)
    (hDE : ∀ k, D k → E k) (ha : ∀ r ∈ acc, r ∈ acc') : Vouched E acc' reply := by
  intro id hid
  rcases h id hid with ⟨o, p, hr, hp⟩ | ⟨r, hr, ht⟩
  · exact Or.inl ⟨o, p, ha _ hr, hDE _ hp⟩
  · exact Or.inr ⟨r, ha r hr, ht⟩

theorem vouched_failed (D : Key → Prop) (acc : List Request) (ticket : Ticket) (e : ObjectiveError) :
    Vouched D acc ⟨ticket, .failed e⟩ := by
  intro id hid
  cases hid

theorem vouched_addBucket {D : Key → Prop} {acc : List Request} {a : Addition} (h : .addBucket a ∈ acc) (o : Outcome) :
    Vouched D acc ⟨a.ticket, o⟩ := by
  intro id _
  exact Or.inr ⟨.addBucket a, h, rfl, fun _ _ _ hc => by cases hc⟩

theorem forall_mem_snoc {β : Type} {P : β → Prop} {l : List β} {b : β} (h : ∀ x ∈ l, P x) (hb : P b) :
    ∀ x ∈ l ++ [b], P x := by
  intro x hx
  rcases List.mem_append.1 hx with hx | hx
  · exact h x hx
  · rw [List.mem_singleton.1 hx]
    exact hb

namespace Controller

variable {D : Key → Prop} {acc : List Request} {c : Controller}

theorem vouched_complete {k : Key} {r : Registrant} (hr : r.From acc k) (hk : D k)
    (hd : ∀ n a, c.deferred.get? n = some a → .addBucket a ∈ acc) (h : ∀ reply ∈ c.replies, Vouched D acc reply) :
    ∀ reply ∈ (c.complete k r).1.replies, Vouched D acc reply := by
  obtain ⟨p, hp, htop, -⟩ := hr
  have hrec : ∀ reply ∈ (c.recorded k r).replies, Vouched D acc reply :=
    forall_mem_snoc h fun _ _ => Or.inl ⟨r.objective, p, hp, htop ▸ hk⟩
  rcases c.complete_cases k r with ⟨a, ha, he⟩ | ⟨-, he⟩
  · rw [he, extend_eq]
    exact forall_mem_snoc hrec (vouched_addBucket (hd _ a ha) _)
  · rw [he]
    exact hrec

theorem deferred_complete {k : Key} {r : Registrant} (hd : ∀ n a, c.deferred.get? n = some a → .addBucket a ∈ acc) :
    ∀ n a, (c.complete k r).1.deferred.get? n = some a → .addBucket a ∈ acc := by
  intro n b hb
  rcases c.complete_cases k r with ⟨a, -, he⟩ | ⟨-, he⟩
  · rw [he, extend_eq] at hb
    exact hd n b (Registry.of_get?_erase hb).2
  · rw [he] at hb
    exact hd n b hb

theorem vouched_confirm {base : List Reply} {initial : Store} {k : Key} (hb : Booked base initial acc [] c) (hk : D k)
    (h : ∀ reply ∈ c.replies, Vouched D acc reply) : ∀ reply ∈ (c.confirm k).1.replies, Vouched D acc reply := by
  rcases c.confirm_cases k with ⟨ids, -, he⟩ | ⟨rs, -, ho, he⟩ | he
  · rw [he]
    exact h
  · rw [he]
    have hall := completeAll_keeps (k := k) (c := { c.release k with tracker := c.tracker.discharge k })
      (P := fun out d _ => (∀ r ∈ out, r.From acc k) ∧ (∀ n a, d.deferred.get? n = some a → .addBucket a ∈ acc) ∧
        ∀ reply ∈ d.replies, Vouched D acc reply) ?_
      ⟨fun r hr => hb.registered k r ⟨rs, ho, hr⟩, fun n a ha => (hb.deferred n a ha).1, h⟩
    · exact hall.2.2
    · rintro r out d - ⟨hout, hd, hv⟩
      exact ⟨fun s hs => hout s (List.mem_cons_of_mem r hs), deferred_complete hd,
        vouched_complete (hout r List.mem_cons_self) hk hd hv⟩
  · rw [he]
    exact h

theorem vouched_process {base : List Reply} {initial : Store} {w : Work} (hb : Booked base initial acc [] c)
    (hw : w.Founded D acc) (h : ∀ reply ∈ c.replies, Vouched D acc reply) :
    ∀ reply ∈ (c.process w).1.replies, Vouched D acc reply := by
  have hdone := c.performs w
  generalize c.process w = x at hdone ⊢
  cases hdone with
  | awaited | found | ask | addBuckets => exact h
  | confirm k => exact vouched_confirm hb hw h

/-- giving up is answered with failure -/
theorem vouched_expire (now : Nat) (h : ∀ reply ∈ c.replies, Vouched D acc reply) :
    ∀ reply ∈ (c.expire now).replies, Vouched D acc reply := by
  refine expire_keeps (P := fun _ d => ∀ reply ∈ d.replies, Vouched D acc reply) ?_ (fun d hd => hd) h
  intro r rs d hd
  have hf : ∀ reply ∈ (d.failed r).replies, Vouched D acc reply := forall_mem_snoc hd (vouched_failed _ _ _ _)
  rcases d.abandonOne_cases r with ⟨a, -, he⟩ | ⟨-, he⟩
  · rw [he]
    exact forall_mem_snoc hf (vouched_failed _ _ _ _)
  · rw [he]
    exact hf

theorem vouched_opening (s : Stimulus) (hr : ¬(Move.handle s).removes) (h : ∀ reply ∈ c.replies, Vouched D acc reply) :
    ∀ reply ∈ (c.opening s).1.replies, Vouched D (acc ++ s.request?.toList) reply := by
  have h' : ∀ reply ∈ c.replies, Vouched D (acc ++ s.request?.toList) reply := by
    intro reply hm
    exact (h reply hm).mono (fun _ hk => hk) fun _ hr => List.mem_append_left _ hr
  have hopens := c.opens s
  generalize c.opening s = x at hopens ⊢
  cases hopens with
  | extend => exact forall_mem_snoc h' (vouched_addBucket List.mem_concat_self _)
  | refuseBucket | refuseDetach => exact forall_mem_snoc h' (vouched_failed _ _ _ _)
  | detach => exact forall_mem_snoc h' fun _ _ => Or.inr ⟨_, List.mem_concat_self, rfl, fun _ _ _ hc => by cases hc⟩
  | remove => exact absurd rfl hr
  | expire now => exact vouched_expire now h'
  | install | defer | added | removed | error | sweep => exact h'

end Controller

/-! ## Success and the groups of a plan -/

structure Backed (device : DeviceId) (store : Store) (m : Moment) : Prop where
  founded : Founded m.controller.Stands device m.accepted m.controller m.queue
  booked : Booked [] store m.accepted [] m.controller
  distinct : m.Distinct
  sourced : Sourced m.accepted m.controller
  vouched : ∀ reply ∈ m.controller.replies, Vouched m.controller.Stands m.accepted reply

theorem Backed.step {device : DeviceId} {store : Store} {m : Moment} (h : Backed device store m) {move : Move}
    (ha : move.Admissible device m) (hr : ¬move.removes) (ht : move.Truthful m) :
    Backed device store (m.step move) := by
  have hstands : ∀ k, m.controller.Stands k → (m.step move).controller.Stands k := by
    intro k hk
    exact Moment.stands_step hr hk
  refine ⟨(h.founded.mono hstands).step ha hr hstands ?_, h.booked.step move, h.distinct.step ha,
    h.sourced.step h.founded hr, ?_⟩
  · rintro k rfl
    exact hstands k (ht k rfl)
  · have hmono : ∀ reply ∈ m.controller.replies, Vouched (m.step move).controller.Stands m.accepted reply := by
      intro reply hm
      exact (h.vouched reply hm).mono hstands fun _ hr => hr
    cases move with
    | work =>
      cases hq : m.queue with
      | nil =>
        simp only [Moment.step, Moment.work, hq] at hmono ⊢
        exact hmono
      | cons w ws =>
        have hw := (h.founded.mono hstands).work w (hq ▸ List.mem_cons_self)
        simp only [Moment.step, Moment.work, hq] at hw hmono ⊢
        exact Controller.vouched_process h.booked hw hmono
    | handle s =>
      simp only [Moment.step] at hmono ⊢
      split_ifs at hmono ⊢
      · exact Controller.vouched_opening s hr hmono
      · exact hmono
    | switch sm => exact hmono

/-- does some chain of the plan have the one group right above the other? -/
def Plan.Above (p : Plan) (outer inner : Key) : Prop := ∃ chain ∈ p.record.chains, [outer, inner] <:+: chain

/-- an element of some plan that creates the one group and does not wait for the other -/
def Shortcut (acc : List Request) (outer inner : Key) (e : Element) : Prop :=
  Asked acc e ∧ e.Creates outer ∧ inner ∉ e.waitOn

/-- what holds of the first key of a list, and of each key if it holds of the one before, holds of all -/
theorem forall_mem_of_head {P : Key → Prop} {chain : List Key} {top : Key} (hhead : chain.head? = some top)
    (htop : P top) (hdown : ∀ outer inner, [outer, inner] <:+: chain → P outer → P inner) : ∀ k ∈ chain, P k := by
  have hchain : chain.IsChain fun outer inner => P outer → P inner :=
    (List.isChain_isInfix chain).imp fun outer inner h => hdown outer inner h
  refine hchain.induction P chain (fun _ _ h => h) fun hne => ?_
  rw [List.head?_eq_some_head hne, Option.some.injEq] at hhead
  exact hhead ▸ htop

/-- below a group that stands there is one that stands, unless somebody took a shortcut -/
theorem Backed.below {device : DeviceId} {store : Store} {m : Moment} (h : Backed device store m) {ticket : Ticket}
    {o : Objective} {p : Plan} (hr : .install ticket o p ∈ m.accepted) {outer inner : Key} (ha : p.Above outer inner)
    (ho : m.controller.Stands outer) :
    m.controller.Stands inner ∨
      ∃ e, Shortcut m.accepted outer inner e ∧ ∀ k ∈ e.waitOn, m.controller.Stands k := by
  have hplanned := h.founded.planned _ hr
  obtain ⟨chain, hchain, above, under, hsplit⟩ := ha
  have hlinked := hplanned.rooted.linked chain hchain
  rw [← hsplit] at hlinked
  obtain ⟨f, hf, hcreates, -⟩ := List.isChain_pair.1 hlinked.left_of_append.right_of_append
  rcases h.sourced outer ho.knows with ⟨d, ⟨r, hr', q, hq, hd⟩, rfl⟩ | ⟨e, he, hc, hw⟩
  · -- the first groups of a plan are in the lowest layer, where no element creates any
    have hlow := ((h.founded.planned r hr').wellFormed hq).bottom d hd
    have hhigh := (hplanned.wellFormed rfl).above f hf
    rw [hcreates.2, hlow] at hhigh
    exact absurd hhigh (Nat.lt_irrefl 0)
  · by_cases hin : inner ∈ e.waitOn
    · exact Or.inl (hw inner hin)
    · exact Or.inr ⟨e, ⟨he, hc, hin⟩, hw⟩

theorem Backed.top_stands {device : DeviceId} {store : Store} {m : Moment} (h : Backed device store m) {ticket : Ticket}
    {o : Objective} {p : Plan} (hr : .install ticket o p ∈ m.accepted) {id : GroupId}
    (hok : ⟨ticket, .installed id⟩ ∈ m.controller.replies) : m.controller.Stands p.topKey := by
  have hsame : ∀ q ∈ m.accepted, q.ticket = ticket → q = .install ticket o p := by
    intro q hq ht
    exact List.inj_on_of_nodup_map h.distinct hq hr ht
  rcases h.vouched _ hok id rfl with ⟨o', p', hr', hp'⟩ | ⟨r, hr', ht, hne⟩
  · cases hsame _ hr' rfl
    exact hp'
  · exact absurd (hsame r hr' ht) (hne _ _ _)

/-- **What success means.** In a run without removals from an empty switch, in which only groups that stand are reported
added: when a request to install has been answered with success, its top-level group stands. All groups of its chains
stand if and only if none is missing below a group that was created by a shortcut past it; so they do stand if no plan
at all takes a shortcut past a group of these chains. -/
theorem installed_without_shortcuts {device : DeviceId} {delay : Nat} {isAutomatic : Bool} {store : Store}
    {metrics : Metrics} {moves : List Move}
    (h : Allowed (fun m move => move.Admissible device m ∧ ¬move.removes ∧ move.Truthful m)
      (.start device delay (.fresh isAutomatic) store metrics) moves)
    {ticket : Ticket} {o : Objective} {p : Plan} {id : GroupId} :
    let m := (Moment.start device delay (.fresh isAutomatic) store metrics).run moves
    .install ticket o p ∈ m.accepted → ⟨ticket, .installed id⟩ ∈ m.controller.replies →
      m.controller.Stands p.topKey ∧
      ((∀ chain ∈ p.record.chains, ∀ k ∈ chain, m.controller.Stands k) ↔
        ¬∃ outer inner e, p.Above outer inner ∧ m.controller.Stands outer ∧ ¬m.controller.Stands inner ∧
          Shortcut m.accepted outer inner e ∧ ∀ k ∈ e.waitOn, m.controller.Stands k) ∧
      ((∀ outer inner e, p.Above outer inner → ¬Shortcut m.accepted outer inner e) →
        ∀ chain ∈ p.record.chains, ∀ k ∈ chain, m.controller.Stands k) := by
  intro m hr hok
  have hb : Backed device store m := by
    refine h.keeps (P := Backed device store) (fun _ _ hmove hm => hm.step hmove.1 hmove.2.1 hmove.2.2) ?_
    exact ⟨founded_start _ _ _ _ _ _, booked_start _ _ _ _ _, List.nodup_nil, sourced_start _ _ _ _ _,
      by simp [Moment.start, Controller.start]⟩
  have htop := hb.top_stands hr hok
  -- from the top of a chain down, every group stands if each one makes the next one stand
  have hall : (∀ outer inner, p.Above outer inner → m.controller.Stands outer → m.controller.Stands inner) →
      ∀ chain ∈ p.record.chains, ∀ k ∈ chain, m.controller.Stands k := by
    intro hdown chain hchain
    have hhead := (hb.founded.planned _ hr).rooted.topped chain hchain
    exact forall_mem_of_head hhead htop fun outer inner hi => hdown outer inner ⟨chain, hchain, hi⟩
  refine ⟨htop, ⟨?_, ?_⟩, ?_⟩
  · rintro hstand ⟨outer, inner, e, ⟨chain, hchain, hi⟩, -, hn, -⟩
    have hmem : inner ∈ chain := hi.subset (List.mem_cons_of_mem _ List.mem_cons_self)
    exact hn (hstand chain hchain inner hmem)
  · intro hno
    apply hall
    intro outer inner ha ho
    rcases hb.below hr ha ho with hs | ⟨e, he, hw⟩
    · exact hs
    · by_contra hn
      exact hno ⟨outer, inner, e, ha, ho, hn, he, hw⟩
  · intro hno
    apply hall
    intro outer inner ha ho
    rcases hb.below hr ha ho with hs | ⟨e, he, -⟩
    · exact hs
    · exact absurd he (hno outer inner e ha)

/-- the sample's one element waits for the one group below its own -/
theorem sample_has_no_shortcuts (outer inner : Key) (e : Element) (h : Sample.plan.Above outer inner) :
    ¬Shortcut [Sample.request] outer inner e := by
  obtain ⟨chain, hchain, hi⟩ := h
  rintro ⟨⟨r, hr, p, hp, he⟩, -, hn⟩
  obtain rfl := List.mem_singleton.1 hr
  cases hp
  obtain rfl := List.mem_singleton.1 he
  obtain rfl := List.mem_singleton.1 hchain
  obtain ⟨-, rfl⟩ : outer = (Sample.outer ⟨10⟩).key ∧ inner = (Sample.inner ⟨10⟩).key := by
    simpa using hi.eq_of_length rfl
  exact hn (Element.mem_after.2 (List.mem_singleton.2 rfl))

theorem chains_of_sample_stand :
    let m := Sample.start.run (Sample.readied ++ Sample.finished)
    ⟨0, .installed Sample.plan.topId⟩ ∈ m.controller.replies ∧
      ∀ chain ∈ Sample.plan.record.chains, ∀ k ∈ chain, m.controller.Stands k := by
  have h : Allowed (fun m move => move.Admissible Sample.device m ∧ ¬move.removes ∧ move.Truthful m)
      Sample.start (Sample.readied ++ Sample.finished) :=
    allowed_and.2 ⟨Sample.admissible _ (by decide +kernel), by decide +kernel⟩
  have hacc : (Sample.start.run (Sample.readied ++ Sample.finished)).accepted = [Sample.request] := by decide +kernel
  have hok : ⟨0, .installed Sample.plan.topId⟩ ∈
      (Sample.start.run (Sample.readied ++ Sample.finished)).controller.replies := by decide +kernel
  refine ⟨hok, ?_⟩
  unfold Sample.start at h hacc hok ⊢
  refine (installed_without_shortcuts h (hacc ▸ List.mem_cons_self) hok).2.2 fun outer inner e ha => ?_
  rw [hacc]
  exact sample_has_no_shortcuts outer inner e ha

/-! ## A shortcut -/

namespace Sample

/-- two buckets to one address through one port, in two VLANs; the key of their L3 unicast group is the same -/
def twoVlans : Objective := ⟨4, .hashed, [bucket ⟨10⟩, bucket ⟨20⟩], ⟨"sample"⟩, none⟩

def chain (vlan : VlanId) : BucketChain :=
  ⟨inner vlan, [element vlan], outer vlan, [(outer vlan).key, (inner vlan).key]⟩

def twoVlansPlan : Plan := twoVlans.planEcmp device [chain ⟨10⟩, chain ⟨20⟩] false

/-- the interface group of VLAN 20 is confirmed, then the L3 unicast group, then the ECMP group -/
def halfConfirmed : List Move :=
  [.handle (.request 0 (.install 0 twoVlans twoVlansPlan)), .work, .work] ++
    confirmed (inner ⟨20⟩).key ++ [.work, .work] ++ confirmed (outer ⟨20⟩).key ++ [.work, .work] ++
    confirmed twoVlansPlan.topKey ++ [.work]

end Sample

/-- **Success with a group missing.** The L3 unicast group of two buckets is asked for as soon as the interface group of
one of them stands; the objective is then answered with success while the interface group of the other is still only
held. -/
theorem success_with_a_group_missing :
    let m := Sample.start.run Sample.halfConfirmed
    Allowed (fun m move => move.Admissible Sample.device m ∧ ¬move.removes ∧ move.Truthful m) Sample.start
        Sample.halfConfirmed ∧
      .install 0 Sample.twoVlans Sample.twoVlansPlan ∈ m.accepted ∧
      ⟨0, .installed Sample.twoVlansPlan.topId⟩ ∈ m.controller.replies ∧
      ¬∀ chain ∈ Sample.twoVlansPlan.record.chains, ∀ k ∈ chain, m.controller.Stands k := by
  intro m
  have hplanned : (Request.install 0 Sample.twoVlans Sample.twoVlansPlan).Planned Sample.device := ⟨0, rfl⟩
  refine ⟨allowed_and.2 ⟨⟨⟨hplanned, List.not_mem_nil⟩, ?_⟩, by decide +kernel⟩, by decide +kernel, by decide +kernel,
    by decide +kernel⟩
  exact allowed_admissible (by decide +kernel) _

end FlowGroups
