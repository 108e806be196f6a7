/-
Who is still owed an answer. Every ticket handed in is in one of three places: among the replies, with a registrant in
the tracker, or with a bucket put aside. An operation moves tickets from place to place and loses none
(`Booked.balance`), and every write to the store goes with one answer (`Written`).

- `settled_exactly_once`: at every moment each accepted request is answered once, waits once, or is put aside once.
-/
import FlowGroups.Proofs.Run

namespace FlowGroups

/-! ## Writes and answers -/

/-- The store since there were only the replies `base` and it was `initial`. Every reply since went with what it says
was done: one write for a request that succeeded, none for one that failed. -/
inductive Written (accepted : List Request) (base : List Reply) (initial : Store) : List Reply → Store → Prop
  | start : Written accepted base initial base initial
  | installed {rs s} (ticket : Ticket) (o : Objective) (p : Plan) (id : GroupId)
      (h : Written accepted base initial rs s) (hr : .install ticket o p ∈ accepted) :
      Written accepted base initial (rs ++ [⟨ticket, .installed id⟩]) (s.put p.record)
  /-- the record extended is the one that is stored, or was written just before -/
  | extended {rs s} (a : Addition) (existing : Record) (id : GroupId) (h : Written accepted base initial rs s)
      (hr : .addBucket a ∈ accepted)
      (hs : s.get a.objective.id = .ok (some existing) ∨ ∃ t, s = Store.put t existing) :
      Written accepted base initial (rs ++ [⟨a.ticket, .installed id⟩]) (s.put (existing.append a.plan.record))
  | shortened {rs s} (ticket : Ticket) (o : Objective) (port : PortNumber) (existing : Record) (i : Nat) (id : GroupId)
      (h : Written accepted base initial rs s) (hr : .removeBucket ticket o port ∈ accepted)
      (hs : s.get o.id = .ok (some existing)) :
      Written accepted base initial (rs ++ [⟨ticket, .installed id⟩])
        (s.put { existing with chains := existing.chains.eraseIdx i })
  | removed {rs s} (ticket : Ticket) (o : Objective) (h : Written accepted base initial rs s)
      (hr : .remove ticket o ∈ accepted) :
      Written accepted base initial (rs ++ [⟨ticket, .removed⟩]) (s.remove o.id).1
  | failed {rs s} (ticket : Ticket) (e : ObjectiveError) (h : Written accepted base initial rs s) :
      Written accepted base initial (rs ++ [⟨ticket, .failed e⟩]) s

theorem Written.mono {acc acc' : List Request} {base rs : List Reply} {initial s : Store}
    (h : Written acc base initial rs s) (hsub : ∀ r ∈ acc, r ∈ acc') : Written acc' base initial rs s := by
  induction h with
  | start => exact .start
  | installed ticket o p id _ hr ih => exact .installed ticket o p id ih (hsub _ hr)
  | extended a existing id _ hr hs ih => exact .extended a existing id ih (hsub _ hr) hs
  | shortened ticket o port existing i id _ hr hs ih => exact .shortened ticket o port existing i id ih (hsub _ hr) hs
  | removed ticket o _ hr ih => exact .removed ticket o ih (hsub _ hr)
  | failed ticket e _ ih => exact .failed ticket e ih

/-! ## The books -/

/-- the registrant stands for a request to install -/
def Registrant.From (acc : List Request) (k : Key) (r : Registrant) : Prop :=
  ∃ p, .install r.ticket r.objective p ∈ acc ∧ p.topKey = k ∧ p.record = r.record

theorem Registrant.From.snoc {acc : List Request} {k : Key} {r : Registrant} (h : r.From acc k) (rs : List Request) :
    r.From (acc ++ rs) k := by
  obtain ⟨p, hp, hk⟩ := h
  exact ⟨p, List.mem_append_left rs hp, hk⟩

/-- every ticket in sight: answered, with registrants taken out or waiting, or with a bucket put aside -/
def Controller.owing (c : Controller) (out : List Registrant) : List Ticket :=
  c.replies.map (·.ticket) ++
    (out.map (·.ticket) ++ (c.tracker.registrants.map (·.ticket) ++ c.deferred.values.map (·.ticket)))

namespace Controller

theorem owing_cons (c : Controller) (r : Registrant) (out : List Registrant) :
    (c.owing (r :: out)).Perm (r.ticket :: c.owing out) :=
  List.perm_middle

theorem owing_answer (c : Controller) (out : List Registrant) (ticket : Ticket) (o : Outcome) :
    (({ c with replies := c.replies ++ [⟨ticket, o⟩] } : Controller).owing out).Perm (ticket :: c.owing out) := by
  simp only [owing, List.map_append, List.map_cons, List.map_nil, List.append_assoc, List.singleton_append]
  exact List.perm_middle

theorem owing_erase {c : Controller} {n : UInt32} {a : Addition} (h : c.deferred.get? n = some a)
    (out : List Registrant) :
    (c.owing out).Perm (a.ticket :: ({ c with deferred := c.deferred.erase n } : Controller).owing out) := by
  have hp := (Registry.values_perm_erase h).map fun b : Addition => b.ticket
  rw [List.perm_iff_count] at hp ⊢
  intro t
  have := hp t
  simp only [owing, List.count_append, List.map_cons, List.count_cons] at this ⊢
  omega

theorem owing_insert {c : Controller} {n : UInt32} (a : Addition) (h : c.deferred.get? n = none)
    (out : List Registrant) :
    (({ c with deferred := c.deferred.insert n a } : Controller).owing out).Perm (a.ticket :: c.owing out) := by
  have hp := (Registry.values_insert_perm c.deferred n a).map fun b : Addition => b.ticket
  rw [Registry.erase_eq_self h] at hp
  rw [List.perm_iff_count] at hp ⊢
  intro t
  have := hp t
  simp only [owing, List.count_append, List.map_cons, List.count_cons] at this ⊢
  omega

end Controller

/-- the books are right, with some registrants taken out of the tracker and not dealt with yet -/
structure Booked (base : List Reply) (initial : Store) (acc : List Request) (out : List Registrant) (c : Controller) :
    Prop where
  registered : ∀ k r, c.tracker.Registered k r → r.From acc k
  outside : ∀ r ∈ out, ∃ k, r.From acc k
  deferred : ∀ n a, c.deferred.get? n = some a → .addBucket a ∈ acc ∧ a.objective.id = n
  balance : (c.owing out).Perm (acc.map Request.ticket)
  written : Written acc base initial c.replies c.store

namespace Booked

variable {base : List Reply} {initial : Store} {acc : List Request} {out : List Registrant} {c d : Controller}

theorem congr (h : Booked base initial acc out c) (ho : d.tracker.objectives = c.tracker.objectives)
    (hd : d.deferred = c.deferred) (hr : d.replies = c.replies) (hs : d.store = c.store) :
    Booked base initial acc out d := by
  have hreg : ∀ k r, d.tracker.Registered k r → c.tracker.Registered k r := by
    rintro k r ⟨rs, hk, hm⟩
    exact ⟨rs, ho ▸ hk, hm⟩
  have howing : d.owing out = c.owing out := by
    simp only [Controller.owing, Tracker.registrants, ho, hd, hr]
  exact ⟨fun k r hk => h.registered k r (hreg k r hk), h.outside, hd ▸ h.deferred, howing ▸ h.balance,
    hr ▸ hs ▸ h.written⟩

/-- an answer is for a request that was made -/
theorem ticket_of_reply (h : Booked base initial acc out c) {reply : Reply} (hr : reply ∈ c.replies) :
    reply.ticket ∈ acc.map Request.ticket :=
  h.balance.subset (List.mem_append_left _ (List.mem_map_of_mem hr))

/-- an answer takes the place of a registrant -/
theorem balance_registrant {r : Registrant} (h : Booked base initial acc (r :: out) c) (o : Outcome) :
    (({ c with replies := c.replies ++ [⟨r.ticket, o⟩] } : Controller).owing out).Perm (acc.map Request.ticket) :=
  calc
    List.Perm _ (r.ticket :: c.owing out) := c.owing_answer out r.ticket o
    List.Perm _ (c.owing (r :: out)) := (c.owing_cons r out).symm
    List.Perm _ (acc.map Request.ticket) := h.balance

/-- an answer takes the place of a bucket put aside -/
theorem balance_bucket {n : UInt32} {a : Addition} (h : Booked base initial acc out c)
    (ha : c.deferred.get? n = some a) (o : Outcome) :
    (({ c with deferred := c.deferred.erase n, replies := c.replies ++ [⟨a.ticket, o⟩] } : Controller).owing out).Perm
      (acc.map Request.ticket) :=
  calc
    List.Perm _ (a.ticket :: ({ c with deferred := c.deferred.erase n } : Controller).owing out) :=
      Controller.owing_answer { c with deferred := c.deferred.erase n } out a.ticket o
    List.Perm _ (c.owing out) := (Controller.owing_erase ha out).symm
    List.Perm _ (acc.map Request.ticket) := h.balance

/-- one more request comes with one more ticket in sight -/
theorem balance_snoc (h : Booked base initial acc [] c) (r : Request)
    (hd : (d.owing []).Perm (r.ticket :: c.owing [])) : (d.owing []).Perm ((acc ++ [r]).map Request.ticket) :=
  calc
    List.Perm (d.owing []) (r.ticket :: c.owing []) := hd
    List.Perm _ (r.ticket :: acc.map Request.ticket) := h.balance.cons r.ticket
    List.Perm _ (acc.map Request.ticket ++ [r.ticket]) := (List.perm_append_singleton _ _).symm
    _ = (acc ++ [r]).map Request.ticket := by simp

theorem outside_tail {r : Registrant} (h : Booked base initial acc (r :: out) c) : ∀ s ∈ out, ∃ k, s.From acc k := by
  intro s hs
  exact h.outside s (List.mem_cons_of_mem r hs)

theorem deferred_erase (h : Booked base initial acc out c) (n m : UInt32) (a : Addition)
    (ha : (c.deferred.erase n).get? m = some a) : .addBucket a ∈ acc ∧ a.objective.id = m :=
  h.deferred m a (Registry.of_get?_erase ha).2

/-- a registrant is answered that its objective is installed, and its record is written -/
theorem recorded {r : Registrant} (h : Booked base initial acc (r :: out) c) (k : Key) :
    Booked base initial acc out (c.recorded k r) := by
  obtain ⟨j, p, hr, -, hp⟩ := h.outside r List.mem_cons_self
  have hw := h.written.installed r.ticket r.objective p (((c.group? k).map (·.id)).getD r.topId) hr
  rw [hp] at hw
  exact ⟨h.registered, h.outside_tail, h.deferred, h.balance_registrant _, hw⟩

/-- a registrant is answered that its objective failed, and nothing is written -/
theorem failed {r : Registrant} (h : Booked base initial acc (r :: out) c) : Booked base initial acc out (c.failed r) :=
  ⟨h.registered, h.outside_tail, h.deferred, h.balance_registrant _, h.written.failed r.ticket _⟩

/-- a bucket put aside goes to its objective -/
theorem extended {n : UInt32} {a : Addition} (h : Booked base initial acc out c) (ha : c.deferred.get? n = some a)
    {existing : Record} (hs : ∃ t, c.store = Store.put t existing) :
    Booked base initial acc out ({ c with deferred := c.deferred.erase n }.extend existing a).1 := by
  rw [Controller.extend_eq]
  refine ⟨?_, h.outside, h.deferred_erase n, ?_, ?_⟩
  · rintro k r ⟨rs, hk, hm⟩
    rw [Tracker.objectives_registerAll] at hk
    exact h.registered k r ⟨rs, hk, hm⟩
  · have hb := h.balance_bucket ha (.installed a.plan.topId)
    simp only [Controller.owing, Tracker.registrants, Tracker.objectives_registerAll] at hb ⊢
    exact hb
  · exact h.written.extended a existing a.plan.topId (h.deferred n a ha).1 (Or.inr hs)

/-- a bucket put aside is refused -/
theorem withdrawn {n : UInt32} {a : Addition} (h : Booked base initial acc out c) (ha : c.deferred.get? n = some a)
    (e : ObjectiveError) : Booked base initial acc out ({ c with deferred := c.deferred.erase n }.fail a.ticket e) :=
  ⟨h.registered, h.outside, h.deferred_erase n, h.balance_bucket ha _, h.written.failed a.ticket e⟩

theorem complete {r : Registrant} (h : Booked base initial acc (r :: out) c) (k : Key) :
    Booked base initial acc out (c.complete k r).1 := by
  have hrec := h.recorded k
  rcases c.complete_cases k r with ⟨a, ha, he⟩ | ⟨-, he⟩
  · rw [he]
    exact hrec.extended ha ⟨c.store, rfl⟩
  · rw [he]
    exact hrec

theorem abandonOne {r : Registrant} (h : Booked base initial acc (r :: out) c) :
    Booked base initial acc out (c.abandonOne r) := by
  rcases c.abandonOne_cases r with ⟨a, ha, he⟩ | ⟨-, he⟩
  · rw [he]
    exact h.failed.withdrawn ha _
  · rw [he]
    exact h.failed

/-! ### Registrants leave the tracker -/

/-- registrants that left the tracker are outside it -/
theorem taken_out {t : Tracker} {rs : List Registrant} (h : Booked base initial acc [] c)
    (hreg : ∀ k r, t.Registered k r → r.From acc k)
    (hp : c.tracker.registrants.Perm (rs ++ t.registrants)) : Booked base initial acc rs { c with tracker := t } := by
  refine ⟨hreg, ?_, h.deferred, ?_, h.written⟩
  · intro r hr
    obtain ⟨k, hk⟩ := Tracker.mem_registrants_iff.1 (hp.symm.subset (List.mem_append_left _ hr))
    exact ⟨k, h.registered k r hk⟩
  · refine List.Perm.trans ?_ h.balance
    simp only [Controller.owing, List.map_nil, List.nil_append]
    refine List.Perm.append_left _ ?_
    rw [← List.append_assoc, ← List.map_append]
    exact (hp.map Registrant.ticket).symm.append_right _

theorem confirm (h : Booked base initial acc [] c) (k : Key) : Booked base initial acc [] (c.confirm k).1 := by
  have hrel : Booked base initial acc [] (c.release k) := h.congr rfl rfl rfl rfl
  rcases c.confirm_cases k with ⟨ids, -, he⟩ | ⟨rs, -, hk, he⟩ | he
  · rw [he]
    exact hrel.congr rfl rfl rfl rfl
  · rw [he]
    refine Controller.completeAll_keeps (P := fun out d _ => Booked base initial acc out d)
      (fun r rs d ws hd => hd.complete k) (hrel.taken_out ?_ (Tracker.registrants_discharge hk))
    intro j r hr
    exact h.registered j r hr.of_discharge.2
  · rw [he]
    exact hrel

theorem process (h : Booked base initial acc [] c) (w : Work) : Booked base initial acc [] (c.process w).1 := by
  have hdone := c.performs w
  generalize c.process w = x at hdone ⊢
  cases hdone with
  | awaited | found => exact h
  | ask | addBuckets => exact h.congr rfl rfl rfl rfl
  | confirm k => exact h.confirm k

theorem expire (h : Booked base initial acc [] c) (now : Nat) : Booked base initial acc [] (c.expire now) := by
  refine Controller.expire_keeps (fun r rs d hd => hd.abandonOne) (fun d hd => hd.congr rfl rfl rfl rfl) ?_
  refine h.taken_out ?_ (c.tracker.registrants_expire now)
  refine Tracker.expire_keeps (P := fun t => ∀ k r, t.Registered k r → r.From acc k) ?_ ?_ h.registered now
  · intro t k ht j r hr
    exact ht j r (Tracker.Registered.of_discharge hr).2
  · exact fun t q ht => ht

theorem withdraw (h : Booked base initial acc [] c) (n : UInt32) : Booked base initial acc [] (c.withdraw n) := by
  unfold Controller.withdraw
  split
  · rename_i a ha
    exact h.withdrawn ha _
  · exact h

theorem giveUp (h : Booked base initial acc [] c) (n : UInt32) : Booked base initial acc [] (c.giveUp n) := by
  refine Controller.giveUp_keeps (fun r rs d hd => hd.abandonOne) (fun d hd => hd.congr rfl rfl rfl rfl) ?_
  refine h.taken_out ?_ (c.tracker.registrants_takeObjective n)
  refine Tracker.takeObjective_keeps (P := fun t => ∀ k r, t.Registered k r → r.From acc k) ?_ ?_ h.registered n
  · intro t k ht j r hr
    exact ht j r (Tracker.Registered.of_discharge hr).2
  · intro t k rs left hk hl _ ht j r hr
    exact ht j r (Tracker.Registered.of_retain hk hl hr)

/-! ### Requests -/

/-- one more request, answered at once -/
theorem answered (h : Booked base initial acc [] c) (r : Request) (o : Outcome)
    (ho : d.tracker.objectives = c.tracker.objectives) (hd : d.deferred = c.deferred)
    (hr : d.replies = c.replies ++ [⟨r.ticket, o⟩]) (hw : Written (acc ++ [r]) base initial d.replies d.store) :
    Booked base initial (acc ++ [r]) [] d := by
  have hreg : ∀ k s, d.tracker.Registered k s → c.tracker.Registered k s := by
    rintro k s ⟨rs, hk, hm⟩
    exact ⟨rs, ho ▸ hk, hm⟩
  refine ⟨?_, by simp, ?_, h.balance_snoc r ?_, hw⟩
  · intro k s hs
    exact (h.registered k s (hreg k s hs)).snoc [r]
  · intro n a ha
    obtain ⟨ha, hn⟩ := h.deferred n a (hd ▸ ha)
    exact ⟨List.mem_append_left _ ha, hn⟩
  · have howing : d.owing [] = ({ c with replies := c.replies ++ [⟨r.ticket, o⟩] } : Controller).owing [] := by
      simp only [Controller.owing, Tracker.registrants, ho, hd, hr]
    rw [howing]
    exact c.owing_answer [] r.ticket o

/-- what was written for the requests so far was written for these and one more -/
theorem written_snoc (h : Booked base initial acc [] c) (r : Request) :
    Written (acc ++ [r]) base initial c.replies c.store :=
  h.written.mono fun _ hs => List.mem_append_left _ hs

theorem refused (h : Booked base initial acc [] c) (r : Request) (e : ObjectiveError) (stop : Bool) :
    Booked base initial (acc ++ [r]) [] (c.refused r.ticket e stop) :=
  h.answered r (.failed e) rfl rfl rfl ((h.written_snoc r).failed r.ticket e)

theorem install (h : Booked base initial acc [] c) (now : Nat) (ticket : Ticket) (o : Objective) (p : Plan) :
    Booked base initial (acc ++ [.install ticket o p]) [] (c.opening (.request now (.install ticket o p))).1 := by
  simp only [Controller.opening, Controller.registerElements_eq]
  refine ⟨?_, by simp, ?_, h.balance_snoc _ ?_, h.written_snoc _⟩
  · rintro k r ⟨rs, hk, hm⟩
    rw [Tracker.objectives_registerAll] at hk
    rcases Tracker.registered_registerObjective ⟨rs, hk, hm⟩ with hr | ⟨rfl, rfl⟩
    · exact (h.registered k r hr).snoc _
    · exact ⟨p, List.mem_concat_self, rfl, rfl⟩
  · intro n a ha
    exact ⟨List.mem_append_left _ (h.deferred n a ha).1, (h.deferred n a ha).2⟩
  · have hreg := (c.tracker.registrants_registerObjective p.topKey ⟨ticket, o, p.record, p.topId⟩ now).map
      Registrant.ticket
    rw [Tracker.registrants, Tracker.registrants] at hreg
    simp only [Controller.owing, Tracker.registrants, Tracker.objectives_registerAll, List.map_nil, List.nil_append]
    refine (List.Perm.append_left _ (hreg.append_right _)).trans ?_
    exact List.perm_middle

theorem addBucket (h : Booked base initial acc [] c) (now : Nat) (a : Addition) :
    Booked base initial (acc ++ [.addBucket a]) [] (c.opening (.request now (.addBucket a))).1 := by
  simp only [Controller.opening]
  split
  · rename_i existing hs
    rw [Controller.extend_eq]
    refine h.answered (.addBucket a) _ (Tracker.objectives_registerAll _ _ _) rfl rfl ?_
    exact (h.written_snoc _).extended a existing _ List.mem_concat_self (Or.inl hs)
  · rename_i hs
    rcases c.addBucket_cases (a := a) hs with ⟨e, stop, he⟩ | ⟨-, hn, he⟩
    · simp only [Controller.handle, he]
      exact h.refused (.addBucket a) e stop
    · simp only [Controller.handle, he]
      refine ⟨?_, by simp, ?_, h.balance_snoc _ (Controller.owing_insert a hn []), h.written_snoc _⟩
      · intro k s hs
        exact (h.registered k s hs).snoc _
      · intro n b hb
        rw [Registry.get?_insert] at hb
        split_ifs at hb with hnb
        · cases hb
          exact ⟨List.mem_concat_self, hnb.symm⟩
        · exact ⟨List.mem_append_left _ (h.deferred n b hb).1, (h.deferred n b hb).2⟩

theorem removeBucket (h : Booked base initial acc [] c) (ticket : Ticket) (o : Objective) (port : PortNumber) :
    Booked base initial (acc ++ [.removeBucket ticket o port]) [] (c.removeBucket ticket o port) := by
  rcases c.removeBucket_cases ticket o port with ⟨e, stop, he⟩ | ⟨existing, i, k, bs, id, hs, he⟩
  · rw [he]
    exact h.refused (.removeBucket ticket o port) e stop
  · rw [he]
    refine h.answered (.removeBucket ticket o port) _ rfl rfl rfl ?_
    exact (h.written_snoc _).shortened ticket o port existing i id List.mem_concat_self hs

theorem remove (h : Booked base initial acc [] c) (ticket : Ticket) (o : Objective) :
    Booked base initial (acc ++ [.remove ticket o]) [] (c.remove ticket o) := by
  have h' := (h.withdraw o.id).giveUp o.id
  rw [Controller.remove_eq]
  rcases ((c.withdraw o.id).giveUp o.id).deleteStored_cases ticket o with ⟨e, stop, he⟩ | ⟨existing, -, he⟩
  · rw [he]
    exact h'.refused (.remove ticket o) e stop
  · rw [he]
    refine h'.answered (.remove ticket o) _ rfl rfl rfl ?_
    exact (h'.written_snoc _).removed ticket o List.mem_concat_self

theorem opening (h : Booked base initial acc [] c) (s : Stimulus) :
    Booked base initial (acc ++ s.request?.toList) [] (c.opening s).1 := by
  cases s with
  | request now r =>
    cases r with
    | install ticket o p => exact h.install now ticket o p
    | addBucket a => exact h.addBucket now a
    | removeBucket ticket o port => exact h.removeBucket ticket o port
    | remove ticket o => exact h.remove ticket o
  | event e =>
    simp only [Stimulus.request?, Option.toList_none, List.append_nil]
    obtain ⟨kind, k⟩ := e
    cases kind with
    | added => exact h
    | removed => exact h.congr rfl rfl rfl rfl
    | error => exact h
  | sweep =>
    simp only [Stimulus.request?, Option.toList_none, List.append_nil]
    exact h
  | expire now =>
    simp only [Stimulus.request?, Option.toList_none, List.append_nil]
    exact h.expire now

theorem step {m : Moment} (h : Booked base initial m.accepted [] m.controller) (move : Move) :
    Booked base initial (m.step move).accepted [] (m.step move).controller := by
  cases move with
  | work =>
    simp only [Moment.step, Moment.work]
    split
    · exact h.congr rfl rfl rfl rfl
    · exact h.process _
  | handle s =>
    rw [Moment.step]
    split_ifs
    · exact h.opening s
    · exact h
  | switch sm => exact h.congr rfl rfl rfl rfl

end Booked

/-! ## Where a request stands -/

/-- no two requests have one ticket -/
def Moment.Distinct (m : Moment) : Prop := (m.accepted.map Request.ticket).Nodup

theorem Moment.Distinct.step {device : DeviceId} {m : Moment} (h : m.Distinct) {move : Move}
    (ha : move.Admissible device m) : (m.step move).Distinct := by
  cases move with
  | work =>
    simp only [Moment.step, Moment.work]
    split <;> exact h
  | handle s =>
    rw [Moment.step]
    split_ifs
    · cases s with
      | request now r =>
        simp only [Distinct, begin, Stimulus.request?, Option.toList_some, List.map_append, List.map_cons, List.map_nil]
        rw [List.nodup_append]
        refine ⟨h, List.nodup_singleton _, fun a hm b hb hab => ha.2 ?_⟩
        rw [← List.mem_singleton.1 hb, ← hab]
        exact hm
      | _ => simpa [Distinct, begin, Stimulus.request?] using h
    · exact h
  | switch sm => exact h

namespace Moment

def answers (m : Moment) (ticket : Ticket) : Nat := (m.controller.replies.map (·.ticket)).count ticket

def registrations (m : Moment) (ticket : Ticket) : Nat := (m.controller.tracker.registrants.map (·.ticket)).count ticket

def parkings (m : Moment) (ticket : Ticket) : Nat := (m.controller.deferred.values.map (·.ticket)).count ticket

/-- the request has one answer, and nothing waits on its behalf -/
def Answered (m : Moment) (r : Request) : Prop :=
  m.answers r.ticket = 1 ∧ m.registrations r.ticket = 0 ∧ m.parkings r.ticket = 0

/-- the request has no answer: its objective waits under its top-level key, as one registrant -/
def Waits (m : Moment) (r : Request) : Prop :=
  m.answers r.ticket = 0 ∧ m.registrations r.ticket = 1 ∧ m.parkings r.ticket = 0 ∧
    ∃ o p s, r = .install r.ticket o p ∧ m.controller.tracker.Registered p.topKey s ∧
      s.ticket = r.ticket ∧ s.objective = o ∧ s.record = p.record

/-- the request has no answer: its bucket is put aside for its objective -/
def PutAside (m : Moment) (r : Request) : Prop :=
  m.answers r.ticket = 0 ∧ m.registrations r.ticket = 0 ∧ m.parkings r.ticket = 1 ∧
    ∃ a, r = .addBucket a ∧ m.controller.deferred.get? a.objective.id = some a

end Moment

/-- from any moment on, the books can be kept anew -/
theorem Booked.rebase {base : List Reply} {initial : Store} {acc : List Request} {c : Controller}
    (h : Booked base initial acc [] c) : Booked c.replies c.store acc [] c :=
  { h with written := .start }

theorem Booked.run {device : DeviceId} {base : List Reply} {initial : Store} {m : Moment}
    (h : Booked base initial m.accepted [] m.controller) (hd : m.Distinct) {moves : List Move}
    (ha : Allowed (fun m move => move.Admissible device m) m moves) :
    Booked base initial (m.run moves).accepted [] (m.run moves).controller ∧ (m.run moves).Distinct :=
  ha.keeps (P := fun m => Booked base initial m.accepted [] m.controller ∧ m.Distinct)
    (fun _ move hmove hm => ⟨hm.1.step move, hm.2.step hmove⟩) ⟨h, hd⟩

/-- the books say where every request stands -/
theorem Booked.stands {base : List Reply} {initial : Store} {m : Moment}
    (h : Booked base initial m.accepted [] m.controller) (hd : m.Distinct) {r : Request} (hr : r ∈ m.accepted) :
    m.Answered r ∨ m.Waits r ∨ m.PutAside r := by
  have hone : m.answers r.ticket + (m.registrations r.ticket + m.parkings r.ticket) = 1 := by
    have hcount := h.balance.count_eq r.ticket
    rw [List.count_eq_one_of_mem hd (List.mem_map_of_mem hr)] at hcount
    simpa [Controller.owing, Moment.answers, Moment.registrations, Moment.parkings, List.count_append] using hcount
  have hsame : ∀ q ∈ m.accepted, q.ticket = r.ticket → q = r := fun q hq ht => List.inj_on_of_nodup_map hd hq hr ht
  by_cases hw : m.registrations r.ticket = 0
  · by_cases hp : m.parkings r.ticket = 0
    · exact Or.inl ⟨by omega, hw, hp⟩
    · refine Or.inr (Or.inr ⟨by omega, hw, by omega, ?_⟩)
      obtain ⟨a, ha, ht⟩ := List.mem_map.1 (List.count_pos_iff.1 (Nat.pos_of_ne_zero hp))
      obtain ⟨n, hn⟩ := Registry.mem_values_iff.1 ha
      obtain ⟨hacc, rfl⟩ := h.deferred n a hn
      exact ⟨a, (hsame _ hacc ht).symm, hn⟩
  · refine Or.inr (Or.inl ⟨by omega, by omega, by omega, ?_⟩)
    obtain ⟨s, hs, ht⟩ := List.mem_map.1 (List.count_pos_iff.1 (Nat.pos_of_ne_zero hw))
    obtain ⟨k, hk⟩ := Tracker.mem_registrants_iff.1 hs
    obtain ⟨p, hacc, rfl, hrec⟩ := h.registered k s hk
    refine ⟨s.objective, p, s, ?_, hk, ht, rfl, hrec.symm⟩
    rw [← ht]
    exact (hsame _ hacc ht).symm

theorem booked_start (device : DeviceId) (delay : Nat) (switch : Switch) (store : Store) (metrics : Metrics) :
    Booked [] store [] [] (Controller.start device delay switch store metrics) := by
  refine ⟨?_, by simp, ?_, List.Perm.refl _, .start⟩
  · rintro k r ⟨rs, hk, -⟩
    cases hk
  · rintro n a ha
    cases ha

/-- the books are kept in every run from the start -/
theorem booked_run {device : DeviceId} {delay : Nat} {switch : Switch} {store : Store} {metrics : Metrics}
    {moves : List Move}
    (h : Allowed (fun m move => move.Admissible device m) (.start device delay switch store metrics) moves) :
    let m := (Moment.start device delay switch store metrics).run moves
    Booked [] store m.accepted [] m.controller ∧ m.Distinct := by
  have hstart : Booked [] store (Moment.start device delay switch store metrics).accepted []
      (Moment.start device delay switch store metrics).controller := booked_start device delay switch store metrics
  exact hstart.run List.nodup_nil h

/-- **Every request is settled exactly once.** At every moment of every run each accepted request has been answered
once, or waits as one registrant, or is put aside, and only one of these. Between any two moments `m` and `n` the store
changes by what the replies given in between say, in their order: a request to install that is answered with success has
its record put, and a reply of failure comes with no write. -/
theorem settled_exactly_once {device : DeviceId} {delay : Nat} {switch : Switch} {store : Store} {metrics : Metrics}
    {before since : List Move}
    (h : Allowed (fun m move => move.Admissible device m) (.start device delay switch store metrics)
      (before ++ since)) :
    let m := (Moment.start device delay switch store metrics).run before
    let n := m.run since
    (∀ r ∈ n.accepted, n.Answered r ∨ n.Waits r ∨ n.PutAside r) ∧
      Written n.accepted m.controller.replies m.controller.store n.controller.replies n.controller.store := by
  intro m n
  obtain ⟨hbefore, hsince⟩ := allowed_append.1 h
  have hstart : Booked [] store (Moment.start device delay switch store metrics).accepted []
      (Moment.start device delay switch store metrics).controller := booked_start device delay switch store metrics
  obtain ⟨hm, hdm⟩ := hstart.run List.nodup_nil hbefore
  obtain ⟨hn, hdn⟩ := hm.rebase.run hdm hsince
  exact ⟨fun r hr => hn.stands hdn hr, hn.written⟩

/-- the sample is answered once its last group is confirmed, and its record is written then -/
theorem sample_is_settled :
    let m := Sample.start.run Sample.readied
    let n := m.run Sample.finished
    m.controller.replies = [] ∧ n.controller.replies = [⟨0, .installed Sample.plan.topId⟩] ∧
      (n.Answered Sample.request ∨ n.Waits Sample.request ∨ n.PutAside Sample.request) ∧
      Written n.accepted m.controller.replies m.controller.store n.controller.replies n.controller.store := by
  have h : Allowed (fun m move => move.Admissible Sample.device m) Sample.start (Sample.readied ++ Sample.finished) :=
    Sample.admissible _ (by decide +kernel)
  unfold Sample.start at h ⊢
  obtain ⟨hstand, hwritten⟩ := settled_exactly_once h
  exact ⟨by decide +kernel, by decide +kernel, hstand Sample.request (by decide +kernel), hwritten⟩

end FlowGroups
