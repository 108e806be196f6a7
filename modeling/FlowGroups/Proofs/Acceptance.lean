/-
Which objectives a plan is made for, and what is wrong with the others. The objective is checked as a whole first: its
kind, how many buckets there are, and for a broadcast whether a VLAN is named anywhere. Then its buckets are gone
through in their order, and the first that is flawed decides; what counts as a flaw, and which of two flaws is named,
depends on the kind and on whether the bucket needs a group on top of its interface group.

- `Planner.build_of_sound`, `Planner.build_of_refused`: what is made of an objective without flaws, and of any other.
- `accepted_iff_acceptable`: an objective is accepted if and only if it is acceptable; otherwise the error is that of
  the first check that fails, in one of two categories, and at most the VPN counter has moved.
-/
import FlowGroups.Proofs.Splitting

namespace FlowGroups

/-! ## What is said in a bucket and in the metadata -/

/-- nothing is read from some entries if and only if none of them has the form that is read -/
theorem forall_eq_none_iff {β γ : Type} {read : β → Option γ} {form : γ → β} (h : ∀ b c, read b = some c ↔ b = form c)
    {l : List β} : (∀ b ∈ l, read b = none) ↔ ¬∃ c, form c ∈ l := by
  constructor
  · rintro hnone ⟨c, hc⟩
    cases ((h _ c).2 rfl).symm.trans (hnone _ hc)
  · intro hnot b hb
    rw [Option.eq_none_iff_forall_ne_some]
    intro c hc
    exact hnot ⟨c, (h b c).1 hc ▸ hb⟩

namespace Treatment

def Outputs (t : Treatment) : Prop := ∃ port, .output port ∈ t.instructions

def SetsVlan (t : Treatment) : Prop := ∃ vlan, .setVlanId vlan ∈ t.instructions

def SetsLabel (t : Treatment) : Prop := ∃ label, .setMplsLabel label ∈ t.instructions

/-- at most one label is pushed, and then its value is set somewhere -/
def Labelled (t : Treatment) : Prop := t.mplsPushes ≤ 1 ∧ (t.mplsPushes = 1 → t.SetsLabel)

/-- the last port that a treatment outputs to -/
def exit? (t : Treatment) : Option PortNumber := lastPort? t.instructions

variable {t : Treatment}

theorem exit_eq_none : t.exit? = none ↔ ¬t.Outputs := by
  rw [exit?, lastPort?, List.getLast?_eq_none_iff, List.filterMap_eq_nil_iff]
  exact forall_eq_none_iff fun i port => by cases i <;> simp [Instruction.port?]

theorem lastVlan_eq_none : lastVlan? t.instructions = none ↔ ¬t.SetsVlan := by
  rw [lastVlan?, List.getLast?_eq_none_iff, List.filterMap_eq_nil_iff]
  exact forall_eq_none_iff fun i vlan => by cases i <;> simp [Instruction.vlan?]

theorem mplsLabel_eq_none : t.mplsLabel? = none ↔ ¬t.SetsLabel := by
  rw [mplsLabel?, List.findSome?_eq_none_iff]
  exact forall_eq_none_iff fun i label => by cases i <;> simp

theorem exit_of_outputs (h : t.Outputs) : ∃ port, t.exit? = some port :=
  Option.ne_none_iff_exists'.1 fun hnone => exit_eq_none.1 hnone h

theorem label_of_sets (h : t.SetsLabel) : ∃ label, t.mplsLabel? = some label :=
  Option.ne_none_iff_exists'.1 fun hnone => mplsLabel_eq_none.1 hnone h

end Treatment

namespace Objective

/-- does the metadata match on a VLAN? -/
def HintsVlan (o : Objective) : Prop := ∃ s, o.hints = some s ∧ ∃ vlan, .vlanVid vlan ∈ s.criteria

/-- is a VLAN set in a bucket, or hinted at? -/
def Tags (o : Objective) (t : Treatment) : Prop := t.SetsVlan ∨ o.HintsVlan

variable {o : Objective} {t : Treatment}

theorem hintedVlan_eq_none : o.hintedVlan? = none ↔ ¬o.HintsVlan := by
  have hselector : ∀ s : Selector, s.vlanId? = none ↔ ¬∃ vlan, .vlanVid vlan ∈ s.criteria := by
    intro s
    rw [Selector.vlanId?, List.findSome?_eq_none_iff]
    exact forall_eq_none_iff fun criterion vlan => by cases criterion <;> simp
  rw [hintedVlan?, Option.bind_eq_none_iff]
  simp only [hselector, HintsVlan, not_exists, not_and]

/-- the first VLAN of a treatment or the hinted one: there is one if and only if the bucket is tagged -/
theorem vlanId_or_hint_eq_none : (t.vlanId? <|> o.hintedVlan?) = none ↔ ¬o.Tags t := by
  rw [Option.orElse_eq_orElse, Option.orElse_eq_or, Option.or_eq_none_iff, Treatment.vlanId_eq_none,
    Treatment.lastVlan_eq_none, hintedVlan_eq_none, Tags, not_or]

theorem lastVlan_or_hint_eq_none : (lastVlan? t.instructions).or o.hintedVlan? = none ↔ ¬o.Tags t := by
  rw [Option.or_eq_none_iff, Treatment.lastVlan_eq_none, hintedVlan_eq_none, Tags, not_or]

theorem lastVlan_or_hint_of_tags (h : o.Tags t) : ∃ vlan, (lastVlan? t.instructions).or o.hintedVlan? = some vlan :=
  Option.ne_none_iff_exists'.1 fun hnone => lastVlan_or_hint_eq_none.1 hnone h

end Objective

/-! ## What is acceptable, and what is flawed -/

namespace Objective

/-- which objectives are to be accepted -/
def Acceptable (o : Objective) : Prop :=
  match o.kind with
  | .simple => ∃ t, o.treatments = [t] ∧ t.Outputs ∧ o.Tags t
  | .broadcast =>
    o.treatments ≠ [] ∧ (o.HintsVlan ∨ ∃ t ∈ o.treatments, t.SetsVlan) ∧ (∀ t ∈ o.treatments, t.Outputs) ∧
      (o.treatments.map Treatment.exit?).Nodup
  | .hashed => o.treatments ≠ [] ∧ ∀ t ∈ o.treatments, t.Labelled ∧ o.Tags t ∧ t.Outputs
  | .failover => False

/-- what is wrong with a bucket, given the buckets before it -/
inductive Flaw (o : Objective) (before : List Treatment) (t : Treatment) : PlanError → Prop
  | tooManyLabels (kind : o.kind = .hashed) (pushes : 1 < t.mplsPushes) :
      Flaw o before t (.tooManyLabels o.id t.mplsPushes)
  | noLabel (kind : o.kind = .hashed) (pushes : t.mplsPushes = 1) (unset : ¬t.SetsLabel) :
      Flaw o before t (.missingMplsLabel o.id)
  /-- the VLAN is looked for before the port if there is a group on top -/
  | untagged (kind : o.kind ≠ .broadcast) (labelled : o.kind = .hashed → t.Labelled)
      (outputs : o.stacked t = false → t.Outputs) (untagged : ¬o.Tags t) : Flaw o before t (.missingVlan o.id)
  /-- and after it if there is none -/
  | silent (labelled : o.kind = .hashed → t.Labelled) (tagged : o.stacked t = true → o.Tags t)
      (silent : ¬t.Outputs) : Flaw o before t (.missingOutput o.id)
  | taken {port : PortNumber} (kind : o.kind = .broadcast) (exit : t.exit? = some port)
      (earlier : ∃ b ∈ before, b.exit? = some port) : Flaw o before t (.duplicatePort o.id port)

/-- nothing is wrong with a bucket -/
def Flawless (o : Objective) (before : List Treatment) (t : Treatment) : Prop := ∀ e, ¬o.Flaw before t e

/-- none of some buckets is flawed, each with those before it; some others come before all of them -/
def Sound (o : Objective) : List Treatment → List Treatment → Prop
  | _, [] => True
  | before, t :: ts => o.Flawless before t ∧ o.Sound (before ++ [t]) ts

/-- the checks that come before any bucket is looked at -/
structure WellFormed (o : Objective) : Prop where
  kind : o.kind ≠ .failover
  filled : o.treatments ≠ []
  single : o.kind = .simple → o.treatments.length = 1
  tagged : o.kind = .broadcast → o.HintsVlan ∨ ∃ t ∈ o.treatments, t.SetsVlan

/-- how many VPN indices are used up by some buckets -/
def vpnCount (o : Objective) (ts : List Treatment) : Nat :=
  if o.kind = .hashed then ts.countP fun t => t.mplsPushes = 1 else 0

/-- why an objective is refused, and how many VPN indices have been used up until then -/
inductive Refused (o : Objective) : PlanError → Nat → Prop
  | kind (kind : o.kind = .failover) : Refused o (.unsupportedKind o.id o.kind) 0
  | empty (kind : o.kind ≠ .failover) (empty : o.treatments = []) : Refused o (.emptyBuckets o.id) 0
  | tooMany (kind : o.kind = .simple) (many : 1 < o.treatments.length) :
      Refused o (.tooManyBuckets o.id o.treatments.length) 0
  | untagged (kind : o.kind = .broadcast) (filled : o.treatments ≠ []) (unhinted : ¬o.HintsVlan)
      (unset : ∀ t ∈ o.treatments, ¬t.SetsVlan) : Refused o (.missingVlan o.id) 0
  /-- the first bucket that is flawed -/
  | bucket {before after : List Treatment} {t : Treatment} {e : PlanError} (wellFormed : o.WellFormed)
      (split : o.treatments = before ++ t :: after) (sound : o.Sound [] before) (flaw : o.Flaw before t e) :
      Refused o e (o.vpnCount before)

/-! ## Buckets without flaws -/

variable {o : Objective} {before after ts : List Treatment} {t : Treatment}

theorem stacked_of_hashed (hk : o.kind = .hashed) : o.stacked t = true := by rw [stacked, hk]

theorem flat_of_broadcast (hk : o.kind = .broadcast) : o.stacked t = false := by rw [stacked, hk]

theorem flawless_iff_of_hashed (hk : o.kind = .hashed) :
    o.Flawless before t ↔ t.Labelled ∧ o.Tags t ∧ t.Outputs := by
  have hflat : o.stacked t ≠ false := by simp [stacked_of_hashed hk]
  have hkind : o.kind ≠ .broadcast := by simp [hk]
  constructor
  · intro h
    have hlabelled : t.Labelled := by
      refine ⟨Nat.le_of_not_lt fun hpushes => h _ (.tooManyLabels hk hpushes), fun hone => ?_⟩
      exact Classical.not_not.1 fun hunset => h _ (.noLabel hk hone hunset)
    have htags : o.Tags t := Classical.not_not.1 fun huntagged =>
      h _ (.untagged hkind (fun _ => hlabelled) (absurd · hflat) huntagged)
    have houtputs : t.Outputs := Classical.not_not.1 fun hsilent =>
      h _ (.silent (fun _ => hlabelled) (fun _ => htags) hsilent)
    exact ⟨hlabelled, htags, houtputs⟩
  · rintro ⟨hlabelled, htags, houtputs⟩ e hflaw
    cases hflaw with
    | tooManyLabels _ hpushes => exact Nat.not_lt.2 hlabelled.1 hpushes
    | noLabel _ hone hunset => exact hunset (hlabelled.2 hone)
    | untagged _ _ _ huntagged => exact huntagged htags
    | silent _ _ hsilent => exact hsilent houtputs
    | taken hbroadcast => exact hkind hbroadcast

theorem flawless_iff_of_simple (hk : o.kind = .simple) : o.Flawless before t ↔ t.Outputs ∧ o.Tags t := by
  have hkind : o.kind ≠ .broadcast := by simp [hk]
  have hother : o.kind ≠ .hashed := by simp [hk]
  constructor
  · intro h
    -- whichever is looked for first, its flaw needs nothing of the other
    cases hstacked : o.stacked t with
    | true =>
      have htags : o.Tags t := Classical.not_not.1 fun huntagged =>
        h _ (.untagged hkind (absurd · hother) (by simp [hstacked]) huntagged)
      exact ⟨Classical.not_not.1 fun hsilent => h _ (.silent (absurd · hother) (fun _ => htags) hsilent), htags⟩
    | false =>
      have houtputs : t.Outputs := Classical.not_not.1 fun hsilent =>
        h _ (.silent (absurd · hother) (by simp [hstacked]) hsilent)
      exact ⟨houtputs, Classical.not_not.1 fun huntagged =>
        h _ (.untagged hkind (absurd · hother) (fun _ => houtputs) huntagged)⟩
  · rintro ⟨houtputs, htags⟩ e hflaw
    cases hflaw with
    | tooManyLabels hhashed => exact hother hhashed
    | noLabel hhashed => exact hother hhashed
    | untagged _ _ _ huntagged => exact huntagged htags
    | silent _ _ hsilent => exact hsilent houtputs
    | taken hbroadcast => exact hkind hbroadcast

theorem flawless_iff_of_broadcast (hk : o.kind = .broadcast) :
    o.Flawless before t ↔ ∃ port, t.exit? = some port ∧ ∀ b ∈ before, b.exit? ≠ some port := by
  have hother : o.kind ≠ .hashed := by simp [hk]
  have hflat : o.stacked t ≠ true := by simp [flat_of_broadcast hk]
  constructor
  · intro h
    have houtputs : t.Outputs := Classical.not_not.1 fun hsilent =>
      h _ (.silent (absurd · hother) (absurd · hflat) hsilent)
    obtain ⟨port, hport⟩ := Treatment.exit_of_outputs houtputs
    exact ⟨port, hport, fun b hb hsame => h _ (.taken hk hport ⟨b, hb, hsame⟩)⟩
  · rintro ⟨port, hport, hfree⟩ e hflaw
    cases hflaw with
    | tooManyLabels hhashed => exact hother hhashed
    | noLabel hhashed => exact hother hhashed
    | untagged hkind => exact hkind hk
    | silent _ _ hsilent =>
      rw [Treatment.exit_eq_none.2 hsilent] at hport
      cases hport
    | taken _ hexit hearlier =>
      obtain ⟨b, hb, hsame⟩ := hearlier
      exact hfree b hb (hsame.trans (hexit.symm.trans hport))

/-- where some bucket is flawed, there is a first one -/
theorem sound_or_flawed (o : Objective) (done ts : List Treatment) : o.Sound done ts ∨
    ∃ before t after e, ts = before ++ t :: after ∧ o.Sound done before ∧ o.Flaw (done ++ before) t e := by
  induction ts generalizing done with
  | nil => exact Or.inl trivial
  | cons t ts ih =>
    by_cases hflawless : o.Flawless done t
    · rcases ih (done ++ [t]) with hsound | ⟨before, u, after, e, rfl, hbefore, hflaw⟩
      · exact Or.inl ⟨hflawless, hsound⟩
      · refine Or.inr ⟨t :: before, u, after, e, rfl, ⟨hflawless, hbefore⟩, ?_⟩
        rwa [List.append_assoc] at hflaw
    · rw [Flawless, not_forall] at hflawless
      obtain ⟨e, he⟩ := hflawless
      refine Or.inr ⟨[], t, ts, e, rfl, trivial, ?_⟩
      rw [List.append_nil]
      exact Classical.not_not.1 he

theorem sound_iff_of_hashed (hk : o.kind = .hashed) :
    o.Sound before ts ↔ ∀ t ∈ ts, t.Labelled ∧ o.Tags t ∧ t.Outputs := by
  induction ts generalizing before with
  | nil => exact ⟨fun _ _ ht => absurd ht List.not_mem_nil, fun _ => trivial⟩
  | cons t ts ih => rw [Sound, flawless_iff_of_hashed hk, ih, List.forall_mem_cons]

theorem sound_iff_of_broadcast (hk : o.kind = .broadcast) : o.Sound before ts ↔
    (∀ t ∈ ts, t.Outputs) ∧ (ts.map Treatment.exit?).Nodup ∧ ∀ b ∈ before, ∀ t ∈ ts, b.exit? ≠ t.exit? := by
  induction ts generalizing before with
  | nil => simp [Sound]
  | cons t ts ih =>
    rw [Sound, flawless_iff_of_broadcast hk, ih, List.forall_mem_cons, List.map_cons, List.nodup_cons]
    constructor
    · rintro ⟨⟨port, hport, hfree⟩, houtputs, hnodup, happart⟩
      refine ⟨⟨Classical.not_not.1 fun hsilent => ?_, houtputs⟩, ⟨?_, hnodup⟩, ?_⟩
      · rw [Treatment.exit_eq_none.2 hsilent] at hport
        cases hport
      · intro hmem
        obtain ⟨u, hu, hsame⟩ := List.mem_map.1 hmem
        exact happart t List.mem_concat_self u hu hsame.symm
      · intro b hb
        rw [List.forall_mem_cons, hport]
        exact ⟨hfree b hb, happart b (List.mem_append_left [t] hb)⟩
    · rintro ⟨⟨houtput, houtputs⟩, ⟨hnew, hnodup⟩, happart⟩
      obtain ⟨port, hport⟩ := Treatment.exit_of_outputs houtput
      refine ⟨⟨port, hport, fun b hb => ?_⟩, houtputs, hnodup, ?_⟩
      · exact hport ▸ (List.forall_mem_cons.1 (happart b hb)).1
      · intro b hb u hu hsame
        rcases List.mem_append.1 hb with hb | hb
        · exact happart b hb u (List.mem_cons_of_mem t hu) hsame
        · rw [List.mem_singleton.1 hb] at hsame
          exact hnew (hsame ▸ List.mem_map_of_mem hu)

/-- what is acceptable passes every check -/
theorem acceptable_iff : o.Acceptable ↔ o.WellFormed ∧ o.Sound [] o.treatments := by
  rw [Acceptable]
  cases hk : o.kind with
  | simple =>
    constructor
    · rintro ⟨t, hone, hsound⟩
      refine ⟨⟨by simp [hk], by simp [hone], fun _ => by simp [hone], by simp [hk]⟩, ?_⟩
      rw [hone]
      exact ⟨(flawless_iff_of_simple hk).2 hsound, trivial⟩
    · rintro ⟨hwell, hsound⟩
      obtain ⟨t, hone⟩ := List.length_eq_one_iff.1 (hwell.single hk)
      rw [hone] at hsound
      exact ⟨t, hone, (flawless_iff_of_simple hk).1 hsound.1⟩
  | broadcast =>
    rw [sound_iff_of_broadcast hk]
    constructor
    · rintro ⟨hfilled, htagged, houtputs, hnodup⟩
      exact ⟨⟨by simp [hk], hfilled, by simp [hk], fun _ => htagged⟩, houtputs, hnodup, by simp⟩
    · rintro ⟨hwell, houtputs, hnodup, -⟩
      exact ⟨hwell.filled, hwell.tagged hk, houtputs, hnodup⟩
  | hashed =>
    rw [sound_iff_of_hashed hk]
    constructor
    · rintro ⟨hfilled, hsound⟩
      exact ⟨⟨by simp [hk], hfilled, by simp [hk], by simp [hk]⟩, hsound⟩
    · rintro ⟨hwell, hsound⟩
      exact ⟨hwell.filled, hsound⟩
  | failover => exact ⟨False.elim, fun h => h.1.kind hk⟩

/-- whatever is not acceptable is refused for some reason -/
theorem acceptable_or_refused (o : Objective) : o.Acceptable ∨ ∃ e taken, o.Refused e taken := by
  by_cases hkind : o.kind = .failover
  · exact Or.inr ⟨_, _, .kind hkind⟩
  by_cases hfilled : o.treatments = []
  · exact Or.inr ⟨_, _, .empty hkind hfilled⟩
  by_cases hmany : o.kind = .simple ∧ 1 < o.treatments.length
  · exact Or.inr ⟨_, _, .tooMany hmany.1 hmany.2⟩
  by_cases htagged : o.kind = .broadcast → o.HintsVlan ∨ ∃ t ∈ o.treatments, t.SetsVlan
  · have hwell : o.WellFormed := by
      refine ⟨hkind, hfilled, fun hk => ?_, htagged⟩
      have hsome : 0 < o.treatments.length := List.length_pos_iff.2 hfilled
      have hfew : ¬1 < o.treatments.length := fun h => hmany ⟨hk, h⟩
      omega
    rcases o.sound_or_flawed [] o.treatments with hsound | ⟨before, t, after, e, hsplit, hbefore, hflaw⟩
    · exact Or.inl (acceptable_iff.2 ⟨hwell, hsound⟩)
    · exact Or.inr ⟨_, _, .bucket hwell hsplit hbefore hflaw⟩
  · simp only [not_forall, not_or, not_exists, not_and] at htagged
    obtain ⟨hk, hunhinted, hunset⟩ := htagged
    exact Or.inr ⟨_, _, .untagged hk hfilled hunhinted hunset⟩

end Objective

/-! ## What is made of a bucket -/

namespace Egress

theorem port_foldl (is : List Instruction) (e : Egress) : (is.foldl step e).port? = (lastPort? is).or e.port? := by
  induction is generalizing e with
  | nil => rfl
  | cons i is ih =>
    have hsplit : lastPort? (i :: is) = (lastPort? is).or (lastPort? [i]) := lastPort_append [i] is
    rw [List.foldl_cons, ih, hsplit, Option.or_assoc]
    cases i <;> rfl

theorem port_ofTreatment (t : Treatment) : (ofTreatment t).port? = t.exit? := by
  rw [ofTreatment, port_foldl, Option.or_none, Treatment.exit?]

end Egress

namespace Objective

variable {o : Objective} {device : DeviceId} {before after ts : List Treatment} {t : Treatment} {e : PlanError}

theorem l2Interface_of_silent (h : ¬t.Outputs) (vlan? : Option VlanId) :
    o.l2Interface device t vlan? = .error (.missingOutput o.id) := by
  simp only [l2Interface, Egress.port_ofTreatment, Treatment.exit_eq_none.2 h]

theorem l2Interface_of_untagged (h : t.Outputs) : o.l2Interface device t none = .error (.missingVlan o.id) := by
  obtain ⟨port, hport⟩ := Treatment.exit_of_outputs h
  simp only [l2Interface, Egress.port_ofTreatment, hport]

theorem l2Interface_of_exit (o : Objective) (device : DeviceId) {port : PortNumber} (h : t.exit? = some port)
    (vlan : VlanId) :
    ∃ d, o.l2Interface device t (some vlan) = .ok (d, port) := by
  simp only [l2Interface, Egress.port_ofTreatment, h]
  exact ⟨_, rfl⟩

theorem pair_of_untagged (h : ¬o.Tags t) (mpls : Bool) : o.pair device t mpls = .error (.missingVlan o.id) := by
  simp only [pair, Split.vlan_eq_or, lastVlan_or_hint_eq_none.2 h]

theorem pair_of_silent (htags : o.Tags t) (h : ¬t.Outputs) (mpls : Bool) :
    o.pair device t mpls = .error (.missingOutput o.id) := by
  obtain ⟨vlan, hvlan⟩ := lastVlan_or_hint_of_tags htags
  simp only [pair, Split.vlan_eq_or, hvlan, Split.port_ofTreatment, Egress.port_ofTreatment, Treatment.exit_eq_none.2 h]

theorem pair_of_outputs (device : DeviceId) (htags : o.Tags t) (h : t.Outputs) (mpls : Bool) :
    ∃ p, o.pair device t mpls = .ok p := by
  obtain ⟨vlan, hvlan⟩ := lastVlan_or_hint_of_tags htags
  obtain ⟨port, hport⟩ := Treatment.exit_of_outputs h
  simp only [pair, Split.vlan_eq_or, hvlan, Split.port_ofTreatment, Egress.port_ofTreatment, hport]
  exact ⟨_, rfl⟩

/-! ### Hashed objectives -/

/-- a bucket whose groups cannot be made has no chain, and takes no index -/
theorem bucketChain_of_failed_pair (hl : t.Labelled) (h : ∀ mpls, o.pair device t mpls = .error e) (i : UInt32) :
    o.bucketChain device t i = (.error e, i) := by
  rcases Nat.le_one_iff_eq_zero_or_eq_one.1 hl.1 with hnone | hone
  · simp only [bucketChain, hnone, h]
  · obtain ⟨label, hlabel⟩ := Treatment.label_of_sets (hl.2 hone)
    simp only [bucketChain, hone, hlabel, h]

theorem bucketChain_of_flaw (hk : o.kind = .hashed) (h : o.Flaw before t e) (i : UInt32) :
    o.bucketChain device t i = (.error e, i) := by
  cases h with
  | tooManyLabels _ hpushes =>
    unfold bucketChain
    split
    · omega
    · omega
    · rfl
  | noLabel _ hone hunset => simp only [bucketChain, hone, Treatment.mplsLabel_eq_none.2 hunset]
  | untagged _ hlabelled _ huntagged =>
    exact bucketChain_of_failed_pair (hlabelled hk) (fun mpls => pair_of_untagged huntagged mpls) i
  | silent hlabelled htagged hsilent =>
    have htags := htagged (stacked_of_hashed hk)
    exact bucketChain_of_failed_pair (hlabelled hk) (fun mpls => pair_of_silent htags hsilent mpls) i
  | taken hbroadcast => cases hk.symm.trans hbroadcast

theorem vpnCount_cons (hk : o.kind = .hashed) :
    o.vpnCount (t :: ts) = o.vpnCount ts + if t.mplsPushes = 1 then 1 else 0 := by
  simp only [vpnCount, if_pos hk, List.countP_cons, decide_eq_true_eq]

/-- a bucket without flaws takes an index if it pushes a label -/
theorem bucketChain_of_flawless (device : DeviceId) (hk : o.kind = .hashed) (h : o.Flawless before t) (i : UInt32) :
    ∃ c, o.bucketChain device t i = (.ok c, i + UInt32.ofNat (if t.mplsPushes = 1 then 1 else 0)) := by
  obtain ⟨hlabelled, htags, houtputs⟩ := (flawless_iff_of_hashed hk).1 h
  rcases Nat.le_one_iff_eq_zero_or_eq_one.1 hlabelled.1 with hnone | hone
  · obtain ⟨p, hp⟩ := pair_of_outputs device htags houtputs false
    exact ⟨.ofPair p, by simp [bucketChain, hnone, hp, BucketChain.ofPair]⟩
  · obtain ⟨p, hp⟩ := pair_of_outputs device htags houtputs true
    obtain ⟨label, hlabel⟩ := Treatment.label_of_sets (hlabelled.2 hone)
    exact ⟨.ofLabel p (o.vpnGroup device label p.outer.id (i + 1)),
      by simp [bucketChain, hone, hlabel, hp, BucketChain.ofLabel, vpnGroup]⟩

/-- buckets without flaws have chains, and those behind them are gone through with the next index -/
theorem bucketChains_append (device : DeviceId) (hk : o.kind = .hashed) (h : o.Sound before ts) (rest : List Treatment)
    (i : UInt32) :
    ∃ cs, o.bucketChains device (ts ++ rest) i =
      ((o.bucketChains device rest (i + UInt32.ofNat (o.vpnCount ts))).1.map (cs ++ ·),
        (o.bucketChains device rest (i + UInt32.ofNat (o.vpnCount ts))).2) := by
  induction ts generalizing before i with
  | nil =>
    have hnone : i + UInt32.ofNat (o.vpnCount []) = i := by simp [vpnCount]
    refine ⟨[], ?_⟩
    rw [hnone, List.nil_append]
    cases o.bucketChains device rest i with
    | mk result j => cases result <;> rfl
  | cons t ts ih =>
    obtain ⟨c, hc⟩ := bucketChain_of_flawless device hk h.1 i
    obtain ⟨cs, hcs⟩ := ih h.2 (i + UInt32.ofNat (if t.mplsPushes = 1 then 1 else 0))
    have hindex : i + UInt32.ofNat (if t.mplsPushes = 1 then 1 else 0) + UInt32.ofNat (o.vpnCount ts) =
        i + UInt32.ofNat (o.vpnCount (t :: ts)) := by
      rw [vpnCount_cons hk, Nat.add_comm (o.vpnCount ts), UInt32.ofNat_add, UInt32.add_assoc]
    rw [hindex] at hcs
    refine ⟨c :: cs, ?_⟩
    simp only [List.cons_append, bucketChains, hc, hcs]
    cases o.bucketChains device rest (i + UInt32.ofNat (o.vpnCount (t :: ts))) with
    | mk result j => cases result <;> rfl

theorem bucketChains_of_sound (device : DeviceId) (hk : o.kind = .hashed) (h : o.Sound before ts) (i : UInt32) :
    ∃ cs j, o.bucketChains device ts i = (.ok cs, j) := by
  obtain ⟨cs, hcs⟩ := bucketChains_append device hk h [] i
  rw [List.append_nil] at hcs
  exact ⟨_, _, hcs⟩

theorem bucketChains_of_flaw (device : DeviceId) (hk : o.kind = .hashed) (hs : o.Sound [] before)
    (h : o.Flaw before t e) (after : List Treatment) (i : UInt32) :
    o.bucketChains device (before ++ t :: after) i = (.error e, i + UInt32.ofNat (o.vpnCount before)) := by
  obtain ⟨cs, hcs⟩ := bucketChains_append device hk hs (t :: after) i
  rw [hcs, bucketChains, bucketChain_of_flaw hk h]
  rfl

/-! ### Broadcast objectives -/

/-- are these the ports that packets leave through after some buckets? -/
def Exits (ts : List Treatment) (ports : List PortNumber) : Prop :=
  ∀ port, port ∈ ports ↔ ∃ t ∈ ts, t.exit? = some port

theorem Exits.nil : Exits [] [] := fun _ => by simp

theorem Exits.snoc {ports : List PortNumber} {port : PortNumber} (h : Exits before ports) (ht : t.exit? = some port) :
    Exits (before ++ [t]) (port :: ports) := by
  intro other
  rw [List.mem_cons, h other]
  constructor
  · rintro (rfl | ⟨b, hb, hexit⟩)
    · exact ⟨t, List.mem_concat_self, ht⟩
    · exact ⟨b, List.mem_append_left [t] hb, hexit⟩
  · rintro ⟨b, hb, hexit⟩
    rcases List.mem_append.1 hb with hb | hb
    · exact Or.inr ⟨b, hb, hexit⟩
    · rw [List.mem_singleton.1 hb, ht] at hexit
      exact Or.inl (Option.some.inj hexit).symm

variable {ports : List PortNumber}

/-- a bucket without flaws has an interface group, and those behind it are gone through with its port taken -/
theorem floodMembers_cons (device : DeviceId) (hk : o.kind = .broadcast) (hports : Exits before ports)
    (h : o.Flawless before t) (vlan : VlanId) (ts : List Treatment) : ∃ d port, Exits (before ++ [t]) (port :: ports) ∧
      o.floodMembers device vlan (t :: ts) ports = (o.floodMembers device vlan ts (port :: ports)).map (d :: ·) := by
  obtain ⟨port, hexit, hfree⟩ := (flawless_iff_of_broadcast hk).1 h
  obtain ⟨d, hd⟩ := o.l2Interface_of_exit device hexit vlan
  have hnew : port ∉ ports := by
    rw [hports port]
    rintro ⟨b, hb, hsame⟩
    exact hfree b hb hsame
  refine ⟨d, port, hports.snoc hexit, ?_⟩
  simp only [floodMembers, hd, bind, Except.bind, if_neg hnew]
  cases o.floodMembers device vlan ts (port :: ports) <;> rfl

theorem floodMembers_of_sound (device : DeviceId) (hk : o.kind = .broadcast) (hports : Exits before ports)
    (h : o.Sound before ts) (vlan : VlanId) : ∃ ds, o.floodMembers device vlan ts ports = .ok ds := by
  induction ts generalizing before ports with
  | nil => exact ⟨[], rfl⟩
  | cons t ts ih =>
    obtain ⟨d, port, hnext, he⟩ := floodMembers_cons device hk hports h.1 vlan ts
    obtain ⟨ds, hds⟩ := ih hnext h.2
    exact ⟨d :: ds, by rw [he, hds]; rfl⟩

/-- the first bucket with a flaw ends the search -/
theorem floodMembers_of_flaw {done : List Treatment} (hk : o.kind = .broadcast) (hports : Exits done ports)
    (hs : o.Sound done before) (h : o.Flaw (done ++ before) t e) (vlan : VlanId) :
    o.floodMembers device vlan (before ++ t :: after) ports = .error e := by
  induction before generalizing done ports with
  | nil =>
    rw [List.append_nil] at h
    cases h with
    | tooManyLabels hhashed => cases hk.symm.trans hhashed
    | noLabel hhashed => cases hk.symm.trans hhashed
    | untagged hkind => exact absurd hk hkind
    | silent _ _ hsilent =>
      simp only [List.nil_append, floodMembers, l2Interface_of_silent hsilent, bind, Except.bind]
    | taken _ hexit hearlier =>
      obtain ⟨d, hd⟩ := o.l2Interface_of_exit device hexit vlan
      have htaken := (hports _).2 hearlier
      simp only [List.nil_append, floodMembers, hd, bind, Except.bind, if_pos htaken]
      rfl
  | cons b before ih =>
    obtain ⟨d, port, hnext, he⟩ := floodMembers_cons device hk hports hs.1 vlan (before ++ t :: after)
    rw [List.append_cons] at h
    rw [List.cons_append, he, ih hnext hs.2 h]
    rfl

/-! ### Simple objectives -/

theorem onlyTreatment_of_many (h : 1 < o.treatments.length) :
    o.onlyTreatment = .error (.tooManyBuckets o.id o.treatments.length) := by
  unfold onlyTreatment
  split
  · rename_i hone
    simp [hone] at h
  · rename_i hempty
    simp [hempty] at h
  · rfl

theorem planSimple_of_flawless (hk : o.kind = .simple) (hone : o.treatments = [t]) (h : o.Flawless before t) :
    ∃ p, o.planSimple device = .ok p := by
  obtain ⟨houtputs, htags⟩ := (flawless_iff_of_simple hk).1 h
  have honly : o.onlyTreatment = .ok t := by simp only [onlyTreatment, hone]
  cases hmac : t.setsMac with
  | true =>
    obtain ⟨q, hq⟩ := pair_of_outputs device htags houtputs false
    simp only [planSimple, honly, bind, Except.bind, hmac, if_true, hq]
    exact ⟨_, rfl⟩
  | false =>
    obtain ⟨vlan, hvlan⟩ := Option.ne_none_iff_exists'.1 fun hnone => vlanId_or_hint_eq_none.1 hnone htags
    obtain ⟨port, hport⟩ := Treatment.exit_of_outputs houtputs
    obtain ⟨d, hd⟩ := o.l2Interface_of_exit device hport vlan
    simp only [planSimple, honly, bind, Except.bind, hmac, Bool.false_eq_true, if_false, hvlan, hd]
    exact ⟨_, rfl⟩

theorem planSimple_of_flaw (hk : o.kind = .simple) (hone : o.treatments = [t]) (h : o.Flaw before t e) :
    o.planSimple device = .error e := by
  have honly : o.onlyTreatment = .ok t := by simp only [onlyTreatment, hone]
  have hstacked : o.stacked t = t.setsMac := by rw [stacked, hk]
  cases h with
  | tooManyLabels hhashed => cases hk.symm.trans hhashed
  | noLabel hhashed => cases hk.symm.trans hhashed
  | untagged _ _ houtputs huntagged =>
    cases hmac : t.setsMac with
    | true => simp only [planSimple, honly, bind, Except.bind, hmac, if_true, pair_of_untagged huntagged]
    | false =>
      have hexits := houtputs (hstacked.trans hmac)
      simp only [planSimple, honly, bind, Except.bind, hmac, Bool.false_eq_true, if_false,
        vlanId_or_hint_eq_none.2 huntagged, l2Interface_of_untagged hexits]
  | silent _ htagged hsilent =>
    cases hmac : t.setsMac with
    | true =>
      have htags := htagged (hstacked.trans hmac)
      simp only [planSimple, honly, bind, Except.bind, hmac, if_true, pair_of_silent htags hsilent]
    | false =>
      simp only [planSimple, honly, bind, Except.bind, hmac, Bool.false_eq_true, if_false,
        l2Interface_of_silent hsilent]
  | taken hbroadcast => cases hk.symm.trans hbroadcast

/-! ## What is made of an objective -/

/-- the VLAN that packets are flooded on, if the metadata or some bucket names one -/
theorem flood_vlan_eq_none : (o.hintedVlan? <|> o.treatments.findSome? Treatment.vlanId?) = none ↔
    ¬o.HintsVlan ∧ ∀ t ∈ o.treatments, ¬t.SetsVlan := by
  rw [Option.orElse_eq_orElse, Option.orElse_eq_or, Option.or_eq_none_iff, hintedVlan_eq_none,
    List.findSome?_eq_none_iff]
  simp only [Treatment.vlanId_eq_none, Treatment.lastVlan_eq_none]

theorem WellFormed.exists_flood_vlan (h : o.WellFormed) (hk : o.kind = .broadcast) :
    ∃ vlan, (o.hintedVlan? <|> o.treatments.findSome? Treatment.vlanId?) = some vlan := by
  rw [← Option.ne_none_iff_exists', ne_eq, flood_vlan_eq_none]
  rintro ⟨hunhinted, hunset⟩
  rcases h.tagged hk with hhinted | ⟨t, ht, hset⟩
  · exact hunhinted hhinted
  · exact hunset t ht hset

end Objective

namespace Planner

variable {planner : Planner} {o : Objective}

/-- **No flaw, and a plan is made.** -/
theorem build_of_sound (hwell : o.WellFormed) (hsound : o.Sound [] o.treatments) :
    ∃ p, (planner.build o).1 = .ok p := by
  have hfilled : o.treatments.isEmpty = false := by simpa using hwell.filled
  cases hk : o.kind with
  | simple =>
    obtain ⟨t, hone⟩ := List.length_eq_one_iff.1 (hwell.single hk)
    rw [hone] at hsound
    simp only [build, hk]
    exact Objective.planSimple_of_flawless hk hone hsound.1
  | broadcast =>
    obtain ⟨vlan, hvlan⟩ := hwell.exists_flood_vlan hk
    obtain ⟨ds, hds⟩ := Objective.floodMembers_of_sound planner.device hk .nil hsound vlan
    simp only [build, hk, Objective.planBroadcast, bind, Except.bind, hfilled, Bool.false_eq_true, if_false, hvlan, hds]
    exact ⟨_, rfl⟩
  | hashed =>
    obtain ⟨cs, j, hcs⟩ := Objective.bucketChains_of_sound planner.device hk hsound planner.vpnIndex
    simp only [build, hk, hfilled, Bool.false_eq_true, if_false, planHashed, hcs]
    exact ⟨_, rfl⟩
  | failover => exact absurd hk hwell.kind

theorem nothing_taken (planner : Planner) :
    ({ planner with vpnIndex := planner.vpnIndex + UInt32.ofNat 0 } : Planner) = planner := by
  simp

/-- **The first flawed bucket decides**, and those before it may have taken VPN indices. -/
theorem build_of_flaw {before after : List Treatment} {t : Treatment} {e : PlanError} (hwell : o.WellFormed)
    (hsplit : o.treatments = before ++ t :: after) (hsound : o.Sound [] before) (hflaw : o.Flaw before t e) :
    planner.build o =
      (.error e, { planner with vpnIndex := planner.vpnIndex + UInt32.ofNat (o.vpnCount before) }) := by
  have hfilled : o.treatments.isEmpty = false := by simpa using hwell.filled
  cases hk : o.kind with
  | simple =>
    have hone := hwell.single hk
    rw [hsplit, List.length_append, List.length_cons] at hone
    obtain rfl : before = [] := List.length_eq_zero_iff.1 (by omega)
    obtain rfl : after = [] := List.length_eq_zero_iff.1 (by omega)
    have hnone : o.vpnCount [] = 0 := by simp [Objective.vpnCount]
    simp only [build, hk, Objective.planSimple_of_flaw hk hsplit hflaw, hnone, nothing_taken]
  | broadcast =>
    obtain ⟨vlan, hvlan⟩ := hwell.exists_flood_vlan hk
    have hnone : o.vpnCount before = 0 := by simp [Objective.vpnCount, hk]
    have hflood : o.floodMembers planner.device vlan o.treatments [] = .error e := by
      rw [hsplit]
      exact Objective.floodMembers_of_flaw hk .nil hsound hflaw vlan
    simp only [build, hk, Objective.planBroadcast, hfilled, Bool.false_eq_true, if_false, hvlan, bind, Except.bind,
      hflood, hnone, nothing_taken]
  | hashed =>
    have hchains := Objective.bucketChains_of_flaw planner.device hk hsound hflaw after planner.vpnIndex
    rw [← hsplit] at hchains
    simp only [build, hk, hfilled, Bool.false_eq_true, if_false, planHashed, hchains]
  | failover => exact absurd hk hwell.kind

/-- **The first check that fails decides.** -/
theorem build_of_refused {e : PlanError} {taken : Nat} (h : o.Refused e taken) :
    planner.build o = (.error e, { planner with vpnIndex := planner.vpnIndex + UInt32.ofNat taken }) := by
  cases h with
  | kind hk => simp only [build, hk, nothing_taken]
  | empty hkind hempty =>
    have hisEmpty : o.treatments.isEmpty = true := by rw [hempty]; rfl
    rw [nothing_taken]
    cases hk : o.kind with
    | simple => simp only [build, hk, Objective.planSimple, Objective.onlyTreatment, hempty, bind, Except.bind]
    | broadcast =>
      simp only [build, hk, Objective.planBroadcast, hisEmpty, if_true, bind, Except.bind]
      rfl
    | hashed => simp only [build, hk, hisEmpty, if_true]
    | failover => exact absurd hk hkind
  | tooMany hk hmany =>
    simp only [build, hk, Objective.planSimple, Objective.onlyTreatment_of_many hmany, bind, Except.bind, nothing_taken]
  | untagged hk hfilled hunhinted hunset =>
    have hisEmpty : o.treatments.isEmpty = false := by simpa using hfilled
    have hnone := Objective.flood_vlan_eq_none.2 ⟨hunhinted, hunset⟩
    simp only [build, hk, Objective.planBroadcast, hisEmpty, Bool.false_eq_true, if_false, hnone, bind, Except.bind,
      nothing_taken]
    rfl
  | bucket hwell hsplit hsound hflaw => exact build_of_flaw hwell hsplit hsound hflaw

theorem accepts_iff (planner : Planner) (o : Objective) : (∃ p, (planner.build o).1 = .ok p) ↔ o.Acceptable := by
  constructor
  · rintro ⟨p, hp⟩
    rcases o.acceptable_or_refused with hacceptable | ⟨e, taken, hrefused⟩
    · exact hacceptable
    · rw [build_of_refused hrefused] at hp
      cases hp
  · intro hacceptable
    obtain ⟨hwell, hsound⟩ := Objective.acceptable_iff.1 hacceptable
    exact build_of_sound hwell hsound

theorem fails_iff {planner' : Planner} {e : PlanError} : planner.build o = (.error e, planner') ↔
    ∃ taken, o.Refused e taken ∧ planner' = { planner with vpnIndex := planner.vpnIndex + UInt32.ofNat taken } := by
  constructor
  · intro h
    rcases o.acceptable_or_refused with hacceptable | ⟨e', taken, hrefused⟩
    · obtain ⟨p, hp⟩ := (planner.accepts_iff o).2 hacceptable
      rw [h] at hp
      cases hp
    · rw [build_of_refused hrefused] at h
      cases h
      exact ⟨taken, hrefused, rfl⟩
  · rintro ⟨taken, hrefused, rfl⟩
    exact build_of_refused hrefused

end Planner

namespace Objective

/-- the first thing that is wrong is beyond what the pipeline can do: a failover, or more than one label in a bucket -/
def Exceeds (o : Objective) : Prop :=
  o.kind = .failover ∨ o.kind = .hashed ∧
    ∃ before t after, o.treatments = before ++ t :: after ∧ o.Sound [] before ∧ 1 < t.mplsPushes

theorem Exceeds.refused {o : Objective} (h : o.Exceeds) : ∃ e taken, o.Refused e taken ∧ e.isUnsupported = true := by
  rcases h with hk | ⟨hk, before, t, after, hsplit, hsound, hpushes⟩
  · exact ⟨_, _, .kind hk, rfl⟩
  · have hwell : o.WellFormed := ⟨by simp [hk], by simp [hsplit], by simp [hk], by simp [hk]⟩
    exact ⟨_, _, .bucket hwell hsplit hsound (.tooManyLabels hk hpushes), rfl⟩

theorem Refused.exceeds {o : Objective} {e : PlanError} {taken : Nat} (h : o.Refused e taken)
    (he : e.isUnsupported = true) : o.Exceeds := by
  cases h with
  | kind hk => exact Or.inl hk
  | bucket _ hsplit hsound hflaw =>
    cases hflaw with
    | tooManyLabels hk hpushes => exact Or.inr ⟨hk, _, _, _, hsplit, hsound, hpushes⟩
    | _ => cases he
  | _ => cases he

end Objective

namespace ObjectiveError

variable {e : PlanError}

theorem category_eq_unsupported : (unplannable e).category = .unsupported ↔ e.isUnsupported = true := by
  rw [category]
  split_ifs with h <;> simp [h]

theorem category_eq_badParams : (unplannable e).category = .badParams ↔ ¬e.isUnsupported = true := by
  rw [category]
  split_ifs with h <;> simp [h]

end ObjectiveError

/-- **Which objectives are accepted.** A plan is made for an objective if and only if it is acceptable. Otherwise the
checks on the objective as a whole come first, and after them the first flawed bucket decides what the error is; all
that is left behind is that each bucket before it that pushes a label has taken a VPN index. The error is in one of two
categories: it is unsupported if the objective is a failover, or hashed with more than one label in the first flawed
bucket, and otherwise the parameters are bad. -/
theorem accepted_iff_acceptable (planner : Planner) (o : Objective) :
    ((∃ p, (planner.build o).1 = .ok p) ↔ o.Acceptable) ∧
      (∀ e planner', planner.build o = (.error e, planner') ↔ ∃ taken, o.Refused e taken ∧
        planner' = { planner with vpnIndex := planner.vpnIndex + UInt32.ofNat taken }) ∧
      ((∃ e, (planner.build o).1 = .error e ∧ (ObjectiveError.unplannable e).category = .unsupported) ↔ o.Exceeds) ∧
      ((∃ e, (planner.build o).1 = .error e ∧ (ObjectiveError.unplannable e).category = .badParams) ↔
        ¬o.Acceptable ∧ ¬o.Exceeds) := by
  have hfails : ∀ e, (planner.build o).1 = .error e → ∃ taken, o.Refused e taken := by
    intro e he
    obtain ⟨taken, hrefused, -⟩ := Planner.fails_iff.1 (Prod.ext he rfl : planner.build o = (.error e, _))
    exact ⟨taken, hrefused⟩
  have hbuild : ∀ {e taken}, o.Refused e taken → (planner.build o).1 = .error e := fun hrefused =>
    congrArg Prod.fst (Planner.build_of_refused hrefused)
  refine ⟨planner.accepts_iff o, fun e planner' => Planner.fails_iff, ⟨?_, ?_⟩, ⟨?_, ?_⟩⟩
  · rintro ⟨e, he, hcategory⟩
    obtain ⟨taken, hrefused⟩ := hfails e he
    exact hrefused.exceeds (ObjectiveError.category_eq_unsupported.1 hcategory)
  · intro hexceeds
    obtain ⟨e, taken, hrefused, hunsupported⟩ := hexceeds.refused
    exact ⟨e, hbuild hrefused, ObjectiveError.category_eq_unsupported.2 hunsupported⟩
  · rintro ⟨e, he, hcategory⟩
    refine ⟨fun hacceptable => ?_, fun hexceeds => ?_⟩
    · obtain ⟨p, hp⟩ := (planner.accepts_iff o).2 hacceptable
      cases hp.symm.trans he
    · obtain ⟨e', taken, hrefused, hunsupported⟩ := hexceeds.refused
      cases (hbuild hrefused).symm.trans he
      cases (ObjectiveError.category_eq_unsupported.2 hunsupported).symm.trans hcategory
  · rintro ⟨hnot, hwithin⟩
    obtain ⟨e, taken, hrefused⟩ := o.acceptable_or_refused.resolve_left hnot
    exact ⟨e, hbuild hrefused, ObjectiveError.category_eq_badParams.2 fun hunsupported =>
      hwithin (hrefused.exceeds hunsupported)⟩

/-- the first bucket has taken an index when the second pushes too many labels; the third is not looked at -/
example :
    let labelled : Treatment := ⟨[.pushMpls, .setMplsLabel ⟨100⟩, .setVlanId ⟨10⟩, .output ⟨7⟩]⟩
    let o : Objective := ⟨4, .hashed, [labelled, ⟨[.pushMpls, .pushMpls]⟩, ⟨[.output ⟨8⟩]⟩], ⟨"sample"⟩, none⟩
    (Planner.fresh Sample.device).build o = (.error (.tooManyLabels 4 2), ⟨Sample.device, 1⟩) := rfl

end FlowGroups
