import LambdaDiagram.Proofs.Changes

/-!
What a tick establishes group by group. Some facts about a group speak of nothing but the group, what
lies directly in it, and their inputs. Such a fact is established when the tick comes to the group,
and all that happens to the group later in the tick happens to everything that lies in it as well: it
is moved with the nest of a group around it. A fact that bears this holds of every live group after
the tick, and after any number of ticks.
-/

namespace LambdaDiagram

variable {S : Type} [Scalar S]

/-! ## Nests in a graph -/

/-- A nest fits a graph when it shows live groups of the graph, each of them once. -/
structure Nest.Fits (g₀ : Graph S) (n : Nest) : Prop where
  shows : n.Shows g₀
  nodup : n.groups.Nodup
  live : n.groups ⊆ g₀.liveGroups

/-- Some anchors fit a group of a graph when they show some of its inputs, each of them once, and
what these host. -/
structure Anchors.Fits (g₀ : Graph S) (home : GroupId) (as : Anchors) : Prop where
  shows : as.Shows g₀
  nodup : (home :: as.groups).Nodup
  live : home :: as.groups ⊆ g₀.liveGroups
  own : as.own ⊆ (g₀.group home).inputs
  own_nodup : as.own.Nodup

/-- Some nests fit a graph when they show live groups of the graph, each of them once. -/
structure Nests.Fits (g₀ : Graph S) (ns : Nests) : Prop where
  shows : ns.Shows g₀
  nodup : ns.groups.Nodup
  live : ns.groups ⊆ g₀.liveGroups

section

variable {g₀ g : Graph S} {home id : GroupId} {i : InputId} {n : Nest} {as : Anchors} {ns : Nests}

theorem Graph.Tidy.fits (hg : g₀.Tidy) : (g₀.nest Graph.root).Fits g₀ :=
  ⟨hg.shows, hg.nodup, List.Subset.refl _⟩

theorem Nest.Fits.anchors (hg : g₀.Tidy) (h : (Nest.group id as ns).Fits g₀) : as.Fits g₀ id where
  shows := h.shows.2.2.1
  nodup := by
    apply List.Nodup.sublist _ h.nodup
    exact List.Sublist.cons_cons id (List.sublist_append_right _ _)
  live := by
    apply List.Subset.trans _ h.live
    exact List.cons_subset_cons id (List.subset_append_right _ _)
  own := by
    rw [h.shows.1]
    exact List.Subset.refl _
  own_nodup := by
    rw [h.shows.1]
    exact hg.inputs id (h.live List.mem_cons_self)

theorem Nest.Fits.subgroups (h : (Nest.group id as ns).Fits g₀) : ns.Fits g₀ where
  shows := h.shows.2.2.2
  nodup := (List.nodup_append.1 (List.nodup_cons.1 h.nodup).2).1
  live := by
    apply List.Subset.trans _ h.live
    exact List.subset_cons_of_subset id (List.subset_append_left _ _)

theorem Nest.Fits.disjoint (h : (Nest.group id as ns).Fits g₀) :
    ns.groups.Disjoint (id :: as.groups) := by
  obtain ⟨hid, hrest⟩ := List.nodup_cons.1 h.nodup
  apply List.disjoint_cons_right.2
  exact ⟨fun hm => hid (List.mem_append_left _ hm), List.disjoint_of_nodup_append hrest⟩

theorem Nest.Fits.id_live (h : (Nest.group id as ns).Fits g₀) : id ∈ g₀.liveGroups :=
  h.live List.mem_cons_self

theorem Nest.Fits.id_notMem (h : (Nest.group id as ns).Fits g₀) : id ∉ ns.groups :=
  fun hm => h.disjoint hm List.mem_cons_self

theorem Nest.Fits.id_lt (h : (Nest.group id as ns).Fits g₀) (hg : g₀.Tidy) (ha : g₀.Alike g) :
    id.index < g.groups.size := by
  rw [ha.groups_size]
  exact hg.groups_lt id h.id_live

theorem Anchors.Fits.of_bare (h : (Anchors.bare i as).Fits g₀ home) : as.Fits g₀ home :=
  ⟨h.shows.2, h.nodup, h.live, (List.cons_subset.1 h.own).2, (List.nodup_cons.1 h.own_nodup).2⟩

theorem Anchors.Fits.of_hosting (h : (Anchors.hosting i n as).Fits g₀ home) :
    as.Fits g₀ home where
  shows := h.shows.2.2
  nodup := by
    apply List.Nodup.sublist _ h.nodup
    exact List.Sublist.cons_cons home (List.sublist_append_left _ _)
  live := by
    apply List.Subset.trans _ h.live
    exact List.cons_subset_cons home (List.subset_append_left _ _)
  own := (List.cons_subset.1 h.own).2
  own_nodup := (List.nodup_cons.1 h.own_nodup).2

theorem Anchors.Fits.hosted (h : (Anchors.hosting i n as).Fits g₀ home) : n.Fits g₀ where
  shows := h.shows.2.1
  nodup := (List.nodup_append.1 (List.nodup_cons.1 h.nodup).2).2.1
  live := by
    apply List.Subset.trans _ h.live
    exact List.subset_cons_of_subset home (List.subset_append_right _ _)

/-- What an input hosts is apart from the group of the input and from what the other inputs host. -/
theorem Anchors.Fits.disjoint (h : (Anchors.hosting i n as).Fits g₀ home) :
    n.groups.Disjoint (home :: as.groups) := by
  obtain ⟨hhome, hrest⟩ := List.nodup_cons.1 h.nodup
  apply List.disjoint_cons_right.2
  exact ⟨fun hm => hhome (List.mem_append_right _ hm), (List.disjoint_of_nodup_append hrest).symm⟩

theorem Anchors.Fits.apart (h : (Anchors.hosting i n as).Fits g₀ home) :
    as.groups.Disjoint n.groups :=
  (List.disjoint_cons_right.1 h.disjoint).2.symm

/-- A group is apart from what its inputs host. -/
theorem Anchors.Fits.home_notMem (h : as.Fits g₀ home) : home ∉ as.groups :=
  (List.nodup_cons.1 h.nodup).1

theorem Anchors.Fits.home_disjoint (h : as.Fits g₀ home) : as.groups.Disjoint [home] :=
  List.disjoint_singleton.2 h.home_notMem

theorem Anchors.Fits.home_live (h : as.Fits g₀ home) : [home] ⊆ g₀.liveGroups :=
  List.cons_subset.2 ⟨(List.cons_subset.1 h.live).1, List.nil_subset _⟩

theorem Nests.Fits.head (h : (Nests.cons n ns).Fits g₀) : n.Fits g₀ :=
  ⟨h.shows.1, (List.nodup_append.1 h.nodup).2.1,
    List.Subset.trans (List.subset_append_right _ _) h.live⟩

theorem Nests.Fits.tail (h : (Nests.cons n ns).Fits g₀) : ns.Fits g₀ :=
  ⟨h.shows.2, (List.nodup_append.1 h.nodup).1,
    List.Subset.trans (List.subset_append_left _ _) h.live⟩

theorem Nests.Fits.disjoint (h : (Nests.cons n ns).Fits g₀) : n.groups.Disjoint ns.groups :=
  (List.disjoint_of_nodup_append h.nodup).symm

theorem Nests.Fits.of_mem {ns : Nests} (h : ns.Fits g₀) (hn : n ∈ ns.toList) : n.Fits g₀ := by
  cases ns with
  | nil => cases hn
  | cons m rest =>
    rcases List.mem_cons.1 hn with rfl | hn
    · exact h.head
    · exact of_mem h.tail hn

/-- Nests side by side have no group in common. -/
theorem Nests.Fits.eq_of_mem {ns : Nests} {m : Nest} {x : GroupId} (h : ns.Fits g₀)
    (hm : m ∈ ns.toList) (hn : n ∈ ns.toList) (hxm : x ∈ m.groups) (hxn : x ∈ n.groups) :
    m = n := by
  cases ns with
  | nil => cases hm
  | cons k rest =>
    have hout : ∀ j ∈ rest.toList, x ∈ j.groups → x ∉ k.groups := fun j hj hxj hxk =>
      h.disjoint hxk (Nests.mem_groups.2 ⟨j, hj, hxj⟩)
    rcases List.mem_cons.1 hm with rfl | hm'
    · rcases List.mem_cons.1 hn with rfl | hn'
      · rfl
      · exact absurd hxm (hout n hn' hxn)
    · rcases List.mem_cons.1 hn with rfl | hn'
      · exact absurd hxn (hout m hm' hxm)
      · exact eq_of_mem h.tail hm' hn' hxm hxn

end

namespace Graph

/-! ## Local properties -/

/-- A group and its inputs are as before. -/
def Untouched (g₀ g g' : Graph S) (x : GroupId) : Prop :=
  g'.group x = g.group x ∧ ∀ i ∈ (g₀.group x).inputs, g'.input i = g.input i

/-- A property of groups is local when it depends on nothing but the group, what lies directly in
it, and their inputs. -/
def Local (g₀ : Graph S) (P : Graph S → GroupId → Prop) : Prop :=
  ∀ {g g' : Graph S} {x : GroupId}, g₀.Alike g → g.Alike g' → g₀.Untouched g g' x →
    (∀ y, g₀.Contains x y → g₀.Untouched g g' y) → P g x → P g' x

/-- Some live groups with all that lies in them. -/
structure Region (g₀ : Graph S) (ys : List GroupId) : Prop where
  closed : ∀ x ∈ ys, ∀ y, g₀.Contains x y → y ∈ ys
  live : ys ⊆ g₀.liveGroups

variable {g₀ g g' : Graph S} {P : Graph S → GroupId → Prop} {x : GroupId} {i : InputId}
  {ys zs : List GroupId} {is : List InputId}

theorem Region.append (hy : g₀.Region ys) (hz : g₀.Region zs) : g₀.Region (ys ++ zs) where
  closed x hx y hxy := by
    rcases List.mem_append.1 hx with hx | hx
    · exact List.mem_append_left _ (hy.closed x hx y hxy)
    · exact List.mem_append_right _ (hz.closed x hx y hxy)
  live := List.append_subset.2 ⟨hy.live, hz.live⟩

/-- An input of a live group stays as it is when others change. -/
theorem Changes.input_eq (h : g₀.Changes zs is g g') (hg : g₀.Tidy) (hz : zs ⊆ g₀.liveGroups)
    (hx : x ∈ g₀.liveGroups) (hn : x ∉ zs) (hi : i ∈ (g₀.group x).inputs) (hout : i ∉ is) :
    g'.input i = g.input i := by
  apply h.input i hout
  intro z hzm hiz
  apply hn
  rwa [hg.owner x hx z (hz hzm) i hi hiz]

/-- A change to other groups leaves a live group and its inputs as they are. -/
theorem Changes.untouched (h : g₀.Changes zs [] g g') (hg : g₀.Tidy) (hz : zs ⊆ g₀.liveGroups)
    (hx : x ∈ g₀.liveGroups) (hn : x ∉ zs) : g₀.Untouched g g' x :=
  ⟨h.group x hn, fun _ hi => h.input_eq hg hz hx hn hi List.not_mem_nil⟩

/-- A local property is kept wherever nothing changes. -/
theorem Region.keep (hy : g₀.Region ys) (hg : g₀.Tidy) (hP : g₀.Local P) (ha : g₀.Alike g)
    (h : g₀.Changes zs [] g g') (hz : zs ⊆ g₀.liveGroups) (hd : ys.Disjoint zs)
    (hold : ∀ x ∈ ys, P g x) : ∀ x ∈ ys, P g' x := by
  intro x hx
  have hsame : ∀ y ∈ ys, g₀.Untouched g g' y := fun y hm => h.untouched hg hz (hy.live hm) (hd hm)
  exact hP ha h.alike (hsame x hx) (fun y hxy => hsame y (hy.closed x hx y hxy)) (hold x hx)

end Graph

open LambdaDiagram.Graph

section

variable {g₀ g g' : Graph S} {home id : GroupId} {i : InputId} {n : Nest} {as : Anchors}
  {ns : Nests}

theorem Nest.Fits.region (h : n.Fits g₀) : g₀.Region n.groups :=
  ⟨fun _ hx _ hxy => h.shows.closed hx hxy, h.live⟩

/-- A change to the sub-groups of a group leaves the group and its inputs alone. -/
theorem Nest.Fits.untouched (h : (Nest.group id as ns).Fits g₀) (hg : g₀.Tidy)
    (hc : g₀.Changes ns.groups [] g g') : g₀.Untouched g g' id :=
  hc.untouched hg h.subgroups.live h.id_live h.id_notMem

theorem Anchors.Fits.region (h : as.Fits g₀ home) : g₀.Region as.groups :=
  ⟨fun _ hx _ hxy => h.shows.closed hx hxy, (List.cons_subset.1 h.live).2⟩

theorem Nests.Fits.region (h : ns.Fits g₀) : g₀.Region ns.groups :=
  ⟨fun _ hx _ hxy => h.shows.closed hx hxy, h.live⟩

theorem Anchors.Fits.input_lt (h : as.Fits g₀ home) (hg : g₀.Tidy)
    (ha : g₀.Alike g) (hi : i ∈ as.own) : i.index < g.inputs.size := by
  rw [ha.inputs_size]
  exact hg.inputs_lt home (h.live List.mem_cons_self) i (h.own hi)

/-- A change to some inputs of a group leaves its other inputs alone. -/
theorem Anchors.Fits.input_eq (h : as.Fits g₀ home) (hg : g₀.Tidy)
    (hc : g₀.Changes as.groups as.own g g') (hi : i ∈ (g₀.group home).inputs)
    (hout : i ∉ as.own) : g'.input i = g.input i := by
  obtain ⟨hhome, hlive⟩ := List.cons_subset.1 h.live
  exact hc.input_eq hg hlive hhome h.home_notMem hi hout

theorem Anchors.Fits.input_eq_of_bare (h : (Anchors.bare i as).Fits g₀ home) (hg : g₀.Tidy)
    (hc : g₀.Changes as.groups as.own g g') : g'.input i = g.input i :=
  h.of_bare.input_eq hg hc (h.own List.mem_cons_self) (List.nodup_cons.1 h.own_nodup).1

theorem Anchors.Fits.input_eq_of_hosting (h : (Anchors.hosting i n as).Fits g₀ home) (hg : g₀.Tidy)
    (hc : g₀.Changes as.groups as.own g g') : g'.input i = g.input i :=
  h.of_hosting.input_eq hg hc (h.own List.mem_cons_self) (List.nodup_cons.1 h.own_nodup).1

/-- A change to what an input of a group hosts leaves the inputs of the group alone. -/
theorem Anchors.Fits.input_eq_of_hosted {j : InputId}
    (h : (Anchors.hosting i n as).Fits g₀ home) (hg : g₀.Tidy)
    (hc : g₀.Changes n.groups [] g g') (hj : j ∈ (g₀.group home).inputs) :
    g'.input j = g.input j := by
  have hapart := (List.disjoint_cons_right.1 h.disjoint).1
  exact hc.input_eq hg h.hosted.live (h.live List.mem_cons_self) hapart hj List.not_mem_nil

end

/-! ## What lasts for the rest of a tick -/

/-- A property lasts when it is local and comes along as a nest is moved. -/
structure Graph.Lasting (g₀ : Graph S) (P : Graph S → GroupId → Prop) : Prop where
  near : g₀.Local P
  move : ∀ {n : Nest} {g : Graph S} (d : Vec S), n.Fits g₀ → g₀.Alike g →
    (∀ x ∈ n.groups, P g x) → ∀ x ∈ n.groups, P (n.move g d) x

namespace Graph.Lasting

variable {g₀ g : Graph S} {P : Graph S → GroupId → Prop} {home id : GroupId} {n : Nest}
  {anchors : Anchors} {ns : Nests}

/-- Of nests side by side, one is moved. -/
theorem move_one (hP : g₀.Lasting P) (hg : g₀.Tidy) (h : ns.Fits g₀) (ha : g₀.Alike g)
    (hn : n ∈ ns.toList) (d : Vec S) (hold : ∀ x ∈ ns.groups, P g x) :
    ∀ x ∈ ns.groups, P (n.move g d) x := by
  have hin : ∀ {m : Nest}, m ∈ ns.toList → ∀ x ∈ m.groups, P g x := fun hm x hx =>
    hold x (Nests.mem_groups.2 ⟨_, hm, hx⟩)
  intro x hx
  obtain ⟨m, hm, hxm⟩ := Nests.mem_groups.1 hx
  by_cases he : m = n
  · subst he
    exact hP.move d (h.of_mem hm) ha (hin hm) x hxm
  · have hfits := h.of_mem hn
    apply (h.of_mem hm).region.keep hg hP.near ha (hfits.shows.move_changes g d) hfits.live _ (hin hm) x
      hxm
    exact fun y hy hyn => he (h.eq_of_mem hm hn hy hyn)

theorem separate (hP : g₀.Lasting P) (hg : g₀.Tidy) (e : Engine S) (h : ns.Fits g₀)
    (ha : g₀.Alike g) (number : Nat) (hold : ∀ x ∈ ns.groups, P g x) :
    ∀ x ∈ ns.groups, P (e.separate g number ns.toList) x := by
  have hmove : ∀ (g : Graph S) (d : Vec S), ∀ n ∈ ns.toList,
      (g₀.Alike g ∧ ∀ x ∈ ns.groups, P g x) →
      g₀.Alike (n.move g d) ∧ ∀ x ∈ ns.groups, P (n.move g d) x := by
    intro g d n hn hk
    have halike := ((h.of_mem hn).shows.move_changes g d).alike
    exact ⟨hk.1.trans halike, hP.move_one hg h hk.1 hn d hk.2⟩
  have hboth : g₀.Alike (e.separate g number ns.toList) ∧
      ∀ x ∈ ns.groups, P (e.separate g number ns.toList) x :=
    separate_of_moves e (motive := fun g => g₀.Alike g ∧ ∀ x ∈ ns.groups, P g x) hmove number
      ⟨ha, hold⟩
  exact hboth.2

theorem turnInputs (hP : g₀.Lasting P) (hg : g₀.Tidy) (e : Engine S) : (number : Nat) →
    {as : Anchors} → {g : Graph S} → as.Fits g₀ home → g₀.Alike g → (∀ x ∈ as.groups, P g x) →
    ∀ x ∈ as.groups, P (e.turnInputs g home number as) x
  | _, .nil, _, _, _, _ => nofun
  | number, .bare id rest, g, h, ha, hold => by
    have hturn : g₀.Changes [home] [] g (e.turn g home number id).1 :=
      turn_changes_home e g number (h.own List.mem_cons_self)
    have hkept := h.of_bare.region.keep hg hP.near ha hturn h.home_live h.home_disjoint hold
    rw [Engine.turnInputs, Anchors.groups]
    exact turnInputs hP hg e (number + 1) h.of_bare (ha.trans hturn.alike) hkept
  | number, .hosting id hosted rest, g, h, ha, hold => by
    have hturn : g₀.Changes [home] [] g (e.turn g home number id).1 :=
      turn_changes_home e g number (h.own List.mem_cons_self)
    have hmove := h.hosted.shows.move_changes (e.turn g home number id).1
      (e.turn g home number id).2
    have hrest : g₀.Changes (home :: rest.groups) [] _ _ :=
      (h.of_hosting.shows.turnInputs_changes e home (number + 1)
        (hosted.move (e.turn g home number id).1 (e.turn g home number id).2)).of_home
          h.of_hosting.own
    obtain ⟨hr, hh⟩ := List.forall_mem_append.1
      (h.region.keep hg hP.near ha hturn h.home_live h.home_disjoint hold)
    have ha1 := ha.trans hturn.alike
    have ha2 := ha1.trans hmove.alike
    rw [Engine.turnInputs, Anchors.groups]
    refine List.forall_mem_append.2 ⟨?_, ?_⟩
    · apply turnInputs hP hg e (number + 1) h.of_hosting ha2
      exact h.of_hosting.region.keep hg hP.near ha1 hmove h.hosted.live h.apart hr
    · apply h.hosted.region.keep hg hP.near ha2 hrest h.of_hosting.live h.disjoint
      exact hP.move _ h.hosted ha1 hh

/-- What holds of all that lies in a group lasts while the group settles. -/
theorem settle (hP : g₀.Lasting P) (hg : g₀.Tidy) (e : Engine S)
    (h : (Nest.group id anchors ns).Fits g₀) (ha : g₀.Alike g) (largest : S)
    (hold : ∀ x ∈ ns.groups ++ anchors.groups, P g x) :
    ∀ x ∈ ns.groups ++ anchors.groups, P (e.settle g id anchors ns largest) x := by
  have hanchors := h.anchors hg
  have hin : g₀.Region (ns.groups ++ anchors.groups) := h.subgroups.region.append hanchors.region
  have hd : (ns.groups ++ anchors.groups).Disjoint [id] :=
    List.disjoint_singleton.2 (List.nodup_cons.1 h.nodup).1
  have hseparate := separate_changes e h.subgroups.shows g 0
  have hresize : g₀.Changes [id] [] _ _ :=
    resize_changes e (e.separate g 0 ns.toList) id largest
  have hturn : g₀.Changes (id :: anchors.groups) [] _ _ :=
    (hanchors.shows.turnInputs_changes e id 0
      (e.resize (e.separate g 0 ns.toList) id largest)).of_home hanchors.own
  have hlower : g₀.Changes [id] [] _ _ :=
    lowerOutput_changes (e.turned g id anchors ns largest) id
  have ha1 := ha.trans hseparate.alike
  have ha2 := ha1.trans hresize.alike
  have ha3 := ha2.trans hturn.alike
  obtain ⟨hs, hh⟩ := List.forall_mem_append.1 hold
  have hparted : ∀ x ∈ ns.groups ++ anchors.groups, P (e.separate g 0 ns.toList) x := by
    refine List.forall_mem_append.2 ⟨hP.separate hg e h.subgroups ha 0 hs, ?_⟩
    apply hanchors.region.keep hg hP.near ha hseparate h.subgroups.live _ hh
    exact (List.disjoint_cons_right.1 h.disjoint).2.symm
  obtain ⟨hs, hh⟩ := List.forall_mem_append.1
    (hin.keep hg hP.near ha1 hresize hanchors.home_live hd hparted)
  have hturned : ∀ x ∈ ns.groups ++ anchors.groups, P (e.turned g id anchors ns largest) x := by
    refine List.forall_mem_append.2 ⟨?_, hP.turnInputs hg e 0 hanchors ha2 hh⟩
    exact h.subgroups.region.keep hg hP.near ha2 hturn hanchors.live h.disjoint hs
  have hlowered := hin.keep hg hP.near ha3 hlower hanchors.home_live hd hturned
  rw [Engine.settle_eq]
  exact hin.keep hg hP.near (ha3.trans hlower.alike) (easeMerges_changes e _ id)
    (List.nil_subset _) (List.disjoint_nil_right _) hlowered

end Graph.Lasting

/-! ## Ticks -/

/-- The last of some ticks comes after the others. -/
theorem Engine.run_succ (e : Engine S) (g : Graph S) (n : Nat) :
    e.run g (n + 1) = e.tick (e.run g n) := by
  induction n generalizing g with
  | zero => rfl
  | succ n ih => exact ih (e.tick g)

/-- A tick establishes `P` of each group of which `Q` holds before, and what is established
lasts. -/
structure Engine.Establishes (e : Engine S) (g₀ : Graph S) (Q P : Graph S → GroupId → Prop) :
    Prop where
  lasting : g₀.Lasting P
  before : g₀.Local Q
  own : ∀ {n : Nest} {g : Graph S}, n.Fits g₀ → g₀.Alike g → Q g n.id → P (e.tickNest g n) n.id

namespace Engine.Establishes

variable {e : Engine S} {g₀ : Graph S} {Q P : Graph S → GroupId → Prop}

mutual

/-- Whatever lies in a nest has the property once the nest is laid out. -/
theorem tickNest (h : e.Establishes g₀ Q P) (hg : g₀.Tidy) : {n : Nest} → {g : Graph S} →
    n.Fits g₀ → g₀.Alike g → (∀ x ∈ n.groups, Q g x) → ∀ x ∈ n.groups, P (e.tickNest g n) x
  | .group id anchors subgroups, g, hn, ha, hQ => by
    obtain ⟨hid, hQ'⟩ := List.forall_mem_cons.1 hQ
    obtain ⟨hQs, hQa⟩ := List.forall_mem_append.1 hQ'
    have hanchors : g₀.Changes (id :: anchors.groups) [] _ _ :=
      ((hn.anchors hg).shows.tick_changes e g 0.0).of_home (hn.anchors hg).own
    have hsubgroups := hn.subgroups.shows.tick_changes e (e.tickAnchors g 0.0 anchors).1
    have ha1 := ha.trans hanchors.alike
    have hPa := tickAnchors h hg 0.0 (hn.anchors hg) ha hQa
    have hPs := tickNests h hg hn.subgroups ha1
      (hn.subgroups.region.keep hg h.before ha hanchors (hn.anchors hg).live hn.disjoint hQs)
    rw [Nest.groups]
    refine List.forall_mem_cons.2 ⟨h.own hn ha hid, ?_⟩
    rw [Engine.tickNest]
    apply h.lasting.settle hg e hn (ha1.trans hsubgroups.alike)
    refine List.forall_mem_append.2 ⟨hPs, ?_⟩
    apply (hn.anchors hg).region.keep hg h.lasting.near ha1 hsubgroups hn.subgroups.live _ hPa
    exact (List.disjoint_cons_right.1 hn.disjoint).2.symm

theorem tickAnchors (h : e.Establishes g₀ Q P) (hg : g₀.Tidy) {home : GroupId} :
    {as : Anchors} → {g : Graph S} → (largest : S) → as.Fits g₀ home → g₀.Alike g →
    (∀ x ∈ as.groups, Q g x) → ∀ x ∈ as.groups, P (e.tickAnchors g largest as).1 x
  | .nil, _, _, _, _, _ => nofun
  | .bare id rest, g, largest, has, ha, hQ => by
    have hresize : g₀.Changes [home] [] g (g.resizeInput e.inputRadius id) :=
      resizeInput_changes_home g _ (has.own List.mem_cons_self)
    rw [Engine.tickAnchors, Anchors.groups]
    apply tickAnchors h hg _ has.of_bare (ha.trans hresize.alike)
    exact has.of_bare.region.keep hg h.before ha hresize has.home_live has.home_disjoint hQ
  | .hosting id hosted rest, g, largest, has, ha, hQ => by
    obtain ⟨hQr, hQh⟩ := List.forall_mem_append.1 hQ
    have hhosted := has.hosted.shows.tick_changes e g
    have hresize : ∀ radius, g₀.Changes [home] [] (e.tickNest g hosted)
        ((e.tickNest g hosted).resizeInput radius id) := fun radius =>
      resizeInput_changes_home _ radius (has.own List.mem_cons_self)
    have hrest : ∀ g largest, g₀.Changes (home :: rest.groups) [] g
        (e.tickAnchors g largest rest).1 := fun g largest =>
      (has.of_hosting.shows.tick_changes e g largest).of_home has.of_hosting.own
    have ha1 := ha.trans hhosted.alike
    rw [Engine.tickAnchors, Anchors.groups]
    refine List.forall_mem_append.2 ⟨?_, ?_⟩
    · apply tickAnchors h hg _ has.of_hosting (ha1.trans (hresize _).alike)
      apply has.of_hosting.region.keep hg h.before ha1 (hresize _) has.home_live
        has.of_hosting.home_disjoint
      exact has.of_hosting.region.keep hg h.before ha hhosted has.hosted.live has.apart hQr
    · apply has.hosted.region.keep hg h.lasting.near (ha1.trans (hresize _).alike) (hrest _ _)
        has.of_hosting.live has.disjoint
      apply has.hosted.region.keep hg h.lasting.near ha1 (hresize _) has.home_live
      · exact List.disjoint_singleton.2 (List.disjoint_cons_right.1 has.disjoint).1
      · exact tickNest h hg has.hosted ha hQh

theorem tickNests (h : e.Establishes g₀ Q P) (hg : g₀.Tidy) : {ns : Nests} → {g : Graph S} →
    ns.Fits g₀ → g₀.Alike g → (∀ x ∈ ns.groups, Q g x) → ∀ x ∈ ns.groups, P (e.tickNests g ns) x
  | .nil, _, _, _, _ => nofun
  | .cons n rest, g, hns, ha, hQ => by
    obtain ⟨hQr, hQn⟩ := List.forall_mem_append.1 hQ
    have hn := hns.head.shows.tick_changes e g
    have hrest := hns.tail.shows.tick_changes e (e.tickNest g n)
    have hPn := tickNest h hg hns.head ha hQn
    have hPr := tickNests h hg hns.tail (ha.trans hn.alike)
      (hns.tail.region.keep hg h.before ha hn hns.head.live hns.disjoint.symm hQr)
    rw [Engine.tickNests, Nests.groups]
    refine List.forall_mem_append.2 ⟨hPr, ?_⟩
    exact hns.head.region.keep hg h.lasting.near (ha.trans hn.alike) hrest hns.tail.live hns.disjoint hPn

end

/-- What a tick establishes on its own ground holds of every live group after every tick. -/
theorem run (h : e.Establishes g₀ Q P) (hg : g₀.Tidy) (hPQ : ∀ g x, P g x → Q g x)
    (hQ : ∀ x ∈ g₀.liveGroups, Q g₀ x) (n : Nat) :
    ∀ x ∈ g₀.liveGroups, P (e.tick (e.run g₀ n)) x := by
  have htick : ∀ n, (∀ x ∈ g₀.liveGroups, Q (e.run g₀ n) x) →
      ∀ x ∈ g₀.liveGroups, P (e.tick (e.run g₀ n)) x := by
    intro n hn
    have hr := (Rearranged.refl g₀).run e n
    rw [Engine.tick, hr.nest_eq]
    exact h.tickNest hg hg.fits hr.alike hn
  induction n with
  | zero => exact htick 0 hQ
  | succ n ih =>
    apply htick (n + 1)
    rw [Engine.run_succ]
    exact fun x hx => hPQ _ x (ih x hx)

end Engine.Establishes

end LambdaDiagram
