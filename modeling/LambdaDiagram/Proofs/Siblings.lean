import LambdaDiagram.Proofs.Conservation
import LambdaDiagram.Proofs.FloatAddition
import LambdaDiagram.Proofs.SpiralSums
import LambdaDiagram.Proofs.StartingPlaces

/-!
Where siblings start. The sub-groups of a group are put on a spiral around it as they are made, so
no two of them start in one place. Flattening makes siblings of sub-groups of sub-groups, and each
of these starts at the sum of the places on the way to it: in one place with another just when the
two ways take the same places in another order.
-/

namespace LambdaDiagram

variable {S : Type} [Scalar S]

namespace Graph

/-- `g.Leads x ns y`: the sub-groups with these numbers, each of the one before and the first of
`x`, lead to `y`. -/
inductive Leads (g : Graph S) : GroupId → List Nat → GroupId → Prop
  | here (x : GroupId) : Leads g x [] x
  | down {x y z : GroupId} {n : Nat} {ns : List Nat} (h : (g.group x).subgroups[n]? = some y)
      (hrest : Leads g y ns z) : Leads g x (n :: ns) z

/-- Each sub-group is on the spiral around its group, in the place with its number. -/
def Spread (g : Graph S) : Prop := ∀ x n y, (g.group x).subgroups[n]? = some y →
  (g.group y).position = (g.group x).position + spiral n

variable {g g' : Graph S} {home x y z : GroupId} {ns : List Nat}

/-! ## Building -/

theorem Spread.of_positions (h : g.Spread)
    (hplaces : ∀ x, (g'.group x).position = (g.group x).position)
    (hsubgroups : ∀ x, (g'.content x).subgroups = (g.content x).subgroups) : g'.Spread := by
  intro x n y hy
  have hold : (g.content x).subgroups[n]? = some y := hsubgroups x ▸ hy
  rw [hplaces, hplaces]
  exact h x n y hold

theorem spread_empty : (empty : Graph S).Spread := by
  intro x n y hy
  have hnone : ((empty : Graph S).content x).subgroups[n]? = some y := hy
  rw [content_empty] at hnone
  cases hnone

theorem Spread.addGroup (h : g.Spread) (hagree : g.ParentsAgree) (parent : Option GroupId) :
    (g.addGroup parent).1.Spread := by
  intro x n y hy
  have hgroup : ∀ z, z ≠ ⟨g.groups.size⟩ → (g.addGroup parent).1.group z = g.group z :=
    fun z hz => (group_push _ z).trans (if_neg hz)
  have hx : x ≠ ⟨g.groups.size⟩ := by
    rintro rfl
    have hnone : ((g.addGroup parent).1.content ⟨g.groups.size⟩).subgroups[n]? = some y := hy
    rw [content_addGroup, if_pos rfl] at hnone
    cases hnone
  rw [hgroup x hx] at hy
  have hnew := ne_next_of_parent (hagree x y (List.mem_of_getElem? hy))
  rw [hgroup x hx, hgroup y hnew]
  exact h x n y hy

theorem Spread.addSubgroup (h : g.Spread) (hagree : g.ParentsAgree)
    (hlt : home.index < g.groups.size) : (g.addSubgroup home).1.Spread := by
  intro x n y hy
  have hplace := position_addSubgroup g home
  have hkept : ∀ z, z ≠ ⟨g.groups.size⟩ → (g.group z).subgroups[n]? = some y →
      ((g.addSubgroup home).1.group y).position =
        ((g.addSubgroup home).1.group z).position + spiral n := by
    intro z hz hold
    have hnew := ne_next_of_parent (hagree z y (List.mem_of_getElem? hold))
    rw [hplace, hplace, if_neg hz, if_neg hnew]
    exact h z n y hold
  have hy : ((g.addSubgroup home).1.content x).subgroups[n]? = some y := hy
  rw [content_addSubgroup hlt] at hy
  split at hy
  case isTrue => cases hy
  case isFalse hx =>
    split at hy
    case isFalse => exact hkept x hx hy
    case isTrue hhome =>
      subst hhome
      dsimp only at hy
      rw [List.getElem?_append] at hy
      split at hy
      case isTrue => exact hkept x hx hy
      case isFalse hlast =>
        -- the number of the new sub-group is how many there were
        rw [List.getElem?_singleton] at hy
        split at hy
        case isFalse => cases hy
        case isTrue hfirst =>
          obtain rfl := Option.some.inj hy
          have hn : n = (g.group x).subgroups.length :=
            Nat.le_antisymm (Nat.sub_eq_zero_iff_le.1 hfirst) (Nat.le_of_not_lt hlast)
          rw [hplace, hplace, if_pos rfl, if_neg hx, hn]

theorem hereditary_spread : Hereditary fun g : Graph S => g.ParentsAgree ∧ g.Spread where
  addGroup h hp := ⟨hereditary_parentsAgree.addGroup h.1 hp, h.2.addGroup h.1 _⟩
  addSubgroup h hlt := ⟨hereditary_parentsAgree.addSubgroup h.1 hlt, h.2.addSubgroup h.1 hlt⟩
  addInput c h hlt := ⟨hereditary_parentsAgree.addInput c h.1 hlt,
    h.2.of_positions (addInput_samePlaces _ _ c).group
      (content_addInput_keeps c Content.subgroups (fun _ _ => rfl) hlt)⟩
  addMerge f a h hlt := ⟨hereditary_parentsAgree.addMerge f a h.1 hlt,
    h.2.of_positions (addMerge_samePlaces _ _ f a).group
      (content_addMerge_keeps f a Content.subgroups (fun _ _ => rfl) hlt)⟩
  feed value h := ⟨hereditary_parentsAgree.feed value h.1,
    h.2.of_positions (feed_samePlaces _ _ value).group fun x => by rw [content_feed]⟩
  host i x h := ⟨hereditary_parentsAgree.host i x h.1,
    h.2.of_positions (host_samePlaces _ i x).group fun _ => rfl⟩

/-! ## Ways through sub-groups -/

theorem Spread.position_of_leads (h : g.Spread) (hl : g.Leads x ns y) :
    (g.group y).position = (g.group x).position.along ns := by
  induction hl with
  | here x => rfl
  | down hn _ ih =>
    rw [ih, h _ _ _ hn]
    rfl

/-- What is left of the sub-groups of a group can be led to from it. -/
theorem Acyclic.exists_leads (hg : g.Acyclic) (hy : y ∈ g.flatSubgroups x) :
    ∃ ns, g.Leads x ns y := by
  induction x using hg.inside_first with
  | group x ih =>
    rw [hg.flatSubgroups_eq, List.mem_flatMap] at hy
    obtain ⟨z, hz, hy⟩ := hy
    obtain ⟨n, hn⟩ := List.mem_iff_getElem?.1 hz
    split at hy
    case isTrue =>
      obtain ⟨ns, hns⟩ := ih z (.inl hz) hy
      exact ⟨n :: ns, .down hn hns⟩
    case isFalse =>
      rw [List.mem_singleton.1 hy]
      exact ⟨[n], .down hn (.here z)⟩

/-- Where siblings start, however a graph is drawn from a chain and flattened: before that a way
through sub-groups led to each of them, and two of them start in one place just when the numbers on
the two ways are the same but for their order. -/
theorem siblings_coincide_iff_perm (names : List Char) (body : Chain) (rest : List Term) :
    ∃ g : Graph ℝ, ofChain? (.ofTerms (.group names body) rest) = .ok g ∧
      ∀ x ∈ g.flatten.liveGroups, (∀ y ∈ (g.flatten.group x).subgroups, ∃ ns, g.Leads x ns y) ∧
        ∀ y z ms ns, g.Leads x ms y → g.Leads x ns z →
          ((g.flatten.group y).position = (g.flatten.group z).position ↔ ms.Perm ns) := by
  obtain ⟨g, first, others, hg, hforest, -⟩ := exists_forest (S := ℝ) names body rest
  have hscoped : g.WellScoped := .ofChain? hg
  have hone : g.liveGroups.Nodup := hforest.ownershipTree.nodup
  have hspread := (hereditary_spread.ofChain? ⟨WellScoped.new.agree, spread_empty⟩ hg).2
  refine ⟨g, hg, fun x hx => ⟨fun y hy => ?_, fun y z ms ns hy hz => ?_⟩⟩
  · obtain ⟨hlive, hkept⟩ := (hscoped.mem_liveGroups_flatten hone).1 hx
    rw [(hscoped.flatten_of_kept hone hlive hkept).2] at hy
    exact hscoped.acyclic.exists_leads hy
  · have hplaces := flatten_samePlaces g
    rw [hplaces.group, hplaces.group, hspread.position_of_leads hy, hspread.position_of_leads hz]
    exact along_eq_along_iff _ ms ns

/-- Two steps from the origin lead to one place whichever is taken first, on any numbers whose sums
do not depend on which of two comes first. -/
theorem along_swap (hcomm : ∀ a b : S, a + b = b + a)
    (hzero : ∀ a : S, 0.0 + (0.0 + a) = 0.0 + a) (m n : Nat) :
    (Vec.zero : Vec S).along [m, n] = Vec.zero.along [n, m] := by
  have hstart : ∀ k, (Vec.zero : Vec S) + spiral k = spiral k := fun k =>
    congrArg₂ Vec.mk (hzero _) (hzero _)
  show Vec.zero + spiral m + spiral n = Vec.zero + spiral n + spiral m
  rw [hstart, hstart]
  exact congrArg₂ Vec.mk (hcomm _ _) (hcomm _ _)

/-- So do two ways of two steps through the sub-groups of a group at the origin that take the same
places. -/
theorem Spread.position_eq_of_swap (h : g.Spread) (hcomm : ∀ a b : S, a + b = b + a)
    (hzero : ∀ a : S, 0.0 + (0.0 + a) = 0.0 + a) (hx : (g.group x).position = .zero) {m n : Nat}
    (hy : g.Leads x [m, n] y) (hz : g.Leads x [n, m] z) :
    (g.group y).position = (g.group z).position := by
  rw [h.position_of_leads hy, h.position_of_leads hz, hx]
  exact along_swap hcomm hzero m n

/-- The chain `(\a.((\b.b)(\c.c))((\d.d)))`. -/
def crossedSiblings : Chain := .last (.group ['a'] (.cons
  (.group [] (.cons (.group ['b'] (.last (.var 'b'))) (.last (.group ['c'] (.last (.var 'c'))))))
  (.last (.group [] (.last (.group ['d'] (.last (.var 'd'))))))))

/-- The group of `c` comes second in a group that comes first, and that of `d` first in a group that
comes second. When both groups around them have been dissolved, the two start in one place, in
floating-point numbers as well. -/
theorem siblings_coincide : ∃ g : Graph Float, ofChain? crossedSiblings = .ok g ∧
    root ∈ g.flatten.liveGroups ∧ (g.flatten.group root).subgroups = [⟨2⟩, ⟨3⟩, ⟨5⟩] ∧
      (g.flatten.group ⟨3⟩).position = (g.flatten.group ⟨5⟩).position := by
  have hlists : (ofChain? (S := Float) crossedSiblings).toOption.map
      (fun g => ((g.flatten.group root).subgroups, (g.group root).parent,
        (g.group root).subgroups, (g.group ⟨1⟩).subgroups, (g.group ⟨4⟩).subgroups)) =
      some ([⟨2⟩, ⟨3⟩, ⟨5⟩], none, [⟨1⟩, ⟨4⟩], [⟨2⟩, ⟨3⟩], [⟨5⟩]) := by decide +kernel
  obtain ⟨g, hg⟩ : ∃ g : Graph Float, ofChain? crossedSiblings = .ok g := by
    cases hbuilt : ofChain? (S := Float) crossedSiblings with
    | error e =>
      rw [hbuilt] at hlists
      cases hlists
    | ok g => exact ⟨g, rfl⟩
  rw [hg] at hlists
  have hlists := Option.some.inj hlists
  simp only [Prod.mk.injEq] at hlists
  obtain ⟨hflat, hparent, hroot, hfirst, hsecond⟩ := hlists
  have hspread := (hereditary_spread.ofChain? ⟨WellScoped.new.agree, spread_empty⟩ hg).2
  have hgrounded := (hereditary_grounded.ofChain? ⟨inputsIn_empty, grounded_empty⟩ hg).2
  have hc : g.Leads root [0, 1] ⟨3⟩ :=
    .down (hroot ▸ rfl : _ = some ⟨1⟩) (.down (hfirst ▸ rfl) (.here _))
  have hd : g.Leads root [1, 0] ⟨5⟩ :=
    .down (hroot ▸ rfl : _ = some ⟨4⟩) (.down (hsecond ▸ rfl) (.here _))
  have hplaces := flatten_samePlaces g
  refine ⟨g, hg, g.flatten.mem_groups_nestTo_self _ root, hflat, ?_⟩
  rw [hplaces.group, hplaces.group]
  exact hspread.position_eq_of_swap FloatAddition.add_comm FloatAddition.zero_add_zero_add
    (hgrounded root hparent).1 hc hd

end Graph

end LambdaDiagram
