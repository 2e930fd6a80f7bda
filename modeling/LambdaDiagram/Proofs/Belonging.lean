import LambdaDiagram.Proofs.Hoisting
import LambdaDiagram.Proofs.Operations

/-!
Merges belong to groups. A merge is put into one group as it is made, and a group that is dissolved
gives its merges away and keeps none, so whatever is done to a graph, a merge lies in one group at
most, and there once. This does not depend on what is hosted where.
-/

namespace LambdaDiagram

variable {S : Type} [Scalar S]

namespace Graph

/-- The merges of groups are in the store, and each is in one place at most. -/
structure MergesOnce (g : Graph S) : Prop where
  lt : ∀ x, ∀ m ∈ (g.group x).merges, m.index < g.merges.size
  nodup : ∀ x, (g.group x).merges.Nodup
  owner : ∀ x y, ∀ m ∈ (g.group x).merges, m ∈ (g.group y).merges → x = y

variable {g g' : Graph S} {home : GroupId}

namespace MergesOnce

theorem new : (empty : Graph S).MergesOnce := by
  have hnone : ∀ x, ((empty : Graph S).group x).merges = [] := fun x =>
    congrArg Content.merges (content_empty x)
  refine ⟨fun x => ?_, fun x => ?_, fun x _ => ?_⟩
  · rw [hnone]
    exact List.forall_mem_nil _
  · rw [hnone]
    exact List.nodup_nil
  · rw [hnone]
    exact List.forall_mem_nil _

section

variable (h : g.MergesOnce)

include h

/-- One group may get merges that no group has. -/
theorem extend (home : GroupId) (ms : List MergeId) (hsize : g.merges.size ≤ g'.merges.size)
    (hnodup : ms.Nodup) (hlt : ∀ m ∈ ms, m.index < g'.merges.size)
    (hfresh : ∀ x, (g.group x).merges.Disjoint ms)
    (hlist : ∀ x, (g'.group x).merges.Sublist
      ((g.group x).merges ++ if x = home then ms else [])) : g'.MergesOnce := by
  have hmem : ∀ x, ∀ m ∈ (g'.group x).merges, m ∈ (g.group x).merges ∨ x = home ∧ m ∈ ms := by
    intro x m hm
    refine (List.mem_append.1 ((hlist x).subset hm)).imp_right fun hm => ?_
    split at hm
    case isTrue hx => exact ⟨hx, hm⟩
    case isFalse => cases hm
  refine ⟨fun x m hm => ?_, fun x => (hlist x).nodup ?_, fun x y m hx hy => ?_⟩
  · obtain hm | ⟨-, hm⟩ := hmem x m hm
    · exact Nat.lt_of_lt_of_le (h.lt x m hm) hsize
    · exact hlt m hm
  · split
    case isTrue => exact List.nodup_append'.2 ⟨h.nodup x, hnodup, hfresh x⟩
    case isFalse =>
      rw [List.append_nil]
      exact h.nodup x
  · obtain hx | ⟨hx, hm⟩ := hmem x m hx <;> obtain hy | ⟨hy, hm'⟩ := hmem y m hy
    · exact h.owner x y m hx hy
    · exact absurd hm' (hfresh x hx)
    · exact absurd hm (hfresh y hy)
    · exact hx.trans hy.symm

/-- Groups may lose merges. -/
theorem of_sublist (hsize : g.merges.size ≤ g'.merges.size)
    (hlist : ∀ x, (g'.group x).merges.Sublist (g.group x).merges) : g'.MergesOnce := by
  apply h.extend root [] hsize List.nodup_nil (List.forall_mem_nil _)
    fun x => List.disjoint_nil_right _
  intro x
  rw [ite_self, List.append_nil]
  exact hlist x

theorem of_content (hsize : g.merges.size ≤ g'.merges.size)
    (hcontent : ∀ x, (g'.content x).merges = (g.content x).merges) : g'.MergesOnce := by
  refine h.of_sublist hsize fun x => ?_
  have hx : (g'.group x).merges = (g.group x).merges := hcontent x
  rw [hx]

theorem addGroup (parent : Option GroupId) : (g.addGroup parent).1.MergesOnce := by
  refine h.of_sublist (Nat.le_refl g.merges.size) fun x => ?_
  show ((g.addGroup parent).1.content x).merges.Sublist _
  rw [content_addGroup]
  split
  · exact List.nil_sublist _
  · exact List.Sublist.refl _

theorem addSubgroup (hlt : home.index < g.groups.size) : (g.addSubgroup home).1.MergesOnce := by
  refine h.of_sublist (Nat.le_refl g.merges.size) fun x => ?_
  show ((g.addSubgroup home).1.content x).merges.Sublist _
  rw [content_addSubgroup hlt]
  split
  · exact List.nil_sublist _
  · split
    · rename_i he
      rw [he]
      exact List.Sublist.refl _
    · exact List.Sublist.refl _

theorem addInput (hlt : home.index < g.groups.size) (c : Char) :
    (g.addInput home c).1.MergesOnce := by
  refine h.of_content (Nat.le_of_eq (merges_size_addInput c).symm) fun x => ?_
  exact content_addInput_keeps c Content.merges (fun _ _ => rfl) hlt x

/-- A new merge is the last one in the store. -/
theorem addMerge (hlt : home.index < g.groups.size) (f a : Option Source) :
    (g.addMerge home f a).1.MergesOnce := by
  have hsize : (g.addMerge home f a).1.merges.size = g.merges.size + 1 := merges_size_addMerge f a
  apply h.extend home [⟨g.merges.size⟩]
  · omega
  · exact List.nodup_singleton _
  · rw [hsize]
    exact List.forall_mem_singleton.2 (Nat.lt_succ_self _)
  · intro x
    rw [List.disjoint_singleton]
    exact fun hm => Nat.lt_irrefl _ (h.lt x _ hm)
  · intro x
    show ((g.addMerge home f a).1.content x).merges.Sublist _
    rw [content_addMerge f a hlt]
    split
    · rename_i he
      rw [he]
      exact List.Sublist.refl _
    · rw [List.append_nil]
      exact List.Sublist.refl _

theorem feed (home : GroupId) (value : Option Source) : (g.feed home value).MergesOnce :=
  h.of_content (Nat.le_of_eq (merges_size_feed value).symm) fun x => by rw [content_feed]

/-- A dissolved group gives all its merges to the group around it. -/
theorem dissolve (id home : GroupId) : (g.dissolve id home).1.MergesOnce := by
  have hdetach : ∀ x, ((g.detach id home).group x).merges =
      if x = id then [] else (g.group x).merges := by
    intro x
    refine (congrArg Prod.fst (g.interior_detach id home x)).trans ?_
    split <;> rfl
  have hsize := (g.detach_sameNodes id home).merges_size
  have hleft : (g.detach id home).MergesOnce := by
    refine h.of_sublist (Nat.le_of_eq hsize.symm) fun x => ?_
    rw [hdetach]
    split
    · exact List.nil_sublist _
    · exact List.Sublist.refl _
  rw [dissolve_eq]
  apply hleft.extend home (g.group id).merges
  · exact Nat.le_refl (g.detach id home).merges.size
  · exact h.nodup id
  · intro m hm
    exact Nat.lt_of_lt_of_eq (h.lt id m hm) hsize.symm
  · intro x m hx hm
    rw [hdetach] at hx
    split at hx
    case isTrue => cases hx
    case isFalse hne => exact hne (h.owner x id m hx hm)
  · intro x
    rw [group_modifyGroup]
    split
    case isTrue he =>
      rw [if_pos he.1.symm]
      exact List.Sublist.refl _
    case isFalse => exact List.sublist_append_left _ _

theorem flatten : g.flatten.MergesOnce :=
  flattenTo_keeps (fun id home h => h.dissolve id home)
    (fun _ kept h => h.of_content (Nat.le_refl _) fun x => modifyGroup_keeps
      (f := fun group => { group with subgroups := kept }) Group.merges (fun _ => rfl) x)
    g.groups.size root h

end

theorem hereditary : Hereditary (MergesOnce (S := S)) where
  addGroup h _ := h.addGroup _
  addSubgroup h hlt := h.addSubgroup hlt
  addInput c h hlt := h.addInput hlt c
  addMerge f a h hlt := h.addMerge hlt f a
  feed value h := h.feed _ value
  host _ _ h := h.of_content (Nat.le_refl _) fun _ => rfl

end MergesOnce

/-! ## Whatever is done -/

/-- The nodes that an operation adds to or refers to are there. Groups may be hosted in a circle for
a while, but not when the graph is flattened. -/
def Allows (g : Graph S) : Operation S → Prop
  | .addGroup parent => ∀ p, parent = some p → p.index < g.groups.size
  | .addSubgroup home | .addInput home _ | .addMerge home _ _ => home.index < g.groups.size
  | .host i x => i.index < g.inputs.size ∧ x.index < g.groups.size
  | .flatten => g.Acyclic
  | _ => True

/-- A graph is assembled when operations lead to it from a new one, whatever is hosted where in
between. -/
inductive Assembled : Graph S → Prop where
  | new : Assembled empty
  | perform {g : Graph S} {op : Operation S} (hg : Assembled g) (hop : g.Allows op) :
      Assembled (g.perform op)

/-- Parents are older than their children and agree with what is a sub-group of what, and each merge
is in one place at most. -/
structure Orderly (g : Graph S) : Prop where
  older : g.ParentsOlder
  agree : g.ParentsAgree
  merges : g.MergesOnce

namespace Orderly

theorem new : (empty : Graph S).Orderly := ⟨WellScoped.new.older, WellScoped.new.agree, .new⟩

theorem hereditary : Hereditary (Orderly (S := S)) where
  addGroup h hp := ⟨hereditary_parentsOlder.addGroup h.older hp,
    hereditary_parentsAgree.addGroup h.agree hp, h.merges.addGroup _⟩
  addSubgroup h hlt := ⟨hereditary_parentsOlder.addSubgroup h.older hlt,
    hereditary_parentsAgree.addSubgroup h.agree hlt, h.merges.addSubgroup hlt⟩
  addInput c h hlt := ⟨hereditary_parentsOlder.addInput c h.older hlt,
    hereditary_parentsAgree.addInput c h.agree hlt, h.merges.addInput hlt c⟩
  addMerge f a h hlt := ⟨hereditary_parentsOlder.addMerge f a h.older hlt,
    hereditary_parentsAgree.addMerge f a h.agree hlt, h.merges.addMerge hlt f a⟩
  feed value h := ⟨hereditary_parentsOlder.feed value h.older,
    hereditary_parentsAgree.feed value h.agree, h.merges.feed _ value⟩
  host i x h := ⟨hereditary_parentsOlder.host i x h.older, hereditary_parentsAgree.host i x h.agree,
    MergesOnce.hereditary.host i x h.merges⟩

section

variable (h : g.Orderly)

include h

theorem of_content (hsize : g.merges.size ≤ g'.merges.size) (hcontent : g'.content = g.content) :
    g'.Orderly where
  older := h.older.of_content fun x => by rw [hcontent]
  agree := h.agree.of_content (fun x => by rw [hcontent]) fun x => by rw [hcontent]
  merges := h.merges.of_content hsize fun x => by rw [hcontent]

theorem of_alike (ha : g.Alike g') : g'.Orderly :=
  h.of_content (Nat.le_of_eq ha.merges_size.symm) ha.content

theorem wellScoped (hg : g.Acyclic) : g.WellScoped := ⟨h.older, h.agree, hg⟩

theorem flatten (hg : g.Acyclic) : g.flatten.Orderly where
  older := (h.wellScoped hg).flatten.older
  agree := (h.wellScoped hg).flatten.agree
  merges := h.merges.flatten

theorem perform {op : Operation S} (hop : g.Allows op) : (g.perform op).Orderly := by
  cases op with
  | addGroup parent => exact hereditary.addGroup h hop
  | addSubgroup home => exact hereditary.addSubgroup h hop
  | addInput home c => exact hereditary.addInput c h hop
  | host i x => exact hereditary.host i x h
  | addMerge home f a => exact hereditary.addMerge f a h hop
  | feed home value => exact hereditary.feed value h
  | connect source sink =>
    have hsize : (g.connect? (some source) sink).merges.size = g.merges.size :=
      merges_size_connect? sink
    have hcontent : (g.connect? (some source) sink).content = g.content := content_connect? sink
    exact h.of_content (Nat.le_of_eq hsize.symm) hcontent
  | move x d => exact h.of_alike ((g.nest x).move_alike g d)
  | moveInput i position => exact h.of_alike (g.moveInput_alike i position)
  | flatten => exact h.flatten hop
  | update e => exact h.of_alike ((Rearranged.refl g).tick e).alike
  | build ts =>
    unfold Graph.perform
    dsimp only
    split
    · exact hereditary.ofChain? new ‹_›
    · exact h
  | clean => exact new

end

end Orderly

theorem Assembled.orderly (hg : Assembled g) : g.Orderly := by
  induction hg with
  | new => exact .new
  | perform _ hop ih => exact ih.perform hop

/-- Where no group is ever put into an input that lies in it, nothing is hosted in a circle. -/
theorem Constructed.assembled (hg : Constructed g) : Assembled g := by
  induction hg with
  | new => exact .new
  | @perform g op hg hop ih =>
    refine ih.perform ?_
    cases op with
    | host i x => exact ⟨hop.1, hop.2.1⟩
    | flatten => exact hg.wellScoped.acyclic
    | addGroup | addSubgroup | addInput | addMerge => exact hop
    | feed | connect | move | moveInput | update | build | clean => exact trivial

end Graph

end LambdaDiagram
