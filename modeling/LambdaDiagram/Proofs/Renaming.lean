import LambdaDiagram.Layout.Tick
import LambdaDiagram.Proofs.Construction
import LambdaDiagram.Proofs.Flattening

/-!
Names do not matter. Renaming the names of a term apart from each other renames the inputs of its
graph and changes nothing else: names are compared when they are looked up, and after the graph is
built nothing reads them. The same then holds of every later state of the graph.
-/

namespace LambdaDiagram

/-! ## Renaming -/

mutual

/-- A term with other names. -/
def Term.rename (r : Char → Char) : Term → Term
  | .var c => .var (r c)
  | .group binders body => .group (binders.map r) (body.rename r)

/-- A chain with other names. -/
def Chain.rename (r : Char → Char) : Chain → Chain
  | .last t => .last (t.rename r)
  | .cons t rest => .cons (t.rename r) (rest.rename r)

end

theorem Chain.toList_rename (r : Char → Char) (ts : Chain) :
    (ts.rename r).toList = ts.toList.map (Term.rename r) := by
  induction ts using Chain.toList.induct with
  | case1 t => rfl
  | case2 t rest ih => rw [Chain.rename, Chain.toList, ih, Chain.toList, List.map_cons]

theorem Chain.head_rename (r : Char → Char) (ts : Chain) :
    (ts.rename r).head = ts.head.rename r := by
  cases ts <;> rfl

theorem Chain.tail_rename (r : Char → Char) (ts : Chain) :
    (ts.rename r).tail = ts.tail.map (Term.rename r) := by
  cases ts with
  | last t => rfl
  | cons t rest => exact rest.toList_rename r

variable {S : Type} [Scalar S]

/-- An input with another name. -/
def Input.rename (r : Char → Char) (input : Input S) : Input S :=
  { input with identifier := r input.identifier }

namespace Graph

/-- A graph whose inputs have other names. -/
def rename (r : Char → Char) (g : Graph S) : Graph S :=
  { g with inputs := g.inputs.map (Input.rename r) }

variable {r : Char → Char} {g : Graph S}

/-! ## Reading and changing nodes -/

@[simp] theorem group_rename (x : GroupId) : (g.rename r).group x = g.group x := rfl

@[simp] theorem merge_rename (m : MergeId) : (g.rename r).merge m = g.merge m := rfl

theorem input_rename {i : InputId} (hi : i.index < g.inputs.size) :
    (g.rename r).input i = (g.input i).rename r := by
  simp [input, rename, hi]

/-- An input that is not there has no name to change. -/
theorem input_rename_of_size_le {i : InputId} (hi : g.inputs.size ≤ i.index) :
    (g.rename r).input i = g.input i := by
  rw [input_of_size_le hi, input_of_size_le]
  simpa [rename] using hi

/-- An input is the same but for its name. -/
theorem input_rename_eq {α : Type} (f : Input S → α) (hf : ∀ input, f (input.rename r) = f input)
    (i : InputId) : f ((g.rename r).input i) = f (g.input i) := by
  by_cases hi : i.index < g.inputs.size
  · rw [input_rename hi, hf]
  · rw [input_rename_of_size_le (Nat.le_of_not_lt hi)]

@[simp] theorem hosted_rename (i : InputId) :
    ((g.rename r).input i).hosted = (g.input i).hosted :=
  input_rename_eq Input.hosted (fun _ => rfl) i

@[simp] theorem usages_rename (i : InputId) :
    ((g.rename r).input i).usages = (g.input i).usages :=
  input_rename_eq Input.usages (fun _ => rfl) i

@[simp] theorem angle_rename (i : InputId) : ((g.rename r).input i).angle = (g.input i).angle :=
  input_rename_eq Input.angle (fun _ => rfl) i

@[simp] theorem radius_rename (i : InputId) : ((g.rename r).input i).radius = (g.input i).radius :=
  input_rename_eq Input.radius (fun _ => rfl) i

@[simp] theorem position_rename (i : InputId) :
    ((g.rename r).input i).position = (g.input i).position :=
  input_rename_eq Input.position (fun _ => rfl) i

omit [Scalar S] in
@[simp] theorem merges_rename : (g.rename r).merges = g.merges := rfl

omit [Scalar S] in
@[simp] theorem inputs_size_rename : (g.rename r).inputs.size = g.inputs.size :=
  Array.size_map

theorem rename_empty : (empty : Graph S).rename r = empty := by
  simp [rename, empty]

omit [Scalar S] in
@[simp] theorem modifyGroup_rename (x : GroupId) (f : Group S → Group S) :
    (g.rename r).modifyGroup x f = (g.modifyGroup x f).rename r := rfl

omit [Scalar S] in
theorem modifyInput_rename (i : InputId) {f : Input S → Input S}
    (hf : ∀ input, f (input.rename r) = (f input).rename r) :
    (g.rename r).modifyInput i f = (g.modifyInput i f).rename r := by
  unfold modifyInput rename
  congr 1
  apply Array.ext
  · simp
  · intro n hn hn'
    simp only [Array.getElem_modify, Array.getElem_map]
    split
    · rw [hf]
    · rfl

/-! ## Growth -/

omit [Scalar S] in
@[simp] theorem connect?_rename (value : Option Source) (sink : Sink) :
    (g.rename r).connect? value sink = (g.connect? value sink).rename r := by
  cases value with
  | none => rfl
  | some source =>
    cases source with
    | input i => exact modifyInput_rename i fun _ => rfl
    | merge m => rfl
    | output x => rfl

theorem addGroup_rename (parent : Option GroupId) : (g.rename r).addGroup parent =
    ((g.addGroup parent).1.rename r, (g.addGroup parent).2) := rfl

theorem addSubgroup_rename (home : GroupId) : (g.rename r).addSubgroup home =
    ((g.addSubgroup home).1.rename r, (g.addSubgroup home).2) := rfl

theorem spaceInputs_rename (step : S) (number : Nat) (ids : List InputId) :
    (g.rename r).spaceInputs step number ids = (g.spaceInputs step number ids).rename r := by
  induction ids generalizing g number with
  | nil => rfl
  | cons i ids ih =>
    unfold spaceInputs
    dsimp only
    rw [← ih]
    congr 1
    exact modifyInput_rename i fun _ => rfl

theorem addInput_rename (home : GroupId) (c : Char) : (g.rename r).addInput home (r c) =
    ((g.addInput home c).1.rename r, (g.addInput home c).2) := by
  have hpush : { g.rename r with
        inputs := (g.rename r).inputs.push (.blank (r c) (g.group home).position) } =
      Graph.rename r { g with inputs := g.inputs.push (.blank c (g.group home).position) } := by
    simp [rename, Input.rename, Input.blank]
  unfold addInput
  simp only [group_rename, inputs_size_rename, hpush, modifyGroup_rename, spaceInputs_rename]

theorem addBinders_rename (home : GroupId) (names : List Char) :
    (g.rename r).addBinders home (names.map r) = (g.addBinders home names).rename r := by
  induction names generalizing g with
  | nil => rfl
  | cons c names ih => rw [List.map_cons, addBinders, addInput_rename, ih, addBinders]

theorem host_rename (i : InputId) (x : GroupId) :
    (g.rename r).host i x = (g.host i x).rename r :=
  modifyInput_rename i fun _ => rfl

theorem addMerge_rename (home : GroupId) (f a : Option Source) : (g.rename r).addMerge home f a =
    ((g.addMerge home f a).1.rename r, (g.addMerge home f a).2) := by
  have hpush : { g.rename r with
        merges := g.merges.push (.blank f a (g.group home).position) } =
      Graph.rename r { g with merges := g.merges.push (.blank f a (g.group home).position) } := rfl
  unfold addMerge
  simp only [group_rename, merges_rename, hpush, connect?_rename, modifyGroup_rename]

omit [Scalar S] in
theorem feed_rename (home : GroupId) (value : Option Source) :
    (g.rename r).feed home value = (g.feed home value).rename r := by
  unfold feed modifyOutput
  rw [modifyGroup_rename, connect?_rename]

/-! ## Looking names up -/

theorem lastNamed_rename (hr : Function.Injective r) (c : Char) {ids : List InputId}
    (hids : ∀ i ∈ ids, i.index < g.inputs.size) :
    (g.rename r).lastNamed (r c) ids = g.lastNamed c ids := by
  have hname : ∀ i ∈ ids.reverse, (decide (((g.rename r).input i).identifier = r c)) =
      decide ((g.input i).identifier = c) := by
    intro i hi
    rw [input_rename (hids i (List.mem_reverse.1 hi))]
    exact decide_eq_decide.2 hr.eq_iff
  unfold lastNamed
  generalize ids.reverse = l at hname
  induction l with
  | nil => rfl
  | cons i l ih =>
    obtain ⟨hi, hl⟩ := List.forall_mem_cons.1 hname
    rw [List.find?_cons, List.find?_cons, hi, ih hl]

/-- A new name refers to what the old one does. -/
theorem lookup_rename (hr : Function.Injective r) (hg : g.InputsIn) (x : GroupId) (c : Char) :
    (g.rename r).lookup x (r c) = g.lookup x c := by
  induction x using lookup.induct g c with
  | case1 x i hi =>
    rw [lookup, lookup, group_rename, lastNamed_rename hr c (hg x), hi]
  | case2 x hnone hparent =>
    rw [lookup, lookup, group_rename, lastNamed_rename hr c (hg x), hnone, hparent]
  | case3 x hnone p hparent hlt ih =>
    rw [lookup, lookup, group_rename, lastNamed_rename hr c (hg x), hnone, hparent]
    simp only [hlt, if_true, ih]
  | case4 x hnone p hparent hlt =>
    rw [lookup, lookup, group_rename, lastNamed_rename hr c (hg x), hnone, hparent]
    simp only [hlt, if_false]

/-! ## Building -/

mutual

theorem operand_rename (hr : Function.Injective r) : (t : Term) → (g : Graph S) →
    (home : GroupId) → g.InputsIn → home.index < g.groups.size →
    (g.rename r).operand home (t.rename r) =
      ((g.operand home t).1.rename r, (g.operand home t).2)
  | .var c, g, home, hg, _ => by
    rw [Term.rename, operand, lookup_rename hr hg, operand]
  | .group names body, g, home, hg, hlt => by
    obtain ⟨hsub, hnew⟩ := hereditary_inputsIn.keep_addSubgroup hg hlt
    have hbound : Kept _ _ ((g.addSubgroup home).1.addBinders ⟨g.groups.size⟩ names) :=
      hereditary_inputsIn.addBinders names hsub.1 hnew
    have hvalue := chainValue_rename hr body
      ((g.addSubgroup home).1.addBinders (g.addSubgroup home).2 names) (g.addSubgroup home).2
      hbound.1 (hbound.lt hnew)
    rw [Term.rename, operand, addSubgroup_rename, operand]
    dsimp only
    rw [addBinders_rename, hvalue, feed_rename]

theorem chainValue_rename (hr : Function.Injective r) : (ts : Chain) → (g : Graph S) →
    (home : GroupId) → g.InputsIn → home.index < g.groups.size →
    (g.rename r).chainValue home (ts.rename r) =
      ((g.chainValue home ts).1.rename r, (g.chainValue home ts).2)
  | .last t, g, home, hg, hlt => operand_rename hr t g home hg hlt
  | .cons t rest, g, home, hg, hlt => by
    have ht := hereditary_inputsIn.operand t hg hlt
    rw [Chain.rename, chainValue, operand_rename hr t g home hg hlt, chainValue]
    exact applyChain_rename hr rest _ home _ ht.1 (ht.lt hlt)

theorem applyChain_rename (hr : Function.Injective r) : (ts : Chain) → (g : Graph S) →
    (home : GroupId) → (function : Option Source) → g.InputsIn → home.index < g.groups.size →
    (g.rename r).applyChain home function (ts.rename r) =
      ((g.applyChain home function ts).1.rename r, (g.applyChain home function ts).2)
  | .last t, g, home, function, hg, hlt => by
    rw [Chain.rename, applyChain, operand_rename hr t g home hg hlt, applyChain]
    simp only [addMerge_rename]
  | .cons t rest, g, home, function, hg, hlt => by
    have ht := hereditary_inputsIn.operand t hg hlt
    have hmerge := ht.trans (hereditary_inputsIn.keep_addMerge function (g.operand home t).2 ht.1
      (ht.lt hlt))
    rw [Chain.rename, applyChain, operand_rename hr t g home hg hlt, applyChain]
    simp only [addMerge_rename]
    exact applyChain_rename hr rest _ home _ hmerge.1 (hmerge.lt hlt)

end

section

variable {home : GroupId} (hr : Function.Injective r) (hg : g.InputsIn)
  (hlt : home.index < g.groups.size)

include hr hg hlt

theorem applyTerms_rename (ts : List Term) (function : Option Source) :
    (g.rename r).applyTerms home function (ts.map (Term.rename r)) =
      ((g.applyTerms home function ts).1.rename r, (g.applyTerms home function ts).2) := by
  induction ts generalizing g function with
  | nil => rfl
  | cons t ts ih =>
    have ht := hereditary_inputsIn.operand t hg hlt
    have hmerge := ht.trans (hereditary_inputsIn.keep_addMerge function (g.operand home t).2 ht.1
      (ht.lt hlt))
    rw [List.map_cons, applyTerms, operand_rename hr t g home hg hlt, applyTerms]
    simp only [addMerge_rename]
    exact ih hmerge.1 (hmerge.lt hlt) _

theorem fillGroup_rename (t : Term) :
    (g.rename r).fillGroup home (t.rename r) = (g.fillGroup home t).rename r := by
  cases t with
  | var c =>
    have hvalue := operand_rename hr (.var c) g home hg hlt
    unfold Term.rename at hvalue
    unfold Term.rename fillGroup
    simp only [hvalue, feed_rename]
  | group names body =>
    have hbound := hereditary_inputsIn.addBinders names hg hlt
    have hvalue := chainValue_rename hr body _ home hbound.1 (hbound.lt hlt)
    unfold Term.rename fillGroup
    simp only [addBinders_rename, hvalue, feed_rename]

/-- The groups of the arguments get the parent of the root, which has none. -/
theorem bindArguments_rename (names : List Char) (arguments : List Term)
    (hold : g.ParentsOlder) :
    (g.rename r).bindArguments home (names.map r) (arguments.map (Term.rename r)) =
      ((g.bindArguments home names arguments).1.rename r,
        (g.bindArguments home names arguments).2.map (Term.rename r)) := by
  induction names generalizing g arguments with
  | nil => rfl
  | cons c names ih =>
    have hboth := (hereditary_inputsIn (S := S)).and hereditary_parentsOlder
    have hinput := hboth.keep_addInput c ⟨hg, hold⟩ hlt
    cases arguments with
    | nil =>
      have hrest := ih hinput.1.1 (hinput.lt hlt) [] hinput.1.2
      rw [List.map_cons, List.map_nil, bindArguments, addInput_rename, bindArguments]
      exact hrest
    | cons t ts =>
      have hparent : ∀ p, ((g.addInput home c).1.group home).parent = some p →
          p.index < (g.addInput home c).1.groups.size := fun p hp => hinput.1.2.parent_lt hp
      obtain ⟨hgroup, hnew⟩ := hboth.keep_addGroup hinput.1 hparent
      let hosted : GroupId := ((g.addInput home c).1.addGroup
        ((g.addInput home c).1.group home).parent).2
      have hfill : Kept _ _ (((g.addInput home c).1.addGroup _).1.fillGroup hosted t) :=
        hboth.fillGroup t hgroup.1 hnew
      have hfilled : Graph.fillGroup _ hosted (t.rename r) = _ :=
        fillGroup_rename hr hgroup.1.1 hnew t
      have hhost := hboth.keep_host (g.addInput home c).2 hosted hfill.1
      have hbound := hinput.trans (hgroup.trans (hfill.trans hhost))
      have hrest := ih hbound.1.1 (hbound.lt hlt) ts hbound.1.2
      rw [List.map_cons, List.map_cons, bindArguments, addInput_rename, bindArguments]
      dsimp only
      rw [group_rename, addGroup_rename]
      dsimp only
      rw [hfilled, host_rename]
      exact hrest

end

/-- The graph of a chain with other names is that of the chain, with its inputs renamed. -/
theorem ofChain?_rename (hr : Function.Injective r) {ts : Chain} {g : Graph S}
    (hg : ofChain? ts = .ok g) : ofChain? (ts.rename r) = .ok (g.rename r) := by
  have hboth := (hereditary_inputsIn (S := S)).and hereditary_parentsOlder
  unfold ofChain? at hg ⊢
  rw [Chain.head_rename, Chain.tail_rename]
  cases hhead : ts.head with
  | var c =>
    rw [hhead] at hg
    cases hg
  | group names body =>
    rw [hhead] at hg
    have hroot : root.index < (empty : Graph S).groups.size := Nat.lt_succ_self _
    have hempty : (empty : Graph S).InputsIn := inputsIn_empty
    have hbind : Kept _ _ ((empty : Graph S).bindArguments root names ts.tail).1 :=
      hboth.bindArguments names ts.tail (fun hg hp => hg.2.parent_lt hp)
        ⟨hempty, parentsOlder_empty⟩ hroot
    have hvalue := hbind.trans (hboth.chainValue body hbind.1 (hbind.lt hroot))
    have hfirst := bindArguments_rename hr hempty hroot names ts.tail parentsOlder_empty
    rw [rename_empty] at hfirst
    cases hg
    rw [Term.rename]
    dsimp only
    rw [hfirst]
    dsimp only
    rw [chainValue_rename hr body _ root hbind.1.1 (hbind.lt hroot)]
    dsimp only
    rw [applyTerms_rename hr hvalue.1.1 (hvalue.lt hroot)]
    dsimp only
    rw [feed_rename]

end Graph

end LambdaDiagram
