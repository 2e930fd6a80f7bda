import LambdaDiagram.Proofs.Growth

/-!
Building a graph from a term. Each step of the construction makes, in the group that it works in, a
value that reads back as the nameless term of what it was given. The induction follows the syntax of
terms and chains; the scopes around a group are what it needs to know about the rest of the graph.
-/

namespace LambdaDiagram

variable {S : Type} [Scalar S]

/-- The names of the binders of some scopes. -/
def binderNames (scopes : List (List (InputId × Char))) : List (List Char) :=
  scopes.map (List.map Prod.snd)

/-- The inputs of some scopes. -/
def binderInputs (scopes : List (List (InputId × Char))) : List (List InputId) :=
  scopes.map (List.map Prod.fst)

namespace Graph

/-- A group in which values can be made: its scopes are known and share no input. -/
structure Workplace (g : Graph S) (home : GroupId) (scopes : List (List (InputId × Char))) :
    Prop where
  sound : g.Sound
  home_lt : home.index < g.groups.size
  known : g.Scopes home scopes
  nodup : (binderInputs scopes).flatten.Nodup

/-- `g.Makes home scopes result n`: the resulting graph has grown from `g` inside `home`, to make a
value that reads back as the nameless term `n`. -/
def Makes (g : Graph S) (home : GroupId) (scopes : List (List (InputId × Char)))
    (result : Graph S × Option Source) (n : Nameless) : Prop :=
  ∃ r, Grows home g r result.1 result.2 ∧ r.nameless? (binderInputs scopes) = some n

variable {g g' : Graph S} {home : GroupId} {scopes : List (List (InputId × Char))}
variable {r : Reading} {value : Option Source} {bs : List (InputId × Char)}

/-! ## Where values are made -/

/-- The inputs of the scopes around a group are there. -/
theorem Scopes.inputs_lt (h : g.Scopes home scopes) (hg : g.Sound) :
    ∀ i ∈ (binderInputs scopes).flatten, i.index < g.inputs.size := by
  induction h with
  | @outermost id hp =>
    intro i hi
    simp only [binderInputs, List.map_cons, List.map_nil, map_fst_binders, List.flatten_cons,
      List.flatten_nil, List.append_nil] at hi
    exact hg.inputs_lt id i hi
  | @inside id p scopes hp hlt h ih =>
    intro i hi
    simp only [binderInputs, List.map_cons, map_fst_binders, List.flatten_cons,
      List.mem_append] at hi
    rcases hi with hi | hi
    · exact hg.inputs_lt id i hi
    · exact ih i hi

/-- A group stays a workplace after a value has been made in it. -/
theorem Workplace.grows (h : g.Workplace home scopes) (hr : Grows home g r g' value) :
    g'.Workplace home scopes := by
  have hinputs : ∀ x, x.index ≤ home.index →
      (g'.content x).inputs = (g.content x).inputs ∧
        (g'.content x).parent = (g.content x).parent := by
    intro x hx
    by_cases he : x = home
    · subst he
      rw [hr.homeContent]
      exact ⟨rfl, rfl⟩
    · rw [hr.outside.content x (Nat.lt_of_le_of_lt hx h.home_lt) he]
      exact ⟨rfl, rfl⟩
  refine ⟨hr.sound, Nat.lt_of_lt_of_le h.home_lt hr.outside.groups_le, ?_, h.nodup⟩
  refine h.known.congr ?_ ?_
  · intro x hx
    exact (hinputs x hx).2
  · intro x hx
    exact hr.outside.binders h.sound (hinputs x hx).1

theorem Sound.addGroup (hg : g.Sound) (parent : Option GroupId) :
    (g.addGroup parent).1.Sound := by
  refine ⟨hg.linked.of_eq (held_addGroup parent) (noted_addGroup parent), ?_⟩
  intro x i hi
  rw [content_addGroup] at hi
  split at hi
  · cases hi
  · exact hg.inputs_lt x i hi

theorem Sound.addSubgroup (hg : g.Sound) (hlt : home.index < g.groups.size) :
    (g.addSubgroup home).1.Sound := by
  refine ⟨hg.linked.of_eq held_addSubgroup noted_addSubgroup, ?_⟩
  intro x i hi
  rw [content_addSubgroup hlt] at hi
  split at hi
  · cases hi
  · split at hi
    · exact hg.inputs_lt home i hi
    · exact hg.inputs_lt x i hi

/-- A new sub-group of a workplace is one itself once it has its inputs. -/
theorem Workplace.enter (h : g.Workplace home scopes)
    (hb : Binds ⟨g.groups.size⟩ bs (g.addSubgroup home).1 g') :
    g'.Workplace ⟨g.groups.size⟩ (bs :: scopes) := by
  have hsound := h.sound.addSubgroup h.home_lt
  have hlt := h.home_lt
  have hcontent : ∀ x, x.index ≤ home.index →
      (g'.content x).inputs = (g.content x).inputs ∧
        (g'.content x).parent = (g.content x).parent := by
    intro x hx
    have hxs : x ≠ ⟨g.groups.size⟩ := by
      rintro rfl
      exact Nat.not_lt_of_le hx hlt
    rw [hb.content, if_neg hxs, content_addSubgroup hlt, if_neg hxs]
    split
    · rename_i he
      rw [he]
      exact ⟨rfl, rfl⟩
    · exact ⟨rfl, rfl⟩
  have hnone : (g.addSubgroup home).1.binders ⟨g.groups.size⟩ = [] := by
    refine binders_eq_nil ?_
    rw [content_addSubgroup hlt, if_pos rfl]
  have hown : g'.binders ⟨g.groups.size⟩ = bs := by
    rw [hb.binders hsound, hnone, List.nil_append]
  have hparent : (g'.content ⟨g.groups.size⟩).parent = some home := by
    rw [hb.content, if_pos rfl, content_addSubgroup hlt, if_pos rfl]
  refine ⟨hb.sound hsound, by rw [hb.groups_size, groups_size_addSubgroup]; simp, ?_, ?_⟩
  · rw [← hown]
    refine .inside hparent hlt (h.known.congr (fun x hx => (hcontent x hx).2) ?_)
    intro x hx
    refine binders_congr (hcontent x hx).1 ?_
    intro i hi
    rw [hb.old i (h.sound.inputs_lt x i hi), label_addSubgroup]
  · rw [binderInputs, List.map_cons, List.flatten_cons, List.nodup_append]
    refine ⟨hb.inputs.nodup, h.nodup, ?_⟩
    rintro i hi _ hj rfl
    exact Nat.not_lt_of_le (hb.inputs.bounds hi).1 (h.known.inputs_lt h.sound i hj)

/-! ## Values of terms -/

/-- A name makes a variable or nothing. -/
theorem Workplace.makes_var (h : g.Workplace home scopes) (c : Char) :
    Makes g home scopes (g.operand home (.var c)) (.ofName (binderNames scopes) c) := by
  have hl := h.known.lookup_eq h.nodup c
  refine ⟨g.referent home c, ?_, h.known.nameless?_referent h.nodup c⟩
  rw [operand, referent]
  cases hf : g.lookup home c with
  | none => exact .hole h.sound
  | some i =>
    rw [hf] at hl
    exact .var h.sound (h.known.inputs_lt h.sound i hl.1)

/-- An empty group is filled when values can be made in it once it has its inputs. -/
theorem exists_fillGroup_filled {parent : Option GroupId} (names : List Char) (body : Chain)
    (hg : g.Sound) (hlt : home.index < g.groups.size)
    (hc : g.content home = ⟨parent, [], [], []⟩) (hempty : g.held (.producer home) = none)
    (hplace : ∀ bs g', Binds home bs g g' → g'.Workplace home (bs :: scopes))
    (hbody : ∀ (g' : Graph S) scopes', g'.Workplace home scopes' →
      Makes g' home scopes' (g'.chainValue home body) (body.nameless (binderNames scopes'))) :
    ∃ bs r, Filled home g bs r (g.fillGroup home (.group names body)) ∧
      (Reading.abs home bs r).nameless? (binderInputs scopes) =
        some ((Term.group names body).nameless (binderNames scopes)) := by
  obtain ⟨bs, rfl, hb⟩ := exists_addBinders_binds hlt names
  have hw := hplace bs _ hb
  obtain ⟨r, hr, hn⟩ := hbody _ _ hw
  have hfed := hr.feed (hb.sound hg) hw.home_lt (by rw [hb.held, hempty])
  refine ⟨bs, r, hb.fed hfed hg hc, ?_⟩
  have hd : (bs.map Prod.fst :: binderInputs scopes).flatten.Nodup := hw.nodup
  rw [Reading.nameless?, if_pos hd]
  exact congrArg (Option.map (Nameless.abs (bs.map Prod.snd))) hn

/-- An application is made of its function and then its argument. -/
theorem Makes.app {t : Graph S × Option Source} {u : Graph S × Option Source} {m n : Nameless}
    (hm : Makes g home scopes t m) (hn : Makes t.1 home scopes u n)
    (hlt : home.index < g.groups.size) :
    Makes g home scopes ((u.1.addMerge home t.2 u.2).1, some (.merge ⟨u.1.merges.size⟩))
      (.app m n) := by
  obtain ⟨rf, hf, hfn⟩ := hm
  obtain ⟨ra, ha, han⟩ := hn
  refine ⟨_, hf.app ha hlt, ?_⟩
  rw [Reading.nameless?, hfn, han]

mutual

/-- A term makes a value that reads back as the term. -/
theorem operand_makes : (t : Term) → (g : Graph S) → (home : GroupId) →
    (scopes : List (List (InputId × Char))) → g.Workplace home scopes →
    Makes g home scopes (g.operand home t) (t.nameless (binderNames scopes))
  | .var c, g, home, scopes, h => h.makes_var c
  | .group names body, g, home, scopes, h => by
    have hlt : (⟨g.groups.size⟩ : GroupId).index < (g.addSubgroup home).1.groups.size := by
      simp
    have hempty : (g.addSubgroup home).1.held (.producer ⟨g.groups.size⟩) = none := by
      rw [held_addSubgroup, held, group_next]
      rfl
    obtain ⟨bs, r, hfill, hn⟩ := exists_fillGroup_filled names body
      (h.sound.addSubgroup h.home_lt) hlt
      ((content_addSubgroup h.home_lt _).trans (if_pos rfl)) hempty (fun bs g' hb => h.enter hb)
      fun g' scopes' => chainValue_makes body g' _ scopes'
    exact ⟨_, hfill.grows h.home_lt, hn⟩

/-- A chain makes a value that reads back as its first term applied to the others. -/
theorem chainValue_makes : (ts : Chain) → (g : Graph S) → (home : GroupId) →
    (scopes : List (List (InputId × Char))) → g.Workplace home scopes →
    Makes g home scopes (g.chainValue home ts) (ts.nameless (binderNames scopes))
  | .last t, g, home, scopes, h => operand_makes t g home scopes h
  | .cons t rest, g, home, scopes, h =>
    applyChain_makes rest g home scopes h (operand_makes t g home scopes h)

/-- A value applied to a chain makes a value that reads back as what it is applied to. -/
theorem applyChain_makes : (ts : Chain) → (g : Graph S) → (home : GroupId) →
    (scopes : List (List (InputId × Char))) → g.Workplace home scopes →
    ∀ {result : Graph S × Option Source} {n : Nameless}, Makes g home scopes result n →
    Makes g home scopes (result.1.applyChain home result.2 ts)
      (ts.applied (binderNames scopes) n)
  | .last t, g, home, scopes, h, result, n, hf => by
    obtain ⟨rf, hrf, hfn⟩ := hf
    have ha := operand_makes t result.1 home scopes (h.grows hrf)
    exact Makes.app ⟨rf, hrf, hfn⟩ ha h.home_lt
  | .cons t rest, g, home, scopes, h, result, n, hf => by
    obtain ⟨rf, hrf, hfn⟩ := hf
    have ha := operand_makes t result.1 home scopes (h.grows hrf)
    exact applyChain_makes rest g home scopes h (Makes.app ⟨rf, hrf, hfn⟩ ha h.home_lt)

end

/-- A value applied to some terms, one after the other. -/
theorem applyTerms_makes (ts : List Term) (h : g.Workplace home scopes)
    {result : Graph S × Option Source} {n : Nameless} (hf : Makes g home scopes result n) :
    Makes g home scopes (result.1.applyTerms home result.2 ts)
      ((ts.map (Term.nameless (binderNames scopes))).foldl .app n) := by
  induction ts generalizing result n with
  | nil => exact hf
  | cons t ts ih =>
    obtain ⟨rf, hrf, hfn⟩ := hf
    have ha := operand_makes t result.1 home scopes (h.grows hrf)
    exact ih (Makes.app ⟨rf, hrf, hfn⟩ ha h.home_lt)

end Graph

end LambdaDiagram
