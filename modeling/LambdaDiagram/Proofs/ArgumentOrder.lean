import Mathlib.Data.List.Nodup
import LambdaDiagram.Proofs.Delivery

/-!
The order of what a command line asks for. Each item, an option with its value or the expression,
sets something of its own, whatever its value looks like. So when each thing is asked for at most
once, all that is asked for is heeded, nothing else is, and the items may stand in any order.
-/

namespace LambdaDiagram

namespace CommandLine

/-! ## Items -/

/-- The names that a parameter goes by. -/
def Parameter.names : Parameter → List String
  | file => ["-f", "--file"]
  | output => ["-o", "--output"]
  | ticks => ["-t", "--ticks"]
  | ease => ["--ease"]
  | angleStep => ["--angle-step"]

/-- Whether a parameter can be set to what a text writes: a number has to be one. -/
def Parameter.Takes (value : String) : Parameter → Prop
  | file | output => True
  | ticks => (Numeral.count? value).isSome
  | ease | angleStep => (Numeral.number? value).isSome

/-- Arguments that belong together. -/
inductive Item where
  | parameter (name : String) (parameter : Parameter) (value : String)
  | noDisambiguate
  | expression (text : String)

/-- What an item sets. -/
inductive Kind where
  | parameter (parameter : Parameter)
  | noDisambiguate
  | expression
deriving DecidableEq

namespace Item

def kind : Item → Kind
  | parameter _ p _ => .parameter p
  | noDisambiguate => .noDisambiguate
  | expression _ => .expression

def arguments : Item → List String
  | parameter name _ value => [name, value]
  | noDisambiguate => ["--no-disambiguate"]
  | expression text => [text]

/-- An item makes sense: its parameter goes by its name and takes its value, and its expression does
not start with a hyphen. -/
def Complete : Item → Prop
  | parameter name p value => name ∈ p.names ∧ p.Takes value
  | noDisambiguate => True
  | expression text => text.toList.head? ≠ some '-'

instance (value : String) : DecidablePred (Parameter.Takes value)
  | .file | .output => inferInstanceAs (Decidable True)
  | .ticks => inferInstanceAs (Decidable ((Numeral.count? value).isSome = true))
  | .ease | .angleStep => inferInstanceAs (Decidable ((Numeral.number? value).isSome = true))

instance : DecidablePred Complete
  | parameter name p value => inferInstanceAs (Decidable (name ∈ p.names ∧ p.Takes value))
  | noDisambiguate => inferInstanceAs (Decidable True)
  | expression text => inferInstanceAs (Decidable (text.toList.head? ≠ some '-'))

/-- Some settings heed an item. -/
def Heeded (s : Settings) : Item → Prop
  | parameter _ .file value => s.inputPath = some value
  | parameter _ .output value => s.outputPath = some value
  | parameter _ .ticks value => Numeral.count? value = some s.ticks
  | parameter _ .ease value =>
    ∃ x, Numeral.number? value = some x ∧ s.engine.ease = Scalar.clamp 0.0 1.0 x
  | parameter _ .angleStep value =>
    ∃ x, Numeral.number? value = some x ∧ s.engine.angleStep = Scalar.abs x
  | noDisambiguate => s.engine.disambiguate = false
  | expression text => s.expression = some text

/-- The settings that come of an item after others. A number that is none changes nothing. -/
def apply (s : Settings) : Item → Settings
  | parameter _ .file value => { s with inputPath := some value }
  | parameter _ .output value => { s with outputPath := some value }
  | parameter _ .ticks value => { s with ticks := (Numeral.count? value).getD s.ticks }
  | parameter _ .ease value =>
    { s with engine := { s.engine with
      ease := (Numeral.number? value).elim s.engine.ease (Scalar.clamp 0.0 1.0) } }
  | parameter _ .angleStep value =>
    { s with engine := { s.engine with
      angleStep := (Numeral.number? value).elim s.engine.angleStep Scalar.abs } }
  | noDisambiguate => { s with engine := { s.engine with disambiguate := false } }
  | expression text => { s with expression := some text }

end Item

/-- `k.Agrees s t`: two settings say the same of a kind of item. -/
def Kind.Agrees (s t : Settings) : Kind → Prop
  | parameter .file => s.inputPath = t.inputPath
  | parameter .output => s.outputPath = t.outputPath
  | parameter .ticks => s.ticks = t.ticks
  | parameter .ease => s.engine.ease = t.engine.ease
  | parameter .angleStep => s.engine.angleStep = t.engine.angleStep
  | noDisambiguate => s.engine.disambiguate = t.engine.disambiguate
  | expression => s.expression = t.expression

theorem Kind.Agrees.refl (k : Kind) (s : Settings) : k.Agrees s s := by
  rcases k with (_ | _ | _ | _ | _) | _ | _ <;> rfl

theorem Kind.Agrees.trans {k : Kind} {s t u : Settings} (h : k.Agrees s t) (h' : k.Agrees t u) :
    k.Agrees s u := by
  rcases k with (_ | _ | _ | _ | _) | _ | _ <;> exact Eq.trans h h'

/-! ## One item -/

theorem Parameter.ofString_of_mem_names {name : String} {p : Parameter} (h : name ∈ p.names) :
    Argument.ofString name = .parameter p := by
  cases p <;> simp only [names, List.mem_cons, List.not_mem_nil, or_false] at h
  case file | output | ticks => rcases h with rfl | rfl <;> decide
  case ease | angleStep => rw [h]; decide

/-- What does not start with a hyphen is no option. -/
theorem Argument.ofString_expression {text : String} (h : text.toList.head? ≠ some '-') :
    ofString text = expression text := by
  have hne : ∀ option : String, option.toList.head? = some '-' → text ≠ option := by
    rintro option hoption rfl
    exact h hoption
  simp [ofString, h, hne "-f" (by decide), hne "--file" (by decide), hne "-o" (by decide),
    hne "--output" (by decide), hne "-t" (by decide), hne "--ticks" (by decide),
    hne "--ease" (by decide), hne "--angle-step" (by decide),
    hne "--no-disambiguate" (by decide), hne "-h" (by decide), hne "--help" (by decide)]

namespace Settings

variable {s t : Settings} {name value : String} {p : Parameter} {item a b : Item} {k : Kind}
  {items items' : List Item}

theorem set_eq (s : Settings) (name : String) (h : p.Takes value) :
    s.set value p = .ok (Item.apply s (.parameter name p value)) := by
  cases p with
  | file | output => rfl
  | ticks | ease | angleStep =>
    obtain ⟨x, hx⟩ := Option.isSome_iff_exists.1 h
    simp only [set, Item.apply, hx]
    rfl

/-- An item is read with nothing of what follows it. -/
theorem extend_arguments (h : item.Complete)
    (hfree : item.kind = .expression → s.expression = none) (rest : List String) :
    s.extend (item.arguments ++ rest) = (Item.apply s item).extend rest := by
  cases item with
  | parameter name p value =>
    obtain ⟨hname, htakes⟩ := h
    have hread : Argument.ofString name = .parameter p := Parameter.ofString_of_mem_names hname
    simp only [Item.arguments, List.cons_append, List.nil_append, extend, hread,
      set_eq s name htakes]
    rfl
  | noDisambiguate =>
    have hread : Argument.ofString "--no-disambiguate" = .noDisambiguate := by decide
    simp only [Item.arguments, List.cons_append, List.nil_append, extend, hread]
    rfl
  | expression text =>
    simp only [Item.arguments, List.cons_append, List.nil_append, extend,
      Argument.ofString_expression h, hfree rfl]
    rfl

theorem heeded_apply (h : item.Complete) : item.Heeded (Item.apply s item) := by
  cases item with
  | parameter name p value =>
    cases p with
    | file | output => rfl
    | ticks | ease | angleStep =>
      obtain ⟨x, hx⟩ := Option.isSome_iff_exists.1 h.2
      simp [Item.Heeded, Item.apply, hx]
  | noDisambiguate => rfl
  | expression text => rfl

/-- An item changes nothing of another kind. -/
theorem agrees_apply (h : item.kind ≠ k) : k.Agrees (Item.apply s item) s := by
  -- either the kinds are the same, or they are about different things
  rcases item with ⟨name, _ | _ | _ | _ | _, value⟩ | _ | text <;>
    rcases k with (_ | _ | _ | _ | _) | _ | _ <;> first | rfl | exact absurd rfl h

/-- Items of two kinds may change places. -/
theorem apply_comm (h : a.kind ≠ b.kind) :
    Item.apply (Item.apply s a) b = Item.apply (Item.apply s b) a := by
  rcases a with ⟨name, _ | _ | _ | _ | _, value⟩ | _ | text <;>
    rcases b with ⟨name', _ | _ | _ | _ | _, value'⟩ | _ | text' <;>
      first | rfl | exact absurd rfl h

theorem heeded_congr (h : item.Heeded s) (hagrees : item.kind.Agrees t s) : item.Heeded t := by
  rcases item with ⟨name, _ | _ | _ | _ | _, value⟩ | _ | text <;>
    simp only [Item.kind, Kind.Agrees] at hagrees <;> simpa only [Item.Heeded, hagrees] using h

/-! ## All items -/

/-- Nothing changes of a kind that no item is of. -/
theorem agrees_foldl (hk : k ∉ items.map Item.kind) : k.Agrees (items.foldl Item.apply s) s := by
  induction items generalizing s with
  | nil => exact .refl k s
  | cons item items ih =>
    rw [List.map_cons, List.mem_cons, not_or] at hk
    exact (ih hk.2).trans (agrees_apply (Ne.symm hk.1))

/-- Items of different kinds are all heeded: the later ones leave what the earlier ones have set. -/
theorem heeded_foldl (hkinds : (items.map Item.kind).Nodup)
    (hcomplete : ∀ item ∈ items, item.Complete) :
    ∀ item ∈ items, item.Heeded (items.foldl Item.apply s) := by
  induction items generalizing s with
  | nil => exact List.forall_mem_nil _
  | cons item items ih =>
    rw [List.map_cons, List.nodup_cons] at hkinds
    obtain ⟨hitem, hitems⟩ := List.forall_mem_cons.1 hcomplete
    refine List.forall_mem_cons.2 ⟨?_, ih hkinds.2 hitems⟩
    exact heeded_congr (heeded_apply hitem) (agrees_foldl hkinds.1)

/-- Items of different kinds are read one by one. -/
theorem extend_items (hkinds : (items.map Item.kind).Nodup)
    (hcomplete : ∀ item ∈ items, item.Complete)
    (hfree : .expression ∈ items.map Item.kind → s.expression = none) :
    s.extend (items.flatMap Item.arguments) = .ok (items.foldl Item.apply s) := by
  induction items generalizing s with
  | nil => rfl
  | cons item items ih =>
    rw [List.map_cons, List.nodup_cons] at hkinds
    obtain ⟨hitem, hitems⟩ := List.forall_mem_cons.1 hcomplete
    have hhead : item.kind = .expression → s.expression = none := fun h =>
      hfree (h ▸ List.mem_cons_self)
    have htail : .expression ∈ items.map Item.kind → (Item.apply s item).expression = none := by
      intro h
      have hne : item.kind ≠ .expression := fun heq => hkinds.1 (heq ▸ h)
      have hagrees : Kind.expression.Agrees (Item.apply s item) s := agrees_apply hne
      exact Eq.trans hagrees (hfree (List.mem_cons_of_mem _ h))
    rw [List.flatMap_cons, extend_arguments hitem hhead, ih hkinds.2 hitems htail, List.foldl_cons]

theorem ofArguments_items (hkinds : (items.map Item.kind).Nodup)
    (hcomplete : ∀ item ∈ items, item.Complete) (hne : items ≠ []) :
    ofArguments (items.flatMap Item.arguments) = .ok (items.foldl Item.apply standard) := by
  have hsome : (items.flatMap Item.arguments).isEmpty = false := by
    obtain ⟨item, items, rfl⟩ := List.exists_cons_of_ne_nil hne
    cases item <;> rfl
  rw [ofArguments, hsome]
  exact extend_items hkinds hcomplete fun _ => rfl

/-- Items of different kinds come to the same in any order. -/
theorem foldl_apply_perm (hperm : items.Perm items') (hkinds : (items.map Item.kind).Nodup) :
    items.foldl Item.apply s = items'.foldl Item.apply s := by
  refine hperm.foldl_eq' (fun a ha b hb s => ?_) s
  by_cases h : a.kind = b.kind
  · rw [List.inj_on_of_nodup_map hkinds ha hb h]
  · exact apply_comm h

theorem ofArguments_perm (hperm : items.Perm items') (hkinds : (items.map Item.kind).Nodup)
    (hcomplete : ∀ item ∈ items, item.Complete) :
    ofArguments (items.flatMap Item.arguments) = ofArguments (items'.flatMap Item.arguments) := by
  by_cases hne : items = []
  · subst hne
    rw [List.nil_perm.1 hperm]
  · have hne' : items' ≠ [] := fun h => hne (List.perm_nil.1 (h ▸ hperm))
    have hkinds' : (items'.map Item.kind).Nodup := ((hperm.map _).nodup_iff).1 hkinds
    have hcomplete' : ∀ item ∈ items', item.Complete := fun item h =>
      hcomplete item (hperm.mem_iff.2 h)
    rw [ofArguments_items hkinds hcomplete hne, ofArguments_items hkinds' hcomplete' hne',
      foldl_apply_perm hperm hkinds]

end Settings

/-- The order of items does not matter. When each kind of thing is asked for at most once, all that
is asked for is heeded and all else is as usual; and with the items in any other order the command
line reports the same and leaves the same files, whatever files there are. -/
theorem order_of_items_ignored (program : String) {items items' : List Item}
    (hperm : items.Perm items') (hkinds : (items.map Item.kind).Nodup)
    (hcomplete : ∀ item ∈ items, item.Complete) :
    (items ≠ [] → ∃ settings, Settings.ofArguments (items.flatMap Item.arguments) = .ok settings ∧
      (∀ item ∈ items, item.Heeded settings) ∧
      ∀ k, k ∉ items.map Item.kind → k.Agrees settings .standard) ∧
    ∀ {σ : Type} (store : Store σ) (s : σ),
      store.run program (items.flatMap Item.arguments) s =
        store.run program (items'.flatMap Item.arguments) s := by
  constructor
  case left =>
    intro hne
    exact ⟨_, Settings.ofArguments_items hkinds hcomplete hne,
      Settings.heeded_foldl hkinds hcomplete, fun k hk => Settings.agrees_foldl hk⟩
  case right =>
    intro σ store s
    let _ := store.files
    rw [Store.run, Store.run, run, run, Settings.ofArguments_perm hperm hkinds hcomplete]

/-- Values that look like options or like expressions are values wherever they stand. -/
theorem order_of_items_ignored_reversed :
    (∃ settings, Settings.ofArguments
        ["-o", "--ease", "x", "--ease", "-0.5", "-t", "+7", "--no-disambiguate", "--file", "-o"] =
          .ok settings ∧
      settings.outputPath = some "--ease" ∧ settings.expression = some "x" ∧
      settings.engine.ease = Scalar.clamp 0.0 1.0 (-0.5) ∧ settings.ticks = 7 ∧
      settings.engine.disambiguate = false ∧ settings.inputPath = some "-o" ∧
      settings.engine.angleStep = Settings.standard.engine.angleStep) ∧
    ∀ {σ : Type} (store : Store σ) (s : σ),
      store.run "program" ["-o", "--ease", "x", "--ease", "-0.5", "-t", "+7", "--no-disambiguate",
          "--file", "-o"] s =
        store.run "program" ["--file", "-o", "--no-disambiguate", "-t", "+7", "--ease", "-0.5", "x",
          "-o", "--ease"] s := by
  let items : List Item :=
    [.parameter "-o" .output "--ease", .expression "x", .parameter "--ease" .ease "-0.5",
      .parameter "-t" .ticks "+7", .noDisambiguate, .parameter "--file" .file "-o"]
  have hperm : items.Perm items.reverse := items.reverse_perm.symm
  have hkinds : (items.map Item.kind).Nodup := by decide
  have hcomplete : ∀ item ∈ items, item.Complete := by decide +kernel
  obtain ⟨hheeded, hrun⟩ := order_of_items_ignored "program" hperm hkinds hcomplete
  obtain ⟨settings, hsettings, hitems, hothers⟩ := hheeded (List.cons_ne_nil _ _)
  simp only [items, List.forall_mem_cons] at hitems
  obtain ⟨houtput, hexpression, ⟨ease, hnumber, hease⟩, hticks, hdisambiguate, hinput, -⟩ := hitems
  obtain rfl : -0.5 = ease := Option.some.inj hnumber
  have hticks' : settings.ticks = 7 := (Option.some.inj hticks).symm
  have hangle : Kind.Agrees settings .standard (.parameter .angleStep) := hothers _ (by decide)
  exact ⟨⟨settings, hsettings, houtput, hexpression, hease, hticks', hdisambiguate, hinput, hangle⟩,
    hrun⟩

end CommandLine

end LambdaDiagram
