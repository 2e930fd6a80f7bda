import LambdaDiagram.Proofs.IndexedReading
import LambdaDiagram.Proofs.Precedence

/-!
Reading by index is safe. In a balanced range it comes to what reading comes to, and nothing on its
record is out of order: it looks only at lexemes that the buffer has, never counts fewer than no
groups open, and sets out to read just what reading comes to.
-/

namespace LambdaDiagram

/-- Reading goes on from where it has come to. -/
theorem Visits.trans {ls between later : List Lexeme} (h : Visits ls between)
    (hlater : Visits between later) : Visits ls later := by
  induction h with
  | here => exact hlater
  | afterVariable h ih => exact .afterVariable (ih hlater)
  | body hs hb h ih => exact .body hs hb (ih hlater)
  | afterGroup hs hb hread h ih => exact .afterGroup hs hb hread (ih hlater)

/-- An entry that is in order: ranges and indices lie in the buffer, reading comes to what is to be
read, and no more groups are closed than were opened. -/
def Entry.Sound (buf : Buffer) : Entry → Prop
  | range start stop =>
    start < stop ∧ stop ≤ buf.lexemes.length ∧ Visits buf.lexemes (buf.part start stop)
  | term start stop index =>
    start ≤ index ∧ index < stop ∧ stop ≤ buf.lexemes.length ∧
      Visits buf.lexemes (buf.part index stop)
  | look index => index < buf.lexemes.length
  | depth count => 0 ≤ count

namespace Buffer

open Transcript

variable {buf : Buffer} {opening start stop index close p : Nat} {l : Lexeme} {bs : List Char}
variable {ls inside rest body : List Lexeme} {α : Type} {e : SyntaxError}

theorem look_yields (h : buf.lexemes[index]? = some l) :
    (buf.look index).Yields (Entry.Sound buf) (.ok l) := by
  refine ⟨List.forall_mem_singleton.2 ?_, ?_⟩
  · exact (List.getElem?_eq_some_iff.1 h).1
  · rw [look, h]
    rfl

theorem failAt_yields (fault : SyntaxFault) (h : buf.lexemes[index]? = some l) :
    (buf.failAt fault index : Transcript α).Yields (Entry.Sound buf)
      (.error (.fault ⟨fault, l.position⟩)) := by
  refine ⟨List.forall_mem_singleton.2 ?_, ?_⟩
  · exact (List.getElem?_eq_some_iff.1 h).1
  · rw [failAt, h]
    rfl

/-- A fault in what is left of a group shows at its first lexeme, or else where the group is
closed. -/
theorem failAt_part_yields (fault : SyntaxFault) (h : buf.Delimits opening close l inside)
    (hindex : index ≤ close) :
    (buf.failAt fault index : Transcript α).Yields (Entry.Sound buf)
      (.error (.fault ⟨fault, Lexeme.positionOr l.position (buf.part index close)⟩)) := by
  cases hpart : buf.part index close with
  | nil =>
    have hle := (part_eq_nil_iff h.le_length).1 hpart
    obtain rfl : index = close := Nat.le_antisymm hindex hle
    exact failAt_yields fault h.closes
  | cons l' ls => exact failAt_yields fault (part_eq_cons_iff.1 hpart).2.1

/-- The search for the end of a group ends where the group is cut out. -/
theorem findClose_yields {depth : Nat} (hopening : opening ≤ index)
    (hpart : buf.part index stop = ls)
    (hs : Lexeme.splitClose depth ls = some (inside, l, rest)) :
    ∃ h, (buf.findClose opening stop (depth + 1) index hopening).Yields (Entry.Sound buf)
      (.ok ⟨index + inside.length, h⟩) := by
  induction ls generalizing index depth inside with
  | nil => cases hs
  | cons l' ls ih =>
    obtain ⟨hlt, hl', hpart'⟩ := part_eq_cons_iff.1 hpart
    -- unless the group is closed here, the search goes on with so many groups open within it
    have hstep : ∀ depth' : Nat, Lexeme.splitClose depth (l' :: ls) =
          (Lexeme.splitClose depth' ls).map (fun cut => (l' :: cut.1, cut.2)) →
        ∃ h, (buf.findClose opening stop (depth' + 1) (index + 1)
          (Nat.le_succ_of_le hopening)).Yields (Entry.Sound buf)
            (.ok ⟨index + inside.length, h⟩) := by
      intro depth' hsplit
      rw [hsplit] at hs
      obtain ⟨⟨inside', close, rest'⟩, hs', he⟩ := Option.map_eq_some_iff.1 hs
      cases he
      have hlength : index + (l' :: inside').length = index + 1 + inside'.length := by
        rw [List.length_cons]
        omega
      simp only [hlength]
      exact ih (Nat.le_succ_of_le hopening) hpart' hs'
    rw [findClose, dif_pos hlt]
    obtain ⟨s, p⟩ := l'
    cases s with
    | openParen =>
      obtain ⟨h, hy⟩ := hstep (depth + 1) rfl
      refine ⟨h, (look_yields hl').bind ((yields_note ?_).bind hy)⟩
      exact Int.natCast_nonneg (depth + 2)
    | closeParen =>
      have hcount : ((depth : Int) + 1) - 1 = depth := by omega
      cases depth with
      | zero =>
        cases hs
        refine ⟨⟨hopening, hlt⟩, (look_yields hl').bind ((yields_note (Int.le_refl 0)).bind ?_)⟩
        exact yields_pure _
      | succ depth =>
        obtain ⟨h, hy⟩ := hstep depth rfl
        refine ⟨h, (look_yields hl').bind ((yields_note ?_).bind ?_)⟩
        · rw [hcount]
          exact Int.natCast_nonneg (depth + 1)
        · have hne : ((depth + 1 : Nat) : Int) ≠ 0 := by omega
          rw [hcount, if_neg hne]
          exact hy
    | letter | lambda | dot =>
      obtain ⟨h, hy⟩ := hstep depth rfl
      exact ⟨h, (look_yields hl').bind hy⟩

/-- A group that is cut out of a range has its end in the range, and the search finds it. -/
theorem exists_findClose_yields (hpart : buf.part index stop = ⟨.openParen, p⟩ :: ls)
    (hs : Lexeme.splitClose 0 ls = some (inside, l, rest)) :
    ∃ close h, buf.Delimits index close l inside ∧ buf.part (close + 1) stop = rest ∧
      (buf.findClose index stop 0 index (Nat.le_refl index)).Yields (Entry.Sound buf)
        (.ok ⟨close, h⟩) := by
  obtain ⟨hlt, hl, hls⟩ := part_eq_cons_iff.1 hpart
  obtain ⟨hdelimits, hrest⟩ := delimits_of_splitClose hpart hs
  obtain ⟨h, hy⟩ := findClose_yields (Nat.le_succ index) hls hs
  refine ⟨index + 1 + inside.length, h, hdelimits, hrest, ?_⟩
  rw [findClose, dif_pos hlt]
  exact (look_yields hl).bind ((yields_note Int.one_nonneg).bind hy)

theorem exists_letters_yields (hopening : opening ≤ index) (hindex : index ≤ stop)
    (hstop : stop ≤ buf.lexemes.length) :
    ∃ next h, next ≤ stop ∧ buf.part next stop = (Lexeme.spanLetters (buf.part index stop)).2 ∧
      (buf.letters opening stop index hopening).Yields (Entry.Sound buf)
        (.ok ((Lexeme.spanLetters (buf.part index stop)).1, ⟨next, h⟩)) := by
  generalize hpart : buf.part index stop = ls
  induction ls generalizing index with
  | nil =>
    have hnot : ¬ index < stop := Nat.not_lt.2 ((part_eq_nil_iff hstop).1 hpart)
    refine ⟨index, hopening, hindex, hpart, ?_⟩
    rw [letters, if_neg hnot]
    exact yields_pure _
  | cons l ls ih =>
    obtain ⟨hlt, hl, hpart'⟩ := part_eq_cons_iff.1 hpart
    rw [letters, if_pos hlt]
    obtain ⟨s, p⟩ := l
    cases s with
    | letter c =>
      obtain ⟨next, h, hnext, hrest, hy⟩ := ih (Nat.le_succ_of_le hopening) hlt hpart'
      exact ⟨next, h, hnext, hrest, (look_yields hl).bind (hy.bind (yields_pure _))⟩
    | openParen | closeParen | lambda | dot =>
      exact ⟨index, hopening, hindex, hpart, (look_yields hl).bind (yields_pure _)⟩

/-! The binders of a group. -/

theorem afterBinders_yields (hopening : opening < index) (hbs : bs ≠ [])
    (hpart : buf.part index close = ⟨.dot, p⟩ :: ls) :
    (buf.afterBinders opening bs close index hopening).Yields (Entry.Sound buf)
      (.ok (bs, ⟨index + 1, Nat.lt_succ_of_lt hopening⟩)) := by
  obtain ⟨hlt, hdot, -⟩ := part_eq_cons_iff.1 hpart
  rw [afterBinders, if_neg hbs, if_neg (Nat.ne_of_lt hlt)]
  exact (look_yields hdot).bind (yields_pure _)

theorem afterBinders_yields_missingDot (h : buf.Delimits opening close l inside)
    (hopening : opening < index) (hindex : index ≤ close) (hbs : bs ≠ [])
    (hdot : ∀ p body, buf.part index close ≠ ⟨.dot, p⟩ :: body) :
    (buf.afterBinders opening bs close index hopening).Yields (Entry.Sound buf) (.error (.fault
      ⟨.missingDot, Lexeme.positionOr l.position (buf.part index close)⟩)) := by
  have hfail : (buf.failAt .missingDot index : Transcript (List Char × {first : Nat //
      opening < first})).Yields _ _ := failAt_part_yields .missingDot h hindex
  rw [afterBinders, if_neg hbs]
  split
  · exact hfail
  · rename_i hne
    have hpart : buf.part index close ≠ [] := by
      rw [Ne, part_eq_nil_iff h.le_length]
      omega
    obtain ⟨⟨s, p⟩, ls, hpart⟩ := List.exists_cons_of_ne_nil hpart
    have hsymbol : s ≠ .dot := by
      rintro rfl
      exact hdot p ls hpart
    refine (look_yields (part_eq_cons_iff.1 hpart).2.1).bind ?_
    rw [if_neg hsymbol]
    exact hfail

/-- After a backslash and some letters, the heading is what comes after the binders. -/
theorem exists_heading_leads (h : buf.Delimits opening close l (⟨.lambda, p⟩ :: ls))
    (hs : Lexeme.spanLetters ls = (bs, rest)) :
    ∃ index hopening, index ≤ close ∧ buf.part index close = rest ∧
      (buf.heading opening close).Leads (Entry.Sound buf)
        (buf.afterBinders opening bs close index hopening) := by
  obtain ⟨hlt, hlambda, hls⟩ := part_eq_cons_iff.1 h.part
  obtain ⟨index, hindex, hle, hrest, hletters⟩ :=
    exists_letters_yields (Nat.le_succ (opening + 1)) hlt h.le_length
  rw [hls, hs] at hrest hletters
  refine ⟨index, hindex, hle, hrest, ?_⟩
  rw [heading, if_neg (Nat.ne_of_lt hlt)]
  exact ((look_yields hlambda).leads _).trans (hletters.leads _)

theorem heading_yields_error (h : buf.Delimits opening close l inside)
    (hb : Lexeme.splitBinders l.position inside = .error e) :
    (buf.heading opening close).Yields (Entry.Sound buf) (.error (.fault e)) := by
  fun_cases Lexeme.splitBinders l.position inside with
  | case1 p ls rest hs =>
    obtain rfl : SyntaxError.mk _ _ = e := by simpa [Lexeme.splitBinders, hs] using hb
    obtain ⟨index, hopening, hle, rfl, hheading⟩ := exists_heading_leads h hs
    exact hheading.yields (failAt_part_yields .missingBinder h hle)
  | case2 p ls bs q body hbs hs => simp [Lexeme.splitBinders, hs] at hb
  | case3 p ls bs rest hbs hdot hs =>
    obtain rfl : SyntaxError.mk _ _ = e := by simpa [Lexeme.splitBinders, hs] using hb
    obtain ⟨index, hopening, hle, rfl, hheading⟩ := exists_heading_leads h hs
    exact hheading.yields (afterBinders_yields_missingDot h hopening hle hbs hdot)
  | case4 => simp [Lexeme.splitBinders] at hb

/-- The body of a group is a range that ends where the group does. -/
theorem exists_heading_yields_body (h : buf.Delimits opening close l inside)
    (hb : Lexeme.splitBinders l.position inside = .ok (bs, body)) :
    ∃ first hfirst, first ≤ close ∧ buf.part first close = body ∧
      (buf.heading opening close).Yields (Entry.Sound buf) (.ok (bs, ⟨first, hfirst⟩)) := by
  fun_cases Lexeme.splitBinders l.position inside with
  | case1 p ls rest hs => simp [Lexeme.splitBinders, hs] at hb
  | case2 p ls bs q body hbs hs =>
    obtain ⟨rfl, rfl⟩ : bs = _ ∧ body = _ := by simpa [Lexeme.splitBinders, hs] using hb
    obtain ⟨index, hindex, -, hrest, hheading⟩ := exists_heading_leads h hs
    obtain ⟨hlt, -, hbody⟩ := part_eq_cons_iff.1 hrest
    exact ⟨index + 1, _, hlt, hbody, hheading.yields (afterBinders_yields hindex hbs hrest)⟩
  | case3 p ls bs rest hbs hdot hs => simp [Lexeme.splitBinders, hs] at hb
  | case4 _ hne =>
    obtain ⟨rfl, rfl⟩ : [] = bs ∧ inside = body := by simpa [Lexeme.splitBinders] using hb
    refine ⟨opening + 1, Nat.lt_succ_self opening, h.lt, h.part, ?_⟩
    rw [heading]
    split
    · exact yields_pure _
    · rename_i hnot
      have hinside : inside ≠ [] := by
        have hlt := h.lt
        rw [← h.part, Ne, part_eq_nil_iff h.le_length]
        omega
      obtain ⟨⟨s, p⟩, ls, rfl⟩ := List.exists_cons_of_ne_nil hinside
      have hsymbol : s ≠ .lambda := by
        rintro rfl
        exact hne p ls rfl
      refine (look_yields (part_eq_cons_iff.1 h.part).2.1).bind ?_
      rw [if_neg hsymbol]
      exact yields_pure _

/-! Chains and groups. -/

section

variable {ts : List Term} {chain : Chain}

theorem sequence_yields_error {terms : Transcript (List Term)}
    (hrange : Entry.Sound buf (.range start stop))
    (hterms : terms.Yields (Entry.Sound buf) (.error (.fault e))) :
    (buf.sequence start stop terms).Yields (Entry.Sound buf) (.error (.fault e)) :=
  (yields_note hrange).bind hterms.bind_error

theorem sequence_yields {terms : Transcript (List Term)}
    (hrange : Entry.Sound buf (.range start stop))
    (hterms : terms.Yields (Entry.Sound buf) (.ok ts)) (hchain : Chain.ofList? ts = some chain) :
    (buf.sequence start stop terms).Yields (Entry.Sound buf) (.ok chain) := by
  refine (yields_note hrange).bind (hterms.bind ?_)
  rw [hchain]
  exact yields_pure chain

theorem mem_sequence {terms : Transcript (List Term)} {entry : Entry}
    (hentry : entry ∈ terms.entries) : entry ∈ (buf.sequence start stop terms).entries :=
  List.mem_cons_of_mem _ (mem_bind_left hentry _)

variable {terms : (first : Nat) → opening < first → Transcript (List Term)}

theorem group_yields_empty (h : buf.Delimits opening close l inside)
    (hb : Lexeme.splitBinders l.position inside = .ok (bs, [])) :
    (buf.group opening close terms).Yields (Entry.Sound buf)
      (.error (.fault ⟨.emptyGroup, l.position⟩)) := by
  obtain ⟨first, hfirst, hle, hbody, hheading⟩ := exists_heading_yields_body h hb
  have hempty : first = close := Nat.le_antisymm hle ((part_eq_nil_iff h.le_length).1 hbody)
  refine hheading.bind ?_
  dsimp only
  rw [if_pos hempty]
  exact failAt_yields .emptyGroup h.closes

/-- After its heading, a group whose body is not empty is the chain of the range of its body. -/
theorem exists_group_leads (h : buf.Delimits opening close l inside)
    (hb : Lexeme.splitBinders l.position inside = .ok (bs, body)) (hbody : body ≠ [])
    (hvisits : Visits buf.lexemes body) :
    ∃ first hfirst, buf.part first close = body ∧ Entry.Sound buf (.range first close) ∧
      (buf.group opening close terms).Leads (Entry.Sound buf)
        (buf.sequence first close (terms first hfirst) >>= fun chain =>
          pure (.group bs chain)) := by
  obtain ⟨first, hfirst, hle, rfl, hheading⟩ := exists_heading_yields_body h hb
  have hlt : first < close := Nat.not_le.1 fun hle => hbody ((part_eq_nil_iff h.le_length).2 hle)
  refine ⟨first, hfirst, rfl, ⟨hlt, h.le_length, hvisits⟩, ?_⟩
  have hleads : (buf.group opening close terms).Leads (Entry.Sound buf) _ := hheading.leads _
  dsimp only at hleads
  rwa [if_neg (Nat.ne_of_lt hlt)] at hleads

theorem group_yields_error (h : buf.Delimits opening close l inside)
    (hb : Lexeme.splitBinders l.position inside = .ok (bs, body)) (hbody : body ≠ [])
    (hvisits : Visits buf.lexemes body)
    (hterms : ∀ first hfirst, buf.part first close = body →
      (terms first hfirst).Yields (Entry.Sound buf) (.error (.fault e))) :
    (buf.group opening close terms).Yields (Entry.Sound buf) (.error (.fault e)) := by
  obtain ⟨first, hfirst, hpart, hrange, hleads⟩ := exists_group_leads h hb hbody hvisits
  exact hleads.yields (sequence_yields_error hrange (hterms first hfirst hpart)).bind_error

theorem group_yields (h : buf.Delimits opening close l inside)
    (hb : Lexeme.splitBinders l.position inside = .ok (bs, body)) (hbody : body ≠ [])
    (hvisits : Visits buf.lexemes body)
    (hterms : ∀ first hfirst, buf.part first close = body →
      (terms first hfirst).Yields (Entry.Sound buf) (.ok ts))
    (hchain : Chain.ofList? ts = some chain) :
    (buf.group opening close terms).Yields (Entry.Sound buf) (.ok (.group bs chain)) := by
  obtain ⟨first, hfirst, hpart, hrange, hleads⟩ := exists_group_leads h hb hbody hvisits
  have hsequence := sequence_yields hrange (hterms first hfirst hpart) hchain
  exact hleads.yields (hsequence.bind (yields_pure _))

end

/-! Terms. -/

theorem ne_nil_of_parseTerms (h : parseTerms ls ≠ .ok []) : ls ≠ [] := by
  rintro rfl
  rw [parseTerms] at h
  exact h rfl

theorem yields_cons {x : Transcript (List Term)} {r : Except SyntaxError (List Term)}
    (h : x.Yields (Entry.Sound buf) (r.mapError .fault)) (t : Term) :
    (x >>= fun ts => pure (t :: ts)).Yields (Entry.Sound buf)
      ((r.map (t :: ·)).mapError .fault) := by
  cases r with
  | error e => exact h.bind_error
  | ok ts => exact h.bind (yields_pure (t :: ts))

theorem startTerm_yields (hstart : start ≤ index) (hstop : stop ≤ buf.lexemes.length)
    (hpart : buf.part index stop = l :: ls) (hvisits : Visits buf.lexemes (l :: ls)) :
    (buf.startTerm start stop index).Yields (Entry.Sound buf) (.ok l) := by
  obtain ⟨hlt, hl, -⟩ := part_eq_cons_iff.1 hpart
  refine (yields_note ⟨hstart, hlt, hstop, ?_⟩).bind (look_yields hl)
  rwa [hpart]

/-- After a variable, the terms after it are read. -/
theorem terms_leads_variable {c : Char} (hstart : start ≤ index)
    (hstop : stop ≤ buf.lexemes.length) (hpart : buf.part index stop = ⟨.letter c, p⟩ :: ls)
    (hvisits : Visits buf.lexemes (⟨.letter c, p⟩ :: ls)) :
    (buf.terms start stop index).Leads (Entry.Sound buf)
      (buf.terms start stop (index + 1) >>= fun ts => pure (.var c :: ts)) := by
  obtain ⟨hlt, -, -⟩ := part_eq_cons_iff.1 hpart
  rw [terms, if_pos hlt]
  exact (startTerm_yields hstart hstop hpart hvisits).leads _

/-- Where a group starts, its end is found, and then the group and the terms after it are read. -/
theorem exists_terms_leads_group (hstart : start ≤ index) (hstop : stop ≤ buf.lexemes.length)
    (hpart : buf.part index stop = ⟨.openParen, p⟩ :: ls)
    (hvisits : Visits buf.lexemes (⟨.openParen, p⟩ :: ls))
    (hs : Lexeme.splitClose 0 ls = some (inside, l, rest)) :
    ∃ close, buf.Delimits index close l inside ∧ buf.part (close + 1) stop = rest ∧
      (buf.terms start stop index).Leads (Entry.Sound buf)
        (buf.group index close (fun first _ => buf.terms first close first) >>= fun t =>
          buf.terms start stop (close + 1) >>= fun ts => pure (t :: ts)) := by
  obtain ⟨hlt, -, -⟩ := part_eq_cons_iff.1 hpart
  obtain ⟨close, h, hdelimits, hrest, hfind⟩ := exists_findClose_yields hpart hs
  refine ⟨close, hdelimits, hrest, ?_⟩
  rw [terms, if_pos hlt]
  exact ((startTerm_yields hstart hstop hpart hvisits).leads _).trans (hfind.leads _)

section

variable {w : List Char}

/-- On whatever lexemes reading a balanced text comes to, reading by index comes to what reading
comes to, and does nothing that is out of order. -/
theorem terms_yields (hw : Spells w buf.lexemes) (hd : depthAfter 0 w = some 0)
    (hstart : start ≤ index) (hstop : stop ≤ buf.lexemes.length)
    (hpart : buf.part index stop = ls) (hvisits : Visits buf.lexemes ls) :
    (buf.terms start stop index).Yields (Entry.Sound buf) ((parseTerms ls).mapError .fault) := by
  fun_induction parseTerms ls generalizing start stop index with
  | case1 =>
    have hnot : ¬ index < stop := Nat.not_lt.2 ((part_eq_nil_iff hstop).1 hpart)
    rw [terms, if_neg hnot]
    exact yields_pure _
  | case2 c p ls ih =>
    obtain ⟨-, -, hrest⟩ := part_eq_cons_iff.1 hpart
    have hafter : Visits buf.lexemes ls := hvisits.trans (.afterVariable (.here ls))
    have hts := ih (Nat.le_succ_of_le hstart) hstop hrest hafter
    exact (terms_leads_variable hstart hstop hpart hvisits).yields (yields_cons hts (.var c))
  | case3 p ls hs => exact absurd (.opening hs) (hvisits.not_unpaired hw hd)
  | case4 p ls inside l rest hs e hb =>
    obtain ⟨close, hdelimits, -, hleads⟩ := exists_terms_leads_group hstart hstop hpart hvisits hs
    exact hleads.yields (heading_yields_error hdelimits hb).bind_error.bind_error
  | case5 p ls inside l rest hs binders body hb ihBody ihRest =>
    obtain ⟨close, hdelimits, hrest, hleads⟩ :=
      exists_terms_leads_group hstart hstop hpart hvisits hs
    refine hleads.yields ?_
    have hinner : Visits buf.lexemes body := hvisits.trans (.body hs hb (.here body))
    have hts : ∀ first, index < first → buf.part first close = body →
        (buf.terms first close first).Yields (Entry.Sound buf)
          ((parseTerms body).mapError .fault) := fun first _ hbody =>
      ihBody (Nat.le_refl first) hdelimits.le_length hbody hinner
    cases hus : parseTerms body with
    | error e =>
      rw [hus] at hts
      have hbody : body ≠ [] := ne_nil_of_parseTerms (by simp [hus])
      exact (group_yields_error hdelimits hb hbody hinner hts).bind_error
    | ok us =>
      rw [hus] at hts
      cases us with
      | nil =>
        obtain ⟨v, hv, -⟩ := hinner.exists_spells hw hd
        obtain rfl : v = [] := writtenTerms_of_parseTerms hv hus
        obtain rfl : body = [] := by simpa [Spells] using hv
        exact (group_yields_empty hdelimits hb).bind_error
      | cons t ts =>
        have hbody : body ≠ [] := ne_nil_of_parseTerms (by simp [hus])
        have hafter : Visits buf.lexemes rest := hvisits.trans (.afterGroup hs hb hus (.here rest))
        have hrs := ihRest (hdelimits.le_succ hstart) hstop hrest hafter
        exact (group_yields hdelimits hb hbody hinner hts rfl).bind
          (yields_cons hrs (.group binders (Chain.ofTerms t ts)))
  | case6 p ls => exact absurd (.closing p ls) (hvisits.not_unpaired hw hd)
  | case7 p ls | case8 p ls =>
    obtain ⟨hlt, -, -⟩ := part_eq_cons_iff.1 hpart
    rw [terms, if_pos hlt]
    exact (startTerm_yields hstart hstop hpart hvisits).bind (yields_fail _ p)

/-- What reading a balanced text comes to is on the record. -/
theorem exists_term_of_visits (hw : Spells w buf.lexemes) (hd : depthAfter 0 w = some 0)
    {later : List Lexeme} (h : Visits ls later) (hlater : later ≠ []) (hstart : start ≤ index)
    (hstop : stop ≤ buf.lexemes.length) (hpart : buf.part index stop = ls)
    (hvisits : Visits buf.lexemes ls) :
    ∃ start' stop' index', .term start' stop' index' ∈ (buf.terms start stop index).entries ∧
      buf.part index' stop' = later := by
  induction h generalizing start stop index with
  | here ls =>
    obtain ⟨l, ls, rfl⟩ := List.exists_cons_of_ne_nil hlater
    obtain ⟨hlt, -, -⟩ := part_eq_cons_iff.1 hpart
    refine ⟨start, stop, index, ?_, hpart⟩
    rw [terms, if_pos hlt]
    exact mem_bind_left (mem_bind_left List.mem_cons_self _) _
  | @afterVariable c p ls later h ih =>
    obtain ⟨-, -, hrest⟩ := part_eq_cons_iff.1 hpart
    have hafter : Visits buf.lexemes ls := hvisits.trans (.afterVariable (.here ls))
    obtain ⟨start', stop', index', hmem, hlater⟩ :=
      ih hlater (Nat.le_succ_of_le hstart) hstop hrest hafter
    refine ⟨start', stop', index', ?_, hlater⟩
    exact (terms_leads_variable hstart hstop hpart hvisits).mem (mem_bind_left hmem _)
  | @body p ls inside rest body later l bs hs hb h ih =>
    obtain ⟨close, hdelimits, -, hleads⟩ := exists_terms_leads_group hstart hstop hpart hvisits hs
    have hinner : Visits buf.lexemes body := hvisits.trans (.body hs hb (.here body))
    have hbody : body ≠ [] := by
      rintro rfl
      cases h
      exact hlater rfl
    obtain ⟨first, hfirst, hbody, -, hgroup⟩ := exists_group_leads hdelimits hb hbody hinner
    obtain ⟨start', stop', index', hmem, hlater⟩ :=
      ih hlater (Nat.le_refl first) hdelimits.le_length hbody hinner
    refine ⟨start', stop', index', hleads.mem (mem_bind_left (hgroup.mem ?_) _), hlater⟩
    exact mem_bind_left (mem_sequence hmem) _
  | @afterGroup p ls inside rest body later l bs t ts hs hb hus h ih =>
    obtain ⟨close, hdelimits, hrest, hleads⟩ :=
      exists_terms_leads_group hstart hstop hpart hvisits hs
    have hinner : Visits buf.lexemes body := hvisits.trans (.body hs hb (.here body))
    have hbody : body ≠ [] := ne_nil_of_parseTerms (by simp [hus])
    have hts : ∀ first, index < first → buf.part first close = body →
        (buf.terms first close first).Yields (Entry.Sound buf) (.ok (t :: ts)) := by
      intro first _ hbody
      have hyields := terms_yields hw hd (Nat.le_refl first) hdelimits.le_length hbody hinner
      rwa [hus] at hyields
    have hgroup := group_yields hdelimits hb hbody hinner hts rfl
    have hafter : Visits buf.lexemes rest := hvisits.trans (.afterGroup hs hb hus (.here rest))
    obtain ⟨start', stop', index', hmem, hlater⟩ :=
      ih hlater (hdelimits.le_succ hstart) hstop hrest hafter
    refine ⟨start', stop', index', hleads.mem ?_, hlater⟩
    exact (hgroup.leads _).mem (mem_bind_left hmem _)

end

end Buffer

end LambdaDiagram
