import LambdaDiagram.Proofs.SafeReading
import Mathlib.Data.List.Nodup

/-!
Two ways to find the partner of a parenthesis agree. One pairs all parentheses of a text, keeping
those that are open on a stack; the other counts open groups from one parenthesis on, within the
range of lexemes that is being read. Whatever range of a balanced text reading by index sets out to
read, the range is balanced, and for every opening parenthesis in it the count comes to the closing
one that it was paired with (`partners_agree`).
-/

namespace LambdaDiagram

/-! ## Pairs -/

section

variable {position : Nat} {waiting : List Nat} {before inside after cs : List Char}
variable {ps : List (Nat × Nat)}

/-- Pairing goes on after the beginning of a text. -/
theorem exists_pairParentheses_suffix
    (h : pairParentheses position waiting (before ++ after) = .ok ps) :
    ∃ waiting' ps', pairParentheses (position + before.length) waiting' after = .ok ps' ∧
      ps' ⊆ ps := by
  induction before generalizing position waiting ps with
  | nil => exact ⟨waiting, ps, h, List.Subset.refl ps⟩
  | cons c before ih =>
    have hlength : position + (c :: before).length = position + 1 + before.length := by
      rw [List.length_cons]
      omega
    rw [hlength]
    rw [List.cons_append] at h
    by_cases ho : c = '('
    · subst ho
      rw [pairParentheses_open] at h
      exact ih h
    · by_cases hc : c = ')'
      · subst hc
        cases waiting with
        | nil => simp [pairParentheses] at h
        | cons p waiting =>
          rw [pairParentheses_close] at h
          obtain ⟨ps, hps, rfl⟩ := ok_of_map h
          obtain ⟨waiting', ps', h', hsub⟩ := ih hps
          exact ⟨waiting', ps', h', List.subset_cons_of_subset _ hsub⟩
      · rw [pairParentheses_cons ho hc] at h
        exact ih h

/-- The parentheses around a balanced text are partners. -/
theorem mem_pairs_of_depthAfter
    (h : pairParentheses 0 [] (before ++ '(' :: (inside ++ ')' :: after)) = .ok ps)
    (hinside : depthAfter 0 inside = some 0) :
    (before.length, before.length + 1 + inside.length) ∈ ps := by
  obtain ⟨waiting, ps', h', hsub⟩ := exists_pairParentheses_suffix h
  rw [Nat.zero_add, pairParentheses_open] at h'
  have hlevel : depthAfter ([] : List Nat).length inside = some 0 := hinside
  obtain ⟨qs, hqs⟩ := exists_pairParentheses_append (before.length + 1) hlevel
  have hall := hqs (before.length :: waiting) (')' :: after)
  rw [List.nil_append, h', pairParentheses_close] at hall
  obtain ⟨rs, hrs, rfl⟩ := ok_of_map hall.symm
  obtain ⟨rs', -, rfl⟩ := ok_of_map hrs
  exact hsub (List.mem_append_right _ List.mem_cons_self)

/-- A parenthesis is waiting, or is opened later, only once. -/
theorem nodup_openings (h : pairParentheses position waiting cs = .ok ps) (hnodup : waiting.Nodup)
    (hwaiting : ∀ p ∈ waiting, p < position) :
    (ps.map Prod.fst).Nodup ∧ ∀ p ∈ ps.map Prod.fst, p ∈ waiting ∨ position ≤ p := by
  induction cs generalizing position waiting ps with
  | nil =>
    rw [pairParentheses] at h
    split at h
    · obtain rfl := Except.ok.inj h
      exact ⟨List.nodup_nil, List.forall_mem_nil _⟩
    · cases h
  | cons c cs ih =>
    have hlater : ∀ p ∈ waiting, p < position + 1 := fun p hp => Nat.lt_succ_of_lt (hwaiting p hp)
    by_cases ho : c = '('
    · subst ho
      rw [pairParentheses_open] at h
      have hnew : position ∉ waiting := fun hp => Nat.lt_irrefl position (hwaiting position hp)
      obtain ⟨hps, hmem⟩ := ih h (List.nodup_cons.2 ⟨hnew, hnodup⟩)
        (List.forall_mem_cons.2 ⟨Nat.lt_succ_self position, hlater⟩)
      refine ⟨hps, fun p hp => ?_⟩
      rcases hmem p hp with hp | hp
      · rcases List.mem_cons.1 hp with rfl | hp
        · exact .inr (Nat.le_refl p)
        · exact .inl hp
      · exact .inr (Nat.le_of_succ_le hp)
    · by_cases hc : c = ')'
      · subst hc
        cases waiting with
        | nil => simp [pairParentheses] at h
        | cons q waiting =>
          rw [pairParentheses_close] at h
          obtain ⟨ps, hps, rfl⟩ := ok_of_map h
          obtain ⟨hq, hnodup⟩ := List.nodup_cons.1 hnodup
          obtain ⟨hqlt, hwaiting⟩ := List.forall_mem_cons.1 hwaiting
          obtain ⟨hps, hmem⟩ := ih hps hnodup fun p hp => Nat.lt_succ_of_lt (hwaiting p hp)
          rw [List.map_cons]
          constructor
          · refine List.nodup_cons.2 ⟨fun hmem' => ?_, hps⟩
            rcases hmem q hmem' with hq' | hq'
            · exact hq hq'
            · omega
          · refine List.forall_mem_cons.2 ⟨.inl List.mem_cons_self, fun p hp => ?_⟩
            exact (hmem p hp).imp (List.mem_cons_of_mem q) Nat.le_of_succ_le
      · rw [pairParentheses_cons ho hc] at h
        obtain ⟨hps, hmem⟩ := ih h hnodup hlater
        exact ⟨hps, fun p hp => (hmem p hp).imp_right Nat.le_of_succ_le⟩

/-- Only balanced texts have pairs. -/
theorem balanced_of_pairParentheses (h : pairParentheses 0 [] cs = .ok ps) : Balanced cs := by
  by_contra hnot
  obtain ⟨p, hp⟩ := (exists_mismatchedAt_iff cs).2 hnot
  rw [(pairParentheses_eq_error_iff cs p).2 hp] at h
  cases h

/-- A parenthesis has one partner at most. -/
theorem partner_unique (h : pairParentheses 0 [] cs = .ok ps) {p q q' : Nat} (hq : (p, q) ∈ ps)
    (hq' : (p, q') ∈ ps) : q = q' := by
  obtain ⟨hnodup, -⟩ := nodup_openings h List.nodup_nil (List.forall_mem_nil _)
  exact congrArg Prod.snd (List.inj_on_of_nodup_map hnodup hq hq' rfl)

end

/-! ## Lexemes and the text that they are read off -/

/-- The text that lexemes are written as. -/
def Lexeme.written (ls : List Lexeme) : List Char := ls.map fun l => l.symbol.toChar

theorem Spells.eq_written {w : List Char} {ls : List Lexeme} (h : Spells w ls) :
    w = Lexeme.written ls := by
  induction ls generalizing w with
  | nil => exact Spells.nil_iff.1 h
  | cons l ls ih =>
    obtain ⟨c, v, rfl, hc, hv⟩ := Spells.cons_iff.1 h
    rw [ih hv, Lexeme.written, Lexeme.written, List.map_cons, Symbol.toChar_of_ofChar? hc]

/-- What stands around a lexeme in a text are the texts of the lexemes around it. -/
theorem Lexeme.exists_scan_cons {p : Nat} {cs : List Char} {ls₁ ls₂ : List Lexeme} {l : Lexeme}
    (h : scan p cs = .ok (ls₁ ++ l :: ls₂)) :
    ∃ before after, cs = before ++ l.symbol.toChar :: after ∧ l.position = p + before.length ∧
      scan p before = .ok ls₁ ∧ scan (l.position + 1) after = .ok ls₂ := by
  obtain ⟨before, c, after, rfl, hbefore, hb, hc, hp⟩ := scan_split h
  refine ⟨before, after, by rw [Symbol.toChar_of_ofChar? hc], hp, hbefore, ?_⟩
  rw [scan_append, hbefore] at h
  obtain ⟨ls, hls, he⟩ := ok_of_map h
  rw [List.append_cancel_left he, scan, hb, hc] at hls
  obtain ⟨ls', hls', he'⟩ := ok_of_map hls
  rw [hp, hls', (List.cons.inj he').2]

/-- The positions of two parentheses with balanced lexemes between them are partners. -/
theorem mem_pairs_of_scan {cs : List Char} {ps : List (Nat × Nat)} {l close : Lexeme}
    {ls inside rest : List Lexeme} (hps : pairParentheses 0 [] cs = .ok ps)
    (hls : Lexeme.scan 0 cs = .ok (ls ++ l :: (inside ++ close :: rest)))
    (hl : l.symbol = .openParen) (hclose : close.symbol = .closeParen)
    (hinside : Balanced (Lexeme.written inside)) : (l.position, close.position) ∈ ps := by
  obtain ⟨before, after, rfl, hp, -, hafter⟩ := Lexeme.exists_scan_cons hls
  obtain ⟨between, after, rfl, hq, hbetween, -⟩ := Lexeme.exists_scan_cons hafter
  rw [hl, hclose] at hps
  have hd : depthAfter 0 between = some 0 := by
    rw [← depthAfter_dropBlanks, (Lexeme.spells_scan hbetween).eq_written]
    exact balanced_iff.1 hinside
  have hmem := mem_pairs_of_depthAfter hps hd
  rwa [hq, hp, Nat.zero_add]

/-! ## The partner of a parenthesis in a range -/

namespace Buffer

variable {s : String} {buf : Buffer} {start stop index close : Nat} {ps : List (Nat × Nat)}

/-- In a range that ends at `stop`, the parenthesis at `index` has its partner at `close`. -/
structure Paired (buf : Buffer) (ps : List (Nat × Nat)) (stop index close : Nat) : Prop where
  after : index < close
  inside : close < stop
  /-- The search that counts open groups comes to the partner. -/
  found : (buf.findClose index stop 0 index (Nat.le_refl index)).outcome.map Subtype.val =
    .ok close
  /-- What stands between the two is cut out as the inside of a group. -/
  cut : ∃ l, buf.lexemes[close]? = some l ∧ l.symbol = .closeParen ∧
    Lexeme.splitClose 0 (buf.part (index + 1) stop) =
      some (buf.part (index + 1) close, l, buf.part (close + 1) stop)
  /-- The two are a pair of the text, and the opening one is in no other. -/
  partner : ∃ l l', buf.lexemes[index]? = some l ∧ buf.lexemes[close]? = some l' ∧
    ∀ q, (l.position, q) ∈ ps ↔ q = l'.position

theorem drop_eq_part_append (hindex : index ≤ stop) (hstop : stop ≤ buf.lexemes.length) :
    buf.lexemes.drop index = buf.part index stop ++ buf.lexemes.drop stop := by
  have hlength : index ≤ (buf.lexemes.take stop).length := by
    rw [List.length_take]
    omega
  rw [part, ← List.drop_append_of_le_length hlength, List.take_append_drop]

theorem part_append_part (hstart : start ≤ index) (hindex : index ≤ stop) :
    buf.part start index ++ buf.part index stop = buf.part start stop := by
  have hdrop : buf.part index stop = (buf.part start stop).drop (index - start) := by
    rw [part, part, List.drop_drop, Nat.add_sub_cancel' hstart]
  rw [← take_part hindex, hdrop, List.take_append_drop]

theorem scan_of_ofText (h : ofText s = .ok buf) : Lexeme.scan 0 s.toList = .ok buf.lexemes := by
  obtain ⟨ls, hls, rfl⟩ := ok_of_map h
  exact hls

/-- The lexemes of a part are read off the text that they are written as. -/
theorem spells_written_part (h : ofText s = .ok buf) (start stop : Nat) :
    Spells (Lexeme.written (buf.part start stop)) (buf.part start stop) := by
  have hw := Lexeme.spells_scan (scan_of_ofText h)
  rw [← List.take_append_drop stop buf.lexemes, Spells.append_iff] at hw
  obtain ⟨w, -, -, hw, -⟩ := hw
  rw [← List.take_append_drop start (buf.lexemes.take stop), Spells.append_iff] at hw
  obtain ⟨-, v, -, -, hv⟩ := hw
  have hwritten := hv.eq_written
  rw [hwritten] at hv
  exact hv

/-- In balanced lexemes, what follows an opening parenthesis is cut where its group ends. -/
theorem exists_splitClose (hbuf : ofText s = .ok buf) {l : Lexeme} (hstart : start ≤ index)
    (hpart : buf.part index stop = l :: buf.part (index + 1) stop) (hindex : index < stop)
    (ho : l.symbol = .openParen) (hbalanced : Balanced (Lexeme.written (buf.part start stop))) :
    ∃ inside close rest,
      Lexeme.splitClose 0 (buf.part (index + 1) stop) = some (inside, close, rest) ∧
        Balanced (Lexeme.written inside) := by
  rw [← part_append_part hstart (Nat.le_of_lt hindex), hpart, Lexeme.written, List.map_append,
    List.map_cons, ho] at hbalanced
  obtain ⟨inside, rest, hafter, hinside⟩ := hbalanced.exists_close
  have hw := spells_written_part hbuf (index + 1) stop
  rw [Lexeme.written, hafter] at hw
  obtain ⟨ls, more, hls, hspells, hmore⟩ := hw.of_append
  obtain ⟨close, ls', rfl, hclose, -⟩ := hmore.of_cons
  have hcloses : close.symbol = .closeParen := (Option.some.inj hclose).symm
  refine ⟨ls, close, ls', ?_, ?_⟩
  · rw [hls, Lexeme.splitClose_append hspells (balanced_iff.1 hinside),
      Lexeme.splitClose_closeParen hcloses, Option.map_some]
    simp only [List.append_nil]
  · rwa [← hspells.eq_written]

/-- In a balanced range every opening parenthesis has its partner. -/
theorem exists_paired (hps : pairParentheses 0 [] s.toList = .ok ps) (hbuf : ofText s = .ok buf)
    {l : Lexeme} (hstart : start ≤ index) (hindex : index < stop)
    (hstop : stop ≤ buf.lexemes.length) (hbalanced : Balanced (Lexeme.written (buf.part start stop)))
    (hl : buf.lexemes[index]? = some l) (ho : l.symbol = .openParen) :
    ∃ close, buf.Paired ps stop index close := by
  have hpart : buf.part index stop = l :: buf.part (index + 1) stop :=
    part_eq_cons_iff.2 ⟨hindex, hl, rfl⟩
  obtain ⟨inside, l', rest, hs, hinside⟩ :=
    exists_splitClose hbuf hstart hpart hindex ho hbalanced
  have hcloses := Lexeme.close_of_splitClose hs
  obtain ⟨symbol, p⟩ := l
  obtain rfl : symbol = .openParen := ho
  obtain ⟨close, hwithin, hdelimits, hrest, hfind⟩ := exists_findClose_yields hpart hs
  refine ⟨close, hdelimits.lt, hwithin.2, ?_, ?_, ?_⟩
  · rw [hfind.outcome]
    rfl
  · exact ⟨l', hdelimits.closes, hcloses, by rw [hs, hdelimits.part, hrest]⟩
  · have hmem : (p, l'.position) ∈ ps := by
      have hdrop := drop_eq_part_append (Nat.le_of_lt hindex) hstop
      rw [hpart, Lexeme.append_of_splitClose hs] at hdrop
      have hscan := scan_of_ofText hbuf
      rw [← List.take_append_drop index buf.lexemes, hdrop, List.cons_append, List.append_assoc,
        List.cons_append] at hscan
      exact mem_pairs_of_scan hps hscan rfl hcloses hinside
    refine ⟨⟨.openParen, p⟩, l', hl, hdelimits.closes, fun q => ⟨fun hq => ?_, ?_⟩⟩
    · exact partner_unique hps hq hmem
    · rintro rfl
      exact hmem

end Buffer

/-! ## Reading a text -/

/-- What reading by index does with a text, given the pairs that its parentheses make and the buffer
that it is scanned into. -/
structure PartnersAgree (s : String) (ps : List (Nat × Nat)) (buf : Buffer) : Prop where
  /-- It comes to what reading comes to. -/
  outcome : buf.read.outcome = (Chain.parse s).mapError .fault
  /-- The ranges that it sets out to read are balanced, are not empty and lie in the buffer. -/
  ranges : ∀ start stop, .range start stop ∈ buf.read.entries →
    start < stop ∧ stop ≤ buf.lexemes.length ∧ Balanced (Lexeme.written (buf.part start stop))
  /-- In such a range each opening parenthesis has its partner. -/
  partners : ∀ start stop, .range start stop ∈ buf.read.entries →
    ∀ index l, start ≤ index → index < stop → buf.lexemes[index]? = some l →
      l.symbol = .openParen → ∃ close, buf.Paired ps stop index close
  /-- A term that it sets out to read starts in the range that is being read, and when it is a group
  its partner is in that range. -/
  terms : ∀ start stop index, .term start stop index ∈ buf.read.entries →
    start ≤ index ∧ index < stop ∧ ∀ l, buf.lexemes[index]? = some l → l.symbol = .openParen →
      ∃ close, buf.Paired ps stop index close
  /-- It sets out to read terms just where reading comes to some. -/
  visits : ∀ later, (∃ start stop index, .term start stop index ∈ buf.read.entries ∧
    buf.part index stop = later) ↔ Visits buf.lexemes later ∧ later ≠ []
  /-- Its count of open groups never goes below zero. -/
  counts : ∀ count, .depth count ∈ buf.read.entries → 0 ≤ count
  /-- It looks only at lexemes that the buffer has. -/
  looks : ∀ index, .look index ∈ buf.read.entries → index < buf.lexemes.length

namespace Buffer

open Transcript

variable {s : String} {buf : Buffer} {ps : List (Nat × Nat)}

theorem depthAfter_written (hps : pairParentheses 0 [] s.toList = .ok ps)
    (hbuf : ofText s = .ok buf) : depthAfter 0 (Lexeme.written buf.lexemes) = some 0 := by
  rw [← (Lexeme.spells_scan (scan_of_ofText hbuf)).eq_written, depthAfter_dropBlanks]
  exact balanced_iff.1 (balanced_of_pairParentheses hps)

theorem read_yields (hps : pairParentheses 0 [] s.toList = .ok ps) (hbuf : ofText s = .ok buf) :
    buf.read.Yields (Entry.Sound buf) ((Chain.parse s).mapError .fault) := by
  have hw := spells_written_part hbuf 0 buf.lexemes.length
  have hd := depthAfter_written hps hbuf
  rw [part_all] at hw
  rw [Chain.parse, hps, Lexeme.ofText, scan_of_ofText hbuf]
  dsimp only
  rw [read]
  split
  · rename_i hnil
    rw [hnil, parseTerms]
    exact yields_fail .emptyInput 0
  · rename_i hne
    have hts := terms_yields hw hd (Nat.le_refl 0) (Nat.le_refl buf.lexemes.length) (part_all buf)
      (.here buf.lexemes)
    have hrange : Entry.Sound buf (.range 0 buf.lexemes.length) := by
      refine ⟨List.length_pos_iff.2 hne, Nat.le_refl _, ?_⟩
      rw [part_all]
      exact .here buf.lexemes
    cases hus : parseTerms buf.lexemes with
    | error e =>
      rw [hus] at hts
      exact sequence_yields_error hrange hts
    | ok us =>
      rw [hus] at hts
      cases us with
      | nil =>
        have hnil : Lexeme.written buf.lexemes = [] := writtenTerms_of_parseTerms hw hus
        rw [hnil] at hw
        exact absurd (by simpa [Spells] using hw) hne
      | cons t ts => exact sequence_yields hrange hts rfl

/-- The count that finds the end of a group within a range and the stack that pairs all parentheses
of a text agree, in whatever range of a balanced text terms are read. -/
theorem partners_agree (s : String) (ps : List (Nat × Nat)) (buf : Buffer)
    (hps : pairParentheses 0 [] s.toList = .ok ps) (hbuf : ofText s = .ok buf) :
    PartnersAgree s ps buf := by
  have hread := read_yields hps hbuf
  have hw := spells_written_part hbuf 0 buf.lexemes.length
  have hd := depthAfter_written hps hbuf
  rw [part_all] at hw
  -- whatever reading comes to is balanced
  have hbalanced : ∀ {start stop}, Visits buf.lexemes (buf.part start stop) →
      Balanced (Lexeme.written (buf.part start stop)) := by
    intro start stop hvisits
    obtain ⟨v, hv, hdv⟩ := hvisits.exists_spells hw hd
    rw [← hv.eq_written]
    exact balanced_iff.2 hdv
  refine ⟨hread.outcome, ?_, ?_, ?_, ?_, fun _ hmem => hread.entries _ hmem,
    fun _ hmem => hread.entries _ hmem⟩
  · intro start stop hmem
    obtain ⟨hlt, hstop, hvisits⟩ := hread.entries _ hmem
    exact ⟨hlt, hstop, hbalanced hvisits⟩
  · intro start stop hmem index l hstart hindex hl ho
    obtain ⟨-, hstop, hvisits⟩ := hread.entries _ hmem
    exact exists_paired hps hbuf hstart hindex hstop (hbalanced hvisits) hl ho
  · intro start stop index hmem
    obtain ⟨hstart, hindex, hstop, hvisits⟩ := hread.entries _ hmem
    refine ⟨hstart, hindex, fun l hl ho => ?_⟩
    exact exists_paired hps hbuf (Nat.le_refl index) hindex hstop (hbalanced hvisits) hl ho
  · intro later
    constructor
    · rintro ⟨start, stop, index, hmem, rfl⟩
      obtain ⟨-, hindex, hstop, hvisits⟩ := hread.entries _ hmem
      refine ⟨hvisits, ?_⟩
      rw [Ne, part_eq_nil_iff hstop]
      omega
    · rintro ⟨hvisits, hlater⟩
      have hne : buf.lexemes ≠ [] := by
        intro hnil
        rw [hnil] at hvisits
        cases hvisits
        exact hlater rfl
      obtain ⟨start, stop, index, hmem, hpart⟩ := exists_term_of_visits hw hd hvisits hlater
        (Nat.le_refl 0) (Nat.le_refl buf.lexemes.length) (part_all buf) (.here buf.lexemes)
      refine ⟨start, stop, index, ?_, hpart⟩
      rw [read, if_neg hne]
      exact mem_sequence hmem

theorem partners_agree_nested :
    pairParentheses 0 [] "( (x))".toList = .ok [(2, 4), (0, 5)] ∧
      ofText "( (x))" = .ok ⟨[⟨.openParen, 0⟩, ⟨.openParen, 2⟩, ⟨.letter 'x', 3⟩,
        ⟨.closeParen, 4⟩, ⟨.closeParen, 5⟩], 6⟩ ∧
      PartnersAgree "( (x))" [(2, 4), (0, 5)] ⟨[⟨.openParen, 0⟩, ⟨.openParen, 2⟩,
        ⟨.letter 'x', 3⟩, ⟨.closeParen, 4⟩, ⟨.closeParen, 5⟩], 6⟩ := by
  have hps : pairParentheses 0 [] "( (x))".toList = .ok [(2, 4), (0, 5)] := by decide +kernel
  have hbuf : ofText "( (x))" = .ok ⟨[⟨.openParen, 0⟩, ⟨.openParen, 2⟩, ⟨.letter 'x', 3⟩,
      ⟨.closeParen, 4⟩, ⟨.closeParen, 5⟩], 6⟩ := by decide +kernel
  exact ⟨hps, hbuf, partners_agree _ _ _ hps hbuf⟩

/-- All that is done to read the group of one variable. -/
example : (read ⟨[⟨.openParen, 0⟩, ⟨.letter 'x', 1⟩, ⟨.closeParen, 2⟩], 3⟩).entries =
    [.range 0 3, .term 0 3 0, .look 0, .look 0, .depth 1, .look 1, .look 2, .depth 0,
      .look 1, .range 1 2, .term 1 2 1, .look 1] := by decide +kernel

end Buffer

end LambdaDiagram
