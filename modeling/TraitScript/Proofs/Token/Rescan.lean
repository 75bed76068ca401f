import TraitScript.Proofs.Token.Pieces

/-!
# Tokens written out again

The text of a scanned token scans to that token wherever nothing or a blank comes next. So the
tokens of a source, with a space between one and the next, scan to themselves, whatever stood around
them before.
-/

namespace TraitScript

namespace Scan

abbrev space : UInt8 := 32

/-! ### Findings of a source -/

/-- What a scan finds, wherever it finds it. -/
def findings (source : Source) : List Finding := (scan source).map (·.finding)

section Findings

variable {first : UInt8} {front after source : List UInt8} {shape : Shape}

theorem findings_itemsAt (start line : Nat) (source : Source) :
    (itemsAt start line source).map (·.finding) = findings source := by
  have hmoved := itemsAt_moved start line 0 0 source
  have hstart := itemsAt_moved 0 1 0 0 source
  rw [Nat.zero_add, Nat.zero_add] at hmoved hstart
  rw [findings, scan_eq_itemsAt, hmoved, hstart, List.map_map, List.map_map]
  rfl

theorem findings_nil : findings [] = [.token .eof ""] := rfl

theorem findings_piece (h : munch first (front ++ after) = ⟨shape, front.length⟩) :
    findings (first :: (front ++ after)) =
      (findingOf shape (first :: front)).toList ++ findings after := by
  rw [findings, scan_eq_itemsAt, itemsAt_piece 0 1 h, List.map_append, findings_itemsAt, pieceItem]
  cases findingOf shape (first :: front) <;> rfl

theorem findings_blank (h : isBlank first) (after : List UInt8) :
    findings (first :: after) = findings after := by
  have hpiece : munch first ([] ++ after) = ⟨.trivia, ([] : List UInt8).length⟩ := if_pos h
  exact findings_piece hpiece

end Findings

/-! ### Tokens that stand alone -/

/-- That the lexeme of a token scans to the token wherever nothing or a blank comes next. -/
def StandsAlone (kind : Token.Kind) (lexeme : String) : Prop :=
  ∀ after, BlankAhead after →
    findings (Utf8.encode lexeme ++ after) = .token kind lexeme :: findings after

theorem standsAlone_of_mem_findings {kind : Token.Kind} {lexeme : String} {source : Source}
    (h : .token kind lexeme ∈ findings source) (hkind : kind ≠ .eof) : StandsAlone kind lexeme := by
  induction source using piece_induction with
  | nil =>
      rw [findings_nil, List.mem_singleton] at h
      cases h
      exact (hkind rfl).elim
  | piece first front after shape hpiece ih =>
      rw [findings_piece hpiece, List.mem_append, Option.mem_toList] at h
      rcases h with hhere | hlater
      · obtain ⟨hlexeme, hends⟩ := lexeme_of_findingOf hhere
        intro after' hblank
        have hexchanged : munch first (front ++ after') = ⟨shape, front.length⟩ :=
          munch_exchange hpiece (Nat.le_refl _) hblank fun _ => hends after'
        rw [hlexeme, List.cons_append, findings_piece hexchanged, hhere]
        rfl
      · exact ih hlater

/-! ### Tokens with spaces between them -/

/-- The texts of tokens, with a space between one and the next. -/
def spaced (tokens : List Token) : Source :=
  [space].intercalate (tokens.map fun token => Utf8.encode token.lexeme)

theorem findings_spaced {tokens : List Token}
    (h : ∀ token ∈ tokens, StandsAlone token.kind token.lexeme) :
    findings (spaced tokens) =
      tokens.map (fun token => .token token.kind token.lexeme) ++ [.token .eof ""] := by
  induction tokens with
  | nil => rfl
  | cons token rest ih =>
      obtain ⟨htoken, hrest⟩ := List.forall_mem_cons.1 h
      cases rest with
      | nil =>
          have hspaced : spaced [token] = Utf8.encode token.lexeme ++ [] := by
            simp [spaced]
          rw [hspaced, htoken [] blankAhead_nil]
          rfl
      | cons next others =>
          have hspaced : spaced (token :: next :: others) =
              Utf8.encode token.lexeme ++ space :: spaced (next :: others) := by
            simp [spaced]
          rw [hspaced, htoken _ (blankAhead_cons rfl _), findings_blank rfl, ih hrest]
          rfl

end Scan

open Scan

/-- What the findings say of the tokens and the faults among items. -/
theorem Scan.tokens_of_findings {items : List Item} {tokens : List Token}
    (h : items.map (·.finding) = tokens.map fun token => .token token.kind token.lexeme) :
    (items.filterMap Item.token?).map (fun token => (token.kind, token.lexeme)) =
      tokens.map (fun token => (token.kind, token.lexeme)) ∧
      items.filterMap Item.error? = [] := by
  induction items generalizing tokens with
  | nil =>
      obtain rfl := List.map_eq_nil_iff.1 h.symm
      exact ⟨rfl, rfl⟩
  | cons item items ih =>
      obtain ⟨token, others, rfl, htoken, hothers⟩ := List.map_eq_cons_iff.1 h.symm
      obtain ⟨htokens, herrors⟩ := ih hothers.symm
      have hfound : item.finding = .token token.kind token.lexeme := htoken.symm
      have htoken? : item.token? = some ⟨token.kind, token.lexeme, item.line⟩ := by
        rw [Item.token?, hfound]
      have herror? : item.error? = none := by rw [Item.error?, hfound]
      constructor
      · rw [List.filterMap_cons_some htoken?, List.map_cons, htokens, List.map_cons]
      · rw [List.filterMap_cons_none herror?, herrors]

/-- The tokens of a source are those found in it except its end, and each of them stands alone. -/
theorem Scanned.tokens_ofSource (source : Source) :
    (Scanned.ofSource source).tokens =
      ((scan source).filterMap Item.token?).filter (·.kind ≠ .eof) ∧
      ∀ token ∈ (Scanned.ofSource source).tokens, StandsAlone token.kind token.lexeme := by
  obtain ⟨front, line, hfront, -, hitems⟩ := (covers_scan source).exists_front
  have htokens : (Scanned.ofSource source).tokens = front.filterMap Item.token? := by
    rw [Scanned.ofSource, hfront, Scanned.ofItems_concat]
  have hfinding : ∀ token ∈ front.filterMap Item.token?, .token token.kind token.lexeme ∈
      findings source ∧ token.kind ≠ .eof := by
    intro token htoken
    obtain ⟨item, hitem, hsome⟩ := List.mem_filterMap.1 htoken
    obtain ⟨-, -, -, hdescribes⟩ := hitems item hitem
    unfold Item.token? at hsome
    split at hsome
    next kind lexeme hfound =>
      cases hsome
      refine ⟨List.mem_map.2 ⟨item, by simp [hfront, hitem], hfound⟩, ?_⟩
      rintro rfl
      rw [hfound] at hdescribes
      exact hdescribes.2
    next => cases hsome
  constructor
  · have hend : (endAt source.length line).token? = some (.endOfSource line) := rfl
    have hfilter : (front.filterMap Item.token?).filter (·.kind ≠ .eof) =
        front.filterMap Item.token? :=
      List.filter_eq_self.2 fun token htoken => decide_eq_true (hfinding token htoken).2
    rw [htokens, hfront, List.filterMap_append, List.filter_append, hfilter,
      List.filterMap_cons_some hend]
    simp [Token.endOfSource]
  · rw [htokens]
    exact fun token htoken =>
      standsAlone_of_mem_findings (hfinding token htoken).1 (hfinding token htoken).2

/-- The tokens of a source, written out again with a space between one and the next, scan to tokens
of the same kinds, lexemes and values in the same order and then to the end of the source, and to no
fault. So scanning what is written out from tokens changes nothing. -/
theorem rescanned_tokens (source : Source) :
    let tokens := (Scanned.ofSource source).tokens
    let again := Scanned.ofSource (spaced tokens)
    tokens = ((scan source).filterMap Item.token?).filter (·.kind ≠ .eof) ∧
    (scan (spaced tokens)).map (·.finding) =
      tokens.map (fun token => .token token.kind token.lexeme) ++ [.token .eof ""] ∧
    again.tokens.map (fun token => (token.kind, token.lexeme)) =
      tokens.map (fun token => (token.kind, token.lexeme)) ∧
    again.last.kind = .eof ∧ again.errors = [] := by
  intro tokens again
  obtain ⟨htokens, halone⟩ := Scanned.tokens_ofSource source
  have hfindings : (scan (spaced tokens)).map (·.finding) =
      tokens.map (fun token => .token token.kind token.lexeme) ++ [.token .eof ""] :=
    findings_spaced halone
  obtain ⟨front, stop, line, hscan⟩ := scan_eq_concat (spaced tokens)
  have hagain : again =
      ⟨front.filterMap Item.token?, .endOfSource line, front.filterMap Item.error?⟩ := by
    rw [← Scanned.ofItems_concat front stop line, ← hscan]
    rfl
  have hfront : front.map (·.finding) = tokens.map fun token => .token token.kind token.lexeme := by
    rw [hscan, List.map_append] at hfindings
    exact List.append_inj_left' hfindings rfl
  obtain ⟨hkinds, herrors⟩ := tokens_of_findings hfront
  refine ⟨htokens, hfindings, ?_, Scanned.last_ofSource _, ?_⟩
  · rw [hagain]
    exact hkinds
  · rw [hagain]
    exact herrors

end TraitScript
