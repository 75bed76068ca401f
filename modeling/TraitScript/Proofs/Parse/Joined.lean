import TraitScript.Proofs.Parse.Program
import TraitScript.Proofs.Parse.Twins
import TraitScript.Proofs.Token.Joined
import TraitScript.Proofs.Tree.Elsewhere

/-!
# Parsing lines that are joined

Lines that are programs when taken alone make up one program when they are joined by line breaks. It
has the statements of the lines one after another, with other lines and ids: the tokens of the lines
are the same further down, and derivations of programs can be put one after another.
-/

namespace TraitScript

open Parse Scan

def joined (sources : List Source) : Source := [newline].intercalate sources

theorem joined_cons_cons (first second : Source) (rest : List Source) :
    joined (first :: second :: rest) = first ++ newline :: joined (second :: rest) := by
  simp [joined]

/-! ### Tokens -/

theorem Token.same_below {t t' : Token} (h : t.Same t') (lines : Nat) : t.Same (t'.below lines) := h

/-- The tokens of joined sources, source by source. -/
theorem Scanned.ofSource_joined {sources : List Source}
    (hnone : ∀ source ∈ sources, (Scanned.ofSource source).errors = []) :
    (Scanned.ofSource (joined sources)).errors = [] ∧ ∃ chunks : List (List Token),
      (Scanned.ofSource (joined sources)).tokens = chunks.flatten ∧
      List.Forall₂ (fun source chunk => List.Forall₂ Token.Same (Scanned.ofSource source).tokens
        chunk) sources chunks := by
  induction sources with
  | nil => exact ⟨rfl, [], rfl, .nil⟩
  | cons first rest ih =>
      have hfirst := hnone first (List.mem_cons_self ..)
      have hsame : List.Forall₂ Token.Same (Scanned.ofSource first).tokens
          (Scanned.ofSource first).tokens := List.forall₂_same.2 fun _ _ => ⟨rfl, rfl⟩
      cases rest with
      | nil =>
          have hone : joined [first] = first := by simp [joined]
          rw [hone]
          exact ⟨hfirst, [(Scanned.ofSource first).tokens], by simp, .cons hsame .nil⟩
      | cons second rest =>
          obtain ⟨herrors, chunks, htokens, hchunks⟩ :=
            ih fun source hsource => hnone source (List.mem_cons_of_mem _ hsource)
          rw [joined_cons_cons, Scanned.ofSource_append hfirst herrors]
          refine ⟨rfl, (Scanned.ofSource first).tokens ::
            chunks.map (·.map (·.below (first.count newline + 1))), ?_, .cons hsame ?_⟩
          · rw [htokens, List.flatten_cons, List.map_flatten]
          · apply List.forall₂_map_right_iff.2
            apply hchunks.imp
            intro source chunk hchunk
            apply List.forall₂_map_right_iff.2
            exact hchunk.imp fun _ _ h => Token.same_below h _

/-! ### Trees -/

/-- The same text read elsewhere. -/
def Parse.Twin.elsewhere (shift : Nat) : Twin where
  token := Token.Same
  kind_eq h := h.1
  shift := shift
  least := 0
  trees := .elsewhere
  of_token h := h
  of_name h _ _ := h
  of_receiver h _ _ := h
  of_declared h _ := h
  of_named h _ := h

theorem Parse.Twin.noErrors {w : Twin} {errors errors' : List ParseError}
    (h : List.Forall₂ w.Errors errors errors') (hnone : errors = []) : errors' = [] := by
  subst hnone
  cases h
  rfl

/-- A program read with other ids. -/
theorem parseProgram_elsewhere (source : Source) (firstId : Nat) :
    Parsed.Alike (.elsewhere firstId) (Twin.elsewhere firstId).StmtLists
      (parseProgram (.ofSource source) 0) (parseProgram (.ofSource source) firstId) := by
  have hsources : (Twin.elsewhere firstId).Sources (.ofSource source) (.ofSource source) :=
    ⟨List.forall₂_same.2 fun _ _ => ⟨rfl, rfl⟩, ⟨rfl, rfl⟩, Scanned.last_ofSource source⟩
  have hboth := parseProgram_alike hsources (Nat.zero_le 0)
  rw [Nat.zero_add] at hboth
  exact hboth

theorem Grammar.Program.append {ts us : List Token} {first second : List Stmt}
    (h : Grammar.Program ts first) (h' : Grammar.Program us second) :
    Grammar.Program (ts ++ us) (first ++ second) := by
  induction first generalizing ts with
  | nil =>
      cases h
      exact h'
  | cons stmt rest ih =>
      cases h with
      | moreDeclarations hstmt hrest =>
          rw [List.append_assoc]
          exact .moreDeclarations hstmt (ih hrest)

theorem Grammar.Program.flatten {chunks : List (List Token)} {programs : List (List Stmt)}
    (h : List.Forall₂ Grammar.Program chunks programs) :
    Grammar.Program chunks.flatten programs.flatten := by
  induction h with
  | nil => exact .noDeclaration
  | cons hfirst _ ih => exact hfirst.append ih

theorem forall₂_comp {α β γ : Type} {R : α → β → Prop} {S : β → γ → Prop} {T : α → γ → Prop}
    {as : List α} {bs : List β} {cs : List γ} (h : List.Forall₂ R as bs) (h' : List.Forall₂ S bs cs)
    (himp : ∀ a b c, R a b → S b c → T a c) : List.Forall₂ T as cs := by
  induction h generalizing cs with
  | nil =>
      cases h'
      exact .nil
  | cons hab _ ih =>
      cases h' with
      | cons hbc hrest => exact .cons (himp _ _ _ hab hbc) (ih hrest)

theorem Stmt.withoutIdsAll_eq_append {statements first second : List Stmt}
    (h : Stmt.withoutIdsAll statements = first ++ second) :
    ∃ front back, statements = front ++ back ∧ Stmt.withoutIdsAll front = first ∧
      Stmt.withoutIdsAll back = second := by
  induction first generalizing statements with
  | nil => exact ⟨[], statements, rfl, rfl, h⟩
  | cons stmt rest ih =>
      cases statements with
      | nil => cases h
      | cons head tail =>
          obtain ⟨hhead, htail⟩ := List.cons.inj h
          obtain ⟨front, back, rfl, hfront, hback⟩ := ih htail
          exact ⟨head :: front, back, rfl, by rw [Stmt.withoutIdsAll, hhead, hfront], hback⟩

theorem Stmt.withoutIdsAll_eq_flatten {statements : List Stmt} {programs : List (List Stmt)}
    (h : Stmt.withoutIdsAll statements = programs.flatten) :
    ∃ pieces : List (List Stmt), statements = pieces.flatten ∧
      List.Forall₂ (fun program piece => Stmt.withoutIdsAll piece = program) programs pieces := by
  induction programs generalizing statements with
  | nil =>
      cases statements with
      | nil => exact ⟨[], rfl, .nil⟩
      | cons head tail => cases h
  | cons program rest ih =>
      obtain ⟨front, back, rfl, hfront, hback⟩ := Stmt.withoutIdsAll_eq_append h
      obtain ⟨pieces, rfl, hpieces⟩ := ih hback
      exact ⟨front :: pieces, rfl, .cons hfront hpieces⟩

/-- The tokens of a program at another place derive the same program up to lines. -/
theorem program_elsewhere {source : Source} {chunk : List Token}
    (hnone : (parseProgram (.ofSource source) 0).errors = [])
    (hchunk : List.Forall₂ Token.Same (Scanned.ofSource source).tokens chunk) :
    ∃ program, Grammar.Program chunk program ∧ ∀ firstId piece, Stmt.withoutIdsAll piece = program →
      ∀ marks, Stmt.AlikeAll .elsewhere marks
        (parseProgram (.ofSource source) firstId).value piece := by
  have hsources : (Twin.elsewhere 0).Sources (.ofSource source)
      ⟨chunk, (Scanned.ofSource source).last, []⟩ :=
    ⟨hchunk, ⟨rfl, rfl⟩, Scanned.last_ofSource source⟩
  have hfirst := parseProgram_alike hsources (Nat.zero_le 0)
  have hderived := program_of_parseProgram hsources.last_eof (Twin.noErrors hfirst.errors hnone)
  refine ⟨_, hderived, fun firstId piece hpiece marks => ?_⟩
  have hboth := parseProgram_alike hsources (Nat.zero_le firstId)
  -- The tokens derive one program only, so for all ids their trees are the same.
  have htree : Stmt.withoutIdsAll
      (parseProgram ⟨chunk, (Scanned.ofSource source).last, []⟩ firstId).value = _ :=
    (parseProgram_of_program firstId hderived).2
  exact (hboth.value marks).of_withoutIds (hpiece.trans htree.symm)

theorem programs_elsewhere {sources : List Source} {chunks : List (List Token)}
    (hparsed : ∀ source ∈ sources, (parseProgram (.ofSource source) 0).errors = [])
    (hchunks : List.Forall₂
      (fun source chunk => List.Forall₂ Token.Same (Scanned.ofSource source).tokens chunk)
        sources chunks) :
    ∃ programs : List (List Stmt), List.Forall₂ Grammar.Program chunks programs ∧
      List.Forall₂ (fun source program => ∀ firstId piece, Stmt.withoutIdsAll piece = program →
        ∀ marks, Stmt.AlikeAll .elsewhere marks (parseProgram (.ofSource source) firstId).value
          piece) sources programs := by
  induction hchunks with
  | nil => exact ⟨[], .nil, .nil⟩
  | @cons source chunk _ _ hchunk _ ih =>
      obtain ⟨program, hderived, halike⟩ :=
        program_elsewhere (hparsed source (List.mem_cons_self ..)) hchunk
      obtain ⟨programs, hrest, hrest'⟩ :=
        ih fun source hsource => hparsed source (List.mem_cons_of_mem _ hsource)
      exact ⟨program :: programs, .cons hderived hrest, .cons halike hrest'⟩

/-- Joined programs are read as one program, which is made up of the statements of each. -/
theorem parseProgram_joined (firstId : Nat) {sources : List Source}
    (hscanned : ∀ source ∈ sources, (Scanned.ofSource source).errors = [])
    (hparsed : ∀ source ∈ sources, (parseProgram (.ofSource source) 0).errors = []) :
    (parseProgram (.ofSource (joined sources)) firstId).errors = [] ∧
      ∃ pieces : List (List Stmt), (parseProgram (.ofSource (joined sources)) firstId).value =
        pieces.flatten ∧
        List.Forall₂ (fun source piece => ∀ firstId marks, Stmt.AlikeAll .elsewhere marks
          (parseProgram (.ofSource source) firstId).value piece) sources pieces := by
  obtain ⟨-, chunks, htokens, hchunks⟩ := Scanned.ofSource_joined hscanned
  obtain ⟨programs, hderived, halike⟩ := programs_elsewhere hparsed hchunks
  have hwhole := Grammar.Program.flatten hderived
  rw [← htokens] at hwhole
  obtain ⟨hnone, htrees⟩ := parseProgram_of_program firstId hwhole
  obtain ⟨pieces, hpieces, hsame⟩ := Stmt.withoutIdsAll_eq_flatten htrees
  refine ⟨hnone, pieces, hpieces, ?_⟩
  apply forall₂_comp halike hsame
  intro source program piece hprogram hpiece firstId marks
  exact hprogram firstId piece hpiece marks

end TraitScript
