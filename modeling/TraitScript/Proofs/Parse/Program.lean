import TraitScript.Proofs.Parse.Recognized

/-!
# Programs

A list of tokens is parsed without an error if and only if it is derivable as a program, and then
the statements are those of its derivation up to ids. So no two derivations of the same tokens have
different trees.
-/

namespace TraitScript

namespace Parse

open Grammar

/-- Rounds only run out when all tokens are read. -/
theorem yields_declarationsFrom {r : Rules} (hr : r.Derive) (bound : Nat) :
    Yields (declarationsFrom r bound) fun l ts statements next =>
    Derives (.declarations l) ts (Stmt.withoutIdsAll statements) ∧
      (bound ≤ ts.length ∨ next = none) := by
  induction bound with
  | zero => exact yields_pure fun _ _ => ⟨.noDeclaration, .inl (Nat.zero_le _)⟩
  | succ bound ih =>
      refine yields_atEnd.bind fun ended => ?_
      split
      next hended =>
        refine yields_pure fun l next ts hts => ?_
        rw [hts.1]
        exact ⟨.noDeclaration, .inr (hts.2 hended)⟩
      next =>
        refine hr.declaration.bind fun found => ?_
        cases found with
        | none => exact ih.mono fun _ _ _ _ _ ts hts => by simp at hts
        | some stmt =>
            refine ih.bind fun rest => yields_pure fun l next us hus ts hts ts' hts' => ?_
            obtain ⟨_, hfound, hstmt⟩ := hts
            cases hfound
            rw [hts'.1, List.append_nil, List.nil_append]
            refine ⟨.moreDeclarations hstmt hus.1, ?_⟩
            obtain ⟨token, vs, rfl, -⟩ := hstmt.heads
            rw [List.length_append, List.length_cons]
            rcases hus.2 with hmany | hend
            · left
              omega
            · right
              exact hend

end Parse

open Parse

theorem program_of_parseProgram {scanned : Scanned} {firstId : Nat}
    (hlast : scanned.last.kind = .eof) (herrors : (parseProgram scanned firstId).errors = []) :
    Grammar.Program scanned.tokens (Stmt.withoutIdsAll (parseProgram scanned firstId).value) := by
  have hready : (State.initial scanned firstId).Ready := ⟨hlast, by simp [State.initial]⟩
  have hyields := yields_declarationsFrom (derive_rules (scanned.tokens.length + 1))
    scanned.tokens.length _ hready
  rw [parseProgram, program] at herrors ⊢
  split at hyields
  next statements s heq =>
    rw [heq] at herrors ⊢
    obtain ⟨-, ts, hrest, hderives, hall⟩ := hyields.2 herrors
    have htokens : scanned.tokens = ts ++ s.rest := hrest
    have hdone : s.rest = [] := by
      rcases hall with hmany | hend
      · rw [htokens, List.length_append] at hmany
        exact List.length_eq_zero_iff.1 (by omega)
      · exact List.head?_eq_none_iff.1 hend
    rw [htokens, hdone, List.append_nil]
    exact hderives
  next error s heq =>
    rw [heq] at herrors
    simp at herrors

theorem parseProgram_of_program {scanned : Scanned} {statements : List Stmt} (firstId : Nat)
    (h : Grammar.Program scanned.tokens statements) :
    (parseProgram scanned firstId).errors = [] ∧
      Stmt.withoutIdsAll (parseProgram scanned firstId).value = statements := by
  have htakes :=
    (recognized_of_derives h (scanned.tokens.length + 1) scanned.tokens.length
      (by omega) (by omega)).2
  obtain ⟨read, s, hread, -, herrors, -, htree⟩ :=
    htakes (.initial scanned firstId) [] (List.append_nil _).symm rfl
      (by simp [State.initial]) (by simp)
  rw [parseProgram, program, hread]
  exact ⟨herrors, htree⟩

/-- Parsing accepts exactly the programs of the grammar and returns the trees of their
derivations. -/
theorem parseProgram_accepts_grammar (scanned : Scanned) (firstId : Nat)
    (hlast : scanned.last.kind = .eof) :
    ((parseProgram scanned firstId).errors = [] ↔
      ∃ statements, Grammar.Program scanned.tokens statements) ∧
      ∀ statements, Grammar.Program scanned.tokens statements →
        Stmt.withoutIdsAll (parseProgram scanned firstId).value = statements := by
  refine ⟨⟨fun herrors => ?_, ?_⟩, fun statements h => (parseProgram_of_program firstId h).2⟩
  · exact ⟨_, program_of_parseProgram hlast herrors⟩
  · rintro ⟨statements, h⟩
    exact (parseProgram_of_program firstId h).1

def nestedSource : Scanned :=
  .ofSource ("while (a) if (b) if (c) break; " ++
    "else d.e = f = g(nil, fun (x) { return -x; }), h;").toUTF8.data.toList

/-- A jump in a function does not belong to the loop around the function. -/
def escapingSource : Scanned := .ofSource "while (a) fun () { break; };".toUTF8.data.toList

theorem parseProgram_accepts_grammar_nested :
    nestedSource.last.kind = .eof ∧ escapingSource.last.kind = .eof ∧
      (∃ statements, Grammar.Program nestedSource.tokens statements) ∧
      ¬ ∃ statements, Grammar.Program escapingSource.tokens statements := by
  have hnested : nestedSource.last.kind = .eof := by decide +kernel
  have hescaping : escapingSource.last.kind = .eof := by decide +kernel
  refine ⟨hnested, hescaping,
    (parseProgram_accepts_grammar nestedSource 0 hnested).1.1 (by decide +kernel), fun h => ?_⟩
  have hno : (parseProgram escapingSource 0).errors ≠ [] := by decide +kernel
  exact hno ((parseProgram_accepts_grammar escapingSource 0 hescaping).1.2 h)

end TraitScript
