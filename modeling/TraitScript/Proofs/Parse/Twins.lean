import TraitScript.Proofs.Parse.Termination

/-!
# Two sources read alike

Two scanned sources that look the same to the rules, token by token, are read as trees of the same
shape, with errors at corresponding tokens, and use up the same number of ids.
-/

namespace TraitScript

open Parse

/-- Sources that look the same to the rules. -/
structure Parse.Twin.Sources (w : Twin) (scanned scanned' : Scanned) : Prop where
  tokens : List.Forall₂ w.token scanned.tokens scanned'.tokens
  last : w.token scanned.last scanned'.last
  eof : scanned.last.kind = .eof

/-- What corresponds in two outcomes of parsing. -/
structure Parsed.Alike {α β : Type} (w : Twin) (R : α → β → Prop) (parsed : Parsed α)
    (parsed' : Parsed β) : Prop where
  value : R parsed.value parsed'.value
  errors : List.Forall₂ w.Errors parsed.errors parsed'.errors
  nextId : parsed'.nextId = parsed.nextId + w.shift
  least : w.least ≤ parsed.nextId

variable {w : Twin} {scanned scanned' : Scanned} {firstId : Nat}

theorem Parse.Twin.Sources.last_eof (h : w.Sources scanned scanned') : scanned'.last.kind = .eof :=
  (w.kind_eq h.last).trans h.eof

theorem Parse.Twin.Sources.states (h : w.Sources scanned scanned') (hleast : w.least ≤ firstId)
    (hearlier : w.earlier = []) :
    w.States (.initial scanned firstId) (.initial scanned' (firstId + w.shift)) :=
  ⟨h.tokens, h.last, h.eof, rfl, ⟨[], by rw [hearlier]; rfl, .nil⟩, rfl, hleast⟩

theorem parseProgram_alike (h : w.Sources scanned scanned') (hleast : w.least ≤ firstId)
    (hearlier : w.earlier = [] := by rfl) :
    Parsed.Alike w w.StmtLists (parseProgram scanned firstId)
      (parseProgram scanned' (firstId + w.shift)) := by
  have hrules :=
    parallel_rules (w := w) (n := scanned.tokens.length + 1) (scanned.tokens.length + 1)
  have hboth := parallel_declarationsFrom hrules (Nat.lt_succ_self _) (Nat.le_refl _)
    (Nat.le_refl _) _ _ (h.states hleast hearlier) rfl
  unfold parseProgram program
  rw [← h.tokens.length_eq]
  split at hboth
  next hleft hright =>
    rw [hleft, hright]
    exact ⟨hboth.2.2.2.1, hboth.1.errors.forall₂ hearlier, hboth.1.nextId, hboth.1.least⟩
  next hleft hright =>
    rw [hleft, hright]
    exact ⟨fun _ => .nil, List.rel_append (hboth.1.errors.forall₂ hearlier)
      (.cons hboth.2.2.2 .nil), hboth.1.nextId, hboth.1.least⟩
  next => exact hboth.elim

theorem parseExpression_alike (h : w.Sources scanned scanned') (hleast : w.least ≤ firstId)
    (hearlier : w.earlier = [] := by rfl) :
    Parsed.Alike w (Option.Rel w.Exprs) (parseExpression scanned firstId)
      (parseExpression scanned' (firstId + w.shift)) := by
  have hrules :=
    parallel_rules (w := w) (n := scanned.tokens.length + 1) (scanned.tokens.length + 1)
  have hboth := parallel_loneExpressionWith hrules _ _ (h.states hleast hearlier) rfl
  unfold parseExpression
  rw [← h.tokens.length_eq, loneExpression_eq]
  split at hboth
  next hleft hright =>
    rw [hleft, hright]
    exact ⟨.some hboth.2.2.2, hboth.1.errors.forall₂ hearlier, hboth.1.nextId, hboth.1.least⟩
  next hleft hright =>
    rw [hleft, hright]
    exact ⟨.none, List.rel_append (hboth.1.errors.forall₂ hearlier) (.cons hboth.2.2.2 .nil),
      hboth.1.nextId, hboth.1.least⟩
  next => exact hboth.elim

/-! ### Other ids -/

/-- The same source, read with ids that are ahead by a number. -/
def Parse.Twin.later (shift : Nat) : Twin where
  token t t' := t' = t
  kind_eq h := by rw [h]
  shift := shift
  least := 0
  trees :=
    { token := fun t t' => t' = t
      occurrence := fun _ id t id' t' => id' = id + shift ∧ t' = t
      receiver := fun _ id t id' t' => id' = id + shift ∧ t' = t
      declared := fun _ t t' => t' = t
      named := fun _ t t' => t' = t }
  of_token h := h
  of_name h _ _ := ⟨rfl, h⟩
  of_receiver h _ _ := ⟨rfl, h⟩
  of_declared h _ := h
  of_named h _ := h

theorem Parse.Twin.later_sources (shift : Nat) (heof : scanned.last.kind = .eof) :
    (Twin.later shift).Sources scanned scanned :=
  ⟨List.forall₂_same.2 fun _ _ => rfl, rfl, heof⟩

theorem Parse.Twin.eq_of_later_errors {shift : Nat} {errors errors' : List ParseError}
    (h : List.Forall₂ (Twin.later shift).Errors errors errors') :
    errors' = errors := by
  apply eq_of_forall₂ _ h
  rintro ⟨token, cause⟩ ⟨token', cause'⟩ ⟨hcause, htoken⟩
  cases hcause
  cases htoken
  rfl

end TraitScript
