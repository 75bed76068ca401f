import TraitScript.Proofs.Paired.Session
import TraitScript.Proofs.Parse.Twins
import TraitScript.Proofs.Token.Joined

/-!
# Where errors of a run are located

A source that is read beside itself yields two equal trees, and what corresponds in them are tokens
of the source. Run beside itself, a program can only fail at lines that correspond, so an error that
has a line has that of a token.
-/

namespace TraitScript

open Parse

/-- A tree beside itself, made of given tokens. -/
def Correspondence.among (tokens : List Token) : Correspondence where
  token t t' := t' = t ∧ t ∈ tokens
  occurrence _ id t id' t' := id' = id ∧ t' = t ∧ t ∈ tokens
  receiver _ id t id' t' := id' = id ∧ t' = t ∧ t ∈ tokens
  declared _ t t' := t' = t ∧ t ∈ tokens
  named _ t t' := t' = t ∧ t ∈ tokens

def Parse.Twin.among (tokens : List Token) : Twin where
  token t t' := t' = t ∧ t ∈ tokens
  kind_eq h := by rw [h.1]
  shift := 0
  least := 0
  trees := .among tokens
  of_token h := h
  of_name h _ _ := ⟨rfl, h⟩
  of_receiver h _ _ := ⟨rfl, h⟩
  of_declared h _ := h
  of_named h _ := h

theorem Parse.Twin.among_sources {scanned : Scanned} (heof : scanned.last.kind = .eof) :
    (Twin.among scanned.all).Sources scanned scanned where
  tokens := List.forall₂_same.2 fun _ ht => ⟨rfl, List.mem_append_left _ ht⟩
  last := ⟨rfl, List.mem_append_right _ (List.mem_singleton_self _)⟩
  eof := heof

/-- A program is made of the tokens of its source, also if it has errors. -/
theorem parseProgram_among (source : Source) (firstId : Nat) :
    Stmt.AlikeAll (.among (Scanned.ofSource source).all) []
      (parseProgram (.ofSource source) firstId).value
      (parseProgram (.ofSource source) firstId).value :=
  (parseProgram_alike (Twin.among_sources (Scanned.last_ofSource source))
    (Nat.zero_le firstId)).value []

/-- A run beside itself. -/
def Pairing.among (tokens : List Token) (distances : Nat → Option Nat) : Pairing where
  trees := .among tokens
  rename _ name := name
  left := distances
  right := distances
  lines line line' := line' = line ∧ ∃ token ∈ tokens, token.line = line
  said name name' := name' = name
  earlier := ""
  rename_false _ := rfl
  rename_this _ := rfl
  rename_super _ := rfl
  said_this := rfl
  said_super := rfl
  injective _ := Function.injective_id
  of_token := by
    rintro _ _ ⟨rfl, ht⟩
    exact ⟨rfl, rfl, rfl, _, ht, rfl⟩
  of_occurrence := by
    rintro _ _ _ _ _ ⟨rfl, rfl, ht⟩
    exact ⟨rfl, rfl, ⟨rfl, _, ht, rfl⟩, rfl⟩
  of_receiver := by
    rintro _ _ _ _ _ ⟨rfl, rfl, ht⟩
    exact ⟨rfl, rfl, ⟨rfl, _, ht, rfl⟩, rfl⟩
  of_declared h := by rw [h.1]
  of_named := by
    rintro _ _ _ ⟨rfl, ht⟩
    exact ⟨rfl, rfl, rfl, _, ht, rfl⟩

theorem Stop.Alike.line_among {tokens : List Token} {distances : Nat → Option Nat}
    {error : RuntimeError} {stop : Stop}
    (h : (Stop.error error).Alike (.among tokens distances) stop) {line : Nat}
    (hline : error.line = some line) :
    ∃ token ∈ tokens, token.line = line := by
  cases h with
  | error _ hlines =>
      cases hline
      cases hlines with
      | some h => exact h.2

/-- A program that is run from the start fails at lines of the tokens it is made of. -/
theorem line_of_interpret {natives : List Native} (hnatives : ∀ native ∈ natives, native.Plain)
    (world : World) (fuel : Nat) {tokens : List Token} {statements : List Stmt}
    (halike : Stmt.AlikeAll (.among tokens) [] statements statements)
    (distances : Std.TreeMap Nat Nat) {error : RuntimeError} {m : Machine}
    (hrun : Eval.interpret (Eval.evaluators fuel) statements { Machine.start natives world with
      distances := distances, output := "" } = .error (.error error) m)
    {line : Nat} (hline : error.line = some line) : ∃ token ∈ tokens, token.line = line := by
  let P : Pairing := .among tokens fun id => distances[id]?
  have hmachines : Machines P Layout.start { Machine.start natives world with
    distances := distances, output := "" }
      { Machine.start natives world with distances := distances, output := "" } :=
    (machines_start P hnatives world).widen P.blank_below ⟨fun _ => rfl, fun _ => rfl⟩ rfl
  rcases interpret_alike fuel halike hmachines (chain_start natives world) with
    ⟨_, _, _, hleft, -⟩ | ⟨_, stop, stop', _, _, hleft, -, -, -, hstop⟩
  · rw [hleft] at hrun
    cases hrun
  · rw [hleft] at hrun
    cases hrun
    exact hstop.line_among hline

end TraitScript
