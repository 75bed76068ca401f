import Mathlib.Data.List.Sort
import Mathlib.Data.Prod.Lex
import Mathlib.Data.String.Basic
import TraitScript.Proofs.Table.Distinct
import TraitScript.Resolve.Walk

/-!
# What a closing scope reports

When a scope closes, the locals that something should have read and nothing has are reported by line
and by name. That depends only on what is found in the table of the scope, not on the order of its
entries.
-/

namespace TraitScript

/-- On an earlier line, or on the same line with a smaller name. -/
def Token.Before (a b : Token) : Prop := a.line < b.line ∨ a.line = b.line ∧ a.lexeme < b.lexeme

/-- The line and the name of a token, in the order in which tokens are reported. -/
def Token.rank (t : Token) : Nat ×ₗ String := toLex (t.line, t.lexeme)

theorem Token.rank_lt_iff {a b : Token} : a.rank < b.rank ↔ a.Before b := Prod.Lex.toLex_lt_toLex

theorem Token.lexeme_of_rank {a b : Token} (h : a.rank = b.rank) : a.lexeme = b.lexeme :=
  (Prod.mk.inj (toLex.injective h)).2

namespace Resolve

open State

/-! ### Sorting -/

theorem precedes_iff {a b : Token} : precedes a b = true ↔ a.rank < b.rank := by
  rw [Token.rank_lt_iff, Token.Before]
  simp [precedes]

theorem insertSorted_eq (token : Token) (tokens : List Token) :
    insertSorted token tokens = tokens.orderedInsert (·.rank ≤ ·.rank) token := by
  induction tokens with
  | nil => rfl
  | cons other rest ih =>
      rw [insertSorted, List.orderedInsert_cons, ih]
      by_cases hle : token.rank ≤ other.rank
      · rw [if_pos hle, if_neg (mt precedes_iff.1 (not_lt.2 hle))]
      · rw [if_neg hle, if_pos (precedes_iff.2 (not_le.1 hle))]

theorem sortTokens_eq (tokens : List Token) :
    sortTokens tokens = tokens.insertionSort (·.rank ≤ ·.rank) := by
  induction tokens with
  | nil => rfl
  | cons token rest ih => rw [sortTokens, insertSorted_eq, ih, List.insertionSort_cons]

theorem perm_sortTokens (tokens : List Token) : (sortTokens tokens).Perm tokens := by
  rw [sortTokens_eq]
  exact List.perm_insertionSort _ tokens

theorem pairwise_rank_sortTokens (tokens : List Token) :
    (sortTokens tokens).Pairwise (·.rank ≤ ·.rank) := by
  have : Std.Total fun a b : Token => a.rank ≤ b.rank := ⟨fun a b => le_total a.rank b.rank⟩
  have : IsTrans Token fun a b => a.rank ≤ b.rank := ⟨fun _ _ _ => le_trans⟩
  rw [sortTokens_eq]
  exact List.pairwise_insertionSort _ tokens

/-- No two tokens of different names have the same place in the order. -/
theorem pairwise_before_sortTokens {tokens : List Token} (hnodup : (tokens.map (·.lexeme)).Nodup) :
    (sortTokens tokens).Pairwise Token.Before := by
  have hnames : ((sortTokens tokens).map (·.lexeme)).Nodup :=
    ((perm_sortTokens tokens).map _).nodup_iff.2 hnodup
  refine ((pairwise_rank_sortTokens tokens).and (List.pairwise_map.1 hnames)).imp
    fun ⟨hle, hne⟩ => ?_
  exact Token.rank_lt_iff.1 (lt_of_le_of_ne hle fun heq => hne (Token.lexeme_of_rank heq))

theorem sortTokens_eq_of_perm {tokens tokens' : List Token} (h : tokens.Perm tokens')
    (hnodup : (tokens.map (·.lexeme)).Nodup) :
    sortTokens tokens = sortTokens tokens' := by
  have hperm : (sortTokens tokens).Perm (sortTokens tokens') :=
    (perm_sortTokens tokens).trans (h.trans (perm_sortTokens tokens').symm)
  refine List.Perm.eq_of_pairwise (fun a b ha hb hab hba => ?_) (pairwise_rank_sortTokens tokens)
    (pairwise_rank_sortTokens tokens') hperm
  have ha' : a ∈ tokens := (perm_sortTokens tokens).mem_iff.1 ha
  have hb' : b ∈ tokens := h.mem_iff.2 ((perm_sortTokens tokens').mem_iff.1 hb)
  exact List.inj_on_of_nodup_map hnodup ha' hb' (Token.lexeme_of_rank (le_antisymm hab hba))

/-! ### Unused locals -/

/-- The token at which a local would be reported now. -/
def owed (entry : Local) : Option Token :=
  if entry.mustBeRead && entry.progress != .read then entry.token else none

theorem unused_eq (scope : Scope) :
    unused scope = scope.entries.filterMap fun entry => owed entry.2 := rfl

/-- Some tokens are those at which the locals of a scope would be reported. -/
structure Owes (scope : Scope) (tokens : List Token) : Prop where
  distinct : scope.Distinct
  nodup : (tokens.map (·.lexeme)).Nodup
  owed_iff : ∀ name t, (scope.find? name).bind owed = some t ↔ t ∈ tokens ∧ t.lexeme = name

/-- The order of the entries does not matter. -/
theorem Owes.of_perm {scope : Scope} {tokens : List Token} (h : Owes scope tokens)
    {entries : List (String × Local)} (hperm : entries.Perm scope.entries) :
    Owes ⟨entries⟩ tokens where
  distinct := h.distinct.of_perm hperm
  nodup := h.nodup
  owed_iff name t := by
    rw [h.distinct.find?_of_perm hperm]
    exact h.owed_iff name t

theorem Owes.mem_unused {scope : Scope} {tokens : List Token} (h : Owes scope tokens) (t : Token) :
    t ∈ unused scope ↔ t ∈ tokens := by
  rw [unused_eq, List.mem_filterMap]
  constructor
  · rintro ⟨⟨name, entry⟩, hentry, howed⟩
    have hfound : scope.find? name = some entry := h.distinct.find?_eq_some_iff.2 hentry
    exact ((h.owed_iff name t).1 (by rw [hfound]; exact howed)).1
  · intro ht
    obtain ⟨entry, hentry, howed⟩ := Option.bind_eq_some_iff.1 ((h.owed_iff t.lexeme t).2 ⟨ht, rfl⟩)
    exact ⟨(t.lexeme, entry), h.distinct.find?_eq_some_iff.1 hentry, howed⟩

/-- Every entry has a name of its own, so it is reported at a token of its own. -/
theorem nodup_filterMap_owed {entries : List (String × Local)}
    (hnames : (entries.map Prod.fst).Nodup)
    (hkeys : ∀ entry ∈ entries, ∀ t, owed entry.2 = some t → t.lexeme = entry.1) :
    ((entries.filterMap fun entry => owed entry.2).map (·.lexeme)).Nodup := by
  suffices hsublist : ((entries.filterMap fun entry => owed entry.2).map (·.lexeme)).Sublist
      (entries.map Prod.fst) from hsublist.nodup hnames
  clear hnames
  induction entries with
  | nil => exact .slnil
  | cons entry rest ih =>
      obtain ⟨hkey, hrest⟩ := List.forall_mem_cons.1 hkeys
      rw [List.filterMap_cons, List.map_cons]
      cases howed : owed entry.2 with
      | none => exact (ih hrest).cons entry.1
      | some t =>
          rw [List.map_cons, hkey t howed]
          exact (ih hrest).cons_cons entry.1

theorem Owes.perm_unused {scope : Scope} {tokens : List Token} (h : Owes scope tokens) :
    (unused scope).Perm tokens := by
  have hunused : ((unused scope).map (·.lexeme)).Nodup := by
    refine nodup_filterMap_owed h.distinct fun entry hentry t howed => ?_
    have hfound : scope.find? entry.1 = some entry.2 := h.distinct.find?_eq_some_iff.2 hentry
    exact ((h.owed_iff entry.1 t).1 (by rw [hfound]; exact howed)).2
  exact (List.perm_ext_iff_of_nodup hunused.of_map h.nodup.of_map).2 h.mem_unused

theorem errors_reportUnused (tokens : List Token) (s : State) :
    (reportUnused tokens s).errors = s.errors ++ tokens.map fun t =>
      ⟨.unusedLocal t.lexeme, t⟩ := by
  induction tokens generalizing s with
  | nil => simp [reportUnused]
  | cons token rest ih =>
      refine (ih (s.error token (.unusedLocal token.lexeme))).trans ?_
      simp [State.error]

/-- Closing a scope reports its unused locals, sorted, after all other errors. -/
theorem Owes.errors_endScope {scope : Scope} {tokens : List Token} (h : Owes scope tokens)
    (s : State) (outer : List Scope) :
    ({ s with scopes := scope :: outer } : State).endScope.errors =
      s.errors ++ (sortTokens tokens).map fun t => ⟨.unusedLocal t.lexeme, t⟩ := by
  have hsorted : sortTokens tokens = sortTokens (unused scope) :=
    sortTokens_eq_of_perm h.perm_unused.symm h.nodup
  rw [hsorted]
  exact errors_reportUnused _ _

end Resolve
end TraitScript
