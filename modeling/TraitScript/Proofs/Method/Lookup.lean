import TraitScript.Proofs.Scope.Member
import TraitScript.Value

/-!
# Looking methods up along the superclasses

A class stands at the head of the chain of its superclasses. Methods are looked up in the tables
along the chain, the nearest first. Class methods are looked up along the chain of the metaclass in
the same way. The two chains are parallel if the superclass of every metaclass is the metaclass of
the superclass; then class methods, too, are found on the nearest class that has them.
-/

namespace TraitScript

/-- The methods of one of the two kinds. -/
def Trait.table (t : Trait) : MethodKind → MethodTable
  | .ofInstance => t.methods
  | .ofClass => t.classMethods

/-- A metaclass and its superclasses, from the metaclass outward. -/
def Metaclass.chain : Metaclass → List Metaclass
  | ⟨name, superclass, methods⟩ =>
    ⟨name, superclass, methods⟩ ::
      match superclass with
      | some parent => parent.chain
      | none => []
termination_by structural c => c

theorem Metaclass.chain_eq (c : Metaclass) : c.chain = c :: (c.superclass.map chain).getD [] := by
  obtain ⟨_, superclass, _⟩ := c
  cases superclass <;> simp [chain]

namespace Class

/-- The class's own methods of one of the two kinds, those of its traits included. -/
def table (c : Class) : MethodKind → MethodTable
  | .ofInstance => c.methods
  | .ofClass => c.metaclass.methods

/-- A class and its superclasses, from the class outward. -/
def chain : Class → List Class
  | ⟨id, name, metaclass, superclass, methods⟩ =>
    ⟨id, name, metaclass, superclass, methods⟩ ::
      match superclass with
      | some parent => parent.chain
      | none => []
termination_by structural c => c

/-- The nearest method of a kind. -/
def findMember (c : Class) (kind : MethodKind) (name : String) : Option Closure :=
  match kind with
  | .ofInstance => c.findMethod name
  | .ofClass => c.findClassMethod name

/-- The superclass of the metaclass is the metaclass of the superclass, if there is one. -/
def Paralleled (c : Class) : Prop := c.metaclass.superclass = c.superclass.map (·.metaclass)

/-- The metaclasses along the chain form the chain of the metaclass. -/
def Parallel (c : Class) : Prop := ∀ d ∈ c.chain, d.Paralleled

theorem chain_eq (c : Class) : c.chain = c :: (c.superclass.map chain).getD [] := by
  obtain ⟨_, _, _, superclass, _⟩ := c
  cases superclass <;> simp [chain]

theorem self_mem_chain (c : Class) : c ∈ c.chain := by simp [chain_eq c]

/-- Induction along the superclasses. -/
theorem chain_induction {P : Class → Prop}
    (h : ∀ c : Class, (∀ parent, c.superclass = some parent → P parent) → P c) : ∀ c, P c
  | ⟨_, _, _, none, _⟩ => h _ fun _ hparent => nomatch hparent
  | ⟨_, _, _, some outer, _⟩ => h _ fun _ hparent =>
      Option.some.inj hparent ▸ chain_induction h outer
termination_by structural c => c

theorem mem_chain_trans {a b c : Class} (hab : b ∈ a.chain) (hbc : c ∈ b.chain) : c ∈ a.chain := by
  induction a using chain_induction with
  | h a ih =>
      rw [chain_eq] at hab ⊢
      rcases List.mem_cons.1 hab with rfl | houter
      · rw [chain_eq] at hbc
        exact hbc
      · cases hparent : a.superclass with
        | none => simp [hparent] at houter
        | some parent =>
            simp only [hparent, Option.map_some, Option.getD_some] at houter
            exact List.mem_cons_of_mem _ (ih parent hparent houter)

theorem superclass_mem_chain {c parent : Class} (h : c.superclass = some parent) :
    parent ∈ c.chain := by
  rw [chain_eq, h]
  exact List.mem_cons_of_mem _ parent.self_mem_chain

/-! ### Parallel chains -/

theorem Parallel.self {c : Class} (h : c.Parallel) : c.Paralleled := h c c.self_mem_chain

theorem Parallel.superclass {c parent : Class} (h : c.Parallel)
    (hparent : c.superclass = some parent) :
    parent.Parallel :=
  fun d hd => h d (mem_chain_trans (superclass_mem_chain hparent) hd)

theorem parallel_of_superclass {c : Class} (hself : c.Paralleled)
    (h : ∀ parent, c.superclass = some parent → parent.Parallel) : c.Parallel := by
  intro d hd
  rw [chain_eq] at hd
  rcases List.mem_cons.1 hd with rfl | houter
  · exact hself
  · cases hparent : c.superclass with
    | none => simp [hparent] at houter
    | some parent =>
        simp only [hparent, Option.map_some, Option.getD_some] at houter
        exact h parent hparent d houter

theorem Parallel.chain_metaclass {c : Class} (h : c.Parallel) :
    c.metaclass.chain = c.chain.map (·.metaclass) := by
  induction c using chain_induction with
  | h c ih =>
      rw [Metaclass.chain_eq, chain_eq c, h.self]
      cases hparent : c.superclass with
      | none => rfl
      | some parent => simp [ih parent hparent (h.superclass hparent)]

/-! ### Along the chain -/

theorem findMember_eq {c : Class} (h : c.Paralleled) (kind : MethodKind) (name : String) :
    c.findMember kind name =
      ((c.table kind).find? name).or (c.superclass.bind (·.findMember kind name)) := by
  cases kind with
  | ofInstance =>
      rw [findMember, findMethod_eq, table]
      cases c.methods.find? name <;> rfl
  | ofClass =>
      rw [findMember, findClassMethod, Metaclass.findMethod_eq, table, h]
      cases c.metaclass.methods.find? name <;> cases c.superclass <;> rfl

/-- The nearest table on the chain that has the name decides. -/
theorem Parallel.findMember_eq_findSome? {c : Class} (h : c.Parallel) (kind : MethodKind)
    (name : String) :
    c.findMember kind name = c.chain.findSome? fun d => (d.table kind).find? name := by
  induction c using chain_induction with
  | h c ih =>
      rw [findMember_eq h.self, chain_eq, List.findSome?_cons]
      cases (c.table kind).find? name with
      | some method => rfl
      | none =>
          cases hparent : c.superclass with
          | none => rfl
          | some parent => exact ih parent hparent (h.superclass hparent)

/-- What is found was in a table on the chain. -/
theorem Parallel.mem_chain_of_findMember {c : Class} (h : c.Parallel) {kind : MethodKind}
    {name : String} {method : Closure} (hfind : c.findMember kind name = some method) :
    ∃ d ∈ c.chain, (d.table kind).find? name = some method := by
  rw [h.findMember_eq_findSome?] at hfind
  exact List.exists_of_findSome?_eq_some hfind

end Class
end TraitScript
