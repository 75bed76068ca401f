import TraitScript.Eval.Class
import TraitScript.Proofs.Eval.Chain
import TraitScript.Proofs.Eval.Watch
import TraitScript.Proofs.Method.Lookup

/-!
# What declarations put into method tables

A declaration first gathers the methods of the traits it uses, no two of which may have a name in
common, and then puts its own methods over them. Evaluating the superclass and the traits may run
any code; all that follows is a function of the machine and is computed here.
-/

namespace TraitScript

/-- The last of some declarations that has a name. -/
def FunctionDecl.lastNamed (name : String) (decls : List FunctionDecl) : Option FunctionDecl :=
  (decls.filter (·.key = name)).getLast?

theorem FunctionDecl.lastNamed_cons (name : String) (decl : FunctionDecl)
    (rest : List FunctionDecl) :
    lastNamed name (decl :: rest) =
      (lastNamed name rest).or (if decl.key = name then some decl else none) := by
  by_cases hkey : decl.key = name
  · simp [lastNamed, hkey, List.getLast?_cons]
  · simp [lastNamed, hkey]

theorem FunctionDecl.lastNamed_eq_none {name : String} {decls : List FunctionDecl} :
    lastNamed name decls = none ↔ ∀ decl ∈ decls, decl.key ≠ name := by
  simp [lastNamed]

/-- Only methods of instances can be initializers, and only by their name. -/
def MethodKind.isInitializer : MethodKind → String → Bool
  | .ofInstance => Eval.isInitializerName
  | .ofClass => fun _ => false

/-- The error for a method that is already there. -/
def MethodKind.conflict : MethodKind → String → RuntimeError.Cause
  | .ofInstance => .methodConflict
  | .ofClass => .classMethodConflict

/-- One table holds what two others hold, which have no name in common. -/
structure MethodTable.Joins (first second joined : MethodTable) : Prop where
  apart : ∀ name, Table.find? first name = none ∨ Table.find? second name = none
  find? : ∀ name, Table.find? joined name = (Table.find? first name).or (Table.find? second name)

/-- In what order the second table is walked does not show in the joined one. -/
theorem MethodTable.Joins.of_arrange {first second joined : MethodTable} {rank : String → Nat}
    (h : MethodTable.Joins first (Table.arrange rank second) joined) :
    MethodTable.Joins first second joined where
  apart name := by
    rw [← Table.find?_arrange rank second]
    exact h.apart name
  find? name := by
    rw [h.find?, Table.find?_arrange]

/-- How often a table and the names of own methods provide a name. -/
def MethodTable.provisions (table : MethodTable) (decls : List FunctionDecl) (name : String) :
    Nat :=
  (Table.contains table name).toNat + (decls.map FunctionDecl.key).count name

/-- A new own method is counted in the table once it is there. -/
theorem MethodTable.provisions_cons {table : MethodTable} {decl : FunctionDecl}
    (hnew : ¬ Table.contains table decl.key = true) (method : Closure) (rest : List FunctionDecl)
    (name : String) :
    MethodTable.provisions (Table.insert table decl.key method) rest name =
      MethodTable.provisions table (decl :: rest) name := by
  rw [provisions, provisions, Table.contains_insert, List.map_cons, List.count_cons]
  by_cases hname : decl.key = name
  · subst hname
    simp [hnew, Nat.add_comm]
  · simp [hname]

namespace Eval

/-! ### Gathering the methods of traits -/

def Members.table (members : Members) : MethodKind → MethodTable
  | .ofInstance => members.methods
  | .ofClass => members.classMethods

/-- Merging succeeds if the names are new, and leaves the machine as it is. -/
theorem merge_cases (line : Option Nat) (conflict : String → RuntimeError.Cause)
    (entries : List (String × Closure)) (table : MethodTable) (m : Machine) :
    (∃ joined, merge line conflict entries table m = .ok joined m ∧
      MethodTable.Joins table ⟨entries⟩ joined) ∨
      ∃ stop, merge line conflict entries table m = .error stop m := by
  induction entries generalizing table with
  | nil => exact .inl ⟨table, rfl, fun _ => .inr rfl, fun _ => Option.or_none.symm⟩
  | cons entry rest ih =>
      obtain ⟨name, method⟩ := entry
      rw [merge]
      split
      next => exact .inr ⟨_, rfl⟩
      next hnew =>
        have hfree : table.find? name = none := by simpa [Table.contains] using hnew
        refine (ih (table.insert name method)).imp_left ?_
        rintro ⟨joined, heq, hjoins⟩
        refine ⟨joined, heq, fun other => ?_, fun other => ?_⟩
        · have hrest := hjoins.apart other
          by_cases hname : name = other
          · exact .inl (hname ▸ hfree)
          · simpa [Table.find?, Table.lookup, hname, Table.insert, Table.lookup_put] using hrest
        · have hrest := hjoins.find? other
          rw [Table.find?_insert] at hrest
          by_cases hname : name = other
          · subst hname
            rw [hrest, hfree]
            simp [Table.find?, Table.lookup]
          · simpa [hname, Table.find?, Table.lookup] using hrest

/-- In what order a table of a trait is walked makes no difference to whether it can be added. -/
theorem mergeTable_cases (line : Option Nat) (conflict : String → RuntimeError.Cause)
    (used : Trait) (ofClass : Bool) (theirs table : MethodTable) (m : Machine) :
    (∃ joined, mergeTable line conflict used ofClass theirs table m = .ok joined m ∧
        MethodTable.Joins table theirs joined) ∨
      ∃ stop, mergeTable line conflict used ofClass theirs table m = .error stop m :=
  (merge_cases line conflict _ table m).imp_left fun ⟨joined, hok, hjoins⟩ =>
    ⟨joined, hok, hjoins.of_arrange⟩

theorem joins_of_mergeTable {line : Option Nat} {conflict : String → RuntimeError.Cause}
    {used : Trait} {ofClass : Bool} {theirs table joined : MethodTable} {m m' : Machine}
    (hok : mergeTable line conflict used ofClass theirs table m = .ok joined m') :
    m' = m ∧ MethodTable.Joins table theirs joined := by
  rcases mergeTable_cases line conflict used ofClass theirs table m with
    ⟨joined', heq, hjoins⟩ | ⟨stop, heq⟩
  · rw [heq] at hok
    cases hok
    exact ⟨rfl, hjoins⟩
  · rw [heq] at hok
    cases hok

/-- The members after the traits of a list have been used, one after another. -/
inductive Members.Gathers : Members → List Trait → Members → Prop
  | nil {members : Members} : Gathers members [] members
  | cons {before between after : Members} {used : Trait} {rest : List Trait}
      (hjoins : ∀ kind, MethodTable.Joins (before.table kind) (used.table kind)
        (between.table kind))
      (htraits : between.traits = before.traits ++ [used]) (hrest : Gathers between rest after) :
      Gathers before (used :: rest) after

namespace Members.Gathers

variable {before after : Members} {used : List Trait} (h : before.Gathers used after)

include h

theorem find? (kind : MethodKind) (name : String) :
    (after.table kind).find? name =
      ((before.table kind).find? name).or (used.findSome? fun t => (t.table kind).find? name) := by
  induction h with
  | nil => simp
  | @cons _ _ _ t _ hjoins _ _ ih =>
      rw [ih, (hjoins kind).find?, Option.or_assoc, List.findSome?_cons]
      cases (t.table kind).find? name <;> rfl

/-- The traits are kept in the order in which they were used. -/
theorem traits : after.traits = before.traits ++ used := by
  induction h with
  | nil => exact (List.append_nil _).symm
  | cons _ htraits _ ih => rw [ih, htraits, List.append_assoc, List.singleton_append]

omit h in
/-- What is gathered from nothing on comes from the traits. -/
theorem find?_of_empty (h : Members.Gathers {} used after) (kind : MethodKind) (name : String) :
    (after.table kind).find? name = used.findSome? fun t => (t.table kind).find? name := by
  rw [h.find? kind name]
  cases kind <;> rfl

theorem apart {kind : MethodKind} {name : String} {t : Trait} (ht : t ∈ used)
    (hname : (t.table kind).find? name ≠ none) :
    (before.table kind).find? name = none := by
  induction h with
  | nil => cases ht
  | cons hjoins _ _ ih =>
      rcases List.mem_cons.1 ht with rfl | hrest
      · exact ((hjoins kind).apart name).resolve_right hname
      · have hbetween := ih hrest
        rw [(hjoins kind).find?] at hbetween
        exact (Option.or_eq_none_iff.1 hbetween).1

/-- No two of the traits have a name in common. -/
theorem unique {kind : MethodKind} {name : String} {i j : Nat} {t t' : Trait}
    (ht : used[i]? = some t) (ht' : used[j]? = some t') (hname : (t.table kind).find? name ≠ none)
    (hname' : (t'.table kind).find? name ≠ none) : i = j := by
  induction h generalizing i j with
  | nil => simp at ht
  | @cons _ between _ first rest hjoins _ hgathers ih =>
      -- The first trait's names are in the table that the others were added to.
      have hlater : ∀ {t : Trait}, t ∈ rest → (t.table kind).find? name ≠ none →
          (first.table kind).find? name = none := by
        intro t hrest hnamed
        have hbetween := hgathers.apart hrest hnamed
        rw [(hjoins kind).find?] at hbetween
        exact (Option.or_eq_none_iff.1 hbetween).2
      cases i with
      | zero =>
          cases j with
          | zero => rfl
          | succ j =>
              cases Option.some.inj ht
              exact (hname (hlater (List.mem_of_getElem? ht') hname')).elim
      | succ i =>
          cases j with
          | zero =>
              cases Option.some.inj ht'
              exact (hname' (hlater (List.mem_of_getElem? ht) hname)).elim
          | succ j => exact congrArg (· + 1) (ih ht ht')

end Members.Gathers

/-- Using the traits of a declaration evaluates them one after another and does nothing else. -/
theorem mapM_of_useTraits {self : Evaluators} {exprs : List Expr} {before after : Members}
    {m m' : Machine} (h : useTraits self exprs before m = .ok after m') :
    ∃ used, exprs.mapM (evaluateTrait self) m = .ok used m' ∧ before.Gathers used after := by
  induction exprs generalizing before m with
  | nil =>
      cases h
      exact ⟨[], rfl, .nil⟩
  | cons expr rest ih =>
      obtain ⟨t, between, hfirst, hmerges⟩ := bind_eq_ok.1 h
      obtain ⟨methods, _, hmethods, hclassMerge⟩ := bind_eq_ok.1 hmerges
      obtain ⟨rfl, hjoins⟩ := joins_of_mergeTable hmethods
      obtain ⟨classMethods, _, hclassMethods, hrest⟩ := bind_eq_ok.1 hclassMerge
      obtain ⟨rfl, hclassJoins⟩ := joins_of_mergeTable hclassMethods
      obtain ⟨traits, htraits, hgathers⟩ := ih hrest
      refine ⟨t :: traits, ?_, .cons (fun kind => ?_) rfl hgathers⟩
      · simp only [List.mapM_cons, Bind.bind, EStateM.bind, hfirst, htraits]
        rfl
      · cases kind with
        | ofInstance => exact hjoins
        | ofClass => exact hclassJoins

/-! ### Own methods -/

/-- A table with own methods put over it, whose identities are counted on from a number. -/
def withMethods (frame : FrameId) (isInitializer : String → Bool) :
    List FunctionDecl → (nextId : Nat) → MethodTable → MethodTable
  | [], _, table => table
  | decl :: rest, nextId, table =>
    withMethods frame isInitializer rest (nextId + 1)
      (table.insert decl.key ⟨nextId, decl, frame, isInitializer decl.key⟩)

theorem addMethods_eq (frame : FrameId) (isInitializer : String → Bool) (decls : List FunctionDecl)
    (table : MethodTable) (m : Machine) :
    addMethods frame isInitializer decls table m =
      .ok (withMethods frame isInitializer decls m.nextId table)
      { m with nextId := m.nextId + decls.length } := by
  induction decls generalizing table m with
  | nil => rfl
  | cons decl rest ih =>
      refine (ih _ { m with nextId := m.nextId + 1 }).trans ?_
      simp only [withMethods, List.length_cons, Nat.add_assoc, Nat.add_comm 1]

/-- Own methods are added unless a name comes up twice, and then the error names it. -/
theorem addNewMethods_cases (owner : Token) (conflict : String → RuntimeError.Cause)
    (frame : FrameId) (isInitializer : String → Bool) (decls : List FunctionDecl)
    (table : MethodTable) (m : Machine) :
    (addNewMethods owner conflict frame isInitializer decls table m =
        .ok (withMethods frame isInitializer decls m.nextId table)
        { m with nextId := m.nextId + decls.length } ∧
      ∀ name, table.provisions decls name ≤ 1) ∨
    ∃ name line count, addNewMethods owner conflict frame isInitializer decls table m =
        .error (.error ⟨conflict name, line⟩) { m with nextId := m.nextId + count } ∧
      2 ≤ table.provisions decls name := by
  induction decls generalizing table m with
  | nil => exact .inl ⟨rfl, fun name => Bool.toNat_le _⟩
  | cons decl rest ih =>
      rw [addNewMethods]
      split
      next hold =>
        refine .inr ⟨decl.key, _, 0, rfl, ?_⟩
        rw [MethodTable.provisions, hold, List.map_cons, List.count_cons_self, Bool.toNat_true]
        omega
      next hnew =>
        simp only [← MethodTable.provisions_cons hnew
          ⟨m.nextId, decl, frame, isInitializer decl.key⟩ rest]
        refine (ih (table.insert decl.key ⟨m.nextId, decl, frame, isInitializer decl.key⟩)
          { m with nextId := m.nextId + 1 }).imp
          (fun ⟨hok, hone⟩ => ⟨?_, hone⟩)
            (fun ⟨name, line, count, herror, htwo⟩ => ⟨name, line, count + 1, ?_, htwo⟩)
        · refine Eq.trans hok ?_
          simp only [withMethods, List.length_cons, Nat.add_assoc, Nat.add_comm 1]
        · refine Eq.trans herror ?_
          simp only [Nat.add_assoc, Nat.add_comm 1]

/-- The last own method of a name is what is found, or else what was there before. -/
theorem find?_withMethods (frame : FrameId) (isInitializer : String → Bool)
    (decls : List FunctionDecl) (nextId : Nat) (table : MethodTable) (name : String) :
    (FunctionDecl.lastNamed name decls = none ∧
      (withMethods frame isInitializer decls nextId table).find? name = table.find? name) ∨
      ∃ i decl, i < decls.length ∧ FunctionDecl.lastNamed name decls = some decl ∧
        (withMethods frame isInitializer decls nextId table).find? name =
        some ⟨nextId + i, decl, frame, isInitializer name⟩ := by
  induction decls generalizing nextId table with
  | nil => exact .inl ⟨rfl, rfl⟩
  | cons decl rest ih =>
      rw [FunctionDecl.lastNamed_cons, withMethods]
      rcases ih (nextId + 1)
        (table.insert decl.key ⟨nextId, decl, frame, isInitializer decl.key⟩) with
        ⟨hnone, hfind⟩ | ⟨i, last, hi, hlast, hfind⟩
      · rw [hnone, hfind, Table.find?_insert]
        by_cases hkey : decl.key = name
        · refine .inr ⟨0, decl, Nat.zero_lt_succ _, ?_, ?_⟩
          · simp [hkey]
          · simp [hkey]
        · refine .inl ⟨?_, ?_⟩
          · simp [hkey]
          · simp [hkey]
      · refine .inr ⟨i + 1, last, Nat.succ_lt_succ hi, ?_, ?_⟩
        · simp [hlast]
        · rw [hfind, Nat.add_assoc, Nat.add_comm 1]

end Eval

/-! ### Carrying declarations out -/

namespace Machine

open Eval

/-- The identity of the first method of a kind that a declaration makes. Class methods are made
first. -/
def firstId (m : Machine) (body : ClassBody) : MethodKind → Nat
  | .ofClass => m.nextId
  | .ofInstance => m.nextId + body.classMethods.length

/-- The methods of a kind that a declaration makes in a frame, over those of the traits it uses. -/
def declared (m : Machine) (body : ClassBody) (frame : FrameId) (used : Members)
    (kind : MethodKind) : MethodTable :=
  withMethods frame kind.isInitializer (body.members kind) (m.firstId body kind) (used.table kind)

/-- The trait that a declaration makes. -/
def newTrait (m : Machine) (name : Token) (body : ClassBody) (used : Members) : Trait where
  id := m.nextId + body.classMethods.length + body.methods.length
  name := name.lexeme
  methods := m.declared body m.current used .ofInstance
  classMethods := m.declared body m.current used .ofClass

/-- Where the trait that a declaration makes comes from. -/
def traitProvenance (m : Machine) (name : Token) (body : ClassBody) (used : Members) :
    Provenance where
  product := .traitValue (m.newTrait name body used)
  declaration := .traitDecl name body
  frame := m.current
  used := used.traits

def addTrait (m : Machine) (name : Token) (body : ClassBody) (used : Members) : Machine :=
  { m with
    frames := m.frames.define m.current name.lexeme (.traitValue (m.newTrait name body used))
    provenances := m.provenances ++ [m.traitProvenance name body used]
    nextId := m.nextId + body.classMethods.length + body.methods.length + 1 }

/-- The frame of the methods of a class. -/
def memberFrame (m : Machine) : Option Class → FrameId
  | none => m.current
  | some _ => m.frames.size

/-- The machine with the frame of the methods of a class. -/
def addSuper (m : Machine) (declaration : Stmt) : Option Class → Machine
  | none => m
  | some superclass =>
    m.addFrame (.superclass declaration superclass)
      ⟨(∅ : Table (Option Value)).insert "super" (some (.classValue superclass)), some m.current⟩

theorem size_le_addSuper (m : Machine) (declaration : Stmt) (superclass : Option Class) :
    m.frames.size ≤ (m.addSuper declaration superclass).frames.size := by
  cases superclass with
  | none => exact Nat.le_refl _
  | some definition =>
      exact Nat.le_of_lt (Nat.lt_of_lt_of_eq (Nat.lt_succ_self _) (m.frames.size_add _).symm)

/-- The class that a declaration makes. -/
def newClass (m : Machine) (name : Token) (body : ClassBody) (superclass : Option Class)
    (used : Members) : Class where
  id := m.fields.size
  name := name.lexeme
  metaclass :=
    { name := name.lexeme ++ " meta"
      superclass := superclass.map (·.metaclass)
      methods := m.declared body (m.memberFrame superclass) used .ofClass }
  superclass := superclass
  methods := m.declared body (m.memberFrame superclass) used .ofInstance

/-- Where the class that a declaration makes comes from. -/
def classProvenance (m : Machine) (name : Token) (parent : Option Expr) (body : ClassBody)
    (superclass : Option Class) (used : Members) : Provenance where
  product := .classValue (m.newClass name body superclass used)
  declaration := .classDecl name parent body
  frame := m.memberFrame superclass
  used := used.traits

def addClass (m : Machine) (name : Token) (parent : Option Expr) (body : ClassBody)
    (superclass : Option Class) (used : Members) : Machine :=
  { m.addSuper (.classDecl name parent body) superclass with
    frames :=
      (m.addSuper (.classDecl name parent body) superclass).frames.define m.current name.lexeme
      (.classValue (m.newClass name body superclass used))
    fields := m.fields.push ∅
    provenances := m.provenances ++ [m.classProvenance name parent body superclass used]
    nextId := m.nextId + body.classMethods.length + body.methods.length }

theorem table_newTrait (m : Machine) (name : Token) (body : ClassBody) (used : Members)
    (kind : MethodKind) :
    (m.newTrait name body used).table kind = m.declared body m.current used kind := by
  cases kind <;> rfl

theorem table_newClass (m : Machine) (name : Token) (body : ClassBody) (superclass : Option Class)
    (used : Members) (kind : MethodKind) :
    (m.newClass name body superclass used).table kind =
      m.declared body (m.memberFrame superclass) used kind := by
  cases kind <;> rfl

end Machine

namespace Eval

/-- What declaring a trait does once its traits have been used. -/
def finishTrait (name : Token) (body : ClassBody) (used : Members) : Eval Flow := do
  let frame ← currentFrame
  let classMethods ←
    addNewMethods name .classMethodConflict frame (fun _ => false) body.classMethods
    used.classMethods
  let methods ←
    addNewMethods name .methodConflict frame isInitializerName body.methods used.methods
  let product := Value.traitValue { id := ← freshId, name := name.lexeme, methods, classMethods }
  define frame name.lexeme product
  record { product, declaration := .traitDecl name body, frame, used := used.traits }
  return .normal

theorem declareTrait_eq (self : Evaluators) (name : Token) (body : ClassBody) :
    declareTrait self name body =
      (do let used ← useTraits self body.traits {}; finishTrait name body used) := rfl

theorem finishTrait_cases (name : Token) (body : ClassBody) (used : Members) (m : Machine) :
    (finishTrait name body used m = .ok .normal (m.addTrait name body used) ∧
      ∀ kind method, (used.table kind).provisions (body.members kind) method ≤ 1) ∨
    ∃ kind method line count, finishTrait name body used m =
        .error (.error ⟨MethodKind.conflict kind method, line⟩)
        { m with nextId := m.nextId + count } ∧
      2 ≤ (used.table kind).provisions (body.members kind) method := by
  simp only [finishTrait, Bind.bind, EStateM.bind, currentFrame]
  rcases addNewMethods_cases name .classMethodConflict m.current (fun _ => false) body.classMethods
    used.classMethods m with
    ⟨hclass, hclassOne⟩ | ⟨method, line, count, herror, htwo⟩
  · rw [hclass]
    dsimp only
    rcases addNewMethods_cases name .methodConflict m.current isInitializerName
      body.methods used.methods
      { m with nextId := m.nextId + body.classMethods.length } with ⟨hmethods, hone⟩ | ⟨method,
        line, count, herror, htwo⟩
    · rw [hmethods]
      refine .inl ⟨rfl, fun kind => ?_⟩
      cases kind with
      | ofInstance => exact hone
      | ofClass => exact hclassOne
    · rw [herror]
      exact .inr ⟨.ofInstance, method, line, body.classMethods.length + count,
        by simp only [Nat.add_assoc]; rfl, htwo⟩
  · rw [herror]
    exact .inr ⟨.ofClass, method, line, count, rfl, htwo⟩

/-- What declaring a class does once its superclass is known and its traits have been used. -/
def finishClass (name : Token) (parent : Option Expr) (body : ClassBody)
    (superclass : Option Class) (used : Members) : Eval Flow := do
  let enclosing ← currentFrame
  enterSuperclass (.classDecl name parent body) superclass
  let frame ← currentFrame
  let classMethods ← addMethods frame (fun _ => false) body.classMethods used.classMethods
  let metaclass : Metaclass :=
    { name := name.lexeme ++ " meta"
      superclass := superclass.map (·.metaclass)
      methods := classMethods }
  let methods ← addMethods frame isInitializerName body.methods used.methods
  let product :=
    Value.classValue { id := ← newHolder, name := name.lexeme, metaclass, superclass, methods }
  switchTo enclosing
  define enclosing name.lexeme product
  record { product, declaration := .classDecl name parent body, frame, used := used.traits }
  return .normal

theorem declareClass_eq (self : Evaluators) (name : Token) (parent : Option Expr)
    (body : ClassBody) :
    declareClass self name parent body = (do
      let superclass ← evaluateSuperclass self name parent
      let used ← useTraits self body.traits {}
      finishClass name parent body superclass used) := rfl

theorem enterSuperclass_eq (declaration : Stmt) (superclass : Option Class) (m : Machine) :
    enterSuperclass declaration superclass m =
      .ok () { m.addSuper declaration superclass with current := m.memberFrame superclass } := by
  cases superclass with
  | none => rfl
  | some definition =>
      have hframes :=
        FrameStore.bind_addEmpty m.frames (some m.current) "super" (some (.classValue definition))
      show EStateM.Result.ok _ ({ m with
        frames := (m.frames.addEmpty _).bind _ _ _, origins := _, current := _ } : Machine) = _
      rw [hframes]
      rfl

theorem addSuper_nextId (m : Machine) (declaration : Stmt) (superclass : Option Class) :
    (m.addSuper declaration superclass).nextId = m.nextId := by
  cases superclass <;> rfl

theorem addSuper_fields (m : Machine) (declaration : Stmt) (superclass : Option Class) :
    (m.addSuper declaration superclass).fields = m.fields := by
  cases superclass <;> rfl

theorem addSuper_provenances (m : Machine) (declaration : Stmt) (superclass : Option Class) :
    (m.addSuper declaration superclass).provenances = m.provenances := by
  cases superclass <;> rfl

theorem addSuper_current (m : Machine) (declaration : Stmt) (superclass : Option Class) :
    (m.addSuper declaration superclass).current = m.current := by
  cases superclass <;> rfl

theorem finishClass_eq (name : Token) (parent : Option Expr) (body : ClassBody)
    (superclass : Option Class) (used : Members) (m : Machine) :
    finishClass name parent body superclass used m =
      .ok .normal (m.addClass name parent body superclass used) := by
  simp only [finishClass, Bind.bind, EStateM.bind, currentFrame, enterSuperclass_eq, addMethods_eq,
    addSuper_nextId, newHolder, addSuper_fields, switchTo, define, record, addSuper_provenances]
  -- the frame that was current before is current again
  rw [Machine.addClass, ← addSuper_current m (.classDecl name parent body) superclass]
  rfl

/-- A trait was declared: the traits that it names were evaluated and used one after another, and
the declaration was finished. -/
structure DeclaresTrait (evaluators : Evaluators) (name : Token) (body : ClassBody)
    (used : List Trait) (members : Members) (m m' : Machine) :
    Prop where
  traits : body.traits.mapM (evaluateTrait evaluators) m = .ok used m'
  uses : useTraits evaluators body.traits {} m = .ok members m'
  gathers : Members.Gathers {} used members
  result : declareTrait evaluators name body m = .ok .normal (m'.addTrait name body members)

/-- A class was declared: first its superclass was evaluated, then the traits that it names, and
then the declaration was finished. -/
structure DeclaresClass (evaluators : Evaluators) (name : Token) (parent : Option Expr)
    (body : ClassBody) (superclass : Option Class) (used : List Trait) (members : Members)
    (m m' : Machine) : Prop where
  evaluated : ∃ between, evaluateSuperclass evaluators name parent m = .ok superclass between ∧
    body.traits.mapM (evaluateTrait evaluators) between = .ok used m' ∧
    useTraits evaluators body.traits {} between = .ok members m'
  gathers : Members.Gathers {} used members
  result : declareClass evaluators name parent body m =
      .ok .normal (m'.addClass name parent body superclass members)

end Eval
end TraitScript
