import TraitScript.Eval.Run
import TraitScript.Proofs.Method.Merge

/-!
# Where classes and traits come from

For every class and trait the machine has a record of the declaration that was executed, of the
frame in which its methods were made, and of the traits that it used. Such a record provides a name
by the last member of that name in the body of the declaration, or else by the one used trait whose
own record provides it.

Records are made one after another: those of the traits that a declaration uses and of its
superclass are there before its own. By this order the tables of every class and trait hold what its
record provides, so looking a method up along the superclasses finds what the nearest record
provides.
-/

namespace TraitScript

open Eval

/-- The record of the class or trait with the identity of a value. -/
def Machine.provenance? (m : Machine) (v : Value) : Option Provenance :=
  m.provenances.find? fun p => p.product.same v

namespace Provenance

/-- The members of a kind in the body of the declaration. -/
def members (p : Provenance) (kind : MethodKind) : List FunctionDecl :=
  match p.declaration with
  | .classDecl _ _ body => body.members kind
  | .traitDecl _ body => body.members kind
  | _ => []

/-- There is a member of the name in the body, or a used trait whose record offers the name. -/
inductive Offers (m : Machine) (kind : MethodKind) (name : String) : Provenance → Prop
  | own {p : Provenance} {decl : FunctionDecl} (hdecl : decl ∈ p.members kind)
      (hkey : decl.key = name) : Offers m kind name p
  | used {p q : Provenance} {t : Trait} (ht : t ∈ p.used)
      (hrecord : m.provenance? (.traitValue t) = some q) (hoffers : Offers m kind name q) :
      Offers m kind name p

/-- The function that a name stands for: made of the last member of that name in the body, or else
taken over from the one used trait whose record offers the name. -/
inductive Provides (m : Machine) (kind : MethodKind) (name : String) (method : Closure) :
    Provenance → Prop
  | own {p : Provenance}
      (hlast : FunctionDecl.lastNamed name (p.members kind) = some method.decl)
      (hframe : method.frame = p.frame)
      (hinitializer : method.isInitializer = kind.isInitializer name) :
      Provides m kind name method p
  | used {p q : Provenance} {i : Nat} {t : Trait}
      (hnone : FunctionDecl.lastNamed name (p.members kind) = none) (ht : p.used[i]? = some t)
      (hrecord : m.provenance? (.traitValue t) = some q)
      (hfind : (t.table kind).find? name = some method) (hprovides : Provides m kind name method q)
      (hone : ∀ j t' q', p.used[j]? = some t' → m.provenance? (.traitValue t') = some q' →
        Offers m kind name q' → j = i) : Provides m kind name method p

/-- A table holds what a record provides, and nothing is offered that it does not hold. -/
def Fills (p : Provenance) (m : Machine) (kind : MethodKind) (table : MethodTable) : Prop :=
  ∀ name, (∀ method, table.find? name = some method → p.Provides m kind name method) ∧
    (table.find? name = none → ¬ p.Offers m kind name)

variable {m : Machine} {kind : MethodKind} {name : String}

theorem Fills.find?_ne_none {p : Provenance} {table : MethodTable} (h : p.Fills m kind table)
    (hoffers : p.Offers m kind name) : table.find? name ≠ none :=
  fun hnone => (h name).2 hnone hoffers

/-- What a declaration makes is filled by its record if the tables of its traits are by theirs. -/
theorem fills_declared {p : Provenance} {before : Machine} {body : ClassBody} {members : Members}
    (hmembers : p.members kind = body.members kind) (hgathers : Members.Gathers {} p.used members)
    (hused : ∀ t ∈ p.used, ∃ q, m.provenance? (.traitValue t) = some q ∧
      q.Fills m kind (t.table kind)) :
    p.Fills m kind (before.declared body p.frame members kind) := by
  intro name
  rw [Machine.declared, ← hmembers]
  rcases find?_withMethods p.frame kind.isInitializer (p.members kind) (before.firstId body kind)
    (members.table kind) name with ⟨hnone, hfind⟩ | ⟨i, decl, -, hlast, hfind⟩
  · rw [hfind, hgathers.find?_of_empty]
    refine ⟨fun method hmethod => ?_, fun hmissing hoffers => ?_⟩
    · obtain ⟨t, ht, htable⟩ := List.exists_of_findSome?_eq_some hmethod
      obtain ⟨q, hq, hfills⟩ := hused t ht
      obtain ⟨i, hi⟩ := List.mem_iff_getElem?.1 ht
      refine .used hnone hi hq htable ((hfills name).1 method htable)
        fun j t' q' hj hq' hother => ?_
      obtain ⟨_, hq'', hfills'⟩ := hused t' (List.mem_of_getElem? hj)
      obtain rfl := Option.some.inj (hq'.symm.trans hq'')
      exact hgathers.unique hj hi (hfills'.find?_ne_none hother) (by simp [htable])
    · cases hoffers with
      | own hdecl hkey => exact FunctionDecl.lastNamed_eq_none.1 hnone _ hdecl hkey
      | used ht hq hinner =>
          obtain ⟨_, hq', hfills⟩ := hused _ ht
          obtain rfl := Option.some.inj (hq.symm.trans hq')
          exact hfills.find?_ne_none hinner (List.findSome?_eq_none_iff.1 hmissing _ ht)
  · rw [hfind]
    refine ⟨fun method hmethod => ?_, nofun⟩
    cases hmethod
    exact .own hlast rfl rfl

end Provenance

/-! ### The order of records -/

/-- The machine has a record of a class or trait. -/
def Machine.Records (m : Machine) (v : Value) : Prop := ∃ p ∈ m.provenances, p.product = v

/-- A record of what a declaration made in some machine. What it used and its superclass are
recorded too, and have older identities. -/
inductive Provenance.Made (m : Machine) : Provenance → Prop
  | ofTrait {before : Machine} {name : Token} {body : ClassBody} {members : Members}
      (hgathers : Members.Gathers {} members.traits members) (hdistinct : members.Distinct)
      (hused : ∀ t ∈ members.traits, m.Records (.traitValue t) ∧ t.id < before.nextId)
      (hid : (before.newTrait name body members).id < m.nextId) :
      Made m (before.traitProvenance name body members)
  | ofClass {before : Machine} {name : Token} {parent : Option Expr} {body : ClassBody}
      {superclass : Option Class} {members : Members}
      (hgathers : Members.Gathers {} members.traits members)
      (hused : ∀ t ∈ members.traits, m.Records (.traitValue t))
      (hsuperclass : ∀ definition, superclass = some definition →
        m.Records (.classValue definition) ∧ definition.id < before.fields.size)
      (hid : before.fields.size < m.fields.size) :
      Made m (before.classProvenance name parent body superclass members)

/-- Every record was made by a declaration, and no two are of the same class or trait. -/
structure Machine.Lineage (m : Machine) : Prop where
  made : ∀ p ∈ m.provenances, p.Made m
  apart : m.provenances.Pairwise fun p q => p.product.same q.product = false

namespace Machine

variable {m m' : Machine}

theorem Records.mono {v : Value} (h : m.Records v) (hle : m.provenances <+: m'.provenances) :
    m'.Records v := by
  obtain ⟨p, hp, hproduct⟩ := h
  exact ⟨p, hle.subset hp, hproduct⟩

theorem Records.of_append {v : Value} {p : Provenance} (h : m'.provenances = m.provenances ++ [p])
    (hproduct : p.product = v) : m'.Records v :=
  ⟨p, by simp [h], hproduct⟩

end Machine

theorem Provenance.Made.mono {m m' : Machine} {p : Provenance} (h : p.Made m)
    (hle : m.provenances <+: m'.provenances) (hfields : m.fields.size ≤ m'.fields.size)
    (hnextId : m.nextId ≤ m'.nextId) : p.Made m' := by
  cases h with
  | ofTrait hgathers hdistinct hused hid =>
      exact .ofTrait hgathers hdistinct (fun t ht => ⟨(hused t ht).1.mono hle, (hused t ht).2⟩)
        (Nat.lt_of_lt_of_le hid hnextId)
  | ofClass hgathers hused hsuperclass hid =>
      exact .ofClass hgathers (fun t ht => (hused t ht).mono hle)
        (fun d hd => ⟨(hsuperclass d hd).1.mono hle, (hsuperclass d hd).2⟩)
        (Nat.lt_of_lt_of_le hid hfields)

/-- A record is of a class or trait whose identity has been given away. -/
theorem Provenance.Made.same_self {m : Machine} {p : Provenance} (h : p.Made m) :
    p.product.same p.product = true := by
  cases h <;> simp [Machine.traitProvenance, Machine.classProvenance, Value.same]

namespace Machine.Lineage

variable {m : Machine} (hm : m.Lineage)

include hm

/-- The lineage goes on where at most identities are given away. -/
theorem grow {m' : Machine} (hprovenances : m'.provenances = m.provenances)
    (hfields : m.fields.size ≤ m'.fields.size) (hnextId : m.nextId ≤ m'.nextId) : m'.Lineage where
  made p hp := by
    rw [hprovenances] at hp
    exact (hm.made p hp).mono (hprovenances ▸ List.prefix_refl _) hfields hnextId
  apart := hprovenances ▸ hm.apart

/-- The lineage goes on when something new is recorded. -/
theorem concat {m' : Machine} {p : Provenance}
    (hprovenances : m'.provenances = m.provenances ++ [p])
    (hfields : m.fields.size ≤ m'.fields.size) (hnextId : m.nextId ≤ m'.nextId) (hp : p.Made m')
    (hnew : ∀ q ∈ m.provenances, q.product.same p.product = false) : m'.Lineage where
  made q hq := by
    rw [hprovenances, List.mem_append, List.mem_singleton] at hq
    rcases hq with hold | rfl
    · exact (hm.made q hold).mono (hprovenances ▸ List.prefix_append ..) hfields hnextId
    · exact hp
  apart := by
    rw [hprovenances, List.pairwise_append]
    exact ⟨hm.apart, List.pairwise_singleton _ _, fun q hq _ hlast =>
      List.mem_singleton.1 hlast ▸ hnew q hq⟩

/-- What a class or trait is found to come from is the one record of it. -/
theorem provenance?_eq {p : Provenance} (hp : p ∈ m.provenances) :
    m.provenance? p.product = some p := by
  have hapart := hm.apart
  obtain ⟨earlier, later, hsplit⟩ := List.append_of_mem hp
  rw [hsplit, List.pairwise_append] at hapart
  rw [provenance?, List.find?_eq_some_iff_append]
  refine ⟨(hm.made p hp).same_self, earlier, later, hsplit, fun q hq => ?_⟩
  rw [hapart.2.2 q hq p List.mem_cons_self]
  rfl

theorem exists_provenance {v : Value} (h : m.Records v) :
    ∃ p ∈ m.provenances, m.provenance? v = some p ∧ p.product = v := by
  obtain ⟨p, hp, rfl⟩ := h
  exact ⟨p, hp, hm.provenance?_eq hp, rfl⟩

/-! ### Traits -/

/-- A trait has what its record provides. The induction is on its identity: the traits that it used
are older. -/
theorem fills_trait (kind : MethodKind) {t : Trait} (ht : m.Records (.traitValue t)) :
    ∃ p, m.provenance? (.traitValue t) = some p ∧ p.Fills m kind (t.table kind) := by
  induction hid : t.id using Nat.strongRecOn generalizing t with
  | _ id ih =>
      obtain ⟨p, hp, hrecord, hproduct⟩ := hm.exists_provenance ht
      refine ⟨p, hrecord, ?_⟩
      cases hm.made p hp with
      | ofClass => cases hproduct
      | @ofTrait before name body members hgathers _ hused _ =>
          obtain rfl := Value.traitValue.inj hproduct
          rw [Machine.table_newTrait]
          refine Provenance.fills_declared rfl hgathers fun t ht => ?_
          obtain ⟨hrecords, hlt⟩ := hused t ht
          have hle : before.nextId ≤ (before.newTrait name body members).id := by
            simp only [Machine.newTrait]
            omega
          exact ih t.id (hid ▸ Nat.lt_of_lt_of_le hlt hle) hrecords rfl

/-- A trait has no name twice. -/
theorem distinct_trait {t : Trait} (ht : m.Records (.traitValue t)) : t.Distinct := by
  obtain ⟨p, hp, hproduct⟩ := ht
  cases hm.made p hp with
  | ofClass => cases hproduct
  | ofTrait _ hdistinct _ _ =>
      obtain rfl := Value.traitValue.inj hproduct
      intro kind
      rw [Machine.table_newTrait]
      exact distinct_declared _ _ _ hdistinct kind

theorem id_lt_trait {t : Trait} (ht : m.Records (.traitValue t)) : t.id < m.nextId := by
  obtain ⟨p, hp, hproduct⟩ := ht
  cases hm.made p hp with
  | ofClass => cases hproduct
  | ofTrait _ _ _ hid =>
      obtain rfl := Value.traitValue.inj hproduct
      exact hid

/-- The traits that were used for a record are recorded. -/
theorem records_used {p : Provenance} (hp : p ∈ m.provenances) {t : Trait} (ht : t ∈ p.used) :
    m.Records (.traitValue t) := by
  cases hm.made p hp with
  | ofTrait _ _ hused _ => exact (hused t ht).1
  | ofClass _ hused _ _ => exact hused t ht

/-! ### Classes -/

section OfClass

variable {c : Class} (hc : m.Records (.classValue c))

include hc

theorem fills_class (kind : MethodKind) :
    ∃ p, m.provenance? (.classValue c) = some p ∧ p.Fills m kind (c.table kind) := by
  obtain ⟨p, hp, hrecord, hproduct⟩ := hm.exists_provenance hc
  refine ⟨p, hrecord, ?_⟩
  cases hm.made p hp with
  | ofTrait => cases hproduct
  | ofClass hgathers hused _ _ =>
      obtain rfl := Value.classValue.inj hproduct
      rw [Machine.table_newClass]
      exact Provenance.fills_declared rfl hgathers fun t ht => hm.fills_trait kind (hused t ht)

theorem id_lt_class : c.id < m.fields.size := by
  obtain ⟨p, hp, hproduct⟩ := hc
  cases hm.made p hp with
  | ofTrait => cases hproduct
  | ofClass _ _ _ hid =>
      obtain rfl := Value.classValue.inj hproduct
      exact hid

theorem records_superclass {parent : Class} (hparent : c.superclass = some parent) :
    m.Records (.classValue parent) ∧ parent.id < c.id := by
  obtain ⟨p, hp, hproduct⟩ := hc
  cases hm.made p hp with
  | ofTrait => cases hproduct
  | ofClass _ _ hsuperclass _ =>
      obtain rfl := Value.classValue.inj hproduct
      exact hsuperclass parent hparent

theorem records_chain : ∀ d ∈ c.chain, m.Records (.classValue d) := by
  induction c using Class.chain_induction with
  | h c ih =>
      rw [Class.chain_eq]
      refine List.forall_mem_cons.2 ⟨hc, ?_⟩
      cases hparent : c.superclass with
      | none => simp
      | some parent => exact ih parent hparent (hm.records_superclass hc hparent).1

/-- Superclasses are older, so no class comes twice on a chain. -/
theorem older : c.chain.Pairwise fun inner outer => outer.id < inner.id := by
  induction c using Class.chain_induction with
  | h c ih =>
      rw [Class.chain_eq]
      cases hparent : c.superclass with
      | none => exact List.pairwise_singleton _ _
      | some parent =>
          obtain ⟨hrecords, hlt⟩ := hm.records_superclass hc hparent
          have houter := ih parent hparent hrecords
          refine List.pairwise_cons.2 ⟨fun outer hmem => ?_, houter⟩
          -- The superclass is the newest of its chain.
          change outer ∈ parent.chain at hmem
          rw [parent.chain_eq] at hmem houter
          rcases List.mem_cons.1 hmem with rfl | hfarther
          · exact hlt
          · exact Nat.lt_trans (List.rel_of_pairwise_cons houter hfarther) hlt

end OfClass

end Machine.Lineage

/-! ### What is looked up -/

/-- Something that was looked up along some classes: the function that the record of the nearest of
them provides whose record offers the name at all. -/
def Machine.Nearest (m : Machine) (kind : MethodKind) (name : String) (chain : List Class) :
    Option Closure → Prop
  | some method => ∃ nearer c farther p, chain = nearer ++ c :: farther ∧
    m.provenance? (.classValue c) = some p ∧ (c.table kind).find? name = some method ∧
    p.Provides m kind name method ∧
    ∀ d ∈ nearer, ∀ q, m.provenance? (.classValue d) = some q → ¬ q.Offers m kind name
  | none => ∀ d ∈ chain, ∀ q, m.provenance? (.classValue d) = some q → ¬ q.Offers m kind name

/-- A record of a class, made by executing a declaration of its name. -/
def Provenance.IsOf (p : Provenance) (c : Class) : Prop :=
  p.product = .classValue c ∧
    ∃ name parent body, p.declaration = .classDecl name parent body ∧ c.name = name.lexeme

/-- A class whose superclasses are older classes, all of them recorded, and on which looking a
method up finds what the nearest record provides. Class methods are looked up along the metaclasses,
and the superclass of every metaclass is the metaclass of the superclass. -/
structure Class.Answers (m : Machine) (c : Class) : Prop where
  older : c.chain.Pairwise fun inner outer => outer.id < inner.id
  recorded : ∀ d ∈ c.chain, ∃ p, m.provenance? (.classValue d) = some p ∧ p.IsOf d
  metaclass : ∀ d ∈ c.chain, d.metaclass.superclass = d.superclass.map (·.metaclass)
  metaclassName : ∀ d ∈ c.chain, d.metaclassName = d.name ++ " meta"
  methods : ∀ name, m.Nearest .ofInstance name c.chain (c.findMethod name)
  classMethods : ∀ name, m.Nearest .ofClass name c.chain (c.metaclass.findMethod name)

namespace Machine.Lineage

variable {m : Machine} (hm : m.Lineage) {c : Class} (hc : m.Records (.classValue c))

include hm hc

theorem isOf : ∃ p, m.provenance? (.classValue c) = some p ∧ p.IsOf c ∧
    c.metaclass.superclass = c.superclass.map (·.metaclass) ∧
    c.metaclassName = c.name ++ " meta" := by
  obtain ⟨p, hp, hrecord, hproduct⟩ := hm.exists_provenance hc
  refine ⟨p, hrecord, ?_⟩
  cases hm.made p hp with
  | ofTrait => cases hproduct
  | ofClass =>
      obtain rfl := Value.classValue.inj hproduct
      exact ⟨⟨rfl, _, _, _, rfl, rfl⟩, rfl, rfl⟩

theorem nearest (kind : MethodKind) (name : String) :
    m.Nearest kind name c.chain (c.findMember kind name) := by
  have hrecords := hm.records_chain hc
  have hparallel : c.Parallel := fun d hd => by
    obtain ⟨_, _, _, hsuperclass, _⟩ := hm.isOf (hrecords d hd)
    exact hsuperclass
  have hnone : ∀ d ∈ c.chain, (d.table kind).find? name = none →
      ∀ q, m.provenance? (.classValue d) = some q → ¬ q.Offers m kind name := by
    intro d hd hmissing q hq
    obtain ⟨_, hq', hfills⟩ := hm.fills_class (hrecords d hd) kind
    obtain rfl := Option.some.inj (hq.symm.trans hq')
    exact (hfills name).2 hmissing
  rw [hparallel.findMember_eq_findSome?]
  cases hfound : c.chain.findSome? fun d => (d.table kind).find? name with
  | none => exact fun d hd => hnone d hd (List.findSome?_eq_none_iff.1 hfound d hd)
  | some method =>
      obtain ⟨nearer, d, farther, hchain, hfind, hmissing⟩ :=
        List.findSome?_eq_some_iff.1 hfound
      obtain ⟨p, hp, hfills⟩ := hm.fills_class (hrecords d (by simp [hchain])) kind
      exact ⟨nearer, d, farther, p, hchain, hp, hfind, (hfills name).1 method hfind,
        fun other hother => hnone other (by simp [hchain, hother]) (hmissing other hother)⟩

theorem answers : c.Answers m where
  older := hm.older hc
  recorded d hd := by
    obtain ⟨p, hrecord, hof, -, -⟩ := hm.isOf (hm.records_chain hc d hd)
    exact ⟨p, hrecord, hof⟩
  metaclass d hd := by
    obtain ⟨_, _, _, hsuperclass, _⟩ := hm.isOf (hm.records_chain hc d hd)
    exact hsuperclass
  metaclassName d hd := by
    obtain ⟨_, _, _, _, hname⟩ := hm.isOf (hm.records_chain hc d hd)
    exact hname
  methods := hm.nearest hc .ofInstance
  classMethods := hm.nearest hc .ofClass

end Machine.Lineage

/-! ### What executing a declaration records -/

/-- The last record after a declaration is that of what was declared: by this very declaration, with
the traits that its expressions were evaluated to, and as a subclass of what the expression for its
superclass was evaluated to. It is bound to its name in the frame that is current then. -/
def Machine.Declares (self : Evaluators) (m : Machine) : Stmt → Machine → Prop
  | .classDecl name parent body, m' =>
    ∃ superclass between used before definition,
      evaluateSuperclass self name parent m = .ok superclass between ∧
      body.traits.mapM (evaluateTrait self) between = .ok used before ∧
      definition.name = name.lexeme ∧ definition.superclass = superclass ∧
      m'.provenances = before.provenances ++ [⟨.classValue definition,
        .classDecl name parent body, before.memberFrame superclass, used⟩] ∧
      (before.current < before.frames.size →
        (m'.frames.slots before.current).find? name.lexeme = some (some (.classValue definition)))
  | .traitDecl name body, m' =>
    ∃ used before definition, body.traits.mapM (evaluateTrait self) m = .ok used before ∧
      definition.name = name.lexeme ∧
      m'.provenances = before.provenances ++ [⟨.traitValue definition, .traitDecl name body,
        before.current, used⟩] ∧
      (before.current < before.frames.size →
        (m'.frames.slots before.current).find? name.lexeme = some (some (.traitValue definition)))
  | _, _ => True

namespace Eval

variable {self : Evaluators} {m m' : Machine}

/-- A name that was set in an existing frame is found there. -/
theorem find?_define {store : FrameStore Value} {frame : FrameId} (hframe : frame < store.size)
    (name : String) (v : Value) :
    ((store.define frame name v).slots frame).find? name = some (some v) := by
  rw [FrameStore.define, FrameStore.find?_slots_bind, if_pos ⟨rfl, hframe, rfl⟩]

theorem declares_declareClass {name : Token} {parent : Option Expr} {body : ClassBody} {flow : Flow}
    (h : declareClass self name parent body m = .ok flow m') :
    m.Declares self (.classDecl name parent body) m' := by
  rw [declareClass_eq] at h
  obtain ⟨superclass, between, hsuperclass, h⟩ := bind_eq_ok.1 h
  obtain ⟨members, before, huses, h⟩ := bind_eq_ok.1 h
  obtain ⟨used, htraits, hgathers⟩ := mapM_of_useTraits huses
  obtain rfl : members.traits = used := hgathers.traits
  rw [finishClass_eq] at h
  cases h
  refine ⟨superclass, between, _, before, _, hsuperclass, htraits, rfl, rfl, rfl, fun hframe => ?_⟩
  have hsize := before.size_le_addSuper (.classDecl name parent body) superclass
  exact find?_define (Nat.lt_of_lt_of_le hframe hsize) _ _

theorem declares_declareTrait {name : Token} {body : ClassBody} {flow : Flow}
    (h : declareTrait self name body m = .ok flow m') :
    m.Declares self (.traitDecl name body) m' := by
  rw [declareTrait_eq] at h
  obtain ⟨members, before, huses, h⟩ := bind_eq_ok.1 h
  obtain ⟨used, htraits, hgathers⟩ := mapM_of_useTraits huses
  obtain rfl : members.traits = used := hgathers.traits
  rcases finishTrait_cases name body members before with ⟨hok, -⟩ | ⟨_, _, _, _, herror, -⟩
  · rw [hok] at h
    cases h
    exact ⟨_, before, _, htraits, rfl, rfl, fun hframe => find?_define hframe _ _⟩
  · rw [herror] at h
    cases h

/-- Whatever the machine, executing a declaration records it. -/
theorem declares_execute {fuel : Nat} {stmt : Stmt} {flow : Flow}
    (h : execute (fuel + 1) stmt m = .ok flow m') : m.Declares (evaluators fuel) stmt m' := by
  cases stmt with
  | classDecl name parent body => exact declares_declareClass h
  | traitDecl name body => exact declares_declareTrait h
  | _ => trivial

end Eval
end TraitScript
