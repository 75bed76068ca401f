import TraitScript.Proofs.Account.Receivers
import TraitScript.Proofs.Account.Session

/-!
# An account of new objects and of initializers

An object gets the number of objects before it as its identity, so it is none of those that were
there. Methods are marked as initializers when a declaration makes them, by the name under which
they go into a table. Classes and traits both do so, and taking methods over from traits and
superclasses keeps name and mark together; hence a method that is found under a name is marked
exactly if the name is that of initializers and the method is one of instances.
-/

namespace TraitScript

open Eval

/-! ### Marks -/

/-- A method that goes by a name, and is marked accordingly. -/
def Closure.MarkedFor (method : Closure) (kind : MethodKind) (name : String) : Prop :=
  method.decl.key = name ∧ method.isInitializer = kind.isInitializer name

theorem Closure.MarkedFor.isInitializer_eq {method : Closure} {kind : MethodKind} {name : String}
    (h : method.MarkedFor kind name) :
    method.isInitializer = kind.isInitializer method.decl.key := by
  rw [h.1]
  exact h.2

/-- Whatever is found on a class is marked for the name under which it is found. -/
def Class.Marked (c : Class) : Prop :=
  ∀ {kind : MethodKind} {name : String} {method : Closure}, c.findMember kind name = some method →
    method.MarkedFor kind name

def Trait.Marked (t : Trait) : Prop :=
  ∀ {kind : MethodKind} {name : String} {method : Closure}, (t.table kind).find? name =
    some method → method.MarkedFor kind name

def Value.Marked : Value → Prop
  | .classValue definition => definition.Marked
  | .object inst => inst.definingClass.Marked
  | .traitValue definition => definition.Marked
  | .nil | .bool _ | .number _ | .string _ | .function _ | .native _ => True

/-- The methods in a value are marked, and the fields of the value are among the first ones. -/
structure Value.MarkedBelow (bound : Nat) (v : Value) : Prop where
  marked : v.Marked
  holder : ∀ {id : Nat}, v.holder? = some id → id < bound

theorem Value.MarkedBelow.mono {bound bound' : Nat} {v : Value} (hle : bound ≤ bound')
    (h : v.MarkedBelow bound) : v.MarkedBelow bound' :=
  ⟨h.marked, fun hid => Nat.lt_of_lt_of_le (h.holder hid) hle⟩

theorem Value.Marked.home {v : Value} {c : Class} (h : v.Marked) (hhome : v.home? = some c) :
    c.Marked := by
  cases v with
  | object _ | classValue _ =>
      cases hhome
      exact h
  | nil | bool _ | number _ | string _ | function _ | native _ | traitValue _ => cases hhome

/-- What a value answers with under a name is marked for it. -/
theorem Value.Marked.findMethod {v : Value} {name : String} {method : Closure} (h : v.Marked)
    (hfind : v.findMethod name = some method) :
    method.MarkedFor v.receiverKind name := by
  obtain ⟨c, hhome, hmember⟩ := Value.findMethod_eq_findMember hfind
  exact h.home hhome hmember

theorem FunctionDecl.key_of_lastNamed {name : String} {decls : List FunctionDecl}
    {decl : FunctionDecl} (h : lastNamed name decls = some decl) :
    decl.key = name := by
  have hmem := List.mem_of_getLast? h
  simp only [List.mem_filter, decide_eq_true_eq] at hmem
  exact hmem.2

/-- A declaration marks what it makes, and keeps the marks of what it takes over from traits. -/
theorem marked_declared (m : Machine) (body : ClassBody) (frame : FrameId) {used : List Trait}
    {members : Members} (hgathers : Members.Gathers {} used members) (hused : ∀ t ∈ used, t.Marked)
    {kind : MethodKind} {name : String} {method : Closure}
    (hmethod : (m.declared body frame members kind).find? name = some method) :
    method.MarkedFor kind name := by
  rcases find?_withMethods frame kind.isInitializer (body.members kind) (m.firstId body kind)
    (members.table kind) name with
    ⟨-, hfind⟩ | ⟨i, decl, -, hlast, hfind⟩
  · rw [Machine.declared, hfind, hgathers.find?_of_empty] at hmethod
    obtain ⟨t, ht, htable⟩ := List.exists_of_findSome?_eq_some hmethod
    exact hused t ht htable
  · rw [Machine.declared, hfind] at hmethod
    cases hmethod
    exact ⟨FunctionDecl.key_of_lastNamed hlast, rfl⟩

theorem marked_newTrait (m : Machine) (name : Token) (body : ClassBody) {used : List Trait}
    {members : Members} (hgathers : Members.Gathers {} used members)
    (hused : ∀ t ∈ used, t.Marked) : (m.newTrait name body members).Marked := by
  intro kind key method hmethod
  rw [Machine.table_newTrait] at hmethod
  exact marked_declared m body m.current hgathers hused hmethod

theorem marked_newClass (m : Machine) (name : Token) (body : ClassBody) {superclass : Option Class}
    {used : List Trait} {members : Members} (hgathers : Members.Gathers {} used members)
    (hused : ∀ t ∈ used, t.Marked)
    (hsuperclass : ∀ definition, superclass = some definition → definition.Marked) :
    (m.newClass name body superclass members).Marked := by
  intro kind key method hmethod
  have hparalleled : (m.newClass name body superclass members).Paralleled := rfl
  rw [Class.findMember_eq hparalleled, Machine.table_newClass] at hmethod
  rcases Option.or_eq_some_iff.1 hmethod with hown | ⟨-, hinherited⟩
  · exact marked_declared m body _ hgathers hused hown
  · obtain ⟨definition, hdefinition, hfind⟩ := Option.bind_eq_some_iff.1 hinherited
    exact hsuperclass definition hdefinition hfind

/-! ### The account -/

/-- A machine whose methods are marked, and in which no value is an object that is still to come. -/
structure Machine.Numbered (m : Machine) : Prop where
  values : ∀ {v}, m.Holds v → v.MarkedBelow m.fields.size
  natives : ∀ native ∈ m.natives, native.Honest

namespace Account

/-- An account of how many objects there are. -/
def newcomers : Account where
  Known := Nat
  le k k' := k ≤ k'
  fits k m := k = m.fields.size ∧ m.Numbered
  admits k v := v.MarkedBelow k
  scope _ _ := True
  receives _ v method := method.isInitializer = v.receiverKind.isInitializer method.decl.key

namespace newcomers

variable {k : Nat} {m m' : Machine} {P : Nat → Prop}

theorem later (hfits : newcomers.fits k m) (hsize : m.fields.size ≤ m'.fields.size)
    (hnatives : m'.natives = m.natives)
    (hvalues : ∀ {v}, m'.Holds v → m.Holds v ∨ v.MarkedBelow m'.fields.size)
    (hP : P m'.fields.size) : newcomers.Later k m' P := by
  obtain ⟨rfl, hm⟩ := hfits
  refine ⟨m'.fields.size, hsize, ⟨rfl, fun hv => ?_, ?_⟩, hP⟩
  · exact (hvalues hv).elim (fun hold => (hm.values hold).mono hsize) id
  · rw [hnatives]
    exact hm.natives

/-- The same where the objects stay as they are. -/
theorem later_of_fields (hfits : newcomers.fits k m) (hfields : m'.fields = m.fields)
    (hnatives : m'.natives = m.natives)
    (hvalues : ∀ {v}, m'.Holds v → m.Holds v ∨ newcomers.admits k v) (hP : P k) :
    newcomers.Later k m' P := by
  have hk := hfits.1
  refine later hfits (Nat.le_of_eq (by rw [hfields])) hnatives (fun hv => ?_) ?_
  · rw [hfields, ← hk]
    exact hvalues hv
  · rw [hfields, ← hk]
    exact hP

end newcomers

theorem lawful_newcomers : newcomers.Lawful where
  refl := Nat.le_refl
  trans := Nat.le_trans
  admits_mono hle h := h.mono hle
  scope_mono _ _ := trivial
  plain {_ v} h := by
    cases v with
    | nil | bool _ | number _ | string _ => exact ⟨trivial, nofun⟩
    | function _ | native _ | classValue _ | object _ | traitValue _ => exact h.elim
  native := ⟨trivial, nofun⟩
  slots hfits h := hfits.1 ▸ hfits.2.values (.slot h)
  fields hfits htable h := hfits.1 ▸ hfits.2.values (.field htable h)
  natives hfits native hnative := .inl (hfits.2.natives native hnative)
  current _ := trivial
  globals _ := trivial
  enter hfits _ := newcomers.later_of_fields hfits rfl rfl (fun h => .inl (h.congr rfl rfl)) trivial
  aside _ _ _ hfits :=
    newcomers.later_of_fields hfits rfl rfl (fun h => .inl (h.congr rfl rfl)) trivial
  bind hfits hvalue :=
    newcomers.later_of_fields hfits rfl rfl (fun h => h.of_bind.imp_right (hvalue _)) trivial
  setField {_ m holder name v} hfits hv := by
    have hsize : (m.fields.modify holder (·.insert name v)).size = m.fields.size :=
      Array.size_modify
    refine newcomers.later hfits (Nat.le_of_eq hsize.symm) rfl
      (fun h => h.of_setField.imp_right fun heq => ?_) trivial
    rw [heq, hsize, ← hfits.1]
    exact hv
  statement hfits _ _ :=
    newcomers.later_of_fields hfits rfl rfl (fun h => .inl h.of_emptyFrame) trivial
  call hfits _ := newcomers.later_of_fields hfits rfl rfl (fun h => .inl h.of_emptyFrame) trivial
  nextRound hfits := newcomers.later_of_fields hfits rfl rfl (fun h => .inl h.of_nextRound) trivial
  function _ hfits :=
    newcomers.later_of_fields hfits rfl rfl (fun h => .inl (h.congr rfl rfl)) ⟨trivial, nofun⟩
  inst {_ m definition} hfits hclass := by
    have hsize : (m.fields.push ∅).size = m.fields.size + 1 := Array.size_push _
    refine newcomers.later hfits ?_ rfl (fun h => .inl h.of_newHolder) ⟨hclass.marked, ?_⟩
    · exact Nat.le_of_lt (Nat.lt_of_lt_of_eq (Nat.lt_succ_self _) hsize.symm)
    · rintro id ⟨⟩
      exact Nat.lt_of_lt_of_eq (Nat.lt_succ_self _) hsize.symm
  finds hv hfind := (hv.marked.findMethod hfind).isInitializer_eq
  receiver hfits hv _ := by
    refine newcomers.later_of_fields hfits rfl rfl
      (fun h => h.of_addReceiver.imp_right fun heq => ?_) ⟨trivial, nofun⟩
    rw [heq]
    exact hv

theorem handles_newcomers (stop : Stop) : newcomers.Handles {} stop := by
  refine handles_nothing lawful_newcomers (fun hclass hfind => ?_) ?_ ?_
  · rw [superMember_eq] at hfind
    exact (Value.MarkedBelow.marked hclass hfind).isInitializer_eq
  · intro fuel k m m' name body used members hfits _ hdeclares hused
    refine newcomers.later_of_fields hfits rfl rfl
      (fun h => h.of_addTrait.imp_right fun heq => ?_) trivial
    rw [heq]
    exact ⟨marked_newTrait m' name body hdeclares.gathers fun t ht => (hused t ht).marked, nofun⟩
  · intro fuel k m m' name parent body superclass used members hfits _ hdeclares hsuperclass hused
    have hsize : (m'.addClass name parent body superclass members).fields.size =
        m'.fields.size + 1 := Array.size_push _
    have hle : m'.fields.size ≤ (m'.addClass name parent body superclass members).fields.size := by
      rw [hsize]
      exact Nat.le_succ _
    have hk := hfits.1
    refine newcomers.later hfits hle ?_ (fun h => h.of_addClass.imp_right fun hnew => ?_) trivial
    · cases superclass <;> rfl
    · rcases hnew with ⟨definition, hdefinition, rfl⟩ | rfl
      · exact (hsuperclass definition hdefinition).mono (hk ▸ hle)
      · refine ⟨marked_newClass m' name body hdeclares.gathers (fun t ht => (hused t ht).marked)
          fun definition hdefinition => (hsuperclass definition hdefinition).marked, ?_⟩
        rintro id ⟨⟩
        exact Nat.lt_of_lt_of_eq (Nat.lt_succ_self _) hsize.symm

theorem newcomers_fit_start {natives : List Native} (hnatives : ∀ native ∈ natives, native.Honest)
    (world : World) :
    ∃ k, newcomers.fits k (Machine.start natives world) := by
  refine fits_start lawful_newcomers (fun {k m native} hfits hnative => ?_) hnatives
    ⟨(0 : Nat), rfl, ?_⟩
  · refine ⟨k, Nat.le_refl k,
      ⟨hfits.1, fun hv => hfits.2.values (hv.congr rfl rfl), fun other hother => ?_⟩, trivial⟩
    rcases Array.mem_push.1 hother with hold | rfl
    · exact hfits.2.natives other hold
    · exact hnative
  · exact ⟨fun hv => (Machine.not_holds_bare world _ hv).elim, by simp [Machine.bare]⟩

end Account
end TraitScript
