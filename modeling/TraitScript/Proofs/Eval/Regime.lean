import TraitScript.Eval.Function
import TraitScript.Proofs.Eval.Chain
import TraitScript.Proofs.Scope.Member
import TraitScript.Proofs.Table.Distinct

/-!
# Machines that accepted programs can reach

A regime says which uses may stand at which places in the programs that are run. A machine is sound
for a regime when every function it can reach was declared at a place where the regime allows its
body, in a frame whose chain is linked to the scopes of that place.

In a regime for programs read from text more holds: distances of occurrences are those of their
places, and no script declares or assigns `this` or `super`, so the frames made for them keep
binding what they were made with. Traits and superclasses are named by variables, so an error about
one has a line, and errors without a line are left to native functions. Trees put together by hand
promise none of this, but jumps and returns still stand where they are allowed.
-/

namespace TraitScript

/-- What the programs that are run may contain at their places. -/
structure Regime where
  legal : Place → Use → Prop
  /-- Whether names, keywords and distances are as in programs read from text. -/
  fromText : Prop
  /-- The distances that resolving has recorded. -/
  distances : Nat → Option Nat
  jump_inLoop : ∀ {p keyword kind}, legal p (.jump keyword kind) → p.inLoop = true
  return_inFunction : ∀ {p keyword hasValue}, legal p (.returnValue keyword hasValue) →
      p.functionKind ≠ .none
  declare_ordinary : fromText → ∀ {p name}, legal p (.declare name) → Ordinary name.lexeme
  write_ordinary : fromText → ∀ {p id name}, legal p (.write id name) → Ordinary name.lexeme
  lookup_distance : fromText → ∀ {p use id name}, legal p use → use.lookup? = some (id, name) →
      distances id = p.distance? name
  super_keyword : fromText → ∀ {p id keyword}, legal p (.super id keyword) →
      keyword.lexeme = "super"
  super_inMember : fromText → ∀ {p id keyword}, legal p (.super id keyword) →
    ∃ distance declaration kind decl, p.SuperAt distance declaration kind decl
  reference_variable : fromText → ∀ {p expr}, legal p (.reference expr) →
      ∃ id name, expr = .variable id name
  /-- The native functions that machines may have. -/
  hosts : Native → Prop := fun _ => True

/-- The regime allows everything in a list of uses. -/
def Regime.Allows (R : Regime) (us : Uses) : Prop := ∀ u ∈ us, R.legal u.1 u.2

namespace Regime

variable {R : Regime}

@[simp] theorem allows_nil : R.Allows [] := by simp [Allows]

@[simp] theorem allows_cons {u : Place × Use} {us : Uses} :
    R.Allows (u :: us) ↔ R.legal u.1 u.2 ∧ R.Allows us := by
  simp [Allows]

@[simp] theorem allows_append {us vs : Uses} : R.Allows (us ++ vs) ↔ R.Allows us ∧ R.Allows vs := by
  simp [Allows, or_imp, forall_and]

/-- One regime allows at least what another does. -/
def Below (R R' : Regime) : Prop := ∀ p use, R.legal p use → R'.legal p use

theorem Allows.mono {R' : Regime} (hle : R.Below R') {us : Uses} (h : R.Allows us) : R'.Allows us :=
  fun u hu => hle u.1 u.2 (h u hu)

end Regime

/-! ### Native functions -/

/-- Values without functions in them. -/
def Value.IsPlain : Value → Prop
  | .nil | .bool _ | .number _ | .string _ => True
  | _ => False

/-- What an action gives back or calls with is plain or among the values it knows, to which the
answers of its calls are added. -/
def Action.Passes (known : List Value) : Action → Prop
  | .done value => value.IsPlain ∨ value ∈ known
  | .fail _ => True
  | .write _ next => next.Passes known
  | .readLine next => ∀ line, (next line).Passes known
  | .readClock next => ∀ seconds, (next seconds).Passes known
  | .pick _ _ next => ∀ n, (next n).Passes known
  | .call callee _ arguments next =>
    (∀ v ∈ callee :: arguments, v.IsPlain ∨ v ∈ known) ∧
      ∀ value, (next value).Passes (value :: known)

/-- A native function passes on plain values and what it was given; it makes up no functions of its
own. -/
def Native.Honest (native : Native) : Prop := ∀ arguments, (native.body arguments).Passes arguments

theorem Native.honest_clock : Native.clock.Honest := fun _ _ => .inl trivial

theorem Native.honest_randint : Native.randint.Honest := by
  intro arguments
  unfold Native.randint
  dsimp only
  split
  · split
    · exact trivial
    · exact fun n => .inl trivial
  · exact trivial

theorem Native.honest_input : Native.input.Honest := by
  intro arguments
  unfold Native.input
  dsimp only
  split
  · intro line
    cases line <;> exact .inl trivial
  · exact trivial

/-- The functions every script can use are honest. -/
theorem Native.honest_standard : ∀ native ∈ Native.standard, native.Honest := by
  simp only [Native.standard, List.mem_cons, List.not_mem_nil, or_false,
    forall_eq_or_imp, forall_eq]
  exact ⟨honest_clock, honest_randint, honest_input⟩

/-- An action may fail with a cause: one of its own, or because the input it reads is not text. -/
def Action.Raises (cause : RuntimeError.Cause) : Action → Prop
  | .done _ => False
  | .fail other => cause = other
  | .write _ next => next.Raises cause
  | .readLine next => cause = .inputNotUtf8 ∨ ∃ line, (next line).Raises cause
  | .readClock next => ∃ seconds, (next seconds).Raises cause
  | .pick _ _ next => ∃ n, (next n).Raises cause
  | .call _ _ _ next => ∃ value, (next value).Raises cause

/-- A native function may fail with a cause; failures of functions that it calls are not its own. -/
def Native.Raises (native : Native) (cause : RuntimeError.Cause) : Prop :=
  ∃ arguments, (native.body arguments).Raises cause

/-- Some native function can be blamed for a cause. -/
def Regime.Blames (R : Regime) (cause : RuntimeError.Cause) : Prop :=
  ∃ native, R.hosts native ∧ native.Raises cause

/-! ### Functions and values -/

section Values

variable (R : Regime) (m : Machine)

/-- A function that can be called: its body is allowed at a place to whose scopes its frame is
linked, and the frame of an initializer was made for a receiver. -/
structure Closure.Bound (closure : Closure) : Prop where
  code : ∃ (p : Place) (kind : Resolve.FunctionKind), kind ≠ .none ∧
      R.Allows (closure.decl.uses kind p) ∧ m.Linked closure.frame p.sites
  receiver : closure.isInitializer = true →
      ∃ decl v, m.origins[closure.frame]? = some (.receiver decl v)

/-- A method that still lacks its receiver: its body is allowed inside a scope of `this`. -/
def Closure.Member (kind : MethodKind) (closure : Closure) : Prop :=
  ∃ p : Place, R.Allows
    (closure.decl.uses (kind.bodyKind closure.decl)
      (p.enter (.receiver kind closure.decl) ["this"])) ∧
    m.Linked closure.frame p.sites

def MethodTable.Sound (kind : MethodKind) (table : MethodTable) : Prop :=
  ∀ entry ∈ table.entries, Closure.Member R m kind entry.2

inductive Class.Sound : Class → Prop
  | intro {id : Nat} {name metaName : String} {superclass : Option Class}
      {methods classMethods : MethodTable} (hmethods : MethodTable.Sound R m .ofInstance methods)
      (hclassMethods : MethodTable.Sound R m .ofClass classMethods)
      (hsuperclass : ∀ parent, superclass = some parent → Class.Sound parent) :
      Class.Sound
        ⟨id, name, ⟨metaName, superclass.map (·.metaclass), classMethods⟩, superclass, methods⟩

def Value.Sound : Value → Prop
  | .function closure => closure.Bound R m
  | .classValue definition => definition.Sound R m
  | .object inst => inst.definingClass.Sound R m
  | .traitValue definition =>
    MethodTable.Sound R m .ofInstance definition.methods ∧
      MethodTable.Sound R m .ofClass definition.classMethods
  | .native ref => ∃ native, m.natives[ref.id]? = some native
  | .nil | .bool _ | .number _ | .string _ => True

end Values

theorem Value.IsPlain.sound {v : Value} (h : v.IsPlain) (R : Regime) (m : Machine) :
    v.Sound R m := by
  cases v with
  | nil | bool _ | number _ | string _ => trivial
  | function _ | native _ | classValue _ | object _ | traitValue _ => exact h.elim

/-! ### Looking methods up -/

theorem Table.mem_of_lookup {α : Type} {name : String} {value : α} {entries : List (String × α)}
    (h : Table.lookup name entries = some value) :
    (name, value) ∈ entries := by
  induction entries with
  | nil => cases h
  | cons entry rest ih =>
      obtain ⟨key, old⟩ := entry
      rw [Table.lookup] at h
      split at h
      next heq =>
        rw [← heq, ← Option.some.inj h]
        exact List.mem_cons_self ..
      next => exact List.mem_cons_of_mem _ (ih h)

theorem Table.mem_put {α : Type} {name : String} {value : α} {entries : List (String × α)}
    {entry : String × α} (h : entry ∈ Table.put name value entries) :
    entry = (name, value) ∨ entry ∈ entries := by
  induction entries with
  | nil => exact .inl (List.mem_singleton.1 h)
  | cons first rest ih =>
      obtain ⟨key, old⟩ := first
      rw [Table.put] at h
      split at h
      · exact (List.mem_cons.1 h).imp_right (List.mem_cons_of_mem _)
      · rcases List.mem_cons.1 h with rfl | hrest
        · exact .inr (List.mem_cons_self ..)
        · exact (ih hrest).imp_right (List.mem_cons_of_mem _)

section Lookup

variable {R : Regime} {m : Machine}

theorem MethodTable.Sound.find? {kind : MethodKind} {table : MethodTable}
    (h : MethodTable.Sound R m kind table) {name : String} {closure : Closure}
    (hfind : Table.find? table name = some closure) : closure.Member R m kind :=
  h _ (Table.mem_of_lookup hfind)

theorem MethodTable.Sound.empty (kind : MethodKind) : MethodTable.Sound R m kind ∅ :=
  fun _ hentry => nomatch hentry

theorem MethodTable.Sound.insert {kind : MethodKind} {table : MethodTable}
    (h : MethodTable.Sound R m kind table) (name : String) {closure : Closure}
    (hclosure : closure.Member R m kind) :
    MethodTable.Sound R m kind (Table.insert table name closure) := by
  intro entry hentry
  rcases Table.mem_put hentry with rfl | hold
  · exact hclosure
  · exact h entry hold

/-- The entries of a table are sound in whatever order they are walked. -/
theorem MethodTable.Sound.arrange {kind : MethodKind} {table : MethodTable}
    (h : MethodTable.Sound R m kind table) (rank : String → Nat) :
    MethodTable.Sound R m kind (Table.arrange rank table) :=
  fun entry hentry => h entry ((Table.arrange_perm rank table).mem_iff.1 hentry)

theorem Class.Sound.findMethod {definition : Class} (h : definition.Sound R m) {name : String}
    {closure : Closure} (hfind : definition.findMethod name = some closure) :
    closure.Member R m .ofInstance := by
  induction h with
  | @intro _ _ _ superclass methods _ hmethods _ _ ih =>
      rw [Class.findMethod_eq] at hfind
      split at hfind
      next hown =>
        cases hfind
        exact hmethods.find? hown
      next =>
        cases superclass with
        | none => cases hfind
        | some parent => exact ih parent rfl hfind

theorem Class.Sound.findClassMethod {definition : Class} (h : definition.Sound R m) {name : String}
    {closure : Closure} (hfind : definition.findClassMethod name = some closure) :
    closure.Member R m .ofClass := by
  induction h with
  | @intro _ _ _ superclass _ classMethods _ hclassMethods _ ih =>
      rw [Class.findClassMethod, Metaclass.findMethod_eq] at hfind
      split at hfind
      next hown =>
        cases hfind
        exact hclassMethods.find? hown
      next =>
        cases superclass with
        | none => cases hfind
        | some parent => exact ih parent rfl hfind

/-- What a property access finds is a method for receivers of the kind it was accessed on. -/
theorem Value.Sound.findMethod {v : Value} (h : v.Sound R m) {name : String} {closure : Closure}
    (hfind : v.findMethod name = some closure) :
    closure.Member R m v.receiverKind := by
  cases v with
  | object inst => exact Class.Sound.findMethod h hfind
  | classValue definition => exact Class.Sound.findClassMethod h hfind
  | nil | bool _ | number _ | string _ | function _ | native _ | traitValue _ => cases hfind

end Lookup

section Growth

variable {R R' : Regime} {m m' : Machine} (hle : R.Below R') (hext : m.Extends m')

theorem Regime.Below.refl (R : Regime) : R.Below R := fun _ _ h => h

include hle hext

theorem Closure.Bound.mono {closure : Closure} (h : closure.Bound R m) : closure.Bound R' m' := by
  obtain ⟨⟨p, kind, hkind, hallows, hlinked⟩, hreceiver⟩ := h
  refine ⟨⟨p, kind, hkind, hallows.mono hle, hlinked.mono hext⟩, fun hinitializer => ?_⟩
  obtain ⟨decl, v, horigin⟩ := hreceiver hinitializer
  exact ⟨decl, v, hext.origins horigin⟩

theorem Closure.Member.mono {kind : MethodKind} {closure : Closure} (h : closure.Member R m kind) :
    closure.Member R' m' kind := by
  obtain ⟨p, hallows, hlinked⟩ := h
  exact ⟨p, hallows.mono hle, hlinked.mono hext⟩

theorem MethodTable.Sound.mono {kind : MethodKind} {table : MethodTable}
    (h : MethodTable.Sound R m kind table) :
    MethodTable.Sound R' m' kind table :=
  fun entry hentry => (h entry hentry).mono hle hext

theorem Class.Sound.mono {definition : Class} (h : definition.Sound R m) :
    definition.Sound R' m' := by
  induction h with
  | intro hmethods hclassMethods _ ih =>
    exact .intro (hmethods.mono hle hext) (hclassMethods.mono hle hext) ih

theorem Value.Sound.mono {v : Value} (h : v.Sound R m) : v.Sound R' m' := by
  cases v with
  | function _ => exact Closure.Bound.mono hle hext h
  | classValue _ => exact Class.Sound.mono hle hext h
  | object _ => exact Class.Sound.mono hle hext h
  | traitValue _ => exact ⟨MethodTable.Sound.mono hle hext h.1, MethodTable.Sound.mono hle hext h.2⟩
  | native _ =>
      obtain ⟨native, hnative⟩ := h
      exact ⟨native, hext.natives hnative⟩
  | nil | bool _ | number _ | string _ => trivial

end Growth

/-! ### Machines -/

/-- All that a machine holds is sound, and what it knows of distances, receivers and superclasses is
right. -/
structure Regime.Sound (R : Regime) (m : Machine) : Prop where
  size : m.origins.size = m.frames.size
  root : m.origins[m.globals]? = some .globals
  slots : ∀ {frame : FrameId} {name : String} {v : Value}, (m.frames.slots frame).find? name =
      some (some v) → v.Sound R m
  fields : ∀ {holder : Nat} {table : Table Value} {name : String} {v : Value},
      m.fields[holder]? = some table →
    table.find? name = some v → v.Sound R m
  natives : ∀ native ∈ m.natives, native.Honest ∧ R.hosts native
  distances : R.fromText → ∀ id : Nat, m.distances[id]? = R.distances id
  receivers : R.fromText → ∀ {frame : FrameId} {decl : FunctionDecl} {v : Value},
      m.origins[frame]? = some (.receiver decl v) →
    (m.frames.slots frame).find? "this" = some (some v)
  superclasses : R.fromText → ∀ {frame : FrameId} {declaration : Stmt} {definition : Class},
    m.origins[frame]? = some (.superclass declaration definition) →
    (m.frames.slots frame).find? "super" = some (some (.classValue definition))

namespace Regime.Sound

variable {R : Regime} {m m' : Machine}

/-- What a machine writes, reads from outside or counts does not matter. -/
theorem congr (h : R.Sound m) (hframes : m'.frames = m.frames) (horigins : m'.origins = m.origins)
    (hglobals : m'.globals = m.globals) (hfields : m'.fields = m.fields)
    (hnatives : m'.natives = m.natives) (hdistances : m'.distances = m.distances) : R.Sound m' := by
  have hext : m.Extends m' :=
    ⟨hglobals, fun ho => by rw [horigins]; exact ho, fun he => by rw [hframes]; exact he,
    fun hn => by rw [hnatives]; exact hn⟩
  constructor
  · rw [hframes, horigins]
    exact h.size
  · rw [hglobals, horigins]
    exact h.root
  · intro frame name v hv
    rw [hframes] at hv
    exact (h.slots hv).mono (.refl R) hext
  · intro holder table name v htable hv
    rw [hfields] at htable
    exact (h.fields htable hv).mono (.refl R) hext
  · rw [hnatives]
    exact h.natives
  · rw [hdistances]
    exact h.distances
  · rw [hframes, horigins]
    exact h.receivers
  · rw [hframes, horigins]
    exact h.superclasses

/-- A frame may be added whose variables have sound values and which binds what it was made for. -/
theorem addFrame (h : R.Sound m) {origin : Origin} {frame : Frame Value}
    (hslots : ∀ {name : String} {v : Value}, frame.slots.find? name = some (some v) → v.Sound R m)
    (hreceiver : R.fromText → ∀ {decl : FunctionDecl} {v : Value}, origin = .receiver decl v →
      frame.slots.find? "this" = some (some v))
    (hsuper : R.fromText → ∀ {declaration : Stmt} {definition : Class},
      origin = .superclass declaration definition →
      frame.slots.find? "super" = some (some (.classValue definition))) :
    R.Sound (m.addFrame origin frame) := by
  have hext := m.extends_addFrame origin frame
  have hnew : ∀ {id : FrameId} {other : Origin},
      (m.addFrame origin frame).origins[id]? = some other →
      if id = m.frames.size then origin = other else m.origins[id]? = some other := by
    intro id other hother
    rw [Machine.addFrame, Array.getElem?_push, h.size] at hother
    split at hother
    · rename_i hid
      rw [if_pos hid]
      exact Option.some.inj hother
    · rename_i hid
      rw [if_neg hid]
      exact hother
  constructor
  · simp [Machine.addFrame, h.size]
  · exact hext.origins h.root
  · intro id name v hv
    rw [Machine.addFrame, FrameStore.slots_add] at hv
    split at hv
    · exact (hslots hv).mono (.refl R) hext
    · exact (h.slots hv).mono (.refl R) hext
  · exact fun htable hv => (h.fields htable hv).mono (.refl R) hext
  · exact h.natives
  · exact h.distances
  · intro htext id decl v hv
    have hcase := hnew hv
    rw [Machine.addFrame, FrameStore.slots_add]
    split at hcase
    · rename_i hid
      rw [if_pos hid]
      exact hreceiver htext hcase
    · rename_i hid
      rw [if_neg hid]
      exact h.receivers htext hcase
  · intro htext id declaration definition hv
    have hcase := hnew hv
    rw [Machine.addFrame, FrameStore.slots_add]
    split at hcase
    · rename_i hid
      rw [if_pos hid]
      exact hsuper htext hcase
    · rename_i hid
      rw [if_neg hid]
      exact h.superclasses htext hcase

/-- What is recorded of an occurrence is the distance at its place. -/
theorem distance_eq (h : R.Sound m) (htext : R.fromText) {p : Place} {use : Use} {id : Nat}
    {name : String} (hlegal : R.legal p use) (hlookup : use.lookup? = some (id, name)) :
    m.distances[id]? = p.distance? name :=
  (h.distances htext id).trans (R.lookup_distance htext hlegal hlookup)

/-- The frame of a site is not the global one. -/
theorem ne_globals (h : R.Sound m) {frame : FrameId} {site : Site}
    (hsite : m.site? frame = some site) : frame ≠ m.globals := by
  intro heq
  rw [Machine.site?, heq, h.root] at hsite
  cases hsite

/-- The machine after setting a variable. -/
theorem extends_bind (m : Machine) (frame : FrameId) (name : String) (value : Option Value) :
    m.Extends { m with frames := m.frames.bind frame name value } :=
  ⟨rfl, id, fun he => by rw [FrameStore.enclosing?_bind]; exact he, id⟩

/-- Variables may be set to sound values, in text only under ordinary names unless they are
global. -/
theorem bind (h : R.Sound m) {frame : FrameId} {name : String} {value : Option Value}
    (hvalue : ∀ v, value = some v → v.Sound R m)
    (hname : R.fromText → Ordinary name ∨ frame = m.globals) :
    R.Sound { m with frames := m.frames.bind frame name value } := by
  have hext := extends_bind m frame name value
  constructor
  · rw [FrameStore.size_bind]
    exact h.size
  · exact h.root
  · intro id other v hv
    rw [FrameStore.find?_slots_bind] at hv
    split at hv
    · exact (hvalue v (Option.some.inj hv)).mono (.refl R) hext
    · exact (h.slots hv).mono (.refl R) hext
  · exact fun htable hv => (h.fields htable hv).mono (.refl R) hext
  · exact h.natives
  · exact h.distances
  · intro htext id decl v hv
    rw [FrameStore.find?_slots_bind, if_neg]
    · exact h.receivers htext hv
    · rintro ⟨hid, -, hthis⟩
      rcases hname htext with hordinary | hglobal
      · exact hordinary.1 hthis
      · exact h.ne_globals (show m.site? id = _ by rw [Machine.site?, hv]; rfl) (hid.trans hglobal)
  · intro htext id declaration definition hv
    rw [FrameStore.find?_slots_bind, if_neg]
    · exact h.superclasses htext hv
    · rintro ⟨hid, -, hsuper⟩
      rcases hname htext with hordinary | hglobal
      · exact hordinary.2 hsuper
      · exact h.ne_globals (show m.site? id = _ by rw [Machine.site?, hv]; rfl) (hid.trans hglobal)

/-- An identity with no fields may be added. -/
theorem newHolder (h : R.Sound m) : R.Sound { m with fields := m.fields.push ∅ } := by
  have hext : m.Extends { m with fields := m.fields.push ∅ } := ⟨rfl, id, id, id⟩
  refine ⟨h.size, h.root, fun hv => (h.slots hv).mono (.refl R) hext, ?_, h.natives, h.distances,
    h.receivers, h.superclasses⟩
  intro holder table name v htable hv
  rw [Array.getElem?_push] at htable
  split at htable
  · rw [← Option.some.inj htable] at hv
    cases hv
  · exact (h.fields htable hv).mono (.refl R) hext

theorem setField (h : R.Sound m) {holder : Nat} {name : String} {value : Value}
    (hvalue : value.Sound R m) :
    R.Sound { m with fields := m.fields.modify holder (·.insert name value) } := by
  have hext : m.Extends { m with fields := m.fields.modify holder (·.insert name value) } :=
    ⟨rfl, id, id, id⟩
  refine ⟨h.size, h.root, fun hv => (h.slots hv).mono (.refl R) hext, ?_, h.natives, h.distances,
    h.receivers, h.superclasses⟩
  intro id table other v htable hv
  rw [Array.getElem?_modify] at htable
  split at htable
  · obtain ⟨old, hold, rfl⟩ := Option.map_eq_some_iff.1 htable
    rw [Table.find?_insert] at hv
    split at hv
    · rw [← Option.some.inj hv]
      exact hvalue.mono (.refl R) hext
    · exact (h.fields hold hv).mono (.refl R) hext
  · exact (h.fields htable hv).mono (.refl R) hext

end Regime.Sound
end TraitScript
