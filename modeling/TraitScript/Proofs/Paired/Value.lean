import TraitScript.Eval.Class
import TraitScript.Proofs.Scope.Mirror
import TraitScript.Proofs.Value.Like

/-!
# Values and machines of two runs

Two programs that are alike are run side by side. The runs make the same frames in the same order; a
layout records for each frame its mark and the frame around it. In a marked frame the variables of
the second run may have other names. Values correspond when they are the same data, or functions,
classes, instances and traits with the same identity whose code is alike under the marks of the
frames around it. So do machines when all they hold does.
-/

namespace TraitScript

/-- How two programs correspond when they are run: as trees, in the names of variables, in the
distances recorded for occurrences, in lines, and in the names that errors speak of. What the second
run wrote before the first began is kept apart. -/
structure Pairing where
  trees : Correspondence
  rename : Bool → String → String
  left : Nat → Option Nat
  right : Nat → Option Nat
  lines : Nat → Nat → Prop
  said : String → String → Prop
  earlier : String
  rename_false : ∀ name, rename false name = name
  rename_this : ∀ mark, rename mark "this" = "this"
  rename_super : ∀ mark, rename mark "super" = "super"
  said_this : said "this" "this"
  said_super : said "super" "super"
  injective : ∀ mark, Function.Injective (rename mark)
  of_token : ∀ {t t'}, trees.token t t' → t'.kind = t.kind ∧ t'.lexeme = t.lexeme ∧
      lines t.line t'.line
  of_occurrence : ∀ {marks id t id' t'}, trees.occurrence marks id t id' t' →
    right id' = left id ∧ t'.lexeme = rename (markAt marks (left id)) t.lexeme ∧
      lines t.line t'.line ∧ said t.lexeme t'.lexeme
  of_receiver : ∀ {marks id t id' t'}, trees.receiver marks id t id' t' →
    right id' = left id ∧ t'.lexeme = rename (markAt marks (left id)) t.lexeme ∧
      lines t.line t'.line ∧ said t.lexeme t'.lexeme
  of_declared : ∀ {mark t t'}, trees.declared mark t t' → t'.lexeme = rename mark t.lexeme
  of_named : ∀ {mark t t'}, trees.named mark t t' → t'.lexeme = t.lexeme ∧
      rename mark t.lexeme = t.lexeme ∧ lines t.line t'.line

/-! ### Layouts -/

/-- For each frame its mark and the frame around it. -/
abbrev Layout := List (Bool × Option FrameId)

/-- The frames from one outward have given marks, and lie in a global frame. -/
inductive Layout.Chain (L : Layout) : List Bool → FrameId → Prop
  | globals {frame : FrameId} (h : L[frame]? = some (false, none)) : Layout.Chain L [] frame
  | cons {mark : Bool} {marks : List Bool} {frame outer : FrameId}
      (h : L[frame]? = some (mark, some outer)) (hrest : Layout.Chain L marks outer) :
      Layout.Chain L (mark :: marks) frame

theorem Layout.getElem?_mono {L L' : Layout} (hle : L <+: L') {frame : FrameId}
    {entry : Bool × Option FrameId} (h : L[frame]? = some entry) :
    L'[frame]? = some entry := by
  obtain ⟨rest, rfl⟩ := hle
  rw [List.getElem?_append_left (List.getElem?_eq_some_iff.1 h).1]
  exact h

theorem Layout.Chain.mono {L L' : Layout} (hle : L <+: L') {marks : List Bool} {frame : FrameId}
    (h : L.Chain marks frame) :
    L'.Chain marks frame := by
  induction h with
  | globals h => exact .globals (Layout.getElem?_mono hle h)
  | cons h _ ih => exact .cons (Layout.getElem?_mono hle h) ih

/-- Every frame on a chain has an entry, with the innermost of the marks. -/
theorem Layout.Chain.entry {L : Layout} {marks : List Bool} {frame : FrameId}
    (h : L.Chain marks frame) :
    ∃ outer, L[frame]? = some (innermost marks, outer) := by
  cases h with
  | globals h => exact ⟨_, h⟩
  | cons h _ => exact ⟨_, h⟩

/-! ### Values -/

/-- Functions with the same identity and frame. Between the frame of a method and its code there is
still a frame to come, where `this` is bound; `between` has the marks of such frames. -/
structure Closure.Alike (P : Pairing) (L : Layout) (between : List Bool)
    (closure closure' : Closure) : Prop where
  id : closure'.id = closure.id
  frame : closure'.frame = closure.frame
  isInitializer : closure'.isInitializer = closure.isInitializer
  code : ∃ marks, L.Chain marks closure.frame ∧
      FunctionDecl.Alike P.trees (between ++ marks) closure.decl closure'.decl

/-- Methods of a class or trait under the same names. -/
def MethodTable.Alike (P : Pairing) (L : Layout) (methods methods' : MethodTable) : Prop :=
  Table.Alike (fun name => name) (Closure.Alike P L [false]) methods methods'

inductive Class.Alike (P : Pairing) (L : Layout) : Class → Class → Prop
  | root {id : Nat} {name metaName : String}
      {methods methods' classMethods classMethods' : MethodTable}
      (hmethods : methods.Alike P L methods')
      (hclassMethods : classMethods.Alike P L classMethods') :
      Class.Alike P L ⟨id, name, ⟨metaName, none, classMethods⟩, none, methods⟩
        ⟨id, name, ⟨metaName, none, classMethods'⟩, none, methods'⟩
  | derived {id : Nat} {name metaName : String} {parent parent' : Class}
      {methods methods' classMethods classMethods' : MethodTable}
      (hparent : Class.Alike P L parent parent') (hmethods : methods.Alike P L methods')
      (hclassMethods : classMethods.Alike P L classMethods') :
      Class.Alike P L
        ⟨id, name, ⟨metaName, some parent.metaclass, classMethods⟩, some parent, methods⟩
        ⟨id, name, ⟨metaName, some parent'.metaclass, classMethods'⟩, some parent', methods'⟩

inductive Value.Alike (P : Pairing) (L : Layout) : Value → Value → Prop
  | nil : Value.Alike P L .nil .nil
  | bool (value : Bool) : Value.Alike P L (.bool value) (.bool value)
  | number (value : Float) : Value.Alike P L (.number value) (.number value)
  | string (text : String) : Value.Alike P L (.string text) (.string text)
  | function {closure closure' : Closure} (h : closure.Alike P L [] closure') :
      Value.Alike P L (.function closure) (.function closure')
  | native (ref : NativeRef) : Value.Alike P L (.native ref) (.native ref)
  | classValue {definition definition' : Class} (h : definition.Alike P L definition') :
      Value.Alike P L (.classValue definition) (.classValue definition')
  | object (id : Nat) {definition definition' : Class} (h : definition.Alike P L definition') :
      Value.Alike P L (.object ⟨id, definition⟩) (.object ⟨id, definition'⟩)
  | traitValue (id : Nat) (name : String)
      {methods methods' classMethods classMethods' : MethodTable}
      (hmethods : methods.Alike P L methods')
      (hclassMethods : classMethods.Alike P L classMethods') :
      Value.Alike P L (.traitValue ⟨id, name, methods, classMethods⟩)
        (.traitValue ⟨id, name, methods', classMethods'⟩)

section Growth

variable {P : Pairing} {L L' : Layout}

theorem Closure.Alike.mono (hle : L <+: L') {between : List Bool} {closure closure' : Closure}
    (h : closure.Alike P L between closure') :
    closure.Alike P L' between closure' := by
  obtain ⟨marks, hchain, hcode⟩ := h.code
  exact ⟨h.id, h.frame, h.isInitializer, marks, hchain.mono hle, hcode⟩

theorem MethodTable.Alike.mono (hle : L <+: L') {methods methods' : MethodTable}
    (h : methods.Alike P L methods') : methods.Alike P L' methods' :=
  Table.Alike.imp h fun hmethod => hmethod.mono hle

theorem Class.Alike.mono (hle : L <+: L') {definition definition' : Class}
    (h : definition.Alike P L definition') :
    definition.Alike P L' definition' := by
  induction h with
  | root hmethods hclassMethods => exact .root (hmethods.mono hle) (hclassMethods.mono hle)
  | derived _ hmethods hclassMethods ih =>
    exact .derived ih (hmethods.mono hle) (hclassMethods.mono hle)

theorem Value.Alike.mono (hle : L <+: L') {v v' : Value} (h : v.Alike P L v') :
    v.Alike P L' v' := by
  cases h with
  | nil => exact .nil
  | bool value => exact .bool value
  | number value => exact .number value
  | string text => exact .string text
  | function h => exact .function (h.mono hle)
  | native ref => exact .native ref
  | classValue h => exact .classValue (h.mono hle)
  | object id h => exact .object id (h.mono hle)
  | traitValue id name hmethods hclassMethods =>
    exact .traitValue id name (hmethods.mono hle) (hclassMethods.mono hle)

end Growth

/-! ### What a script can tell -/

section Observations

variable {P : Pairing} {L : Layout}

theorem FunctionDecl.Alike.name_eq {marks : List Bool} {decl decl' : FunctionDecl}
    (h : FunctionDecl.Alike P.trees marks decl decl') :
    decl'.name.map (·.lexeme) = decl.name.map (·.lexeme) := by
  cases h with
  | intro _ hname _ _ =>
      rcases rel_cases hname with ⟨rfl, rfl⟩ | ⟨t, t', rfl, rfl, ht⟩
      · rfl
      · simp only [Option.map_some, (P.of_token ht).2.1]

theorem FunctionDecl.Alike.key_eq {marks : List Bool} {decl decl' : FunctionDecl}
    (h : FunctionDecl.Alike P.trees marks decl decl') :
    decl'.key = decl.key := by
  have hname := h.name_eq
  unfold FunctionDecl.key
  cases hleft : decl.name with
  | none =>
      cases hright : decl'.name with
      | none => rfl
      | some t' => simp [hleft, hright] at hname
  | some t =>
      cases hright : decl'.name with
      | none => simp [hleft, hright] at hname
      | some t' => simpa [hleft, hright] using hname

theorem FunctionDecl.Alike.arity_eq {marks : List Bool} {decl decl' : FunctionDecl}
    (h : FunctionDecl.Alike P.trees marks decl decl') :
    decl'.params.length = decl.params.length := by
  cases h with
  | intro _ _ hparams _ => exact hparams.length_eq.symm

theorem FunctionDecl.Alike.isGetter_eq {marks : List Bool} {decl decl' : FunctionDecl}
    (h : FunctionDecl.Alike P.trees marks decl decl') :
    decl'.isGetter = decl.isGetter := by
  cases h with
  | intro _ _ _ _ => rfl

theorem Closure.Alike.name?_eq {between : List Bool} {closure closure' : Closure}
    (h : closure.Alike P L between closure') :
    closure'.name? = closure.name? := by
  obtain ⟨marks, -, hcode⟩ := h.code
  exact hcode.name_eq

theorem Closure.Alike.arity_eq {between : List Bool} {closure closure' : Closure}
    (h : closure.Alike P L between closure') :
    closure'.arity = closure.arity := by
  obtain ⟨marks, -, hcode⟩ := h.code
  exact hcode.arity_eq

theorem Closure.Alike.isGetter_eq {between : List Bool} {closure closure' : Closure}
    (h : closure.Alike P L between closure') :
    closure'.isGetter = closure.isGetter := by
  obtain ⟨marks, -, hcode⟩ := h.code
  exact hcode.isGetter_eq

/-- A script that does not call them cannot tell the functions apart. -/
theorem Closure.Alike.resembles {between : List Bool} {closure closure' : Closure}
    (h : closure.Alike P L between closure') :
    closure.Resembles closure' :=
  ⟨h.id, h.name?_eq, h.arity_eq, h.isGetter_eq⟩

theorem MethodTable.Alike.contains {methods methods' : MethodTable} (h : methods.Alike P L methods')
    (name : String) :
    methods'.contains name = methods.contains name :=
  MethodTable.Like.contains h name

theorem MethodTable.Alike.insert {methods methods' : MethodTable} (h : methods.Alike P L methods')
    (name : String) {method method' : Closure} (hmethod : method.Alike P L [false] method') :
    MethodTable.Alike P L (methods.insert name method) (methods'.insert name method') :=
  MethodTable.Like.insert h name hmethod

theorem Class.alike_iff_like {definition definition' : Class} :
    definition.Alike P L definition' ↔ definition.Like (Closure.Alike P L [false]) definition' := by
  refine ⟨fun h => ?_, fun h => ?_⟩
  · induction h with
    | root hmethods hclassMethods => exact .root hmethods hclassMethods
    | derived _ hmethods hclassMethods ih => exact .derived ih hmethods hclassMethods
  · induction h with
    | root hmethods hclassMethods => exact .root hmethods hclassMethods
    | derived _ hmethods hclassMethods ih => exact .derived ih hmethods hclassMethods

theorem Class.Alike.findMethod {definition definition' : Class}
    (h : definition.Alike P L definition') (name : String) :
    Option.Rel (Closure.Alike P L [false]) (definition.findMethod name)
      (definition'.findMethod name) :=
  (Class.alike_iff_like.1 h).findMethod name

theorem Class.Alike.findClassMethod {definition definition' : Class}
    (h : definition.Alike P L definition') (name : String) :
    Option.Rel (Closure.Alike P L [false]) (definition.findClassMethod name)
      (definition'.findClassMethod name) :=
  (Class.alike_iff_like.1 h).findClassMethod name

theorem Class.Alike.arity_eq {definition definition' : Class}
    (h : definition.Alike P L definition') : definition'.arity = definition.arity :=
  (Class.alike_iff_like.1 h).arity_eq Closure.Alike.resembles

variable {v v' u u' : Value}

theorem Value.alike_iff_like :
    v.Alike P L v' ↔ v.Like (Closure.Alike P L []) (Closure.Alike P L [false]) v' := by
  refine ⟨fun h => ?_, fun h => ?_⟩
  · cases h with
    | nil => exact .nil
    | bool value => exact .bool value
    | number value => exact .number value
    | string text => exact .string text
    | function h => exact .function h
    | native ref => exact .native ref
    | classValue h => exact .classValue (Class.alike_iff_like.1 h)
    | object id h => exact .object id (Class.alike_iff_like.1 h)
    | traitValue id name hmethods hclassMethods => exact .traitValue id name hmethods hclassMethods
  · cases h with
    | nil => exact .nil
    | bool value => exact .bool value
    | number value => exact .number value
    | string text => exact .string text
    | function h => exact .function h
    | native ref => exact .native ref
    | classValue h => exact .classValue (Class.alike_iff_like.2 h)
    | object id h => exact .object id (Class.alike_iff_like.2 h)
    | traitValue id name hmethods hclassMethods => exact .traitValue id name hmethods hclassMethods

theorem Value.Alike.isTruthy_eq (h : v.Alike P L v') : v'.isTruthy = v.isTruthy :=
  (Value.alike_iff_like.1 h).isTruthy_eq

theorem Value.Alike.display_eq (h : v.Alike P L v') : v'.display = v.display :=
  (Value.alike_iff_like.1 h).display_eq Closure.Alike.resembles

theorem Value.Alike.holder?_eq (h : v.Alike P L v') : v'.holder? = v.holder? :=
  (Value.alike_iff_like.1 h).holder?_eq

theorem Value.Alike.findMethod (h : v.Alike P L v') (name : String) :
    Option.Rel (Closure.Alike P L [false]) (v.findMethod name) (v'.findMethod name) :=
  (Value.alike_iff_like.1 h).findMethod name

theorem Value.alike_ofLiteral (value : Literal) :
    (Value.ofLiteral value).Alike P L (.ofLiteral value) :=
  Value.alike_iff_like.2 (Value.like_ofLiteral value)

/-- The contents of a value that is plain data. -/
def Value.data? : Value → Option Literal
  | .nil => some .nil
  | .bool value => some (.bool value)
  | .number value => some (.number value)
  | .string text => some (.string text)
  | _ => none

theorem Value.Alike.data?_eq (h : v.Alike P L v') : v'.data? = v.data? := by
  cases h <;> rfl

/-! ### Operators -/

/-- Results of an operator: the same error, or corresponding values. -/
inductive Operator.Alike (P : Pairing) (L : Layout) : Operator.Result → Operator.Result → Prop
  | ok {v v' : Value} (h : v.Alike P L v') : Operator.Alike P L (.ok v) (.ok v')
  | error (cause : RuntimeError.Cause) : Operator.Alike P L (.error cause) (.error cause)

theorem Operator.alike_of_like {result result' : Operator.Result}
    (h : Operator.Like (Closure.Alike P L []) (Closure.Alike P L [false]) result result') :
    Operator.Alike P L result result' := by
  cases h with
  | ok h => exact .ok (Value.alike_iff_like.2 h)
  | error cause => exact .error cause

theorem Operator.alike_unary (operator : Token.Kind) (h : v.Alike P L v') :
    Operator.Alike P L (Operator.unary operator v) (Operator.unary operator v') :=
  alike_of_like (Operator.like_unary operator (Value.alike_iff_like.1 h))

theorem Operator.alike_binary (operator : Token.Kind) (h : v.Alike P L v') (h' : u.Alike P L u') :
    Operator.Alike P L (Operator.binary operator v u) (Operator.binary operator v' u') :=
  alike_of_like (Operator.like_binary Closure.Alike.resembles operator (Value.alike_iff_like.1 h)
    (Value.alike_iff_like.1 h'))

theorem Operator.isDecided_eq (operator : Token.Kind) (h : v.Alike P L v') :
    Operator.isDecided operator v' = Operator.isDecided operator v :=
  Operator.isDecided_like operator (Value.alike_iff_like.1 h)

end Observations

end TraitScript
