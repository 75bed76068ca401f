import TraitScript.Proofs.Paired.Run
import TraitScript.Session

/-!
# Machines between two runs

Machines correspond when they start, and they still do when the correspondence becomes looser or
other distances are recorded. Running programs that are alike leaves corresponding machines in
top-level code.
-/

namespace TraitScript

variable {P P' : Pairing} {L : Layout} {m m' : Machine}

/-! ### Looser pairings -/

/-- One pairing allows at most the differences that another allows, with the same change of
names. -/
structure Pairing.Below (P P' : Pairing) : Prop where
  trees : P.trees.Below P'.trees
  rename : P'.rename = P.rename

theorem Closure.Alike.widen (hle : P.Below P') {between : List Bool} {closure closure' : Closure}
    (h : closure.Alike P L between closure') :
    closure.Alike P' L between closure' := by
  obtain ⟨marks, hchain, hcode⟩ := h.code
  exact ⟨h.id, h.frame, h.isInitializer, marks, hchain, hcode.mono hle.trees⟩

theorem MethodTable.Alike.widen (hle : P.Below P') {methods methods' : MethodTable}
    (h : methods.Alike P L methods') : methods.Alike P' L methods' :=
  Table.Alike.imp h fun hmethod => hmethod.widen hle

theorem Class.Alike.widen (hle : P.Below P') {definition definition' : Class}
    (h : definition.Alike P L definition') :
    definition.Alike P' L definition' := by
  induction h with
  | root hmethods hclassMethods => exact .root (hmethods.widen hle) (hclassMethods.widen hle)
  | derived _ hmethods hclassMethods ih =>
    exact .derived ih (hmethods.widen hle) (hclassMethods.widen hle)

theorem Value.Alike.widen (hle : P.Below P') {v v' : Value} (h : v.Alike P L v') :
    v.Alike P' L v' := by
  cases h with
  | nil => exact .nil
  | bool value => exact .bool value
  | number value => exact .number value
  | string text => exact .string text
  | function h => exact .function (h.widen hle)
  | native ref => exact .native ref
  | classValue h => exact .classValue (h.widen hle)
  | object id h => exact .object id (h.widen hle)
  | traitValue id name hmethods hclassMethods =>
    exact .traitValue id name (hmethods.widen hle) (hclassMethods.widen hle)

/-- Between two runs other distances may be recorded, and the output is taken away. -/
theorem Machines.widen (h : Machines P L m m') (hle : P.Below P')
    {distances distances' : Std.TreeMap Nat Nat}
    (hdistances : (∀ id : Nat, distances[id]? = P'.left id) ∧
      ∀ id : Nat, distances'[id]? = P'.right id)
    {output output' : String} (houtput : output' = P'.earlier ++ output) :
    Machines P' L { m with distances := distances, output := output }
      { m' with distances := distances', output := output' } where
  frames :=
    { size := h.frames.size
      slots := fun hframe => by
        rw [hle.rename]
        exact (h.frames.slots hframe).imp fun hvalue => rel_weaken hvalue fun h => h.widen hle
      enclosing := h.frames.enclosing }
  fields := ⟨h.fields.1, fun holder => rel_weaken (h.fields.2 holder) fun htable => htable.imp
    fun hvalue => hvalue.widen hle⟩
  globals := h.globals
  current := h.current
  nextId := h.nextId
  distances := hdistances
  natives := h.natives
  output := houtput
  world := h.world

/-! ### The start -/

theorem Native.plain_clock : clock.Plain where
  answers := ⟨fun _ => .readClock fun seconds => .done (.number seconds), fun _ => rfl⟩
  action _ _ := rfl

/-- What `randint` does, told from the plain data among its arguments. -/
def Native.randintAnswer : List (Option Literal) → Action
  | [some (.number a), some (.number b)] =>
    if upperBound b < lowerBound a then .fail (.randintRange (lowerBound a) (upperBound b))
    else .pick (lowerBound a) (upperBound b) fun n => .done (.number (Float.ofInt n))
  | _ => .fail .randintArguments

theorem Native.plain_randint : randint.Plain where
  answers := by
    refine ⟨randintAnswer, fun arguments => ?_⟩
    rcases arguments with _ | ⟨a, _ | ⟨b, _ | ⟨c, rest⟩⟩⟩
    · rfl
    · cases a <;> rfl
    · cases a <;> cases b <;> rfl
    · cases a <;> cases b <;> rfl
  action arguments := by
    unfold randint
    dsimp only
    split
    · split
      · trivial
      · exact fun _ => rfl
    · trivial

/-- What `input` does, told from the plain data among its arguments. -/
def Native.inputAnswer : List (Option Literal) → Action
  | [some (.string prompt)] =>
    .write prompt <| .readLine fun
      | some line => .done (.string (trimLine line))
      | none => .done .nil
  | _ => .fail .inputArgument

theorem Native.plain_input : input.Plain where
  answers := by
    refine ⟨inputAnswer, fun arguments => ?_⟩
    rcases arguments with _ | ⟨a, _ | ⟨b, rest⟩⟩
    · rfl
    · cases a <;> rfl
    · cases a <;> rfl
  action arguments := by
    unfold input
    dsimp only
    split
    · intro line
      cases line <;> rfl
    · trivial

theorem Native.plain_standard : ∀ native ∈ standard, native.Plain := by
  intro native hnative
  simp only [standard, List.mem_cons, List.not_mem_nil, or_false] at hnative
  rcases hnative with rfl | rfl | rfl
  · exact plain_clock
  · exact plain_randint
  · exact plain_input

theorem Machines.addNative (h : Machines P L m m') {native : Native} (hnative : native.Plain) :
    Machines P L (m.addNative native) (m'.addNative native) := by
  have hbound :=
    h.bind h.globals.1 native.name (.some (.native ⟨m.natives.size, native.name, native.arity⟩))
  rw [P.rename_false] at hbound
  unfold Machine.addNative
  rw [h.natives.1, h.globals.2]
  refine { hbound with globals := ⟨h.globals.1, rfl⟩, natives := ⟨rfl, fun other hother => ?_⟩ }
  rcases Array.mem_push.1 hother with hold | rfl
  · exact h.natives.2 other hold
  · exact hnative

/-- A pairing for runs that have not met a program yet. -/
def Pairing.blank (P : Pairing) : Pairing :=
  { P with
    trees := ⟨fun _ _ => False, fun _ _ _ _ _ => False, fun _ _ _ _ _ => False, fun _ _ _ => False,
      fun _ _ _ => False⟩
    left := fun _ => none
    right := fun _ => none
    earlier := ""
    of_token := False.elim
    of_occurrence := False.elim
    of_receiver := False.elim
    of_declared := False.elim
    of_named := False.elim }

theorem Pairing.blank_below (P : Pairing) : P.blank.Below P :=
  ⟨⟨False.elim, False.elim, False.elim, False.elim, False.elim⟩, rfl⟩

/-- The layout of a machine that has run nothing. -/
def Layout.start : Layout := [(false, none)]

theorem Layout.eq_zero_of_start {frame : FrameId} {entry : Bool × Option FrameId}
    (h : Layout.start[frame]? = some entry) : frame = 0 :=
  Nat.lt_one_iff.1 (List.getElem?_eq_some_iff.1 h).1

theorem machines_bare (P : Pairing) (world : World) :
    Machines P.blank Layout.start (.bare world) (.bare world) where
  frames :=
    { size := ⟨rfl, rfl⟩
      slots := fun hframe => by
        obtain rfl := Layout.eq_zero_of_start hframe
        exact Table.alike_empty
      enclosing := fun hframe => by
        obtain rfl := Layout.eq_zero_of_start hframe
        cases hframe
        exact ⟨rfl, rfl⟩ }
  fields := ⟨rfl, fun _ => .none⟩
  globals := ⟨rfl, rfl⟩
  current := rfl
  nextId := rfl
  distances := ⟨fun _ => rfl, fun _ => rfl⟩
  natives := ⟨rfl, nofun⟩
  output := rfl
  world := rfl

theorem machines_start (P : Pairing) {natives : List Native}
    (hnatives : ∀ native ∈ natives, native.Plain) (world : World) :
    Machines P.blank Layout.start (.start natives world) (.start natives world) := by
  have hall : ∀ {m : Machine}, Machines P.blank Layout.start m m →
      Machines P.blank Layout.start (natives.foldl Machine.addNative m)
      (natives.foldl Machine.addNative m) := by
    induction natives with
    | nil => exact id
    | cons native rest ih =>
        intro m h
        exact ih (fun other hother => hnatives other (List.mem_cons_of_mem _ hother))
          (h.addNative (hnatives native (List.mem_cons_self ..)))
  exact hall (machines_bare P world)

theorem chain_start (natives : List Native) (world : World) :
    Layout.start.Chain [] (Machine.start natives world).current := by
  have hcurrent : ∀ {m : Machine}, m.current = 0 →
      (natives.foldl Machine.addNative m).current = 0 := by
    induction natives with
    | nil => exact id
    | cons native rest ih => exact fun h => ih h
  have hzero : (Machine.start natives world).current = 0 := hcurrent rfl
  rw [hzero]
  exact .globals rfl

/-! ### Programs -/

/-- Corresponding programs end in corresponding machines, in top-level code. -/
theorem interpret_alike (fuel : Nat) {statements statements' : List Stmt}
    (h : Stmt.AlikeAll P.trees [] statements statements') (hmachines : Machines P L m m')
    (hchain : L.Chain [] m.current) :
    (∃ L' n n', Eval.interpret (Eval.evaluators fuel) statements m = .ok () n ∧
      Eval.interpret (Eval.evaluators fuel) statements' m' = .ok () n' ∧
        Machines P L' n n' ∧ L'.Chain [] n.current) ∨
      ∃ L' stop stop' n n', Eval.interpret (Eval.evaluators fuel) statements m = .error stop n ∧
        Eval.interpret (Eval.evaluators fuel) statements' m' = .error stop' n' ∧
        Machines P L' n n' ∧ L'.Chain [] n.current ∧ stop.Alike P stop' := by
  unfold Eval.interpret
  rcases (Eval.agree_interpretFrom (Eval.agree_evaluators fuel) h m m' hmachines hchain).cases with
    ⟨L', _, _, n, n', hleft, hright, -, hmachines', hchain', -⟩ | ⟨L', stop, stop', n, n', hleft,
      hright, -, hmachines', hstop⟩
  · rw [hleft, hright]
    exact .inl ⟨L', n, n', rfl, rfl, hmachines', hchain'⟩
  · rw [hleft, hright]
    refine .inr ⟨L', stop, stop', _, _, rfl, rfl,
      { hmachines' with current := hmachines'.globals.2 }, ?_, hstop⟩
    exact .globals hmachines'.globals.1

end TraitScript
