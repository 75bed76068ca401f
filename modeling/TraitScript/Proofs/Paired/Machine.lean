import TraitScript.Proofs.Paired.Value

/-!
# Two machines side by side

Machines correspond when their frames have the marks and surroundings of a layout, the frames and
fields hold corresponding values, and all the rest is the same. `Agree` compares two computations
started in corresponding machines whose current frame lies under given marks: both end with
corresponding results, or both stop for corresponding reasons, and the machines correspond again
under a layout with further frames.

One rule for each way of putting computations together, and one lemma for each primitive of the
machine.
-/

namespace TraitScript

variable {P : Pairing} {L L' : Layout} {marks inner : List Bool}

/-! ### Frames -/

/-- Frames with the marks and surroundings of a layout. -/
structure FrameStore.Alike (P : Pairing) (L : Layout) (store store' : FrameStore Value) : Prop where
  size : store.size = L.length ∧ store'.size = L.length
  slots : ∀ {frame mark around}, L[frame]? = some (mark, around) →
    Table.Alike (P.rename mark) (Option.Rel (Value.Alike P L)) (store.slots frame)
    (store'.slots frame)
  enclosing : ∀ {frame mark around}, L[frame]? = some (mark, around) →
      store.enclosing? frame = around ∧ store'.enclosing? frame = around

/-- Errors of access, up to the name they speak of. -/
inductive FrameError.Alike (P : Pairing) : FrameError → FrameError → Prop
  | undefined {name name' : String} (h : P.said name name') :
      FrameError.Alike P (.undefined name) (.undefined name')
  | uninitialized {name name' : String} (h : P.said name name') :
      FrameError.Alike P (.uninitialized name) (.uninitialized name')
  | chainEnded (hops distance : Nat) :
      FrameError.Alike P (.chainEnded hops distance) (.chainEnded hops distance)

/-- Corresponding results or errors of access. -/
inductive FrameStore.Found {α β : Type} (P : Pairing) (Q : α → β → Prop) :
    Except FrameError α → Except FrameError β → Prop
  | ok {a : α} {b : β} (h : Q a b) : FrameStore.Found P Q (.ok a) (.ok b)
  | error {error error' : FrameError} (h : error.Alike P error') :
      FrameStore.Found P Q (.error error) (.error error')

namespace FrameStore

section Access

variable {store store' : FrameStore Value} {frame : FrameId} {name : String}

theorem slots_bind (store : FrameStore Value) {target : FrameId} (htarget : target < store.size)
    (name : String) (value : Option Value) (id : FrameId) :
    (store.bind target name value).slots id =
      if id = target then (store.slots id).insert name value else store.slots id := by
  by_cases hid : id = target
  · subst hid
    have hsize : id < store.frames.size := htarget
    simp [bind, slots, Array.getElem_modify, hsize]
  · have hid' : ¬ target = id := fun h => hid h.symm
    simp [bind, slots, Array.getElem?_modify, hid, hid']

/-- A new frame extends the layout by its mark and the frame around it. -/
theorem Alike.add (h : store.Alike P L store') (mark : Bool) (around : Option FrameId)
    {slots slots' : Table (Option Value)}
    (hslots : Table.Alike (P.rename mark) (Option.Rel (Value.Alike P L)) slots slots') :
    FrameStore.Alike P (L ++ [(mark, around)]) (store.add ⟨slots, around⟩)
      (store'.add ⟨slots', around⟩) := by
  have hle : L <+: L ++ [(mark, around)] := List.prefix_append ..
  have hgrow : ∀ {v v' : Option Value}, Option.Rel (Value.Alike P L) v v' →
      Option.Rel (Value.Alike P (L ++ [(mark, around)])) v v' :=
    fun hv => rel_weaken hv fun hvalue => hvalue.mono hle
  have hlast : ∀ {id : Nat} {entry : Bool × Option FrameId},
      (L ++ [(mark, around)])[id]? = some entry →
      (id = L.length ∧ entry = (mark, around)) ∨ (id ≠ L.length ∧ L[id]? = some entry) := by
    intro id entry hentry
    rw [List.getElem?_append] at hentry
    split at hentry
    next hlt => exact .inr ⟨Nat.ne_of_lt hlt, hentry⟩
    next hge =>
      obtain ⟨hid, hentry⟩ := List.getElem?_eq_some_iff.1 hentry
      have hzero : id = L.length := by
        simp only [List.length_singleton] at hid
        omega
      subst hzero
      simp only [Nat.sub_self, List.getElem_cons_zero] at hentry
      exact .inl ⟨rfl, hentry.symm⟩
  refine ⟨by simp [h.size.1, h.size.2], fun hentry => ?_, fun hentry => ?_⟩
  · rw [slots_add, slots_add, h.size.1, h.size.2]
    rcases hlast hentry with ⟨rfl, hnew⟩ | ⟨hne, hold⟩
    · cases hnew
      rw [if_pos rfl, if_pos rfl]
      exact hslots.imp hgrow
    · rw [if_neg hne, if_neg hne]
      exact (h.slots hold).imp hgrow
  · rw [enclosing?_add, enclosing?_add, h.size.1, h.size.2]
    rcases hlast hentry with ⟨rfl, hnew⟩ | ⟨hne, hold⟩
    · cases hnew
      rw [if_pos rfl, if_pos rfl]
      exact ⟨rfl, rfl⟩
    · rw [if_neg hne, if_neg hne]
      exact h.enclosing hold

theorem Alike.bind (h : store.Alike P L store') {mark : Bool} {around : Option FrameId}
    (hframe : L[frame]? = some (mark, around)) (name : String) {value value' : Option Value}
    (hvalue : Option.Rel (Value.Alike P L) value value') :
    FrameStore.Alike P L (store.bind frame name value)
      (store'.bind frame (P.rename mark name) value') := by
  have hlt : frame < L.length := (List.getElem?_eq_some_iff.1 hframe).1
  refine ⟨by simp [h.size.1, h.size.2], fun {id _ _} hid => ?_, fun hid => ?_⟩
  · rw [slots_bind store (h.size.1 ▸ hlt), slots_bind store' (h.size.2 ▸ hlt)]
    by_cases heq : id = frame
    · subst heq
      rw [hframe] at hid
      cases hid
      rw [if_pos rfl, if_pos rfl]
      exact (h.slots hframe).insert
        (Table.distinguishes_of_injective (P.injective mark) _ name) rfl hvalue
    · rw [if_neg heq, if_neg heq]
      exact h.slots hid
  · rw [enclosing?_bind, enclosing?_bind]
    exact h.enclosing hid

theorem Alike.read (h : store.Alike P L store') {mark : Bool} {around : Option FrameId}
    (hframe : L[frame]? = some (mark, around)) (hsaid : P.said name (P.rename mark name)) :
    Found P (Value.Alike P L) (store.read frame name) (store'.read frame (P.rename mark name)) := by
  have hfind := (h.slots hframe).find? (Table.distinguishes_of_injective (P.injective mark) _ name)
  unfold FrameStore.read
  rcases rel_cases hfind with ⟨hleft, hright⟩ | ⟨value, value', hleft, hright, hvalue⟩
  · rw [hleft, hright]
    exact .error (.undefined hsaid)
  · rw [hleft, hright]
    rcases rel_cases hvalue with ⟨rfl, rfl⟩ | ⟨v, v', rfl, rfl, hv⟩
    · exact .error (.uninitialized hsaid)
    · exact .ok hv

theorem Alike.contains (h : store.Alike P L store') {mark : Bool} {around : Option FrameId}
    (hframe : L[frame]? = some (mark, around)) (name : String) :
    (store'.slots frame).contains (P.rename mark name) = (store.slots frame).contains name :=
  (h.slots hframe).contains (Table.distinguishes_of_injective (P.injective mark) _ name)

/-- Going outward leads to the same frame, whose mark is the one at that distance. -/
theorem Alike.ancestorFrom (h : store.Alike P L store') (distance left : Nat)
    (hchain : L.Chain marks frame) :
    Found P (fun target target' => target' = target ∧
      ∃ around, L[target]? = some (marks.getD left false, around))
      (store.ancestorFrom distance left frame) (store'.ancestorFrom distance left frame) := by
  induction left generalizing frame marks with
  | zero =>
      obtain ⟨around, hentry⟩ := hchain.entry
      refine .ok ⟨rfl, around, ?_⟩
      rw [hentry]
      cases marks <;> rfl
  | succ left ih =>
      rw [FrameStore.ancestorFrom, FrameStore.ancestorFrom]
      cases hchain with
      | globals hentry =>
          rw [(h.enclosing hentry).1, (h.enclosing hentry).2]
          exact .error (.chainEnded _ _)
      | cons hentry hrest =>
          rw [(h.enclosing hentry).1, (h.enclosing hentry).2]
          exact ih hrest

theorem Alike.ancestor (h : store.Alike P L store') (distance : Nat)
    (hchain : L.Chain marks frame) :
    Found P (fun target target' => target' = target ∧
      ∃ around, L[target]? = some (markAt marks (some distance), around))
      (store.ancestor frame distance) (store'.ancestor frame distance) :=
  h.ancestorFrom distance distance hchain

theorem Found.cases {α β : Type} {Q : α → β → Prop} {x : Except FrameError α}
    {y : Except FrameError β} (h : Found P Q x y) :
    (∃ a b, x = .ok a ∧ y = .ok b ∧ Q a b) ∨ ∃ error error', x = .error error ∧ y = .error error' ∧
      error.Alike P error' := by
  cases h with
  | ok h => exact .inl ⟨_, _, rfl, rfl, h⟩
  | error h => exact .inr ⟨_, _, rfl, rfl, h⟩

theorem Found.bind {α β γ δ : Type} {Q : α → β → Prop} {Q' : γ → δ → Prop} {x : Except FrameError α}
    {y : Except FrameError β} {f : α → Except FrameError γ} {g : β → Except FrameError δ}
    (h : Found P Q x y) (hf : ∀ a b, Q a b → Found P Q' (f a) (g b)) :
    Found P Q' (x >>= f) (y >>= g) := by
  cases h with
  | ok hab => exact hf _ _ hab
  | error herror => exact .error herror

theorem Alike.getAt (h : store.Alike P L store') (distance : Nat) (hchain : L.Chain marks frame)
    (hsaid : P.said name (P.rename (markAt marks (some distance)) name)) :
    Found P (Value.Alike P L) (store.getAt frame distance name)
      (store'.getAt frame distance (P.rename (markAt marks (some distance)) name)) := by
  apply (h.ancestor distance hchain).bind
  rintro target _ ⟨rfl, around, hentry⟩
  exact h.read hentry hsaid

theorem Alike.locateAt (h : store.Alike P L store') (distance : Nat) (hchain : L.Chain marks frame)
    (hsaid : P.said name (P.rename (markAt marks (some distance)) name)) :
    Found P (fun target target' => target' = target ∧
      ∃ around, L[target]? = some (markAt marks (some distance), around))
      (store.locateAt frame distance name)
      (store'.locateAt frame distance (P.rename (markAt marks (some distance)) name)) := by
  apply (h.ancestor distance hchain).bind
  rintro target _ ⟨rfl, around, hentry⟩
  rw [h.contains hentry name]
  split
  · exact .ok ⟨rfl, around, hentry⟩
  · exact .error (.undefined hsaid)

/-- Only the global frame itself is searched for globals. -/
theorem Alike.locate_globals (h : store.Alike P L store') (hframe : L[frame]? = some (false, none))
    (hsaid : P.said name name) :
    Found P (fun target target' => target' = target ∧ target = frame) (store.locate frame name)
      (store'.locate frame name) := by
  have hsame := h.contains hframe name
  rw [P.rename_false] at hsame
  unfold FrameStore.locate FrameStore.holder?
  rw [holderFrom, holderFrom, hsame, (h.enclosing hframe).1, (h.enclosing hframe).2]
  by_cases hfound : (store.slots frame).contains name = true
  · rw [if_pos hfound]
    exact .ok ⟨rfl, rfl⟩
  · rw [if_neg hfound]
    exact .error (.undefined hsaid)

theorem Alike.get_globals (h : store.Alike P L store') (hframe : L[frame]? = some (false, none))
    (hsaid : P.said name name) :
    Found P (Value.Alike P L) (store.get frame name) (store'.get frame name) := by
  apply (h.locate_globals hframe hsaid).bind
  rintro target _ ⟨rfl, rfl⟩
  have hsame := P.rename_false name
  have hread := h.read hframe (by rw [hsame]; exact hsaid)
  rw [hsame] at hread
  exact hread

end Access

end FrameStore

/-! ### Native functions -/

/-- A native function that ends with plain data and never calls back. -/
def Action.Plain : Action → Prop
  | .done value => value.data?.isSome = true
  | .fail _ => True
  | .write _ next => next.Plain
  | .readLine next => ∀ line, (next line).Plain
  | .readClock next => ∀ seconds, (next seconds).Plain
  | .pick _ _ next => ∀ n, (next n).Plain
  | .call .. => False

/-- What a native function does depends only on the plain data among its arguments. -/
structure Native.Plain (native : Native) : Prop where
  answers : ∃ answer : List (Option Literal) → Action, ∀ arguments,
      native.body arguments = answer (arguments.map Value.data?)
  action : ∀ arguments, (native.body arguments).Plain

theorem Value.alike_of_data? {v : Value} (h : v.data?.isSome = true) : v.Alike P L v := by
  cases v with
  | nil => exact .nil
  | bool value => exact .bool value
  | number value => exact .number value
  | string text => exact .string text
  | _ => cases h

/-! ### Machines -/

/-- Machines whose frames have a given layout. -/
structure Machines (P : Pairing) (L : Layout) (m m' : Machine) : Prop where
  frames : m.frames.Alike P L m'.frames
  fields : m'.fields.size = m.fields.size ∧
    ∀ holder : Nat, Option.Rel (Table.Alike (fun name => name) (Value.Alike P L)) m.fields[holder]?
      m'.fields[holder]?
  globals : L[m.globals]? = some (false, none) ∧ m'.globals = m.globals
  current : m'.current = m.current
  nextId : m'.nextId = m.nextId
  distances : (∀ id, m.distances[id]? = P.left id) ∧ ∀ id, m'.distances[id]? = P.right id
  natives : m'.natives = m.natives ∧ ∀ native ∈ m.natives, native.Plain
  output : m'.output = P.earlier ++ m.output
  world : m'.world = m.world

/-- The fields keep corresponding under a larger layout. -/
theorem Machines.fields_mono {m m' : Machine} (h : Machines P L m m') (hle : L <+: L') :
    m'.fields.size = m.fields.size ∧ ∀ holder : Nat,
      Option.Rel (Table.Alike (fun name => name) (Value.Alike P L')) m.fields[holder]?
      m'.fields[holder]? :=
  ⟨h.fields.1, fun holder => rel_weaken (h.fields.2 holder) fun htable => htable.imp fun hvalue =>
    hvalue.mono hle⟩

theorem Machines.addFrame {m m' : Machine} (h : Machines P L m m') (mark : Bool)
    (around : Option FrameId) {slots slots' : Table (Option Value)}
    (hslots : Table.Alike (P.rename mark) (Option.Rel (Value.Alike P L)) slots slots')
    (origin origin' : Origin) :
    Machines P (L ++ [(mark, around)])
      { m with frames := m.frames.add ⟨slots, around⟩, origins := m.origins.push origin }
      { m' with frames := m'.frames.add ⟨slots', around⟩, origins := m'.origins.push origin' } where
  frames := h.frames.add mark around hslots
  fields := h.fields_mono (List.prefix_append ..)
  globals := ⟨Layout.getElem?_mono (List.prefix_append ..) h.globals.1, h.globals.2⟩
  current := h.current
  nextId := h.nextId
  distances := h.distances
  natives := h.natives
  output := h.output
  world := h.world

theorem Machines.bind {m m' : Machine} (h : Machines P L m m') {frame : FrameId} {mark : Bool}
    {around : Option FrameId} (hframe : L[frame]? = some (mark, around)) (name : String)
    {value value' : Option Value} (hvalue : Option.Rel (Value.Alike P L) value value') :
    Machines P L { m with frames := m.frames.bind frame name value }
      { m' with frames := m'.frames.bind frame (P.rename mark name) value' } :=
  { h with frames := h.frames.bind hframe name hvalue }

/-- A new holder has no fields in either machine. -/
theorem Machines.addHolder {m m' : Machine} (h : Machines P L m m') :
    Machines P L { m with fields := m.fields.push ∅ } { m' with fields := m'.fields.push ∅ } := by
  obtain ⟨hsize, hfields⟩ := h.fields
  refine { h with fields := ⟨?_, fun holder => ?_⟩ }
  · simp only [Array.size_push, hsize]
  · simp only [Array.getElem?_push, hsize]
    split
    · exact .some Table.alike_empty
    · exact hfields holder

/-- Reasons for an error, up to the names they speak of. -/
inductive RuntimeError.Cause.Alike (P : Pairing) : RuntimeError.Cause → RuntimeError.Cause → Prop
  | same (cause : RuntimeError.Cause) : RuntimeError.Cause.Alike P cause cause
  | access {error error' : FrameError} (h : error.Alike P error') :
      RuntimeError.Cause.Alike P (.access error) (.access error')
  | notTrait {name name' : String} (h : P.said name name') :
      RuntimeError.Cause.Alike P (.notTrait name) (.notTrait name')

inductive Stop.Alike (P : Pairing) : Stop → Stop → Prop
  | error {cause cause' : RuntimeError.Cause} {line line' : Option Nat}
      (hcause : cause.Alike P cause') (hline : Option.Rel P.lines line line') :
      Stop.Alike P (.error ⟨cause, line⟩) (.error ⟨cause', line'⟩)
  | fault (fault : Fault) : Stop.Alike P (.fault fault) (.fault fault)
  | outOfFuel : Stop.Alike P .outOfFuel .outOfFuel

theorem FrameError.Alike.stop {error error' : FrameError} (h : error.Alike P error')
    {line line' : Option Nat} (hline : Option.Rel P.lines line line') :
    (Stop.ofFrameError line error).Alike P (.ofFrameError line' error') := by
  cases h with
  | undefined hsaid => exact .error (.access (.undefined hsaid)) hline
  | uninitialized hsaid => exact .error (.access (.uninitialized hsaid)) hline
  | chainEnded hops distance => exact .fault _

namespace Eval

variable {α β γ δ : Type} {Q : Layout → α → β → Prop} {Q' : Layout → γ → δ → Prop}

/-- How two computations end together, started under a layout. -/
inductive Together (P : Pairing) (L : Layout) (marks : List Bool) (Q : Layout → α → β → Prop) :
    EStateM.Result Stop Machine α → EStateM.Result Stop Machine β → Prop
  | ok {L' : Layout} {a : α} {b : β} {m m' : Machine} (hle : L <+: L')
      (hmachines : Machines P L' m m') (hchain : L'.Chain marks m.current)
      (h : Q L' a b) : Together P L marks Q (.ok a m) (.ok b m')
  | error {L' : Layout} {stop stop' : Stop} {m m' : Machine} (hle : L <+: L')
      (hmachines : Machines P L' m m') (h : stop.Alike P stop') :
      Together P L marks Q (.error stop m) (.error stop' m')

/-- Two computations that do the same in corresponding machines. -/
def Agree (P : Pairing) (L : Layout) (marks : List Bool) (x : Eval α) (y : Eval β)
    (Q : Layout → α → β → Prop) : Prop :=
  ∀ m m', Machines P L m m' → L.Chain marks m.current → Together P L marks Q (x m) (y m')

/-! ### Rules -/

theorem Together.cases {x : EStateM.Result Stop Machine α} {y : EStateM.Result Stop Machine β}
    (h : Together P L marks Q x y) :
    (∃ (L' : Layout) (a : α) (b : β) (m m' : Machine), x = .ok a m ∧ y = .ok b m' ∧ L <+: L' ∧
      Machines P L' m m' ∧ L'.Chain marks m.current ∧ Q L' a b) ∨
      ∃ (L' : Layout) (stop stop' : Stop) (m m' : Machine), x = .error stop m ∧
        y = .error stop' m' ∧ L <+: L' ∧ Machines P L' m m' ∧ stop.Alike P stop' := by
  cases h with
  | ok hle hmachines hchain h => exact .inl ⟨_, _, _, _, _, rfl, rfl, hle, hmachines, hchain, h⟩
  | error hle hmachines h => exact .inr ⟨_, _, _, _, _, rfl, rfl, hle, hmachines, h⟩

theorem Together.of_grown {x : EStateM.Result Stop Machine α} {y : EStateM.Result Stop Machine β}
    (hle : L <+: L') (h : Together P L' marks Q x y) :
    Together P L marks Q x y := by
  cases h with
  | ok hle' hmachines hchain h => exact .ok (hle.trans hle') hmachines hchain h
  | error hle' hmachines h => exact .error (hle.trans hle') hmachines h

theorem Agree.bind {x : Eval α} {y : Eval β} {f : α → Eval γ} {g : β → Eval δ}
    (hx : Agree P L marks x y Q)
    (hf : ∀ {L'} {a b}, L <+: L' → Q L' a b → Agree P L' marks (f a) (g b) Q') :
    Agree P L marks (x >>= f) (y >>= g) Q' := by
  intro m m' hmachines hchain
  simp only [Bind.bind, EStateM.bind]
  rcases (hx m m' hmachines hchain).cases with
    ⟨L', a, b, m₁, m₁', hleft, hright, hle, hmachines', hchain', hab⟩ |
    ⟨L', stop, stop', m₁, m₁', hleft, hright, hle, hmachines', hstop⟩
  · rw [hleft, hright]
    exact (hf hle hab m₁ m₁' hmachines' hchain').of_grown hle
  · rw [hleft, hright]
    exact .error hle hmachines' hstop

theorem agree_pure {a : α} {b : β} (h : Q L a b) : Agree P L marks (pure a) (pure b) Q :=
  fun _ _ hmachines hchain => .ok (List.prefix_refl L) hmachines hchain h

theorem agree_throw {stop stop' : Stop} (h : stop.Alike P stop') :
    Agree P L marks (throw stop : Eval α) (throw stop' : Eval β) Q :=
  fun _ _ hmachines _ => .error (List.prefix_refl L) hmachines h

theorem agree_raise {line line' : Option Nat} (hline : Option.Rel P.lines line line')
    (cause : RuntimeError.Cause) :
    Agree P L marks (raise line cause : Eval α) (raise line' cause : Eval β) Q :=
  agree_throw (.error (.same cause) hline)

theorem agree_raiseAt {t t' : Token} (ht : P.lines t.line t'.line)
    {cause cause' : RuntimeError.Cause} (hcause : cause.Alike P cause') :
    Agree P L marks (raiseAt t cause : Eval α) (raiseAt t' cause' : Eval β) Q :=
  agree_throw (.error hcause (.some ht))

theorem agree_fault (f : Fault) : Agree P L marks (fault f : Eval α) (fault f : Eval β) Q :=
  agree_throw (.fault f)

theorem agree_outOfFuel : Agree P L marks (outOfFuel : Eval α) (outOfFuel : Eval β) Q :=
  agree_throw .outOfFuel

theorem Agree.inFrame {x : Eval α} {y : Eval β} {frame : FrameId} (hx : Agree P L inner x y Q)
    (hframe : L.Chain inner frame) :
    Agree P L marks (inFrame frame x) (inFrame frame y) Q := by
  intro m m' hmachines hchain
  have hinside : Machines P L { m with current := frame } { m' with current := frame } :=
    { hmachines with current := rfl }
  unfold Eval.inFrame
  dsimp only
  rcases (hx _ _ hinside hframe).cases with
    ⟨L', a, b, m₁, m₁', hleft, hright, hle, hmachines', -, hab⟩ |
    ⟨L', stop, stop', m₁, m₁', hleft, hright, hle, hmachines', hstop⟩
  · rw [hleft, hright]
    exact .ok hle { hmachines' with current := hmachines.current } (hchain.mono hle) hab
  · rw [hleft, hright]
    exact .error hle { hmachines' with current := hmachines.current } hstop

/-! ### Frames -/

theorem agree_currentFrame :
    Agree P L marks currentFrame currentFrame
      (fun L' frame frame' => frame' = frame ∧ L'.Chain marks frame) := by
  intro m m' hmachines hchain
  exact .ok (List.prefix_refl L) hmachines hchain ⟨hmachines.current, hchain⟩

/-- The place of a new frame in a layout. -/
theorem chain_added {mark : Bool} {around : FrameId} (haround : L.Chain inner around) :
    Layout.Chain (L ++ [(mark, some around)]) (mark :: inner) L.length :=
  .cons (by simp) (haround.mono (List.prefix_append ..))

/-- The mark of a new frame is free. -/
theorem agree_newFrame (mark : Bool) (origin origin' : Origin) {around : FrameId}
    (haround : L.Chain inner around) :
    Agree P L marks (newFrame origin around) (newFrame origin' around)
      (fun L' frame frame' => frame' = frame ∧ L'.Chain (mark :: inner) frame) := by
  intro m m' hmachines hchain
  refine .ok (List.prefix_append L [(mark, some around)])
    (hmachines.addFrame mark (some around) Table.alike_empty origin origin') ?_ ?_
  · exact hchain.mono (List.prefix_append ..)
  · rw [hmachines.frames.size.1, hmachines.frames.size.2]
    exact ⟨rfl, chain_added haround⟩

/-- A copy of a frame has its mark. -/
theorem agree_nextIteration {mark : Bool} :
    Agree P L (mark :: inner) nextIteration nextIteration (fun _ _ _ => True) := by
  intro m m' hmachines hchain
  cases hchain with
  | @cons _ _ _ outer hentry hrest =>
      have hslots := hmachines.frames.slots hentry
      obtain ⟨hleft, hright⟩ := hmachines.frames.enclosing hentry
      -- Closures of the last round keep the frame that is copied, so its entry in the layout has to
      -- stay.
      unfold nextIteration FrameStore.snapshot
      rw [hmachines.current, hleft, hright]
      have hadded := hmachines.addFrame mark (some outer) hslots
        (m.origins[m.current]?.getD .globals) (m'.origins[m.current]?.getD .globals)
      refine .ok (List.prefix_append ..) { hadded with current := ?_ } ?_ trivial
      · exact hmachines.frames.size.2.trans hmachines.frames.size.1.symm
      · show Layout.Chain _ _ m.frames.size
        rw [hmachines.frames.size.1]
        exact chain_added hrest

theorem agree_define {frame : FrameId} (hframe : L.Chain inner frame) {name name' : String}
    (hname : name' = P.rename (innermost inner) name) {value value' : Value}
    (hvalue : value.Alike P L value') :
    Agree P L marks (define frame name value) (define frame name' value') (fun _ _ _ => True) := by
  intro m m' hmachines hchain
  obtain ⟨around, hentry⟩ := hframe.entry
  subst hname
  exact .ok (List.prefix_refl L) (hmachines.bind hentry name (.some hvalue)) hchain trivial

theorem agree_declare {frame : FrameId} (hframe : L.Chain inner frame) {name name' : String}
    (hname : name' = P.rename (innermost inner) name) :
    Agree P L marks (declare frame name) (declare frame name') (fun _ _ _ => True) := by
  intro m m' hmachines hchain
  obtain ⟨around, hentry⟩ := hframe.entry
  subst hname
  exact .ok (List.prefix_refl L) (hmachines.bind hentry name .none) hchain trivial

/-! ### Variables -/

/-- What an occurrence of a variable has for a value. -/
def valueOf (m : Machine) (id : Nat) (name : String) : Except FrameError Value :=
  match m.distances[id]? with
  | some distance => m.frames.getAt m.current distance name
  | none => m.frames.get m.globals name

theorem readVariable_eq (id : Nat) (name : Token) (m : Machine) : readVariable id name m =
    match valueOf m id name.lexeme with
    | .ok value => .ok value m
    | .error error => .error (.ofFrameError (some name.line) error) m := rfl

/-- Marks matter to the name of an occurrence through the distance recorded for it. -/
theorem found_valueOf {m m' : Machine} (hmachines : Machines P L m m')
    (hchain : L.Chain marks m.current) {id id' : Nat} {name name' : String}
    (hid : P.right id' = P.left id) (hname : name' = P.rename (markAt marks (P.left id)) name)
    (hsaid : P.said name name') :
    FrameStore.Found P (Value.Alike P L) (valueOf m id name) (valueOf m' id' name') := by
  unfold valueOf
  rw [hname] at hsaid
  rw [hmachines.distances.1, hmachines.distances.2, hid, hmachines.current,
    hmachines.globals.2, hname]
  cases hleft : P.left id with
  | none =>
      rw [hleft, markAt, P.rename_false] at hsaid
      rw [markAt, P.rename_false]
      exact hmachines.frames.get_globals hmachines.globals.1 hsaid
  | some distance => exact hmachines.frames.getAt distance hchain (hleft ▸ hsaid)

theorem agree_readVariable {id id' : Nat} {t t' : Token}
    (h : P.right id' = P.left id ∧ t'.lexeme = P.rename (markAt marks (P.left id)) t.lexeme ∧
      P.lines t.line t'.line ∧ P.said t.lexeme t'.lexeme) :
    Agree P L marks (readVariable id t) (readVariable id' t') (fun L' v v' => v.Alike P L' v') := by
  intro m m' hmachines hchain
  obtain ⟨hid, hname, hline, hsaid⟩ := h
  rw [readVariable_eq, readVariable_eq]
  rcases (found_valueOf hmachines hchain hid hname hsaid).cases with
    ⟨v, v', hleft, hright, hvalue⟩ | ⟨error, error', hleft, hright, herror⟩
  · rw [hleft, hright]
    exact .ok (List.prefix_refl L) hmachines hchain hvalue
  · rw [hleft, hright]
    exact .error (List.prefix_refl L) hmachines (herror.stop (.some hline))

theorem found_target {m m' : Machine} (hmachines : Machines P L m m')
    (hchain : L.Chain marks m.current) {id id' : Nat} {name name' : String}
    (hid : P.right id' = P.left id) (hname : name' = P.rename (markAt marks (P.left id)) name)
    (hsaid : P.said name name') :
    FrameStore.Found P (fun frame frame' => frame' = frame ∧
      ∃ around, L[frame]? = some (markAt marks (P.left id), around))
      (target m id name) (target m' id' name') := by
  unfold target
  rw [hname] at hsaid
  rw [hmachines.distances.1, hmachines.distances.2, hid, hmachines.current,
    hmachines.globals.2, hname]
  cases hleft : P.left id with
  | none =>
      rw [hleft, markAt, P.rename_false] at hsaid
      rw [markAt, P.rename_false]
      rcases (hmachines.frames.locate_globals hmachines.globals.1 hsaid).cases with
        ⟨a, b, hleft, hright, rfl, rfl⟩ | ⟨error, error', hleft, hright, herror⟩
      · dsimp only
        rw [hleft, hright]
        exact .ok ⟨rfl, none, hmachines.globals.1⟩
      · dsimp only
        rw [hleft, hright]
        exact .error herror
  | some distance => exact hmachines.frames.locateAt distance hchain (hleft ▸ hsaid)

theorem agree_writeVariable {id id' : Nat} {t t' : Token}
    (h : P.right id' = P.left id ∧ t'.lexeme = P.rename (markAt marks (P.left id)) t.lexeme ∧
      P.lines t.line t'.line ∧ P.said t.lexeme t'.lexeme)
    {value value' : Value} (hvalue : value.Alike P L value') :
    Agree P L marks (writeVariable id t value) (writeVariable id' t' value')
      (fun _ _ _ => True) := by
  intro m m' hmachines hchain
  obtain ⟨hid, hname, hline, hsaid⟩ := h
  unfold writeVariable
  rcases (found_target hmachines hchain hid hname hsaid).cases with
    ⟨frame, _, hleft, hright, rfl, around, hentry⟩ | ⟨error, error', hleft, hright, herror⟩
  · rw [hleft, hright, hname]
    exact .ok (List.prefix_refl L) (hmachines.bind hentry t.lexeme (.some hvalue)) hchain trivial
  · rw [hleft, hright]
    exact .error (List.prefix_refl L) hmachines (herror.stop (.some hline))

theorem agree_distance? {id id' : Nat} (hid : P.right id' = P.left id) :
    Agree P L marks (distance? id) (distance? id')
      (fun _ found found' => found = P.left id ∧ found' = P.left id) := by
  intro m m' hmachines hchain
  exact .ok (List.prefix_refl L) hmachines hchain
    ⟨hmachines.distances.1 id, (hmachines.distances.2 id').trans hid⟩

/-- The names of receivers are the same under all marks. -/
theorem agree_readAt {frame : FrameId} (hframe : L.Chain inner frame) (distance : Nat)
    {name : String} (hname : ∀ mark, P.rename mark name = name) (hsaid : P.said name name) :
    Agree P L marks (readAt frame distance name) (readAt frame distance name)
      (fun L' => FrameStore.Found P (Value.Alike P L')) := by
  intro m m' hmachines hchain
  have hsame := hname (markAt inner (some distance))
  have hfound := hmachines.frames.getAt distance hframe (by rw [hsame]; exact hsaid)
  rw [hsame] at hfound
  exact .ok (List.prefix_refl L) hmachines hchain hfound

/-! ### Objects -/

theorem agree_freshId : Agree P L marks freshId freshId (fun _ id id' => id' = id) := by
  intro m m' hmachines hchain
  exact .ok (List.prefix_refl L) { hmachines with nextId := congrArg (· + 1) hmachines.nextId }
    hchain hmachines.nextId

theorem agree_newHolder : Agree P L marks newHolder newHolder (fun _ id id' => id' = id) := by
  intro m m' hmachines hchain
  exact .ok (List.prefix_refl L) hmachines.addHolder hchain hmachines.fields.1

theorem agree_record (provenance provenance' : Provenance) :
    Agree P L marks (record provenance) (record provenance') (fun _ _ _ => True) := by
  intro m m' hmachines hchain
  exact .ok (List.prefix_refl L) { hmachines with } hchain trivial

theorem agree_field? (holder : Nat) (name : String) :
    Agree P L marks (field? holder name) (field? holder name)
      (fun L' => Option.Rel (Value.Alike P L')) := by
  intro m m' hmachines hchain
  refine .ok (List.prefix_refl L) hmachines hchain ?_
  rcases rel_cases (hmachines.fields.2 holder) with
    ⟨hleft, hright⟩ | ⟨table, table', hleft, hright, htable⟩
  · rw [hleft, hright]
    exact .none
  · rw [hleft, hright]
    exact htable.find? (Table.distinguishes_of_injective Function.injective_id table name)

theorem agree_setField (holder : Nat) (name : String) {value value' : Value}
    (hvalue : value.Alike P L value') :
    Agree P L marks (setField holder name value) (setField holder name value')
      (fun _ _ _ => True) := by
  intro m m' hmachines hchain
  obtain ⟨hsize, hfields⟩ := hmachines.fields
  refine .ok (List.prefix_refl L) { hmachines with fields := ⟨?_, fun id => ?_⟩ } hchain trivial
  · simp only [Array.size_modify, hsize]
  · simp only [Array.getElem?_modify]
    split
    · rcases rel_cases (hfields id) with ⟨hleft, hright⟩ | ⟨table, table', hleft, hright, htable⟩
      · rw [hleft, hright]
        exact .none
      · rw [hleft, hright]
        exact .some (htable.insert
          (Table.distinguishes_of_injective Function.injective_id table name) rfl hvalue)
    · exact hfields id

/-! ### The outside world -/

theorem agree_write (text : String) :
    Agree P L marks (write text) (write text) (fun _ _ _ => True) := by
  intro m m' hmachines hchain
  refine .ok (List.prefix_refl L) { hmachines with output := ?_ } hchain trivial
  rw [hmachines.output, String.append_assoc]

theorem agree_readClock : Agree P L marks readClock readClock (fun _ a b => b = a) := by
  intro m m' hmachines hchain
  unfold readClock
  rw [hmachines.world]
  exact .ok (List.prefix_refl L) { hmachines with world := rfl } hchain rfl

theorem agree_pick (low high : Int) :
    Agree P L marks (pick low high) (pick low high) (fun _ a b => b = a) := by
  intro m m' hmachines hchain
  unfold pick
  rw [hmachines.world]
  exact .ok (List.prefix_refl L) { hmachines with world := rfl } hchain rfl

theorem agree_readLine : Agree P L marks readLine readLine (fun _ a b => b = a) := by
  intro m m' hmachines hchain
  unfold readLine
  rw [hmachines.world]
  split
  · exact .ok (List.prefix_refl L) hmachines hchain rfl
  · dsimp only
    split
    · exact .ok (List.prefix_refl L) { hmachines with world := rfl } hchain rfl
    · exact .error (List.prefix_refl L) { hmachines with world := rfl } (.error (.same _) .none)

/-- A native function gives the same plain answer to corresponding arguments. -/
theorem agree_nativeAction (ref : NativeRef) {arguments arguments' : List Value}
    (harguments : List.Forall₂ (Value.Alike P L) arguments arguments') :
    Agree P L marks (nativeAction ref arguments) (nativeAction ref arguments')
      (fun _ action action' => action' = action ∧ action.Plain) := by
  intro m m' hmachines hchain
  unfold nativeAction
  rw [hmachines.natives.1]
  cases hnative : m.natives[ref.id]? with
  | none => exact .ok (List.prefix_refl L) hmachines hchain ⟨rfl, trivial⟩
  | some native =>
      have hplain := hmachines.natives.2 native (Array.mem_of_getElem? hnative)
      obtain ⟨answer, hanswer⟩ := hplain.answers
      have hdata : arguments'.map Value.data? = arguments.map Value.data? := by
        induction harguments with
        | nil => rfl
        | cons h _ ih => rw [List.map_cons, List.map_cons, h.data?_eq, ih]
      refine .ok (List.prefix_refl L) hmachines hchain ⟨?_, hplain.action arguments⟩
      rw [hanswer, hanswer, hdata]

end Eval
end TraitScript
