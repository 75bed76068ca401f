import TraitScript.Proofs.Eval.Soundness
import TraitScript.Session

/-!
# Runs inside a session

A session is sound when its machine is and top-level code is current. It starts sound, running a
program that the regime allows keeps it sound, and a watch that follows from the regime makes no
difference to any report.
-/

namespace TraitScript

/-- Endings that may happen, as for stops. -/
def Regime.PermitsEnding (R : Regime) (ending : Ending) : Prop :=
  ending ≠ .fault .jumpEscaped ∧ (R.fromText → ∀ fault, ending ≠ .fault fault)

theorem Regime.permitsEnding_finished (R : Regime) : R.PermitsEnding .finished := by
  simp [PermitsEnding]

theorem Regime.Permits.ending {R : Regime} {stop : Stop} (h : R.Permits stop) (output : String)
    (diagnostics : Diagnostics) :
    R.PermitsEnding (Session.stopReport output diagnostics stop).ending := by
  cases stop with
  | error error => exact R.permitsEnding_finished
  | fault fault =>
      refine ⟨fun heq => h.1 ?_, fun htext other heq => h.2 htext other ?_⟩
      · rw [Ending.fault.inj heq]
      · rw [Ending.fault.inj heq]
  | outOfFuel => exact ⟨nofun, nofun⟩

/-- A session between two runs. -/
structure Session.Sound (R : Regime) (s : Session) : Prop where
  machine : R.Sound s.machine
  current : s.machine.current = s.machine.globals

/-! ### The start -/

theorem Regime.Sound.addNative {R : Regime} {m : Machine} (h : R.Sound m) {native : Native}
    (hnative : native.Honest) (hhosts : R.hosts native) : R.Sound (m.addNative native) := by
  have hext := m.extends_push native
  have hadded : R.Sound { m with natives := m.natives.push native } := by
    refine ⟨h.size, h.root, fun hv => (h.slots hv).mono (.refl R) hext,
      fun htable hv => (h.fields htable hv).mono (.refl R) hext,
      fun other hother => ?_, h.distances, h.receivers, h.superclasses⟩
    rcases Array.mem_push.1 hother with hold | rfl
    · exact h.natives other hold
    · exact ⟨hnative, hhosts⟩
  refine hadded.bind (fun v hv => ?_) (fun _ => .inr rfl)
  rw [← Option.some.inj hv]
  exact ⟨native, Array.getElem?_push_size⟩

/-- A machine in which nothing was run is sound; no distance is known to it. -/
theorem Regime.sound_bare {R : Regime} (hnone : R.fromText → ∀ id, R.distances id = none)
    (world : World) : R.Sound (.bare world) := by
  have horigin : ∀ {frame : FrameId} {origin : Origin}, (Machine.bare world).origins[frame]? =
      some origin → origin = .globals := by
    intro frame origin h
    have hmem : origin ∈ #[Origin.globals] := Array.mem_of_getElem? h
    simpa using hmem
  have hslots : ∀ {frame : FrameId} {name : String},
      ((Machine.bare world).frames.slots frame).find? name = none := by
    intro frame name
    show ((FrameStore.empty.addEmpty none).slots frame).find? name = none
    rw [FrameStore.addEmpty, FrameStore.slots_add]
    split <;> rfl
  refine ⟨rfl, rfl, fun hv => ?_, fun htable _ => ?_, fun native hnative => ?_, fun htext id => ?_,
    fun _ _ _ _ h => ?_, fun _ _ _ _ h => ?_⟩
  · rw [hslots] at hv
    cases hv
  · simp [Machine.bare] at htable
  · simp [Machine.bare] at hnative
  · rw [hnone htext id]
    rfl
  · cases horigin h
  · cases horigin h

theorem Session.sound_start {R : Regime} (hnone : R.fromText → ∀ id, R.distances id = none)
    {natives : List Native} (hnatives : ∀ native ∈ natives, native.Honest ∧ R.hosts native)
    (world : World) : (Session.start natives world).Sound R := by
  have hall : ∀ (natives : List Native) (m : Machine),
      (∀ native ∈ natives, native.Honest ∧ R.hosts native) → R.Sound m → m.current = m.globals →
      R.Sound (natives.foldl Machine.addNative m) ∧ (natives.foldl Machine.addNative m).current =
      (natives.foldl Machine.addNative m).globals := by
    intro natives
    induction natives with
    | nil => exact fun m _ hsound hcurrent => ⟨hsound, hcurrent⟩
    | cons native rest ih =>
        intro m hnatives hsound hcurrent
        exact ih (m.addNative native)
          (fun other hother => hnatives other (List.mem_cons_of_mem _ hother))
          (hsound.addNative (hnatives native (List.mem_cons_self ..)).1
            (hnatives native (List.mem_cons_self ..)).2) hcurrent
  obtain ⟨hsound, hcurrent⟩ :=
    hall natives (.bare world) hnatives (Regime.sound_bare hnone world) rfl
  exact ⟨hsound, hcurrent⟩

/-! ### Resolving -/

/-- Resolving changes what a machine knows of distances and nothing else. -/
theorem Machine.noteAll_eq (m : Machine) (resolution : Resolution) :
    ∃ distances, m.noteAll resolution = { m with distances := distances } := by
  unfold Machine.noteAll
  induction resolution.bindings generalizing m with
  | nil => exact ⟨m.distances, rfl⟩
  | cons binding rest ih =>
      obtain ⟨distances, hrest⟩ := ih (m.note binding)
      refine ⟨distances, ?_⟩
      rw [List.foldl_cons, hrest]
      unfold Machine.note
      split <;> rfl

/-- A machine may learn distances when the regime grows, as long as they are right for it. -/
theorem Regime.Sound.noteAll {R R' : Regime} {m : Machine} (h : R.Sound m) (hle : R.Below R')
    (hhosts : ∀ native, R.hosts native → R'.hosts native) (resolution : Resolution)
    (hdistances : R'.fromText → R.fromText ∧
      ∀ id : Nat, (m.noteAll resolution).distances[id]? = R'.distances id) :
    R'.Sound (m.noteAll resolution) := by
  obtain ⟨distances, hm⟩ := m.noteAll_eq resolution
  rw [hm] at hdistances ⊢
  have hext : m.Extends { m with distances := distances } := ⟨rfl, id, id, id⟩
  exact ⟨h.size, h.root, fun hv => (h.slots hv).mono hle hext,
    fun htable hv => (h.fields htable hv).mono hle hext,
    fun native hnative =>
      ⟨(h.natives native hnative).1, hhosts native (h.natives native hnative).2⟩,
    fun ht => (hdistances ht).2, fun ht => h.receivers (hdistances ht).1, fun ht =>
      h.superclasses (hdistances ht).1⟩

/-! ### Programs -/

namespace Session

variable {R : Regime} {s : Session}

/-- Running a program that the regime allows. -/
theorem executeWith_alike {self : Eval.Evaluators} {fuel : Nat} (hself : Eval.RunsAlike R fuel self)
    (hs : s.Sound R) {statements : List Stmt} (hallows : R.Allows (programUses statements)) :
    s.executeWith self statements = s.executeWith (Eval.evaluators fuel) statements ∧
      (s.executeWith (Eval.evaluators fuel) statements).2.Sound R ∧
      R.PermitsEnding (s.executeWith (Eval.evaluators fuel) statements).1.ending := by
  have hsound : R.Sound { s.machine with output := "" } := hs.machine.congr rfl rfl rfl rfl rfl rfl
  have hends := Eval.interpret_sound fuel hallows hsound hs.current
  unfold executeWith
  rw [hself hallows hsound hs.current]
  refine ⟨rfl, ?_⟩
  cases hresult : Eval.interpret (Eval.evaluators fuel) statements
    { s.machine with output := "" } with
  | ok _ m =>
      rw [hresult] at hends
      exact ⟨⟨hends.1, hends.2⟩, R.permitsEnding_finished⟩
  | error stopped m =>
      rw [hresult] at hends
      exact ⟨⟨hends.1, hends.2.1⟩, hends.2.2.ending _ _⟩

/-! ### One after another -/

/-- Gives several things to a session, one after another, and keeps the reports. -/
def sequence {ι : Type} (step : Session → ι → Report × Session) :
    List ι → Session → List Report × Session
  | [], s => ([], s)
  | input :: rest, s =>
    let (report, s) := step s input
    let (reports, s) := sequence step rest s
    (report :: reports, s)

/-- Two ways to take a step that agree wherever an invariant holds, which every step keeps. The
invariant may speak of what is still to come. -/
theorem sequence_congr {ι : Type} {step step' : Session → ι → Report × Session}
    (Inv : List ι → Session → Prop) (Good : Report → Prop)
    (hstep : ∀ s input rest, Inv (input :: rest) s → step' s input = step s input ∧
      Inv rest (step s input).2 ∧ Good (step s input).1)
    (inputs : List ι) (hs : Inv inputs s) :
    sequence step' inputs s = sequence step inputs s ∧
      (∀ report ∈ (sequence step inputs s).1, Good report) ∧
      Inv [] (sequence step inputs s).2 := by
  induction inputs generalizing s with
  | nil => exact ⟨rfl, by simp [sequence], hs⟩
  | cons input rest ih =>
      obtain ⟨heq, hnext, hgood⟩ := hstep s input rest hs
      obtain ⟨hrest, hall, hlast⟩ := ih hnext
      refine ⟨?_, fun report hreport => ?_, hlast⟩
      · simp only [sequence, heq, hrest]
      · rcases List.mem_cons.1 hreport with rfl | hlater
        · exact hgood
        · exact hall report hlater

end Session
end TraitScript
