import TraitScript.Proofs.Parse.Written
import TraitScript.Proofs.Scope.Trace

/-!
# Reads in the initializer of a local

A local is declared before its initializer is resolved and has a value only afterwards. A read of it
in the initializer, outside of functions in there, is reported as long as nothing has read the local
yet. A function in the initializer may read the local before that; then the local counts as read,
and what comes after the function is not checked any more. So the first read of a local in an
initializer that resolving accepts stands inside a function, though others outside may follow it.
-/

namespace TraitScript

/-- An occurrence of a variable of some name that is read. -/
def Use.reads (name : String) : Use → Bool
  | .read _ token => token.lexeme = name
  | _ => false

theorem Use.reads_iff {name : String} {use : Use} :
    use.reads name = true ↔ ∃ id token, use = .read id token ∧ token.lexeme = name := by
  cases use <;> simp [reads]

/-- The reads of a local in its initializer that stand outside of functions in there, where no
further scope is around them. -/
def ownReads (p : Place) (name : Token) (initial : Expr) : Uses :=
  (initial.uses (p.declare name)).filter fun u =>
    u.1.scopes.length = p.scopes.length && u.2.reads name.lexeme

namespace Resolve

open State

variable {p q : Place} {name : Token}

/-- Where a local has just been declared without an error, it has no value. -/
theorem localAt_declare {s : State} (hs : Tracks s p) (hlocal : p.scopes ≠ [])
    (hnone : (s.declare name true).errors = []) :
    ∃ entry, localAt (s.declare name true).scopes (p.scopes.length - 1) name.lexeme = some entry ∧
      entry.progress = .declared := by
  have hlength := hs.scopes.length_eq
  cases hstack : s.scopes with
  | nil =>
      rw [hstack] at hlength
      exact absurd (List.length_eq_zero_iff.1 hlength.symm) hlocal
  | cons scope outer =>
      rw [hstack, List.length_cons] at hlength
      have hheight : p.scopes.length - 1 = outer.length := by omega
      by_cases hold : scope.contains name.lexeme = true
      · simp [State.declare, hstack, hold] at hnone
      · refine ⟨⟨some name, .declared, true⟩, ?_, rfl⟩
        rw [hheight]
        simp [State.declare, hstack, hold, localAt_innermost]

/-- The scope of a height holds what is bound as many scopes away. -/
theorem distance?_of_height? {name : String} {height : Nat} (h : q.height? name = some height) :
    q.distance? name = some (q.scopes.length - 1 - height) := by
  obtain ⟨distance, hdistance, rfl⟩ := Option.map_eq_some_iff.1 h
  have hbound : distance < q.scopes.length := (List.findIdx?_eq_some_iff_getElem.1 hdistance).1
  rw [hdistance]
  congr 1
  omega

/-- A local with a name that a script can declare is marked by variables only. -/
theorem reads_of_reads? {use : Use} {name : String} {height : Nat} (hgenuine : use.Genuine)
    (hordinary : Ordinary name) (h : reads? (q, use) = some (height, name)) :
    use.reads name = true ∧ q.height? name = some height := by
  cases use with
  | read _ token =>
      simp only [reads?, Option.map_eq_some_iff, Prod.mk.injEq] at h
      obtain ⟨found, hfound, rfl, rfl⟩ := h
      exact ⟨by simp [Use.reads], hfound⟩
  | this _ keyword =>
      simp only [reads?] at h
      split at h
      · cases h
      · simp only [Option.map_eq_some_iff, Prod.mk.injEq] at h
        obtain ⟨_, -, -, rfl⟩ := h
        exact absurd hgenuine hordinary.1
  | super _ keyword =>
      simp only [reads?] at h
      split at h
      · simp only [Option.map_eq_some_iff, Prod.mk.injEq] at h
        obtain ⟨_, -, -, rfl⟩ := h
        exact absurd hgenuine hordinary.2
      · cases h
  | write _ _ | declare _ | reference _ | jump _ _ | returnValue _ _ => cases h

/-- A read inside functions of the local that a place declares. -/
def Captures (p : Place) (name : String) (u : Place × Use) : Prop :=
  u.2.reads name = true ∧ p.scopes.length < u.1.scopes.length ∧
    u.1.distance? name = some (u.1.scopes.length - p.scopes.length)

section

variable {f : State → State} {s : State} {us : Uses} {entry : Local} {name : String}

/-- Before a read that was not reported there is one inside a function. The nearest read of the
local before it may be another that was not reported, so this goes by the number of uses before. -/
theorem captured_of_settled (hsettled : Settled f p us) (hs : Tracks s p)
    (hnone : (f s).errors = []) (hdeeper : ∀ u ∈ us, p.scopes.length ≤ u.1.scopes.length)
    (hgenuine : Uses.Genuine us) (hordinary : Ordinary name) (hlocal : p.scopes ≠ [])
    (hentry : localAt s.scopes (p.scopes.length - 1) name = some entry)
    (hdeclared : entry.progress = .declared) (before : Uses) (u : Place × Use) (after : Uses)
    (hsplit : us = before ++ u :: after) (hheight : u.1.scopes.length = p.scopes.length)
    (hread : u.2.reads name = true) : ∃ v ∈ before, Captures p name v := by
  induction hcount : before.length using Nat.strongRecOn generalizing before u after with
  | ind count ih =>
      obtain ⟨q, use⟩ := u
      obtain ⟨id, token, rfl, rfl⟩ := Use.reads_iff.1 hread
      have hmarked :=
        hsettled s hs hnone before q id token after hsplit hheight entry hentry hdeclared
      obtain ⟨⟨r, use⟩, hbefore, hreads⟩ := List.mem_filterMap.1 hmarked
      have hmem : (r, use) ∈ us := by
        rw [hsplit]
        exact List.mem_append_left _ hbefore
      obtain ⟨hearlier, hfound⟩ := reads_of_reads? (hgenuine _ hmem) hordinary hreads
      rcases Nat.lt_or_eq_of_le (hdeeper _ hmem) with hinside | hlevel
      · have hpositive := List.length_pos_iff.2 hlocal
        have hsub : r.scopes.length - 1 - (p.scopes.length - 1) =
            r.scopes.length - p.scopes.length := by omega
        exact ⟨(r, use), hbefore, hearlier, hinside, hsub ▸ distance?_of_height? hfound⟩
      · obtain ⟨first, between, hbetween⟩ := List.append_of_mem hbefore
        have hshorter : first.length < count := by
          rw [← hcount, hbetween, List.length_append, List.length_cons]
          omega
        have hsplit' : us = first ++ (r, use) :: (between ++ (q, .read id token) :: after) := by
          rw [hsplit, hbetween, List.append_assoc, List.cons_append]
        obtain ⟨v, hv, hcaptures⟩ :=
          ih first.length hshorter first (r, use) _ hsplit' hlevel.symm hearlier rfl
        refine ⟨v, ?_, hcaptures⟩
        rw [hbetween]
        exact List.mem_append_left _ hv

end

/-- The same for a declaration that resolving accepts. -/
theorem captured_of_declaration {s : State} {initial : Expr} (hs : Tracks s p)
    (hlocal : p.scopes ≠ []) (hnone : (stmt (.variable name (some initial)) s).errors = [])
    (hgenuine : Uses.Genuine ((Stmt.variable name (some initial)).uses p)) {before : Uses}
    {u : Place × Use} {after : Uses} (hsplit : initial.uses (p.declare name) = before ++ u :: after)
    (hheight : u.1.scopes.length = p.scopes.length) (hread : u.2.reads name.lexeme = true) :
    ∃ v ∈ before, Captures p name.lexeme v := by
  have hinspects := inspects_expr initial (p.declare name)
  have hdeclare := traces_declare name true p
  have htracks := (hdeclare.walks s hs).1
  have hlength : (p.declare name).scopes.length = p.scopes.length := hdeclare.height
  rw [stmt, (scopes_define _ name).2.2, expr?] at hnone
  obtain ⟨entry, hentry, hdeclared⟩ := localAt_declare hs hlocal (hinspects.noErrors htracks hnone)
  rw [Stmt.uses, Uses.genuine_cons, Expr.uses?] at hgenuine
  rw [← hlength] at hheight hentry
  have hlocal' : (p.declare name).scopes ≠ [] := by
    rw [← List.length_pos_iff, hlength, List.length_pos_iff]
    exact hlocal
  have hcaptured := captured_of_settled hinspects.settled htracks hnone hinspects.deeper hgenuine.2
    hgenuine.1 hlocal' hentry hdeclared
    before u after hsplit hheight hread
  simpa only [Captures, hlength] using hcaptured

/-- Every declaration of a local in an accepted program was resolved without errors from its
place. -/
theorem visited_of_accepted {statements : List Stmt} (hnone : (resolve statements).errors = [])
    {part : Place × Stmt} (hpart : part ∈ programParts statements) :
    ∃ s, Tracks s part.1 ∧ (stmt part.2 s).errors = [] := by
  obtain ⟨s, hs, hgrown⟩ := (traces_stmts statements .top).visits {} tracks_initial part hpart
  have herrors : (stmts statements {}).errors = [] := hnone
  rw [herrors] at hgrown
  exact ⟨s, hs, List.prefix_nil.1 hgrown⟩

end Resolve

/-- In the initializer of a local that resolving accepts, any read of the local outside of functions
comes after one inside a function. If no function in the initializer reads the local, nothing
outside of them does. -/
theorem own_reads_follow_captured_reads (source : Source) (firstId : Nat)
    (haccepted : (resolve (parseProgram (.ofSource source) firstId).value).errors = []) (p : Place)
    (name : Token) (initial : Expr)
    (hpart : (p, .variable name (some initial)) ∈
      programParts (parseProgram (.ofSource source) firstId).value)
    (hlocal : p.scopes ≠ []) :
    (∀ before u after, initial.uses (p.declare name) = before ++ u :: after →
      u ∈ ownReads p name initial →
      ∃ v ∈ before, Resolve.Captures p name.lexeme v) ∧
    ((∀ v ∈ initial.uses (p.declare name), ¬ Resolve.Captures p name.lexeme v) →
      ownReads p name initial = []) := by
  obtain ⟨-, hwritten⟩ := parseProgram_written source firstId
  obtain ⟨s, hs, hnone⟩ := Resolve.visited_of_accepted haccepted hpart
  have hgenuine : Uses.Genuine ((Stmt.variable name (some initial)).uses p) :=
    fun u hu => hwritten.meets u ((Resolve.traces_stmts _ .top).within _ hpart hu)
  have hcaptured : ∀ before u after, initial.uses (p.declare name) = before ++ u :: after →
      u ∈ ownReads p name initial →
      ∃ v ∈ before, Resolve.Captures p name.lexeme v := by
    intro before u after hsplit hown
    obtain ⟨-, hread⟩ := List.mem_filter.1 hown
    simp only [Bool.and_eq_true, decide_eq_true_eq] at hread
    exact Resolve.captured_of_declaration hs hlocal hnone hgenuine hsplit hread.1 hread.2
  refine ⟨hcaptured, fun hfree => List.eq_nil_iff_forall_not_mem.2 fun u hown => ?_⟩
  obtain ⟨before, after, hsplit⟩ := List.append_of_mem (List.mem_filter.1 hown).1
  obtain ⟨v, hv, hcaptures⟩ := hcaptured before u after hsplit hown
  refine hfree v ?_ hcaptures
  rw [hsplit]
  exact List.mem_append_left _ hv

/-- A function in the initializer reads the local first, and then the initializer reads it
itself. -/
def capturingProgram : Source := Utf8.encode "\x7b var x = f(fun () \x7b return x; \x7d, x); \x7d"

def readsItself (part : Place × Stmt) : Bool :=
  match part with
  | (p, .variable name (some initial)) => !p.scopes.isEmpty && !(ownReads p name initial).isEmpty
  | _ => false

theorem exists_readsItself :
    ∃ p name initial, (p, .variable name (some initial)) ∈
      programParts (parseProgram (.ofSource capturingProgram) 0).value ∧ p.scopes ≠ [] ∧
      ownReads p name initial ≠ [] := by
  have hany : (programParts (parseProgram (.ofSource capturingProgram) 0).value).any readsItself =
      true := by decide +kernel
  obtain ⟨⟨p, part⟩, hpart, hreads⟩ := List.any_eq_true.1 hany
  unfold readsItself at hreads
  split at hreads
  next p name initial heq =>
    cases heq
    simp only [Bool.and_eq_true, Bool.not_eq_true', List.isEmpty_eq_false_iff] at hreads
    exact ⟨p, name, initial, hpart, hreads⟩
  next => cases hreads

/-- The read outside of the function is there, so one inside was before it. -/
theorem own_reads_follow_captured_reads_call :
    (resolve (parseProgram (.ofSource capturingProgram) 0).value).errors = [] ∧
      ∃ p name initial, (p, .variable name (some initial)) ∈
        programParts (parseProgram (.ofSource capturingProgram) 0).value ∧ p.scopes ≠ [] ∧
        ∃ u ∈ ownReads p name initial, ∃ before after, initial.uses (p.declare name) =
          before ++ u :: after ∧
          ∃ v ∈ before, Resolve.Captures p name.lexeme v := by
  have haccepted : (resolve (parseProgram (.ofSource capturingProgram) 0).value).errors = [] := by
    decide +kernel
  obtain ⟨p, name, initial, hpart, hlocal, hreads⟩ := exists_readsItself
  obtain ⟨u, hu⟩ := List.exists_mem_of_ne_nil _ hreads
  obtain ⟨before, after, hsplit⟩ := List.append_of_mem (List.mem_filter.1 hu).1
  obtain ⟨hcaptured, -⟩ :=
    own_reads_follow_captured_reads capturingProgram 0 haccepted p name initial hpart hlocal
  exact ⟨haccepted, p, name, initial, hpart, hlocal, u, hu, before, after, hsplit,
    hcaptured before u after hsplit hu⟩

/-- Not every read of a local in its own initializer is reported. -/
theorem own_reads_not_always_reported :
    ¬ ∀ source : Source, (Scanned.ofSource source).errors = [] →
      (parseProgram (.ofSource source) 0).errors = [] →
        (resolve (parseProgram (.ofSource source) 0).value).errors = [] →
          ∀ p name initial, (p, .variable name (some initial)) ∈
            programParts (parseProgram (.ofSource source) 0).value → p.scopes ≠ [] →
            ownReads p name initial = [] := by
  intro hall
  obtain ⟨p, name, initial, hpart, hlocal, hreads⟩ := exists_readsItself
  exact hreads (hall capturingProgram (by decide +kernel) (by decide +kernel) (by decide +kernel) p
    name initial hpart hlocal)

end TraitScript
