import TraitScript.Proofs.Token.Lexeme

/-!
# Scanning lines that are joined

No piece of a source without errors goes on past its end when a line break follows. So a source
without errors, a line break and another source are scanned as the one and then, further down, the
other.
-/

namespace TraitScript

open Scan

namespace Scan

variable {first : UInt8} {rest more : List UInt8}

/-- A piece without fault is the same before a line break. -/
theorem munch_append (h : ∀ cause, (munch first rest).shape ≠ .fault cause) :
    munch first (rest ++ newline :: more) = munch first rest := by
  have hends : (munch first rest).shape.EndsBefore (first :: rest) (newline :: more) := by
    cases hshape : (munch first rest).shape with
    | fault cause => exact (h cause hshape).elim
    | trivia => exact fun _ => rfl
    | symbol _ | word | number | string => trivial
  exact munch_exchange (by rw [List.append_nil]) (fits_munch first rest).1
    (blankAhead_cons rfl more) fun _ => hends

/-! ### Items -/

/-- An item further on in a longer source. -/
def Item.moved (item : Item) (bytes lines : Nat) : Item :=
  ⟨item.start + bytes, item.stop + bytes, item.line + lines, item.finding⟩

/-- One piece, and what comes after it. -/
theorem itemsFrom_cons (bound start line : Nat) {piece : Piece}
    (hpiece : munch first rest = piece) :
    itemsFrom (bound + 1) start line (first :: rest) =
      ((findingOf piece.shape (first :: rest.take piece.extra)).map fun finding =>
        (⟨start, start + 1 + piece.extra, line + (first :: rest.take piece.extra).count newline,
          finding⟩ : Item)).toList ++
      itemsFrom bound (start + 1 + piece.extra)
      (line + (first :: rest.take piece.extra).count newline) (rest.drop piece.extra) := by
  subst hpiece
  simp only [itemsFrom]
  split
  next hfinding => rw [hfinding]; rfl
  next hfinding => rw [hfinding]; rfl

theorem itemsFrom_moved (bytes lines bound start line : Nat) (source : List UInt8) :
    itemsFrom bound (start + bytes) (line + lines) source =
      (itemsFrom bound start line source).map (·.moved bytes lines) := by
  induction bound generalizing start line source with
  | zero => rfl
  | succ bound ih =>
      cases source with
      | nil => rfl
      | cons first rest =>
          have hstop : ∀ n, start + bytes + 1 + n = start + 1 + n + bytes := by intro n; omega
          have hline : ∀ n, line + lines + n = line + n + lines := by intro n; omega
          simp only [itemsFrom, hstop, hline, ih]
          split
          · rw [List.map_cons]
            simp only [Item.moved, Nat.add_right_comm]
          · rfl

/-- A larger bound makes no difference. -/
theorem itemsFrom_of_le {bound bound' : Nat} (start line : Nat) {source : List UInt8}
    (h : source.length ≤ bound) (h' : source.length ≤ bound') :
    itemsFrom bound start line source = itemsFrom bound' start line source := by
  induction bound generalizing bound' start line source with
  | zero =>
      obtain rfl : source = [] := List.length_eq_zero_iff.1 (Nat.le_zero.1 h)
      cases bound' <;> rfl
  | succ bound ih =>
      cases source with
      | nil => cases bound' <;> rfl
      | cons first rest =>
          cases bound' with
          | zero => simp at h'
          | succ bound' =>
              simp only [List.length_cons, Nat.add_le_add_iff_right] at h h'
              have hdrop : ∀ n, (rest.drop n).length ≤ rest.length := fun n => by
                rw [List.length_drop]
                omega
              simp only [itemsFrom]
              rw [ih _ _ (Nat.le_trans (hdrop _) h) (Nat.le_trans (hdrop _) h')]

/-- The end of a source on a line. -/
def endAt (stop line : Nat) : Item := ⟨stop, stop, line, .token .eof ""⟩

/-- The last item is the end of the source. -/
theorem itemsFrom_eq_concat (bound start line : Nat) (source : List UInt8) :
    ∃ front stop endLine, itemsFrom bound start line source = front ++ [endAt stop endLine] := by
  induction bound generalizing start line source with
  | zero => exact ⟨[], start, line, rfl⟩
  | succ bound ih =>
      cases source with
      | nil => exact ⟨[], start, line, rfl⟩
      | cons first rest =>
          rw [itemsFrom_cons bound start line rfl]
          obtain ⟨front, stop, endLine, hrest⟩ := ih (start + 1 + (munch first rest).extra)
            (line + (first :: rest.take (munch first rest).extra).count newline)
            (rest.drop (munch first rest).extra)
          rw [hrest, ← List.append_assoc]
          exact ⟨_, stop, endLine, rfl⟩

theorem itemsFrom_ne_nil (bound start line : Nat) (source : List UInt8) :
    itemsFrom bound start line source ≠ [] := by
  obtain ⟨front, stop, endLine, h⟩ := itemsFrom_eq_concat bound start line source
  rw [h]
  exact List.append_ne_nil_of_right_ne_nil _ (List.cons_ne_nil _ _)

/-- Scanning past a line break: the items before it without the end, then those of the next line. -/
theorem itemsFrom_append (bound start line : Nat) {source : List UInt8} (more : List UInt8)
    (hbound : source.length ≤ bound)
    (hnone : ∀ item ∈ itemsFrom bound start line source, item.error? = none) :
    itemsFrom (source.length + more.length + 1) start line (source ++ newline :: more) =
      (itemsFrom bound start line source).dropLast ++
        itemsFrom more.length (start + source.length + 1)
        (line + source.count newline + 1) more := by
  induction bound generalizing start line source with
  | zero =>
      obtain rfl : source = [] := List.length_eq_zero_iff.1 (Nat.le_zero.1 hbound)
      rw [List.length_nil, Nat.zero_add]
      rfl
  | succ bound ih =>
      cases source with
      | nil =>
          rw [List.length_nil, Nat.zero_add]
          rfl
      | cons first rest =>
          simp only [List.length_cons, Nat.add_le_add_iff_right] at hbound
          obtain ⟨piece, hpiece⟩ : ∃ piece, munch first rest = piece := ⟨_, rfl⟩
          rw [itemsFrom_cons bound start line hpiece] at hnone ⊢
          simp only [List.mem_append, or_imp, forall_and] at hnone
          have hfault : ∀ cause, piece.shape ≠ .fault cause := by
            intro cause hshape
            have hitem :=
              hnone.1 ⟨start, start + 1 + piece.extra,
                line + (first :: rest.take piece.extra).count newline, .error cause⟩
              (by simp [hshape, findingOf])
            cases hitem
          have hlonger : munch first (rest ++ newline :: more) = munch first rest :=
            munch_append (hpiece ▸ hfault)
          have hextra := (fits_munch first rest).1
          rw [hpiece] at hlonger hextra
          have hlength : (rest.drop piece.extra).length = rest.length - piece.extra :=
            List.length_drop
          have hcount : (first :: rest).count newline =
              (first :: rest.take piece.extra).count newline +
              (rest.drop piece.extra).count newline := by
            rw [← List.count_append, List.cons_append, List.take_append_drop]
          have hshorter : (rest.drop piece.extra).length ≤ bound := by omega
          have hlater :=
            ih (start + 1 + piece.extra) (line + (first :: rest.take piece.extra).count newline)
              hshorter hnone.2
          have hstart : start + 1 + piece.extra + (rest.drop piece.extra).length + 1 =
              start + (first :: rest).length + 1 := by
            rw [hlength, List.length_cons]
            omega
          rw [hstart, Nat.add_assoc line, ← hcount] at hlater
          rw [List.dropLast_append_of_ne_nil (itemsFrom_ne_nil _ _ _ _), List.append_assoc,
            ← hlater, List.cons_append, itemsFrom_cons _ start line hlonger,
            List.take_append_of_le_length hextra, List.drop_append_of_le_length hextra]
          congr 1
          apply itemsFrom_of_le
          · rw [List.length_append, List.length_cons, List.length_cons, hlength]
            omega
          · rw [List.length_append, List.length_cons]
            omega

end Scan

/-! ### Sources -/

def Token.below (token : Token) (lines : Nat) : Token :=
  ⟨token.kind, token.lexeme, token.line + lines⟩

theorem Scanned.ofItems_concat (front : List Item) (stop line : Nat) :
    Scanned.ofItems (front ++ [endAt stop line]) =
      ⟨front.filterMap Item.token?, .endOfSource line, front.filterMap Item.error?⟩ := by
  simp [Scanned.ofItems, endAt, Item.token?, Item.error?, Token.endOfSource]

theorem scan_eq_concat (source : Source) :
    ∃ front stop line, scan source = front ++ [endAt stop line] := itemsFrom_eq_concat ..

theorem Scanned.last_ofSource (source : Source) : (Scanned.ofSource source).last.kind = .eof := by
  obtain ⟨front, stop, line, hscan⟩ := scan_eq_concat source
  rw [Scanned.ofSource, hscan, Scanned.ofItems_concat]
  rfl

/-- The items of a source without errors, then a line break and another source. -/
theorem scan_append {source : Source} (more : Source)
    (hnone : (Scanned.ofSource source).errors = []) :
    scan (source ++ newline :: more) =
      (scan source).dropLast ++ (scan more).map
      (·.moved (source.length + 1) (source.count newline + 1)) := by
  have hitems : ∀ item ∈ scan source, item.error? = none := List.filterMap_eq_nil_iff.1 hnone
  have hlength : (source ++ newline :: more).length = source.length + more.length + 1 := by
    rw [List.length_append, List.length_cons]
    omega
  have hmoved := itemsFrom_moved (source.length + 1) (source.count newline + 1) more.length 0 1 more
  unfold scan at hitems ⊢
  rw [hlength, itemsFrom_append source.length 0 1 more (Nat.le_refl _) hitems, ← hmoved]
  rfl

theorem Scan.Item.token?_moved (item : Item) (bytes lines : Nat) :
    (item.moved bytes lines).token? = item.token?.map (·.below lines) := by
  unfold Item.token? Item.moved
  cases item.finding <;> rfl

theorem Scan.Item.error?_moved {item : Item} (h : item.error? = none) (bytes lines : Nat) :
    (item.moved bytes lines).error? = none := by
  unfold Item.error? Item.moved at *
  cases hfinding : item.finding with
  | token kind lexeme => rfl
  | error cause => simp [hfinding] at h

/-- Joining two sources without errors by a line break joins their tokens, those of the second
further down. -/
theorem Scanned.ofSource_append {source more : Source}
    (hnone : (Scanned.ofSource source).errors = []) (hmore : (Scanned.ofSource more).errors = []) :
    Scanned.ofSource (source ++ newline :: more) =
      ⟨(Scanned.ofSource source).tokens ++
        (Scanned.ofSource more).tokens.map (·.below (source.count newline + 1)),
        (Scanned.ofSource more).last.below (source.count newline + 1), []⟩ := by
  have hboth := scan_append more hnone
  obtain ⟨front, stop, line, hscan⟩ := scan_eq_concat source
  obtain ⟨front', stop', line', hscan'⟩ := scan_eq_concat more
  rw [Scanned.ofSource, hscan, Scanned.ofItems_concat] at hnone
  rw [Scanned.ofSource, hscan', Scanned.ofItems_concat] at hmore
  have hend : (endAt stop' line').moved (source.length + 1) (source.count newline + 1) =
      endAt (stop' + (source.length + 1)) (line' + (source.count newline + 1)) := rfl
  rw [hscan, hscan', List.dropLast_concat, List.map_append, List.map_singleton, hend,
    ← List.append_assoc] at hboth
  have herrors : (front'.map (·.moved (source.length + 1) (source.count newline + 1))).filterMap
      Item.error? = [] := by
    rw [List.filterMap_eq_nil_iff] at hmore ⊢
    intro item hitem
    obtain ⟨item, hmem, rfl⟩ := List.mem_map.1 hitem
    exact Item.error?_moved (hmore item hmem) _ _
  have htokens :
      (front'.map (·.moved (source.length + 1) (source.count newline + 1))).filterMap Item.token? =
      (front'.filterMap Item.token?).map (·.below (source.count newline + 1)) := by
    rw [List.filterMap_map, List.map_filterMap]
    congr 1
    funext item
    exact item.token?_moved _ _
  simp only [Scanned.ofSource, hboth, hscan, hscan', Scanned.ofItems_concat, List.filterMap_append,
    herrors, htokens]
  simp only at hnone
  rw [hnone]
  rfl

end TraitScript
