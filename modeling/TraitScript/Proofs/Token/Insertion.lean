import TraitScript.Proofs.Token.Pieces

/-!
# Blanks and comments after a token

Blanks and comments have no findings, and what comes after them is scanned as it is anywhere else. A
token ends where a blank comes next, and so does the last piece of a source that leaves no comment
and no string open. So blanks and comments that begin with a blank can be put behind either, and
only move what comes after them.
-/

namespace TraitScript.Scan

section Splitting

variable {first : UInt8} {front after piece filler a b : List UInt8} {shape : Shape}
  {start line : Nat}

/-! ### Blanks and comments in front -/

theorem munch_trivia (h : Trivia after piece) :
    ∃ first front, piece = first :: front ∧
      munch first (front ++ after) = ⟨.trivia, front.length⟩ := by
  cases h with
  | blank hblank => exact ⟨_, [], rfl, if_pos hblank⟩
  | @lineComment text htext hends =>
      have hrun : run (· != newline) text = text.length := run_eq_length fun byte hbyte => by
        rw [bne_iff_ne]
        rintro rfl
        exact htext hbyte
      have hstop : run (· != newline) after = 0 := by
        refine run_eq_zero fun byte hbyte => ?_
        rcases hends with rfl | hnewline
        · cases hbyte
        · rw [hnewline] at hbyte
          cases hbyte
          rfl
      refine ⟨slash, slash :: text, rfl, ?_⟩
      show munchSlash (slash :: (text ++ after)) = _
      rw [munchSlash_line, run_append, if_pos hrun, hstop, List.length_cons,
        Nat.add_comm, Nat.add_zero]
  | @blockComment rest hrest =>
      refine ⟨slash, star :: rest, rfl, ?_⟩
      show munchSlash (star :: (rest ++ after)) = _
      have hlength : commentLength 1 (rest ++ after) = some rest.length :=
        (hrest.commentLength_append 0 after).trans (if_pos rfl)
      rw [munchSlash_block, hlength, List.length_cons, Nat.add_comm rest.length]

/-- Blanks and comments in front only move what comes after them. -/
theorem itemsAt_gap (h : Gap after filler) (start line : Nat) :
    itemsAt start line (filler ++ after) =
      itemsAt (start + filler.length) (line + filler.count newline) after := by
  induction h generalizing start line with
  | nil => rfl
  | cons hpiece _ ih =>
      obtain ⟨first, front, rfl, hmunch⟩ := munch_trivia hpiece
      rw [List.append_assoc, List.cons_append, itemsAt_piece start line hmunch, ih,
        List.length_append, List.count_append, ← Nat.add_assoc,
        ← Nat.add_assoc]
      rfl

/-! ### The last piece -/

/-- In front of `b`, scanning ends a piece where `a` ends. -/
inductive LastPiece (b : List UInt8) : (a : List UInt8) → Shape → List UInt8 → Prop
  | here {first : UInt8} {front : List UInt8} {shape : Shape} :
      munch first (front ++ b) = ⟨shape, front.length⟩ →
      LastPiece b (first :: front) shape (first :: front)
  | later {first : UInt8} {front a bytes : List UInt8} {shape shape' : Shape} :
      munch first (front ++ (a ++ b)) = ⟨shape, front.length⟩ →
      LastPiece b a shape' bytes → LastPiece b (first :: front ++ a) shape' bytes

theorem LastPiece.ne_nil {bytes : List UInt8} (h : LastPiece b a shape bytes) : a ≠ [] := by
  cases h <;> exact List.cons_ne_nil _ _

/-- An item ends with a piece that it stands for, or it is the end of the source. -/
theorem lastPiece_of_mem {item : Item} (hitem : item ∈ itemsAt start line (a ++ b))
    (hstop : item.stop = start + a.length) :
    (∃ shape bytes, LastPiece b a shape bytes ∧ findingOf shape bytes = some item.finding) ∨
      b = [] ∧ item.finding = .token .eof "" := by
  induction hsource : a ++ b using piece_induction generalizing a start line with
  | nil =>
      rw [hsource] at hitem
      obtain rfl := List.mem_singleton.1 hitem
      exact .inr ⟨(List.append_eq_nil_iff.1 hsource).2, rfl⟩
  | piece first front after shape hpiece ih =>
      have hpieces : a ++ b = (first :: front) ++ after := hsource
      rw [hsource, itemsAt_piece start line hpiece, List.mem_append, Option.mem_toList] at hitem
      rcases hitem with hhere | hlater
      · obtain ⟨hfound, -, hend, -⟩ := mem_pieceItem hhere
        obtain ⟨rfl, rfl⟩ : a = first :: front ∧ b = after := List.append_inj hpieces (by omega)
        exact .inl ⟨shape, _, .here hpiece, hfound⟩
      · obtain ⟨hstart, hspan⟩ := bounds_of_mem_itemsAt hlater
        obtain ⟨more, rfl, rfl⟩ : ∃ more, a = first :: front ++ more ∧ after = more ++ b := by
          rcases List.append_eq_append_iff.1 hpieces with
            ⟨more, hfront, hb⟩ | ⟨more, hfront, hafter⟩
          · have hlength := congrArg List.length hfront
            rw [List.length_append] at hlength
            obtain rfl : more = [] := List.length_eq_zero_iff.1 (by omega)
            exact ⟨[], by simpa using hfront.symm, by simpa using hb.symm⟩
          · exact ⟨more, hfront, hafter⟩
        rw [List.length_append, ← Nat.add_assoc] at hstop
        rcases ih hlater hstop rfl with ⟨shape', bytes, hlast, hfound⟩ | hend
        · exact .inl ⟨shape', bytes, .later hpiece hlast, hfound⟩
        · exact .inr hend

theorem exists_lastPiece (a : List UInt8) (ha : a ≠ []) :
    ∃ shape bytes, LastPiece [] a shape bytes := by
  induction a using piece_induction with
  | nil => exact (ha rfl).elim
  | piece first front after shape hpiece ih =>
      by_cases hafter : after = []
      · subst hafter
        rw [List.append_nil]
        exact ⟨shape, _, .here hpiece⟩
      · obtain ⟨shape', bytes, hlast⟩ := ih hafter
        exact ⟨shape', bytes, .later (by rwa [List.append_nil]) hlast⟩

/-! ### Splitting a scan -/

/-- The same is found in `a` in front of `b` and in front of `b'`. -/
def Settled (a b b' : List UInt8) (start line : Nat) : Prop :=
  ∃ before : List Item, (∀ item ∈ before, item.start < start + a.length) ∧
    ∀ after, after = b ∨ after = b' →
    itemsAt start line (a ++ after) =
    before ++ itemsAt (start + a.length) (line + a.count newline) after

theorem settled_nil (b b' : List UInt8) (start line : Nat) : Settled [] b b' start line :=
  ⟨[], nofun, fun _ _ => rfl⟩

theorem Settled.cons_piece {b' : List UInt8}
    (h : Settled a b b' (start + (first :: front).length) (line + (first :: front).count newline))
    (hpiece : munch first (front ++ (a ++ b)) = ⟨shape, front.length⟩)
    (hpiece' : munch first (front ++ (a ++ b')) = ⟨shape, front.length⟩) :
    Settled (first :: front ++ a) b b' start line := by
  obtain ⟨before, hbefore, hitems⟩ := h
  refine ⟨(pieceItem start line shape (first :: front)).toList ++ before, fun item hitem => ?_,
    fun after hafter => ?_⟩
  · rw [List.length_append]
    rcases List.mem_append.1 hitem with hhere | hlater
    · rw [(mem_pieceItem (Option.mem_toList.1 hhere)).2.1, List.length_cons]
      omega
    · have := hbefore item hlater
      omega
  · have hboth : munch first (front ++ (a ++ after)) = ⟨shape, front.length⟩ := by
      rcases hafter with rfl | rfl
      · exact hpiece
      · exact hpiece'
    rw [List.append_assoc, List.cons_append, itemsAt_piece start line hboth, hitems after hafter,
      List.append_assoc, List.length_append,
      List.count_append, Nat.add_assoc, Nat.add_assoc]

/-- What is found up to the end of a piece stays the same if what comes next is exchanged and the
piece ends there all the same. -/
theorem LastPiece.settled {bytes b' : List UInt8} (h : LastPiece b a shape bytes)
    (hblank : BlankAhead b') (hends : shape.EndsBefore bytes b') (start line : Nat) :
    Settled a b b' start line := by
  induction h generalizing start line with
  | @here first front shape hpiece =>
      have hexchanged : munch first (front ++ b') = ⟨shape, front.length⟩ :=
        munch_exchange hpiece (Nat.le_refl _) hblank fun _ => hends
      have hsettled : Settled (first :: front ++ []) b b' start line :=
        (settled_nil b b' _ _).cons_piece hpiece hexchanged
      rwa [List.append_nil] at hsettled
  | @later first front a bytes shape _ hpiece hlast ih =>
      -- This piece has something else behind it, so that what is exchanged does not matter to it.
      have hinside : front.length < (front ++ a).length := by
        rw [List.length_append]
        exact Nat.lt_add_of_pos_right (List.length_pos_iff.2 hlast.ne_nil)
      have hexchanged : munch first (front ++ (a ++ b')) = ⟨shape, front.length⟩ := by
        rw [← List.append_assoc] at hpiece ⊢
        exact munch_exchange hpiece (Nat.le_of_lt hinside) hblank fun hall =>
          absurd hall (Nat.ne_of_lt hinside)
      exact (ih hends _ _).cons_piece hpiece hexchanged

end Splitting

/-! ### Insertion -/

/-- Blanks, line comments that are ended by a line break, and block comments, one after another. -/
inductive Filler : List UInt8 → Prop
  | nil : Filler []
  | blank {byte : UInt8} {rest : List UInt8} : isBlank byte → Filler rest → Filler (byte :: rest)
  | lineComment {text rest : List UInt8} :
      newline ∉ text → Filler rest → Filler (slash :: slash :: (text ++ newline :: rest))
  | blockComment {comment rest : List UInt8} :
      CommentRest comment → Filler rest → Filler (slash :: star :: (comment ++ rest))

theorem Filler.gap {filler : List UInt8} (h : Filler filler) (after : List UInt8) :
    Gap after filler := by
  induction h with
  | nil => exact .nil
  | blank hblank _ ih => exact .cons (.blank hblank) ih
  | @lineComment text rest htext _ ih =>
      have hbreak : Gap after (newline :: rest) := .cons (.blank rfl) ih
      exact .cons (.lineComment htext (.inr rfl)) hbreak
  | blockComment hcomment _ ih => exact .cons (.blockComment hcomment) ih

/-- The last piece of a source ends before what comes next: no string or block comment is left open,
and a line comment only before a line break. -/
def ClosedBefore (source after : List UInt8) : Prop :=
  ∀ shape bytes, LastPiece [] source shape bytes → shape.EndsBefore bytes after

/-- Blanks and comments that are put behind a token, a blank first, leave everything before them as
it is. Everything after them is only moved: down by the line breaks among them, and on by their
length. They can be put behind the end of the source as well, if that is closed. -/
theorem scan_insert {a b filler : List UInt8} {blank : UInt8} (hblank : isBlank blank)
    (hfiller : Filler filler)
    (htoken : ∃ item ∈ scan (a ++ b), item.stop = a.length ∧ ∃ kind lexeme,
      item.finding = .token kind lexeme ∧ (kind = .eof → ClosedBefore a (blank :: filler))) :
    scan (a ++ blank :: filler ++ b) = (scan (a ++ b)).map fun item =>
      if item.start < a.length then item
      else item.moved (blank :: filler).length ((blank :: filler).count newline) := by
  obtain ⟨item, hitem, hstop, kind, lexeme, hfinding, hclosed⟩ := htoken
  have hahead : BlankAhead (blank :: filler ++ b) := blankAhead_cons hblank (filler ++ b)
  have hsettled : Settled a b (blank :: filler ++ b) 0 1 := by
    rcases lastPiece_of_mem hitem (hstop.trans (Nat.zero_add _).symm) with
      ⟨shape, bytes, hlast, hfound⟩ | ⟨rfl, hend⟩
    · rw [hfinding] at hfound
      exact hlast.settled hahead ((lexeme_of_findingOf hfound).2 _) 0 1
    · rw [hfinding] at hend
      cases hend
      by_cases ha : a = []
      · subst ha
        exact settled_nil [] _ 0 1
      · obtain ⟨shape, bytes, hlast⟩ := exists_lastPiece a ha
        rw [List.append_nil] at hahead ⊢
        exact hlast.settled hahead (hclosed rfl shape bytes hlast) 0 1
  obtain ⟨before, hbefore, hitems⟩ := hsettled
  rw [Nat.zero_add] at hbefore hitems
  have hgap : Gap b (blank :: filler) := .cons (.blank hblank) (hfiller.gap b)
  have hkept : ∀ item ∈ before, (if item.start < a.length then item else
      item.moved (blank :: filler).length ((blank :: filler).count newline)) = item :=
        fun item hmem => if_pos (hbefore item hmem)
  have hmoved : ∀ item ∈ itemsAt a.length (1 + a.count newline) b,
      (if item.start < a.length then item else
      item.moved (blank :: filler).length ((blank :: filler).count newline)) =
        item.moved (blank :: filler).length ((blank :: filler).count newline) :=
    fun item hmem => if_neg (Nat.not_lt.2 (bounds_of_mem_itemsAt hmem).1)
  rw [scan_eq_itemsAt, scan_eq_itemsAt, List.append_assoc, hitems (blank :: filler ++ b) (.inr rfl),
    itemsAt_gap hgap, itemsAt_moved,
    hitems b (.inl rfl), List.map_append, List.map_congr_left hkept,
    List.map_congr_left hmoved, List.map_id']

theorem scan_insert_between_word_and_symbol :
    isBlank 32 ∧ Filler [10, 47, 47, 59, 10, 47, 42, 47, 42, 42, 47, 10, 42, 47] ∧
    (∃ item ∈ scan ([97] ++ [59]), item.stop = [(97 : UInt8)].length ∧
      ∃ kind lexeme, item.finding = .token kind lexeme ∧
      (kind = .eof →
        ClosedBefore [97] (32 :: [10, 47, 47, 59, 10, 47, 42, 47, 42, 42, 47, 10, 42, 47]))) ∧
    scan [97, 32, 10, 47, 47, 59, 10, 47, 42, 47, 42, 42, 47, 10, 42, 47, 59] =
      [⟨0, 1, 1, .token .identifier "a"⟩,
        ⟨16, 17, 4, .token (.symbol .semicolon) ";"⟩, endAt 17 4] := by
  have hclosed : CommentRest [10, 42, 47] := .other (by decide) (by decide) .close
  have hline :=
    Filler.lineComment (show newline ∉ [59] by decide) (.blockComment (.nested .close hclosed) .nil)
  have hfiller : Filler [10, 47, 47, 59, 10, 47, 42, 47, 42, 42, 47, 10, 42, 47] := .blank rfl hline
  have hblank : isBlank 32 := rfl
  have hbefore : scan ([97] ++ [59]) = [⟨0, 1, 1, .token .identifier "a"⟩,
      ⟨1, 2, 1, .token (.symbol .semicolon) ";"⟩, endAt 2 1] := by
    decide +kernel
  have htoken : ∃ item ∈ scan ([97] ++ [59]), item.stop = [(97 : UInt8)].length ∧
      ∃ kind lexeme, item.finding = .token kind lexeme ∧
      (kind = .eof →
        ClosedBefore [97] (32 :: [10, 47, 47, 59, 10, 47, 42, 47, 42, 42, 47, 10, 42, 47])) := by
    rw [hbefore]
    exact ⟨_, List.mem_cons_self .., rfl, .identifier, "a", rfl, nofun⟩
  refine ⟨hblank, hfiller, htoken, ?_⟩
  have hinserted := scan_insert hblank hfiller htoken
  rw [hbefore] at hinserted
  exact hinserted

/-- Behind a line comment at the end of a source this is not so: the comment takes in the blank and
the opening of a block comment that are put behind it. -/
theorem scan_insert_not_at_end :
    ¬ ∀ (a b filler : List UInt8) (blank : UInt8), isBlank blank → Filler filler →
      (∃ item ∈ scan (a ++ b), item.stop = a.length ∧
          ∃ kind lexeme, item.finding = .token kind lexeme) →
      scan (a ++ blank :: filler ++ b) = (scan (a ++ b)).map fun item =>
        if item.start < a.length then item
        else item.moved (blank :: filler).length ((blank :: filler).count newline) := by
  intro h
  have hclosed : CommentRest [10, 42, 47] := .other (by decide) (by decide) .close
  have hfiller := Filler.blockComment hclosed .nil
  have hend : endAt 2 1 ∈ scan ([47, 47] ++ []) := by decide +kernel
  have hscan := h [47, 47] [] _ 32 rfl hfiller ⟨_, hend, rfl, .eof, "", rfl⟩
  revert hscan
  decide +kernel

end TraitScript.Scan
