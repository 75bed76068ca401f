import Mathlib.Data.List.Basic
import TraitScript.Tree.Render

/-!
# Texts in parentheses

A text between parentheses can be taken apart again if each of its words is an item: either it has
no blanks and parentheses, or it is itself such a text. Reading an item from the left then ends
where the item ends, at a blank or at a parenthesis that was not opened in it.
-/

namespace TraitScript

/-- The front of a text, up to a blank or a closing parenthesis outside of the parentheses opened in
it. -/
def firstItem : (depth : Nat) → List Char → List Char
  | _, [] => []
  | depth, '(' :: rest => '(' :: firstItem (depth + 1) rest
  | 0, ')' :: _ => []
  | depth + 1, ')' :: rest => ')' :: firstItem depth rest
  | 0, ' ' :: _ => []
  | depth + 1, ' ' :: rest => ' ' :: firstItem (depth + 1) rest
  | depth, c :: rest => c :: firstItem depth rest

theorem firstItem_plain (depth : Nat) {c : Char} (hblank : c ≠ ' ') (hopen : c ≠ '(')
    (hclose : c ≠ ')') (rest : List Char) :
    firstItem depth (c :: rest) = c :: firstItem depth rest :=
  firstItem.eq_7 depth c rest hopen (fun _ => hclose) (fun _ _ => hclose) (fun _ => hblank)
    (fun _ _ => hblank)

/-- A text that reading goes past, however many parentheses are open. -/
structure IsItem (text : String) : Prop where
  nonempty : text ≠ ""
  passed : ∀ depth rest, firstItem depth (text.toList ++ rest) = text.toList ++ firstItem depth rest

def Items (words : List String) : Prop := ∀ word ∈ words, IsItem word

variable {word : String} {words words' : List String}

namespace Items

theorem nil : Items [] := nofun

theorem cons (h : IsItem word) (h' : Items words) : Items (word :: words) :=
  List.forall_mem_cons.2 ⟨h, h'⟩

theorem append (h : Items words) (h' : Items words') : Items (words ++ words') :=
  List.forall_mem_append.2 ⟨h, h'⟩

theorem map {tree : Type} {render : tree → String} {trees : List tree}
    (h : ∀ t ∈ trees, IsItem (render t)) : Items (trees.map render) :=
  List.forall_mem_map.2 h

end Items

theorem isItem_of_plain {text : String} (hnonempty : text ≠ "")
    (h : ∀ c ∈ text.toList, c ≠ ' ' ∧ c ≠ '(' ∧ c ≠ ')') : IsItem text := by
  refine ⟨hnonempty, fun depth rest => ?_⟩
  generalize text.toList = chars at h
  induction chars with
  | nil => rfl
  | cons c chars ih =>
      obtain ⟨⟨hblank, hopen, hclose⟩, hchars⟩ := List.forall_mem_cons.1 h
      rw [List.cons_append, firstItem_plain depth hblank hopen hclose, ih hchars, List.cons_append]

/-- Whether a text has neither blanks nor parentheses. -/
def isWord (text : String) : Bool :=
  text != "" && text.toList.all fun c => c != ' ' && c != '(' && c != ')'

theorem isItem_of_isWord (h : isWord word = true) : IsItem word := by
  simp only [isWord, Bool.and_eq_true, bne_iff_ne, List.all_eq_true, and_assoc] at h
  exact isItem_of_plain h.1 h.2

theorem Items.consWord (h : isWord word = true) (hwords : Items words) : Items (word :: words) :=
  .cons (isItem_of_isWord h) hwords

/-- The characters of words after an opening parenthesis, up to the closing one. -/
def wordsInside : List String → List Char
  | [] => [')']
  | [word] => word.toList ++ [')']
  | word :: rest => word.toList ++ ' ' :: wordsInside rest

theorem toList_parenthesize (words : List String) :
    (parenthesize words).toList = '(' :: wordsInside words := by
  rw [parenthesize, String.toList_append, String.toList_append, String.toList_intercalate]
  fun_induction wordsInside words with
  | case1 => rfl
  | case2 word => simp
  | case3 word rest hrest ih =>
      obtain ⟨next, others, rfl⟩ := List.exists_cons_of_ne_nil hrest
      simp only [List.map_cons, List.intercalate_cons_cons] at ih ⊢
      simpa using ih

theorem firstItem_wordsInside (depth : Nat) (h : Items words) (rest : List Char) :
    firstItem (depth + 1) (wordsInside words ++ rest) =
      wordsInside words ++ firstItem depth rest := by
  fun_induction wordsInside words with
  | case1 => rfl
  | case2 word =>
      rw [List.append_assoc, (h word (List.mem_cons_self ..)).passed]
      simp [firstItem]
  | case3 word others hothers ih =>
      obtain ⟨hword, hall⟩ := List.forall_mem_cons.1 h
      rw [List.append_assoc, hword.passed, List.cons_append]
      simp [firstItem, ih hall]

theorem isItem_parenthesize (h : Items words) : IsItem (parenthesize words) := by
  refine ⟨fun hempty => ?_, fun depth rest => ?_⟩
  · have hchars := toList_parenthesize words
    rw [hempty] at hchars
    cases hchars
  · rw [toList_parenthesize, List.cons_append, firstItem, firstItem_wordsInside depth h]
    rfl

theorem firstItem_item (h : IsItem word) {rest : List Char}
    (hrest : rest.head? = some ' ' ∨ rest.head? = some ')') :
    firstItem 0 (word.toList ++ rest) = word.toList := by
  have hstop : firstItem 0 rest = [] := by
    cases rest with
    | nil => rfl
    | cons c rest =>
        simp only [List.head?_cons, Option.some_inj] at hrest
        rcases hrest with rfl | rfl <;> rfl
  rw [h.passed, hstop, List.append_nil]

theorem wordsInside_cons (word : String) (rest : List String) :
    ∃ tail, wordsInside (word :: rest) = word.toList ++ tail ∧
    (tail.head? = some ' ' ∨ tail.head? = some ')') ∧
    (rest = [] ∧ tail = [')'] ∨ rest ≠ [] ∧ tail = ' ' :: wordsInside rest) := by
  cases rest with
  | nil => exact ⟨[')'], rfl, .inr rfl, .inl ⟨rfl, rfl⟩⟩
  | cons next others =>
    exact ⟨' ' :: wordsInside (next :: others), rfl, .inl rfl, .inr ⟨by simp, rfl⟩⟩

theorem wordsInside_injective (h : Items words) (h' : Items words')
    (heq : wordsInside words = wordsInside words') : words = words' := by
  -- a word is neither empty nor starts with a closing parenthesis
  have hsome : ∀ {word : String} {rest : List String}, IsItem word →
      wordsInside [] ≠ wordsInside (word :: rest) := by
    intro word rest hword heq
    obtain ⟨tail, htail, hhead, -⟩ := wordsInside_cons word rest
    have hitem := firstItem_item hword hhead
    rw [← htail, ← heq] at hitem
    exact hword.nonempty (String.toList_eq_nil_iff.1 hitem.symm)
  induction words generalizing words' with
  | nil =>
      cases words' with
      | nil => rfl
      | cons word' rest' => exact absurd heq (hsome (h' word' (List.mem_cons_self ..)))
  | cons word rest ih =>
      cases words' with
      | nil => exact absurd heq.symm (hsome (h word (List.mem_cons_self ..)))
      | cons word' rest' =>
          obtain ⟨hword, hrest⟩ := List.forall_mem_cons.1 h
          obtain ⟨hword', hrest'⟩ := List.forall_mem_cons.1 h'
          obtain ⟨tail, htail, hhead, hcases⟩ := wordsInside_cons word rest
          obtain ⟨tail', htail', hhead', hcases'⟩ := wordsInside_cons word' rest'
          rw [htail, htail'] at heq
          have hsame : word.toList = word'.toList := by
            rw [← firstItem_item hword hhead, heq, firstItem_item hword' hhead']
          obtain rfl := String.toList_injective hsame
          obtain rfl := List.append_cancel_left heq
          rcases hcases with ⟨rfl, rfl⟩ | ⟨hne, rfl⟩
          · rcases hcases' with ⟨rfl, -⟩ | ⟨-, htail⟩
            · rfl
            · cases htail
          · rcases hcases' with ⟨-, htail⟩ | ⟨-, htail⟩
            · cases htail
            · rw [ih hrest hrest' (List.cons_injective htail)]

/-- A text in parentheses has its words in one way only. -/
theorem parenthesize_injective (h : Items words) (h' : Items words')
    (heq : parenthesize words = parenthesize words') : words = words' := by
  refine wordsInside_injective h h' (@List.cons_injective _ '(' _ _ ?_)
  rw [← toList_parenthesize, ← toList_parenthesize, heq]

end TraitScript
